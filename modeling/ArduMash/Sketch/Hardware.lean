import ArduMash.Sketch.Globals

/-!
What the board is connected to. Everything an iteration of `loop` asks the
outside is one field of `Readings`, one field for each place that asks; each
place runs at most once in an iteration. Everything it does to the outside, and
every access to the recipe table, is an `Event`.
-/

namespace ArduMash.Sketch.Hardware
open Globals

/-! The probe, as the vendored DallasTemperature library reads it. -/

/-- `DEVICE_DISCONNECTED_RAW`. -/
def deviceDisconnectedRaw : BitVec 16 := -7040

/-- `DEVICE_DISCONNECTED_C`. -/
def deviceDisconnectedC : ℚ := -127

def rawToCelsius (raw : BitVec 16) : ℚ :=
  if raw.toInt ≤ deviceDisconnectedRaw.toInt then deviceDisconnectedC else raw.toInt / 128

/-- `none` is a scratch pad that could not be read. -/
def getTemp (probe : Option (BitVec 16)) : BitVec 16 := probe.getD deviceDisconnectedRaw

def getTempC (probe : Option (BitVec 16)) : ℚ := rawToCelsius (getTemp probe)

/-! The button ladder on analog input 0. -/

inductive Button where
  | right
  | up
  | down
  | left
  | select
  | none
  deriving DecidableEq, Inhabited, Repr

def readLCDButtons (adcKeyIn : ℕ) : Button :=
  if adcKeyIn > 1000 then .none
  else if adcKeyIn < 50 then .right
  else if adcKeyIn < 250 then .up
  else if adcKeyIn < 450 then .down
  else if adcKeyIn < 650 then .left
  else if adcKeyIn < 850 then .select
  else .none

/-! The clock. Every call of `millis` in an iteration, in program order. -/

structure Clocks (α : Type) where
  /-- `stepController`, for the run time of the step. -/
  step : α
  /-- `startStep`, called by `stepController`. -/
  autoStart : α
  /-- `inputController`, for the debounce test. -/
  guard : α
  /-- `startStep`, called by `inputController`. -/
  selectStart : α
  /-- `inputController`, the new `lastInput`. -/
  stamp : α
  /-- `displayStatusScreen`: pad of the minutes, minutes, pad of the seconds, seconds. -/
  screen : Fin 4 → α
  deriving Inhabited

def Clocks.map {α β : Type} (f : α → β) (clock : Clocks α) : Clocks β where
  step := f clock.step
  autoStart := f clock.autoStart
  guard := f clock.guard
  selectStart := f clock.selectStart
  stamp := f clock.stamp
  screen := fun i => f (clock.screen i)

structure Readings where
  probe : Option (BitVec 16)
  adcKeyIn : ℕ
  clock : Clocks Millis
  screenProbe : Option (BitVec 16)
  deriving Inhabited

/-! The outputs. -/

/-- One argument of a `print`. A `message` is the pointer `getMessage` returns; for the numbers
it has no text for it returns no value, and what is printed then is undefined. -/
inductive PrintItem where
  | text (text : String)
  | number (value : ℕ)
  | float (value : ℚ)
  | message (text : Option String)
  deriving DecidableEq, Repr

inductive LcdOp where
  | clear
  | setCursor (column row : ℕ)
  | print (item : PrintItem)
  deriving DecidableEq, Repr

inductive Event where
  | recipeRead (row index : ℕ)
  | recipeWrite (row index : ℕ)
  | digitalWrite (level : Level)
  | lcd (op : LcdOp)
  | serial (line : List PrintItem)
  deriving DecidableEq, Repr

def draw (ops : List LcdOp) : List Event := ops.map .lcd

/-- What the events draw on the LCD. -/
def drawn (events : List Event) : List LcdOp :=
  events.filterMap (fun event => match event with
    | .lcd op => some op
    | _ => none)

@[simp] theorem drawn_draw (ops : List LcdOp) : drawn (draw ops) = ops := by
  unfold drawn draw
  rw [List.filterMap_map]
  exact List.filterMap_some

@[simp] theorem drawn_append (first rest : List Event) :
    drawn (first ++ rest) = drawn first ++ drawn rest :=
  List.filterMap_append

end ArduMash.Sketch.Hardware
