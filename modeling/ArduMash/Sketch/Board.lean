import ArduMash.Dallas.Library
import ArduMash.Database.Library
import ArduMash.Sketch.Loop

/-!
The sketch on the board, with the libraries below it. `setup` starts from the global
objects as they are at power-on, and what an iteration takes for the reading of the
probe is what the library finds on the line.
-/

namespace ArduMash.Sketch.Board
open Globals Hardware Foundation.RoundMachine Foundation.CellMemory
open OneWire.Line (Address Wire)
open Dallas.Library (Sensors setOneWire getAddress requestTemperatures)
open Database.Library (DB)

/-- The objects of the libraries, and the variables of the sketch. -/
structure Ram where
  sensors : Sensors
  insideThermometer : Address
  db : DB
  state : State

/-- The globals before `setup`. -/
def powerOn : Ram where
  sensors := setOneWire
  insideThermometer := ⟨fun _ => 0⟩
  db := Database.Library.db
  state := setupWith fun _ _ => default

/-! `setup`. -/

/-- `MY_TBL`. -/
def myTbl : ℕ := 1

/-- `sizeof(recipeStep)`. -/
def recipeStepSize : Byte := 17

def bootScreen : List LcdOp := [.setCursor 0 0, .print (.text "ArduMash 0.1.2")]

def noAddressLine : List PrintItem := [.text "Unable to find address for Device 0"]

/-- Everything `setup` prints, with the count of devices and whether there was an address. -/
def setupEvents (devices : Byte) (located : Bool) : List Event :=
  [.serial [], .serial [.text "ArduMash 0.1.3"],
    .serial [.text "Creating Table...", .text "DONE"],
    .serial [], .serial [.text "Starting Temprature Probe Steup"],
    .serial [.text "Found ", .number devices.toNat, .text " devices."]] ++
  (if located then [] else [.serial noAddressLine]) ++
  [.serial [.text "Temprature Probe Steup DONE"],
    .serial [], .serial [.text "Starting Relay Steup"],
    .serial [.text "Relay set to pin:", .number 3], .serial [.text "Relay Steup DONE"],
    .serial [], .serial [.text "Starting Display Steup"]] ++
  draw [.clear] ++ [.serial [.text "Display Setup DONE"]] ++ draw bootScreen ++
  [.serial [.text "SETUP COMPLETE"], .serial []]

structure Booted (τ σ : Type) where
  ram : Ram
  events : List Event
  eeprom : τ
  line : σ

/-- The loops over the devices get `fuel`. -/
def setup {τ σ : Type} (eeprom : Memory τ Byte) (wire : Wire σ) (fuel : ℕ) (m : τ) (line : σ) :
    Booted τ σ :=
  let created := powerOn.db.create eeprom myTbl recipeStepSize m
  let begun := Dallas.Library.begin wire fuel powerOn.sensors line
  let located := getAddress wire fuel powerOn.insideThermometer 0 begun.1 begun.2
  { ram :=
      { sensors := located.sensors
        insideThermometer := located.deviceAddress
        db := created.1.openTable eeprom myTbl created.2
        state := { powerOn.state with recipe := mashRecipe } }
    events := setupEvents begun.1.devices located.result
    eeprom := created.2
    line := located.bus }

/-! `loop`. -/

/-- What an iteration asks the outside: the line as `loop` finds it, and as the status screen
does. -/
structure Inputs (σ : Type) where
  line : σ
  screenLine : σ
  adcKeyIn : ℕ
  clock : Clocks Millis

inductive BoardFault where
  | recipe (fault : Fault)
  | divisionByZero
  deriving DecidableEq

/-- `waited` are the milliseconds in `requestTemperatures`. -/
structure Round where
  ram : Ram
  waited : ℕ
  iteration : Loop.Iteration

instance : Inhabited Round := ⟨⟨powerOn, 0, default⟩⟩

section Wire
variable {σ : Type} (wire : Wire σ)

/-- The reading `loop` takes, if there is no division by zero. -/
def loopProbe (inputs : Inputs σ) (s : Ram) : Option (BitVec 16) :=
  (Dallas.Library.getTemp wire s.insideThermometer
    (requestTemperatures wire s.sensors inputs.line).2).1

/-- The reading the status screen takes, if there is no division by zero. -/
def screenProbe (inputs : Inputs σ) (s : Ram) : Option (BitVec 16) :=
  (Dallas.Library.getTemp wire s.insideThermometer inputs.screenLine).1

def readings (inputs : Inputs σ) (s : Ram) : Readings where
  probe := loopProbe wire inputs s
  adcKeyIn := inputs.adcKeyIn
  clock := inputs.clock
  screenProbe := screenProbe wire inputs s

def loop (inputs : Inputs σ) (s : Ram) : Except BoardFault Round :=
  if loopProbe wire inputs s = none then .error .divisionByZero
  else
    match Loop.loop (readings wire inputs s) s.state with
    | .error fault => .error (.recipe fault)
    | .ok iteration =>
      -- only the status screen reads the probe again, after everything else that can fail
      if iteration.afterInput.state.systemState = .running ∧
          screenProbe wire inputs s = none then .error .divisionByZero
      else
        .ok
          { ram := { s with state := iteration.final }
            waited := (requestTemperatures wire s.sensors inputs.line).1
            iteration := iteration }

def board : Machine (Inputs σ) Ram Round BoardFault where
  round := loop wire
  next := Round.ram

abbrev BoardRun := Run (board wire)

end Wire

end ArduMash.Sketch.Board
