import ArduMash.Sketch.Hardware
import ArduMash.Foundation.WrappingClock

/-!
The screens of the sketch: what each of them draws, call by call.
-/

namespace ArduMash.Sketch.Screens
open Globals Hardware Foundation.WrappingClock

structure Outcome where
  state : State
  events : List Event
  deriving DecidableEq, Inhabited

/-- `(millis() - startTime) / 60000` -/
def elapsedMinutes (startTime now : Millis) : Millis := elapsed startTime now / 60000

/-- `((millis() - startTime) / 1000) % 60` -/
def elapsedSeconds (startTime now : Millis) : Millis := elapsed startTime now / 1000 % 60

/-- The numbers from 8 on run off the end of the function. -/
def getMessage (messageNo : Byte) : Option String :=
  match messageNo.toNat with
  | 0 => some "Einmaischen"
  | 1 => some "Jod Test"
  | 2 => some "Laeutern"
  | 3 => some "1. Hopfen gabe"
  | 4 => some "2. Hopfen gabe"
  | 5 => some "2. Hopfen gabe"
  | 6 => some "Kochen Beendet"
  | 7 => some "Einmaischen"
  | _ => none

/-- The LCD calls of `waitAtStepEnd` for a step. -/
def promptOps (step : RecipeStep) : List LcdOp :=
  [.print (.message (getMessage step.messageNo)), .setCursor 0 1, .print (.text "Press Select")]

def waitAtStepEnd (s : State) : Except Fault Outcome := do
  let row := s.currentRecipe.toNat
  let index := s.currentStep.toNat
  let step ← readRecipe row index s
  .ok ⟨s, .recipeRead row index :: .serial [.message (getMessage step.messageNo)] ::
    draw (promptOps step)⟩

def finishScreen (s : State) : Outcome :=
  ⟨s, draw [.setCursor 0 0, .print (.text "Recipe: "), .print (.number s.currentRecipe.toNat),
    .setCursor 0 1, .print (.text "Finished")]⟩

/-- A zero before a number below 10. -/
def pad (zero : PrintItem) (value : ℕ) : List LcdOp := if value < 10 then [.print zero] else []

def initScreen (s : State) : Outcome :=
  ⟨s, draw ([.setCursor 0 0, .print (.text "Select Recipe:"), .setCursor 14 0] ++
    pad (.number 0) s.currentRecipe.toNat ++ [.print (.number s.currentRecipe.toNat),
    .setCursor 0 1, .print (.text "Select Step  :"), .setCursor 14 1] ++
    pad (.number 0) s.currentStep.toNat ++ [.print (.number s.currentStep.toNat)])⟩

def yesNo (flag : Bool) : LcdOp := .print (.text (if flag then "Y" else "N"))

/-- Time since start and duration. The pad of a number and the number itself read the clock anew. -/
def timeOps (screen : Fin 4 → Millis) (step : RecipeStep) : List LcdOp :=
  [.setCursor 8 0] ++
    pad (.text "0") (elapsedMinutes step.startTime (screen 0)).toNat ++
    [.print (.number (elapsedMinutes step.startTime (screen 1)).toNat), .print (.text ":")] ++
    pad (.text "0") (elapsedSeconds step.startTime (screen 2)).toNat ++
    [.print (.number (elapsedSeconds step.startTime (screen 3)).toNat), .print (.text " ")] ++
    pad (.text "0") step.duration.toNat ++ [.print (.number step.duration.toNat)]

def padItems (zero : PrintItem) (value : ℕ) : List PrintItem := if value < 10 then [zero] else []

/-- What `timeOps` prints for the elapsed time, up to the blank before the duration. -/
def clockItems (screen : Fin 4 → Millis) (step : RecipeStep) : List PrintItem :=
  padItems (.text "0") (elapsedMinutes step.startTime (screen 0)).toNat ++
    [.number (elapsedMinutes step.startTime (screen 1)).toNat, .text ":"] ++
    padItems (.text "0") (elapsedSeconds step.startTime (screen 2)).toNat ++
    [.number (elapsedSeconds step.startTime (screen 3)).toNat]

/-- Temperatures, step, auto-continue and heater. -/
def fieldOps (tempC : ℚ) (heatingState : Bool) (step : RecipeStep) : List LcdOp :=
  [.setCursor 0 0, if tempC > 0 then .print (.float tempC) else .print (.text "No Temp"),
    .setCursor 0 1, .print (.float step.targetTemp),
    .setCursor 6 1, .print (.text "S"), .print (.number step.recipeStep.toNat),
    .setCursor 9 1, .print (.text "A:"), yesNo step.autoContinue,
    .setCursor 13 1, .print (.text "H:"), yesNo heatingState]

def statusOps (tempC : ℚ) (heatingState : Bool) (screen : Fin 4 → Millis) (step : RecipeStep) :
    List LcdOp :=
  fieldOps tempC heatingState step ++ timeOps screen step

/-- The screen takes its own reading, which replaces the one `loop` took. -/
def displayStatusScreen (readings : Readings) (step : RecipeStep) (s : State) : Outcome :=
  let tempC := getTempC readings.screenProbe
  ⟨{ s with tempC := tempC },
    draw (statusOps tempC s.heatingState readings.clock.screen step)⟩

end ArduMash.Sketch.Screens
