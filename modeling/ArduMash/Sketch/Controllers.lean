import ArduMash.Sketch.Screens

/-!
`startStep` and the four controllers that `loop` runs. A controller returns the
state it leaves and its events in program order; consecutive accesses to one
entry of the recipe are one event.
-/

namespace ArduMash.Sketch.Controllers
open Globals Hardware Screens

def recipeEndLine : List PrintItem := [.text "Recipe 0 found, system state changed to Finished"]

def startingStepLine (index : Byte) (step : RecipeStep) : List PrintItem :=
  [.text "Starting Step:", .number index.toNat, .text "; Target Temp:", .float step.targetTemp,
    .text "; Duration:", .number step.duration.toNat,
    .text "; AutoContinue:", .number step.autoContinue.toNat]

/-- `for (int i = 0; i < Step; i++)`, the loop over the steps before the started one. -/
def markFinished (row : ℕ) : ℕ → State → Except Fault Outcome
  | 0, s => .ok ⟨s, []⟩
  | i + 1, s => do
    let before ← markFinished row i s
    let marked ← writeRecipe row i
      (fun step => { step with stepStatus := 3, startTime := 0 }) before.state
    .ok ⟨marked, before.events ++ [.recipeWrite row i]⟩

def startStep (now : Millis) (index : Byte) (s : State) : Except Fault Outcome :=
  if s.systemState = .finish then .ok ⟨s, []⟩
  else do
    let row := s.currentRecipe.toNat
    let step ← readRecipe row index.toNat s
    if step.recipe = 0 then
      .ok ⟨{ s with systemState := .finish },
        [.recipeRead row index.toNat, .serial recipeEndLine]⟩
    else do
      -- the source's `if (Step > 0)` around the loop only skips an empty loop
      let marked ← markFinished row index.toNat { s with currentStep := index }
      let started ← writeRecipe row index.toNat
        (fun step => { step with stepStatus := 1, startTime := now }) marked.state
      .ok ⟨started, [.recipeRead row index.toNat, .serial (startingStepLine index step)] ++
        marked.events ++ [.recipeWrite row index.toNat]⟩

/-- The run time in minutes, in the `byte` that `stepController` keeps it in. -/
def runTime (now : Millis) (step : RecipeStep) : Byte :=
  (elapsedMinutes step.startTime now).setWidth 8

/-- The test under `Check if end is not reached`. -/
def endNotReached (now : Millis) (tempC : ℚ) (step : RecipeStep) : Bool :=
  if step.duration = 0 then tempC < step.targetTemp
  else (runTime now step).setWidth 32 < step.duration

def stepController (clock : Clocks Millis) (step : RecipeStep) (s : State) :
    Except Fault Outcome :=
  if s.systemState = .finish ∨ s.systemState = .init then .ok ⟨s, []⟩
  else if endNotReached clock.step s.tempC step then .ok ⟨s, []⟩
  else if step.autoContinue then startStep clock.autoStart (s.currentStep + 1) s
  else .ok ⟨{ s with systemState := .wait }, []⟩

/-- The hysteresis, before the finish override. -/
def heating (step : RecipeStep) (s : State) : Bool :=
  if step.targetTemp < s.tempC then false
  else if step.targetTemp > s.tempC + 1 / 2 then true
  else s.heatingState

def heaterController (step : RecipeStep) (s : State) : Outcome :=
  if s.systemState = .finish then
    ⟨{ s with heatingState := false, relay := .low }, [.digitalWrite .low]⟩
  else
    let level := if heating step s then Level.high else Level.low
    ⟨{ s with heatingState := heating step s, relay := level }, [.digitalWrite level]⟩

def buttonDelay : Millis := 350

/-- Buttons are only accepted every `buttonDelay`. -/
def accepts (readings : Readings) (s : State) : Bool :=
  buttonDelay < Foundation.WrappingClock.elapsed s.lastInput readings.clock.guard

/-- Up, down, left and right, one test after the other. -/
def selectionButtons (key : Button) (now : Millis) (s : State) : State :=
  let s := if key = .up then
    { s with currentRecipe := s.currentRecipe + 1, lastInput := now } else s
  let s := if key = .down ∧ s.currentRecipe ≠ 0 then
    { s with currentRecipe := s.currentRecipe - 1, lastInput := now } else s
  let s := if key = .left ∧ s.currentStep ≠ 0 then
    { s with currentStep := s.currentStep - 1, lastInput := now } else s
  if key = .right then { s with currentStep := s.currentStep + 1, lastInput := now } else s

def inputController (readings : Readings) (s : State) : Except Fault Outcome :=
  let key := readLCDButtons readings.adcKeyIn
  let clock := readings.clock
  if accepts readings s then
    match s.systemState with
    | .init => do
      let s := selectionButtons key clock.stamp s
      if key = .select then
        let started ← startStep clock.selectStart s.currentStep s
        .ok ⟨{ started.state with systemState := .running, lastInput := clock.stamp },
          started.events ++ draw [.clear]⟩
      else .ok ⟨s, []⟩
    | .running => .ok ⟨s, []⟩
    | .finish => .ok ⟨s, []⟩
    | .wait => do
      if key = .select then
        let started ← startStep clock.selectStart (s.currentStep + 1) s
        .ok ⟨{ started.state with systemState := .running }, started.events⟩
      else .ok ⟨s, []⟩
  else .ok ⟨s, []⟩

/-- The screen of the current system state; `changed` is `lastSystemState != systemState`. -/
def showScreen (readings : Readings) (changed : Bool) (s : State) : Except Fault Outcome :=
  match s.systemState with
  | .init =>
    let shown := initScreen s
    .ok ⟨shown.state, (if changed then [.serial [.text "Recipe Selection Screen"]] else []) ++
      shown.events⟩
  | .running => do
    let row := s.currentRecipe.toNat
    let index := s.currentStep.toNat
    let step ← readRecipe row index s
    let shown := displayStatusScreen readings step s
    .ok ⟨shown.state, .recipeRead row index :: shown.events⟩
  | .finish =>
    let shown := finishScreen s
    .ok ⟨shown.state, shown.events ++
      (if changed then [.serial [.text "Recipe Finished"]] else [])⟩
  | .wait => if changed then waitAtStepEnd s else .ok ⟨s, []⟩

def screenController (readings : Readings) (s : State) : Except Fault Outcome := do
  let changed : Bool := s.lastSystemState ≠ some s.systemState
  let shown ← showScreen readings changed s
  .ok ⟨{ shown.state with lastSystemState := some shown.state.systemState },
    (if changed then draw [.clear] else []) ++ shown.events⟩

end ArduMash.Sketch.Controllers
