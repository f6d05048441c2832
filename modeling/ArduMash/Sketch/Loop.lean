import ArduMash.Sketch.Controllers
import ArduMash.Foundation.RoundMachine

/-!
One iteration of `loop`, with the states between the controllers, and the runs
of the sketch as the runs of a round machine. A run is fault-free: all its
accesses to the recipe are in range.
-/

namespace ArduMash.Sketch.Loop
open Globals Hardware Screens Controllers Foundation.RoundMachine

/-- `stepArgument` and `heaterArgument` are the entries the controllers get by value. -/
structure Iteration where
  stepArgument : RecipeStep
  afterStep : Outcome
  heaterArgument : RecipeStep
  afterHeater : Outcome
  afterInput : Outcome
  afterScreen : Outcome
  deriving Inhabited

def readCurrent (s : State) : Except Fault RecipeStep :=
  readRecipe s.currentRecipe.toNat s.currentStep.toNat s

def sense (readings : Readings) (s : State) : State :=
  { s with tempC := getTempC readings.probe }

def loop (readings : Readings) (s : State) : Except Fault Iteration := do
  let sensed := sense readings s
  let stepArgument ← readCurrent sensed
  let afterStep ← stepController readings.clock stepArgument sensed
  let heaterArgument ← readCurrent afterStep.state
  let afterHeater := heaterController heaterArgument afterStep.state
  let afterInput ← inputController readings afterHeater.state
  let afterScreen ← screenController readings afterInput.state
  .ok ⟨stepArgument, afterStep, heaterArgument, afterHeater, afterInput, afterScreen⟩

def Iteration.final (iteration : Iteration) : State := iteration.afterScreen.state

/-- Everything the iteration did, the two accesses of `loop` itself included. -/
def Iteration.events (iteration : Iteration) (s : State) : List Event :=
  [.recipeRead s.currentRecipe.toNat s.currentStep.toNat] ++ iteration.afterStep.events ++
    [.recipeRead iteration.afterStep.state.currentRecipe.toNat
      iteration.afterStep.state.currentStep.toNat] ++
    iteration.afterHeater.events ++ iteration.afterInput.events ++ iteration.afterScreen.events

def sketch : Machine Readings State Iteration Fault where
  round := loop
  next := Iteration.final

abbrev SketchRun := Run sketch

/-- A recipe of one step, ended by the zeroed steps after it. -/
def oneStep (targetTemp : ℚ) (duration : Millis) (autoContinue : Bool) : RecipeTable := fun _ i =>
  if i = 0 then ⟨1, 0, targetTemp, duration, autoContinue, 0, 0, 0⟩ else default

/-- Readings of an iteration in which the clock stands still. -/
def readingsAt (raw : BitVec 16) (adcKeyIn : ℕ) (now : Millis) : Readings where
  probe := some raw
  adcKeyIn := adcKeyIn
  clock := ⟨now, now, now, now, now, fun _ => now⟩
  screenProbe := some raw

/-- Select starts the only step, whose target is already reached; the next iteration finishes. -/
def shortBrew : SketchRun :=
  sketch.follow (fun n => readingsAt 12800 700 (BitVec.ofNat 32 (1000 * (n + 1))))
    (setupWith (oneStep 20 0 true)) 4 (by decide +kernel)

/-- Select starts step 0 of the recipe of `setup`, whose target is already reached, and as it is
held confirms it in the next iteration. -/
def firstConfirm : SketchRun :=
  sketch.follow (fun n => readingsAt 12800 700 (BitVec.ofNat 32 (1000 * (n + 1)))) setup 3
    (by decide +kernel)

end ArduMash.Sketch.Loop
