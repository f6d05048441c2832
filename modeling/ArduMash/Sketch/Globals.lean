import Mathlib.Data.BitVec
import Mathlib.Data.Fin.VecNotation
import Mathlib.Data.Fintype.Pi
import Mathlib.Algebra.Order.Ring.Rat

/-!
The global variables of the sketch and the recipe table. `byte` is 8 bits and
`unsigned long` 32 bits wide on the board. A `float` is the rational number it
stands for: readings are multiples of 1/128, so `tempC + 0.5` and every
comparison made with them are exact in the source as well.
-/

namespace ArduMash.Sketch.Globals

abbrev Byte := BitVec 8
abbrev Millis := BitVec 32

structure RecipeStep where
  recipe : Byte
  recipeStep : Byte
  targetTemp : ℚ
  duration : Millis
  autoContinue : Bool
  startTime : Millis
  stepStatus : Byte
  messageNo : Byte
  deriving DecidableEq, Inhabited, Repr

/-- `recipeStep recipe[1][10]`. -/
abbrev RecipeTable := Fin 1 → Fin 10 → RecipeStep

inductive SystemState where
  | init
  | running
  | finish
  | wait
  deriving DecidableEq, Inhabited, Repr

inductive Level where
  | low
  | high
  deriving DecidableEq, Inhabited, Repr

/-- `lastSystemState` starts as the byte 255, which is no state: `none`.
`relay` is the level the relay pin holds. -/
structure State where
  lastInput : Millis
  recipe : RecipeTable
  heatingState : Bool
  tempC : ℚ
  currentStep : Byte
  currentRecipe : Byte
  systemState : SystemState
  lastSystemState : Option SystemState
  relay : Level
  deriving DecidableEq, Inhabited

/-- An access outside the declared dimensions has no defined result. -/
inductive Fault where
  | outOfRange (row index : ℕ)
  deriving DecidableEq, Repr

def RecipeTable.entry (table : RecipeTable) (row index : ℕ) : Option RecipeStep :=
  if inside : row < 1 ∧ index < 10 then some (table ⟨row, inside.1⟩ ⟨index, inside.2⟩) else none

def RecipeTable.modify (table : RecipeTable) (row index : ℕ) (change : RecipeStep → RecipeStep) :
    RecipeTable :=
  fun r i => if r.val = row ∧ i.val = index then change (table r i) else table r i

/-- Reading `recipe[row][index]`. -/
def readRecipe (row index : ℕ) (s : State) : Except Fault RecipeStep :=
  match s.recipe.entry row index with
  | some step => .ok step
  | none => .error (.outOfRange row index)

/-- Assigning to fields of `recipe[row][index]`. -/
def writeRecipe (row index : ℕ) (change : RecipeStep → RecipeStep) (s : State) :
    Except Fault State :=
  match s.recipe.entry row index with
  | some _ => .ok { s with recipe := s.recipe.modify row index change }
  | none => .error (.outOfRange row index)

/-- `recipe[currentRecipe][index]`. -/
def State.entry (s : State) (index : ℕ) : Option RecipeStep :=
  s.recipe.entry s.currentRecipe.toNat index

def State.current (s : State) : Option RecipeStep := s.entry s.currentStep.toNat

/-- The table `setup` writes. Index 9 stays as the zeroed global it is and ends the recipe. -/
def mashRecipe : RecipeTable := fun _ =>
  ![⟨1, 0, 72, 0, false, 0, 0, 7⟩,
    ⟨1, 1, 68, 60, true, 0, 0, 0⟩,
    ⟨1, 2, 72, 0, false, 0, 0, 1⟩,
    ⟨1, 3, 78, 0, true, 0, 0, 0⟩,
    ⟨1, 4, 0, 0, false, 0, 0, 2⟩,
    ⟨1, 5, 100, 0, false, 0, 0, 3⟩,
    ⟨1, 6, 100, 30, true, 0, 0, 4⟩,
    ⟨1, 7, 100, 30, true, 0, 0, 0⟩,
    ⟨1, 8, 0, 0, false, 0, 0, 6⟩,
    ⟨0, 0, 0, 0, false, 0, 0, 0⟩]

/-- What `setup` leaves when it fills the recipe with `table`. -/
def setupWith (table : RecipeTable) : State where
  lastInput := 0
  recipe := table
  heatingState := false
  tempC := 0
  currentStep := 0
  currentRecipe := 0
  systemState := .init
  lastSystemState := none
  relay := .low

def setup : State := setupWith mashRecipe

end ArduMash.Sketch.Globals
