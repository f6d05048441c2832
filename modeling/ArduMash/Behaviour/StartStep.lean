import ArduMash.Sketch.Loop

/-!
What a call of `startStep` can do, said once: it is ignored, it finds the end
of the recipe, or it begins the step and marks every step before it finished.
-/

namespace ArduMash.Behaviour.StartStep
open Sketch Globals Hardware Screens Controllers Loop Foundation.RoundMachine

/-! The recipe table. -/

theorem entry_inside (table : RecipeTable) {row index : ℕ} (rowInside : row < 1)
    (indexInside : index < 10) :
    table.entry row index = some (table ⟨row, rowInside⟩ ⟨index, indexInside⟩) := by
  simp only [RecipeTable.entry, dif_pos (And.intro rowInside indexInside)]

theorem entry_eq_some {table : RecipeTable} {row index : ℕ} {step : RecipeStep}
    (found : table.entry row index = some step) : row < 1 ∧ index < 10 := by
  by_contra outside
  simp only [RecipeTable.entry, dif_neg outside] at found
  cases found

theorem readRecipe_eq_ok {row index : ℕ} {s : State} {step : RecipeStep} :
    readRecipe row index s = .ok step ↔ s.recipe.entry row index = some step := by
  unfold readRecipe
  cases s.recipe.entry row index with
  | none => simp
  | some found => simp

theorem writeRecipe_inside {row index : ℕ} (s : State) (change : RecipeStep → RecipeStep)
    (rowInside : row < 1) (indexInside : index < 10) :
    writeRecipe row index change s =
      .ok { s with recipe := s.recipe.modify row index change } := by
  unfold writeRecipe
  rw [entry_inside s.recipe rowInside indexInside]

theorem toNat_next {index : Byte} (small : index.toNat < 255) :
    (index + 1).toNat = index.toNat + 1 := by
  rw [BitVec.toNat_add]
  exact Nat.mod_eq_of_lt (by simpa using Nat.succ_lt_succ small)

/-- The table after the marking loop: the first `count` steps finished. -/
def markedTable (table : RecipeTable) (row count : ℕ) : RecipeTable := fun r i =>
  if r.val = row ∧ i.val < count then { table r i with stepStatus := 3, startTime := 0 }
  else table r i

/-- The table after an accepted `startStep`. -/
def begunTable (table : RecipeTable) (row index : ℕ) (now : Millis) : RecipeTable := fun r i =>
  if r.val = row ∧ i.val < index then { table r i with stepStatus := 3, startTime := 0 }
  else if r.val = row ∧ i.val = index then { table r i with stepStatus := 1, startTime := now }
  else table r i

theorem marked_zero (table : RecipeTable) (row : ℕ) : markedTable table row 0 = table := by
  funext r i
  simp [markedTable]

theorem marked_modify (table : RecipeTable) (row count : ℕ) :
    (markedTable table row count).modify row count
      (fun step => { step with stepStatus := 3, startTime := 0 }) =
        markedTable table row (count + 1) := by
  funext r i
  by_cases inRow : r.val = row
  · rcases Nat.lt_trichotomy i.val count with before | same | after
    · simp only [RecipeTable.modify, markedTable, inRow, true_and, if_pos before,
        if_neg (Nat.ne_of_lt before), if_pos (Nat.lt_succ_of_lt before)]
    · simp only [RecipeTable.modify, markedTable, inRow, same, true_and, if_true, Nat.lt_irrefl,
        if_false, Nat.lt_succ_self]
    · have outside : ¬i.val < count + 1 := by omega
      simp only [RecipeTable.modify, markedTable, inRow, true_and, if_neg (Nat.ne_of_gt after),
        if_neg (Nat.lt_asymm after), if_neg outside]
  · simp only [RecipeTable.modify, markedTable, inRow, false_and, if_false]

theorem marked_begun (table : RecipeTable) (row index : ℕ) (now : Millis) :
    (markedTable table row index).modify row index
      (fun step => { step with stepStatus := 1, startTime := now }) =
        begunTable table row index now := by
  funext r i
  by_cases inRow : r.val = row
  · rcases Nat.lt_trichotomy i.val index with before | same | after
    · simp only [RecipeTable.modify, markedTable, begunTable, inRow, true_and, if_pos before,
        if_neg (Nat.ne_of_lt before)]
    · simp only [RecipeTable.modify, markedTable, begunTable, inRow, same, true_and, if_true,
        Nat.lt_irrefl, if_false]
    · simp only [RecipeTable.modify, markedTable, begunTable, inRow, true_and,
        if_neg (Nat.ne_of_gt after), if_neg (Nat.lt_asymm after)]
  · simp only [RecipeTable.modify, markedTable, begunTable, inRow, false_and, if_false]

theorem begun_entry (table : RecipeTable) (row index : ℕ) (now : Millis) (i : ℕ) :
    (begunTable table row index now).entry row i = (table.entry row i).map (fun step =>
      if i < index then { step with stepStatus := 3, startTime := 0 }
      else if i = index then { step with stepStatus := 1, startTime := now }
      else step) := by
  unfold RecipeTable.entry
  by_cases inside : row < 1 ∧ i < 10
  · simp only [dif_pos inside, begunTable, true_and, Option.map_some]
  · simp only [dif_neg inside, Option.map_none]

theorem markFinished_inside {row count : ℕ} (s : State) (rowInside : row < 1)
    (countInside : count ≤ 10) :
    markFinished row count s = .ok ⟨{ s with recipe := markedTable s.recipe row count },
      (List.range count).map (Event.recipeWrite row)⟩ := by
  induction count with
  | zero =>
    rw [marked_zero]
    rfl
  | succ count ih =>
    simp only [markFinished]
    rw [ih (by omega)]
    simp only [bind, Except.bind]
    rw [writeRecipe_inside _ _ rowInside (by omega)]
    simp only [marked_modify, List.range_succ, List.map_append, List.map_cons, List.map_nil]

/-! `startStep`. -/

def begunState (s : State) (now : Millis) (index : Byte) : State :=
  { s with
    currentStep := index
    recipe := begunTable s.recipe s.currentRecipe.toNat index.toNat now }

theorem begunState_current {now : Millis} {index : Byte} {s : State} {step : RecipeStep}
    (asked : s.entry index.toNat = some step) :
    (begunState s now index).current = some { step with stepStatus := 1, startTime := now } := by
  change s.recipe.entry s.currentRecipe.toNat index.toNat = some step at asked
  change (begunTable s.recipe s.currentRecipe.toNat index.toNat now).entry
    s.currentRecipe.toNat index.toNat = _
  rw [begun_entry, asked]
  simp only [Option.map_some, Nat.lt_irrefl, if_false, if_true]

def endEvents (s : State) (index : Byte) : List Event :=
  [.recipeRead s.currentRecipe.toNat index.toNat, .serial recipeEndLine]

def beginEvents (s : State) (index : Byte) (step : RecipeStep) : List Event :=
  [.recipeRead s.currentRecipe.toNat index.toNat, .serial (startingStepLine index step)] ++
    (List.range index.toNat).map (Event.recipeWrite s.currentRecipe.toNat) ++
    [.recipeWrite s.currentRecipe.toNat index.toNat]

inductive StartCases (now : Millis) (index : Byte) (s : State) : Outcome → Prop where
  | ignored (done : s.systemState = .finish) : StartCases now index s ⟨s, []⟩
  | recipeEnd (active : s.systemState ≠ .finish) (step : RecipeStep)
      (asked : s.entry index.toNat = some step) (marker : step.recipe = 0) :
      StartCases now index s ⟨{ s with systemState := .finish }, endEvents s index⟩
  | begun (active : s.systemState ≠ .finish) (step : RecipeStep)
      (asked : s.entry index.toNat = some step) (real : step.recipe ≠ 0) :
      StartCases now index s ⟨begunState s now index, beginEvents s index step⟩

theorem startStep_finished (now : Millis) (index : Byte) {s : State}
    (done : s.systemState = .finish) : startStep now index s = .ok ⟨s, []⟩ := by
  simp only [startStep, if_pos done]

theorem startStep_recipeEnd (now : Millis) {index : Byte} {s : State} {step : RecipeStep}
    (active : s.systemState ≠ .finish) (asked : s.entry index.toNat = some step)
    (marker : step.recipe = 0) :
    startStep now index s = .ok ⟨{ s with systemState := .finish }, endEvents s index⟩ := by
  have read := (readRecipe_eq_ok (s := s)).mpr asked
  simp only [startStep, if_neg active, read, bind, Except.bind, if_pos marker]
  rfl

theorem startStep_begun (now : Millis) {index : Byte} {s : State} {step : RecipeStep}
    (active : s.systemState ≠ .finish) (asked : s.entry index.toNat = some step)
    (real : step.recipe ≠ 0) :
    startStep now index s = .ok ⟨begunState s now index, beginEvents s index step⟩ := by
  have read := (readRecipe_eq_ok (s := s)).mpr asked
  obtain ⟨rowInside, indexInside⟩ := entry_eq_some asked
  simp only [startStep, if_neg active, read, bind, Except.bind, if_neg real]
  rw [markFinished_inside _ rowInside (by omega)]
  simp only
  rw [writeRecipe_inside _ _ rowInside indexInside]
  simp only [marked_begun]
  rfl

/-- Outside the table the very first access of `startStep` faults. -/
theorem startStep_outside (now : Millis) {index : Byte} {s : State}
    (active : s.systemState ≠ .finish) (outside : s.entry index.toNat = none) :
    startStep now index s = .error (.outOfRange s.currentRecipe.toNat index.toNat) := by
  have read : readRecipe s.currentRecipe.toNat index.toNat s =
      .error (.outOfRange s.currentRecipe.toNat index.toNat) := by
    unfold readRecipe
    change s.recipe.entry s.currentRecipe.toNat index.toNat = none at outside
    rw [outside]
  simp only [startStep, if_neg active, read, bind, Except.bind]

theorem startStep_cases {now : Millis} {index : Byte} {s : State} {outcome : Outcome}
    (ran : startStep now index s = .ok outcome) : StartCases now index s outcome := by
  by_cases done : s.systemState = .finish
  · rw [startStep_finished now index done] at ran
    cases ran
    exact .ignored done
  · cases asked : s.entry index.toNat with
    | none =>
      rw [startStep_outside now done asked] at ran
      cases ran
    | some step =>
      by_cases marker : step.recipe = 0
      · rw [startStep_recipeEnd now done asked marker] at ran
        cases ran
        exact .recipeEnd done step asked marker
      · rw [startStep_begun now done asked marker] at ran
        cases ran
        exact .begun done step asked marker

/-- Projecting the equation gives the frame of any field that is not named in it. -/
theorem startStep_frame {now : Millis} {index : Byte} {s : State} {outcome : Outcome}
    (ran : startStep now index s = .ok outcome) :
    outcome.state = { s with
      currentStep := outcome.state.currentStep
      recipe := outcome.state.recipe
      systemState := outcome.state.systemState } := by
  cases startStep_cases ran with
  | ignored => rfl
  | recipeEnd => rfl
  | begun => rfl

end ArduMash.Behaviour.StartStep
