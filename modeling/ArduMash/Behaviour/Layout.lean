import ArduMash.Behaviour.Waiting
import ArduMash.Foundation.DecimalText
import ArduMash.Sketch.Lcd

/-!
Where the screens put their texts. Each screen but the prompt places all of its
texts with the cursor; the fields of the status screen change their widths.
-/

namespace ArduMash.Behaviour.Layout
open Sketch Globals Hardware Screens Controllers Loop Lcd StartStep ControllerEffects
  Foundation.RoundMachine Foundation.CharacterDisplay Foundation.DecimalText

/-- Some items printed from a cursor. -/
structure Piece where
  column : ℕ
  row : ℕ
  items : List PrintItem

def Piece.ops (piece : Piece) : List LcdOp :=
  .setCursor piece.column piece.row :: piece.items.map .print

def field (printer : Printer) (piece : Piece) : Field :=
  ⟨piece.row, piece.column, printer.spell piece.items⟩

/-- What pieces put on a panel covers what was there, cell by cell. -/
theorem cell_pieces (printer : Printer) (display : Display) (pieces : List Piece)
    (panel : display.Panel) (row column : ℕ) :
    display.cell (printer.render display (pieces.flatMap Piece.ops) panel) row column =
      (marks (pieces.map (field printer)) row column).getD (display.cell panel row column) := by
  have same : printer.render display (pieces.flatMap Piece.ops) panel =
      display.run ((pieces.map (field printer)).flatMap Field.ops) panel := by
    induction pieces generalizing panel with
    | nil => rfl
    | cons piece rest ih =>
      rw [List.flatMap_cons, List.map_cons, List.flatMap_cons, render_append, ih,
        display.run_append]
      exact congrArg _ (render_field printer display piece.column piece.row piece.items panel)
  rw [same, cell_fields]

/-! The texts. -/

theorem pad_eq_map (zero : PrintItem) (value : ℕ) :
    pad zero value = (padItems zero value).map .print := by
  unfold pad padItems
  split_ifs <;> rfl

theorem spell_pad (printer : Printer) {zero : PrintItem} (digit : printer.item zero = ['0'])
    (tested value : ℕ) :
    printer.spell (padItems zero tested ++ [.number value]) = padded tested value := by
  rw [spell_append, spell_singleton]
  unfold padItems padded
  split_ifs with small
  · rw [spell_singleton, digit]
    rfl
  · rfl

def durationItems (step : RecipeStep) : List PrintItem :=
  padItems (.text "0") step.duration.toNat ++ [.number step.duration.toNat]

theorem timeOps_clock (screen : Fin 4 → Millis) (step : RecipeStep) :
    timeOps screen step = .setCursor 8 0 :: ((clockItems screen step).map .print ++
      .print (.text " ") :: (durationItems step).map .print) := by
  simp only [timeOps, clockItems, durationItems, pad_eq_map, List.map_append, List.map_cons,
    List.map_nil, List.append_assoc, List.cons_append, List.nil_append]

theorem spell_clock (printer : Printer) (screen : Fin 4 → Millis) (step : RecipeStep) :
    printer.spell (clockItems screen step) = separated ':'
      (padded (elapsedMinutes step.startTime (screen 0)).toNat
        (elapsedMinutes step.startTime (screen 1)).toNat)
      (padded (elapsedSeconds step.startTime (screen 2)).toNat
        (elapsedSeconds step.startTime (screen 3)).toNat) := by
  have split : clockItems screen step =
      (padItems (.text "0") (elapsedMinutes step.startTime (screen 0)).toNat ++
        [.number (elapsedMinutes step.startTime (screen 1)).toNat]) ++ [.text ":"] ++
      (padItems (.text "0") (elapsedSeconds step.startTime (screen 2)).toNat ++
        [.number (elapsedSeconds step.startTime (screen 3)).toNat]) := by
    simp only [clockItems, List.append_assoc, List.cons_append, List.nil_append]
  rw [split, spell_append, spell_append, spell_pad printer rfl, spell_pad printer rfl]
  unfold separated
  rw [List.append_assoc]
  rfl

theorem blank_notMem_clock (printer : Printer) (screen : Fin 4 → Millis) (step : RecipeStep) :
    ' ' ∉ printer.spell (clockItems screen step) := by
  rw [spell_clock]
  unfold separated
  intro member
  rcases List.mem_append.mp member with minutes | rest
  · exact notMem_padded (by decide) minutes
  · rcases List.mem_cons.mp rest with colon | seconds
    · exact absurd colon (by decide)
    · exact notMem_padded (by decide) seconds

/-! The screens. -/

def initPieces (s : State) : List Piece :=
  [⟨0, 0, [.text "Select Recipe:"]⟩,
    ⟨14, 0, padItems (.number 0) s.currentRecipe.toNat ++ [.number s.currentRecipe.toNat]⟩,
    ⟨0, 1, [.text "Select Step  :"]⟩,
    ⟨14, 1, padItems (.number 0) s.currentStep.toNat ++ [.number s.currentStep.toNat]⟩]

def finishPieces (s : State) : List Piece :=
  [⟨0, 0, [.text "Recipe: ", .number s.currentRecipe.toNat]⟩, ⟨0, 1, [.text "Finished"]⟩]

def tempItem (tempC : ℚ) : PrintItem := if tempC > 0 then .float tempC else .text "No Temp"

def flagItem (flag : Bool) : PrintItem := .text (if flag then "Y" else "N")

/-- In the order of the calls: the time is drawn last. -/
def statusPieces (tempC : ℚ) (heatingState : Bool) (screen : Fin 4 → Millis) (step : RecipeStep) :
    List Piece :=
  [⟨0, 0, [tempItem tempC]⟩, ⟨0, 1, [.float step.targetTemp]⟩,
    ⟨6, 1, [.text "S", .number step.recipeStep.toNat]⟩,
    ⟨9, 1, [.text "A:", flagItem step.autoContinue]⟩, ⟨13, 1, [.text "H:", flagItem heatingState]⟩,
    ⟨8, 0, clockItems screen step ++ .text " " :: durationItems step⟩]

theorem initScreen_pieces (s : State) :
    drawn (initScreen s).events = (initPieces s).flatMap Piece.ops := by
  simp only [initScreen, drawn_draw, initPieces, Piece.ops, pad_eq_map, List.flatMap_cons,
    List.flatMap_nil, List.map_append, List.map_cons, List.map_nil, List.append_assoc,
    List.cons_append, List.nil_append]

theorem finishScreen_pieces (s : State) :
    drawn (finishScreen s).events = (finishPieces s).flatMap Piece.ops := by
  unfold finishScreen
  rw [drawn_draw]
  rfl

theorem statusOps_pieces (tempC : ℚ) (heatingState : Bool) (screen : Fin 4 → Millis)
    (step : RecipeStep) :
    statusOps tempC heatingState screen step =
      (statusPieces tempC heatingState screen step).flatMap Piece.ops := by
  have temp : (if tempC > 0 then LcdOp.print (.float tempC) else .print (.text "No Temp")) =
      .print (tempItem tempC) := by
    unfold tempItem
    split_ifs <;> rfl
  simp only [statusOps, fieldOps, temp, yesNo, timeOps_clock, statusPieces, Piece.ops, flagItem,
    List.flatMap_cons, List.flatMap_nil, List.map_append, List.map_cons, List.map_nil,
    List.cons_append, List.nil_append, List.append_nil]

/-- The pieces of the current screen; the prompt of a wait has none. -/
def screenPieces (readings : Readings) (s : State) : List Piece :=
  match s.systemState with
  | .init => initPieces s
  | .running => statusPieces (getTempC readings.screenProbe) s.heatingState readings.clock.screen
      (s.current.getD default)
  | .finish => finishPieces s
  | .wait => []

theorem showScreen_pieces {readings : Readings} {changed : Bool} {s : State} {outcome : Outcome}
    (other : s.systemState ≠ .wait) (ran : showScreen readings changed s = .ok outcome) :
    drawn outcome.events = (screenPieces readings s).flatMap Piece.ops := by
  unfold screenPieces
  cases phase : s.systemState with
  | init =>
    simp only [showScreen, phase] at ran
    cases ran
    rw [drawn_append, initScreen_pieces]
    split_ifs <;> rfl
  | running =>
    have reads := ran
    simp only [showScreen, phase] at reads
    obtain ⟨step, read, _⟩ := bind_eq_ok.mp reads
    have current : s.current = some step := readRecipe_eq_ok.mp read
    rw [showScreen_running phase current] at ran
    cases ran
    simp only [current, Option.getD_some]
    rw [← statusOps_pieces]
    exact drawn_draw _
  | finish =>
    simp only [showScreen, phase] at ran
    cases ran
    rw [drawn_append, finishScreen_pieces]
    split_ifs
    · exact List.append_nil _
    · exact List.append_nil _
  | wait => exact absurd phase other

/-! The widths of the status screen. -/

/-- The widths of the texts that vary, and whether there is no temperature. -/
structure Extent where
  temp : ℕ
  target : ℕ
  step : ℕ
  clock : ℕ
  duration : ℕ
  missing : Bool
  deriving DecidableEq

def extent (printer : Printer) (tempC : ℚ) (screen : Fin 4 → Millis) (step : RecipeStep) :
    Extent where
  temp := (printer.spell [tempItem tempC]).length
  target := (printer.spell [.float step.targetTemp]).length
  step := (printer.spell [.text "S", .number step.recipeStep.toNat]).length
  clock := (printer.spell (clockItems screen step)).length
  duration := (printer.spell (durationItems step)).length
  missing := ¬tempC > 0

/-- Row 0 has the temperature, the elapsed time and the duration; row 1 the target, the step and the
two flags. -/
def Extent.Reaches (extent : Extent) (row column : ℕ) : Prop :=
  (row = 0 ∧ (column < extent.temp ∨
    (8 ≤ column ∧ column < 9 + extent.clock + extent.duration))) ∨
  (row = 1 ∧ (column < extent.target ∨ (6 ≤ column ∧ column < 6 + extent.step) ∨
    (9 ≤ column ∧ column < 12) ∨ (13 ≤ column ∧ column < 16)))

/-- The blanks the status screen prints: before the duration and in "No Temp". -/
def Extent.Blank (extent : Extent) (row column : ℕ) : Prop :=
  row = 0 ∧ (column = 8 + extent.clock ∨ (extent.missing = true ∧ column = 2))

theorem length_flag (printer : Printer) (name : String) (flag : Bool) :
    (printer.spell [.text name, flagItem flag]).length = name.toList.length + 1 := by
  change (name.toList ++ ((if flag then "Y" else "N").toList ++ [])).length = _
  cases flag with
  | true => simp
  | false => simp

section Status
variable {printer : Printer} {tempC : ℚ} {heatingState : Bool} {screen : Fin 4 → Millis}
  {step : RecipeStep}

theorem status_marks_iff {row column : ℕ} (visible : row < 2) :
    marks ((statusPieces tempC heatingState screen step).map (field printer)) row column = none ↔
      ¬(extent printer tempC screen step).Reaches row column := by
  have time : (printer.spell (clockItems screen step ++ .text " " :: durationItems step)).length =
      (printer.spell (clockItems screen step)).length + 1 +
        (printer.spell (durationItems step)).length := by
    rw [spell_append, List.length_append, Nat.add_assoc, Nat.add_comm 1]
    rfl
  have auto := length_flag printer "A:" step.autoContinue
  have heater := length_flag printer "H:" heatingState
  rw [marks_eq_none_iff]
  simp only [statusPieces, List.map_cons, List.map_nil, List.forall_mem_cons, field,
    Field.Reaches, time, auto, heater, Extent.Reaches, extent, List.not_mem_nil, false_implies,
    implies_true, and_true, show "A:".toList.length = 2 from rfl,
    show "H:".toList.length = 2 from rfl]
  omega

theorem blank_notMem_duration (printer : Printer) (step : RecipeStep) :
    ' ' ∉ printer.spell (durationItems step) := by
  unfold durationItems
  rw [spell_pad printer rfl]
  exact notMem_padded (by decide)

theorem blank_temp_iff (unspaced : ∀ value, ' ' ∉ printer.float value) {index : ℕ} {char : Char}
    (found : (printer.spell [tempItem tempC])[index]? = some char) :
    char = ' ' ↔ ¬tempC > 0 ∧ index = 2 := by
  rw [spell_singleton] at found
  unfold tempItem at found
  split_ifs at found with warm
  · have member := List.mem_of_getElem? found
    constructor
    · intro blank
      exact absurd (blank ▸ member) (unspaced tempC)
    · intro cold
      exact absurd warm cold.1
  · have split : printer.item (.text "No Temp") = "No".toList ++ ' ' :: "Temp".toList := rfl
    rw [split] at found
    rw [blank_iff (by decide) (by decide) found]
    exact ⟨fun same => ⟨warm, same⟩, fun both => both.2⟩

theorem blank_time_iff {index : ℕ} {char : Char}
    (found : (printer.spell (clockItems screen step ++ .text " " :: durationItems step))[index]? =
      some char) :
    char = ' ' ↔ index = (printer.spell (clockItems screen step)).length := by
  have split : printer.spell (clockItems screen step ++ .text " " :: durationItems step) =
      printer.spell (clockItems screen step) ++ ' ' :: printer.spell (durationItems step) :=
    spell_append printer _ _
  rw [split] at found
  exact blank_iff (blank_notMem_clock printer screen step) (blank_notMem_duration printer step)
    found

/-- Row 1 has no blanks but those it does not reach. -/
theorem blank_notMem_row (unspaced : ∀ value, ' ' ∉ printer.float value) {piece : Piece}
    (member : piece ∈ statusPieces tempC heatingState screen step) (row : piece.row = 1) :
    ' ' ∉ printer.spell piece.items := by
  have flag : ∀ name : String, ' ' ∉ name.toList → ∀ on : Bool,
      ' ' ∉ printer.spell [.text name, flagItem on] := by
    intro name unspacedName on member
    change ' ' ∈ name.toList ++ ((if on then "Y" else "N").toList ++ []) at member
    rcases List.mem_append.mp member with inName | inFlag
    · exact unspacedName inName
    · cases on with
      | true => exact absurd inFlag (by decide)
      | false => exact absurd inFlag (by decide)
  simp only [statusPieces, List.mem_cons, List.not_mem_nil, or_false] at member
  rcases member with same | same | same | same | same | same
  · rw [same] at row
    cases row
  · rw [same, spell_singleton]
    exact unspaced step.targetTemp
  · rw [same]
    change ' ' ∉ 'S' :: (Nat.toDigits 10 step.recipeStep.toNat ++ [])
    rw [List.append_nil]
    intro member
    rcases List.mem_cons.mp member with letter | digit
    · exact absurd letter (by decide)
    · have isDigit := Nat.isDigit_of_mem_toDigits (by decide) (by decide) digit
      exact absurd isDigit (by decide)
  · rw [same]
    exact flag "A:" (by decide) step.autoContinue
  · rw [same]
    exact flag "H:" (by decide) heatingState
  · rw [same] at row
    cases row

/-- The time is on top, so the blank before the duration is always seen. -/
theorem status_marks_blank (printer : Printer) (tempC : ℚ) (heatingState : Bool)
    (screen : Fin 4 → Millis) (step : RecipeStep) :
    marks ((statusPieces tempC heatingState screen step).map (field printer)) 0
      (8 + (extent printer tempC screen step).clock) = some ' ' := by
  have split : printer.spell (clockItems screen step ++ .text " " :: durationItems step) =
      printer.spell (clockItems screen step) ++ ' ' :: printer.spell (durationItems step) :=
    spell_append printer _ _
  apply marks_last [_, _, _, _, _]
  simp only [Field.mark, field, extent, split, Nat.le_add_right, Nat.add_sub_cancel_left, and_self,
    if_true, List.getElem?_append_right (Nat.le_refl _), Nat.sub_self, List.getElem?_cons_zero]

/-- Which of the characters it prints are blanks. -/
theorem status_blank_iff (unspaced : ∀ value, ' ' ∉ printer.float value) {row column : ℕ}
    {char : Char} (visible : row < 2)
    (put : marks ((statusPieces tempC heatingState screen step).map (field printer)) row column =
      some char) :
    char = ' ' ↔ (extent printer tempC screen step).Blank row column := by
  obtain ⟨from_, member, mark⟩ := field_of_marks put
  obtain ⟨piece, listed, same⟩ := List.mem_map.mp member
  rw [← same] at mark
  obtain ⟨inRow, start, text⟩ := Field.text_of_mark mark
  change piece.row = row at inRow
  change piece.column ≤ column at start
  change (printer.spell piece.items)[column - piece.column]? = some char at text
  have missing : (extent printer tempC screen step).missing = true ↔ ¬tempC > 0 :=
    decide_eq_true_iff
  unfold Extent.Blank
  rw [missing]
  obtain rfl | rfl : row = 0 ∨ row = 1 := by omega
  · have shown := status_marks_blank printer tempC heatingState screen step
    simp only [statusPieces, List.mem_cons, List.not_mem_nil, or_false] at listed
    rcases listed with temp | other | other | other | other | time
    · rw [temp] at text
      rw [blank_temp_iff unspaced text]
      constructor
      · exact fun cold => ⟨rfl, Or.inr cold⟩
      · rintro ⟨_, atBlank | cold⟩
        · rw [atBlank, shown] at put
          rw [← blank_temp_iff unspaced text]
          exact (Option.some.inj put).symm
        · exact cold
    · rw [other] at inRow
      cases inRow
    · rw [other] at inRow
      cases inRow
    · rw [other] at inRow
      cases inRow
    · rw [other] at inRow
      cases inRow
    · rw [time] at text start
      rw [blank_time_iff text]
      change 8 ≤ column at start
      change column - 8 = (extent printer tempC screen step).clock ↔ _
      omega
  · have notBlank := blank_notMem_row unspaced listed inRow
    constructor
    · intro blank
      exact absurd (blank ▸ List.mem_of_getElem? text) notBlank
    · intro blank
      exact absurd blank.1 (by decide)

end Status

end ArduMash.Behaviour.Layout
