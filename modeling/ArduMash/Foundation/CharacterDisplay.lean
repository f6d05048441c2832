import Mathlib.Data.List.Basic
import Mathlib.Data.Nat.Init

/-!
A character display that is written at a cursor, known by its laws only; drawings
made of fields of text; and what a cell shows that is drawn again and again.
-/

namespace Foundation.CharacterDisplay

/-- Rows come before columns. -/
structure Display where
  Panel : Type
  cell : Panel → ℕ → ℕ → Char
  cursor : Panel → ℕ × ℕ
  clear : Panel → Panel
  setCursor : ℕ → ℕ → Panel → Panel
  write : Char → Panel → Panel
  cell_clear : ∀ panel row column, cell (clear panel) row column = ' '
  cursor_clear : ∀ panel, cursor (clear panel) = (0, 0)
  cell_setCursor : ∀ row column panel, cell (setCursor row column panel) = cell panel
  cursor_setCursor : ∀ row column panel, cursor (setCursor row column panel) = (row, column)
  cell_write : ∀ char panel row column, cell (write char panel) row column =
    if cursor panel = (row, column) then char else cell panel row column
  cursor_write : ∀ char panel,
    cursor (write char panel) = ((cursor panel).1, (cursor panel).2 + 1)

/-- The characters and the cursor themselves. -/
def grid : Display where
  Panel := (ℕ → ℕ → Char) × ℕ × ℕ
  cell := fun panel row column => panel.1 row column
  cursor := fun panel => panel.2
  clear := fun _ => (fun _ _ => ' ', 0, 0)
  setCursor := fun row column panel => (panel.1, row, column)
  write := fun char panel =>
    (fun row column => if panel.2 = (row, column) then char else panel.1 row column,
      panel.2.1, panel.2.2 + 1)
  cell_clear := fun _ _ _ => rfl
  cursor_clear := fun _ => rfl
  cell_setCursor := fun _ _ _ => rfl
  cursor_setCursor := fun _ _ _ => rfl
  cell_write := fun _ _ _ _ => rfl
  cursor_write := fun _ _ => rfl

inductive Op where
  | clear
  | setCursor (row column : ℕ)
  | print (text : List Char)

namespace Display
variable (display : Display)

/-- Prints the characters one by one. -/
def print (text : List Char) (panel : display.Panel) : display.Panel :=
  text.foldl (fun panel char => display.write char panel) panel

def apply (panel : display.Panel) : Op → display.Panel
  | .clear => display.clear panel
  | .setCursor row column => display.setCursor row column panel
  | .print text => display.print text panel

def run (ops : List Op) (panel : display.Panel) : display.Panel := ops.foldl display.apply panel

theorem run_append (first rest : List Op) (panel : display.Panel) :
    display.run (first ++ rest) panel = display.run rest (display.run first panel) :=
  List.foldl_append

theorem run_cons (op : Op) (rest : List Op) (panel : display.Panel) :
    display.run (op :: rest) panel = display.run rest (display.apply panel op) := rfl

theorem print_append (first rest : List Char) (panel : display.Panel) :
    display.print (first ++ rest) panel = display.print rest (display.print first panel) :=
  List.foldl_append

theorem print_cons (char : Char) (rest : List Char) (panel : display.Panel) :
    display.print (char :: rest) panel = display.print rest (display.write char panel) := rfl

/-- Texts that are printed one after the other are one text. -/
theorem run_prints (texts : List (List Char)) (panel : display.Panel) :
    display.run (texts.map .print) panel = display.print texts.flatten panel := by
  induction texts generalizing panel with
  | nil => rfl
  | cons text rest ih =>
    rw [List.map_cons, List.flatten_cons, run_cons, print_append]
    exact ih (display.print text panel)

/-- A print changes its own row, from the cursor on, as far as its text goes. -/
theorem cell_print (text : List Char) (panel : display.Panel) (row column : ℕ) :
    display.cell (display.print text panel) row column =
      if (display.cursor panel).1 = row ∧ (display.cursor panel).2 ≤ column then
        (text[column - (display.cursor panel).2]?).getD (display.cell panel row column)
      else display.cell panel row column := by
  induction text generalizing panel with
  | nil =>
    change display.cell panel row column = _
    simp only [List.getElem?_nil, Option.getD_none, ite_self]
  | cons char rest ih =>
    cases place : display.cursor panel with
    | mk atRow atColumn =>
      rw [print_cons, ih, display.cursor_write, display.cell_write, place]
      simp only [Prod.mk.injEq]
      by_cases inRow : atRow = row
      · simp only [inRow, true_and]
        rcases Nat.lt_trichotomy atColumn column with before | same | after
        · have next : atColumn + 1 ≤ column := before
          have shift : column - atColumn = (column - (atColumn + 1)) + 1 := by omega
          rw [if_pos next, if_pos (Nat.le_of_lt before), if_neg (Nat.ne_of_lt before), shift,
            List.getElem?_cons_succ]
        · have beyond : ¬atColumn + 1 ≤ column := by omega
          rw [if_neg beyond, if_pos (Nat.le_of_eq same), if_pos same, same, Nat.sub_self,
            List.getElem?_cons_zero, Option.getD_some]
        · have beyond : ¬atColumn + 1 ≤ column := by omega
          rw [if_neg beyond, if_neg (Nat.not_le_of_lt after), if_neg (Nat.ne_of_gt after)]
      · simp only [inRow, false_and, if_false]

/-! After a clear. -/

/-- The panels show the same and go on at the same place. -/
def Alike (panel other : display.Panel) : Prop :=
  display.cell panel = display.cell other ∧ display.cursor panel = display.cursor other

variable {display}

theorem Alike.write {panel other : display.Panel} (alike : display.Alike panel other)
    (char : Char) : display.Alike (display.write char panel) (display.write char other) := by
  constructor
  · funext row column
    rw [display.cell_write, display.cell_write, alike.1, alike.2]
  · rw [display.cursor_write, display.cursor_write, alike.2]

theorem Alike.print {panel other : display.Panel} (alike : display.Alike panel other)
    (text : List Char) : display.Alike (display.print text panel) (display.print text other) := by
  induction text generalizing panel other with
  | nil => exact alike
  | cons char rest ih => exact ih (alike.write char)

theorem Alike.run {panel other : display.Panel} (alike : display.Alike panel other)
    (ops : List Op) : display.Alike (display.run ops panel) (display.run ops other) := by
  induction ops generalizing panel other with
  | nil => exact alike
  | cons op rest ih =>
    apply ih
    cases op with
    | clear =>
      constructor
      · funext row column
        exact (display.cell_clear panel row column).trans (display.cell_clear other row column).symm
      · exact (display.cursor_clear panel).trans (display.cursor_clear other).symm
    | setCursor row column =>
      constructor
      · exact (display.cell_setCursor row column panel).trans
          (alike.1.trans (display.cell_setCursor row column other).symm)
      · exact (display.cursor_setCursor row column panel).trans
          (display.cursor_setCursor row column other).symm
    | print text => exact alike.print text

/-- What is drawn after a clear does not depend on what was shown before. -/
theorem cell_cleared (ops : List Op) (panel other : display.Panel) :
    display.cell (display.run (.clear :: ops) panel) =
      display.cell (display.run (.clear :: ops) other) := by
  have cleared : display.Alike (display.clear panel) (display.clear other) := by
    constructor
    · funext row column
      rw [display.cell_clear, display.cell_clear]
    · rw [display.cursor_clear, display.cursor_clear]
  exact (cleared.run ops).1

end Display

/-! Fields of text. -/

structure Field where
  row : ℕ
  column : ℕ
  text : List Char

def Field.ops (field : Field) : List Op := [.setCursor field.row field.column, .print field.text]

/-- The character that the field puts into a cell. -/
def Field.mark (field : Field) (row column : ℕ) : Option Char :=
  if field.row = row ∧ field.column ≤ column then field.text[column - field.column]? else none

/-- The cell lies under the field. -/
def Field.Reaches (field : Field) (row column : ℕ) : Prop :=
  field.row = row ∧ field.column ≤ column ∧ column < field.column + field.text.length

instance (field : Field) (row column : ℕ) : Decidable (field.Reaches row column) :=
  inferInstanceAs (Decidable (_ ∧ _))

theorem Field.mark_eq_none_iff {field : Field} {row column : ℕ} :
    field.mark row column = none ↔ ¬field.Reaches row column := by
  unfold Field.mark Field.Reaches
  split_ifs with inside
  · rw [List.getElem?_eq_none_iff]
    omega
  · exact ⟨fun _ reached => inside ⟨reached.1, reached.2.1⟩, fun _ => rfl⟩

/-- The character that a drawing puts into a cell: later fields cover earlier ones. -/
def marks : List Field → ℕ → ℕ → Option Char
  | [], _, _ => none
  | field :: rest, row, column => (marks rest row column).or (field.mark row column)

theorem marks_eq_none_iff {fields : List Field} {row column : ℕ} :
    marks fields row column = none ↔ ∀ field ∈ fields, ¬field.Reaches row column := by
  induction fields with
  | nil => simp [marks]
  | cons field rest ih =>
    simp only [marks, Option.or_eq_none_iff, ih, Field.mark_eq_none_iff, List.mem_cons,
      forall_eq_or_imp, and_comm]

/-- Each character of a drawing is put there by one of its fields. -/
theorem field_of_marks {fields : List Field} {row column : ℕ} {char : Char}
    (marked : marks fields row column = some char) :
    ∃ field ∈ fields, field.mark row column = some char := by
  induction fields with
  | nil => cases marked
  | cons field rest ih =>
    simp only [marks, Option.or_eq_some_iff] at marked
    rcases marked with later | ⟨_, here⟩
    · obtain ⟨other, member, put⟩ := ih later
      exact ⟨other, List.mem_cons_of_mem _ member, put⟩
    · exact ⟨field, List.mem_cons_self, here⟩

theorem Field.text_of_mark {field : Field} {row column : ℕ} {char : Char}
    (put : field.mark row column = some char) :
    field.row = row ∧ field.column ≤ column ∧ field.text[column - field.column]? = some char := by
  unfold Field.mark at put
  split_ifs at put with inside
  exact ⟨inside.1, inside.2, put⟩

/-- The last field is on top. -/
theorem marks_last (fields : List Field) {last : Field} {row column : ℕ} {char : Char}
    (put : last.mark row column = some char) :
    marks (fields ++ [last]) row column = some char := by
  induction fields with
  | nil =>
    change (none : Option Char).or (last.mark row column) = some char
    rw [put]
    rfl
  | cons field rest ih =>
    simp only [List.cons_append, marks, ih, Option.some_or]

/-- The blank between two texts without blanks. -/
theorem blank_iff {first rest : List Char} {index : ℕ} {char : Char} (notFirst : ' ' ∉ first)
    (notRest : ' ' ∉ rest) (found : (first ++ ' ' :: rest)[index]? = some char) :
    char = ' ' ↔ index = first.length := by
  rcases Nat.lt_trichotomy index first.length with before | same | after
  · rw [List.getElem?_append_left before] at found
    have member := List.mem_of_getElem? found
    constructor
    · intro blank
      exact absurd (blank ▸ member) notFirst
    · intro same
      exact absurd same (Nat.ne_of_lt before)
  · rw [same, List.getElem?_append_right (Nat.le_refl _), Nat.sub_self,
      List.getElem?_cons_zero] at found
    exact ⟨fun _ => same, fun _ => (Option.some.inj found).symm⟩
  · obtain ⟨k, rfl⟩ := Nat.exists_eq_add_of_lt after
    rw [List.getElem?_append_right (by omega),
      show first.length + k + 1 - first.length = k + 1 by omega, List.getElem?_cons_succ] at found
    have member := List.mem_of_getElem? found
    constructor
    · intro blank
      exact absurd (blank ▸ member) notRest
    · intro same
      exact absurd same (Nat.ne_of_gt after)

theorem cell_field (display : Display) (field : Field) (panel : display.Panel) (row column : ℕ) :
    display.cell (display.run field.ops panel) row column =
      (field.mark row column).getD (display.cell panel row column) := by
  change display.cell (display.print field.text
    (display.setCursor field.row field.column panel)) row column = _
  rw [display.cell_print, display.cursor_setCursor, display.cell_setCursor]
  unfold Field.mark
  split_ifs <;> rfl

theorem cell_fields (display : Display) (fields : List Field) (panel : display.Panel)
    (row column : ℕ) :
    display.cell (display.run (fields.flatMap Field.ops) panel) row column =
      (marks fields row column).getD (display.cell panel row column) := by
  induction fields generalizing panel with
  | nil => rfl
  | cons field rest ih =>
    rw [List.flatMap_cons, display.run_append, ih, cell_field]
    simp only [marks]
    cases marks rest row column with
    | none => rfl
    | some char => rfl

/-! A cell that is drawn again and again. -/

section History
variable {content : ℕ → Char} {mark : ℕ → Option Char} {first n : ℕ}

/-- Between two clears a cell shows the last character that was put into it. -/
theorem last_mark (base : content (first + 1) = (mark first).getD ' ')
    (redraw : ∀ k, first < k → k < n → content (k + 1) = (mark k).getD (content k))
    (after : first + 1 ≤ n) :
    (∃ m, first ≤ m ∧ m < n ∧ mark m = some (content n) ∧
      ∀ j, m < j → j < n → mark j = none) ∨
    (content n = ' ' ∧ ∀ m, first ≤ m → m < n → mark m = none) := by
  induction n, after using Nat.le_induction with
  | base =>
    cases put : mark first with
    | none =>
      rw [base, put]
      refine Or.inr ⟨rfl, fun m since before => ?_⟩
      rw [show m = first by omega]
      exact put
    | some char =>
      rw [base, put]
      exact Or.inl ⟨first, Nat.le_refl _, Nat.lt_succ_self _, put, fun j later earlier => by omega⟩
  | succ n after ih =>
    have before := ih (fun k later earlier => redraw k later (Nat.lt_succ_of_lt earlier))
    have step := redraw n after (Nat.lt_succ_self n)
    cases put : mark n with
    | some char =>
      rw [step, put]
      exact Or.inl ⟨n, Nat.le_of_succ_le after, Nat.lt_succ_self n, put,
        fun j later earlier => by omega⟩
    | none =>
      have kept : content (n + 1) = content n := by
        rw [step, put]
        rfl
      rw [kept]
      rcases before with ⟨m, since, earlier, wrote, alone⟩ | ⟨blank, never⟩
      · refine Or.inl ⟨m, since, Nat.lt_succ_of_lt earlier, wrote, fun j later inside => ?_⟩
        rcases Nat.lt_succ_iff_lt_or_eq.mp inside with old | now
        · exact alone j later old
        · rw [now]
          exact put
      · refine Or.inr ⟨blank, fun m since inside => ?_⟩
        rcases Nat.lt_succ_iff_lt_or_eq.mp inside with old | now
        · exact never m since old
        · rw [now]
          exact put

/-- A redrawn cell is as after a clear exactly if nothing but a blank was left under a gap. -/
theorem redrawn_iff (content : ℕ → Char) (mark : ℕ → Option Char)
    (base : content (first + 1) = (mark first).getD ' ')
    (redraw : ∀ k, first < k → k ≤ n → content (k + 1) = (mark k).getD (content k))
    (since : first ≤ n) :
    content (n + 1) = (mark n).getD ' ' ↔
      (mark n = none → ∀ m, first ≤ m → m < n → ∀ char, mark m = some char →
        (∀ j, m < j → j < n → mark j = none) → char = ' ') := by
  rcases Nat.eq_or_lt_of_le since with same | after
  · subst same
    constructor
    · intro _ _ m later earlier
      omega
    · exact fun _ => base
  · have history := last_mark base (fun k later earlier => redraw k later (Nat.le_of_lt earlier))
      after
    rw [redraw n after (Nat.le_refl n)]
    cases put : mark n with
    | some char => simp
    | none =>
      simp only [Option.getD_none, true_implies]
      constructor
      · intro blank m later earlier char wrote alone
        rcases history with ⟨k, _, inside, last, quiet⟩ | ⟨_, never⟩
        · rcases Nat.lt_trichotomy m k with before | same | beyond
          · exact absurd ((alone k before inside).symm.trans last) (by simp)
          · rw [same] at wrote
            exact (Option.some.inj (wrote.symm.trans last)).trans blank
          · exact absurd ((quiet m beyond earlier).symm.trans wrote) (by simp)
        · exact absurd ((never m later earlier).symm.trans wrote) (by simp)
      · intro blanks
        rcases history with ⟨k, later, inside, last, quiet⟩ | ⟨blank, _⟩
        · exact blanks k later inside _ last quiet
        · exact blank

end History

end Foundation.CharacterDisplay
