import ArduMash.Database.Calls
import ArduMash.Foundation.WriteHistory

/-!
The table as the list of its records. What the calls do to the EEPROM, byte by byte,
is what they do to the list, and it survives that the power goes off between two of
them.
-/

namespace ArduMash.Database.Records
open Sketch.Globals (Byte)
open Foundation.CellMemory Foundation.WriteHistory Library Calls

/-! The list of the records. -/

/-- A call, or the power going off and on again, after which the table is opened. `buffer` is what
`malloc` hands out. -/
inductive Op where
  | write (recno : Byte) (rec : DBRec)
  | read (recno : Byte) (rec : DBRec)
  | deleteRec (recno : Byte) (buffer : DBRec)
  | insert (recno : Byte) (rec buffer : DBRec)
  | append (rec : DBRec)
  | restart

section Runs
variable {σ : Type} (eeprom : Memory σ Byte) (headPtr : ℕ)

/-- And what the call returns, which is `true` for those that return nothing. -/
def Op.run (s : DB × σ) : Op → Bool × DB × σ
  | .write recno rec => s.1.write eeprom recno rec s.2
  | .read recno rec =>
    let got := s.1.read eeprom recno rec s.2
    (got.1, got.2.1, s.2)
  | .deleteRec recno buffer => s.1.deleteRec eeprom recno buffer s.2
  | .insert recno rec buffer => s.1.insert eeprom recno rec buffer s.2
  | .append rec => (true, s.1.append eeprom rec s.2)
  | .restart => (true, db.openTable eeprom headPtr s.2, s.2)

/-- What the calls have returned, and what they leave. -/
def runs (s : DB × σ) : List Op → List Bool × DB × σ
  | [] => ([], s)
  | op :: rest =>
    let first := op.run eeprom headPtr s
    let later := runs first.2 rest
    (first.1 :: later.1, later.2)

end Runs

def bytes (width : ℕ) (rec : DBRec) : List Byte := (List.range width).map rec

/-- What a call returns and makes of the list, when the EEPROM has room for `capacity` records.
`none`: there is no room for what the call writes, or it deletes record 0 of an empty table, which
then has 255 records. -/
def Op.step (width capacity : ℕ) (l : List (List Byte)) : Op → Option (Bool × List (List Byte))
  | .write recno rec =>
    if recno.toNat = 0 ∨ l.length + 1 < recno.toNat then some (false, l)
    else if recno.toNat ≤ l.length then some (true, l.set (recno.toNat - 1) (bytes width rec))
    else if recno.toNat ≤ capacity then some (true, l)
    else none
  | .read recno _ => some (decide (0 < recno.toNat ∧ recno.toNat ≤ l.length), l)
  | .deleteRec recno _ =>
    if l.length < recno.toNat then some (false, l)
    else if l.isEmpty then none
    else some (true, l.eraseIdx (recno.toNat - 1))
  | .insert recno rec buffer =>
    if l.length < recno.toNat then some (false, l)
    -- the number of records is a byte
    else if l.length = 255 then some (true, [])
    else if capacity ≤ l.length then none
    -- before record 0 another copy of record 1 is inserted
    else some (true, l.insertIdx (recno.toNat - 1)
      (if recno = 0 then l.headD (bytes width buffer) else bytes width rec))
  | .append rec =>
    if l.length = 255 then some (true, [])
    else if capacity ≤ l.length then none
    else some (true, l ++ [bytes width rec])
  | .restart => some (true, l)

def steps (width capacity : ℕ) (l : List (List Byte)) :
    List Op → Option (List Bool × List (List Byte))
  | [] => some ([], l)
  | op :: rest => do
    let first ← op.step width capacity l
    let later ← steps width capacity first.2 rest
    some (first.1 :: later.1, later.2)

/-- The object of a table that is open, with `count` records. -/
def opened (headPtr : ℕ) (recSize error : Byte) (count : ℕ) : DB :=
  ⟨BitVec.ofNat 8 count, recSize, error, headPtr, headPtr + headSize⟩

@[simp] theorem opened_recSize (headPtr : ℕ) (recSize error : Byte) (count : ℕ) :
    (opened headPtr recSize error count).recSize = recSize := rfl

@[simp] theorem opened_headPtr (headPtr : ℕ) (recSize error : Byte) (count : ℕ) :
    (opened headPtr recSize error count).headPtr = headPtr := rfl

@[simp] theorem opened_tblPtr (headPtr : ℕ) (recSize error : Byte) (count : ℕ) :
    (opened headPtr recSize error count).tblPtr = headPtr + headSize := rfl

/-- The object and the EEPROM hold the table of these records. -/
structure Holds {σ : Type} (eeprom : Memory σ Byte) (headPtr : ℕ) (recSize : Byte)
    (capacity : ℕ) (s : DB × σ) (l : List (List Byte)) : Prop where
  table : ∃ error, s.1 = opened headPtr recSize error l.length
  stored : eeprom.read headPtr s.2 = BitVec.ofNat 8 l.length
  storedSize : eeprom.read (headPtr + 1) s.2 = recSize
  few : l.length ≤ capacity
  contents : eeprom.contents (headPtr + headSize) recSize.toNat l.length s.2 = l

section Steps
variable {σ : Type} {eeprom : Memory σ Byte} {headPtr : ℕ} {recSize : Byte} {capacity : ℕ}
  {s : DB × σ} {l : List (List Byte)}

/-- The cells of the head and the table. -/
def Own (headPtr : ℕ) (recSize : Byte) (capacity : ℕ) (a : ℕ) : Prop :=
  a = headPtr ∨ a = headPtr + 1 ∨ Memory.Cells (headPtr + headSize) recSize.toNat capacity a

section Frame
variable (fits : headPtr + headSize + capacity * recSize.toNat ≤ eeprom.size)
include fits

theorem head_inside : headPtr + 1 < eeprom.size := by
  unfold headSize at fits
  omega

/-- A table in which only records have changed. -/
theorem stored_congr {m m' : σ}
    (same : eeprom.SameOutside (Memory.Cells (headPtr + headSize) recSize.toNat capacity) m m') :
    eeprom.read headPtr m' = eeprom.read headPtr m ∧
      eeprom.read (headPtr + 1) m' = eeprom.read (headPtr + 1) m := by
  have inside := head_inside fits
  unfold Memory.Cells headSize at same
  exact ⟨same headPtr (by omega) (by omega), same (headPtr + 1) inside (by omega)⟩

/-- The number of records is written last. -/
theorem holds_counted {db : DB} {m : σ}
    (table : ∃ error, db = opened headPtr recSize error l.length)
    (storedSize : eeprom.read (headPtr + 1) m = recSize) (few : l.length ≤ capacity)
    (contents : eeprom.contents (headPtr + headSize) recSize.toNat l.length m = l) :
    Holds eeprom headPtr recSize capacity (db, eeprom.write db.headPtr db.nRecs m) l := by
  have inside := head_inside fits
  obtain ⟨error, rfl⟩ := table
  have room : l.length * recSize.toNat ≤ capacity * recSize.toNat := Nat.mul_le_mul_right _ few
  refine ⟨⟨error, rfl⟩, eeprom.read_write _ m (Nat.lt_of_succ_lt inside), ?_, few, ?_⟩
  · exact (eeprom.read_write_ne _ m (Nat.lt_of_succ_lt inside) inside
      (Nat.succ_ne_self headPtr)).trans storedSize
  · have head := eeprom.sameOutside_write (BitVec.ofNat 8 l.length) m (Nat.lt_of_succ_lt inside)
    refine (eeprom.contents_congr head (by omega) fun a cell here => ?_).trans contents
    have lower := cell.1
    unfold headSize at lower
    omega

theorem own_head {v : Byte} {m : σ} :
    eeprom.SameOutside (Own headPtr recSize capacity) m (eeprom.write headPtr v m) := by
  have inside := head_inside fits
  exact (eeprom.sameOutside_write v m (by omega)).mono fun a here => .inl here

end Frame

theorem own_table {m m' : σ}
    (same : eeprom.SameOutside (Memory.Cells (headPtr + headSize) recSize.toNat capacity) m m') :
    eeprom.SameOutside (Own headPtr recSize capacity) m m' :=
  same.mono fun _ cell => .inr (.inr cell)

/-! Each call does the same to the list. -/

/-- What is to be shown of a call. -/
def Keeps (eeprom : Memory σ Byte) (headPtr : ℕ) (recSize : Byte) (capacity : ℕ) (m : σ)
    (after : Bool × DB × σ) (result : Bool × List (List Byte)) : Prop :=
  after.1 = result.1 ∧ Holds eeprom headPtr recSize capacity after.2 result.2 ∧
    eeprom.SameOutside (Own headPtr recSize capacity) m after.2.2

/-- What the EEPROM holds is found again when the table is opened. -/
theorem reopened_holds {m : σ} (stored : eeprom.read headPtr m = BitVec.ofNat 8 l.length)
    (storedSize : eeprom.read (headPtr + 1) m = recSize) (few : l.length ≤ capacity)
    (contents : eeprom.contents (headPtr + headSize) recSize.toNat l.length m = l) :
    Holds eeprom headPtr recSize capacity (db.openTable eeprom headPtr m, m) l := by
  refine ⟨⟨0, ?_⟩, stored, storedSize, few, contents⟩
  rw [DB.openTable, DB.readHead]
  simp only
  rw [stored, storedSize]
  rfl

theorem holds_error {error : Byte} {m : σ} (other : Byte)
    (holds : Holds eeprom headPtr recSize capacity (opened headPtr recSize error l.length, m) l) :
    Holds eeprom headPtr recSize capacity (opened headPtr recSize other l.length, m) l :=
  { holds with table := ⟨other, rfl⟩ }

section Calls
variable {error : Byte} {m : σ} {result : Bool × List (List Byte)}
  (fits : headPtr + headSize + capacity * recSize.toNat ≤ eeprom.size) (numbers : capacity ≤ 255)
  (holds : Holds eeprom headPtr recSize capacity (opened headPtr recSize error l.length, m) l)

include numbers holds in
theorem toNat_count : (BitVec.ofNat 8 l.length).toNat = l.length :=
  toNat_number (Nat.le_trans holds.few numbers)

include fits in
/-- A record that is written, or a part of it. -/
theorem table_fill {r : ℕ} (below : r < capacity) (values : DBRec) :
    headPtr + headSize + (r + 1) * recSize.toNat ≤ eeprom.size ∧
      eeprom.SameOutside (Memory.Cells (headPtr + headSize) recSize.toNat capacity) m
        (eeprom.fill (headPtr + headSize + r * recSize.toNat) values recSize.toNat m) := by
  have ends : (r + 1) * recSize.toNat ≤ capacity * recSize.toNat :=
    Nat.mul_le_mul_right _ below
  refine ⟨by omega, ?_⟩
  rw [Nat.succ_mul] at ends
  exact (eeprom.sameOutside_fill values m (by omega)).mono fun a cell =>
    Memory.cells_record _ _ below cell.1 cell.2

include fits numbers holds

theorem write_keeps (recno : Byte) (rec : DBRec)
    (step : (Op.write recno rec).step recSize.toNat capacity l = some result) :
    Keeps eeprom headPtr recSize capacity m
      ((opened headPtr recSize error l.length).write eeprom recno rec m) result := by
  have few := holds.few
  have count := toNat_count numbers holds
  have room : l.length * recSize.toNat ≤ capacity * recSize.toNat := Nat.mul_le_mul_right _ few
  simp only [Op.step] at step
  by_cases outside : recno.toNat = 0 ∨ l.length + 1 < recno.toNat
  · rw [if_pos outside] at step
    obtain rfl := Option.some.inj step
    rw [write_outside]
    · exact ⟨rfl, holds_error _ holds, eeprom.sameOutside_refl _ m⟩
    · simp only [opened, count]
      omega
  · rw [if_neg outside] at step
    have number : recno.toNat - 1 < capacity ∧
        result = (true, l.set (recno.toNat - 1) (bytes recSize.toNat rec)) := by
      split_ifs at step with inTable upTo
      · exact ⟨by omega, (Option.some.inj step).symm⟩
      · refine ⟨by omega, (Option.some.inj step).symm.trans ?_⟩
        rw [List.set_eq_of_length_le (by omega)]
    obtain ⟨below, rfl⟩ := number
    obtain ⟨inside, same⟩ := table_fill (m := m) fits below rec
    obtain ⟨stored, storedSize⟩ := stored_congr fits same
    rw [write_inside eeprom (by omega) (by simp only [opened, count]; omega)]
    refine ⟨rfl, ⟨⟨dbOk, ?_⟩, ?_, storedSize.trans holds.storedSize, ?_, ?_⟩, own_table same⟩
    · rw [List.length_set]
      rfl
    · rw [List.length_set]
      exact stored.trans holds.stored
    · rw [List.length_set]
      exact few
    · rw [List.length_set]
      refine (eeprom.contents_fill rec (by omega) inside).trans ?_
      rw [holds.contents]
      rfl

omit fits in
theorem read_keeps (recno : Byte) (rec : DBRec)
    (step : (Op.read recno rec).step recSize.toNat capacity l = some result) :
    Keeps eeprom headPtr recSize capacity m
      ((Op.read recno rec).run eeprom headPtr (opened headPtr recSize error l.length, m))
      result := by
  obtain rfl := Option.some.inj step
  have count := toNat_count numbers holds
  simp only [Op.run]
  by_cases inside : 0 < recno.toNat ∧ recno.toNat ≤ l.length
  · rw [read_inside eeprom inside.1 (by simp only [opened, count]; exact inside.2)]
    exact ⟨(decide_eq_true inside).symm, holds_error _ holds, eeprom.sameOutside_refl _ m⟩
  · rw [read_outside eeprom (by simp only [opened, count]; exact inside)]
    exact ⟨(decide_eq_false inside).symm, holds_error _ holds, eeprom.sameOutside_refl _ m⟩

theorem deleteRec_keeps (recno : Byte) (buffer : DBRec)
    (step : (Op.deleteRec recno buffer).step recSize.toNat capacity l = some result) :
    Keeps eeprom headPtr recSize capacity m
      ((opened headPtr recSize error l.length).deleteRec eeprom recno buffer m) result := by
  have few := holds.few
  have count : (opened headPtr recSize error l.length).nRecs.toNat = l.length :=
    toNat_count numbers holds
  have room : l.length * recSize.toNat ≤ capacity * recSize.toNat := Nat.mul_le_mul_right _ few
  simp only [Op.step] at step
  by_cases outside : l.length < recno.toNat
  · rw [if_pos outside] at step
    obtain rfl := Option.some.inj step
    rw [deleteRec_outside eeprom (by rw [count]; exact outside)]
    exact ⟨rfl, holds_error _ holds, eeprom.sameOutside_refl _ m⟩
  · rw [if_neg outside] at step
    split_ifs at step with empty
    obtain rfl := Option.some.inj step
    have found : 0 < l.length := List.length_pos_iff.mpr (by simpa using empty)
    have inside : recno.toNat - 1 < l.length := by omega
    have length : (l.eraseIdx (recno.toNat - 1)).length = l.length - 1 :=
      List.length_eraseIdx_of_lt inside
    have upTo : recno.toNat ≤ (opened headPtr recSize error l.length).nRecs.toNat := by omega
    obtain ⟨last, run⟩ := deleteRec_inside eeprom upTo (by omega) buffer m
    rw [count] at run
    have same : eeprom.SameOutside (Memory.Cells (headPtr + headSize) recSize.toNat capacity) m
        (eeprom.shiftDown (headPtr + headSize) recSize.toNat (recno.toNat - 1)
          (l.length - 1 - (recno.toNat - 1)) m) := eeprom.sameOutside_shiftDown (by omega) fits
    have less : BitVec.ofNat 8 l.length - 1 = BitVec.ofNat 8 (l.length - 1) := by
      obtain ⟨n, long⟩ : ∃ n, l.length = n + 1 := ⟨l.length - 1, by omega⟩
      rw [long, Nat.add_sub_cancel, BitVec.ofNat_add]
      exact BitVec.add_sub_cancel _ _
    rw [run]
    refine ⟨rfl, holds_counted fits ⟨last, ?_⟩ ?_ ?_ ?_, ?_⟩
    · rw [length, opened, opened, less]
    · exact (stored_congr fits same).2.trans holds.storedSize
    · rw [length]
      omega
    · rw [length]
      exact (eeprom.contents_shiftDown inside (by omega)).trans (by rw [holds.contents])
    · exact (own_table same).trans (own_head fits)

theorem insert_keeps (recno : Byte) (rec buffer : DBRec)
    (step : (Op.insert recno rec buffer).step recSize.toNat capacity l = some result) :
    Keeps eeprom headPtr recSize capacity m
      ((opened headPtr recSize error l.length).insert eeprom recno rec buffer m) result := by
  have few := holds.few
  have count : (opened headPtr recSize error l.length).nRecs.toNat = l.length :=
    toNat_count numbers holds
  simp only [Op.step] at step
  by_cases outside : l.length < recno.toNat
  · rw [if_pos outside] at step
    obtain rfl := Option.some.inj step
    rw [insert_outside eeprom (by rw [count]; exact outside)]
    exact ⟨rfl, holds_error _ holds, eeprom.sameOutside_refl _ m⟩
  · rw [if_neg outside] at step
    by_cases full : l.length = 255
    · rw [if_pos full] at step
      obtain rfl := Option.some.inj step
      obtain rfl : capacity = 255 := by omega
      have last : (opened headPtr recSize error l.length).nRecs = 255 := by
        rw [opened, full]
        rfl
      obtain ⟨lastError, m', run, same⟩ := insert_full eeprom recno last rec buffer m fits
      rw [run]
      refine ⟨rfl, holds_counted fits ⟨lastError, rfl⟩ ?_ (Nat.zero_le _) rfl, ?_⟩
      · exact (stored_congr fits same).2.trans holds.storedSize
      · exact (own_table same).trans (own_head fits)
    · have more : ¬capacity ≤ l.length := by
        intro none
        rw [if_neg full, if_pos none] at step
        cases step
      rw [if_neg full, if_neg more] at step
      obtain rfl := Option.some.inj step
      have below : recno.toNat - 1 ≤ l.length := by omega
      have long : ∀ record, (l.insertIdx (recno.toNat - 1) record).length = l.length + 1 :=
        List.length_insertIdx_of_le_length below
      have room : (l.length + 1) * recSize.toNat ≤ capacity * recSize.toNat :=
        Nat.mul_le_mul_right _ (by omega)
      have upTo : recno.toNat ≤ (opened headPtr recSize error l.length).nRecs.toNat := by omega
      obtain ⟨last, values, run, copied⟩ := insert_inside eeprom upTo (by omega) rec buffer m
        (by rw [count]; exact Nat.le_trans (Nat.add_le_add_left room _) fits)
      rw [count] at run copied
      have inserted : (List.range recSize.toNat).map values =
          if recno = 0 then l.headD (bytes recSize.toNat buffer) else bytes recSize.toNat rec := by
        refine copied.trans ?_
        by_cases zero : recno = 0
        · have first := eeprom.getElem?_contents (headPtr + headSize) recSize.toNat l.length m 0
          rw [holds.contents] at first
          have noNumber : ¬0 < recno.toNat := by
            rw [zero]
            exact Nat.lt_irrefl 0
          rw [if_pos zero, if_neg noNumber, List.headD_eq_head?_getD, List.head?_eq_getElem?, first]
          split_ifs <;> rfl
        · have positive : 0 < recno.toNat :=
            Nat.pos_of_ne_zero fun none => zero (BitVec.eq_of_toNat_eq none)
          rw [if_neg zero, if_pos positive]
          rfl
      have shifted : eeprom.SameOutside (Memory.Cells (headPtr + headSize) recSize.toNat capacity) m
          (eeprom.shiftUp (headPtr + headSize) recSize.toNat (recno.toNat - 1)
            (l.length - (recno.toNat - 1)) m) := eeprom.sameOutside_shiftUp (by omega) fits
      have same := shifted.trans
        (table_fill fits (show recno.toNat - 1 < capacity by omega) values).2
      rw [run]
      refine ⟨rfl, holds_counted fits ⟨last, ?_⟩ ?_ ?_ ?_, ?_⟩
      · rw [long, opened, opened, BitVec.ofNat_add]
        rfl
      · exact (stored_congr fits same).2.trans holds.storedSize
      · rw [long]
        omega
      · rw [long, ← inserted]
        exact (eeprom.contents_shiftUp below values (by omega)).trans (by rw [holds.contents])
      · exact (own_table same).trans (own_head fits)

theorem append_keeps (rec : DBRec)
    (step : (Op.append rec).step recSize.toNat capacity l = some result) :
    Keeps eeprom headPtr recSize capacity m
      (true, (opened headPtr recSize error l.length).append eeprom rec m) result := by
  have few := holds.few
  have count : (opened headPtr recSize error l.length).nRecs.toNat = l.length :=
    toNat_count numbers holds
  simp only [Op.step] at step
  split_ifs at step with full noRoom
  · obtain rfl := Option.some.inj step
    have last : (opened headPtr recSize error l.length).nRecs = 255 := by
      rw [opened, full]
      rfl
    rw [append_full eeprom last rec m]
    refine ⟨rfl, holds_counted fits ⟨_, rfl⟩ holds.storedSize (Nat.zero_le _) rfl, own_head fits⟩
  · obtain rfl := Option.some.inj step
    have long : (l ++ [bytes recSize.toNat rec]).length = l.length + 1 := List.length_append
    rw [append_inside eeprom (by rw [count]; omega) rec m, count]
    obtain ⟨inside, same⟩ := table_fill (m := m) fits (show l.length < capacity by omega) rec
    refine ⟨rfl, holds_counted fits ⟨dbOk, ?_⟩ ?_ ?_ ?_, ?_⟩
    · rw [long, opened, opened, BitVec.ofNat_add]
      rfl
    · exact (stored_congr fits same).2.trans holds.storedSize
    · rw [long]
      omega
    · have ends : l.length * recSize.toNat ≤ (l.length + 1) * recSize.toNat :=
        Nat.mul_le_mul_right _ (Nat.le_succ _)
      have before := eeprom.contents_fill (m := m) (n := l.length) rec (by omega) inside
      rw [holds.contents, List.set_eq_of_length_le (Nat.le_refl _)] at before
      rw [long, eeprom.contents_succ]
      exact congrArg₂ (fun front last => front ++ [last]) before (eeprom.record_fill rec inside)
    · exact (own_table same).trans (own_head fits)

omit fits numbers in
theorem restart_keeps :
    Keeps eeprom headPtr recSize capacity m (true, db.openTable eeprom headPtr m, m) (true, l) :=
  ⟨rfl, reopened_holds holds.stored holds.storedSize holds.few holds.contents,
    eeprom.sameOutside_refl _ m⟩

end Calls

/-- One call. -/
theorem step_keeps (fits : headPtr + headSize + capacity * recSize.toNat ≤ eeprom.size)
    (numbers : capacity ≤ 255) (holds : Holds eeprom headPtr recSize capacity s l) (op : Op)
    {result : Bool × List (List Byte)}
    (step : op.step recSize.toNat capacity l = some result) :
    Keeps eeprom headPtr recSize capacity s.2 (op.run eeprom headPtr s) result := by
  obtain ⟨db, m⟩ := s
  obtain ⟨error, table⟩ := holds.table
  obtain rfl : db = opened headPtr recSize error l.length := table
  cases op with
  | write recno rec => exact write_keeps fits numbers holds recno rec step
  | read recno rec => exact read_keeps numbers holds recno rec step
  | deleteRec recno buffer => exact deleteRec_keeps fits numbers holds recno buffer step
  | insert recno rec buffer => exact insert_keeps fits numbers holds recno rec buffer step
  | append rec => exact append_keeps fits numbers holds rec step
  | restart =>
    obtain rfl := Option.some.inj step
    exact restart_keeps holds

/-- Any calls one after the other. -/
theorem steps_keep (fits : headPtr + headSize + capacity * recSize.toNat ≤ eeprom.size)
    (numbers : capacity ≤ 255) (holds : Holds eeprom headPtr recSize capacity s l)
    {ops : List Op} {result : List Bool × List (List Byte)}
    (steps_ : steps recSize.toNat capacity l ops = some result) :
    (runs eeprom headPtr s ops).1 = result.1 ∧
      Holds eeprom headPtr recSize capacity (runs eeprom headPtr s ops).2 result.2 ∧
      eeprom.SameOutside (Own headPtr recSize capacity) s.2 (runs eeprom headPtr s ops).2.2 := by
  induction ops generalizing s l result with
  | nil =>
    obtain rfl := Option.some.inj steps_
    exact ⟨rfl, holds, eeprom.sameOutside_refl _ s.2⟩
  | cons op rest ih =>
    simp only [steps, Option.bind_eq_bind, Option.bind_eq_some_iff] at steps_
    obtain ⟨first, one, later, others, same⟩ := steps_
    obtain rfl := Option.some.inj same
    obtain ⟨answer, next, kept⟩ := step_keeps fits numbers holds op one
    obtain ⟨answers, last, keptLater⟩ := ih next others
    exact ⟨congrArg₂ List.cons answer answers, last, kept.trans keptLater⟩

/-- A new table. -/
theorem created_holds (fits : headPtr + headSize + capacity * recSize.toNat ≤ eeprom.size)
    (start : DB) (m : σ) :
    let created := start.create eeprom headPtr recSize m
    Holds eeprom headPtr recSize capacity (created.1.openTable eeprom headPtr created.2, created.2)
        [] ∧
      eeprom.SameOutside (Own headPtr recSize capacity) m created.2 := by
  intro created
  have inside := head_inside fits
  have count : eeprom.read headPtr created.2 = 0 :=
    (eeprom.read_write_ne _ _ inside (Nat.lt_of_succ_lt inside)
      (Nat.succ_ne_self headPtr).symm).trans
        (eeprom.read_write _ m (Nat.lt_of_succ_lt inside))
  have size : eeprom.read (headPtr + 1) created.2 = recSize := eeprom.read_write _ _ inside
  refine ⟨⟨⟨created.1.error, ?_⟩, count, size, Nat.zero_le _, rfl⟩, ?_⟩
  · rw [DB.openTable, DB.readHead]
    simp only
    rw [count, size]
    rfl
  · have size := (eeprom.sameOutside_write recSize (eeprom.write headPtr 0 m) inside).mono
      fun a here => (.inr (.inl here) : Own headPtr recSize capacity a)
    exact (own_head fits).trans size

/-- The record with this number, if there is one. -/
def recordOf (l : List (List Byte)) (recno : Byte) : Option (List Byte) :=
  if recno = 0 then none else l[recno.toNat - 1]?

theorem read_recordOf (numbers : capacity ≤ 255)
    (holds : Holds eeprom headPtr recSize capacity s l) (recno : Byte) (rec : DBRec) :
    let got := s.1.read eeprom recno rec s.2
    got.1 = (recordOf l recno).isSome ∧
      bytes recSize.toNat got.2.2 = (recordOf l recno).getD (bytes recSize.toNat rec) := by
  intro got
  obtain ⟨db, m⟩ := s
  obtain ⟨error, table⟩ := holds.table
  obtain rfl : db = opened headPtr recSize error l.length := table
  have count : (opened headPtr recSize error l.length).nRecs.toNat = l.length :=
    toNat_count numbers holds
  have stored := eeprom.getElem?_contents (headPtr + headSize) recSize.toNat l.length m
    (recno.toNat - 1)
  rw [holds.contents] at stored
  by_cases inside : recno.toNat > 0 ∧ recno.toNat ≤ l.length
  · have result : got = _ := read_inside eeprom inside.1 (by rw [count]; exact inside.2) rec m
    have number : recno ≠ 0 := by
      rintro rfl
      exact absurd inside.1 (Nat.lt_irrefl 0)
    rw [if_pos (by omega)] at stored
    rw [result, recordOf, if_neg number, stored]
    exact ⟨rfl, map_dbRead eeprom (opened headPtr recSize error l.length) _ rec m⟩
  · have result : got = _ := read_outside eeprom (by rw [count]; exact inside) rec m
    have none_ : recordOf l recno = none := by
      unfold recordOf
      split_ifs with zero
      · rfl
      · have positive : 0 < recno.toNat :=
          Nat.pos_of_ne_zero fun none => zero (BitVec.eq_of_toNat_eq none)
        exact List.getElem?_eq_none (by omega)
    rw [result, none_]
    exact ⟨rfl, rfl⟩

/-- Whatever calls come after a table was created, and whenever the power goes off between two of
them, the table is the list of its records: the calls answer so, and no other cell is touched. -/
theorem table_runs (fits : headPtr + headSize + capacity * recSize.toNat ≤ eeprom.size)
    (numbers : capacity ≤ 255) (start : DB) (m : σ) {ops : List Op}
    {result : List Bool × List (List Byte)}
    (steps_ : steps recSize.toNat capacity [] ops = some result) :
    let created := start.create eeprom headPtr recSize m
    let after := runs eeprom headPtr (created.1.openTable eeprom headPtr created.2, created.2) ops
    after.1 = result.1 ∧ after.2.1.nRecs = BitVec.ofNat 8 result.2.length ∧
      (∀ recno rec, let got := after.2.1.read eeprom recno rec after.2.2
        got.1 = (recordOf result.2 recno).isSome ∧
          bytes recSize.toNat got.2.2 =
            (recordOf result.2 recno).getD (bytes recSize.toNat rec)) ∧
      eeprom.SameOutside (Own headPtr recSize capacity) m after.2.2 := by
  intro created after
  obtain ⟨start_, untouched⟩ := created_holds fits start m
  obtain ⟨answers, holds, kept⟩ := steps_keep fits numbers start_ steps_
  obtain ⟨error, table⟩ := holds.table
  refine ⟨answers, ?_, fun recno rec => read_recordOf numbers holds recno rec,
    untouched.trans kept⟩
  exact congrArg DB.nRecs table

end Steps

/-- The EEPROM of the board, as it is delivered. -/
def uno : Memory (History Byte) Byte := history 1024 fun _ => 0xFF

theorem uno_fits : 1 + headSize + 59 * (17 : Byte).toNat ≤ uno.size := by decide

theorem table_runs_uno :
    let created := db.create uno 1 17 []
    (runs uno 1 (created.1.openTable uno 1 created.2, created.2)
      [.append fun _ => 1, .insert 1 (fun _ => 2) fun _ => 0, .restart,
        .insert 3 (fun _ => 3) fun _ => 0, .deleteRec 2 fun _ => 0]).1 =
      [true, true, true, false, true] := by
  have listed : steps (17 : Byte).toNat 59 []
      [.append fun _ => 1, .insert 1 (fun _ => 2) fun _ => 0, .restart,
        .insert 3 (fun _ => 3) fun _ => 0, .deleteRec 2 fun _ => 0] =
      some ([true, true, true, false, true], [List.replicate 17 2]) := rfl
  exact (table_runs uno_fits (by decide) db [] listed).1

end ArduMash.Database.Records
