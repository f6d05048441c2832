import ArduMash.Database.Records
import ArduMash.Foundation.WriteHistory

/-!
The power may also go off within a call. What the table then is when it is opened
again depends on how far the call has come with its bytes.
-/

namespace ArduMash.Database.PowerCut
open Sketch.Globals (Byte)
open Foundation.CellMemory Foundation.WriteHistory Library Calls Records

variable {size : ℕ} {initial : ℕ → Byte} {headPtr : ℕ} {recSize : Byte} {capacity : ℕ}
  {s : DB × History Byte} {l : List (List Byte)} {cut : History Byte}

/-- Opened after the power went off, the table holds these records. -/
def Reopens (size : ℕ) (initial : ℕ → Byte) (headPtr : ℕ) (recSize : Byte) (capacity : ℕ)
    (cut : History Byte) (l : List (List Byte)) : Prop :=
  Holds (history size initial) headPtr recSize capacity
    (db.openTable (history size initial) headPtr cut, cut) l

theorem reopens_of_holds {after : DB × History Byte}
    (holds : Holds (history size initial) headPtr recSize capacity after l) :
    Reopens size initial headPtr recSize capacity after.2 l :=
  reopened_holds holds.stored holds.storedSize holds.few holds.contents

/-- A table of two records. -/
def stocked : DB × History Byte :=
  let created := db.create uno 1 17 []
  (runs uno 1 (created.1.openTable uno 1 created.2, created.2)
    [.append fun _ => 1, .append fun _ => 2]).2

theorem stocked_holds : Holds uno 1 17 59 stocked
    [List.replicate 17 1, List.replicate 17 2] := by
  have listed : steps (17 : Byte).toNat 59 [] [.append fun _ => 1, .append fun _ => 2] =
      some ([true, true], [List.replicate 17 1, List.replicate 17 2]) := rfl
  exact (steps_keep uno_fits (by decide) (created_holds uno_fits db []).1 listed).2.1

section Cuts
variable (fits : headPtr + headSize + capacity * recSize.toNat ≤ size) (numbers : capacity ≤ 255)
  (holds : Holds (history size initial) headPtr recSize capacity s l)
include fits holds

/-- As long as the head is not written the number of records is the old one. -/
theorem reopens_records {l' : List (List Byte)} (long : l'.length = l.length)
    (same : (history size initial).SameOutside
      (Memory.Cells (headPtr + headSize) recSize.toNat capacity) s.2 cut)
    (contents : (history size initial).contents (headPtr + headSize) recSize.toNat l.length cut =
      l') :
    Reopens size initial headPtr recSize capacity cut l' := by
  obtain ⟨stored, storedSize⟩ := stored_congr fits same
  refine reopened_holds ?_ (storedSize.trans holds.storedSize) ?_ ?_
  · rw [long]
    exact stored.trans holds.stored
  · rw [long]
    exact holds.few
  · rw [long]
    exact contents

include numbers

/-- `append` is done in one stroke: its record is there or not. -/
theorem append_atomic (rec : DBRec) (room : l.length < capacity)
    (between : Between s.2 cut (s.1.append (history size initial) rec s.2).2) :
    Reopens size initial headPtr recSize capacity cut l ∨
      Reopens size initial headPtr recSize capacity cut (l ++ [bytes recSize.toNat rec]) := by
  obtain ⟨db, m⟩ := s
  obtain ⟨error, table⟩ := holds.table
  obtain rfl : db = opened headPtr recSize error l.length := table
  have count : (opened headPtr recSize error l.length).nRecs.toNat = l.length :=
    toNat_count numbers holds
  have step : (Op.append rec).step recSize.toNat capacity l =
      some (true, l ++ [bytes recSize.toNat rec]) := by
    simp only [Op.step]
    rw [if_neg (by omega), if_neg (by omega)]
  have after := (step_keeps fits numbers holds (.append rec) step).2.1
  simp only [Op.run] at after
  have small : (opened headPtr recSize error l.length).nRecs.toNat < 255 := by omega
  rw [append_inside _ small rec m, count] at between after
  rcases write_between size initial between with early | done
  · obtain ⟨part, upTo, rfl⟩ := fill_between early
    have ends : (l.length + 1) * recSize.toNat ≤ capacity * recSize.toNat :=
      Nat.mul_le_mul_right _ room
    refine .inl (reopens_records fits holds rfl ?_ ?_)
    · exact Memory.sameOutside_part _ rec upTo room fits
    · exact (Memory.contents_beyond _ rec upTo (Nat.le_refl _)
        (Nat.le_trans (Nat.add_le_add_left ends _) fits)).trans holds.contents
  · rw [done]
    exact .inr (reopens_of_holds after)

omit fits numbers holds in
theorem append_atomic_uno :
    let cut := stocked.2 ++ [(39, 3), (40, 3), (41, 3)]
    Reopens 1024 (fun _ => 0xFF) 1 17 59 cut [List.replicate 17 1, List.replicate 17 2] ∨
      Reopens 1024 (fun _ => 0xFF) 1 17 59 cut
        [List.replicate 17 1, List.replicate 17 2, List.replicate 17 3] := by
  have between : Between stocked.2 (stocked.2 ++ [(39, 3), (40, 3), (41, 3)])
      (stocked.1.append uno (fun _ => 3) stocked.2).2 := ⟨by decide, by decide⟩
  exact append_atomic uno_fits (by decide) stocked_holds (fun _ => 3) (by decide) between

/-- On the way to a table without a record there is at most one record too many. -/
theorem deleteRec_cut (recno : Byte) (buffer : DBRec) (upTo : recno.toNat ≤ l.length)
    (found : 0 < l.length)
    (between : Between s.2 cut (s.1.deleteRec (history size initial) recno buffer s.2).2.2) :
    Reopens size initial headPtr recSize capacity cut (l.eraseIdx (recno.toNat - 1)) ∨
      ∃ place torn, place < l.length ∧ Reopens size initial headPtr recSize capacity cut
        ((l.eraseIdx (recno.toNat - 1)).insertIdx place torn) := by
  obtain ⟨db, m⟩ := s
  obtain ⟨error, table⟩ := holds.table
  obtain rfl : db = opened headPtr recSize error l.length := table
  have count : (opened headPtr recSize error l.length).nRecs.toNat = l.length :=
    toNat_count numbers holds
  have inside : recno.toNat - 1 < l.length := by omega
  have step : (Op.deleteRec recno buffer).step recSize.toNat capacity l =
      some (true, l.eraseIdx (recno.toNat - 1)) := by
    simp only [Op.step]
    rw [if_neg (by omega), if_neg (by simpa using List.length_pos_iff.mp found)]
  have after := (step_keeps fits numbers holds (.deleteRec recno buffer) step).2.1
  simp only [Op.run] at after
  have number : recno.toNat ≤ (opened headPtr recSize error l.length).nRecs.toNat := by omega
  obtain ⟨last, run⟩ := deleteRec_inside (history size initial) number (by omega) buffer m
  rw [run, count] at between after
  simp only [opened_recSize, opened_headPtr, opened_tblPtr] at between after
  rcases write_between size initial between with early | done
  · right
    rcases shiftDown_between early with rfl | ⟨moved, less, values, part, partUpTo, rfl⟩
    · refine ⟨recno.toNat - 1, l[recno.toNat - 1], inside, ?_⟩
      rw [List.insertIdx_eraseIdx_getElem inside]
      exact reopens_records fits holds rfl (Memory.sameOutside_refl _ _ _) holds.contents
    · have below : recno.toNat - 1 + moved + 1 < l.length := by omega
      have few := holds.few
      have room : l.length * recSize.toNat ≤ capacity * recSize.toNat :=
        Nat.mul_le_mul_right _ few
      have shifted := (history size initial).sameOutside_shiftDown (m := m) (n := capacity)
        (show recno.toNat - 1 + moved ≤ capacity by omega) fits
      obtain ⟨torn, contents⟩ := (history size initial).contents_downPart (m := m) values partUpTo
        below (Nat.le_trans (Nat.add_le_add_left room _) fits)
      have stored : (history size initial).contents (headPtr + headSize) recSize.toNat l.length m =
        l := holds.contents
      rw [stored] at contents
      refine ⟨recno.toNat - 1 + moved, torn, by omega, reopens_records fits holds ?_ ?_ contents⟩
      · rw [List.length_insertIdx_of_le_length] <;> rw [List.length_eraseIdx_of_lt inside] <;> omega
      · exact shifted.trans
          ((history size initial).sameOutside_part values partUpTo (by omega) fits)
  · rw [done]
    exact .inl (reopens_of_holds after)

omit fits numbers holds in
theorem deleteRec_cut_uno :
    let cut := stocked.2 ++ [(5, 2), (6, 2), (7, 2)]
    Reopens 1024 (fun _ => 0xFF) 1 17 59 cut [List.replicate 17 2] ∨
      ∃ place torn, place < 2 ∧ Reopens 1024 (fun _ => 0xFF) 1 17 59 cut
        ([List.replicate 17 2].insertIdx place torn) := by
  have between : Between stocked.2 (stocked.2 ++ [(5, 2), (6, 2), (7, 2)])
      (stocked.1.deleteRec uno 1 (fun _ => 0) stocked.2).2.2 :=
    ⟨by decide, by decide⟩
  exact deleteRec_cut uno_fits (by decide) stocked_holds 1 (fun _ => 0) (by decide) (by decide)
    between

/-- On the way to a table with one record more, the record that was the last one may be lost. -/
theorem insert_cut (recno : Byte) (rec buffer : DBRec) (upTo : recno.toNat ≤ l.length)
    (room : l.length < capacity)
    (between : Between s.2 cut (s.1.insert (history size initial) recno rec buffer s.2).2.2) :
    Reopens size initial headPtr recSize capacity cut (l.insertIdx (recno.toNat - 1)
        (if recno = 0 then l.headD (bytes recSize.toNat buffer) else bytes recSize.toNat rec)) ∨
      ∃ place torn, place ≤ l.length ∧ Reopens size initial headPtr recSize capacity cut
        ((l.insertIdx place torn).take l.length) := by
  obtain ⟨db, m⟩ := s
  obtain ⟨error, table⟩ := holds.table
  obtain rfl : db = opened headPtr recSize error l.length := table
  have count : (opened headPtr recSize error l.length).nRecs.toNat = l.length :=
    toNat_count numbers holds
  have step : (Op.insert recno rec buffer).step recSize.toNat capacity l =
      some (true, l.insertIdx (recno.toNat - 1)
        (if recno = 0 then l.headD (bytes recSize.toNat buffer) else bytes recSize.toNat rec)) := by
    simp only [Op.step]
    rw [if_neg (by omega), if_neg (by omega), if_neg (by omega)]
  have after := (step_keeps fits numbers holds (.insert recno rec buffer) step).2.1
  simp only [Op.run] at after
  have number : recno.toNat ≤ (opened headPtr recSize error l.length).nRecs.toNat := by omega
  have ends : (l.length + 1) * recSize.toNat ≤ capacity * recSize.toNat :=
    Nat.mul_le_mul_right _ room
  obtain ⟨last, values, run, _⟩ := insert_inside (history size initial) number (by omega) rec
    buffer m (by rw [count]; exact Nat.le_trans (Nat.add_le_add_left ends _) fits)
  rw [run, count] at between after
  simp only [opened_recSize, opened_headPtr, opened_tblPtr] at between after
  -- wherever the loop is, the records from `place` on have been moved, and one is being written
  have torn : ∀ place ≤ l.length, ∀ values part, part ≤ recSize.toNat →
      cut = (history size initial).fill (headPtr + headSize + place * recSize.toNat) values part
        ((history size initial).shiftUp (headPtr + headSize) recSize.toNat place
          (l.length - place) m) →
      ∃ place torn, place ≤ l.length ∧ Reopens size initial headPtr recSize capacity cut
        ((l.insertIdx place torn).take l.length) := by
    intro place inside values part partUpTo same
    have shifted := (history size initial).sameOutside_shiftUp (m := m) (n := capacity)
      (show place + (l.length - place) < capacity by omega) fits
    obtain ⟨torn, contents⟩ := (history size initial).contents_upPart (m := m) values partUpTo
      inside (Nat.le_trans (Nat.add_le_add_left ends _) fits)
    have stored : (history size initial).contents (headPtr + headSize) recSize.toNat l.length m =
      l := holds.contents
    rw [stored, ← same] at contents
    refine ⟨place, torn, inside, reopens_records fits holds ?_ ?_ contents⟩
    · rw [List.length_take, List.length_insertIdx_of_le_length inside]
      omega
    · rw [same]
      exact shifted.trans ((history size initial).sameOutside_part values partUpTo (by omega) fits)
  rcases write_between size initial between with early | done
  · right
    rcases between_split (fill_extends _ _ _ _) early with moving | writing
    · rcases shiftUp_between moving with rfl | ⟨left, less, values, part, partUpTo, same⟩
      · refine torn l.length (Nat.le_refl _) (fun _ => 0) 0 (Nat.zero_le _) ?_
        rw [Nat.sub_self]
        rfl
      · refine torn (recno.toNat - 1 + left + 1) (by omega) values part partUpTo ?_
        rw [same, show l.length - (recno.toNat - 1) - left - 1 =
          l.length - (recno.toNat - 1 + left + 1) by omega]
    · obtain ⟨part, partUpTo, same⟩ := fill_between writing
      exact torn (recno.toNat - 1) (by omega) values part partUpTo same
  · rw [done]
    exact .inl (reopens_of_holds after)

omit fits numbers holds in
theorem insert_cut_uno :
    let cut := stocked.2 ++ (List.range 17).map (fun i => (39 + i, 2)) ++ [(22, 1)]
    Reopens 1024 (fun _ => 0xFF) 1 17 59 cut
        [List.replicate 17 3, List.replicate 17 1, List.replicate 17 2] ∨
      ∃ place torn, place ≤ 2 ∧ Reopens 1024 (fun _ => 0xFF) 1 17 59 cut
        (([List.replicate 17 1, List.replicate 17 2].insertIdx place torn).take 2) := by
  have between : Between stocked.2
      (stocked.2 ++ (List.range 17).map (fun i => (39 + i, 2)) ++ [(22, 1)])
      (stocked.1.insert uno 1 (fun _ => 3) (fun _ => 0) stocked.2).2.2 :=
    ⟨by decide, by decide⟩
  exact insert_cut uno_fits (by decide) stocked_holds 1 (fun _ => 3) (fun _ => 0) (by decide)
    (by decide) between

end Cuts

end ArduMash.Database.PowerCut
