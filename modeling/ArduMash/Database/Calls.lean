import ArduMash.Database.Library

/-!
What the calls of the DB library do to the cells of the EEPROM. A loop that reads
each record and writes it next to where it was moves the whole row.
-/

namespace ArduMash.Database.Calls
open Sketch.Globals (Byte)
open Foundation.CellMemory Library

section Calls
variable {σ : Type} (eeprom : Memory σ Byte)

theorem toNat_number {r : ℕ} (small : r ≤ 255) : (BitVec.ofNat 8 r).toNat = r := by
  rw [BitVec.toNat_ofNat]
  omega

theorem map_dbRead (db : DB) (ee : ℕ) (p : DBRec) (m : σ) :
    (List.range db.recSize.toNat).map (db.dbRead eeprom ee p m) =
      (List.range db.recSize.toNat).map fun i => eeprom.read (ee + i) m :=
  List.map_congr_left fun _ inside => if_pos (List.mem_range.mp inside)

theorem dbWrite_read (db : DB) (ee target : ℕ) (p : DBRec) (m m' : σ) :
    db.dbWrite eeprom target (db.dbRead eeprom ee p m) m' =
      eeprom.fill target (fun i => eeprom.read (ee + i) m) db.recSize.toNat m' :=
  eeprom.fill_congr (fun _ inside => if_pos inside) m'

/-- The number of the record is in the table, or the next one. -/
theorem write_inside {recno : Byte} {db : DB} (positive : recno.toNat > 0)
    (upTo : recno.toNat ≤ db.nRecs.toNat + 1) (rec : DBRec) (m : σ) :
    db.write eeprom recno rec m = (true, { db with error := dbOk },
      eeprom.fill (db.tblPtr + (recno.toNat - 1) * db.recSize.toNat) rec db.recSize.toNat m) :=
  if_pos ⟨positive, upTo⟩

theorem write_outside {recno : Byte} {db : DB}
    (outside : ¬(recno.toNat > 0 ∧ recno.toNat ≤ db.nRecs.toNat + 1)) (rec : DBRec) (m : σ) :
    db.write eeprom recno rec m = (false, { db with error := recnoOutOfRange }, m) :=
  if_neg outside

theorem read_inside {recno : Byte} {db : DB} (positive : recno.toNat > 0)
    (upTo : recno.toNat ≤ db.nRecs.toNat) (rec : DBRec) (m : σ) :
    db.read eeprom recno rec m = (true, { db with error := dbOk },
      db.dbRead eeprom (db.tblPtr + (recno.toNat - 1) * db.recSize.toNat) rec m) :=
  if_pos ⟨positive, upTo⟩

theorem read_outside {recno : Byte} {db : DB}
    (outside : ¬(recno.toNat > 0 ∧ recno.toNat ≤ db.nRecs.toNat)) (rec : DBRec) (m : σ) :
    db.read eeprom recno rec m = (false, { db with error := recnoOutOfRange }, rec) :=
  if_neg outside

/-- There is no record 0. -/
theorem write_zero (db : DB) (rec : DBRec) (m : σ) :
    db.write eeprom 0 rec m = (false, { db with error := recnoOutOfRange }, m) :=
  if_neg fun inside => absurd inside.1 (Nat.lt_irrefl 0)

theorem read_zero (db : DB) (rec : DBRec) (m : σ) :
    db.read eeprom 0 rec m = (false, { db with error := recnoOutOfRange }, rec) :=
  if_neg fun inside => absurd inside.1 (Nat.lt_irrefl 0)

/-- A round of the loops, with both numbers in the table or the target right after it. -/
theorem moveRec_inside {source target : ℕ} {s : DB.Moving σ} (sourcePositive : 0 < source)
    (sourceUpTo : source ≤ s.db.nRecs.toNat) (targetPositive : 0 < target)
    (targetUpTo : target ≤ s.db.nRecs.toNat + 1) (small : target ≤ 255) :
    DB.moveRec eeprom source target s =
      ⟨{ s.db with error := dbOk },
        s.db.dbRead eeprom (s.db.tblPtr + (source - 1) * s.db.recSize.toNat) s.buf s.m,
        eeprom.move s.db.tblPtr s.db.recSize.toNat (source - 1) (target - 1) s.m⟩ := by
  have limit := s.db.nRecs.isLt
  have sourceNumber : (BitVec.ofNat 8 source).toNat = source := toNat_number (by omega)
  have targetNumber : (BitVec.ofNat 8 target).toNat = target := toNat_number small
  have inside : (BitVec.ofNat 8 source).toNat > 0 ∧
      (BitVec.ofNat 8 source).toNat ≤ s.db.nRecs.toNat := by omega
  have got := read_inside eeprom inside.1 inside.2 s.buf s.m
  rw [sourceNumber] at got
  simp only [DB.moveRec, got]
  rw [write_inside eeprom (by omega) (by simp only; omega), targetNumber]
  exact congrArg (DB.Moving.mk _ _) (dbWrite_read eeprom s.db _ _ s.buf s.m s.m)

/-- Whatever the number is, nothing but the error changes in the object. -/
theorem read_db (recno : Byte) (rec : DBRec) (db : DB) (m : σ) :
    ∃ error, (db.read eeprom recno rec m).2.1 = { db with error := error } := by
  unfold DB.read
  split_ifs <;> exact ⟨_, rfl⟩

theorem moveRec_db (source target : ℕ) (s : DB.Moving σ) :
    ∃ error, (DB.moveRec eeprom source target s).db = { s.db with error := error } := by
  obtain ⟨first, got⟩ := read_db eeprom (BitVec.ofNat 8 source) s.buf s.db s.m
  simp only [DB.moveRec, got]
  unfold DB.write
  split_ifs <;> exact ⟨_, rfl⟩

/-- A byte is never the number of a record after the 255th. -/
theorem write_frame (recno : Byte) (rec : DBRec) (db : DB) (m : σ)
    (room : db.tblPtr + 255 * db.recSize.toNat ≤ eeprom.size) :
    (∃ error, (db.write eeprom recno rec m).2.1 = { db with error := error }) ∧
      eeprom.SameOutside (Memory.Cells db.tblPtr db.recSize.toNat 255) m
        (db.write eeprom recno rec m).2.2 := by
  have limit := recno.isLt
  by_cases inside : recno.toNat > 0 ∧ recno.toNat ≤ db.nRecs.toNat + 1
  · rw [write_inside eeprom inside.1 inside.2]
    have ends : (recno.toNat - 1 + 1) * db.recSize.toNat ≤ 255 * db.recSize.toNat :=
      Nat.mul_le_mul_right _ (by omega)
    rw [Nat.succ_mul] at ends
    exact ⟨⟨_, rfl⟩, (eeprom.sameOutside_fill rec m (by omega)).mono fun a cell =>
      Memory.cells_record _ _ (by omega) cell.1 cell.2⟩
  · rw [write_outside eeprom inside]
    exact ⟨⟨_, rfl⟩, eeprom.sameOutside_refl _ m⟩

/-- Any rounds at all. -/
theorem loop_frame (target : ℕ → ℕ) (s : DB.Moving σ)
    (room : s.db.tblPtr + 255 * s.db.recSize.toNat ≤ eeprom.size) (rounds : List ℕ) :
    let moved := rounds.foldl (fun s i => DB.moveRec eeprom i (target i) s) s
    (∃ error, moved.db = { s.db with error := error }) ∧
      eeprom.SameOutside (Memory.Cells s.db.tblPtr s.db.recSize.toNat 255) s.m moved.m := by
  induction rounds generalizing s with
  | nil => exact ⟨⟨s.db.error, rfl⟩, eeprom.sameOutside_refl _ s.m⟩
  | cons i rest ih =>
    obtain ⟨error, table⟩ := moveRec_db eeprom i (target i) s
    have same : eeprom.SameOutside (Memory.Cells s.db.tblPtr s.db.recSize.toNat 255) s.m
        (DB.moveRec eeprom i (target i) s).m := by
      obtain ⟨_, got⟩ := read_db eeprom (BitVec.ofNat 8 i) s.buf s.db s.m
      simp only [DB.moveRec, got]
      exact (write_frame eeprom _ _ { s.db with error := _ } s.m room).2
    rw [List.foldl_cons]
    generalize DB.moveRec eeprom i (target i) s = first at table same ⊢
    obtain ⟨⟨last, kept⟩, later⟩ := ih first (by rw [table]; exact room)
    rw [table] at kept later
    exact ⟨⟨last, kept⟩, same.trans later⟩

/-- The loop that moves records down, from number `first + 2` on. -/
theorem loop_down {first count : ℕ} (s : DB.Moving σ)
    (upTo : first + count + 1 ≤ s.db.nRecs.toNat) :
    let moved := (List.range' (first + 2) count).foldl (fun s i => DB.moveRec eeprom i (i - 1) s) s
    (∃ error, moved.db = { s.db with error := error }) ∧
      moved.m = eeprom.shiftDown s.db.tblPtr s.db.recSize.toNat first count s.m := by
  have limit := s.db.nRecs.isLt
  induction count with
  | zero => exact ⟨⟨s.db.error, rfl⟩, rfl⟩
  | succ count ih =>
    obtain ⟨⟨error, table⟩, shifted⟩ := ih (by omega)
    have place : first + 2 + count - 1 = first + count + 1 := by omega
    simp only [List.range'_1_concat, List.foldl_append, List.foldl_cons, List.foldl_nil]
    generalize (List.range' (first + 2) count).foldl _ s = moved at table shifted ⊢
    have size : moved.db.nRecs = s.db.nRecs := by rw [table]
    rw [moveRec_inside eeprom (by omega) (by rw [size]; omega) (by omega) (by rw [size]; omega)
      (by omega), eeprom.shiftDown_succ, shifted, table, place,
      Nat.add_sub_cancel]
    exact ⟨⟨_, rfl⟩, rfl⟩

/-- The loop that moves records up, down to number `first + 1`. Of that record the buffer keeps a
copy. -/
theorem loop_up {first count : ℕ} (s : DB.Moving σ) (small : s.db.nRecs.toNat < 255)
    (upTo : first + count ≤ s.db.nRecs.toNat)
    (room : s.db.tblPtr + (first + count + 1) * s.db.recSize.toNat ≤ eeprom.size) :
    let moved := (List.range' (first + 1) count).reverse.foldl
      (fun s i => DB.moveRec eeprom i (i + 1) s) s
    (∃ error, moved.db = { s.db with error := error }) ∧
      moved.m = eeprom.shiftUp s.db.tblPtr s.db.recSize.toNat first count s.m ∧
      (0 < count → (List.range s.db.recSize.toNat).map moved.buf =
        eeprom.record s.db.tblPtr s.db.recSize.toNat s.m first) := by
  induction count generalizing first with
  | zero => exact ⟨⟨s.db.error, rfl⟩, rfl, fun none => absurd none (Nat.lt_irrefl 0)⟩
  | succ count ih =>
    have same : first + 1 + count + 1 = first + (count + 1) + 1 := by omega
    obtain ⟨⟨error, table⟩, shifted, _⟩ := @ih (first + 1) (by omega) (by rw [same]; exact room)
    simp only [List.range'_succ, List.reverse_cons, List.foldl_append, List.foldl_cons,
      List.foldl_nil]
    generalize (List.range' (first + 1 + 1) count).reverse.foldl _ s = moved at table shifted ⊢
    have size : moved.db.nRecs = s.db.nRecs := by rw [table]
    rw [moveRec_inside eeprom (by omega) (by rw [size]; omega) (by omega) (by rw [size]; omega)
      (by omega), eeprom.shiftUp_succ, shifted, table]
    refine ⟨⟨_, rfl⟩, rfl, fun _ => ?_⟩
    have firstRoom : (first + 1) * s.db.recSize.toNat ≤
        (first + (count + 1) + 1) * s.db.recSize.toNat := Nat.mul_le_mul_right _ (by omega)
    have kept : eeprom.record s.db.tblPtr s.db.recSize.toNat
        (eeprom.shiftUp s.db.tblPtr s.db.recSize.toNat (first + 1) count s.m) first = _ :=
      eeprom.record_shiftUp (by omega) (by rw [same]; exact room)
    rw [if_neg (by omega)] at kept
    exact (map_dbRead eeprom _ _ _ _).trans kept

/-! The calls. -/

theorem deleteRec_outside {recno : Byte} {db : DB} (outside : db.nRecs.toNat < recno.toNat)
    (buffer : DBRec) (m : σ) :
    db.deleteRec eeprom recno buffer m = (false, { db with error := recnoOutOfRange }, m) :=
  if_pos outside

/-- Record 0 is deleted like record 1: the round that reads record 1 cannot write it. -/
theorem deleteRec_loop {recno n : ℕ} (s : DB.Moving σ) (size : s.db.nRecs.toNat = n + 1)
    (upTo : recno ≤ n + 1) :
    let moved := (List.range' (recno + 1) (n + 1 - recno)).foldl
      (fun s i => DB.moveRec eeprom i (i - 1) s) s
    (∃ error, moved.db = { s.db with error := error }) ∧
      moved.m = eeprom.shiftDown s.db.tblPtr s.db.recSize.toNat (recno - 1) (n - (recno - 1))
        s.m := by
  cases recno with
  | zero =>
    obtain ⟨error, table⟩ := moveRec_db eeprom 1 0 s
    have unchanged : (DB.moveRec eeprom 1 0 s).m = s.m := by
      simp only [DB.moveRec]
      rw [show BitVec.ofNat 8 0 = 0 from rfl, write_zero]
    rw [Nat.sub_zero, List.range'_succ, List.foldl_cons, Nat.zero_add, Nat.sub_self]
    generalize DB.moveRec eeprom 1 0 s = first at table unchanged ⊢
    obtain ⟨⟨last, kept⟩, shifted⟩ := @loop_down _ eeprom 0 n first
      (by rw [table]; simp only [size]; omega)
    rw [table] at kept shifted
    rw [unchanged] at shifted
    exact ⟨⟨last, kept⟩, shifted⟩
  | succ first =>
    have whole := @loop_down _ eeprom first (n - first) s (by omega)
    rw [Nat.add_sub_cancel, show n + 1 - (first + 1) = n - first by omega]
    exact whole

theorem deleteRec_inside {recno : Byte} {db : DB} (upTo : recno.toNat ≤ db.nRecs.toNat)
    (found : 0 < db.nRecs.toNat) (buffer : DBRec) (m : σ) :
    ∃ error, db.deleteRec eeprom recno buffer m =
      (true, { db with nRecs := db.nRecs - 1, error := error },
        eeprom.write db.headPtr (db.nRecs - 1)
          (eeprom.shiftDown db.tblPtr db.recSize.toNat (recno.toNat - 1)
            (db.nRecs.toNat - 1 - (recno.toNat - 1)) m)) := by
  have notBeyond : ¬recno > db.nRecs := Nat.not_lt.mpr upTo
  obtain ⟨n, size⟩ : ∃ n, db.nRecs.toNat = n + 1 := ⟨db.nRecs.toNat - 1, by omega⟩
  have number : recno.toNat ≤ n + 1 := by omega
  obtain ⟨⟨error, table⟩, shifted⟩ := deleteRec_loop eeprom
    ⟨{ db with error := dbOk }, buffer, m⟩ size number
  rw [DB.deleteRec, if_neg notBeyond]
  simp only [size, table, shifted]
  exact ⟨error, rfl⟩

/-- The number of records is a byte, and an empty table loses one to 255. -/
theorem deleteRec_empty {db : DB} (empty : db.nRecs = 0) (buffer : DBRec) (m : σ) :
    db.deleteRec eeprom 0 buffer m =
      (true, { db with nRecs := 255, error := dbOk }, eeprom.write db.headPtr 255 m) := by
  unfold DB.deleteRec
  rw [empty]
  rfl

theorem insert_outside {recno : Byte} {db : DB} (outside : db.nRecs.toNat < recno.toNat)
    (rec buffer : DBRec) (m : σ) :
    db.insert eeprom recno rec buffer m = (false, { db with error := recnoOutOfRange }, m) :=
  if_pos outside

/-- Before record 0 another copy of record 1 is inserted, as `rec` cannot be written. -/
theorem insert_inside {recno : Byte} {db : DB} (upTo : recno.toNat ≤ db.nRecs.toNat)
    (small : db.nRecs.toNat < 255) (rec buffer : DBRec) (m : σ)
    (room : db.tblPtr + (db.nRecs.toNat + 1) * db.recSize.toNat ≤ eeprom.size) :
    ∃ error values, db.insert eeprom recno rec buffer m =
        (true, { db with nRecs := db.nRecs + 1, error := error },
          eeprom.write db.headPtr (db.nRecs + 1)
            (eeprom.fill (db.tblPtr + (recno.toNat - 1) * db.recSize.toNat) values
              db.recSize.toNat
              (eeprom.shiftUp db.tblPtr db.recSize.toNat (recno.toNat - 1)
                (db.nRecs.toNat - (recno.toNat - 1)) m))) ∧
      (List.range db.recSize.toNat).map values =
        if 0 < recno.toNat then (List.range db.recSize.toNat).map rec
        else if 0 < db.nRecs.toNat then eeprom.record db.tblPtr db.recSize.toNat m 0
        else (List.range db.recSize.toNat).map buffer := by
  have notBeyond : ¬recno > db.nRecs := Nat.not_lt.mpr upTo
  rw [DB.insert, if_neg notBeyond]
  rcases Nat.eq_zero_or_pos recno.toNat with zero | positive
  · have number : recno = 0 := BitVec.eq_of_toNat_eq zero
    obtain ⟨⟨error, table⟩, shifted, copy⟩ := @loop_up _ eeprom 0 db.nRecs.toNat
      ⟨{ db with error := dbOk }, buffer, m⟩ small (by simp only; omega)
      (by rw [Nat.zero_add]; exact room)
    have kept : (List.range db.recSize.toNat).map
        ((List.range' (0 + 1) db.nRecs.toNat).reverse.foldl
        (fun s i => DB.moveRec eeprom i (i + 1) s) ⟨{ db with error := dbOk }, buffer, m⟩).buf =
        if 0 < db.nRecs.toNat then eeprom.record db.tblPtr db.recSize.toNat m 0
        else (List.range db.recSize.toNat).map buffer := by
      split_ifs with found
      · exact copy found
      · rw [Nat.eq_zero_of_not_pos found]
        rfl
    rw [zero, if_neg (Nat.lt_irrefl 0), Nat.sub_zero, List.range'_succ, List.reverse_cons]
    simp only [List.foldl_append, List.foldl_cons, List.foldl_nil]
    generalize (List.range' (0 + 1) db.nRecs.toNat).reverse.foldl _ _ = moved
      at table shifted kept ⊢
    -- the last round reads nothing and writes what the one before has read
    have last : DB.moveRec eeprom 0 (0 + 1) moved =
        ⟨{ db with error := dbOk }, moved.buf, eeprom.fill (db.tblPtr + 0 * db.recSize.toNat)
          moved.buf db.recSize.toNat
          (eeprom.shiftUp db.tblPtr db.recSize.toNat 0 db.nRecs.toNat m)⟩ := by
      have noRecord : moved.db.read eeprom (BitVec.ofNat 8 0) moved.buf moved.m = _ :=
        read_zero eeprom _ _ _
      simp only [DB.moveRec, noRecord]
      rw [write_inside eeprom (by decide) (by simp only; exact Nat.le_add_left _ _), table, shifted]
      rfl
    rw [last, number]
    simp only [write_zero]
    exact ⟨_, moved.buf, rfl, kept⟩
  · obtain ⟨first, number⟩ : ∃ first, recno.toNat = first + 1 := ⟨recno.toNat - 1, by omega⟩
    obtain ⟨⟨error, table⟩, shifted, _⟩ := @loop_up _ eeprom first (db.nRecs.toNat - first)
      ⟨{ db with error := dbOk }, buffer, m⟩ small (by simp only; omega)
      (by simp only; rw [show first + (db.nRecs.toNat - first) + 1 = db.nRecs.toNat + 1 by omega]
          exact room)
    have put := @write_inside _ eeprom recno { db with error := error } positive
      (by simp only; omega) rec
      (eeprom.shiftUp db.tblPtr db.recSize.toNat first (db.nRecs.toNat - first) m)
    rw [number] at put
    rw [number, show db.nRecs.toNat + 1 - (first + 1) = db.nRecs.toNat - first by omega]
    generalize (List.range' (first + 1) (db.nRecs.toNat - first)).reverse.foldl _ _ = moved
      at table shifted ⊢
    simp only [table, shifted]
    rw [put]
    exact ⟨_, rec, rfl, (if_pos (Nat.succ_pos first)).symm⟩

/-- The number of records is a byte, and there is no record 256. -/
theorem insert_full (recno : Byte) {db : DB} (full : db.nRecs = 255) (rec buffer : DBRec)
    (m : σ) (room : db.tblPtr + 255 * db.recSize.toNat ≤ eeprom.size) :
    ∃ error m', db.insert eeprom recno rec buffer m =
        (true, { db with nRecs := 0, error := error }, eeprom.write db.headPtr 0 m') ∧
      eeprom.SameOutside (Memory.Cells db.tblPtr db.recSize.toNat 255) m m' := by
  have number : db.nRecs.toNat = 255 := by rw [full]; rfl
  have limit := recno.isLt
  have notBeyond : ¬recno > db.nRecs := by
    rw [gt_iff_lt, BitVec.lt_def]
    omega
  obtain ⟨⟨error, table⟩, moved⟩ := loop_frame eeprom (fun i => i + 1)
    ⟨{ db with error := dbOk }, buffer, m⟩ room
    (List.range' recno.toNat (db.nRecs.toNat + 1 - recno.toNat)).reverse
  rw [DB.insert, if_neg notBeyond]
  generalize (List.range' recno.toNat (db.nRecs.toNat + 1 - recno.toNat)).reverse.foldl _ _ =
    reached at table moved ⊢
  obtain ⟨⟨last, kept⟩, put⟩ := write_frame eeprom recno rec reached.db reached.m
    (by rw [table]; exact room)
  rw [table] at kept put
  simp only [table]
  generalize DB.write eeprom recno rec _ reached.m = after at kept put ⊢
  rw [kept, full]
  exact ⟨last, after.2.2, rfl, moved.trans put⟩

theorem append_inside {db : DB} (small : db.nRecs.toNat < 255) (rec : DBRec) (m : σ) :
    db.append eeprom rec m =
      ({ db with nRecs := db.nRecs + 1, error := dbOk },
        eeprom.write db.headPtr (db.nRecs + 1)
          (eeprom.fill (db.tblPtr + db.nRecs.toNat * db.recSize.toNat) rec db.recSize.toNat
            m)) := by
  have next : (db.nRecs + 1).toNat = db.nRecs.toNat + 1 := by
    rw [BitVec.toNat_add]
    exact Nat.mod_eq_of_lt (Nat.succ_lt_succ small)
  rw [DB.append, write_inside eeprom (by simp only [next]; omega) (by simp only; omega)]
  simp only [next, Nat.add_sub_cancel]

theorem append_full {db : DB} (full : db.nRecs = 255) (rec : DBRec) (m : σ) :
    db.append eeprom rec m =
      ({ db with nRecs := 0, error := recnoOutOfRange }, eeprom.write db.headPtr 0 m) := by
  have wraps : db.nRecs + 1 = 0 := by rw [full]; rfl
  rw [DB.append, wraps]
  simp only [write_zero]

end Calls

end ArduMash.Database.Calls
