import Mathlib.Data.List.Basic
import Mathlib.Data.List.InsertIdx
import Mathlib.Tactic.Linarith

/-!
Memories of single cells, and tables of records of one width in them. Records are
moved cell by cell, one place up or down.
-/

namespace Foundation.CellMemory

/-- The cells from `size` on are no cells. -/
structure Memory (σ β : Type) where
  size : ℕ
  read : ℕ → σ → β
  write : ℕ → β → σ → σ
  read_write : ∀ {a : ℕ} (v : β) (m : σ), a < size → read a (write a v m) = v
  read_write_ne : ∀ {a b : ℕ} (v : β) (m : σ), a < size → b < size → b ≠ a →
    read b (write a v m) = read b m

namespace Memory
variable {σ β : Type} (mem : Memory σ β)

/-- The first `n` of the values into the cells from `a` on. -/
def fill (a : ℕ) (values : ℕ → β) (n : ℕ) (m : σ) : σ :=
  (List.range n).foldl (fun m i => mem.write (a + i) (values i) m) m

theorem fill_succ (a : ℕ) (values : ℕ → β) (n : ℕ) (m : σ) :
    mem.fill a values (n + 1) m = mem.write (a + n) (values n) (mem.fill a values n m) := by
  rw [fill, List.range_succ, List.foldl_append]
  rfl

theorem fill_congr {a n : ℕ} {values other : ℕ → β} (same : ∀ i < n, values i = other i) (m : σ) :
    mem.fill a values n m = mem.fill a other n m :=
  List.foldl_ext _ _ m fun _ i inside => by rw [same i (List.mem_range.mp inside)]

theorem read_fill {a b n : ℕ} (values : ℕ → β) (m : σ) (fits : a + n ≤ mem.size)
    (inside : b < mem.size) :
    mem.read b (mem.fill a values n m) =
      if a ≤ b ∧ b < a + n then values (b - a) else mem.read b m := by
  induction n with
  | zero =>
    rw [if_neg (by omega)]
    rfl
  | succ n ih =>
    have before := ih (by omega)
    rw [fill_succ]
    by_cases here : b = a + n
    · rw [here, mem.read_write _ _ (by omega), if_pos (by omega), Nat.add_sub_cancel_left]
    · rw [mem.read_write_ne _ _ (by omega) inside here, before]
      by_cases covered : a ≤ b ∧ b < a + n
      · rw [if_pos covered, if_pos (by omega)]
      · rw [if_neg covered, if_neg (by omega)]

/-- Two memories with the same values in the cells outside. -/
def SameOutside (cells : ℕ → Prop) (m m' : σ) : Prop :=
  ∀ a < mem.size, ¬cells a → mem.read a m' = mem.read a m

theorem sameOutside_refl (cells : ℕ → Prop) (m : σ) : mem.SameOutside cells m m :=
  fun _ _ _ => rfl

theorem SameOutside.trans {mem : Memory σ β} {cells : ℕ → Prop} {first second third : σ}
    (one : mem.SameOutside cells first second) (two : mem.SameOutside cells second third) :
    mem.SameOutside cells first third :=
  fun a inside outside => (two a inside outside).trans (one a inside outside)

theorem SameOutside.mono {mem : Memory σ β} {cells more : ℕ → Prop} {m m' : σ}
    (same : mem.SameOutside cells m m') (sub : ∀ a, cells a → more a) :
    mem.SameOutside more m m' :=
  fun a inside outside => same a inside (mt (sub a) outside)

theorem sameOutside_write {a : ℕ} (v : β) (m : σ) (fits : a < mem.size) :
    mem.SameOutside (fun b => b = a) m (mem.write a v m) :=
  fun _ inside other => mem.read_write_ne v m fits inside other

theorem sameOutside_fill {a n : ℕ} (values : ℕ → β) (m : σ) (fits : a + n ≤ mem.size) :
    mem.SameOutside (fun b => a ≤ b ∧ b < a + n) m (mem.fill a values n m) :=
  fun _ inside outside => (mem.read_fill values m fits inside).trans (if_neg outside)

/-! A table of records of one width. -/

section Table
variable (base width : ℕ)

def record (m : σ) (r : ℕ) : List β :=
  (List.range width).map fun i => mem.read (base + r * width + i) m

/-- The first `n` records. -/
def contents (n : ℕ) (m : σ) : List (List β) := (List.range n).map (mem.record base width m)

/-- The cells of the first `n` records. -/
def Cells (base width n : ℕ) (a : ℕ) : Prop := base ≤ a ∧ a < base + n * width

theorem cells_record {n r : ℕ} (below : r < n) {a : ℕ} (lower : base + r * width ≤ a)
    (upper : a < base + r * width + width) : Cells base width n a := by
  have room : (r + 1) * width ≤ n * width := Nat.mul_le_mul_right width below
  rw [Nat.succ_mul] at room
  exact ⟨by omega, by omega⟩

theorem length_contents (n : ℕ) (m : σ) : (mem.contents base width n m).length = n := by
  rw [contents, List.length_map, List.length_range]

theorem getElem?_contents (n : ℕ) (m : σ) (r : ℕ) :
    (mem.contents base width n m)[r]? =
      if r < n then some (mem.record base width m r) else none := by
  rw [contents, List.getElem?_map]
  split_ifs with inside
  · rw [List.getElem?_range inside]
    rfl
  · rw [List.getElem?_eq_none (by rw [List.length_range]; omega)]
    rfl

theorem contents_eq {n : ℕ} {m : σ} {l : List (List β)} (long : l.length = n)
    (each : ∀ r < n, some (mem.record base width m r) = l[r]?) :
    mem.contents base width n m = l := by
  apply List.ext_getElem?
  intro r
  rw [getElem?_contents]
  split_ifs with inside
  · exact each r inside
  · exact (List.getElem?_eq_none (by omega)).symm

variable {base width} {m m' : σ} {n r : ℕ}

/-- A record in cells that have not changed. -/
theorem record_congr {cells : ℕ → Prop} (same : mem.SameOutside cells m m')
    (fits : base + (r + 1) * width ≤ mem.size)
    (apart : ∀ i < width, ¬cells (base + r * width + i)) :
    mem.record base width m' r = mem.record base width m r := by
  rw [Nat.succ_mul] at fits
  apply List.map_congr_left
  intro i inside
  have small := List.mem_range.mp inside
  exact same _ (by omega) (apart i small)

/-- Writing to one record, or to a part of it, changes no other. -/
theorem record_fill_ne {other count : ℕ} (values : ℕ → β) (upTo : count ≤ width)
    (different : r ≠ other)
    (fits : base + (r + 1) * width ≤ mem.size) (room : base + (other + 1) * width ≤ mem.size) :
    mem.record base width (mem.fill (base + other * width) values count m) r =
      mem.record base width m r := by
  have sizes : (other + 1) * width = other * width + width := Nat.succ_mul other width
  refine mem.record_congr (mem.sameOutside_fill values m (by omega)) fits fun i inside cell => ?_
  rcases Nat.lt_or_gt_of_ne different with below | above
  · have ends : (r + 1) * width ≤ other * width := Nat.mul_le_mul_right width below
    rw [Nat.succ_mul] at ends
    omega
  · have ends : (other + 1) * width ≤ r * width := Nat.mul_le_mul_right width above
    omega

theorem record_fill (values : ℕ → β) (room : base + (r + 1) * width ≤ mem.size) :
    mem.record base width (mem.fill (base + r * width) values width m) r =
      (List.range width).map values := by
  rw [Nat.succ_mul] at room
  apply List.map_congr_left
  intro i inside
  have small := List.mem_range.mp inside
  rw [mem.read_fill values m (by omega) (by omega), if_pos (by omega), Nat.add_sub_cancel_left]

theorem contents_congr {cells : ℕ → Prop} (same : mem.SameOutside cells m m')
    (fits : base + n * width ≤ mem.size) (apart : ∀ a, Cells base width n a → ¬cells a) :
    mem.contents base width n m' = mem.contents base width n m := by
  apply List.map_congr_left
  intro r inside
  have below := List.mem_range.mp inside
  have ends : (r + 1) * width ≤ n * width := Nat.mul_le_mul_right width below
  exact mem.record_congr same (by omega) fun i small =>
    apart _ (cells_record base width below (by omega) (by omega))

theorem contents_fill (values : ℕ → β) (fits : base + n * width ≤ mem.size)
    (room : base + (r + 1) * width ≤ mem.size) :
    mem.contents base width n (mem.fill (base + r * width) values width m) =
      (mem.contents base width n m).set r ((List.range width).map values) := by
  apply mem.contents_eq base width
  · rw [List.length_set, length_contents]
  · intro other below
    have ends : (other + 1) * width ≤ n * width := Nat.mul_le_mul_right width below
    rw [List.getElem?_set, length_contents]
    split_ifs with here inside
    · rw [← here, mem.record_fill values room]
    · omega
    · rw [mem.record_fill_ne values (Nat.le_refl width) (Ne.symm here) (by omega) room,
        getElem?_contents, if_pos below]

theorem contents_succ (n : ℕ) (m : σ) :
    mem.contents base width (n + 1) m =
      mem.contents base width n m ++ [mem.record base width m n] := by
  rw [contents, List.range_succ, List.map_append]
  rfl

variable (base width)

/-- One record is copied to the place of another. -/
def move (source target : ℕ) (m : σ) : σ :=
  mem.fill (base + target * width) (fun i => mem.read (base + source * width + i) m) width m

/-- The records after `first` are moved one place down, `count` of them. -/
def shiftDown (first count : ℕ) (m : σ) : σ :=
  (List.range' first count).foldl (fun m r => mem.move base width (r + 1) r m) m

/-- The records from `first` on are moved one place up, `count` of them. -/
def shiftUp (first count : ℕ) (m : σ) : σ :=
  (List.range' first count).reverse.foldl (fun m r => mem.move base width r (r + 1) m) m

variable {base width}

theorem record_move {source target : ℕ} (fits : base + (r + 1) * width ≤ mem.size)
    (room : base + (target + 1) * width ≤ mem.size) :
    mem.record base width (mem.move base width source target m) r =
      mem.record base width m (if r = target then source else r) := by
  split_ifs with here
  · rw [here]
    exact mem.record_fill _ room
  · exact mem.record_fill_ne _ (Nat.le_refl width) here fits room

theorem shiftDown_succ (first count : ℕ) (m : σ) :
    mem.shiftDown base width first (count + 1) m =
      mem.move base width (first + count + 1) (first + count)
        (mem.shiftDown base width first count m) := by
  rw [shiftDown, List.range'_1_concat, List.foldl_append]
  rfl

theorem shiftUp_succ (first count : ℕ) (m : σ) :
    mem.shiftUp base width first (count + 1) m =
      mem.move base width first (first + 1) (mem.shiftUp base width (first + 1) count m) := by
  rw [shiftUp, List.range'_succ, List.reverse_cons, List.foldl_append]
  rfl

theorem record_shiftDown {first count : ℕ} (fits : base + (r + 1) * width ≤ mem.size)
    (room : base + (first + count + 1) * width ≤ mem.size) :
    mem.record base width (mem.shiftDown base width first count m) r =
      mem.record base width m (if first ≤ r ∧ r < first + count then r + 1 else r) := by
  induction count generalizing r with
  | zero =>
    rw [if_neg (by omega)]
    rfl
  | succ count ih =>
    have less : (first + count + 1) * width ≤ (first + (count + 1) + 1) * width :=
      Nat.mul_le_mul_right width (by omega)
    rw [shiftDown_succ, record_move mem fits (by omega)]
    by_cases here : r = first + count
    · have source := ih (r := first + count + 1) room (by omega)
      rw [if_pos here, source]
      congr 1
      split_ifs <;> omega
    · rw [if_neg here, ih fits (by omega)]
      congr 1
      split_ifs <;> omega

theorem record_shiftUp {first count : ℕ} (fits : base + (r + 1) * width ≤ mem.size)
    (room : base + (first + count + 1) * width ≤ mem.size) :
    mem.record base width (mem.shiftUp base width first count m) r =
      mem.record base width m (if first < r ∧ r ≤ first + count then r - 1 else r) := by
  induction count generalizing first r with
  | zero =>
    rw [if_neg (by omega)]
    rfl
  | succ count ih =>
    have least : (first + 1) * width ≤ (first + (count + 1) + 1) * width :=
      Nat.mul_le_mul_right width (by omega)
    have next : (first + 1 + 1) * width ≤ (first + (count + 1) + 1) * width :=
      Nat.mul_le_mul_right width (by omega)
    have same : first + 1 + count + 1 = first + (count + 1) + 1 := by omega
    rw [shiftUp_succ, record_move mem fits (by omega)]
    by_cases here : r = first + 1
    · rw [if_pos here, ih (by omega) (by rw [same]; exact room)]
      congr 1
      split_ifs <;> omega
    · rw [if_neg here, ih fits (by rw [same]; exact room)]
      congr 1
      split_ifs <;> omega

theorem sameOutside_move {source target n : ℕ} (below : target < n)
    (room : base + n * width ≤ mem.size) :
    mem.SameOutside (Cells base width n) m (mem.move base width source target m) := by
  have ends : (target + 1) * width ≤ n * width := Nat.mul_le_mul_right width below
  rw [Nat.succ_mul] at ends
  exact (mem.sameOutside_fill _ m (by omega)).mono fun a cell =>
    cells_record base width below cell.1 cell.2

theorem sameOutside_shiftDown {first count n : ℕ} (inside : first + count ≤ n)
    (room : base + n * width ≤ mem.size) :
    mem.SameOutside (Cells base width n) m (mem.shiftDown base width first count m) := by
  induction count with
  | zero => exact mem.sameOutside_refl _ m
  | succ count ih =>
    rw [shiftDown_succ]
    exact (ih (by omega)).trans (mem.sameOutside_move (by omega) room)

theorem sameOutside_shiftUp {first count n : ℕ} (inside : first + count < n)
    (room : base + n * width ≤ mem.size) :
    mem.SameOutside (Cells base width n) m (mem.shiftUp base width first count m) := by
  induction count generalizing first with
  | zero => exact mem.sameOutside_refl _ m
  | succ count ih =>
    rw [shiftUp_succ]
    exact (ih (by omega)).trans (mem.sameOutside_move (by omega) room)

/-- All records after the `first` moved down take it out. -/
theorem contents_shiftDown {first : ℕ} (inside : first < n) (room : base + n * width ≤ mem.size) :
    mem.contents base width (n - 1) (mem.shiftDown base width first (n - 1 - first) m) =
      (mem.contents base width n m).eraseIdx first := by
  apply mem.contents_eq base width
  · rw [List.length_eraseIdx_of_lt (by rwa [length_contents]), length_contents]
  · intro r below
    have ends : (r + 1) * width ≤ n * width := Nat.mul_le_mul_right width (by omega)
    have same : first + (n - 1 - first) + 1 = n := by omega
    rw [mem.record_shiftDown (by omega) (by rw [same]; exact room), List.getElem?_eraseIdx]
    split_ifs with before moved moved
    · omega
    · rw [getElem?_contents, if_pos (by omega)]
    · rw [getElem?_contents, if_pos (by omega)]
    · omega

/-- All records from the `first` on moved up make room for another one. -/
theorem contents_shiftUp {first : ℕ} (upTo : first ≤ n) (values : ℕ → β)
    (room : base + (n + 1) * width ≤ mem.size) :
    mem.contents base width (n + 1) (mem.fill (base + first * width) values width
        (mem.shiftUp base width first (n - first) m)) =
      (mem.contents base width n m).insertIdx first ((List.range width).map values) := by
  have firstRoom : (first + 1) * width ≤ (n + 1) * width := Nat.mul_le_mul_right width (by omega)
  apply mem.contents_eq base width
  · rw [List.length_insertIdx_of_le_length (by rwa [length_contents]), length_contents]
  · intro r below
    have ends : (r + 1) * width ≤ (n + 1) * width := Nat.mul_le_mul_right width below
    have same : first + (n - first) + 1 = n + 1 := by omega
    rw [List.getElem?_insertIdx, length_contents]
    by_cases here : r = first
    · rw [here, mem.record_fill values (by omega), if_neg (by omega), if_pos rfl, if_pos upTo]
    · rw [mem.record_fill_ne values (Nat.le_refl width) here (by omega) (by omega),
        mem.record_shiftUp (by omega) (by rw [same]; exact room), if_neg here]
      split_ifs with before moved moved
      · omega
      · rw [getElem?_contents, if_pos (by omega)]
      · rw [getElem?_contents, if_pos (by omega)]
      · omega

/-! Rows that are moved in part, with a record on the way that is written in part. -/

theorem sameOutside_part {target count k : ℕ} (values : ℕ → β) (upTo : count ≤ width)
    (below : target < k) (room : base + k * width ≤ mem.size) :
    mem.SameOutside (Cells base width k) m
      (mem.fill (base + target * width) values count m) := by
  have ends : (target + 1) * width ≤ k * width := Nat.mul_le_mul_right width below
  rw [Nat.succ_mul] at ends
  exact (mem.sameOutside_fill values m (by omega)).mono fun a cell =>
    cells_record base width below cell.1 (by omega)

theorem contents_beyond {target count : ℕ} (values : ℕ → β) (upTo : count ≤ width)
    (beyond : n ≤ target) (room : base + (target + 1) * width ≤ mem.size) :
    mem.contents base width n (mem.fill (base + target * width) values count m) =
      mem.contents base width n m := by
  apply List.map_congr_left
  intro r inside
  have below := List.mem_range.mp inside
  have ends : (r + 1) * width ≤ (target + 1) * width := Nat.mul_le_mul_right width (by omega)
  exact mem.record_fill_ne values upTo (by omega) (by omega) room

theorem contents_downPart {first moved count : ℕ} (values : ℕ → β) (upTo : count ≤ width)
    (inside : first + moved + 1 < n) (room : base + n * width ≤ mem.size) :
    ∃ torn, mem.contents base width n (mem.fill (base + (first + moved) * width) values count
        (mem.shiftDown base width first moved m)) =
      ((mem.contents base width n m).eraseIdx first).insertIdx (first + moved) torn := by
  have ends : ∀ {r}, r < n → base + (r + 1) * width ≤ mem.size := fun {r} below => by
    have upTo : (r + 1) * width ≤ n * width := Nat.mul_le_mul_right width below
    omega
  have less : ((mem.contents base width n m).eraseIdx first).length = n - 1 := by
    rw [List.length_eraseIdx_of_lt (by rw [length_contents]; omega), length_contents]
  refine ⟨mem.record base width (mem.fill (base + (first + moved) * width) values count
    (mem.shiftDown base width first moved m)) (first + moved), mem.contents_eq base width ?_ ?_⟩
  · rw [List.length_insertIdx_of_le_length (by omega), less]
    omega
  · intro r below
    rw [List.getElem?_insertIdx, less]
    by_cases here : r = first + moved
    · rw [here, if_neg (by omega), if_pos rfl, if_pos (by omega)]
    rw [mem.record_fill_ne values upTo here (ends below) (ends (by omega)),
      mem.record_shiftDown (ends below) (ends (by omega))]
    by_cases before : r < first + moved
    · rw [if_pos before, List.getElem?_eraseIdx]
      split_ifs with moves early early
      · omega
      · rw [getElem?_contents, if_pos (by omega)]
      · rw [getElem?_contents, if_pos (by omega)]
      · omega
    · rw [if_neg fun moves => before moves.2, if_neg before, if_neg here, List.getElem?_eraseIdx,
        if_neg (by omega), Nat.sub_add_cancel (by omega), getElem?_contents, if_pos below]

theorem contents_upPart {target count : ℕ} (values : ℕ → β) (upTo : count ≤ width)
    (inside : target ≤ n) (room : base + (n + 1) * width ≤ mem.size) :
    ∃ torn, mem.contents base width n (mem.fill (base + target * width) values count
        (mem.shiftUp base width target (n - target) m)) =
      ((mem.contents base width n m).insertIdx target torn).take n := by
  have ends : ∀ {r}, r ≤ n → base + (r + 1) * width ≤ mem.size := fun {r} below => by
    have upTo : (r + 1) * width ≤ (n + 1) * width := Nat.mul_le_mul_right width (by omega)
    omega
  refine ⟨mem.record base width (mem.fill (base + target * width) values count
    (mem.shiftUp base width target (n - target) m)) target, mem.contents_eq base width ?_ ?_⟩
  · rw [List.length_take, List.length_insertIdx_of_le_length (by rwa [length_contents]),
      length_contents]
    omega
  · intro r below
    rw [List.getElem?_take, if_pos below, List.getElem?_insertIdx, length_contents]
    by_cases here : r = target
    · rw [here, if_neg (by omega), if_pos rfl, if_pos (by omega)]
    rw [mem.record_fill_ne values upTo here (ends (by omega)) (ends (by omega)),
      mem.record_shiftUp (ends (by omega)) (ends (by omega)), if_neg here]
    split_ifs with moves before before
    · omega
    · rw [getElem?_contents, if_pos (by omega)]
    · rw [getElem?_contents, if_pos below]
    · omega

end Table

end Memory

end Foundation.CellMemory
