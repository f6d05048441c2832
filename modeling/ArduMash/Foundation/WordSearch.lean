import Mathlib.Order.PiLex
import Mathlib.Order.Bounds.Basic
import Mathlib.Data.Fintype.Order

/-!
Walks through a set of words of one length, bit by bit. Where words of the set go
on with 0 and others with 1, a rule chooses; the walk ends at a word of the set.
The rules that matter here lead to the least word, and to the next one.
-/

namespace Foundation.WordSearch

/-- Words of `w` bits; position 0 is compared first. -/
abbrev Word (w : ℕ) := Lex (Fin w → Bool)

variable {w : ℕ} {members : Set (Word w)} {choose : Fin w → Bool} {path x y z : Word w}

/-- The words are the same before position `k`. -/
def Agree (k : ℕ) (x y : Word w) : Prop := ∀ i : Fin w, i.val < k → x i = y i

theorem Agree.symm {k : ℕ} (agree : Agree k x y) : Agree k y x := fun i before =>
  (agree i before).symm

theorem Agree.trans {k : ℕ} (first : Agree k x y) (rest : Agree k y z) : Agree k x z :=
  fun i before => (first i before).trans (rest i before)

theorem Agree.mono {j k : ℕ} (agree : Agree k x y) (upTo : j ≤ k) : Agree j x y :=
  fun i before => agree i (Nat.lt_of_lt_of_le before upTo)

theorem agree_zero (x y : Word w) : Agree 0 x y := fun i before => absurd before (Nat.not_lt_zero i)

theorem Agree.succ {k : ℕ} (agree : Agree k x y) (here : ∀ i : Fin w, i.val = k → x i = y i) :
    Agree (k + 1) x y := by
  intro i before
  rcases Nat.lt_succ_iff_lt_or_eq.mp before with earlier | same
  · exact agree i earlier
  · exact here i same

theorem Agree.eq_of_length {k : ℕ} (agree : Agree k x y) (all : w ≤ k) : x = y :=
  funext fun i => agree i (Nat.lt_of_lt_of_le i.isLt all)

theorem lt_iff : x < y ↔ ∃ i : Fin w, Agree i x y ∧ x i = false ∧ y i = true := by
  constructor
  · rintro ⟨i, before, less⟩
    exact ⟨i, before, Bool.lt_iff.mp less⟩
  · rintro ⟨i, before, less⟩
    exact ⟨i, before, Bool.lt_iff.mpr less⟩

/-- Different words have a first difference. -/
theorem exists_difference (different : x ≠ y) : ∃ i : Fin w, Agree i x y ∧ x i ≠ y i := by
  rcases lt_or_gt_of_ne different with less | greater
  · obtain ⟨i, before, first, second⟩ := lt_iff.mp less
    exact ⟨i, before, by simp [first, second]⟩
  · obtain ⟨i, before, first, second⟩ := lt_iff.mp greater
    exact ⟨i, before.symm, by simp [first, second]⟩

/-! Splits. -/

/-- Members that agree with the path so far go on with 0 at position `k`, and others with 1. -/
def Splits (members : Set (Word w)) (path : Word w) (k : Fin w) : Prop :=
  (∃ x ∈ members, Agree k x path ∧ x k = false) ∧ ∃ x ∈ members, Agree k x path ∧ x k = true

/-- The path takes 0 at a split. -/
def Pending (members : Set (Word w)) (path : Word w) (k : Fin w) : Prop :=
  Splits members path k ∧ path k = false

theorem splits_congr {k : Fin w} (agree : Agree k x y) :
    Splits members x k ↔ Splits members y k := by
  have same : ∀ z, Agree k z x ↔ Agree k z y :=
    fun z => ⟨fun with_ => with_.trans agree, fun with_ => with_.trans agree.symm⟩
  simp only [Splits, same]

/-- Two members that part at `k` split there. -/
theorem splits_of_difference {k : Fin w} (first : x ∈ members) (second : y ∈ members)
    (agree : Agree k x y) (different : x k ≠ y k) : Splits members x k := by
  have refl : Agree k x x := fun i _ => rfl
  cases here : x k with
  | false =>
    cases there : y k with
    | false => exact absurd (here.trans there.symm) different
    | true => exact ⟨⟨x, first, refl, here⟩, y, second, agree.symm, there⟩
  | true =>
    cases there : y k with
    | false => exact ⟨⟨y, second, agree.symm, there⟩, x, first, refl, here⟩
    | true => exact absurd (here.trans there.symm) different

/-- A member that is less than another has left it at a split where it took 0. -/
theorem pending_of_lt (first : x ∈ members) (second : y ∈ members) (less : x < y) :
    ∃ k : Fin w, Agree k x y ∧ Pending members x k ∧ y k = true := by
  obtain ⟨k, agree, here, there⟩ := lt_iff.mp less
  have different : x k ≠ y k := by simp [here, there]
  exact ⟨k, agree, ⟨splits_of_difference first second agree different, here⟩, there⟩

/-- A member without pending splits is the last one. -/
theorem greatest_of_settled (member : x ∈ members) (settled : ∀ k, ¬Pending members x k) :
    IsGreatest members x := by
  refine ⟨member, fun y other => ?_⟩
  by_contra above
  obtain ⟨k, _, pending, _⟩ := pending_of_lt member other (lt_of_not_ge above)
  exact settled k pending

/-! Walks. -/

/-- The path stays among the members and takes the chosen bit wherever they split. -/
structure Follows (members : Set (Word w)) (choose : Fin w → Bool) (path : Word w) : Prop where
  member : path ∈ members
  chosen : ∀ k, Splits members path k → path k = choose k

/-- The rule that keeps to `start` before position `m` and takes 0 from there on. -/
def lowest (start : Word w) (m : ℕ) (k : Fin w) : Bool := decide (k.val < m) && start k

/-- It leads to the least member that begins like `start`, if there is one. -/
theorem least_of_follows {start : Word w} {m : ℕ} (follows : Follows members (lowest start m) path)
    (found : ∃ x ∈ members, Agree m x start) : IsLeast {x ∈ members | Agree m x start} path := by
  have begins : ∀ k ≤ m, Agree k path start := by
    intro k
    induction k with
    | zero => exact fun _ => agree_zero path start
    | succ k ih =>
      intro upTo
      have before := ih (Nat.le_of_succ_le upTo)
      refine before.succ fun i here => ?_
      obtain ⟨x, member, like⟩ := found
      have agree : Agree i path x := by
        rw [here]
        exact before.trans (like.mono (Nat.le_of_succ_le upTo)).symm
      by_contra different
      have parts : path i ≠ x i := fun same => different (same.trans (like i (by omega)))
      have chosen := follows.chosen i (splits_of_difference follows.member member agree parts)
      simp only [lowest, show i.val < m by omega, decide_true, Bool.true_and] at chosen
      exact different chosen
  refine ⟨⟨follows.member, begins m (Nat.le_refl m)⟩, ?_⟩
  rintro y ⟨member, like⟩
  by_contra above
  obtain ⟨k, agree, first, second⟩ := lt_iff.mp (lt_of_not_ge above)
  have parts : path k ≠ y k := by simp [first, second]
  have chosen := follows.chosen k (splits_of_difference follows.member member agree.symm parts)
  have inside : ¬k.val < m := by
    intro before
    exact parts ((begins m (Nat.le_refl m) k before).trans (like k before).symm)
  simp [lowest, inside, second] at chosen

/-- Settled from position `mark` on, and pending right before it, if `mark` is not 0. -/
structure LastPending (members : Set (Word w)) (path : Word w) (mark : ℕ) : Prop where
  settled : ∀ k : Fin w, mark ≤ k.val → ¬Pending members path k
  pending : ∀ k : Fin w, k.val + 1 = mark → Pending members path k
  inside : mark ≤ w

/-- The rule that keeps to `last` up to the marked split, takes 1 there and 0 from there on. -/
def resume (last : Word w) (mark : ℕ) (k : Fin w) : Bool :=
  if k.val + 1 < mark then last k else decide (k.val + 1 = mark)

/-- Without a mark it leads to the least member. -/
theorem least_of_resume {last : Word w} (follows : Follows members (resume last 0) path) :
    IsLeast members path := by
  have same : resume last 0 = lowest last 0 := by
    funext k
    simp [resume, lowest]
  rw [same] at follows
  have least := least_of_follows follows ⟨path, follows.member, agree_zero path last⟩
  exact ⟨least.1.1, fun y member => least.2 ⟨member, agree_zero y last⟩⟩

/-- From a member the rule keeps to it up to the marked split. -/
theorem agree_of_resume {last : Word w} {m : Fin w} (member : last ∈ members)
    (follows : Follows members (resume last (m.val + 1)) path) : Agree m path last := by
  have agree : ∀ k ≤ m.val, Agree k path last := by
    intro k
    induction k with
    | zero => exact fun _ => agree_zero path last
    | succ k ih =>
      intro upTo
      refine (ih (Nat.le_of_succ_le upTo)).succ fun i here => ?_
      by_contra different
      have before : Agree i path last := by
        rw [here]
        exact ih (Nat.le_of_succ_le upTo)
      have chosen := follows.chosen i
        (splits_of_difference follows.member member before different)
      simp only [resume, show i.val + 1 < m.val + 1 by omega, if_true] at chosen
      exact different chosen
  exact agree m (Nat.le_refl _)

/-- From the last pending split of a member it leads to the next one. -/
theorem next_of_resume {last : Word w} {mark : ℕ} (member : last ∈ members)
    (marked : LastPending members last mark) (positive : 0 < mark)
    (follows : Follows members (resume last mark) path) :
    IsLeast {x ∈ members | last < x} path := by
  obtain ⟨m, rfl⟩ : ∃ m : Fin w, mark = m.val + 1 :=
    ⟨⟨mark - 1, by have := marked.inside; omega⟩, by simp only; omega⟩
  have pending := marked.pending m rfl
  have before := agree_of_resume member follows
  have turns : path m = true := by
    have chosen := follows.chosen m ((splits_congr before).mpr pending.1)
    simpa [resume] using chosen
  have after : last < path := lt_iff.mpr ⟨m, before.symm, pending.2, turns⟩
  refine ⟨⟨follows.member, after⟩, ?_⟩
  rintro y ⟨other, greater⟩
  obtain ⟨k, same, split, one⟩ := pending_of_lt member other greater
  have inside : k.val < m.val + 1 := by
    by_contra later
    exact marked.settled k (not_lt.mp later) split
  rcases Nat.lt_succ_iff_lt_or_eq.mp inside with earlier | here
  · have first : path k = false := (before k earlier).trans split.2
    exact le_of_lt (lt_iff.mpr
      ⟨k, (before.mono (Nat.le_of_lt earlier)).trans same, first, one⟩)
  · obtain rfl : k = m := Fin.ext here
    by_contra above
    obtain ⟨i, equal, zero, upper⟩ := lt_iff.mp (lt_of_not_ge above)
    have parts : path i ≠ y i := by simp [zero, upper]
    have chosen := follows.chosen i
      (splits_of_difference follows.member other equal.symm parts)
    rcases lt_trichotomy i k with low | middle | high
    · exact parts ((before i low).trans (same i low))
    · subst middle
      simp [zero] at one
    · have later : ¬i.val + 1 < k.val + 1 := by omega
      have beyond : ¬i.val + 1 = k.val + 1 := by omega
      rw [resume, if_neg later, decide_eq_false beyond, upper] at chosen
      cases chosen

/-! A walk on its way. -/

/-- Every member that agrees with the path so far goes on with `bit`. -/
def Only (members : Set (Word w)) (path : Word w) (k : Fin w) (bit : Bool) : Prop :=
  ∀ x ∈ members, Agree k x path → x k = bit

theorem splits_iff {k : Fin w} :
    Splits members path k ↔ ¬Only members path k true ∧ ¬Only members path k false := by
  simp only [Splits, Only, not_forall, Bool.not_eq_true, Bool.not_eq_false, exists_prop]

/-- The first `k` bits of the path are those of a member, chosen by the rule; `mark` is the last
split among them at which it took 0. -/
structure Walking (members : Set (Word w)) (choose : Fin w → Bool) (k : ℕ) (path : Word w)
    (mark : ℕ) : Prop where
  alive : ∃ x ∈ members, Agree k x path
  chosen : ∀ j : Fin w, j.val < k → Splits members path j → path j = choose j
  settled : ∀ j : Fin w, mark ≤ j.val → j.val < k → ¬Pending members path j
  pending : ∀ j : Fin w, j.val + 1 = mark → Pending members path j
  inside : mark ≤ k

theorem walking_start (found : members.Nonempty) (path : Word w) :
    Walking members choose 0 path 0 where
  alive := by
    obtain ⟨x, member⟩ := found
    exact ⟨x, member, agree_zero x path⟩
  chosen := fun j before => absurd before (Nat.not_lt_zero _)
  settled := fun j _ before => absurd before (Nat.not_lt_zero _)
  pending := fun j same => absurd same (Nat.succ_ne_zero _)
  inside := Nat.le_refl 0

open Classical in
/-- One more bit: the one that is forced, or the chosen one at a split. -/
theorem Walking.step {mark : ℕ} {k : Fin w} {next : Word w}
    (walking : Walking members choose k path mark) (agree : Agree k next path)
    (one : Only members path k true → next k = true)
    (zero : Only members path k false → next k = false)
    (split : Splits members path k → next k = choose k) :
    Walking members choose (k + 1) next
      (if Splits members path k ∧ next k = false then k + 1 else mark) := by
  have same : ∀ j : Fin w, j.val ≤ k.val → (Splits members next j ↔ Splits members path j) :=
    fun j upTo => splits_congr (agree.mono upTo)
  have pendingBefore : ∀ j : Fin w, j.val < k.val →
      (Pending members next j ↔ Pending members path j) := by
    intro j before
    unfold Pending
    rw [same j (Nat.le_of_lt before), agree j before]
  constructor
  · have found : ∃ x ∈ members, Agree k x path ∧ x k = next k := by
      obtain ⟨x, member, like⟩ := walking.alive
      by_cases splits : Splits members path k
      · cases bit : next k with
        | false => exact splits.1
        | true => exact splits.2
      · rw [splits_iff, not_and_or, not_not, not_not] at splits
        rcases splits with ones | zeros
        · exact ⟨x, member, like, (ones x member like).trans (one ones).symm⟩
        · exact ⟨x, member, like, (zeros x member like).trans (zero zeros).symm⟩
    obtain ⟨x, member, like, bit⟩ := found
    refine ⟨x, member, (like.trans agree.symm).succ fun i here => ?_⟩
    rw [Fin.ext here]
    exact bit
  · intro j before splits
    rcases Nat.lt_succ_iff_lt_or_eq.mp before with earlier | here
    · rw [agree j earlier]
      exact walking.chosen j earlier ((same j (Nat.le_of_lt earlier)).mp splits)
    · obtain rfl : j = k := Fin.ext here
      exact split ((same j (Nat.le_refl _)).mp splits)
  · intro j after before pending
    rcases Nat.lt_succ_iff_lt_or_eq.mp before with earlier | here
    · split_ifs at after with now
      · omega
      · exact walking.settled j after earlier ((pendingBefore j earlier).mp pending)
    · obtain rfl : j = k := Fin.ext here
      rw [if_pos ⟨(same j (Nat.le_refl _)).mp pending.1, pending.2⟩] at after
      omega
  · intro j here
    split_ifs at here with now
    · obtain rfl : j = k := Fin.ext (Nat.succ.inj here)
      exact ⟨(same j (Nat.le_refl _)).mpr now.1, now.2⟩
    · have before : j.val < k.val := by
        have inside := walking.inside
        omega
      exact (pendingBefore j before).mpr (walking.pending j here)
  · have inside := walking.inside
    split_ifs <;> omega

theorem Walking.follows {mark : ℕ} (walking : Walking members choose w path mark) :
    Follows members choose path := by
  obtain ⟨x, member, agree⟩ := walking.alive
  rw [agree.eq_of_length (Nat.le_refl w)] at member
  exact ⟨member, fun k => walking.chosen k k.isLt⟩

theorem Walking.lastPending {mark : ℕ} (walking : Walking members choose w path mark) :
    LastPending members path mark :=
  ⟨fun k after => walking.settled k after k.isLt, walking.pending, walking.inside⟩

/-! Strictly sorted lists, one element after the other. -/

section Sorted
variable {α : Type*} [LinearOrder α] {sorted : List α} (increasing : sorted.Pairwise (· < ·))
  {c : ℕ} {a b : α}
include increasing

theorem first_of_least (least : IsLeast {x | x ∈ sorted} a) : sorted[0]? = some a := by
  cases sorted with
  | nil => exact absurd least.1 (List.not_mem_nil)
  | cons head rest =>
    have below : a ≤ head := least.2 List.mem_cons_self
    rcases List.mem_cons.mp least.1 with same | later
    · rw [same]
      rfl
    · have above := (List.pairwise_cons.mp increasing).1 a later
      exact absurd above (not_lt.mpr below)

theorem getElem?_lt {j : ℕ} (found : sorted[c]? = some a) (other : sorted[j]? = some b) :
    a < b ↔ c < j := by
  obtain ⟨inside, rfl⟩ := List.getElem?_eq_some_iff.mp found
  obtain ⟨otherInside, rfl⟩ := List.getElem?_eq_some_iff.mp other
  have apart := List.pairwise_iff_getElem.mp increasing
  constructor
  · intro less
    by_contra later
    rcases Nat.eq_or_lt_of_le (not_lt.mp later) with same | earlier
    · subst same
      exact lt_irrefl _ less
    · exact lt_asymm less (apart j c otherInside inside earlier)
  · exact apart c j inside otherInside

theorem next_of_least (found : sorted[c]? = some a)
    (next : IsLeast {x | x ∈ sorted ∧ a < x} b) : sorted[c + 1]? = some b := by
  obtain ⟨j, atJ⟩ := List.mem_iff_getElem?.mp next.1.1
  have later := (getElem?_lt increasing found atJ).mp next.1.2
  have inside : c + 1 < sorted.length :=
    Nat.lt_of_le_of_lt later (List.getElem?_eq_some_iff.mp atJ).1
  have here : sorted[c + 1]? = some sorted[c + 1] := List.getElem?_eq_getElem inside
  have above := (getElem?_lt increasing found here).mpr (Nat.lt_succ_self c)
  have upTo : b ≤ sorted[c + 1] := next.2 ⟨List.mem_of_getElem? here, above⟩
  have same : j = c + 1 := by
    by_contra other
    exact absurd ((getElem?_lt increasing here atJ).mpr (by omega)) (not_lt.mpr upTo)
  rw [← same]
  exact atJ

theorem end_of_greatest (found : sorted[c]? = some a) (greatest : IsGreatest {x | x ∈ sorted} a) :
    sorted.length = c + 1 := by
  have inside := (List.getElem?_eq_some_iff.mp found).1
  by_contra longer
  have more : c + 1 < sorted.length := by omega
  have here : sorted[c + 1]? = some sorted[c + 1] := List.getElem?_eq_getElem more
  have above := (getElem?_lt increasing found here).mpr (Nat.lt_succ_self c)
  exact absurd (greatest.2 (List.mem_of_getElem? here)) (not_le.mpr above)

end Sorted

end Foundation.WordSearch
