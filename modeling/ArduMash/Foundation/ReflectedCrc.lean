import Mathlib.Data.BitVec
import Mathlib.Data.List.Count

/-!
Cyclic redundancy checks with the lowest bit first. The register is shifted down a
bit at a time, and `poly` is added whenever the bit shifted out and the bit of the
message differ. Registers of any width; everything is linear in exclusive or.
-/

namespace Foundation.ReflectedCrc

variable {w : ℕ} (poly : BitVec w)

def step (crc : BitVec w) (bit : Bool) : BitVec w :=
  if crc.getLsbD 0 ^^ bit then crc >>> 1 ^^^ poly else crc >>> 1

def run (crc : BitVec w) (message : List Bool) : BitVec w := message.foldl (step poly) crc

theorem run_append (crc : BitVec w) (first rest : List Bool) :
    run poly crc (first ++ rest) = run poly (run poly crc first) rest := List.foldl_append

theorem run_cons (crc : BitVec w) (bit : Bool) (rest : List Bool) :
    run poly crc (bit :: rest) = run poly (step poly crc bit) rest := rfl

theorem step_xor (a b : BitVec w) (s t : Bool) :
    step poly (a ^^^ b) (s ^^ t) = step poly a s ^^^ step poly b t := by
  have cancel : ∀ x y : BitVec w, (x ^^^ poly) ^^^ (y ^^^ poly) = x ^^^ y := by
    intro x y
    rw [BitVec.xor_comm y poly, BitVec.xor_assoc, ← BitVec.xor_assoc poly poly, BitVec.xor_self,
      BitVec.zero_xor]
  simp only [step, BitVec.getLsbD_xor, BitVec.ushiftRight_xor_distrib]
  cases a.getLsbD 0 <;> cases b.getLsbD 0 <;> cases s <;> cases t <;>
    simp only [Bool.xor_false, Bool.xor_true, Bool.not_false, Bool.not_true, if_true, if_false,
      Bool.false_eq_true, cancel]
  all_goals first | rfl | ac_rfl

/-- The difference of two runs is the run of the differences. -/
theorem run_xor (a b : BitVec w) {s t : List Bool} (same : s.length = t.length) :
    run poly (a ^^^ b) (List.zipWith (· ^^ ·) s t) = run poly a s ^^^ run poly b t := by
  induction s generalizing a b t with
  | nil =>
    cases t with
    | nil => rfl
    | cons bit rest => cases same
  | cons bit rest ih =>
    cases t with
    | nil => cases same
    | cons other others =>
      rw [List.zipWith_cons_cons, run_cons, run_cons, run_cons, step_xor]
      exact ih _ _ (Nat.succ.inj same)

theorem step_zero : step poly 0 false = 0 := by
  simp [step]

theorem run_zeros (count : ℕ) : run poly 0 (List.replicate count false) = 0 := by
  induction count with
  | zero => rfl
  | succ count ih =>
    rw [List.replicate_succ, run_cons, step_zero, ih]

theorem run_zeros_first (count : ℕ) (rest : List Bool) :
    run poly 0 (List.replicate count false ++ true :: rest) = run poly poly rest := by
  rw [run_append, run_zeros, run_cons]
  simp [step]

/-- Two messages are told apart exactly if their difference leaves something in the register. -/
theorem run_eq_iff (crc : BitVec w) {s t : List Bool} (same : s.length = t.length) :
    run poly crc s = run poly crc t ↔ run poly 0 (List.zipWith (· ^^ ·) s t) = 0 := by
  have difference := run_xor poly crc crc same
  rw [BitVec.xor_self] at difference
  rw [show (0 : BitVec w) = 0#w from rfl, difference, BitVec.xor_eq_zero_iff]

/-! A byte at a time. -/

/-- The number the bits stand for, the first bit being the lowest. -/
def value : List Bool → BitVec w
  | [] => 0
  | bit :: rest => (value rest <<< 1) ^^^ (BitVec.ofBool bit).setWidth w

theorem getLsbD_value (message : List Bool) {i : ℕ} (inside : i < w) :
    (value message : BitVec w).getLsbD i = message.getD i false := by
  induction message generalizing i with
  | nil => simp [value]
  | cons bit rest ih =>
    cases i with
    | zero => simp [value, inside]
    | succ i =>
      have single : ((BitVec.ofBool bit).setWidth w).getLsbD (i + 1) = false := by
        simp [BitVec.getLsbD_setWidth]
      rw [value, BitVec.getLsbD_xor, BitVec.getLsbD_shiftLeft, single, List.getD_cons_succ,
        ← ih (Nat.lt_of_succ_lt inside)]
      simp [inside]

/-- The bits of a word stand for the word, in a register of any width. -/
theorem value_word {v : ℕ} (word : BitVec v) :
    value ((List.range v).map word.getLsbD) = word.setWidth w := by
  apply BitVec.eq_of_getLsbD_eq
  intro i inside
  rw [getLsbD_value _ inside, BitVec.getLsbD_setWidth, List.getD_eq_getElem?_getD,
    List.getElem?_map]
  by_cases within : i < v
  · simp [within, inside]
  · have beyond : word.getLsbD i = false := BitVec.getLsbD_of_ge word i (by omega)
    simp [within, beyond]

theorem step_eq_xor (crc : BitVec w) (bit : Bool) :
    step poly crc bit = step poly (crc ^^^ (BitVec.ofBool bit).setWidth w) false := by
  have shifted : ((BitVec.ofBool bit).setWidth w) >>> 1 = 0#w := by
    apply BitVec.eq_of_getLsbD_eq
    intro i _
    simp [BitVec.getLsbD_ushiftRight, BitVec.getLsbD_setWidth]
  by_cases wide : 0 < w
  · simp only [step, BitVec.ushiftRight_xor_distrib, shifted, BitVec.xor_zero, BitVec.getLsbD_xor,
      Bool.xor_false]
    simp [wide]
  · obtain rfl : w = 0 := by omega
    exact Subsingleton.elim _ _

/-- Up to `w` bits may be added to the register at once and shifted through afterwards. -/
theorem run_eq_run_zeros (crc : BitVec w) {message : List Bool} (fits : message.length ≤ w) :
    run poly crc message =
      run poly (crc ^^^ value message) (List.replicate message.length false) := by
  induction message generalizing crc with
  | nil => simp [run, value]
  | cons bit rest ih =>
    have upper : (value rest : BitVec w).getLsbD (w - 1) = false := by
      rw [List.length_cons] at fits
      rw [getLsbD_value rest (by omega), List.getD_eq_getElem?_getD,
        List.getElem?_eq_none (by omega)]
      rfl
    have halved : step poly (value rest <<< 1) false = (value rest : BitVec w) := by
      have low : ((value rest : BitVec w) <<< 1).getLsbD 0 = false := by
        simp [BitVec.getLsbD_shiftLeft]
      simp only [step, low, Bool.xor_false, Bool.false_eq_true, if_false]
      apply BitVec.eq_of_getLsbD_eq
      intro i inside
      by_cases top : i = w - 1
      · subst top
        rw [upper]
        simp [BitVec.getLsbD_ushiftRight, BitVec.getLsbD_shiftLeft]
        omega
      · simp [BitVec.getLsbD_ushiftRight, BitVec.getLsbD_shiftLeft]
        omega
    rw [run_cons, List.length_cons, List.replicate_succ, run_cons, ih _ (Nat.le_of_succ_le fits)]
    congr 1
    rw [value, ← BitVec.xor_assoc, BitVec.xor_comm crc, BitVec.xor_assoc,
      show (false : Bool) = (false ^^ false) from rfl, step_xor, halved, ← step_eq_xor,
      BitVec.xor_comm]

theorem value_append (first rest : List Bool) :
    (value (first ++ rest) : BitVec w) = value first ^^^ value rest <<< first.length := by
  induction first with
  | nil => simp [value]
  | cons bit first ih =>
    have moved : (value rest : BitVec w) <<< first.length <<< 1 =
        value rest <<< (bit :: first).length := (BitVec.shiftLeft_add _ _ _).symm
    rw [List.cons_append, value, value, ih, BitVec.shiftLeft_xor_distrib, moved]
    rw [BitVec.xor_assoc, BitVec.xor_assoc, BitVec.xor_comm (value rest <<< _)]

/-- The parts of a register are shifted through on their own. -/
theorem run_zeros_xor (a b : BitVec w) (count : ℕ) :
    run poly (a ^^^ b) (List.replicate count false) =
      run poly a (List.replicate count false) ^^^ run poly b (List.replicate count false) := by
  rw [← run_xor poly a b rfl, List.zipWith_replicate, Nat.min_self]
  rfl

/-- Bits from place `count` on only move down. -/
theorem run_zeros_shift {crc : BitVec w} {count : ℕ} (clear : ∀ i < count, crc.getLsbD i = false) :
    run poly crc (List.replicate count false) = crc >>> count := by
  induction count generalizing crc with
  | zero => rfl
  | succ count ih =>
    have low := clear 0 (Nat.succ_pos count)
    have moved : step poly crc false = crc >>> 1 := by
      rw [step, low]
      rfl
    have rest : ∀ i < count, (crc >>> 1).getLsbD i = false := by
      intro i below
      rw [BitVec.getLsbD_ushiftRight]
      exact clear _ (by omega)
    rw [List.replicate_succ, run_cons, moved, ih rest, ← BitVec.shiftRight_add, Nat.add_comm]

theorem run_zeros_iterate (crc : BitVec w) (count : ℕ) :
    run poly crc (List.replicate count false) = (fun crc => step poly crc false)^[count] crc := by
  induction count generalizing crc with
  | zero => rfl
  | succ count ih =>
    rw [List.replicate_succ, run_cons, ih]
    rfl

/-! Which differences are seen. -/

section Detection
variable {poly : BitVec w} (top : poly.getLsbD (w - 1) = true)
include top

/-- A set bit moves down by one place at most. -/
theorem high_step {crc : BitVec w} {k i : ℕ} (above : k + 1 ≤ i) (high : crc.getLsbD i = true)
    (bit : Bool) : ∃ j, k ≤ j ∧ (step poly crc bit).getLsbD j = true := by
  have inside : i < w := BitVec.lt_of_getLsbD high
  unfold step
  split_ifs
  · refine ⟨w - 1, by omega, ?_⟩
    have last : (crc >>> 1).getLsbD (w - 1) = false := by
      rw [BitVec.getLsbD_ushiftRight]
      exact BitVec.getLsbD_of_ge crc _ (by omega)
    rw [BitVec.getLsbD_xor, last, top]
    rfl
  · refine ⟨i - 1, by omega, ?_⟩
    rw [BitVec.getLsbD_ushiftRight, Nat.add_sub_cancel' (by omega)]
    exact high

theorem high_run {crc : BitVec w} {k i : ℕ} (message : List Bool)
    (above : k + message.length ≤ i) (high : crc.getLsbD i = true) :
    ∃ j, k ≤ j ∧ (run poly crc message).getLsbD j = true := by
  induction message generalizing crc i with
  | nil => exact ⟨i, above, high⟩
  | cons bit rest ih =>
    simp only [List.length_cons] at above
    obtain ⟨j, low, set⟩ :=
      high_step top (show k + rest.length + 1 ≤ i by omega) high bit
    exact ih low set

theorem step_ne_zero {crc : BitVec w} (nonzero : crc ≠ 0) : step poly crc false ≠ 0 := by
  intro cleared
  apply nonzero
  apply BitVec.eq_of_getLsbD_eq
  intro i _
  rw [show (0 : BitVec w) = 0#w from rfl, BitVec.getLsbD_zero]
  by_contra set
  rw [Bool.not_eq_false] at set
  cases i with
  | zero =>
    have inside : 0 < w := BitVec.lt_of_getLsbD set
    have last : (crc >>> 1).getLsbD (w - 1) = false := by
      rw [BitVec.getLsbD_ushiftRight]
      exact BitVec.getLsbD_of_ge crc _ (by omega)
    have high := congrArg (fun x => x.getLsbD (w - 1)) cleared
    simp only [step, set, Bool.xor_false, if_true, BitVec.getLsbD_xor, last, top] at high
    simp at high
  | succ i =>
    obtain ⟨j, _, high⟩ := high_step top (show 0 + 1 ≤ i + 1 by omega) set false
    rw [cleared] at high
    simp at high

theorem run_zeros_ne_zero {crc : BitVec w} (nonzero : crc ≠ 0) (count : ℕ) :
    run poly crc (List.replicate count false) ≠ 0 := by
  induction count generalizing crc with
  | zero => exact nonzero
  | succ count ih =>
    rw [List.replicate_succ, run_cons]
    exact ih (step_ne_zero top nonzero)

/-- A difference within `w` successive bits is seen. -/
theorem burst_seen (before after : ℕ) {window : List Bool} (short : window.length < w) :
    run poly 0 (List.replicate before false ++ true :: (window ++ List.replicate after false)) ≠
      0 := by
  rw [run_zeros_first, run_append]
  apply run_zeros_ne_zero top
  intro cleared
  obtain ⟨j, _, high⟩ := high_run top window (show 0 + window.length ≤ w - 1 by omega) top
  rw [cleared] at high
  simp at high

/-- Two different bits are seen as long as the register has not come back to 1 in between. -/
theorem pair_seen (before between after : ℕ)
    (distinct : run poly poly (List.replicate between false) ≠ 1) :
    run poly 0 (List.replicate before false ++
      true :: (List.replicate between false ++ true :: List.replicate after false)) ≠ 0 := by
  rw [run_zeros_first, run_append, run_cons]
  apply run_zeros_ne_zero top
  intro cleared
  apply distinct
  have inside : 0 < w := by
    by_contra empty
    obtain rfl : w = 0 := by omega
    exact absurd top (by simp)
  have one : step poly 1 true = 0 := by
    have low : (1 : BitVec w).getLsbD 0 = true := by simp [inside]
    have rest : (1 : BitVec w) >>> 1 = 0 := by
      apply BitVec.eq_of_getLsbD_eq
      intro i _
      simp [BitVec.getLsbD_ushiftRight]
    rw [step, low, Bool.xor_self, if_neg Bool.false_ne_true, rest]
  have sum := step_xor poly (run poly poly (List.replicate between false)) 1 true true
  rw [Bool.xor_self, cleared, one, BitVec.xor_self] at sum
  by_contra other
  exact step_ne_zero top (fun same => other (BitVec.xor_eq_zero_iff.mp same)) sum

end Detection

/-- A sum of register bits to which every bit of the message adds itself. -/
structure Parity (poly : BitVec w) (parity : BitVec w → Bool) : Prop where
  zero : parity 0 = false
  step : ∀ crc bit, parity (step poly crc bit) = (parity crc ^^ bit)

/-- The sum of the lowest `n` bits. -/
def sumBits (x : BitVec w) : ℕ → Bool
  | 0 => false
  | n + 1 => sumBits x n ^^ x.getLsbD n

theorem sumBits_xor (x y : BitVec w) (n : ℕ) :
    sumBits (x ^^^ y) n = (sumBits x n ^^ sumBits y n) := by
  induction n with
  | zero => rfl
  | succ n ih =>
    rw [sumBits, sumBits, sumBits, ih, BitVec.getLsbD_xor]
    cases sumBits x n <;> cases sumBits y n <;> cases x.getLsbD n <;> cases y.getLsbD n <;> rfl

theorem sumBits_shift (x : BitVec w) (n : ℕ) :
    sumBits (x >>> 1) n = (sumBits x (n + 1) ^^ x.getLsbD 0) := by
  induction n with
  | zero => simp [sumBits]
  | succ n ih =>
    have more : sumBits x (n + 1 + 1) = (sumBits x (n + 1) ^^ x.getLsbD (n + 1)) := rfl
    rw [sumBits, ih, BitVec.getLsbD_ushiftRight, more, Nat.add_comm 1 n, Bool.xor_right_comm]

/-- Of a polynomial with an even number of terms, of which the highest is not in the register. -/
theorem parity_sumBits (odd : sumBits poly w = true) : Parity poly fun crc => sumBits crc w where
  zero := by
    have zeros : ∀ n, sumBits (0 : BitVec w) n = false := by
      intro n
      induction n with
      | zero => rfl
      | succ n ih =>
        rw [sumBits, ih]
        simp
    exact zeros w
  step := by
    intro crc bit
    have shifted : sumBits (crc >>> 1) w = (sumBits crc w ^^ crc.getLsbD 0) := by
      rw [sumBits_shift, sumBits, BitVec.getLsbD_of_ge crc w (Nat.le_refl w), Bool.xor_false]
    simp only [step]
    split_ifs with feedback
    · rw [sumBits_xor, shifted, odd, Bool.xor_assoc]
      congr 1
      revert feedback
      cases crc.getLsbD 0 <;> cases bit <;> decide
    · rw [shifted]
      congr 1
      revert feedback
      cases crc.getLsbD 0 <;> cases bit <;> decide

theorem Parity.run {poly : BitVec w} {parity : BitVec w → Bool} (even : Parity poly parity)
    (crc : BitVec w) (message : List Bool) :
    parity (run poly crc message) = (parity crc ^^ decide (message.count true % 2 = 1)) := by
  induction message generalizing crc with
  | nil => simp [ReflectedCrc.run]
  | cons bit rest ih =>
    rw [run_cons, ih, even.step, List.count_cons, Bool.xor_assoc]
    congr 1
    cases bit with
    | false => simp
    | true =>
      rcases Nat.mod_two_eq_zero_or_one (rest.count true) with zero | one
      · simp [zero, Nat.add_mod]
      · simp [one, Nat.add_mod]

/-- An odd number of different bits is seen. -/
theorem Parity.odd_seen {poly : BitVec w} {parity : BitVec w → Bool} (even : Parity poly parity)
    {message : List Bool} (odd : message.count true % 2 = 1) :
    ReflectedCrc.run poly 0 message ≠ 0 := by
  intro cleared
  have sum := even.run 0 message
  rw [cleared, even.zero, decide_eq_true odd] at sum
  cases sum

/-! Messages with few set bits. -/

theorem replicate_of_count_zero {message : List Bool} (none_ : message.count true = 0) :
    message = List.replicate message.length false := by
  apply List.eq_replicate_of_mem
  intro bit member
  cases bit with
  | false => rfl
  | true => exact absurd member (List.count_eq_zero.mp none_)

theorem exists_first {message : List Bool} {count : ℕ} (set : message.count true = count + 1) :
    ∃ before rest, message = List.replicate before false ++ true :: rest ∧
      rest.count true = count := by
  induction message with
  | nil => cases set
  | cons bit rest ih =>
    cases bit with
    | true => exact ⟨0, rest, rfl, by simpa using set⟩
    | false =>
      obtain ⟨before, others, same, counted⟩ := ih (by simpa using set)
      exact ⟨before + 1, others, by rw [same]; rfl, counted⟩

/-- Up to three different bits are seen in messages that the register does not come round in. -/
theorem few_seen {poly : BitVec w} {parity : BitVec w → Bool} (top : poly.getLsbD (w - 1) = true)
    (even : Parity poly parity) {message : List Bool}
    (distinct : ∀ between, between + 2 ≤ message.length →
      run poly poly (List.replicate between false) ≠ 1)
    (some_ : 0 < message.count true) (few : message.count true ≤ 3) :
    run poly 0 message ≠ 0 := by
  by_cases odd : message.count true % 2 = 1
  · exact even.odd_seen odd
  · have two : message.count true = 1 + 1 := by omega
    obtain ⟨before, rest, same, one⟩ := exists_first two
    obtain ⟨between, last, sameRest, none_⟩ := exists_first one
    rw [replicate_of_count_zero none_] at sameRest
    rw [sameRest] at same
    have length := congrArg List.length same
    simp only [List.length_append, List.length_replicate, List.length_cons] at length
    rw [same]
    exact pair_seen top before between last.length (distinct between (by omega))

end Foundation.ReflectedCrc
