import Mathlib.Data.List.Basic
import Mathlib.Data.Nat.Digits.Defs

/-!
Numbers in decimal, with a padding zero that may have been decided on by another
number than the one that is printed.
-/

namespace Foundation.DecimalText

/-- `value` in decimal, after a zero if `tested` is below 10. -/
def padded (tested value : ℕ) : List Char :=
  (if tested < 10 then ['0'] else []) ++ Nat.toDigits 10 value

theorem isDigit_of_mem_padded {tested value : ℕ} {char : Char}
    (member : char ∈ padded tested value) :
    char.isDigit := by
  unfold padded at member
  rcases List.mem_append.mp member with zero | digit
  · split_ifs at zero
    · rw [List.mem_singleton.mp zero]
      decide
    · cases zero
  · exact Nat.isDigit_of_mem_toDigits (by decide) (by decide) digit

theorem notMem_padded {tested value : ℕ} {char : Char} (other : char.isDigit = false) :
    char ∉ padded tested value := by
  intro member
  exact absurd (other.symm.trans (isDigit_of_mem_padded member)) (by decide)

theorem length_padded (tested value : ℕ) :
    (padded tested value).length =
      (if tested < 10 then 1 else 0) + (Nat.toDigits 10 value).length := by
  unfold padded
  rw [List.length_append]
  split_ifs <;> rfl

/-- A padding zero does not change the number that is read back. -/
theorem value_padded (tested value : ℕ) : Nat.ofDigitChars 10 (padded tested value) 0 = value := by
  unfold padded
  split_ifs with small
  · calc Nat.ofDigitChars 10 ('0' :: Nat.toDigits 10 value) 0
        = Nat.ofDigitChars 10 (Nat.toDigits 10 value) 0 := Nat.ofDigitChars_cons
      _ = value := Nat.ofDigitChars_ten_toDigits
  · exact Nat.ofDigitChars_ten_toDigits

/-- The text tells the number and whether it was padded. -/
theorem padded_eq_iff {tested value other number : ℕ} :
    padded tested value = padded other number ↔
      (tested < 10 ↔ other < 10) ∧ value = number := by
  constructor
  · intro same
    have equal : value = number := by
      calc value = Nat.ofDigitChars 10 (padded tested value) 0 := (value_padded tested value).symm
        _ = Nat.ofDigitChars 10 (padded other number) 0 := by rw [same]
        _ = number := value_padded other number
    have lengths := congrArg List.length same
    rw [length_padded, length_padded, equal] at lengths
    refine ⟨?_, equal⟩
    split_ifs at lengths <;> omega
  · intro ⟨agree, equal⟩
    unfold padded
    simp only [agree, equal]

/-- Two numbers around a separator that is no digit. -/
def separated (separator : Char) (first second : List Char) : List Char :=
  first ++ separator :: second

theorem separated_eq_iff {separator : Char} {first second other next : List Char}
    (notFirst : separator ∉ first) (notSecond : separator ∉ second) :
    separated separator first second = separated separator other next ↔
      first = other ∧ second = next := by
  unfold separated
  rw [List.append_cons_inj_of_notMem notFirst notSecond]
  simp only [true_and]

theorem length_toDigits_one {value : ℕ} : (Nat.toDigits 10 value).length = 1 ↔ value < 10 := by
  have upTo := Nat.length_toDigits_le_iff (n := value) (show 1 < 10 by decide)
    (show 0 < 1 by decide)
  have positive := Nat.length_toDigits_pos (b := 10) (n := value)
  rw [Nat.pow_one] at upTo
  omega

/-- A number that decides on its own padding has at least two characters. -/
theorem two_le_padded (value : ℕ) : 2 ≤ (padded value value).length := by
  have positive := Nat.length_toDigits_pos (b := 10) (n := value)
  rw [length_padded]
  split_ifs with small
  · omega
  · have wide : (Nat.toDigits 10 value).length ≠ 1 := fun one =>
      small (length_toDigits_one.mp one)
    omega

end Foundation.DecimalText
