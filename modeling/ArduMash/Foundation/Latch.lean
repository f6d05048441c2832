import Mathlib.Data.Nat.Init

/-!
A one-bit memory that is set, reset or left alone in every round. Its value is
decided by the latest round that did not leave it alone.
-/

namespace Foundation.Latch

inductive Command where
  | set
  | reset
  | hold
  deriving DecidableEq, Repr

def Command.apply : Command → Bool → Bool
  | .set, _ => true
  | .reset, _ => false
  | .hold, value => value

/-- Round `last` set the latch and every later round up to `now` held it. -/
def SetLast (command : ℕ → Command) (last now : ℕ) : Prop :=
  last ≤ now ∧ command last = .set ∧ ∀ k, last < k → k ≤ now → command k = .hold

theorem setLast_self {command : ℕ → Command} {now : ℕ} (set : command now = .set) :
    SetLast command now now :=
  ⟨Nat.le_refl now, set, fun k after before => by omega⟩

theorem setLast_succ_iff (command : ℕ → Command) (last now : ℕ) (held : command (now + 1) = .hold) :
    SetLast command last (now + 1) ↔ SetLast command last now := by
  constructor
  · intro ⟨bound, set, holds⟩
    have earlier : last ≠ now + 1 := by
      intro same
      rw [same, held] at set
      cases set
    exact ⟨by omega, set, fun k after before => holds k after (by omega)⟩
  · intro ⟨bound, set, holds⟩
    refine ⟨by omega, set, fun k after before => ?_⟩
    by_cases top : k = now + 1
    · rw [top, held]
    · exact holds k after (by omega)

theorem setLast_of_reset {command : ℕ → Command} {now : ℕ} (reset : command now = .reset)
    (last : ℕ) : ¬SetLast command last now := by
  intro ⟨bound, set, holds⟩
  by_cases top : last = now
  · rw [top, reset] at set
    cases set
  · have held := holds now (by omega) (Nat.le_refl now)
    rw [reset] at held
    cases held

theorem setLast_zero_hold {command : ℕ → Command} (held : command 0 = .hold) (last : ℕ) :
    ¬SetLast command last 0 := by
  intro ⟨bound, set, _⟩
  obtain rfl : last = 0 := Nat.le_zero.mp bound
  rw [held] at set
  cases set

/-- A latch that starts reset is true exactly if some round set it and no later
round up to now touched it. -/
theorem value_iff_setLast (command : ℕ → Command) (value : ℕ → Bool) (start : value 0 = false)
    (now : ℕ) (follows : ∀ k ≤ now, value (k + 1) = (command k).apply (value k)) :
    value (now + 1) = true ↔ ∃ last, SetLast command last now := by
  have step := follows now (Nat.le_refl now)
  cases given : command now with
  | set =>
    rw [step, given]
    exact ⟨fun _ => ⟨now, setLast_self given⟩, fun _ => rfl⟩
  | reset =>
    rw [step, given]
    constructor
    · intro on
      cases on
    · intro ⟨last, found⟩
      exact absurd found (setLast_of_reset given last)
  | hold =>
    rw [step, given]
    change value now = true ↔ _
    cases now with
    | zero =>
      rw [start]
      constructor
      · intro on
        cases on
      · intro ⟨last, found⟩
        exact absurd found (setLast_zero_hold given last)
    | succ now =>
      have earlier : ∀ k ≤ now, value (k + 1) = (command k).apply (value k) :=
        fun k bound => follows k (Nat.le_succ_of_le bound)
      rw [value_iff_setLast command value start now earlier]
      exact exists_congr (fun last => (setLast_succ_iff command last now given).symm)

/-- It is not needed that the latch was left alone since it was set, but only that it was not
reset. -/
theorem value_iff_kept (command : ℕ → Command) (value : ℕ → Bool) (start : value 0 = false)
    (now : ℕ) (follows : ∀ k ≤ now, value (k + 1) = (command k).apply (value k)) :
    value (now + 1) = true ↔
      ∃ last ≤ now, command last = .set ∧ ∀ k, last < k → k ≤ now → command k ≠ .reset := by
  constructor
  · intro on
    obtain ⟨last, bound, set, held⟩ := (value_iff_setLast command value start now follows).mp on
    refine ⟨last, bound, set, fun k after before reset => ?_⟩
    rw [held k after before] at reset
    cases reset
  · intro ⟨last, bound, set, kept⟩
    induction now, bound using Nat.le_induction with
    | base =>
      rw [follows last (Nat.le_refl last), set]
      rfl
    | succ now later ih =>
      have before := ih (fun k bound => follows k (Nat.le_succ_of_le bound))
        (fun k after bound => kept k after (Nat.le_succ_of_le bound))
      rw [follows (now + 1) (Nat.le_refl _), before]
      cases given : command (now + 1) with
      | set => rfl
      | hold => rfl
      | reset => exact absurd given (kept _ (Nat.lt_succ_of_le later) (Nat.le_refl _))

end Foundation.Latch
