import Mathlib.Data.BitVec
import Mathlib.Tactic.Ring

/-!
A counter of `w` bits that shows true time modulo `2 ^ w`. Differences of two
readings are the true difference modulo `2 ^ w`, wherever the counter rolled over.
-/

namespace Foundation.WrappingClock
variable {w : ℕ}

/-- What the counter shows at a true time. -/
def shown (w time : ℕ) : BitVec w := BitVec.ofNat w time

def elapsed (start now : BitVec w) : BitVec w := now - start

theorem elapsed_shown {start now : ℕ} (ordered : start ≤ now) :
    (elapsed (shown w start) (shown w now)).toNat = (now - start) % 2 ^ w := by
  have split : now = start + (now - start) := by omega
  have difference : elapsed (shown w start) (shown w now) = BitVec.ofNat w (now - start) := by
    unfold elapsed shown
    conv_lhs => rw [split, BitVec.ofNat_add]
    ring
  rw [difference, BitVec.toNat_ofNat]

/-- A rollover can only make a wait look shorter than it was. -/
theorem elapsed_shown_le {start now : ℕ} (ordered : start ≤ now) :
    (elapsed (shown w start) (shown w now)).toNat ≤ now - start := by
  rw [elapsed_shown ordered]
  exact Nat.mod_le _ _

theorem elapsed_shift (start now shift : BitVec w) :
    elapsed (start + shift) (now + shift) = elapsed start now := by
  unfold elapsed
  ring

end Foundation.WrappingClock
