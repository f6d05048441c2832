import ArduMash.Foundation.CellMemory

/-!
A memory whose state is everything that was ever written to it, in its order. When
the power goes off, it keeps a part of that from the start on.
-/

namespace Foundation.WriteHistory
open CellMemory

variable {β : Type}

/-- Addresses and values, the latest at the end. -/
abbrev History (β : Type) := List (ℕ × β)

def lastValue (start : β) (a : ℕ) (writes : History β) : β :=
  writes.foldl (fun v write => if write.1 = a then write.2 else v) start

/-- The cells held `initial` before the first write. -/
def history (size : ℕ) (initial : ℕ → β) : Memory (History β) β where
  size := size
  read := fun a writes => lastValue (initial a) a writes
  write := fun a v writes => writes ++ [(a, v)]
  read_write := by
    intro a v writes _
    rw [lastValue, List.foldl_append]
    exact if_pos rfl
  read_write_ne := by
    intro a b v writes _ _ other
    rw [lastValue, List.foldl_append]
    exact if_neg (Ne.symm other)

/-- A state in which the power may go off on the way from one to the other. -/
def Between (before cut after : History β) : Prop := before <+: cut ∧ cut <+: after

section Cuts
variable {size : ℕ} {initial : ℕ → β} {before cut : History β}

variable (size initial) in
theorem write_between {middle : History β} {a : ℕ} {v : β}
    (between : Between before cut ((history size initial).write a v middle)) :
    Between before cut middle ∨ cut = (history size initial).write a v middle := by
  rcases List.prefix_concat_iff.mp between.2 with whole | part
  · exact .inr whole
  · exact .inl ⟨between.1, part⟩

theorem fill_extends (a : ℕ) (values : ℕ → β) (n : ℕ) (before : History β) :
    before <+: (history size initial).fill a values n before := by
  induction n with
  | zero => exact List.prefix_rfl
  | succ n ih =>
    rw [Memory.fill_succ]
    exact ih.trans (List.prefix_append _ _)

/-- A cut is either in the first part or in the second one. -/
theorem between_split {middle after : History β} (reached : middle <+: after)
    (between : Between before cut after) :
    Between before cut middle ∨ Between middle cut after := by
  rcases List.prefix_or_prefix_of_prefix between.2 reached with early | late
  · exact .inl ⟨between.1, early⟩
  · exact .inr ⟨late, between.2⟩

theorem fill_between {a n : ℕ} {values : ℕ → β}
    (between : Between before cut ((history size initial).fill a values n before)) :
    ∃ count ≤ n, cut = (history size initial).fill a values count before := by
  induction n with
  | zero => exact ⟨0, Nat.le_refl 0, (between.1.eq_of_length_le between.2.length_le).symm⟩
  | succ n ih =>
    rw [Memory.fill_succ] at between
    rcases List.prefix_concat_iff.mp between.2 with whole | part
    · exact ⟨n + 1, Nat.le_refl _, by rw [Memory.fill_succ]; exact whole⟩
    · obtain ⟨count, upTo, same⟩ := ih ⟨between.1, part⟩
      exact ⟨count, Nat.le_succ_of_le upTo, same⟩

variable {base width : ℕ}

/-- A cut on the way down: some records are moved, and the next one is written in part. -/
theorem shiftDown_between {first count : ℕ}
    (between : Between before cut
      ((history size initial).shiftDown base width first count before)) :
    cut = before ∨ ∃ moved < count, ∃ values, ∃ part ≤ width,
      cut = (history size initial).fill (base + (first + moved) * width) values part
        ((history size initial).shiftDown base width first moved before) := by
  induction count with
  | zero => exact .inl (between.1.eq_of_length_le between.2.length_le).symm
  | succ count ih =>
    rw [Memory.shiftDown_succ] at between
    rcases between_split (fill_extends _ _ _ _) between with early | late
    · refine (ih early).imp_right ?_
      rintro ⟨moved, less, rest⟩
      exact ⟨moved, Nat.lt_succ_of_lt less, rest⟩
    · obtain ⟨part, upTo, same⟩ := fill_between late
      exact .inr ⟨count, Nat.lt_succ_self count, _, part, upTo, same⟩

/-- A cut on the way up. -/
theorem shiftUp_between {first count : ℕ}
    (between : Between before cut
      ((history size initial).shiftUp base width first count before)) :
    cut = before ∨ ∃ left < count, ∃ values, ∃ part ≤ width,
      cut = (history size initial).fill (base + (first + left + 1) * width) values part
        ((history size initial).shiftUp base width (first + left + 1) (count - left - 1)
          before) := by
  induction count generalizing first with
  | zero => exact .inl (between.1.eq_of_length_le between.2.length_le).symm
  | succ count ih =>
    rw [Memory.shiftUp_succ] at between
    rcases between_split (fill_extends _ _ _ _) between with early | late
    · refine (ih early).imp_right ?_
      rintro ⟨left, less, values, part, upTo, same⟩
      refine ⟨left + 1, Nat.succ_lt_succ less, values, part, upTo, ?_⟩
      rw [same, show first + 1 + left + 1 = first + (left + 1) + 1 by omega,
        show count - left - 1 = count + 1 - (left + 1) - 1 by omega]
    · obtain ⟨part, upTo, same⟩ := fill_between late
      exact .inr ⟨0, Nat.succ_pos count, _, part, upTo, same⟩

end Cuts

end Foundation.WriteHistory
