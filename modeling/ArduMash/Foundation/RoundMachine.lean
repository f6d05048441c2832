import Mathlib.Data.Nat.Init
import Mathlib.Tactic.TypeStar

/-!
Machines that work in rounds. A round answers one input and either faults or
leaves a record of everything it did, from which the next state is read off.
A run is a fault-free sequence of rounds of any length.
-/

namespace Foundation.RoundMachine

universe u

structure Machine (ι : Type*) (σ ω : Type u) (ε : Type*) where
  round : ι → σ → Except ε ω
  next : ω → σ

variable {ι ε : Type*} {σ ω : Type u}

/-- A fallible sequence succeeds only if both parts do. -/
theorem bind_eq_ok {α β : Type u} {first : Except ε α} {rest : α → Except ε β} {result : β} :
    first >>= rest = .ok result ↔ ∃ middle, first = .ok middle ∧ rest middle = .ok result := by
  cases first with
  | error fault =>
    constructor
    · intro impossible
      cases impossible
    · intro ⟨_, impossible, _⟩
      cases impossible
  | ok middle =>
    constructor
    · intro succeeds
      exact ⟨middle, rfl, succeeds⟩
    · intro ⟨_, same, succeeds⟩
      cases same
      exact succeeds

/-- What holds in all rounds since `first` still does after one more that keeps it. -/
theorem since_succ {holds : ℕ → Prop} {first n : ℕ} (before : ∀ m, first < m → m < n → holds m)
    (here : holds n) : ∀ m, first < m → m < n + 1 → holds m := by
  intro m after bound
  rcases Nat.lt_succ_iff_lt_or_eq.mp bound with earlier | same
  · exact before m after earlier
  · rw [same]
    exact here

/-- The sequences are unconstrained from `length` on. -/
structure Run (machine : Machine ι σ ω ε) where
  length : ℕ
  input : ℕ → ι
  state : ℕ → σ
  record : ℕ → ω
  rounds : ∀ n < length, machine.round (input n) (state n) = .ok (record n)
  links : ∀ n < length, state (n + 1) = machine.next (record n)

namespace Run
variable {machine : Machine ι σ ω ε}

/-- An invariant may speak about the index, and so about everything the run did before it. -/
theorem history_from (run : Run machine) (invariant : ℕ → σ → Prop) {first : ℕ}
    (base : invariant first (run.state first))
    (keep : ∀ n < run.length, first ≤ n → invariant n (run.state n) →
      machine.round (run.input n) (run.state n) = .ok (run.record n) →
        invariant (n + 1) (machine.next (run.record n)))
    {n : ℕ} (later : first ≤ n) (bound : n ≤ run.length) : invariant n (run.state n) := by
  induction n, later using Nat.le_induction with
  | base => exact base
  | succ n later ih =>
    have inside : n < run.length := bound
    rw [run.links n inside]
    exact keep n inside later (ih (Nat.le_of_lt inside)) (run.rounds n inside)

theorem invariant_from (run : Run machine) (invariant : σ → Prop) {first : ℕ}
    (base : invariant (run.state first))
    (keep : ∀ input state record, invariant state → machine.round input state = .ok record →
      invariant (machine.next record))
    {n : ℕ} (later : first ≤ n) (bound : n ≤ run.length) : invariant (run.state n) :=
  run.history_from (fun _ => invariant) base
    (fun n _ _ holds round => keep (run.input n) (run.state n) (run.record n) holds round)
    later bound

/-- Two runs of one machine stay related if every pair of rounds keeps them so. -/
theorem lockstep (run other : Run machine) (related : σ → σ → Prop)
    (start : related (run.state 0) (other.state 0))
    (keep : ∀ n, n < run.length → n < other.length → related (run.state n) (other.state n) →
      related (machine.next (run.record n)) (machine.next (other.record n)))
    {n : ℕ} (bound : n ≤ run.length) (otherBound : n ≤ other.length) :
    related (run.state n) (other.state n) := by
  induction n with
  | zero => exact start
  | succ n ih =>
    rw [run.links n bound, other.links n otherBound]
    exact keep n bound otherBound (ih (Nat.le_of_lt bound) (Nat.le_of_lt otherBound))

end Run

namespace Machine
variable (machine : Machine ι σ ω ε) (input : ℕ → ι) (start : σ)

/-- The state before round `n`, or the first fault. -/
def stateAt : ℕ → Except ε σ
  | 0 => .ok start
  | n + 1 => do
    let state ← stateAt n
    let record ← machine.round (input n) state
    .ok (machine.next record)

theorem stateAt_succ_ok {n : ℕ} {next : σ} :
    machine.stateAt input start (n + 1) = .ok next ↔
      ∃ state record, machine.stateAt input start n = .ok state ∧
        machine.round (input n) state = .ok record ∧ next = machine.next record := by
  simp only [stateAt]
  rw [bind_eq_ok]
  constructor
  · intro ⟨state, before, rest⟩
    obtain ⟨record, round, last⟩ := bind_eq_ok.mp rest
    cases last
    exact ⟨state, record, before, round, rfl⟩
  · intro ⟨state, record, before, round, last⟩
    subst last
    exact ⟨state, before, bind_eq_ok.mpr ⟨record, round, rfl⟩⟩

/-- Faults are final: a state that is reached has all its predecessors. -/
theorem stateAt_earlier {m n : ℕ} (earlier : m ≤ n) {last : σ}
    (reached : machine.stateAt input start n = .ok last) :
    ∃ state, machine.stateAt input start m = .ok state := by
  induction n, earlier using Nat.le_induction generalizing last with
  | base => exact ⟨last, reached⟩
  | succ n earlier ih =>
    obtain ⟨state, _, before, _, _⟩ := (machine.stateAt_succ_ok input start).mp reached
    exact ih before

theorem stateAt_getD {m n : ℕ} (earlier : m ≤ n)
    (safe : (machine.stateAt input start n).isOk = true) :
    machine.stateAt input start m =
      .ok ((machine.stateAt input start m).toOption.getD start) := by
  cases reached : machine.stateAt input start n with
  | error fault =>
    rw [reached] at safe
    cases safe
  | ok last =>
    obtain ⟨state, before⟩ := machine.stateAt_earlier input start earlier reached
    rw [before]
    rfl

/-- The run that the inputs determine, as far as it is free of faults. -/
def follow [Inhabited ω] (length : ℕ)
    (safe : (machine.stateAt input start length).isOk = true) : Run machine where
  length := length
  input := input
  state n := (machine.stateAt input start n).toOption.getD start
  record n := (machine.round (input n)
    ((machine.stateAt input start n).toOption.getD start)).toOption.getD default
  rounds := by
    intro n bound
    have next := machine.stateAt_getD input start (show n + 1 ≤ length from bound) safe
    obtain ⟨state, record, before, round, _⟩ := (machine.stateAt_succ_ok input start).mp next
    rw [before]
    change machine.round (input n) state =
      .ok ((machine.round (input n) state).toOption.getD default)
    rw [round]
    rfl
  links := by
    intro n bound
    have next := machine.stateAt_getD input start (show n + 1 ≤ length from bound) safe
    obtain ⟨state, record, before, round, last⟩ := (machine.stateAt_succ_ok input start).mp next
    rw [last, before]
    change machine.next record =
      machine.next ((machine.round (input n) state).toOption.getD default)
    rw [round]
    rfl

theorem follow_start [Inhabited ω] (length : ℕ)
    (safe : (machine.stateAt input start length).isOk = true) :
    (machine.follow input start length safe).state 0 = start := rfl

end Machine

/-- A machine seen through another one: what is kept of a round is a round. -/
structure Projection {κ δ : Type*} {τ χ : Type u} (machine : Machine ι σ ω ε)
    (onto : Machine κ τ χ δ) where
  input : ι → σ → κ
  state : σ → τ
  record : ω → χ
  round : ∀ {i s r}, machine.round i s = .ok r →
    onto.round (input i s) (state s) = .ok (record r)
  next : ∀ {i s r}, machine.round i s = .ok r → state (machine.next r) = onto.next (record r)

/-- What is kept of a run is a run. -/
def Projection.run {κ δ : Type*} {τ χ : Type u} {machine : Machine ι σ ω ε}
    {onto : Machine κ τ χ δ} (projection : Projection machine onto) (run : Run machine) :
    Run onto where
  length := run.length
  input n := projection.input (run.input n) (run.state n)
  state n := projection.state (run.state n)
  record n := projection.record (run.record n)
  rounds := fun n inside => projection.round (run.rounds n inside)
  links := fun n inside => by
    rw [run.links n inside]
    exact projection.next (run.rounds n inside)

end Foundation.RoundMachine
