import ArduMash.Behaviour.ControllerEffects

/-!
Which entries of the recipe table are accessed, told from the events.
-/

namespace ArduMash.Behaviour.Accesses
open Sketch Globals Hardware Screens Controllers Loop StartStep ControllerEffects
  Foundation.RoundMachine

/-- The event does not access the recipe table. -/
def Plain : Event → Prop
  | .recipeRead _ _ => False
  | .recipeWrite _ _ => False
  | _ => True

theorem plain_draw (ops : List LcdOp) : ∀ event ∈ draw ops, Plain event := by
  intro event member
  obtain ⟨op, _, same⟩ := List.mem_map.mp member
  rw [← same]
  trivial

theorem plain_heater {readings : Readings} {s : State} {iteration : Iteration}
    (rounded : Rounded readings s iteration) :
    ∀ event ∈ iteration.afterHeater.events, Plain event := by
  intro event member
  rw [rounded.heater, heaterController_events] at member
  rw [List.mem_singleton.mp member]
  trivial

theorem endEvents_accesses {s : State} {index : Byte} {event : Event}
    (member : event ∈ endEvents s index) :
    Plain event ∨ event = .recipeRead s.currentRecipe.toNat index.toNat := by
  rcases List.mem_cons.mp member with read | rest
  · exact Or.inr read
  · rw [List.mem_singleton.mp rest]
    exact Or.inl trivial

/-- An accepted start reads its step and writes it and the steps before it. -/
theorem beginEvents_accesses {s : State} {index : Byte} {step : RecipeStep} {event : Event}
    (member : event ∈ beginEvents s index step) :
    Plain event ∨ event = .recipeRead s.currentRecipe.toNat index.toNat ∨
      ∃ i ≤ index.toNat, event = .recipeWrite s.currentRecipe.toNat i := by
  rcases List.mem_append.mp member with earlier | last
  · rcases List.mem_append.mp earlier with asked | marks
    · rcases List.mem_cons.mp asked with read | rest
      · exact Or.inr (Or.inl read)
      · rw [List.mem_singleton.mp rest]
        exact Or.inl trivial
    · obtain ⟨i, before, same⟩ := List.mem_map.mp marks
      exact Or.inr (Or.inr ⟨i, Nat.le_of_lt (List.mem_range.mp before), same.symm⟩)
  · exact Or.inr (Or.inr ⟨index.toNat, Nat.le_refl _, List.mem_singleton.mp last⟩)

theorem showScreen_accesses {readings : Readings} {changed : Bool} {s : State} {outcome : Outcome}
    {event : Event} (ran : showScreen readings changed s = .ok outcome)
    (member : event ∈ outcome.events) :
    Plain event ∨ (event = .recipeRead s.currentRecipe.toNat s.currentStep.toNat ∧
      ∃ step, s.current = some step) := by
  cases phase : s.systemState with
  | init =>
    simp only [showScreen, phase] at ran
    cases ran
    rcases List.mem_append.mp member with told | drew
    · split_ifs at told
      · rw [List.mem_singleton.mp told]
        exact Or.inl trivial
      · cases told
    · exact Or.inl (plain_draw _ event drew)
  | running =>
    simp only [showScreen, phase] at ran
    obtain ⟨step, read, rest⟩ := bind_eq_ok.mp ran
    cases rest
    rcases List.mem_cons.mp member with same | drew
    · exact Or.inr ⟨same, step, readRecipe_eq_ok.mp read⟩
    · exact Or.inl (plain_draw _ event drew)
  | finish =>
    simp only [showScreen, phase] at ran
    cases ran
    rcases List.mem_append.mp member with drew | told
    · exact Or.inl (plain_draw _ event drew)
    · split_ifs at told
      · rw [List.mem_singleton.mp told]
        exact Or.inl trivial
      · cases told
  | wait =>
    simp only [showScreen, phase] at ran
    cases changed with
    | true =>
      obtain ⟨step, read, rest⟩ := bind_eq_ok.mp ran
      cases rest
      rcases List.mem_cons.mp member with same | rest
      · exact Or.inr ⟨same, step, readRecipe_eq_ok.mp read⟩
      · rcases List.mem_cons.mp rest with told | drew
        · rw [told]
          exact Or.inl trivial
        · exact Or.inl (plain_draw _ event drew)
    | false =>
      cases ran
      cases member

/-- The screens look at the current step only. -/
theorem screen_accesses {readings : Readings} {s : State} {outcome : Outcome} {event : Event}
    (ran : screenController readings s = .ok outcome) (member : event ∈ outcome.events) :
    Plain event ∨ (event = .recipeRead s.currentRecipe.toNat s.currentStep.toNat ∧
      ∃ step, s.current = some step) := by
  obtain ⟨shown, show_, _, events⟩ := screenController_ok ran
  rw [events] at member
  rcases List.mem_append.mp member with cleared | drew
  · split_ifs at cleared
    · exact Or.inl (plain_draw _ event cleared)
    · cases cleared
  · exact showScreen_accesses show_ drew

end ArduMash.Behaviour.Accesses
