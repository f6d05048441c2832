import ArduMash.Behaviour.Accesses
import ArduMash.Behaviour.Walk

/-!
The marker at the end of a recipe. It is read again and again, but the walk never
stands on it, and nothing from it on is written.
-/

namespace ArduMash.Behaviour.Marker
open Sketch Globals Hardware Screens Controllers Loop StartStep ControllerEffects Accesses Waiting
  Moves Walk Foundation.RoundMachine

/-- An access to the recipe reads no step after the marker and writes only steps before it. -/
def Within (marker : ℕ) : Event → Prop
  | .recipeRead _ index => index ≤ marker
  | .recipeWrite _ index => index < marker
  | _ => True

theorem within_of_plain {marker : ℕ} {event : Event} (plain : Plain event) :
    Within marker event := by
  cases event with
  | recipeRead => exact absurd plain id
  | recipeWrite => exact absurd plain id
  | digitalWrite => trivial
  | lcd => trivial
  | serial => trivial

theorem within_endEvents {marker : ℕ} {s : State} {index : Byte} (upTo : index.toNat ≤ marker) :
    ∀ event ∈ endEvents s index, Within marker event := by
  intro event member
  rcases endEvents_accesses member with plain | read
  · exact within_of_plain plain
  · rw [read]
    exact upTo

theorem within_beginEvents {marker : ℕ} {s : State} {index : Byte} {step : RecipeStep}
    (before : index.toNat < marker) : ∀ event ∈ beginEvents s index step, Within marker event := by
  intro event member
  rcases beginEvents_accesses member with plain | read | ⟨i, upTo, write⟩
  · exact within_of_plain plain
  · rw [read]
    exact Nat.le_of_lt before
  · rw [write]
    exact Nat.lt_of_le_of_lt upTo before

theorem within_screen {marker : ℕ} {readings : Readings} {s : State} {outcome : Outcome}
    (ran : screenController readings s = .ok outcome) (before : s.currentStep.toNat < marker) :
    ∀ event ∈ outcome.events, Within marker event := by
  intro event member
  rcases screen_accesses ran member with plain | ⟨read, _⟩
  · exact within_of_plain plain
  · rw [read]
    exact Nat.le_of_lt before

/-! The steps that an iteration passes. -/

theorem startStep_onward {now : Millis} {s : State} {outcome : Outcome}
    (small : s.currentStep.toNat < 255)
    (ran : startStep now (s.currentStep + 1) s = .ok outcome) :
    s.currentStep.toNat ≤ outcome.state.currentStep.toNat := by
  cases startStep_cases ran with
  | ignored => exact Nat.le_refl _
  | recipeEnd => exact Nat.le_refl _
  | begun =>
    have number := toNat_next small
    change s.currentStep.toNat ≤ (s.currentStep + 1).toNat
    omega

theorem stepController_onward {clock : Clocks Millis} {step : RecipeStep} {s : State}
    {outcome : Outcome} (small : s.currentStep.toNat < 255)
    (ran : stepController clock step s = .ok outcome) :
    s.currentStep.toNat ≤ outcome.state.currentStep.toNat := by
  cases stepController_cases ran with
  | idle => exact Nat.le_refl _
  | goesOn => exact Nat.le_refl _
  | continues _ _ _ _ started => exact startStep_onward small started
  | waits => exact Nat.le_refl _

theorem inputController_onward {readings : Readings} {s : State} {outcome : Outcome}
    (small : s.currentStep.toNat < 255) (started : s.systemState ≠ .init)
    (ran : inputController readings s = .ok outcome) :
    s.currentStep.toNat ≤ outcome.state.currentStep.toNat := by
  cases inputController_cases ran with
  | ignored => exact Nat.le_refl _
  | selects selecting => exact absurd selecting started
  | begins selecting => exact absurd selecting started
  | confirms _ _ _ begun =>
    have onward := startStep_onward small begun
    exact onward

/-- Within an iteration of a started recipe the current step does not go back. -/
theorem phases_onward {readings : Readings} {s : State} {iteration : Iteration}
    (rounded : Rounded readings s iteration) (started : s.systemState ≠ .init) :
    ∀ after ∈ phases iteration, s.currentStep.toNat ≤ after.currentStep.toNat ∧
      after.currentStep.toNat ≤ iteration.final.currentStep.toNat := by
  have heaterStarted := heater_started rounded started
  have bound := (entry_eq_some rounded.stepEntry).2
  have heaterBound := (entry_eq_some rounded.heaterEntry).2
  have step : s.currentStep.toNat ≤ iteration.afterStep.state.currentStep.toNat :=
    stepController_onward (s := sense readings s) (by change s.currentStep.toNat < 255; omega)
      rounded.step
  have heater : iteration.afterHeater.state.currentStep = iteration.afterStep.state.currentStep :=
    congrArg Control.currentStep (control_heater rounded)
  have input := inputController_onward (by rw [heater]; omega) heaterStarted rounded.input
  have final : iteration.final.currentStep = iteration.afterInput.state.currentStep :=
    congrArg Control.currentStep (control_final rounded)
  rw [heater] at input
  apply forall_phases
  · rw [final]
    omega
  · rw [heater, final]
    omega
  · rw [final]
    omega
  · rw [final]
    omega

/-- What the events of one `startStep` for the next step are, with the step current at the end. -/
inductive Called (s final : State) : List Event → Prop where
  | nothing : Called s final []
  | begun (next : RecipeStep) (same : final.currentStep = s.currentStep + 1) :
      Called s final (beginEvents s (s.currentStep + 1) next)
  | ended : Called s final (endEvents s (s.currentStep + 1))

theorem called_of_move {readings : Readings} {s : State} {iteration : Iteration}
    (move : Move readings s iteration) :
    Called s iteration.final iteration.afterStep.events ∧
      Called s iteration.final iteration.afterInput.events := by
  cases move with
  | rests quietStep quietInput =>
    rw [quietStep, quietInput]
    exact ⟨.nothing, .nothing⟩
  | pauses quietStep quietInput =>
    rw [quietStep, quietInput]
    exact ⟨.nothing, .nothing⟩
  | continues next begun quietInput _ _ _ _ _ _ same =>
    rw [begun, quietInput]
    exact ⟨.begun next (congrArg Control.currentStep same), .nothing⟩
  | finishes _ ended quietInput =>
    rw [ended, quietInput]
    exact ⟨.ended, .nothing⟩
  | confirms next quietStep begun _ _ _ _ same =>
    rw [quietStep, begun]
    exact ⟨.nothing, .begun next (congrArg Control.currentStep same)⟩
  | refused _ quietStep ended =>
    rw [quietStep, ended]
    exact ⟨.nothing, .ended⟩

theorem Called.within {marker : ℕ} {s final : State} {events : List Event}
    (called : Called s final events) (small : s.currentStep.toNat < 255)
    (before : s.currentStep.toNat < marker) (after : final.currentStep.toNat < marker) :
    ∀ event ∈ events, Within marker event := by
  cases called with
  | nothing => exact List.forall_mem_nil _
  | begun next same => exact within_beginEvents (same ▸ after)
  | ended =>
    have number := toNat_next small
    exact within_endEvents (by omega)

theorem within_iteration {marker : ℕ} {readings : Readings} {s : State} {iteration : Iteration}
    (rounded : Rounded readings s iteration) (before : s.currentStep.toNat < marker)
    (phases : ∀ after ∈ phases iteration, after.currentStep.toNat < marker)
    (step : ∀ event ∈ iteration.afterStep.events, Within marker event)
    (input : ∀ event ∈ iteration.afterInput.events, Within marker event) :
    ∀ event ∈ iteration.events s, Within marker event := by
  have entered := phases iteration.afterStep.state (by simp [Moves.phases])
  have shown := phases iteration.afterInput.state (by simp [Moves.phases])
  have screen := within_screen rounded.screen shown
  have first : ∀ event ∈ [Event.recipeRead s.currentRecipe.toNat s.currentStep.toNat],
      Within marker event := List.forall_mem_singleton.mpr (Nat.le_of_lt before)
  have second : ∀ event ∈ [Event.recipeRead iteration.afterStep.state.currentRecipe.toNat
      iteration.afterStep.state.currentStep.toNat], Within marker event :=
    List.forall_mem_singleton.mpr (Nat.le_of_lt entered)
  have heater : ∀ event ∈ iteration.afterHeater.events, Within marker event :=
    fun event member => within_of_plain (plain_heater rounded event member)
  intro event member
  simp only [Iteration.events, List.mem_append] at member
  rcases member with ((((read | stepped) | again) | heated) | pressed) | drew
  · exact first event read
  · exact step event stepped
  · exact second event again
  · exact heater event heated
  · exact input event pressed
  · exact screen event drew

/-! Runs. -/

section Run
variable {run : SketchRun} {marker : ℕ}

/-- The iteration in which Select starts the recipe stays on the selected step. -/
theorem first_phases (started : Started run) :
    ∀ after ∈ phases (run.record 0), after.currentStep = (run.state 0).currentStep := by
  have rounded := loop_ok_iff.mp (run.rounds 0 started.nonempty)
  have heater := heater_of_selecting rounded started.selecting
  have heaterStep : (run.record 0).afterHeater.state.currentStep = (run.state 0).currentStep :=
    congrArg Control.currentStep heater
  have step : (run.record 0).afterStep.state.currentStep = (run.state 0).currentStep :=
    (congrArg Control.currentStep (control_heater rounded)).symm.trans heaterStep
  have final : (run.record 0).final.currentStep = (run.record 0).afterInput.state.currentStep :=
    congrArg Control.currentStep (control_final rounded)
  have first := started.first_step
  rw [run.links 0 started.nonempty] at first
  change (run.record 0).final.currentStep = _ at first
  exact forall_phases step heaterStep (final.symm.trans first) first

theorem phases_before (started : Started run) (marked : Marked run marker) {n : ℕ}
    (inside : n < run.length) : ∀ after ∈ (run.state n) :: phases (run.record n),
      (run.state 0).currentStep.toNat ≤ after.currentStep.toNat ∧
        after.currentStep.toNat < marker := by
  intro after member
  rcases Nat.eq_zero_or_pos n with first | later
  · have same : after.currentStep = (run.state 0).currentStep := by
      subst first
      rcases List.mem_cons.mp member with start | phase
      · rw [start]
      · exact first_phases started after phase
    rw [same]
    exact ⟨Nat.le_refl _, marked.before⟩
  · have walked := started.walked later (Nat.le_of_lt inside)
    have rounded := loop_ok_iff.mp (run.rounds n inside)
    have next := started.before marked (Nat.le_succ_of_le later) inside
    rw [run.links n inside] at next
    change (run.record n).final.currentStep.toNat < marker at next
    have onward := walked.onward
    rcases List.mem_cons.mp member with start | phase
    · rw [start]
      exact ⟨onward, started.before marked later (Nat.le_of_lt inside)⟩
    · have between := phases_onward rounded walked.started after phase
      omega

theorem within_run (started : Started run) (marked : Marked run marker) {n : ℕ}
    (inside : n < run.length) :
    ∀ event ∈ (run.record n).events (run.state n), Within marker event := by
  have rounded := loop_ok_iff.mp (run.rounds n inside)
  have between := phases_before started marked inside
  have before := (between _ List.mem_cons_self).2
  have after := fun state member => (between state (List.mem_cons_of_mem _ member)).2
  have final := after (run.record n).final (by simp [phases])
  have small : (run.state n).currentStep.toNat < 255 := by
    have bound := marked.inside
    omega
  rcases Nat.eq_zero_or_pos n with first | later
  · subst first
    obtain ⟨step, current, real⟩ := started.real
    have move := first_move rounded started.selecting started.selected current real
    apply within_iteration rounded before after
    · rw [move.1]
      exact List.forall_mem_nil _
    · rw [move.2.1]
      refine List.forall_mem_append.mpr ⟨within_beginEvents before, ?_⟩
      exact fun event member => within_of_plain (plain_draw _ event member)
  · have walked := started.walked later (Nat.le_of_lt inside)
    have called := called_of_move (loop_moves rounded walked.started walked.manual)
    exact within_iteration rounded before after (called.1.within small before final)
      (called.2.within small before final)

/-- A started recipe stays before its marker: in its steps, its accesses and its table. -/
theorem walk_before_marker (started : Started run) (marked : Marked run marker) :
    (∀ n < run.length, ∀ after ∈ (run.state n) :: phases (run.record n),
      (run.state 0).currentStep.toNat ≤ after.currentStep.toNat ∧
        after.currentStep.toNat < marker) ∧
    (∀ n < run.length, ∀ event ∈ (run.record n).events (run.state n), Within marker event) ∧
    ∀ n, 1 ≤ n → n ≤ run.length →
      ((run.state 0).currentStep.toNat ≤ (run.state n).currentStep.toNat ∧
        (run.state n).currentStep.toNat < marker) ∧
      (∀ i, marker ≤ i → (run.state n).entry i = (run.state 0).entry i) ∧
      ∀ readings, ∃ iteration, loop readings (run.state n) = .ok iteration := by
  refine ⟨fun n inside => phases_before started marked inside,
    fun n inside => within_run started marked inside, ?_⟩
  intro n later bound
  have walked := started.walked later bound
  have before := started.before marked later bound
  refine ⟨⟨walked.onward, before⟩, ?_, started.answers marked later bound⟩
  intro i past
  exact walked.entry_after (Nat.lt_of_lt_of_le before past)

end Run

theorem walk_before_marker_firstConfirm :
    (∀ event ∈ (firstConfirm.record 1).events (firstConfirm.state 1), Within 9 event) ∧
      (firstConfirm.state 3).entry 9 = (firstConfirm.state 0).entry 9 := by
  obtain ⟨_, accesses, later⟩ := walk_before_marker started_firstConfirm marked_firstConfirm
  have kept := (later 3 (by decide) (by decide)).2.1
  exact ⟨accesses 1 (by decide), kept 9 (by decide)⟩

end ArduMash.Behaviour.Marker
