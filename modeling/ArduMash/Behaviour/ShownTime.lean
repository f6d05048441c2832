import ArduMash.Behaviour.Layout
import ArduMash.Behaviour.StepClock

/-!
The elapsed time on the status screen. The clock is read four times for it, so
what is shown may be a time that never was.
-/

namespace ArduMash.Behaviour.ShownTime
open Sketch Globals Hardware Screens Loop Lcd StepClock Layout Foundation.WrappingClock
  Foundation.DecimalText

/-! The text. -/

/-- Minutes and seconds of an elapsed time in milliseconds. -/
def minutesSeconds (e : ℕ) : List Char :=
  separated ':' (padded (e / 60000) (e / 60000)) (padded (e / 1000 % 60) (e / 1000 % 60))

/-! The readings. -/

/-- The four readings of the clock show nondecreasing times below `2 ^ 32` ms after the start. -/
structure Reads (start : ℕ) (times : Fin 4 → ℕ) (startTime : Millis) (screen : Fin 4 → Millis) :
    Prop where
  stamped : startTime = shown 32 start
  shows : ∀ i, screen i = shown 32 (times i)
  after : start ≤ times 0
  ordered : Monotone times
  fits : times 3 - start < 2 ^ 32

section Elapsed
variable {start : ℕ} {times : Fin 4 → ℕ} {startTime : Millis} {screen : Fin 4 → Millis}
  (reads : Reads start times startTime screen)
include reads

theorem elapsed_reads (i : Fin 4) : (elapsed startTime (screen i)).toNat = times i - start := by
  have first := reads.ordered (Fin.zero_le i)
  have last := reads.ordered (show i ≤ 3 by omega)
  have after := reads.after
  have fits := reads.fits
  rw [reads.stamped, reads.shows i, elapsed_shown (by omega)]
  exact Nat.mod_eq_of_lt (by omega)

theorem minutes_reads (i : Fin 4) :
    (elapsedMinutes startTime (screen i)).toNat = (times i - start) / 60000 := by
  rw [elapsedMinutes_toNat, elapsed_reads reads]

theorem seconds_reads (i : Fin 4) :
    (elapsedSeconds startTime (screen i)).toNat = (times i - start) / 1000 % 60 := by
  rw [elapsedSeconds, BitVec.toNat_umod, BitVec.toNat_udiv, elapsed_reads reads]
  rfl

end Elapsed

/-- No padding is decided on the other side of its boundary, and minutes and seconds together are
not behind the first reading. -/
def Untorn (e0 e1 e2 e3 : ℕ) : Prop :=
  (e0 / 60000 < 10 ↔ e1 / 60000 < 10) ∧ (e2 / 1000 % 60 < 10 ↔ e3 / 1000 % 60 < 10) ∧
    e0 / 1000 ≤ 60 * (e1 / 60000) + e3 / 1000 % 60

/-- A text of minutes and seconds tells both and both paddings. -/
theorem separated_minutesSeconds {a b c d e : ℕ} :
    separated ':' (padded a b) (padded c d) = minutesSeconds e ↔
      ((a < 10 ↔ e / 60000 < 10) ∧ b = e / 60000) ∧
        ((c < 10 ↔ e / 1000 % 60 < 10) ∧ d = e / 1000 % 60) := by
  unfold minutesSeconds
  rw [separated_eq_iff (notMem_padded (by decide)) (notMem_padded (by decide)), padded_eq_iff,
    padded_eq_iff]

/-- Seconds that were already over at the first reading cannot come after it. -/
theorem exists_between_iff {e0 e1 e3 : ℕ} (first : e0 ≤ e1) (rest : e1 ≤ e3) :
    (∃ t, e0 ≤ t ∧ t ≤ e3 ∧ e1 / 60000 = t / 60000 ∧ e3 / 1000 % 60 = t / 1000 % 60) ↔
      e0 / 1000 ≤ 60 * (e1 / 60000) + e3 / 1000 % 60 := by
  constructor
  · intro ⟨t, after, _, minutes, seconds⟩
    omega
  · intro behind
    refine ⟨max e0 (1000 * (60 * (e1 / 60000) + e3 / 1000 % 60)), ?_⟩
    omega

/-- The elapsed time the status screen prints is one between the first and the last of its four
readings exactly if the readings are not torn. -/
theorem shown_time_iff (readings : Readings) (s : State) {step : RecipeStep} (printer : Printer)
    {start : ℕ} {times : Fin 4 → ℕ}
    (reads : Reads start times step.startTime readings.clock.screen) :
    drawn (displayStatusScreen readings step s).events =
      fieldOps (getTempC readings.screenProbe) s.heatingState step ++
        .setCursor 8 0 :: ((clockItems readings.clock.screen step).map .print ++
          .print (.text " ") :: (durationItems step).map .print) ∧
    ((∃ e, times 0 - start ≤ e ∧ e ≤ times 3 - start ∧
      printer.spell (clockItems readings.clock.screen step) = minutesSeconds e) ↔
        Untorn (times 0 - start) (times 1 - start) (times 2 - start) (times 3 - start)) := by
  constructor
  · simp only [displayStatusScreen, drawn_draw, statusOps]
    rw [timeOps_clock]
  · have first := Nat.sub_le_sub_right (reads.ordered (show (0 : Fin 4) ≤ 1 by decide)) start
    have rest := Nat.sub_le_sub_right (reads.ordered (show (1 : Fin 4) ≤ 3 by decide)) start
    have between := exists_between_iff first rest
    rw [spell_clock]
    simp only [minutes_reads reads, seconds_reads reads, separated_minutesSeconds]
    unfold Untorn
    constructor
    · rintro ⟨e, after, before, ⟨padMinutes, minutes⟩, padSeconds, seconds⟩
      rw [← minutes] at padMinutes
      rw [← seconds] at padSeconds
      exact ⟨padMinutes, padSeconds, between.mp ⟨e, after, before, minutes, seconds⟩⟩
    · rintro ⟨padMinutes, padSeconds, behind⟩
      obtain ⟨e, after, before, minutes, seconds⟩ := between.mpr behind
      refine ⟨e, after, before, ⟨?_, minutes⟩, ?_, seconds⟩
      · rw [← minutes]
        exact padMinutes
      · rw [← seconds]
        exact padSeconds

/-- The minutes are read just before a minute is over, the seconds just after. -/
def tornTimes : Fin 4 → ℕ := ![59999, 59999, 60000, 60000]

def calmTimes : Fin 4 → ℕ := ![59999, 60000, 60000, 60001]

/-- The status screen of a step that was started at 0. -/
def screenAt (times : Fin 4 → ℕ) : Readings :=
  { readingsAt 12800 1023 0 with
    clock := { (readingsAt 12800 1023 0).clock with screen := fun i => shown 32 (times i) } }

def timedStep : RecipeStep := ⟨1, 0, 20, 60, true, 0, 0, 0⟩

theorem reads_tornTimes :
    Reads 0 tornTimes timedStep.startTime (screenAt tornTimes).clock.screen where
  stamped := rfl
  shows := fun _ => rfl
  after := Nat.zero_le _
  ordered := by
    unfold Monotone
    decide
  fits := by decide

theorem reads_calmTimes :
    Reads 0 calmTimes timedStep.startTime (screenAt calmTimes).clock.screen where
  stamped := rfl
  shows := fun _ => rfl
  after := Nat.zero_le _
  ordered := by
    unfold Monotone
    decide
  fits := by decide

theorem shown_time_calmTimes : ∃ e, 59999 ≤ e ∧ e ≤ 60001 ∧
    Printer.spell ⟨fun _ => [], []⟩ (clockItems (screenAt calmTimes).clock.screen timedStep) =
      minutesSeconds e := by
  have exact_ := shown_time_iff (screenAt calmTimes) setup ⟨fun _ => [], []⟩ reads_calmTimes
  exact exact_.2.mpr (by unfold Untorn; decide)

/-- 00:00 is shown a minute after the start. -/
theorem shown_time_torn :
    ¬∀ (readings : Readings) (step : RecipeStep) (printer : Printer) (start : ℕ)
      (times : Fin 4 → ℕ), Reads start times step.startTime readings.clock.screen →
        ∃ e, times 0 - start ≤ e ∧ e ≤ times 3 - start ∧
          printer.spell (clockItems readings.clock.screen step) = minutesSeconds e := by
  intro always
  obtain ⟨e, after, before, same⟩ :=
    always (screenAt tornTimes) timedStep ⟨fun _ => [], []⟩ 0 tornTimes reads_tornTimes
  change 59999 ≤ e at after
  change e ≤ 60000 at before
  obtain rfl | rfl : e = 59999 ∨ e = 60000 := by omega
  · exact absurd same (by decide +kernel)
  · exact absurd same (by decide +kernel)

end ArduMash.Behaviour.ShownTime
