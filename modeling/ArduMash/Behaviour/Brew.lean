import ArduMash.Behaviour.Boot
import ArduMash.Behaviour.Relay
import ArduMash.Dallas.Temperature

/-!
Whole runs of the board. They are runs of the sketch with the readings that the library
takes off the line, and so follow the one device that `setup` has chosen.
-/

namespace ArduMash.Behaviour.Brew
open Sketch Globals Hardware Loop Board ControllerEffects Relay Boot
open Foundation.RoundMachine Foundation.Latch
open OneWire.Line (Address Wire Octets)
open OneWire.Devices OneWire.Addressing OneWire.Calls
open Dallas.Library (Sensors setOneWire validAddress requestTemperatures)
open Dallas.Registers Dallas.Temperature Dallas.Inventory

/-! The board and the sketch. -/

section Rounds
variable {σ : Type} {wire : Wire σ}

/-- An iteration of the board without a fault. -/
structure Ran (wire : Wire σ) (inputs : Inputs σ) (s : Ram) (round : Round) : Prop where
  probe : (loopProbe wire inputs s).isSome
  sketch : Loop.loop (readings wire inputs s) s.state = .ok round.iteration
  screen : round.iteration.afterInput.state.systemState = .running →
    (screenProbe wire inputs s).isSome
  ram : round.ram = { s with state := round.iteration.final }
  waited : round.waited = (requestTemperatures wire s.sensors inputs.line).1

theorem loop_ok {inputs : Inputs σ} {s : Ram} {round : Round} :
    Board.loop wire inputs s = .ok round ↔ Ran wire inputs s round := by
  unfold Board.loop
  cases found : loopProbe wire inputs s with
  | none =>
    constructor
    · intro fault
      cases fault
    · intro ran
      have some_ := ran.probe
      rw [found] at some_
      cases some_
  | some raw =>
    rw [if_neg (Option.some_ne_none raw)]
    cases ran : Loop.loop (readings wire inputs s) s.state with
    | error fault =>
      constructor
      · intro fault
        cases fault
      · intro other
        rw [other.sketch] at ran
        cases ran
    | ok iteration =>
      simp only
      constructor
      · intro done
        split_ifs at done with noScreen
        cases done
        exact ⟨by rw [found]; rfl, ran, fun running => Option.isSome_iff_ne_none.mpr
          fun none_ => noScreen ⟨running, none_⟩, rfl, rfl⟩
      · intro other
        obtain ⟨ram, waited, iteration'⟩ := round
        obtain rfl : iteration = iteration' := Except.ok.inj (ran.symm.trans other.sketch)
        rw [if_neg fun faulty => Option.isSome_iff_ne_none.mp (other.screen faulty.1) faulty.2]
        have ram_ := other.ram
        have waited_ := other.waited
        simp only at ram_ waited_
        rw [ram_, waited_]

/-- What the board does is what the sketch does. -/
def onSketch (wire : Wire σ) : Projection (board wire) sketch where
  input := readings wire
  state := Ram.state
  record := Round.iteration
  round := fun ran => (loop_ok.mp ran).sketch
  next := fun ran => congrArg Ram.state (loop_ok.mp ran).ram

theorem ran_of_run (run : BoardRun wire) {n : ℕ} (inside : n < run.length) :
    Ran wire (run.input n) (run.state n) (run.record n) :=
  loop_ok.mp (run.rounds n inside)

/-- `loop` changes only the variables of the sketch. -/
theorem state_eq (run : BoardRun wire) {n : ℕ} (bound : n ≤ run.length) :
    run.state n = { run.state 0 with state := (run.state n).state } := by
  induction n with
  | zero => rfl
  | succ n ih =>
    have before := ih (Nat.le_of_succ_le bound)
    have after := (ran_of_run run bound).ram
    rw [run.links n bound]
    change (run.record n).ram = { run.state 0 with state := (run.record n).ram.state }
    rw [after, before]

theorem address_eq (run : BoardRun wire) {n : ℕ} (inside : n < run.length) :
    (run.state n).insideThermometer = (run.state 0).insideThermometer := by
  rw [state_eq run (Nat.le_of_lt inside)]

theorem final_eq (run : BoardRun wire) {n : ℕ} (inside : n < run.length) :
    (run.state (n + 1)).state = (run.record n).iteration.final := by
  rw [run.links n inside]
  exact congrArg Ram.state (ran_of_run run inside).ram

/-- From other objects of the libraries, and with other inputs, a run goes the same way if they read
the same. -/
def replay (run : BoardRun wire) (inputs : ℕ → Inputs σ) (start : Ram)
    (same : ∀ n < run.length, readings wire (run.input n) (run.state n) =
      readings wire (inputs n) start) : BoardRun wire where
  length := run.length
  input := inputs
  state := fun n => { start with state := (run.state n).state }
  record := fun n =>
    { ram := { start with state := (run.record n).iteration.final }
      waited := (requestTemperatures wire start.sensors (inputs n).line).1
      iteration := (run.record n).iteration }
  rounds := by
    intro n inside
    have ran := ran_of_run run inside
    have first : loopProbe wire (run.input n) (run.state n) = loopProbe wire (inputs n) start :=
      congrArg Readings.probe (same n inside)
    have second : screenProbe wire (run.input n) (run.state n) =
        screenProbe wire (inputs n) start := congrArg Readings.screenProbe (same n inside)
    exact loop_ok.mpr ⟨first ▸ ran.probe, same n inside ▸ ran.sketch,
      fun running => second ▸ ran.screen running, rfl, rfl⟩
  links := by
    intro n inside
    rw [final_eq run inside]
    rfl

theorem getTempC_some {deviceAddress : Address} {bus : σ}
    (read : (Dallas.Library.getTemp wire deviceAddress bus).1.isSome) :
    some (getTempC (Dallas.Library.getTemp wire deviceAddress bus).1) =
      (Dallas.Library.getTempC wire deviceAddress bus).1 := by
  obtain ⟨raw, found⟩ := Option.isSome_iff_exists.mp read
  rw [Dallas.Library.getTempC, found]
  rfl

theorem loopProbe_read {inputs : Inputs σ} {s : Ram} (read : (loopProbe wire inputs s).isSome) :
    some (reading (readings wire inputs s)) =
      (Dallas.Library.getTempC wire s.insideThermometer
        (requestTemperatures wire s.sensors inputs.line).2).1 :=
  getTempC_some read

theorem screenProbe_read {inputs : Inputs σ} {s : Ram}
    (read : (screenProbe wire inputs s).isSome) :
    some (getTempC (screenProbe wire inputs s)) =
      (Dallas.Library.getTempC wire s.insideThermometer inputs.screenLine).1 :=
  getTempC_some read

/-- Whatever hangs at the line, a run of the board is a run of the sketch: with the same buttons and
clock, and with the temperatures that `sensors.getTempC` returns for the address of `setup`. -/
theorem board_refines (run : BoardRun wire) :
    ∃ brew : SketchRun, brew.length = run.length ∧
      (∀ n ≤ run.length, run.state n = { run.state 0 with state := brew.state n }) ∧
      ∀ n < run.length, brew.record n = (run.record n).iteration ∧
        (brew.input n).adcKeyIn = (run.input n).adcKeyIn ∧
        (brew.input n).clock = (run.input n).clock ∧
        some (getTempC (brew.input n).probe) =
          (Dallas.Library.getTempC wire (run.state 0).insideThermometer
            (requestTemperatures wire (run.state 0).sensors (run.input n).line).2).1 ∧
        ((brew.record n).afterInput.state.systemState = .running →
          some (getTempC (brew.input n).screenProbe) =
            (Dallas.Library.getTempC wire (run.state 0).insideThermometer
              (run.input n).screenLine).1) := by
  refine ⟨(onSketch wire).run run, rfl, fun n bound => state_eq run bound, fun n inside => ?_⟩
  have ran := ran_of_run run inside
  have same := state_eq run (Nat.le_of_lt inside)
  have sensors : (run.state n).sensors = (run.state 0).sensors := by rw [same]
  rw [← sensors, ← address_eq run inside]
  exact ⟨rfl, rfl, rfl, loopProbe_read ran.probe,
    fun running => screenProbe_read (ran.screen running)⟩

end Rounds

/-! The temperature and the relay. -/

/-- The address that `setup` takes for the probe. -/
def chosen (bus : Bus) : Address := (visible bus).head?.getD ⟨fun _ => 0⟩

/-- What the device at the address measures, as the library returns it. -/
def readAt (deviceAddress : Address) (line : Bus) : ℚ :=
  (find deviceAddress line).elim deviceDisconnectedC fun d => celsius d.sample

/-- At its address there is nobody, or the probe as `setup` has met it at `bus`. -/
def Met (bus line : Bus) : Prop := ∀ d ∈ line.devices, d.rom = chosen bus → Counted bus line d.rom

/-- The probe is no DS18S20, and the register of its temperature has 13 bits. -/
structure Ordinary (bus line : Bus) : Prop where
  family : (chosen bus).get 0 ≠ 0x10
  met : Met bus line
  fits : ∀ d ∈ line.devices, d.rom = chosen bus → Fits d.sample

/-- Only `heaterController` writes to the relay. -/
theorem final_relay {readings : Readings} {s : State} {iteration : Iteration}
    (rounded : Rounded readings s iteration) :
    iteration.final.relay = levelOf ((command readings iteration).apply s.heatingState) := by
  have screen := congrArg State.relay (screenController_state rounded.screen)
  have input := congrArg State.relay (inputController_frame rounded.input)
  calc iteration.final.relay
      = iteration.afterInput.state.relay := screen
    _ = iteration.afterHeater.state.relay := input
    _ = _ := afterHeater_relay rounded

/-- And only `loop` and the status screen write the temperature. -/
theorem final_tempC {readings : Readings} {s : State} {iteration : Iteration}
    (rounded : Rounded readings s iteration) :
    iteration.final.tempC =
      if iteration.afterInput.state.systemState = .running then getTempC readings.screenProbe
      else reading readings := by
  have screen := congrArg State.tempC (screenController_state rounded.screen)
  refine screen.trans ?_
  rw [screenTemp]
  split_ifs with running
  · rfl
  · have heater := congrArg State.tempC
      (heaterController_state iteration.heaterArgument iteration.afterStep.state)
    have input := congrArg State.tempC (inputController_frame rounded.input)
    calc iteration.afterInput.state.tempC
        = iteration.afterHeater.state.tempC := input
      _ = iteration.afterStep.state.tempC := by
          rw [rounded.heater]
          exact heater
      _ = reading readings := afterStep_tempC rounded

section Runs
variable {τ : Type} (eeprom : Foundation.CellMemory.Memory τ Cell) (extra : ℕ) (m : τ) (bus : Bus)

theorem booted_address : (bootedAt eeprom extra m bus).ram.insideThermometer = chosen bus :=
  (located_eq eeprom extra m bus).1

theorem getTempC_readAt {line : Bus} (ordinary : Ordinary bus line) :
    (Dallas.Library.getTempC Bus.wire (chosen bus)
        (requestTemperatures Bus.wire (bootedAt eeprom extra m bus).ram.sensors line).2).1 =
      some (readAt (chosen bus) line) := by
  cases found : find (chosen bus) line with
  | none =>
    have nobody : readAt (chosen bus) line = deviceDisconnectedC := by
      rw [readAt, found]
      rfl
    rw [nobody]
    refine getTempC_absent ?_
    rw [find_requested, found]
    rfl
  | some d =>
    obtain ⟨member, here⟩ := find_rom found
    have finishes := booted_finishes eeprom extra m bus member (ordinary.met d member here)
    rw [getTempC_finished found finishes ordinary.family (ordinary.fits d member here), readAt,
      found]
    rfl

variable {eeprom extra m bus} (run : BoardRun Bus.wire)
  (booted : run.state 0 = (bootedAt eeprom extra m bus).ram)
include booted

theorem sensors_eq {n : ℕ} (inside : n < run.length) :
    (run.state n).sensors = (bootedAt eeprom extra m bus).ram.sensors := by
  rw [state_eq run (Nat.le_of_lt inside), booted]

/-- The run of the sketch below, with what it reads. -/
theorem sketch_reads (ordinary : ∀ n < run.length, Ordinary bus (run.input n).line) :
    ∃ brew : SketchRun, brew.length = run.length ∧ brew.state 0 = Globals.setup ∧
      (∀ n ≤ run.length, (run.state n).state = brew.state n) ∧
      ∀ n < run.length, brew.record n = (run.record n).iteration ∧
        reading (brew.input n) = readAt (chosen bus) (run.input n).line ∧
        ((brew.record n).afterInput.state.systemState = .running →
          some (getTempC (brew.input n).screenProbe) =
            (Dallas.Library.getTempC Bus.wire (chosen bus) (run.input n).screenLine).1) := by
  obtain ⟨brew, length, states, reads⟩ := board_refines run
  have states_ : ∀ n ≤ run.length, (run.state n).state = brew.state n :=
    fun n bound => congrArg Ram.state (states n bound)
  refine ⟨brew, length, ?_, states_, fun n inside => ?_⟩
  · rw [← states_ 0 (Nat.zero_le _), booted]
    rfl
  · obtain ⟨record, _, _, probe, screen⟩ := reads n inside
    rw [booted, booted_address] at probe screen
    rw [getTempC_readAt eeprom extra m bus (ordinary n inside)] at probe
    exact ⟨record, Option.some.inj probe, screen⟩

/-- In every run from `setup` on, the relay is on exactly if the probe has been more than half a
degree too cold before, or could not be found, and since then was never too hot while the recipe
went on. -/
theorem relay_follows_probe (ordinary : ∀ n < run.length, Ordinary bus (run.input n).line)
    {n : ℕ} (inside : n < run.length) :
    (run.state (n + 1)).state.relay = .high ↔
      ∃ j ≤ n, (¬Finished (run.record j).iteration ∧
          readAt (chosen bus) (run.input j).line + 1 / 2 < target (run.record j).iteration) ∧
        ∀ k, j < k → k ≤ n → ¬Finished (run.record k).iteration ∧
          readAt (chosen bus) (run.input k).line ≤ target (run.record k).iteration := by
  obtain ⟨brew, length, start, states, reads⟩ := sketch_reads run booted ordinary
  have below : ∀ k ≤ n, k < brew.length := fun k upTo => by omega
  have off : (brew.state 0).heatingState = false := by
    rw [start]
    rfl
  have latched := value_iff_kept (fun k => command (brew.input k) (brew.record k))
    (fun k => (brew.state k).heatingState) off n
    (fun k upTo => heatingState_follows brew (below k upTo))
  have relay : (brew.state (n + 1)).relay = levelOf (brew.state (n + 1)).heatingState := by
    rw [heatingState_follows brew (below n le_rfl), brew.links n (below n le_rfl)]
    exact final_relay (ControllerEffects.loop_ok_iff.mp (brew.rounds n (below n le_rfl)))
  rw [states (n + 1) inside, relay, levelOf_high, latched]
  have seen : ∀ k ≤ n, brew.record k = (run.record k).iteration ∧
      reading (brew.input k) = readAt (chosen bus) (run.input k).line := fun k upTo =>
    ⟨(reads k (length ▸ below k upTo)).1, (reads k (length ▸ below k upTo)).2.1⟩
  refine exists_congr fun j => and_congr_right fun upTo => ?_
  obtain ⟨record, probe⟩ := seen j upTo
  refine and_congr ?_ (forall_congr' fun k => forall_congr' fun _ => forall_congr' fun upTo => ?_)
  · rw [command_set_iff, TooCold, probe, record]
  · obtain ⟨record, probe⟩ := seen k upTo
    rw [ne_eq, command_reset_iff, TooHot, probe, record, not_or, not_lt]

/-- In every run from `setup` on, a request waits the 94, 188, 375 or 750 milliseconds that any device
needs for its conversion that has been counted at the start, and leaves the new temperature in its
registers. -/
theorem conversions_end {n : ℕ} (inside : n < run.length) {d : Device}
    (member : d ∈ (run.input n).line.devices) (counted : Counted bus (run.input n).line d.rom) :
    d.conversionTime ≤ (run.record n).waited ∧
      find d.rom (requestTemperatures Bus.wire (run.state n).sensors (run.input n).line).2 =
        some { d.endConversion with phase := .idle } := by
  have finishes := booted_finishes eeprom extra m bus member counted
  rw [← sensors_eq run booted inside] at finishes
  constructor
  · rw [(ran_of_run run inside).waited, requestTemperatures, if_pos finishes.1]
    exact finishes.2
  · exact find_finished (find_eq member) finishes

end Runs

/-- The second of the two probes, when it measures something else next. -/
def probe (sample : Octets 8) : Device := { factoryNew 2 with sample := sample }

/-- 25.0625 degrees, and after that 71.75. -/
def samples (n : ℕ) : Octets 8 :=
  .ofList (if n = 0 then [0x91, 0x01, 0x4B, 0x46, 0x7F, 0xFF, 0x0F, 0x10]
    else [0x7C, 0x04, 0x4B, 0x46, 0x7F, 0xFF, 0x04, 0x10])

/-- The object of the sketch when it waits for 12 bits. -/
def longest : Sensors := { setOneWire with bitResolution := 12 }

/-- Nobody presses a button, and nothing happens between the two readings. -/
def quiet (line : Bus) : Inputs Bus where
  line := line
  screenLine := (requestTemperatures Bus.wire longest line).2
  adcKeyIn := 1023
  clock := default

theorem twoProbes_distinct (sample : Octets 8) :
    ([factoryNew 1, probe sample].map Device.rom).Nodup :=
  show ([factoryNew 1, factoryNew 2].map Device.rom).Nodup by decide

def both (n : ℕ) : Bus := ⟨[factoryNew 1, probe (samples n)], twoProbes_distinct _⟩

/-- Two iterations after `setup`. The first step of the recipe has a target of 72 degrees. -/
def heatUp : BoardRun Bus.wire :=
  (board Bus.wire).follow (fun n => quiet (both n))
    (bootedAt Database.Records.uno 0 [] twoProbes).ram 2 (by decide +kernel)

theorem heatUp_booted :
    heatUp.state 0 = (bootedAt Database.Records.uno 0 [] twoProbes).ram := rfl

theorem chosen_twoProbes : chosen twoProbes = (factoryNew 2).rom := by
  rw [chosen, visible_twoProbes]
  rfl

theorem probe_mem (n : ℕ) : probe (samples n) ∈ (both n).devices :=
  List.mem_cons_of_mem _ List.mem_cons_self

theorem counted_both (n : ℕ) : Counted twoProbes (both n) (factoryNew 2).rom := by
  refine ⟨?_, by decide, by decide, resolutionAt_member (d := probe (samples n)) (probe_mem n)⟩
  rw [visible_twoProbes]
  exact List.mem_cons_self

theorem met_both (n : ℕ) : Met twoProbes (both n) := by
  rw [Met, chosen_twoProbes]
  exact fun d _ here => here ▸ counted_both n

theorem heatUp_ordinary : ∀ n < heatUp.length, Ordinary twoProbes (heatUp.input n).line := by
  intro n _
  refine ⟨by rw [chosen_twoProbes]; decide, met_both n, fun d member here => ?_⟩
  have only : d = probe (samples n) := by
    have found := find_eq member
    rw [here, chosen_twoProbes] at found
    exact Option.some.inj (found.symm.trans (find_eq (probe_mem n)))
  rw [only]
  change Fits (samples n)
  unfold samples
  split_ifs <;> exact ⟨by decide, by decide⟩

theorem longest_finishes (sample : Octets 8) : Finishes longest (probe sample) := by
  have twelve : (12 : Cell) = if (factoryNew 2).rom.get 0 = 0x10 then 12
      else Dallas.Library.resolutionOf ((factoryNew 2).memory.get 4) := by decide
  exact ⟨rfl, (conversionTime_eq (probe sample) twelve (by decide)).le⟩

theorem heatUp_undisturbed : ∀ n < heatUp.length,
    (find (chosen twoProbes) (heatUp.input n).screenLine).map atRest =
      (find (chosen twoProbes) (requestTemperatures Bus.wire (heatUp.state n).sensors
        (heatUp.input n).line).2).map atRest := by
  intro n inside
  have here : find (factoryNew 2).rom (both n) = some (probe (samples n)) := find_eq (probe_mem n)
  have finishes := booted_finishes Database.Records.uno 0 [] twoProbes (probe_mem n)
    (counted_both n)
  have again := find_finished here (longest_finishes (samples n))
  rw [← find_finished here finishes] at again
  rw [sensors_eq heatUp heatUp_booted inside, chosen_twoProbes]
  exact congrArg (Option.map atRest) again

theorem heatUp_one : 1 < heatUp.length := show 1 < 2 by decide

theorem readAt_both (n : ℕ) : readAt (chosen twoProbes) (both n) = celsius (samples n) := by
  rw [chosen_twoProbes, readAt]
  exact congrArg (Option.elim · _ _) (find_eq (probe_mem n))

theorem samples_one : celsius (samples 1) = 287 / 4 := by
  have units : register (samples 1) = 1148 := by decide
  rw [celsius, units]
  norm_num

/-- The second reading is in the band, the relay stays on from the first. -/
theorem relay_follows_probe_heatUp : (heatUp.state (1 + 1)).state.relay = .high := by
  refine (relay_follows_probe heatUp heatUp_booted heatUp_ordinary heatUp_one).mpr
    ⟨0, Nat.zero_le 1, ⟨?_, ?_⟩, fun k after upTo => ?_⟩
  · decide +kernel
  · rw [chosen_twoProbes]
    decide +kernel
  · obtain rfl : k = 1 := Nat.le_antisymm upTo after
    rw [chosen_twoProbes]
    decide +kernel

theorem conversions_end_heatUp :
    750 ≤ (heatUp.record 1).waited ∧
      find (factoryNew 2).rom (requestTemperatures Bus.wire (heatUp.state 1).sensors (both 1)).2 =
        some { (probe (samples 1)).endConversion with phase := .idle } :=
  conversions_end heatUp heatUp_booted heatUp_one (probe_mem 1) (counted_both 1)

/-! What does not matter. -/

/-- The same buttons and clock, and the same device at the address, wherever its talk has ended. -/
structure Alike (deviceAddress : Address) (inputs other : Inputs Bus) : Prop where
  line : (find deviceAddress inputs.line).map atRest = (find deviceAddress other.line).map atRest
  screenLine : (find deviceAddress inputs.screenLine).map atRest =
    (find deviceAddress other.screenLine).map atRest
  adcKeyIn : inputs.adcKeyIn = other.adcKeyIn
  clock : inputs.clock = other.clock

theorem endConversion_rest {d other : Device} (same : atRest d = atRest other) :
    atRest d.endConversion = atRest other.endConversion :=
  congrArg Device.endConversion same

/-- Devices at rest stay alike in requests that wait for both of them. -/
theorem find_requested_alike {s t : Sensors} {deviceAddress : Address} {line other : Bus}
    (same : (find deviceAddress line).map atRest = (find deviceAddress other).map atRest)
    (finishes : ∀ d ∈ line.devices, d.rom = deviceAddress → Finishes s d)
    (finishes' : ∀ d ∈ other.devices, d.rom = deviceAddress → Finishes t d) :
    (find deviceAddress (requestTemperatures Bus.wire s line).2).map atRest =
      (find deviceAddress (requestTemperatures Bus.wire t other).2).map atRest := by
  cases found : find deviceAddress line with
  | none =>
    rw [found, Option.map_none, eq_comm, Option.map_eq_none_iff] at same
    rw [find_requested, find_requested, found, same]
    rfl
  | some d =>
    rw [found, Option.map_some, eq_comm, Option.map_eq_some_iff] at same
    obtain ⟨d', found', rest⟩ := same
    obtain ⟨member, here⟩ := find_rom found
    obtain ⟨member', here'⟩ := find_rom found'
    rw [find_finished found (finishes d member here),
      find_finished found' (finishes' d' member' here')]
    exact congrArg some (endConversion_rest rest).symm

theorem readings_alike {s t : Ram} (address : t.insideThermometer = s.insideThermometer)
    {inputs other : Inputs Bus} (alike : Alike s.insideThermometer inputs other)
    (finishes : ∀ d ∈ inputs.line.devices, d.rom = s.insideThermometer → Finishes s.sensors d)
    (finishes' : ∀ d ∈ other.line.devices, d.rom = s.insideThermometer → Finishes t.sensors d) :
    readings Bus.wire inputs s = readings Bus.wire other t := by
  have first : loopProbe Bus.wire inputs s = loopProbe Bus.wire other t := by
    rw [loopProbe, loopProbe, address]
    exact getTemp_rest (find_requested_alike alike.line finishes finishes')
  have second : screenProbe Bus.wire inputs s = screenProbe Bus.wire other t := by
    rw [screenProbe, screenProbe, address]
    exact getTemp_rest alike.screenLine
  rw [readings, readings, first, second, alike.adcKeyIn, alike.clock]

/-- The probe on its own. -/
def alone (n : ℕ) : Bus := ⟨[probe (samples n)], List.nodup_singleton _⟩

theorem visible_alone (n : ℕ) : visible (alone n) = [(factoryNew 2).rom] := by
  have listed : OneWire.Enumeration.roster true (alone n) = [(factoryNew 2).rom] := rfl
  rw [visible, listed]
  exact if_pos (by decide)

theorem chosen_alone : chosen (alone 0) = chosen twoProbes := by
  rw [chosen, visible_alone, chosen_twoProbes]
  rfl

theorem quiet_alike (n : ℕ) : Alike (factoryNew 2).rom (quiet (both n)) (quiet (alone n)) := by
  have inBoth : find (factoryNew 2).rom (both n) = some (probe (samples n)) := find_eq (probe_mem n)
  have inAlone : find (factoryNew 2).rom (alone n) = some (probe (samples n)) :=
    find_eq (d := probe (samples n)) List.mem_cons_self
  have finishes := longest_finishes (samples n)
  refine ⟨congrArg _ (inBoth.trans inAlone.symm), congrArg _ ?_, rfl, rfl⟩
  exact (find_finished inBoth finishes).trans (find_finished inAlone finishes).symm

theorem met_alone (n : ℕ) : Met (alone 0) (alone n) := by
  intro d member _
  obtain rfl := List.mem_singleton.mp member
  refine ⟨?_, show validAddress (factoryNew 2).rom = true by decide,
    show resolutionAt (alone 0) (factoryNew 2).rom ≠ 0 by decide,
    resolutionAt_member (d := probe (samples n)) member⟩
  rw [visible_alone]
  exact List.mem_cons_self

end ArduMash.Behaviour.Brew
