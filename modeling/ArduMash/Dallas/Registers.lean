import ArduMash.Dallas.Library
import ArduMash.OneWire.Addressing

/-!
The functions that talk to one device. Each finds the registers of the device with
the given address, or finds nobody, and changes no other device.
-/

namespace ArduMash.Dallas.Registers
open OneWire.Line OneWire.Crc OneWire.Devices OneWire.Transfer OneWire.Addressing Library

/-! The scratch pad of a device, as it is read. -/

def padOf (d : Device) : ScratchPad := .ofList d.scratchPad

theorem get_padOf (d : Device) {i : ℕ} (inside : i < 8) : (padOf d).get i = d.memory.get i := by
  have long : i < d.memory.toList.length := by rwa [Octets.toList, List.length_ofFn]
  rw [Octets.get, dif_pos (Nat.lt_succ_of_lt inside), Octets.get, dif_pos inside]
  change (d.memory.toList ++ [crc8 d.memory.toList]).getD i 0 = _
  rw [List.getD_eq_getElem?_getD, List.getElem?_append_left long, Octets.toList,
    List.getElem?_ofFn, dif_pos inside]
  rfl

theorem padOf_checked (d : Device) : crc8 ((padOf d).toList.take 8) = (padOf d).get 8 := rfl

theorem resolutionOf_range (code : Byte) :
    resolutionOf code ∈ ([0, 9, 10, 11, 12] : List Byte) := by
  unfold resolutionOf
  split_ifs <;> decide

/-- A resolution comes back from its configuration, and 9 bits for what is none. -/
theorem resolutionOf_configuration (newResolution : Byte) :
    resolutionOf (configuration newResolution) =
      if newResolution ∈ ([10, 11, 12] : List Byte) then newResolution else 9 := by
  by_cases listed : newResolution ∈ ([10, 11, 12] : List Byte)
  · rw [if_pos listed]
    have each : ∀ one ∈ ([10, 11, 12] : List Byte), resolutionOf (configuration one) = one := by
      decide
    exact each newResolution listed
  · rw [if_neg listed]
    simp only [List.mem_cons, List.not_mem_nil, or_false, not_or] at listed
    obtain ⟨ten, eleven, twelve⟩ := listed
    rw [configuration, if_neg twelve, if_neg eleven, if_neg ten]
    rfl

theorem atRest_obey {v : Byte} (noConversion : v ≠ 0x44) (d : Device) :
    atRest (d.obey v) = atRest d := by
  rw [Device.obey, if_neg noConversion]
  rfl

theorem settled_command (deviceAddress : Address) {v : Byte} (noConversion : v ≠ 0x44)
    (bus : Bus) :
    settled (addressed deviceAddress (Device.obey v) (Device.obey_rom v) bus) = settled bus := by
  rw [settled_addressed]
  refine Bus.update_congr bus fun d _ => ?_
  split_ifs
  · exact atRest_obey noConversion d
  · rfl

theorem read_pad (deviceAddress : Address) (bus : Bus) :
    (Bus.wire.readBytes 9
        (addressed deviceAddress (Device.obey 0xBE) (Device.obey_rom 0xBE) bus)).1 =
        ((find deviceAddress bus).map Device.scratchPad).getD (List.replicate 9 0xFF) ∧
      settled (Bus.wire.readBytes 9
        (addressed deviceAddress (Device.obey 0xBE) (Device.obey_rom 0xBE) bus)).2 =
        settled bus := by
  have carries :
      Carries (addressed deviceAddress (Device.obey 0xBE) (Device.obey_rom 0xBE) bus) _ :=
    carries_addressed _ (fun d => .inr rfl) bus
  have unchanged := settled_command deviceAddress (show (0xBE : Byte) ≠ 0x44 by decide) bus
  cases found : find deviceAddress bus with
  | none =>
    rw [found] at carries
    obtain ⟨bytes, same⟩ := carries.silence 9
    exact ⟨bytes, same.trans unchanged⟩
  | some d =>
    rw [found] at carries
    obtain ⟨bytes, same⟩ := (show Carries _ (stream d.scratchPad) from carries).allBytes
    exact ⟨bytes, same.trans unchanged⟩

theorem readScratchPad_eq (deviceAddress : Address) (scratchPad : ScratchPad) (bus : Bus) :
    (readScratchPad Bus.wire deviceAddress scratchPad bus).1 = !bus.devices.isEmpty ∧
      (readScratchPad Bus.wire deviceAddress scratchPad bus).2.1 =
        (if bus.devices.isEmpty then scratchPad
        else .ofList (((find deviceAddress bus).map Device.scratchPad).getD
          (List.replicate 9 0xFF))) ∧
      settled (readScratchPad Bus.wire deviceAddress scratchPad bus).2.2 = settled bus := by
  cases empty : bus.devices.isEmpty with
  | true =>
    have absent : (Bus.wire.reset bus).1 = false := by rw [reset_eq, empty]; rfl
    simp only [readScratchPad, absent]
    exact ⟨rfl, rfl, settled_enter _ bus⟩
  | false =>
    obtain ⟨bytes, unchanged⟩ := read_pad deviceAddress bus
    have present : (Bus.wire.reset bus).1 = true := by rw [reset_eq, empty]; rfl
    have again := reset_congr unchanged
    simp only [readScratchPad, present, if_true, command_eq, again, bytes]
    exact ⟨rfl, rfl, settled_enter _ bus⟩

/-- Nobody's answer does not pass the check. -/
theorem isConnected_eq (deviceAddress : Address) (bus : Bus) :
    (isConnected Bus.wire deviceAddress bus).1 = (find deviceAddress bus).map padOf ∧
      settled (isConnected Bus.wire deviceAddress bus).2 = settled bus := by
  obtain ⟨result, pad, unchanged⟩ := readScratchPad_eq deviceAddress ⟨fun _ => 0⟩ bus
  refine ⟨?_, unchanged⟩
  simp only [isConnected, result, pad]
  cases empty : bus.devices.isEmpty with
  | true =>
    have nobody : find deviceAddress bus = none := by
      rw [find, List.isEmpty_iff.mp empty]
      rfl
    rw [nobody]
    rfl
  | false =>
    cases find deviceAddress bus with
    | none => decide
    | some d => exact if_pos ⟨rfl, padOf_checked d⟩

theorem lookUp_eq {α : Type} (otherwise : α) (look : ScratchPad → α) (deviceAddress : Address)
    (bus : Bus) :
    (lookUp Bus.wire otherwise look deviceAddress bus).1 =
        (find deviceAddress bus).elim otherwise (fun d => look (padOf d)) ∧
      settled (lookUp Bus.wire otherwise look deviceAddress bus).2 = settled bus := by
  obtain ⟨connected, unchanged⟩ := isConnected_eq deviceAddress bus
  refine ⟨?_, unchanged⟩
  rw [lookUp, connected]
  cases find deviceAddress bus <;> rfl

theorem readPowerSupply_eq (deviceAddress : Address) (bus : Bus) :
    (readPowerSupply Bus.wire deviceAddress bus).1 =
        (find deviceAddress bus).elim false Device.parasite ∧
      settled (readPowerSupply Bus.wire deviceAddress bus).2 = settled bus := by
  have carries :
      Carries (addressed deviceAddress (Device.obey 0xB4) (Device.obey_rom 0xB4) bus) _ :=
    carries_addressed _ (fun d => .inr rfl) bus
  have unchanged := settled_command deviceAddress (show (0xB4 : Byte) ≠ 0x44 by decide) bus
  obtain ⟨bit, _, same⟩ := carries.slot
  rw [readPowerSupply, command_eq]
  constructor
  · simp only [bit]
    cases find deviceAddress bus with
    | none => rfl
    | some d => exact Bool.not_not _
  · exact (settled_enter _ _).trans (same.trans unchanged)

theorem getResolution_eq (deviceAddress : Address) (bus : Bus) :
    (getResolution Bus.wire deviceAddress bus).1 =
        (if deviceAddress.get 0 = 0x10 then 12
        else (find deviceAddress bus).elim 0 fun d => resolutionOf (d.memory.get 4)) ∧
      settled (getResolution Bus.wire deviceAddress bus).2 = settled bus := by
  unfold getResolution
  split_ifs
  · exact ⟨rfl, rfl⟩
  · exact lookUp_eq 0 _ deviceAddress bus

/-! Writing. -/

/-- `act` on the device with this address; the others do not change. -/
def inPlace (deviceAddress : Address) (act : Device → Device) (d : Device) : Device :=
  if d.rom = deviceAddress then act d else d

theorem inPlace_rom {deviceAddress : Address} {act : Device → Device}
    (keeps : ∀ d, (act d).rom = d.rom) (d : Device) :
    (inPlace deviceAddress act d).rom = d.rom := by
  unfold inPlace
  split_ifs
  · exact keeps d
  · rfl

theorem inPlace_forgets {deviceAddress : Address} {act : Device → Device}
    (forgets : ∀ d, atRest (act (atRest d)) = atRest (act d)) (d : Device) :
    atRest (inPlace deviceAddress act (atRest d)) = atRest (inPlace deviceAddress act d) := by
  unfold inPlace
  by_cases here : d.rom = deviceAddress
  · rw [if_pos here, if_pos (show (atRest d).rom = deviceAddress from here)]
    exact forgets d
  · rw [if_neg here, if_neg (show (atRest d).rom ≠ deviceAddress from here)]
    rfl

/-- The alarm registers are written, and the configuration where there is one. -/
def written (scratchPad : ScratchPad) (d : Device) : Device :=
  let alarms := (d.memory.modify 2 fun _ => scratchPad.get 2).modify 3 fun _ => scratchPad.get 3
  { d with
    memory := if d.rom.get 0 = 0x10 then alarms else alarms.modify 4 fun _ => scratchPad.get 4 }

theorem written_rom (scratchPad : ScratchPad) (d : Device) :
    (written scratchPad d).rom = d.rom := rfl

/-- After the first of the two ROM commands the second is taken for a function command, and nobody
hears the one to copy. -/
theorem copy_settled (deviceAddress : Address) (bus : Bus) :
    settled (Bus.wire.reset (Bus.wire.write 0x48 (Bus.wire.select deviceAddress
      (Bus.wire.select deviceAddress (Bus.wire.reset bus).2)))).2 = settled bus := by
  have taken : Bus.wire.write 0x55 (Bus.wire.select deviceAddress (Bus.wire.reset bus).2) =
      addressed deviceAddress (Device.obey 0x55) (Device.obey_rom 0x55) bus :=
    command_eq deviceAddress 0x55 bus
  have idle : ∀ d ∈ (addressed deviceAddress (Device.obey 0x55) (Device.obey_rom 0x55) bus).devices,
      d.phase = .idle := by
    intro d member
    obtain ⟨before, _, rfl⟩ := List.mem_map.mp member
    unfold only
    split_ifs <;> rfl
  have again : Bus.wire.select deviceAddress
      (Bus.wire.select deviceAddress (Bus.wire.reset bus).2) =
      addressed deviceAddress (Device.obey 0x55) (Device.obey_rom 0x55) bus := by
    rw [Wire.select, taken]
    have second := select_idle idle deviceAddress
    rwa [Wire.select, write_idle idle] at second
  rw [again, write_idle idle]
  exact (settled_enter _ _).trans
    (settled_command deviceAddress (show (0x55 : Byte) ≠ 0x44 by decide) bus)

/-- What a device takes of the bytes after the command to write. -/
def stored (scratchPad : ScratchPad) (d : Device) : Device :=
  ((d.obey 0x4E).store 2 (scratchPad.get 2)).store 3 (scratchPad.get 3)

theorem stored_rom (scratchPad : ScratchPad) (d : Device) : (stored scratchPad d).rom = d.rom := rfl

theorem stored_phase (scratchPad : ScratchPad) (d : Device) :
    (stored scratchPad d).phase =
      if d.rom.get 0 = 0x10 then .idle else .receiving 4 0 0 := by
  change (if 3 + 1 < d.writable then _ else _) = _
  unfold Device.writable
  by_cases family : d.rom.get 0 = 0x10
  · rw [if_pos family, if_pos family]
    rfl
  · rw [if_neg family, if_neg family]
    rfl

theorem writeScratchPad_eq (deviceAddress : Address) (scratchPad : ScratchPad) (bus : Bus) :
    settled (writeScratchPad Bus.wire deviceAddress scratchPad bus) =
      settled (bus.update (inPlace deviceAddress (written scratchPad))
        (inPlace_rom (written_rom scratchPad))) := by
  have alarms : Bus.wire.write (scratchPad.get 3) (Bus.wire.write (scratchPad.get 2)
      (addressed deviceAddress (Device.obey 0x4E) (Device.obey_rom 0x4E) bus)) =
      addressed deviceAddress (stored scratchPad) (stored_rom scratchPad) bus := by
    rw [write_addressed (collects_receiving 2) (Device.store_rom 2) _ _ fun _ _ => rfl,
      write_addressed (collects_receiving 3) (Device.store_rom 3) _ _ fun d _ => ?_]
    · rfl
    · change (if 2 + 1 < d.writable then _ else _) = _
      have more : 2 + 1 < d.writable := by
        unfold Device.writable
        split_ifs <;> decide
      rw [if_pos more]
  unfold writeScratchPad
  simp only
  rw [copy_settled, command_eq, alarms]
  by_cases family : deviceAddress.get 0 = 0x10
  · rw [if_neg (not_not.mpr family), settled_addressed, settled, Bus.update_update]
    refine Bus.update_congr bus fun d _ => ?_
    unfold inPlace
    split_ifs with here
    · have own : d.rom.get 0 = 0x10 := by rwa [here]
      simp only [written, if_pos own]
      rfl
    · rfl
  · rw [if_pos family, write_addressed (collects_receiving 4) (Device.store_rom 4),
      settled_addressed, settled, Bus.update_update]
    · refine Bus.update_congr bus fun d _ => ?_
      unfold inPlace
      split_ifs with here
      · have own : ¬d.rom.get 0 = 0x10 := by rwa [here]
        simp only [written, if_neg own]
        rfl
      · rfl
    · intro d here
      rw [stored_phase, here, if_neg family]

theorem settled_update_congr {bus other : Bus} (same : settled bus = settled other)
    {f : Device → Device} (keeps : ∀ d, (f d).rom = d.rom)
    (forgets : ∀ d, atRest (f (atRest d)) = atRest (f d)) :
    settled (bus.update f keeps) = settled (other.update f keeps) := by
  rw [← update_settled bus keeps forgets, same, update_settled other keeps forgets]

/-- What the functions that change the scratch pad do with the registers. -/
theorem amend_eq (edit : ScratchPad → ScratchPad) (deviceAddress : Address) (bus : Bus) :
    (amend Bus.wire edit deviceAddress bus).1 = (find deviceAddress bus).isSome ∧
      settled (amend Bus.wire edit deviceAddress bus).2 =
        settled (bus.update (inPlace deviceAddress fun d => written (edit (padOf d)) d)
          (inPlace_rom fun d => written_rom _ d)) := by
  obtain ⟨connected, unchanged⟩ := isConnected_eq deviceAddress bus
  unfold amend
  generalize isConnected Bus.wire deviceAddress bus = result at connected unchanged ⊢
  obtain ⟨pad, after⟩ := result
  simp only at connected unchanged
  subst connected
  cases found : find deviceAddress bus with
  | none =>
    refine ⟨rfl, unchanged.trans ?_⟩
    rw [settled, settled, Bus.update_update]
    refine Bus.update_congr bus fun d member => ?_
    rw [inPlace, if_neg (find_none.mp found d member)]
  | some d =>
    refine ⟨rfl, ?_⟩
    change settled (writeScratchPad Bus.wire deviceAddress (edit (padOf d)) after) = _
    rw [writeScratchPad_eq, settled_update_congr unchanged]
    · congr 1
      refine Bus.update_congr bus fun other member => ?_
      unfold inPlace
      split_ifs with here
      · have same := find_eq member
        rw [here, found] at same
        rw [Option.some.inj same]
      · rfl
    · exact inPlace_forgets fun _ => rfl

theorem written_get (scratchPad : ScratchPad) (d : Device) {i : ℕ} (inside : i < 8) :
    (written scratchPad d).memory.get i =
      if i = 2 ∨ i = 3 ∨ (i = 4 ∧ d.rom.get 0 ≠ 0x10) then scratchPad.get i
      else d.memory.get i := by
  unfold written
  by_cases family : d.rom.get 0 = 0x10
  · simp only [if_pos family, Octets.get_modify _ _ inside]
    by_cases low : i = 3
    · simp [low]
    · by_cases high : i = 2 <;> simp [low, high, family]
  · simp only [if_neg family, Octets.get_modify _ _ inside]
    by_cases third : i = 4
    · rw [if_pos third, if_pos (.inr (.inr ⟨third, family⟩)), third]
    · by_cases low : i = 3
      · simp [low]
      · by_cases high : i = 2 <;> simp [third, low, high]

/-! Conversions. -/

theorem converted_get (d : Device) {i : ℕ} (inside : i < 8) :
    d.converted.get i = if i = 0 ∨ i = 1 ∨ i = 6 then d.sample.get i else d.memory.get i := by
  rw [Octets.get, dif_pos inside, Octets.get, dif_pos inside, Octets.get, dif_pos inside]
  rfl

theorem pass_idle {d : Device} (idle : d.conversion = none) (ms : ℕ) : d.pass ms = d := by
  rw [Device.pass, idle]

theorem pass_done {d : Device} {left ms : ℕ} (converting : d.conversion = some left)
    (enough : left ≤ ms) : d.pass ms = d.endConversion := by
  rw [Device.pass, converting]
  exact if_pos enough

theorem pass_more {d : Device} {left ms : ℕ} (converting : d.conversion = some left)
    (less : ms < left) : d.pass ms = { d with conversion := some (left - ms) } := by
  rw [Device.pass, converting]
  exact if_neg (Nat.not_le.mpr less)

theorem pass_forgets (ms : ℕ) (d : Device) : atRest ((atRest d).pass ms) = atRest (d.pass ms) := by
  cases converting : d.conversion with
  | none =>
    have other : (atRest d).conversion = none := converting
    rw [pass_idle converting, pass_idle other]
    rfl
  | some left =>
    have other : (atRest d).conversion = some left := converting
    rcases Nat.lt_or_ge ms left with less | enough
    · rw [pass_more converting less, pass_more other less]
      rfl
    · rw [pass_done converting enough, pass_done other enough]
      rfl

/-- Time changes no register but those of the temperature. -/
theorem pass_get (ms : ℕ) (d : Device) {i : ℕ} (inside : i < 8)
    (kept : ¬(i = 0 ∨ i = 1 ∨ i = 6)) : (d.pass ms).memory.get i = d.memory.get i := by
  cases converting : d.conversion with
  | none => rw [pass_idle converting]
  | some left =>
    rcases Nat.lt_or_ge ms left with less | enough
    · rw [pass_more converting less]
    · rw [pass_done converting enough]
      exact (converted_get d inside).trans (if_neg kept)

/-- Where a resolution can be read, the library knows the time of a conversion. -/
theorem conversionTime_eq (d : Device) {resolution : Byte}
    (same : resolution = if d.rom.get 0 = 0x10 then 12 else resolutionOf (d.memory.get 4))
    (read : resolution ≠ 0) : d.conversionTime = millisToWaitForConversion resolution := by
  subst same
  unfold Device.conversionTime
  by_cases family : d.rom.get 0 = 0x10
  · rw [if_pos family, if_pos family]
    rfl
  · rw [if_neg family] at read ⊢
    rw [if_neg family]
    generalize d.memory.get 4 = code at read ⊢
    revert read
    unfold resolutionOf
    split_ifs with twelve eleven ten nine
    · rw [twelve]
      decide
    · rw [eleven]
      decide
    · rw [ten]
      decide
    · rw [nine]
      decide
    · exact fun read => absurd rfl read

/-- A request waits until the conversion of the device has ended. -/
def Finishes (s : Sensors) (d : Device) : Prop :=
  s.waitForConversion = true ∧ d.conversionTime ≤ millisToWaitForConversion s.bitResolution

instance (s : Sensors) : DecidablePred (Finishes s) :=
  fun _ => inferInstanceAs (Decidable (_ ∧ _))

/-- What a request for all temperatures does to a device. -/
def requested (s : Sensors) (d : Device) : Device :=
  if s.waitForConversion then (d.obey 0x44).pass (millisToWaitForConversion s.bitResolution)
  else d.obey 0x44

theorem requested_rom (s : Sensors) (d : Device) : (requested s d).rom = d.rom := by
  unfold requested
  split_ifs
  · exact (Device.pass_rom _ _).trans (Device.obey_rom _ _)
  · exact Device.obey_rom _ _

theorem requestTemperatures_eq (s : Sensors) (bus : Bus) :
    (requestTemperatures Bus.wire s bus).2 = bus.update (requested s) (requested_rom s) := by
  rw [requestTemperatures, command_all]
  split_ifs with waits
  · refine (Bus.update_update bus (Device.obey_rom 0x44) (Device.pass_rom _)).trans ?_
    exact Bus.update_congr bus fun d _ => (if_pos waits).symm
  · change bus.update (Device.obey 0x44) (Device.obey_rom 0x44) = _
    exact Bus.update_congr bus fun d _ => (if_neg waits).symm

theorem requested_finished {s : Sensors} {d : Device} (finishes : Finishes s d) :
    requested s d = { d.endConversion with phase := .idle } := by
  rw [requested, if_pos finishes.1]
  exact pass_done rfl finishes.2

/-- Before that the device is as it was but for the conversion. -/
theorem requested_memory {s : Sensors} {d : Device} (unfinished : ¬Finishes s d) :
    (requested s d).memory = d.memory := by
  unfold requested
  split_ifs with waits
  · have less : millisToWaitForConversion s.bitResolution < d.conversionTime :=
      Nat.lt_of_not_le fun enough => unfinished ⟨waits, enough⟩
    rw [pass_more (d := d.obey 0x44) rfl less]
    rfl
  · rfl

/-! A function that starts with a reset is not influenced by what was said before. -/

section Congr
variable {bus other : Bus} (same : settled bus = settled other)
include same

theorem readScratchPad_congr (deviceAddress : Address) (scratchPad : ScratchPad) :
    readScratchPad Bus.wire deviceAddress scratchPad bus =
      readScratchPad Bus.wire deviceAddress scratchPad other := by
  rw [readScratchPad, readScratchPad, reset_congr same]

theorem isConnected_congr (deviceAddress : Address) :
    isConnected Bus.wire deviceAddress bus = isConnected Bus.wire deviceAddress other := by
  rw [isConnected, isConnected, readScratchPad_congr same]

theorem lookUp_congr {α : Type} (otherwise : α) (look : ScratchPad → α)
    (deviceAddress : Address) :
    lookUp Bus.wire otherwise look deviceAddress bus =
      lookUp Bus.wire otherwise look deviceAddress other := by
  rw [lookUp, lookUp, isConnected_congr same]

theorem amend_congr (edit : ScratchPad → ScratchPad) (deviceAddress : Address) :
    amend Bus.wire edit deviceAddress bus = amend Bus.wire edit deviceAddress other := by
  rw [amend, amend, isConnected_congr same]

theorem setResolution_congr (deviceAddress : Address) (newResolution : Byte) :
    setResolution Bus.wire deviceAddress newResolution bus =
      setResolution Bus.wire deviceAddress newResolution other := by
  rw [setResolution, setResolution, isConnected_congr same, amend_congr same]

theorem requestTemperaturesByAddress_congr (deviceAddress : Address) (poll : Poll) (s : Sensors) :
    requestTemperaturesByAddress Bus.wire deviceAddress poll s bus =
      requestTemperaturesByAddress Bus.wire deviceAddress poll s other := by
  by_cases family : deviceAddress.get 0 = 0x10
  · have twelve : (12 : Byte) ≠ 0 := by decide
    simp only [requestTemperaturesByAddress, getResolution, if_pos family, if_neg twelve,
      reset_congr same]
  · have resolution : getResolution Bus.wire deviceAddress bus =
        getResolution Bus.wire deviceAddress other := by
      rw [getResolution, getResolution, if_neg family, if_neg family, lookUp_congr same]
    rw [requestTemperaturesByAddress, requestTemperaturesByAddress, resolution]

end Congr

/-! Requests for one device. -/

theorem isConversionAvailable_settled (deviceAddress : Address) (scratchPad : ScratchPad)
    (bus : Bus) :
    settled (isConversionAvailable Bus.wire deviceAddress scratchPad bus).2 = settled bus :=
  (readScratchPad_eq deviceAddress scratchPad bus).2.2

/-- The low byte of the temperature register decides. -/
theorem isConversionAvailable_eq {deviceAddress : Address} (scratchPad : ScratchPad) {bus : Bus}
    {d : Device} (found : find deviceAddress bus = some d) :
    (isConversionAvailable Bus.wire deviceAddress scratchPad bus).1 =
      decide (d.memory.get 0 ≠ 0) := by
  obtain ⟨_, pad, _⟩ := readScratchPad_eq deviceAddress scratchPad bus
  have some_ : bus.devices.isEmpty = false := by
    rw [← Bool.not_eq_true, List.isEmpty_iff]
    exact List.ne_nil_of_mem (find_rom found).1
  rw [some_, found] at pad
  change decide ((readScratchPad Bus.wire deviceAddress scratchPad bus).2.1.get 0 ≠ 0) = _
  rw [pad, ← get_padOf d (by decide)]
  rfl

/-- What the device with this address does alone. -/
def startedAt (deviceAddress : Address) (bus : Bus) : Bus :=
  bus.update (inPlace deviceAddress Device.startConversion) (inPlace_rom fun _ => rfl)

theorem command_starts (deviceAddress : Address) {bus line : Bus}
    (same : settled line = settled bus) :
    settled (addressed deviceAddress (Device.obey 0x44) (Device.obey_rom 0x44) line) =
      settled (startedAt deviceAddress bus) := by
  have started : settled (addressed deviceAddress (Device.obey 0x44) (Device.obey_rom 0x44) line) =
      settled (startedAt deviceAddress line) := by
    rw [settled_addressed, startedAt, settled, Bus.update_update]
    refine Bus.update_congr line fun d _ => ?_
    unfold inPlace
    split_ifs <;> rfl
  rw [started, startedAt, startedAt]
  exact settled_update_congr same _ (inPlace_forgets fun _ => rfl)

/-- What comes of a request for one device. -/
inductive RequestCases (deviceAddress : Address) (poll : Poll) (s : Sensors) (bus : Bus) :
    Bool × Bus → Prop where
  | refused (line : Bus) (same : settled line = settled bus)
      (nobody : (getResolution Bus.wire deviceAddress bus).1 = 0 ∨ bus.devices = []) :
      RequestCases deviceAddress poll s bus (false, line)
  | started (line : Bus) (same : settled line = settled (startedAt deviceAddress bus))
      (read : (getResolution Bus.wire deviceAddress bus).1 ≠ 0) :
      RequestCases deviceAddress poll s bus (true,
        if s.waitForConversion then
          (blockTillConversionComplete Bus.wire (getResolution Bus.wire deviceAddress bus).1
            (some (deviceAddress, poll)) s line).2
        else line)

theorem requestTemperaturesByAddress_cases (deviceAddress : Address) (poll : Poll) (s : Sensors)
    (bus : Bus) :
    RequestCases deviceAddress poll s bus
      (requestTemperaturesByAddress Bus.wire deviceAddress poll s bus) := by
  have unchanged := (getResolution_eq deviceAddress bus).2
  unfold requestTemperaturesByAddress
  by_cases unread : (getResolution Bus.wire deviceAddress bus).1 = 0
  · rw [if_pos unread]
    exact .refused _ unchanged (.inl unread)
  · rw [if_neg unread]
    cases present : (Bus.wire.reset (getResolution Bus.wire deviceAddress bus).2).1 with
    | false =>
      simp only [present]
      refine .refused _ ((settled_enter _ _).trans unchanged) (.inr ?_)
      rw [reset_congr unchanged, reset_eq, Bool.not_eq_false'] at present
      exact List.isEmpty_iff.mp present
    | true =>
      simp only [present, if_true, command_eq]
      have started := command_starts deviceAddress unchanged
      have cases_ : RequestCases deviceAddress poll s bus _ := .started _ started unread
      split_ifs at cases_ ⊢
      · exact cases_
      · exact cases_

section Keeps
variable (Kept : Bus → Prop) {deviceAddress : Address} {poll : Poll} {s : Sensors}
  (settles : ∀ {bus other : Bus}, settled other = settled bus → Kept bus → Kept other)
  (delays : ∀ ms {bus : Bus}, Kept bus → Kept (Bus.wire.delay ms bus))
include settles delays

theorem pollLoop_keeps (delms fuel elapsed : ℕ) {bus : Bus} (kept : Kept bus) :
    Kept (pollLoop Bus.wire deviceAddress delms poll fuel elapsed bus).2 := by
  induction fuel generalizing elapsed bus with
  | zero => exact kept
  | succ fuel ih =>
    have asked := settles (isConversionAvailable_settled deviceAddress poll.scratchPad bus) kept
    have waited := delays poll.look asked
    rw [pollLoop]
    split_ifs
    · exact ih _ waited
    · exact waited

theorem blockTill_keeps (bitResolution : Byte) (asked : Option (Address × Poll)) {bus : Bus}
    (kept : Kept bus) :
    Kept (blockTillConversionComplete Bus.wire bitResolution asked s bus).2 := by
  unfold blockTillConversionComplete
  cases asked with
  | none => exact delays _ kept
  | some polled =>
    dsimp only
    split_ifs
    · exact pollLoop_keeps Kept settles delays _ _ _ kept
    · exact delays _ kept

/-- What is kept by a start at the address, by time and whatever is said on the line. -/
theorem request_keeps (starts : ∀ {bus : Bus}, Kept bus → Kept (startedAt deviceAddress bus))
    {bus : Bus} (kept : Kept bus) :
    Kept (requestTemperaturesByAddress Bus.wire deviceAddress poll s bus).2 := by
  have cases_ := requestTemperaturesByAddress_cases deviceAddress poll s bus
  generalize requestTemperaturesByAddress Bus.wire deviceAddress poll s bus = result at cases_ ⊢
  cases cases_ with
  | refused line same => exact settles same kept
  | started line same =>
    have begun := settles same (starts kept)
    split_ifs
    · exact blockTill_keeps Kept settles delays _ _ begun
    · exact begun

end Keeps

end ArduMash.Dallas.Registers
