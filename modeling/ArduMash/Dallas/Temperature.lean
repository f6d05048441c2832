import ArduMash.Dallas.Store
import Mathlib.Tactic.Linarith
import Mathlib.Tactic.NormNum
import Mathlib.Tactic.Ring

/-!
What a reading of the temperature is worth: how the number the library returns
follows from what the device has measured, and what becomes of errors on the line.
-/

namespace ArduMash.Dallas.Temperature
open OneWire.Line OneWire.Crc OneWire.Devices OneWire.Addressing Library Registers Store
open Sketch.Hardware (deviceDisconnectedRaw deviceDisconnectedC rawToCelsius)

/-- The temperature register, in the device's own unit. -/
def register (memory : Octets 8) : ℤ := (memory.get 1 ++ memory.get 0).toInt

theorem append_shift (high low : Byte) :
    high.setWidth 16 <<< 11 ||| low.setWidth 16 <<< 3 = (high ++ low) <<< 3 := by
  have joined : (high ++ low : BitVec 16) = high.setWidth 16 <<< 8 ||| low.setWidth 16 := by
    apply BitVec.eq_of_toNat_eq
    have highByte := high.isLt
    have lowByte := low.isLt
    have fits : high.toNat <<< 8 < 2 ^ 16 := by
      rw [Nat.shiftLeft_eq]
      omega
    have highFits : high.toNat < 2 ^ 16 := by omega
    have lowFits : low.toNat < 2 ^ 16 := by omega
    rw [BitVec.toNat_append, BitVec.toNat_or, BitVec.toNat_shiftLeft, BitVec.toNat_setWidth,
      BitVec.toNat_setWidth, Nat.mod_eq_of_lt highFits, Nat.mod_eq_of_lt lowFits,
      Nat.mod_eq_of_lt fits]
  rw [joined, BitVec.shiftLeft_or_distrib, ← BitVec.shiftLeft_add]

theorem toInt_shift {x : BitVec 16} (below : -4096 ≤ x.toInt) (above : x.toInt < 4096) :
    (x <<< 3).toInt = 8 * x.toInt := by
  have bound := x.isLt
  rw [BitVec.toInt_eq_toNat_cond] at below above ⊢
  rw [BitVec.toInt_eq_toNat_cond]
  simp only [BitVec.toNat_shiftLeft, Nat.shiftLeft_eq]
  split_ifs at below above ⊢ <;> omega

theorem getTempC_eq (deviceAddress : Address) (bus : Bus) :
    (getTempC Bus.wire deviceAddress bus).1 =
      (getTemp Bus.wire deviceAddress bus).1.map rawToCelsius := rfl

/-- What the library makes of the register. A device ends at 55 degrees below zero, where the library
says that there is none. -/
def celsius (memory : Octets 8) : ℚ :=
  if register memory ≤ -880 then deviceDisconnectedC else (register memory : ℚ) / 16

/-- The register has 13 bits, the highest of them the sign. -/
structure Fits (memory : Octets 8) : Prop where
  below : -4096 ≤ register memory
  above : register memory < 4096

theorem rawToCelsius_eq {memory : Octets 8} (fits : Fits memory) :
    rawToCelsius ((memory.get 1 ++ memory.get 0) <<< 3) = celsius memory := by
  have limit : deviceDisconnectedRaw.toInt = -7040 := by decide
  have scaled : ((memory.get 1 ++ memory.get 0) <<< 3).toInt = 8 * register memory :=
    toInt_shift fits.below fits.above
  unfold rawToCelsius celsius
  rw [scaled, limit]
  by_cases cold : register memory ≤ -880
  · rw [if_pos cold, if_pos (by omega)]
  · rw [if_neg cold, if_neg (by omega)]
    push_cast
    ring

/-- The registers of a device are all that is read. -/
theorem getTemp_memory {deviceAddress : Address} {bus : Bus} {memory : Octets 8}
    (found : (find deviceAddress bus).map Device.memory = some memory)
    (family : deviceAddress.get 0 ≠ 0x10) :
    (getTemp Bus.wire deviceAddress bus).1 = some ((memory.get 1 ++ memory.get 0) <<< 3) := by
  obtain ⟨d, here, rfl⟩ := Option.map_eq_some_iff.mp found
  rw [getTemp, (lookUp_eq _ _ deviceAddress bus).1, here, Option.elim_some, calculateTemperature,
    if_neg family, get_padOf d (by decide), get_padOf d (by decide), append_shift]

theorem getTempC_memory {deviceAddress : Address} {bus : Bus} {memory : Octets 8}
    (found : (find deviceAddress bus).map Device.memory = some memory)
    (family : deviceAddress.get 0 ≠ 0x10) (fits : Fits memory) :
    (getTempC Bus.wire deviceAddress bus).1 = some (celsius memory) := by
  rw [getTempC_eq, getTemp_memory found family, Option.map_some, rawToCelsius_eq fits]

theorem getTemp_rest {deviceAddress : Address} {bus other : Bus}
    (same : (find deviceAddress bus).map atRest = (find deviceAddress other).map atRest) :
    (getTemp Bus.wire deviceAddress bus).1 = (getTemp Bus.wire deviceAddress other).1 := by
  rw [getTemp, getTemp, (lookUp_eq _ _ _ bus).1, (lookUp_eq _ _ _ other).1]
  exact find_elim_rest same _ fun _ => rfl

/-- Nobody there. -/
theorem getTempC_absent {deviceAddress : Address} {bus : Bus}
    (absent : find deviceAddress bus = none) :
    (getTempC Bus.wire deviceAddress bus).1 = some deviceDisconnectedC := by
  rw [getTempC_eq, getTemp, (lookUp_eq _ _ deviceAddress bus).1, absent]
  rfl

theorem register_converted (d : Device) : register d.converted = register d.sample := by
  rw [register, register, converted_get d (by decide), converted_get d (by decide)]
  rfl

theorem celsius_converted (d : Device) : celsius d.converted = celsius d.sample := by
  rw [celsius, celsius, register_converted]

theorem fits_converted {d : Device} (fits : Fits d.sample) : Fits d.converted := by
  refine ⟨?_, ?_⟩
  · rw [register_converted]
    exact fits.below
  · rw [register_converted]
    exact fits.above

/-! Requests for all temperatures. -/

/-- What is read after a request: what the device measures now, or what its registers held before if
the library does not wait for the conversion to end. -/
def measured (s : Sensors) (d : Device) : Octets 8 := if Finishes s d then d.sample else d.memory

theorem find_requested (s : Sensors) (deviceAddress : Address) (bus : Bus) :
    find deviceAddress (requestTemperatures Bus.wire s bus).2 =
      (find deviceAddress bus).map (requested s) := by
  rw [requestTemperatures_eq]
  exact find_update (requested_rom s)

theorem find_finished {s : Sensors} {deviceAddress : Address} {bus : Bus} {d : Device}
    (found : find deviceAddress bus = some d) (finishes : Finishes s d) :
    find deviceAddress (requestTemperatures Bus.wire s bus).2 =
      some { d.endConversion with phase := .idle } := by
  rw [find_requested, found, Option.map_some, requested_finished finishes]

theorem getTempC_finished {s : Sensors} {deviceAddress : Address} {bus : Bus} {d : Device}
    (found : find deviceAddress bus = some d) (finishes : Finishes s d)
    (family : deviceAddress.get 0 ≠ 0x10) (fits : Fits d.sample) :
    (getTempC Bus.wire deviceAddress (requestTemperatures Bus.wire s bus).2).1 =
      some (celsius d.sample) := by
  rw [← celsius_converted]
  refine getTempC_memory ?_ family (fits_converted fits)
  rw [find_finished found finishes]
  rfl

/-- The library returns the temperature in sixteenths of a degree, the one that is measured if it
waits for the device, else the last one; but at 55 degrees below zero and less, where the device
ends, it returns what stands for no device. -/
theorem tempC_measured (s : Sensors) (bus : Bus) {d : Device} (member : d ∈ bus.devices)
    (family : d.rom.get 0 ≠ 0x10) (fits : Fits (measured s d)) :
    (getTempC Bus.wire d.rom (requestTemperatures Bus.wire s bus).2).1 =
      some (celsius (measured s d)) := by
  by_cases finishes : Finishes s d
  · rw [measured, if_pos finishes] at fits ⊢
    exact getTempC_finished (find_eq member) finishes family fits
  · rw [measured, if_neg finishes] at fits ⊢
    refine getTempC_memory ?_ family fits
    rw [find_requested, find_eq member]
    exact congrArg some (requested_memory finishes)

/-- The object of the sketch waits too short for a device of 12 bits that it has not met yet. -/
theorem tempC_measured_twoProbes :
    (getTempC Bus.wire (factoryNew 1).rom
        (requestTemperatures Bus.wire setOneWire twoProbes).2).1 = some 85 ∧
      (getTempC Bus.wire (factoryNew 1).rom (requestTemperatures Bus.wire
        { setOneWire with bitResolution := 12 } twoProbes).2).1 = some (401 / 16) := by
  have old := tempC_measured setOneWire twoProbes (d := factoryNew 1) (by simp [twoProbes])
    (by decide) ⟨by decide, by decide⟩
  have new := tempC_measured { setOneWire with bitResolution := 12 } twoProbes
    (d := factoryNew 1) (by simp [twoProbes]) (by decide) ⟨by decide, by decide⟩
  have before : register (measured setOneWire (factoryNew 1)) = 1360 := by decide
  have now : register (measured { setOneWire with bitResolution := 12 } (factoryNew 1)) = 401 := by
    decide
  rw [old, new, celsius, celsius, before, now]
  norm_num

/-! The DS18S20, whose register has half degrees only. -/

theorem mask_eq (y : BitVec 16) : y &&& (0xfff0 : BitVec 16) = (y >>> 4) <<< 4 := by
  apply BitVec.eq_of_getLsbD_eq
  intro i inside
  have bits : ∀ i : ℕ, i < 16 → (0xfff0 : BitVec 16).getLsbD i = decide (4 ≤ i) := by decide
  rw [BitVec.getLsbD_and, bits i inside, BitVec.getLsbD_shiftLeft, BitVec.getLsbD_ushiftRight]
  by_cases low : i < 4
  · simp [low, Nat.not_le.mpr low]
  · have position : 4 + (i - 4) = i := by omega
    simp [low, Nat.not_lt.mp low, inside, position]

/-- `TEMP_READ` in units of 1/128 degree. -/
theorem truncated {x : BitVec 16} (below : -256 ≤ x.toInt) (above : x.toInt < 256) :
    ((x <<< 3 &&& (0xfff0 : BitVec 16)) <<< 3).toInt = 128 * (x.toInt / 2) := by
  have bound := x.isLt
  rw [mask_eq]
  rw [BitVec.toInt_eq_toNat_cond] at below above ⊢
  rw [BitVec.toInt_eq_toNat_cond]
  simp only [BitVec.toNat_shiftLeft, BitVec.toNat_ushiftRight, Nat.shiftLeft_eq,
    Nat.shiftRight_eq_div_pow]
  split_ifs at below above ⊢ <;> omega

theorem refined {z : BitVec 16} {q : ℤ} (zBelow : -16384 ≤ z.toInt) (zAbove : z.toInt < 16384)
    (qBelow : 0 ≤ q) (qAbove : q ≤ 128) :
    (z - 16 + BitVec.ofInt 16 q).toInt = z.toInt - 16 + q := by
  have bound := z.isLt
  have sixteen : (16 : BitVec 16).toNat = 16 := rfl
  rw [BitVec.toInt_eq_toNat_cond] at zBelow zAbove ⊢
  rw [BitVec.toInt_eq_toNat_cond]
  simp only [BitVec.toNat_add, BitVec.toNat_sub, BitVec.toNat_ofInt, sixteen]
  split_ifs at zBelow zAbove ⊢ <;> omega

/-- The extended resolution as the comment in the library has it, with `TEMP_READ` in degrees. -/
def documented (tempRead countPerC countRemain : ℤ) : ℚ :=
  tempRead - 0.25 + (countPerC - countRemain) / countPerC

/-- How far the counter came in units of 1/128 degree. -/
def counted (countPerC countRemain : Byte) : ℤ :=
  ((countPerC.toNat : ℤ) - countRemain.toNat) * 128 / countPerC.toNat

theorem counted_bounds {countPerC countRemain : Byte} (counts : 0 < countPerC.toNat)
    (remains : countRemain.toNat ≤ countPerC.toNat) :
    0 ≤ counted countPerC countRemain ∧ counted countPerC countRemain ≤ 128 := by
  constructor
  · exact Int.ediv_nonneg (by omega) (by omega)
  · apply Int.ediv_le_of_le_mul (by omega)
    omega

theorem calculate_half {deviceAddress : Address} (pad : ScratchPad)
    (family : deviceAddress.get 0 = 0x10) (below : -256 ≤ (pad.get 1 ++ pad.get 0).toInt)
    (above : (pad.get 1 ++ pad.get 0).toInt < 256) (counts : 0 < (pad.get 7).toNat)
    (remains : (pad.get 6).toNat ≤ (pad.get 7).toNat) :
    ∃ raw, calculateTemperature deviceAddress pad = some raw ∧
      raw.toInt = 128 * ((pad.get 1 ++ pad.get 0).toInt / 2) - 16 +
        counted (pad.get 7) (pad.get 6) := by
  have divisor : ((pad.get 7).toNat : ℤ) ≠ 0 := by omega
  have quotient : ((((pad.get 7).toNat : ℤ) - (pad.get 6).toNat) * 128).tdiv (pad.get 7).toNat =
      counted (pad.get 7) (pad.get 6) := Int.tdiv_eq_ediv_of_nonneg (by omega)
  have value : calculateTemperature deviceAddress pad =
      some (((pad.get 1 ++ pad.get 0) <<< 3 &&& (0xfff0 : BitVec 16)) <<< 3 - 16 +
        BitVec.ofInt 16 (counted (pad.get 7) (pad.get 6))) := by
    rw [calculateTemperature, if_pos family, append_shift, if_neg divisor, quotient]
  have tempRead := truncated below above
  obtain ⟨fromZero, upTo⟩ := counted_bounds counts remains
  refine ⟨_, value, ?_⟩
  rw [refined (by omega) (by omega) fromZero upTo, tempRead]

/-- The division is cut off to units of 1/128 degree. -/
theorem counted_cut {countPerC : Byte} (countRemain : Byte) (counts : 0 < countPerC.toNat) :
    (counted countPerC countRemain : ℚ) / 128 ≤
        ((countPerC.toNat : ℤ) - (countRemain.toNat : ℤ)) / (countPerC.toNat : ℤ) ∧
      (((countPerC.toNat : ℤ) - (countRemain.toNat : ℤ)) / (countPerC.toNat : ℤ) : ℚ) <
        counted countPerC countRemain / 128 + 1 / 128 := by
  have positive : (0 : ℤ) < countPerC.toNat := by omega
  have positiveRat : (0 : ℚ) < ((countPerC.toNat : ℤ) : ℚ) := by exact_mod_cast positive
  have upTo : counted countPerC countRemain * countPerC.toNat ≤
      ((countPerC.toNat : ℤ) - countRemain.toNat) * 128 := Int.ediv_mul_le _ positive.ne'
  have beyond : ((countPerC.toNat : ℤ) - countRemain.toNat) * 128 <
      (counted countPerC countRemain + 1) * countPerC.toNat :=
    Int.lt_ediv_add_one_mul_self _ positive
  have upToRat : (counted countPerC countRemain : ℚ) * (countPerC.toNat : ℤ) ≤
      ((countPerC.toNat : ℤ) - (countRemain.toNat : ℤ)) * 128 := by exact_mod_cast upTo
  have beyondRat : (((countPerC.toNat : ℤ) - (countRemain.toNat : ℤ)) * 128 : ℚ) <
      (counted countPerC countRemain + 1) * (countPerC.toNat : ℤ) := by exact_mod_cast beyond
  constructor
  · rw [div_le_div_iff₀ (by norm_num) positiveRat]
    linarith
  · rw [div_lt_iff₀ positiveRat]
    linarith

/-- The registers of a device after it has measured between -54 and 125 degrees. -/
structure InRange (memory : Octets 8) : Prop where
  below : -108 ≤ register memory
  above : register memory ≤ 250
  counts : 0 < (memory.get 7).toNat
  remains : (memory.get 6).toNat ≤ (memory.get 7).toNat

/-- A DS18S20 is read an eighth of a degree higher than the comment has it, for the code takes off
16/128 of a degree, not a quarter; but for that, to 1/128 of a degree. -/
theorem ds18s20_reads_high (bus : Bus) {d : Device} (member : d ∈ bus.devices)
    (family : d.rom.get 0 = 0x10) (range : InRange d.memory) :
    ∃ celsius, (getTempC Bus.wire d.rom bus).1 = some celsius ∧
      celsius ≤ documented (register d.memory / 2) (d.memory.get 7).toNat (d.memory.get 6).toNat +
        1 / 8 ∧
      documented (register d.memory / 2) (d.memory.get 7).toNat (d.memory.get 6).toNat + 1 / 8 <
        celsius + 1 / 128 := by
  obtain ⟨below, above, counts, remains⟩ := range
  have half := calculate_half (padOf d) family
  rw [get_padOf d (by decide), get_padOf d (by decide), get_padOf d (by decide),
    get_padOf d (by decide)] at half
  obtain ⟨raw, value, scaled⟩ := half (by rw [register] at below; omega)
    (by rw [register] at above; omega) counts remains
  have read : (getTemp Bus.wire d.rom bus).1 = some raw := by
    rw [getTemp, (lookUp_eq _ _ d.rom bus).1, find_eq member, Option.elim_some, value]
  rw [← register] at scaled
  obtain ⟨fromZero, upTo⟩ := counted_bounds counts remains
  have limit : deviceDisconnectedRaw.toInt = -7040 := by decide
  have celsius : rawToCelsius raw = (raw.toInt : ℚ) / 128 := by
    rw [rawToCelsius, if_neg (by omega)]
  obtain ⟨cut, near⟩ := counted_cut (d.memory.get 6) counts
  refine ⟨(raw.toInt : ℚ) / 128, ?_, ?_, ?_⟩
  · rw [getTempC_eq, read, Option.map_some, celsius]
  · rw [scaled, documented]
    push_cast at cut ⊢
    linarith
  · rw [scaled, documented]
    push_cast at near ⊢
    linarith

/-- At 25 degrees. -/
def oldProbe : Device where
  rom := .ofList ([0x10, 1, 0, 0, 0, 0, 0] ++ [crc8 [0x10, 1, 0, 0, 0, 0, 0]])
  memory := .ofList [0x32, 0x00, 0x4B, 0x46, 0xFF, 0xFF, 0x0C, 0x10]
  sample := .ofList [0x32, 0x00, 0x4B, 0x46, 0xFF, 0xFF, 0x0C, 0x10]
  parasite := false
  alarm := false
  conversion := none
  phase := .idle

theorem ds18s20_reads_high_oldProbe :
    ∃ celsius, (getTempC Bus.wire oldProbe.rom ⟨[oldProbe], List.nodup_singleton _⟩).1 =
        some celsius ∧
      celsius ≤ documented 25 16 12 + 1 / 8 ∧ documented 25 16 12 + 1 / 8 < celsius + 1 / 128 :=
  ds18s20_reads_high ⟨[oldProbe], List.nodup_singleton _⟩ (d := oldProbe) List.mem_cons_self
    (by decide) ⟨by decide, by decide, by decide, by decide⟩

end ArduMash.Dallas.Temperature
