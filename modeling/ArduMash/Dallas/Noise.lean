import ArduMash.Dallas.Temperature

/-!
Bits that turn over on their way to the master. The check sum of the scratch pad
finds out all slight errors, and such a reading counts as no device.
-/

namespace ArduMash.Dallas.Noise
open OneWire.Line OneWire.Crc OneWire.Devices OneWire.Addressing Library Registers Temperature
open Sketch.Hardware (deviceDisconnectedRaw rawToCelsius)

/-- The bits that the master reads turn over where `wrong` says so. -/
def noisy {σ : Type} (wire : Wire σ) : Wire (σ × List Bool) where
  reset := fun line => ((wire.reset line.1).1, (wire.reset line.1).2, line.2)
  writeBit := fun bit line => (wire.writeBit bit line.1, line.2)
  readBit := fun line =>
    ((wire.readBit line.1).1 ^^ line.2.headD false, (wire.readBit line.1).2, line.2.tail)
  delay := fun ms line => (wire.delay ms line.1, line.2)

section Wire
variable {σ : Type} (wire : Wire σ)

theorem noisy_write (v : Byte) (bus : σ) (wrong : List Bool) :
    (noisy wire).write v (bus, wrong) = (wire.write v bus, wrong) := by
  have bitwise : ∀ (sent : List Bool) (bus : σ),
      sent.foldl (fun line bit => (noisy wire).writeBit bit line) (bus, wrong) =
        (sent.foldl (fun bus bit => wire.writeBit bit bus) bus, wrong) := by
    intro sent
    induction sent with
    | nil => exact fun _ => rfl
    | cons bit rest ih => exact fun bus => ih _
  rw [write_eq, write_eq, bitwise]

theorem noisy_select (rom : Address) (bus : σ) (wrong : List Bool) :
    (noisy wire).select rom (bus, wrong) = (wire.select rom bus, wrong) := by
  have bytewise : ∀ (bytes : List Byte) (bus : σ),
      (noisy wire).writeBytes bytes (bus, wrong) = (wire.writeBytes bytes bus, wrong) := by
    intro bytes
    induction bytes with
    | nil => exact fun _ => rfl
    | cons v rest ih =>
      intro bus
      rw [Wire.writeBytes, List.foldl_cons, noisy_write]
      exact ih _
  rw [Wire.select, noisy_write, bytewise, Wire.select]

theorem noisy_readBits (count : ℕ) (bus : σ) (wrong : List Bool) (enough : count ≤ wrong.length) :
    (readBits (noisy wire) count (bus, wrong)).1 =
      List.zipWith (· ^^ ·) (readBits wire count bus).1 wrong := by
  induction count generalizing bus wrong with
  | zero => rfl
  | succ count ih =>
    cases wrong with
    | nil => exact absurd enough (Nat.not_succ_le_zero count)
    | cons turned rest =>
      have later := ih (wire.readBit bus).2 rest (Nat.le_of_succ_le_succ enough)
      rw [readBits, readBits, List.zipWith_cons_cons, ← later]
      rfl

theorem bits_ofBits {arrived : List Bool} (eight : arrived.length = 8) :
    bits (ofBits arrived) = arrived := by
  have all : ∀ b0 b1 b2 b3 b4 b5 b6 b7 : Bool,
      bits (ofBits [b0, b1, b2, b3, b4, b5, b6, b7]) = [b0, b1, b2, b3, b4, b5, b6, b7] := by
    decide
  match arrived, eight with
  | [b0, b1, b2, b3, b4, b5, b6, b7], _ => exact all b0 b1 b2 b3 b4 b5 b6 b7

theorem length_readBits (count : ℕ) (bus : σ) : (readBits wire count bus).1.length = count := by
  induction count generalizing bus with
  | zero => rfl
  | succ count ih => exact congrArg (· + 1) (ih _)

theorem readBits_add (first rest : ℕ) (bus : σ) :
    readBits wire (first + rest) bus =
      ((readBits wire first bus).1 ++ (readBits wire rest (readBits wire first bus).2).1,
        (readBits wire rest (readBits wire first bus).2).2) := by
  induction first generalizing bus with
  | zero => rw [Nat.zero_add]; rfl
  | succ first ih =>
    rw [Nat.add_right_comm, readBits, ih, readBits]
    rfl

/-- The bits of the bytes that are read are the bits that are read. -/
theorem stream_readBytes (count : ℕ) (bus : σ) :
    stream (wire.readBytes count bus).1 = (readBits wire (8 * count) bus).1 := by
  induction count generalizing bus with
  | zero => rfl
  | succ count ih =>
    have grown : 8 * (count + 1) = 8 + 8 * count := by omega
    rw [Wire.readBytes, stream_cons, read_eq, ih, bits_ofBits (length_readBits wire 8 bus), grown,
      readBits_add]

theorem length_readBytes (count : ℕ) (bus : σ) : (wire.readBytes count bus).1.length = count := by
  induction count generalizing bus with
  | zero => rfl
  | succ count ih => exact congrArg (· + 1) (ih _)

end Wire

theorem xor_back (sent wrong : List Bool) (same : wrong.length = sent.length) :
    List.zipWith (· ^^ ·) sent (List.zipWith (· ^^ ·) sent wrong) = wrong := by
  induction sent generalizing wrong with
  | nil => exact (List.eq_nil_of_length_eq_zero same).symm
  | cons bit rest ih =>
    cases wrong with
    | nil => exact absurd same (Nat.succ_ne_zero _).symm
    | cons turned more =>
      simp only [List.zipWith_cons_cons, ih more (Nat.succ.inj same), Bool.bne_self_left]

theorem toList_ofList {n : ℕ} {bytes : List Byte} (same : bytes.length = n) :
    (Octets.ofList bytes : Octets n).toList = bytes := by
  apply List.ext_getElem
  · rw [Octets.toList, List.length_ofFn, same]
  · intro i _ inside
    simp only [Octets.toList, List.getElem_ofFn]
    exact List.getD_eq_getElem bytes 0 inside

theorem checked_iff {bytes : List Byte} (nine : bytes.length = 9) :
    crc8 ((Octets.ofList bytes : ScratchPad).toList.take 8) =
        (Octets.ofList bytes : ScratchPad).get 8 ↔ crc8 bytes = 0 := by
  have sum : (Octets.ofList bytes : ScratchPad).get 8 = bytes.getD 8 0 := rfl
  have parts : bytes.take 8 ++ [bytes.getD 8 0] = bytes := by
    rw [List.getD_eq_getElem bytes 0 (by omega), List.take_append_getElem]
    exact List.take_of_length_le (Nat.le_of_eq nine)
  rw [toList_ofList nine, sum, ← crc8_append, parts]

/-- Bytes that do not end in their check sum are no scratch pad. -/
theorem isConnected_unchecked {σ : Type} (wire : Wire σ) {deviceAddress : Address} {bus : σ}
    (unchecked : crc8 (wire.readBytes 9 (wire.write 0xBE (wire.select deviceAddress
      (wire.reset bus).2))).1 ≠ 0) :
    (isConnected wire deviceAddress bus).1 = none := by
  have fails : ¬crc8 ((Octets.ofList (wire.readBytes 9 (wire.write 0xBE (wire.select deviceAddress
      (wire.reset bus).2))).1 : ScratchPad).toList.take 8) =
      (Octets.ofList (wire.readBytes 9 (wire.write 0xBE (wire.select deviceAddress
      (wire.reset bus).2))).1 : ScratchPad).get 8 :=
    fun checks => unchecked ((checked_iff (length_readBytes wire 9 _)).mp checks)
  cases present : (wire.reset bus).1 with
  | true =>
    simp only [isConnected, readScratchPad, present, if_true]
    exact if_neg fun both => fails both.2
  | false =>
    simp only [isConnected, readScratchPad, present]
    exact if_neg fun both => Bool.false_ne_true both.1

/-- Slight errors in the nine bytes a device sends do not get through. -/
theorem tempC_noisy {bus : Bus} {d : Device} (member : d ∈ bus.devices) {wrong : List Bool}
    (all : wrong.length = 72) (slight : Slight wrong) :
    (getTempC (noisy Bus.wire) d.rom (bus, wrong)).1 = some (-127) := by
  have refused : (isConnected (noisy Bus.wire) d.rom (bus, wrong)).1 = none := by
    apply isConnected_unchecked
    change crc8 ((noisy Bus.wire).readBytes 9 ((noisy Bus.wire).write 0xBE
      ((noisy Bus.wire).select d.rom ((Bus.wire.reset bus).2, wrong)))).1 ≠ 0
    rw [noisy_select, noisy_write, command_eq]
    obtain ⟨sent, _⟩ := read_pad d.rom bus
    rw [find_eq member, Option.map_some, Option.getD_some] at sent
    have streamed := stream_readBytes Bus.wire 9
      (addressed d.rom (Device.obey 0xBE) (Device.obey_rom 0xBE) bus)
    rw [sent] at streamed
    have received := stream_readBytes (noisy Bus.wire) 9
      (addressed d.rom (Device.obey 0xBE) (Device.obey_rom 0xBE) bus, wrong)
    rw [noisy_readBits Bus.wire _ _ _ (Nat.le_of_eq all.symm), ← streamed] at received
    refine slight_seen (show crc8 d.scratchPad = 0 from ?_) ?_ ?_ ?_
    · exact (crc8_append _ _).mpr rfl
    · exact length_readBytes _ 9 _
    · exact (by decide : 9 ≤ 15)
    · rw [difference, received, xor_back]
      · exact slight
      · rw [length_stream, all]
        rfl
  have disconnected : (getTempC (noisy Bus.wire) d.rom (bus, wrong)).1 =
      ((isConnected (noisy Bus.wire) d.rom (bus, wrong)).1.elim (some deviceDisconnectedRaw)
        (calculateTemperature d.rom)).map rawToCelsius := rfl
  rw [disconnected, refused]
  rfl

theorem tempC_noisy_twoProbes :
    (getTempC (noisy Bus.wire) (factoryNew 1).rom
      (twoProbes, List.replicate 5 false ++ true :: List.replicate 66 false)).1 = some (-127) :=
  tempC_noisy (d := factoryNew 1) List.mem_cons_self (by decide) (.odd (by decide))

end ArduMash.Dallas.Noise
