import ArduMash.OneWire.Devices

/-!
Whole bytes over the line. As long as no device pulls the line low every device
hears what the master writes, and what one device alone sends is what the master
reads.
-/

namespace ArduMash.OneWire.Transfer
open Line Crc Devices

/-! Writing. -/

/-- The device lets the line go in the next `count` slots, whatever it hears in them. -/
def Quiet : ℕ → Device → Prop
  | 0, _ => True
  | count + 1, d => d.drive = true ∧ ∀ bit, Quiet count (d.hear bit)

def hearAll (heard : List Bool) (d : Device) : Device := heard.foldl (fun d bit => d.hear bit) d

@[simp] theorem hearAll_rom (heard : List Bool) (d : Device) : (hearAll heard d).rom = d.rom := by
  induction heard generalizing d with
  | nil => rfl
  | cons bit rest ih => exact (ih _).trans (Device.hear_rom bit d)

theorem hearAll_append (first rest : List Bool) (d : Device) :
    hearAll (first ++ rest) d = hearAll rest (hearAll first d) := List.foldl_append

theorem level_quiet {bus : Bus} (quiet : ∀ d ∈ bus.devices, d.drive = true) (master : Bool) :
    bus.level master = master := by
  have released : bus.devices.all Device.drive = true := List.all_eq_true.mpr quiet
  rw [Bus.level, released, Bool.and_true]

theorem writeBits_eq {sent : List Bool} {bus : Bus}
    (quiet : ∀ d ∈ bus.devices, Quiet sent.length d) :
    sent.foldl (fun bus bit => Bus.wire.writeBit bit bus) bus =
      bus.update (hearAll sent) (hearAll_rom sent) := by
  induction sent generalizing bus with
  | nil => exact Bus.ext (List.map_id _).symm
  | cons bit rest ih =>
    have released : ∀ d ∈ bus.devices, d.drive = true := fun d member => (quiet d member).1
    have step : Bus.wire.writeBit bit bus = bus.update (Device.hear bit) (Device.hear_rom bit) := by
      change (bus.slot bit).2 = _
      simp only [Bus.slot, level_quiet released]
    rw [List.foldl_cons, step, ih, Bus.update_update]
    · rfl
    · intro d member
      obtain ⟨before, inBus, same⟩ := List.mem_map.mp member
      rw [← same]
      exact (quiet before inBus).2 bit

theorem write_quiet {bus : Bus} (v : Byte) (quiet : ∀ d ∈ bus.devices, Quiet 8 d) :
    Bus.wire.write v bus = bus.update (hearAll (bits v)) (hearAll_rom _) := by
  rw [write_eq]
  exact writeBits_eq (by rwa [length_bits])

theorem writeBytes_quiet {bus : Bus} (bytes : List Byte)
    (quiet : ∀ d ∈ bus.devices, Quiet (8 * bytes.length) d) :
    Bus.wire.writeBytes bytes bus = bus.update (hearAll (stream bytes)) (hearAll_rom _) := by
  rw [writeBytes_eq]
  exact writeBits_eq (by rwa [← stream, length_stream])

/-! Who is quiet. -/

section Quiet
variable {d : Device} {count k n : ℕ} {heard : Byte}

theorem quiet_idle (phase : d.phase = .idle) : Quiet n d := by
  induction n with
  | zero => trivial
  | succ n ih =>
    have same : ∀ bit, d.hear bit = d := fun bit => by simp only [Device.hear, phase]
    exact ⟨by simp only [Device.drive, phase], fun bit => (same bit).symm ▸ ih⟩

theorem quiet_matching (phase : d.phase = .matching k) (fits : k + n ≤ 64) : Quiet n d := by
  induction n generalizing d k with
  | zero => trivial
  | succ n ih =>
    refine ⟨by simp only [Device.drive, phase], fun bit => ?_⟩
    by_cases agrees : bit = d.rom.bit k
    · by_cases last : k + 1 < 64
      · apply ih (d := d.hear bit) (k := k + 1) _ (by omega)
        simp only [Device.hear, phase, if_pos agrees, if_pos last]
      · obtain rfl : n = 0 := by omega
        trivial
    · exact quiet_idle (by simp only [Device.hear, phase, if_neg agrees])

end Quiet

/-! What is heard. -/

/-- Phases in which eight bits are collected and then acted on. -/
structure Collects (collect : ℕ → Byte → Phase) (finish : Byte → Device → Device) : Prop where
  drives : ∀ (d : Device) count heard, d.phase = collect count heard → d.drive = true
  hears : ∀ (d : Device) count heard bit, d.phase = collect count heard →
    d.hear bit =
      if count + 1 < 8 then { d with phase := collect (count + 1) (Device.shiftIn heard bit) }
      else finish (Device.shiftIn heard bit) d
  forgets : ∀ v (d : Device) phase, finish v { d with phase := phase } = finish v d

theorem collects_romCommand : Collects .romCommand Device.obeyRom where
  drives := fun d _ _ phase => by simp only [Device.drive, phase]
  hears := fun d _ _ _ phase => by simp only [Device.hear, phase]
  forgets := fun _ _ _ => rfl

theorem collects_command : Collects .command Device.obey where
  drives := fun d _ _ phase => by simp only [Device.drive, phase]
  hears := fun d _ _ _ phase => by simp only [Device.hear, phase]
  forgets := fun v d phase => by
    unfold Device.obey
    split_ifs <;> rfl

theorem collects_receiving (index : ℕ) : Collects (.receiving index) (Device.store index) where
  drives := fun d _ _ phase => by simp only [Device.drive, phase]
  hears := fun d _ _ _ phase => by simp only [Device.hear, phase]
  forgets := fun _ _ _ => rfl

section Collect
variable {collect : ℕ → Byte → Phase} {finish : Byte → Device → Device}
  (collects : Collects collect finish)
include collects

theorem Collects.quiet {d : Device} {count n : ℕ} {heard : Byte}
    (phase : d.phase = collect count heard) (fits : count + n ≤ 8) : Quiet n d := by
  induction n generalizing d count heard with
  | zero => trivial
  | succ n ih =>
    refine ⟨collects.drives d count heard phase, fun bit => ?_⟩
    by_cases last : count + 1 < 8
    · rw [collects.hears d count heard bit phase, if_pos last]
      exact ih rfl (by omega)
    · obtain rfl : n = 0 := by omega
      trivial

theorem Collects.some_bits (d : Device) {count : ℕ} (heard : Byte) (sent : List Bool)
    (fits : count + sent.length < 8) :
    hearAll sent { d with phase := collect count heard } =
      { d with phase := collect (count + sent.length) (sent.foldl Device.shiftIn heard) } := by
  induction sent generalizing count heard with
  | nil => rfl
  | cons bit rest ih =>
    simp only [List.length_cons] at fits
    have step := collects.hears { d with phase := collect count heard } count heard bit rfl
    rw [if_pos (by omega)] at step
    rw [hearAll, List.foldl_cons, step]
    have inside : count + 1 + rest.length < 8 := by omega
    have more := ih (Device.shiftIn heard bit) inside
    rw [List.length_cons, ← Nat.add_assoc, Nat.add_right_comm, List.foldl_cons]
    exact more

theorem Collects.byte (v : Byte) (d : Device) :
    hearAll (bits v) { d with phase := collect 0 0 } = finish v d := by
  have shifted : (bits v).foldl Device.shiftIn 0 = v := by
    revert v
    decide
  have split : bits v = (bits v).take 7 ++ [v.getLsbD 7] := rfl
  have seven : 0 + ((bits v).take 7).length = 7 := by simp [length_bits]
  have first := collects.some_bits d 0 ((bits v).take 7) (by rw [seven]; decide)
  rw [seven] at first
  rw [split, hearAll_append, first]
  have last := collects.hears
    { d with phase := collect 7 (((bits v).take 7).foldl Device.shiftIn 0) } 7 _ (v.getLsbD 7) rfl
  rw [if_neg (by decide), collects.forgets] at last
  rw [hearAll, List.foldl_cons, List.foldl_nil]
  refine last.trans ?_
  rw [split, List.foldl_append] at shifted
  exact congrArg (fun byte => finish byte d) shifted

end Collect

theorem stream_address (rom : Address) : stream rom.toList = (List.range 64).map rom.bit := rfl

/-- A device that is not the one looked for drops out. -/
theorem hear_matching (rom : Address) (d : Device) :
    hearAll (stream rom.toList) { d with phase := .matching 0 } =
      { d with phase := if d.rom = rom then .command 0 0 else .idle } := by
  have prefixes : ∀ m ≤ 64, hearAll ((List.range m).map rom.bit) { d with phase := .matching 0 } =
      { d with
        phase :=
          if ∀ i < m, rom.bit i = d.rom.bit i then (if m < 64 then .matching m else .command 0 0)
          else .idle } := by
    intro m
    induction m with
    | zero => simp [hearAll]
    | succ m ih =>
      intro upTo
      rw [List.range_succ, List.map_append, hearAll_append, ih (Nat.le_of_succ_le upTo)]
      change Device.hear (rom.bit m) _ = _
      by_cases before : ∀ i < m, rom.bit i = d.rom.bit i
      · rw [if_pos before, if_pos (show m < 64 by omega)]
        have grown : (∀ i < m + 1, rom.bit i = d.rom.bit i) ↔ rom.bit m = d.rom.bit m := by
          rw [Nat.forall_lt_succ_right]
          exact and_iff_right before
        simp only [Device.hear, grown]
      · rw [if_neg before, if_neg (fun all => before fun i less => all i (Nat.lt_succ_of_lt less))]
        rfl
  rw [stream_address, prefixes 64 (Nat.le_refl _)]
  congr 1
  have same : (∀ i < 64, rom.bit i = d.rom.bit i) ↔ d.rom = rom := by
    constructor
    · exact fun all => Octets.eq_of_bit fun k inside => (all k inside).symm
    · rintro rfl
      exact fun _ _ => rfl
  simp only [same, Nat.lt_irrefl, if_false]

end ArduMash.OneWire.Transfer
