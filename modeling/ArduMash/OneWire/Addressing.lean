import ArduMash.OneWire.Transfer

/-!
A reset and a ROM command settle which devices take part in what follows: the one
whose ROM code was sent, or all of them. What is left of a device when the next
reset comes is everything but its phase.
-/

namespace ArduMash.OneWire.Addressing
open Line Crc Devices Transfer

def atRest (d : Device) : Device := { d with phase := .idle }

theorem atRest_rom (d : Device) : (atRest d).rom = d.rom := rfl

/-- The bus but for the phases of its devices. -/
def settled (bus : Bus) : Bus := bus.update atRest atRest_rom

def enter (phase : Device → Phase) (bus : Bus) : Bus :=
  bus.update (fun d => { d with phase := phase d }) fun _ => rfl

theorem reset_eq (bus : Bus) :
    Bus.wire.reset bus = (!bus.devices.isEmpty, enter (fun _ => .romCommand 0 0) bus) := rfl

@[simp] theorem settled_enter (phase : Device → Phase) (bus : Bus) :
    settled (enter phase bus) = settled bus :=
  bus.update_update _ _

theorem enter_settled (phase : Phase) (bus : Bus) :
    enter (fun _ => phase) (settled bus) = enter (fun _ => phase) bus :=
  bus.update_update _ _

/-- A reset tells nothing of the phases before it. -/
theorem reset_congr {bus other : Bus} (same : settled bus = settled other) :
    Bus.wire.reset bus = Bus.wire.reset other := by
  have size : ∀ bus : Bus, bus.devices.isEmpty = (settled bus).devices.isEmpty := fun bus => by
    simp only [settled, Bus.update, List.isEmpty_map]
  rw [reset_eq, reset_eq, ← enter_settled, same, enter_settled, size bus, same, ← size other]

theorem update_settled (bus : Bus) {f : Device → Device} (keeps : ∀ d, (f d).rom = d.rom)
    (forgets : ∀ d, atRest (f (atRest d)) = atRest (f d)) :
    settled ((settled bus).update f keeps) = settled (bus.update f keeps) := by
  rw [settled, settled, settled, Bus.update_update, Bus.update_update, Bus.update_update]
  exact Bus.update_congr _ fun d _ => forgets d

/-! Writing to the devices that take part. -/

/-- `act` on the device with this ROM code, and the others out of the way. -/
def only (rom : Address) (act : Device → Device) (d : Device) : Device :=
  if d.rom = rom then act d else atRest d

theorem only_rom {rom : Address} {act : Device → Device} (keeps : ∀ d, (act d).rom = d.rom)
    (d : Device) : (only rom act d).rom = d.rom := by
  unfold only
  split_ifs
  · exact keeps d
  · rfl

def addressed (rom : Address) (act : Device → Device) (keeps : ∀ d, (act d).rom = d.rom)
    (bus : Bus) : Bus :=
  bus.update (only rom act) (only_rom keeps)

theorem addressed_congr {rom : Address} {first second : Device → Device}
    {keepsFirst : ∀ d, (first d).rom = d.rom} {keepsSecond : ∀ d, (second d).rom = d.rom}
    (bus : Bus) (same : ∀ d, d.rom = rom → first d = second d) :
    addressed rom first keepsFirst bus = addressed rom second keepsSecond bus := by
  apply Bus.update_congr
  intro d _
  unfold only
  split_ifs with here
  · exact same d here
  · rfl

@[simp] theorem settled_addressed {rom : Address} {act : Device → Device}
    {keeps : ∀ d, (act d).rom = d.rom} (bus : Bus) :
    settled (addressed rom act keeps bus) =
      bus.update (fun d => if d.rom = rom then atRest (act d) else atRest d)
        (fun d => by split_ifs; exacts [keeps d, rfl]) := by
  rw [settled, addressed, Bus.update_update]
  apply Bus.update_congr
  intro d _
  unfold only
  split_ifs <;> rfl

theorem write_all {collect : ℕ → Byte → Phase} {finish : Byte → Device → Device}
    (collects : Collects collect finish) (keeps : ∀ v d, (finish v d).rom = d.rom) (v : Byte)
    (bus : Bus) :
    Bus.wire.write v (enter (fun _ => collect 0 0) bus) = bus.update (finish v) (keeps v) := by
  rw [write_quiet, enter, Bus.update_update]
  · exact Bus.update_congr _ fun d _ => collects.byte v d
  · intro d member
    obtain ⟨before, _, rfl⟩ := List.mem_map.mp member
    exact collects.quiet rfl (Nat.le_refl 8)

/-- Only the addressed device acts on a byte. -/
theorem write_addressed {collect : ℕ → Byte → Phase} {finish : Byte → Device → Device}
    (collects : Collects collect finish) (keeps : ∀ v d, (finish v d).rom = d.rom) (rom : Address)
    {act : Device → Device} (keepsAct : ∀ d, (act d).rom = d.rom)
    (ready : ∀ d, d.rom = rom → (act d).phase = collect 0 0) (v : Byte) (bus : Bus) :
    Bus.wire.write v (addressed rom act keepsAct bus) =
      addressed rom (fun d => finish v (act d)) (fun d => (keeps v _).trans (keepsAct d)) bus := by
  rw [write_quiet, addressed, Bus.update_update]
  · apply Bus.update_congr
    intro d _
    unfold only
    split_ifs with here
    · have same : act d = { act d with phase := collect 0 0 } := by rw [← ready d here]
      rw [same, collects.byte, collects.forgets]
    · have silent : ∀ heard, hearAll heard (atRest d) = atRest d := by
        intro heard
        induction heard with
        | nil => rfl
        | cons bit rest ih => exact ih
      exact silent _
  · intro d member
    obtain ⟨before, _, rfl⟩ := List.mem_map.mp member
    unfold only
    split_ifs with here
    · exact collects.quiet (ready before here) (Nat.le_refl 8)
    · exact quiet_idle rfl

theorem select_reset (rom : Address) (bus : Bus) :
    Bus.wire.select rom (Bus.wire.reset bus).2 =
      addressed rom (fun d => { d with phase := .command 0 0 }) (fun _ => rfl) bus := by
  rw [reset_eq, Wire.select, write_all collects_romCommand Device.obeyRom_rom, writeBytes_quiet,
    Bus.update_update]
  · apply Bus.update_congr
    intro d _
    refine (hear_matching rom d).trans ?_
    unfold only
    split_ifs <;> rfl
  · intro d member
    obtain ⟨before, _, rfl⟩ := List.mem_map.mp member
    exact quiet_matching rfl (Nat.le_refl 64)

/-- A function command for one device. -/
theorem command_eq (rom : Address) (v : Byte) (bus : Bus) :
    Bus.wire.write v (Bus.wire.select rom (Bus.wire.reset bus).2) =
      addressed rom (Device.obey v) (Device.obey_rom v) bus := by
  rw [select_reset, write_addressed collects_command Device.obey_rom rom _ fun _ _ => rfl]
  exact addressed_congr bus fun d _ => collects_command.forgets v d _

/-- A function command for all of them. -/
theorem command_all (v : Byte) (bus : Bus) :
    Bus.wire.write v (Bus.wire.skip (Bus.wire.reset bus).2) =
      bus.update (Device.obey v) (Device.obey_rom v) := by
  have ready : Bus.wire.skip (Bus.wire.reset bus).2 = enter (fun _ => .command 0 0) bus := by
    rw [reset_eq, Wire.skip]
    exact write_all collects_romCommand Device.obeyRom_rom 0xCC bus
  rw [ready]
  exact write_all collects_command Device.obey_rom v bus

/-- Devices that wait for a reset hear nothing. -/
theorem write_idle {bus : Bus} (idle : ∀ d ∈ bus.devices, d.phase = .idle) (v : Byte) :
    Bus.wire.write v bus = bus := by
  rw [write_quiet v fun d member => quiet_idle (idle d member)]
  refine Bus.ext ((List.map_congr_left fun d member => ?_).trans (List.map_id _))
  have silent : ∀ heard, hearAll heard d = d := by
    intro heard
    induction heard with
    | nil => rfl
    | cons bit rest ih =>
      have same : d.hear bit = d := by simp only [Device.hear, idle d member]
      rw [hearAll, List.foldl_cons, same]
      exact ih
  exact silent _

theorem select_idle {bus : Bus} (idle : ∀ d ∈ bus.devices, d.phase = .idle) (rom : Address) :
    Bus.wire.select rom bus = bus := by
  have bytes : ∀ bytes : List Byte, Bus.wire.writeBytes bytes bus = bus := by
    intro bytes
    induction bytes with
    | nil => rfl
    | cons v rest ih =>
      rw [Wire.writeBytes, List.foldl_cons, write_idle idle]
      exact ih
  rw [Wire.select, write_idle idle, bytes]

/-! Reading. -/

/-- What the device still has to send. -/
def said (d : Device) : List Bool :=
  match d.phase with
  | .sending rest => rest
  | _ => []

/-- What the device does in the next slot is let the line go or send. -/
def Speaks (d : Device) : Prop := d.phase = .idle ∨ d.phase = .sending (said d)

theorem drive_said {d : Device} (speaks : Speaks d) : d.drive = ((said d)[0]?).getD true := by
  rcases speaks with idle | sending
  · simp only [Device.drive, said, idle]
    rfl
  · unfold Device.drive
    rw [sending]
    cases said d <;> rfl

theorem hear_said {d : Device} (speaks : Speaks d) (bit : Bool) :
    said (d.hear bit) = (said d).tail ∧ Speaks (d.hear bit) ∧ atRest (d.hear bit) = atRest d := by
  rcases speaks with idle | sending
  · have same : d.hear bit = d := by simp only [Device.hear, idle]
    have silent : said d = [] := by simp only [said, idle]
    rw [same, silent]
    exact ⟨rfl, .inl idle, rfl⟩
  · have same : d.hear bit = { d with phase := .sending (said d).tail } := by
      unfold Device.hear
      rw [sending]
    rw [same]
    exact ⟨rfl, .inr rfl, rfl⟩

/-- Nothing but these words is on the line, which is high when they end. -/
structure Carries (bus : Bus) (words : List Bool) : Prop where
  speaks : ∀ d ∈ bus.devices, Speaks d
  level : ∀ i : ℕ, (bus.devices.all fun d => ((said d)[i]?).getD true) = (words[i]?).getD true

theorem all_congr_mem {α : Type} {l : List α} {p q : α → Bool} (same : ∀ x ∈ l, p x = q x) :
    l.all p = l.all q := by
  rw [Bool.eq_iff_iff, List.all_eq_true, List.all_eq_true]
  exact forall₂_congr fun x member => by rw [same x member]

section Carries
variable {bus : Bus} {words : List Bool}

theorem Carries.slot (carries : Carries bus words) :
    (Bus.wire.readBit bus).1 = (words[0]?).getD true ∧
      Carries (Bus.wire.readBit bus).2 words.tail ∧
      settled (Bus.wire.readBit bus).2 = settled bus := by
  refine ⟨?_, ⟨?_, ?_⟩, ?_⟩
  · change (true && bus.devices.all Device.drive) = _
    rw [Bool.true_and, ← carries.level 0]
    exact all_congr_mem fun d member => drive_said (carries.speaks d member)
  · intro d member
    obtain ⟨before, inBus, rfl⟩ := List.mem_map.mp member
    exact (hear_said (carries.speaks before inBus) _).2.1
  · intro i
    rw [List.getElem?_tail, ← carries.level (i + 1)]
    change (bus.devices.map _).all _ = _
    rw [List.all_map]
    apply all_congr_mem
    intro d member
    rw [Function.comp_apply, (hear_said (carries.speaks d member) _).1, List.getElem?_tail]
  · change settled (bus.update (Device.hear (bus.level true)) (Device.hear_rom _)) = _
    rw [settled, Bus.update_update]
    exact Bus.update_congr _ fun d member => (hear_said (carries.speaks d member) _).2.2

theorem Carries.slots (carries : Carries bus words) (count : ℕ) :
    (readBits Bus.wire count bus).1 =
        (List.range count).map (fun i => (words[i]?).getD true) ∧
      Carries (readBits Bus.wire count bus).2 (words.drop count) ∧
      settled (readBits Bus.wire count bus).2 = settled bus := by
  induction count generalizing bus words with
  | zero => exact ⟨rfl, carries, rfl⟩
  | succ count ih =>
    obtain ⟨first, next, unchanged⟩ := carries.slot
    obtain ⟨rest, last, same⟩ := ih next
    refine ⟨?_, ?_, same.trans unchanged⟩
    · rw [readBits, first, rest, List.range_succ_eq_map, List.map_cons, List.map_map]
      simp only [List.getElem?_tail, Function.comp_def, Nat.succ_eq_add_one]
    · rw [List.drop_tail] at last
      exact last

theorem Carries.nextByte {v : Byte} (carries : Carries bus (bits v ++ words)) :
    (Bus.wire.read bus).1 = v ∧ Carries (Bus.wire.read bus).2 words ∧
      settled (Bus.wire.read bus).2 = settled bus := by
  obtain ⟨first, next, unchanged⟩ := carries.slots 8
  rw [read_eq]
  refine ⟨?_, ?_, unchanged⟩
  · have sent : (List.range 8).map (fun i => ((bits v ++ words)[i]?).getD true) = bits v := rfl
    rw [first, sent, ofBits_bits]
  · exact next

/-- The bytes are read as they were sent. -/
theorem Carries.allBytes {bytes : List Byte} (carries : Carries bus (stream bytes)) :
    (Bus.wire.readBytes bytes.length bus).1 = bytes ∧
      settled (Bus.wire.readBytes bytes.length bus).2 = settled bus := by
  induction bytes generalizing bus with
  | nil => exact ⟨rfl, rfl⟩
  | cons v rest ih =>
    rw [stream_cons] at carries
    obtain ⟨first, next, unchanged⟩ := carries.nextByte
    obtain ⟨later, same⟩ := ih next
    rw [List.length_cons, Wire.readBytes, first, later]
    exact ⟨rfl, same.trans unchanged⟩

/-- Nobody sends. -/
theorem Carries.silence (carries : Carries bus []) (count : ℕ) :
    (Bus.wire.readBytes count bus).1 = List.replicate count 0xFF ∧
      settled (Bus.wire.readBytes count bus).2 = settled bus := by
  induction count generalizing bus with
  | zero => exact ⟨rfl, rfl⟩
  | succ count ih =>
    obtain ⟨first, next, unchanged⟩ := carries.slots 8
    obtain ⟨later, same⟩ := @ih (Bus.wire.read bus).2 next
    have high : (Bus.wire.read bus).1 = 0xFF := by
      change ofBits (readBits Bus.wire 8 bus).1 = _
      rw [first]
      decide
    rw [Wire.readBytes, high, later]
    exact ⟨rfl, same.trans unchanged⟩

end Carries

/-! Who answers to a ROM code. -/

def find (rom : Address) (bus : Bus) : Option Device := bus.devices.find? fun d => d.rom = rom

theorem find_rom {rom : Address} {bus : Bus} {d : Device} (found : find rom bus = some d) :
    d ∈ bus.devices ∧ d.rom = rom :=
  ⟨List.mem_of_find?_eq_some found, by simpa using List.find?_some found⟩

theorem find_eq {bus : Bus} {d : Device} (member : d ∈ bus.devices) :
    find d.rom bus = some d := by
  cases found : find d.rom bus with
  | none =>
    have other := List.find?_eq_none.mp found d member
    simp at other
  | some other =>
    obtain ⟨inBus, same⟩ := find_rom found
    rw [List.inj_on_of_nodup_map bus.distinct inBus member same]

theorem find_none {rom : Address} {bus : Bus} :
    find rom bus = none ↔ ∀ d ∈ bus.devices, d.rom ≠ rom := by
  simp [find, List.find?_eq_none]

theorem find_update {rom : Address} {bus : Bus} {f : Device → Device}
    (keeps : ∀ d, (f d).rom = d.rom) : find rom (bus.update f keeps) = (find rom bus).map f := by
  simp only [find, Bus.update, List.find?_map, Function.comp_def, keeps]

theorem find_settled (rom : Address) (bus : Bus) :
    find rom (settled bus) = (find rom bus).map atRest := find_update atRest_rom

/-- What does not depend on the phase of a device is the same on lines that differ in phases. -/
theorem find_elim_rest {rom : Address} {bus other : Bus}
    (same : (find rom bus).map atRest = (find rom other).map atRest) {α : Type} (otherwise : α)
    {f : Device → α} (forgets : ∀ d, f (atRest d) = f d) :
    (find rom bus).elim otherwise f = (find rom other).elim otherwise f := by
  have resting : ∀ found : Option Device, found.elim otherwise f =
      (found.map atRest).elim otherwise f := by
    intro found
    cases found with
    | none => rfl
    | some d => exact (forgets d).symm
  rw [resting, same, ← resting]

theorem find_elim_congr {bus other : Bus} (same : settled bus = settled other) (rom : Address)
    {α : Type} (otherwise : α) {f : Device → α} (forgets : ∀ d, f (atRest d) = f d) :
    (find rom bus).elim otherwise f = (find rom other).elim otherwise f := by
  refine find_elim_rest ?_ otherwise forgets
  rw [← find_settled, same, find_settled]

/-- After a command the addressed device alone has the line. -/
theorem carries_addressed {rom : Address} {act : Device → Device}
    (keeps : ∀ d, (act d).rom = d.rom) (speaks : ∀ d, Speaks (act d)) (bus : Bus) :
    Carries (addressed rom act keeps bus)
      (((find rom bus).map fun d => said (act d)).getD []) := by
  have devices : (addressed rom act keeps bus).devices = bus.devices.map (only rom act) := rfl
  refine ⟨?_, fun i => ?_⟩
  · intro d member
    rw [devices] at member
    obtain ⟨before, _, rfl⟩ := List.mem_map.mp member
    unfold only
    split_ifs
    · exact speaks before
    · exact .inl rfl
  · rw [devices, List.all_map, Bool.eq_iff_iff, List.all_eq_true]
    have others : ∀ d, d.rom ≠ rom → ((said (only rom act d))[i]?).getD true = true := by
      intro d different
      rw [only, if_neg different]
      rfl
    cases found : find rom bus with
    | none =>
      have absent := find_none.mp found
      constructor
      · exact fun _ => rfl
      · exact fun _ d member => others d (absent d member)
    | some d =>
      obtain ⟨inBus, same⟩ := find_rom found
      have here : only rom act d = act d := if_pos same
      constructor
      · intro all
        have high := all d inBus
        rw [Function.comp_apply, here] at high
        exact high
      · intro high other otherInBus
        by_cases its : other.rom = rom
        · obtain rfl := List.inj_on_of_nodup_map bus.distinct otherInBus inBus (its.trans same.symm)
          rw [Function.comp_apply, here]
          exact high
        · exact others other its

end ArduMash.OneWire.Addressing
