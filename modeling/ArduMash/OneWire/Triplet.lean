import ArduMash.OneWire.Addressing
import ArduMash.Foundation.WordSearch

/-!
Two slots to read and one to write are what a search gives to each bit of the ROM
codes. The devices that still take part show which bits occur among them, and those
with the other bit than the written one drop out.
-/

namespace ArduMash.OneWire.Triplet
open Line Devices Transfer Addressing Foundation.WordSearch

/-! ROM codes as words; the first bit sent is compared first. -/

def word (rom : Address) : Word 64 := toLex fun k => rom.bit k

theorem word_apply (rom : Address) (k : Fin 64) : word rom k = rom.bit k := rfl

theorem word_injective : Function.Injective word := by
  intro first second same
  apply Octets.eq_of_bit
  intro k inside
  exact congrFun same ⟨k, inside⟩

/-- The mask of bit `k` in its byte. -/
def maskAt (k : ℕ) : Byte := (1 : Byte) <<< (k % 8)

/-- What a search does to the bit of its ROM number it has come to. -/
def setBit (rom : Address) (k : ℕ) (direction : Bool) : Address :=
  rom.modify (k / 8) fun byte => if direction then byte ||| maskAt k else byte &&& ~~~maskAt k

theorem getLsbD_maskAt (k i : ℕ) : (maskAt k).getLsbD i = decide (i = k % 8) := by
  have position : k % 8 < 8 := Nat.mod_lt k (by decide)
  change ((1#8) <<< (k % 8)).getLsbD i = _
  rw [BitVec.getLsbD_shiftLeft, BitVec.getLsbD_one, Bool.eq_iff_iff]
  simp only [Bool.and_eq_true, Bool.not_eq_true', decide_eq_true_eq, decide_eq_false_iff_not]
  omega

theorem bit_setBit (rom : Address) (direction : Bool) {k j : ℕ} (inside : j < 64) :
    (setBit rom k direction).bit j = if j = k then direction else rom.bit j := by
  have byteInside : j / 8 < 8 := by omega
  have bitInside : j % 8 < 8 := by omega
  rw [Octets.bit, setBit, Octets.get_modify _ _ byteInside]
  by_cases byteNumber : j / 8 = k / 8
  · have position : j % 8 = k % 8 ↔ j = k := by omega
    rw [if_pos byteNumber]
    cases direction with
    | false =>
      simp only [Bool.false_eq_true, if_false, BitVec.getLsbD_and, BitVec.getLsbD_not, bitInside,
        getLsbD_maskAt, position, decide_true, Bool.true_and, Octets.bit]
      by_cases same : j = k <;> simp only [same, decide_true, decide_false, Bool.not_true,
        Bool.not_false, Bool.and_false, Bool.and_true, if_true, if_false]
    | true =>
      simp only [if_true, BitVec.getLsbD_or, getLsbD_maskAt, position, Octets.bit]
      by_cases same : j = k <;> simp only [same, decide_true, decide_false, Bool.or_true,
        Bool.or_false, if_true, if_false]
  · rw [if_neg byteNumber, if_neg (by omega), Octets.bit]

/-! The devices of a search. -/

/-- Those that take part in a search for all, or for alarms. -/
def Answers (searchMode : Bool) (d : Device) : Prop := (searchMode || d.alarm) = true

instance (searchMode : Bool) : DecidablePred (Answers searchMode) :=
  fun _ => inferInstanceAs (Decidable (_ = true))

def members (searchMode : Bool) (bus : Bus) : Set (Word 64) :=
  {x | ∃ d ∈ bus.devices, Answers searchMode d ∧ word d.rom = x}

/-- Still in a search in which the first `k` bits were chosen as in `path`. -/
def Follower (searchMode : Bool) (path : Address) (k : ℕ) (d : Device) : Prop :=
  Answers searchMode d ∧ ∀ i < k, d.rom.bit i = path.bit i

instance (searchMode : Bool) (path : Address) (k : ℕ) :
    DecidablePred (Follower searchMode path k) :=
  fun _ => inferInstanceAs (Decidable (_ ∧ _))

/-- Every follower has come to this phase, and the other devices wait for a reset. -/
def among (searchMode : Bool) (path : Address) (k : ℕ) (phase : Phase) (bus : Bus) : Bus :=
  enter (fun d => if Follower searchMode path k d then phase else .idle) bus

/-- The search has come to bit `k`. -/
def searching (searchMode : Bool) (path : Address) (k : ℕ) (bus : Bus) : Bus :=
  among searchMode path k (if k < 64 then .searchBit k else .command 0 0) bus

theorem search_command (searchMode : Bool) (path : Address) (bus : Bus) :
    Bus.wire.write (if searchMode then 0xF0 else 0xEC) (Bus.wire.reset bus).2 =
      searching searchMode path 0 bus := by
  rw [reset_eq, write_all collects_romCommand Device.obeyRom_rom, searching, among, enter]
  refine Bus.update_congr bus fun d _ => ?_
  have empty : ∀ i < 0, d.rom.bit i = path.bit i := fun i none => absurd none (Nat.not_lt_zero i)
  cases searchMode with
  | true => simp [Device.obeyRom, Follower, Answers]
  | false => by_cases flagged : d.alarm <;> simp [Device.obeyRom, Follower, Answers, flagged]

section Slots
variable (searchMode : Bool) (path : Address) (bus : Bus)

theorem only_iff (k : Fin 64) (bit : Bool) :
    Only (members searchMode bus) (word path) k bit ↔
      ∀ d ∈ bus.devices, Follower searchMode path k d → d.rom.bit k = bit := by
  constructor
  · intro all d member follower
    apply all (word d.rom) ⟨d, member, follower.1, rfl⟩
    exact fun i before => follower.2 i before
  · rintro all x ⟨d, member, answers, rfl⟩ agree
    apply all d member
    exact ⟨answers, fun i before => agree ⟨i, Nat.lt_trans before k.isLt⟩ before⟩

/-- A slot to read, in which the followers do the same. -/
theorem read_among {k : ℕ} {phase next : Phase} (shown : Device → Bool)
    (drives : ∀ d : Device, ({ d with phase := phase } : Device).drive = shown d)
    (hears : ∀ (d : Device) bit,
      ({ d with phase := phase } : Device).hear bit = { d with phase := next }) :
    Bus.wire.readBit (among searchMode path k phase bus) =
      (decide (∀ d ∈ bus.devices, Follower searchMode path k d → shown d = true),
        among searchMode path k next bus) := by
  have level : (among searchMode path k phase bus).level true =
      decide (∀ d ∈ bus.devices, Follower searchMode path k d → shown d = true) := by
    change (true && (bus.devices.map _).all Device.drive) = _
    rw [Bool.true_and, List.all_map, Bool.eq_iff_iff, List.all_eq_true, decide_eq_true_eq]
    refine forall₂_congr fun d _ => ?_
    simp only [Function.comp_apply]
    by_cases follower : Follower searchMode path k d
    · rw [if_pos follower, drives]
      exact ⟨fun high _ => high, fun high => high follower⟩
    · rw [if_neg follower]
      exact ⟨fun _ is => absurd is follower, fun _ => rfl⟩
  refine Prod.ext level ?_
  change (among searchMode path k phase bus).update (Device.hear _) (Device.hear_rom _) =
    among searchMode path k next bus
  unfold among enter
  rw [Bus.update_update]
  refine Bus.update_congr bus fun d _ => ?_
  by_cases follower : Follower searchMode path k d
  · simp only [if_pos follower]
    exact hears d _
  · simp only [if_neg follower]
    rfl

theorem read_id (k : Fin 64) :
    ∃ idBit, Bus.wire.readBit (searching searchMode path k bus) =
        (idBit, among searchMode path k (.searchComplement k) bus) ∧
      (idBit = true ↔ Only (members searchMode bus) (word path) k true) := by
  rw [searching, if_pos k.isLt]
  refine ⟨_, read_among searchMode path bus (fun d => d.rom.bit k) (fun d => rfl)
    (fun d bit => rfl), ?_⟩
  rw [decide_eq_true_eq, only_iff]

theorem read_complement (k : Fin 64) :
    ∃ cmpIdBit, Bus.wire.readBit (among searchMode path k (.searchComplement k) bus) =
        (cmpIdBit, among searchMode path k (.searchDirection k) bus) ∧
      (cmpIdBit = true ↔ Only (members searchMode bus) (word path) k false) := by
  refine ⟨_, read_among searchMode path bus (fun d => !d.rom.bit k) (fun d => rfl)
    (fun d bit => rfl), ?_⟩
  rw [decide_eq_true_eq, only_iff]
  simp only [Bool.not_eq_true']

theorem write_direction (k : Fin 64) (direction : Bool) :
    Bus.wire.writeBit direction (among searchMode path k (.searchDirection k) bus) =
      searching searchMode (setBit path k direction) (k + 1) bus := by
  have quiet : ∀ d ∈ (among searchMode path k (.searchDirection k) bus).devices,
      d.drive = true := by
    intro d member
    obtain ⟨before, _, rfl⟩ := List.mem_map.mp member
    by_cases follower : Follower searchMode path k before
    · simp only [if_pos follower]
      rfl
    · simp only [if_neg follower]
      rfl
  change (among searchMode path k _ bus).update (Device.hear _) (Device.hear_rom _) = _
  simp only [level_quiet quiet]
  unfold searching among enter
  rw [Bus.update_update]
  refine Bus.update_congr bus fun d _ => ?_
  have grown : Follower searchMode (setBit path k direction) (k + 1) d ↔
      Follower searchMode path k d ∧ direction = d.rom.bit k := by
    have before : ∀ i < k.val, (setBit path k direction).bit i = path.bit i := fun i less => by
      rw [bit_setBit path direction (Nat.lt_trans less k.isLt), if_neg (Nat.ne_of_lt less)]
    have here : (setBit path k direction).bit k = direction := by
      rw [bit_setBit path direction k.isLt, if_pos rfl]
    rw [Follower, Follower, Nat.forall_lt_succ_right, here, and_assoc, eq_comm (a := direction)]
    refine and_congr_right fun _ => and_congr_left fun _ => ?_
    exact forall₂_congr fun i less => by rw [before i less]
  simp only [grown]
  by_cases follower : Follower searchMode path k d
  · rw [if_pos follower]
    by_cases same : direction = d.rom.bit k
    · rw [if_pos ⟨follower, same⟩]
      simp only [Device.hear, if_pos same]
    · rw [if_neg fun both => same both.2]
      simp only [Device.hear, if_neg same]
  · rw [if_neg follower, if_neg fun both => follower both.1]
    rfl

theorem settled_searching (k : ℕ) : settled (searching searchMode path k bus) = settled bus :=
  settled_enter _ bus

end Slots

end ArduMash.OneWire.Triplet
