import ArduMash.Dallas.Store
import ArduMash.OneWire.Calls

/-!
What `begin` finds out about the devices of the line. It comes across the visible
ROM codes in their order, whatever the line was used for before.
-/

namespace ArduMash.Dallas.Inventory
open OneWire.Line OneWire.Devices OneWire.Addressing OneWire.Search OneWire.Enumeration
open OneWire.Calls Library Registers Store

/-! Counting the devices. -/

def powerOf (bus : Bus) (rom : Address) : Bool := (find rom bus).elim false Device.parasite

def resolutionAt (bus : Bus) (rom : Address) : Byte :=
  if rom.get 0 = 0x10 then 12
  else (find rom bus).elim 0 fun d => resolutionOf (d.memory.get 4)

/-- What `begin` notes of one ROM code. -/
def tally (bus : Bus) (s : Sensors) (rom : Address) : Sensors :=
  if validAddress rom then
    { s with
      parasite := s.parasite || powerOf bus rom
      bitResolution :=
        if s.bitResolution > resolutionAt bus rom then s.bitResolution else resolutionAt bus rom
      devices := s.devices + 1 }
  else s

theorem powerOf_congr {bus other : Bus} (same : settled bus = settled other) :
    powerOf bus = powerOf other :=
  funext fun rom => find_elim_congr same rom false fun _ => rfl

theorem resolutionAt_congr {bus other : Bus} (same : settled bus = settled other) :
    resolutionAt bus = resolutionAt other := by
  funext rom
  unfold resolutionAt
  split_ifs
  · rfl
  · exact find_elim_congr same rom 0 fun _ => rfl

theorem tally_congr {bus other : Bus} (same : settled bus = settled other) :
    tally bus = tally other := by
  funext s rom
  rw [tally, tally, powerOf_congr same, resolutionAt_congr same]

theorem tally_oneWire (bus : Bus) (s : Sensors) (rom : Address) (state : SearchState) :
    tally bus { s with oneWire := state } rom = { tally bus s rom with oneWire := state } := by
  unfold tally
  split_ifs <;> rfl

theorem tallies_oneWire (bus : Bus) (roms : List Address) (s : Sensors) (state : SearchState) :
    roms.foldl (tally bus) { s with oneWire := state } =
      { roms.foldl (tally bus) s with oneWire := state } := by
  induction roms generalizing s with
  | nil => rfl
  | cons rom rest ih => rw [List.foldl_cons, List.foldl_cons, tally_oneWire, ih]

theorem enlist_eq {rom : Address} (valid : validAddress rom = true) (s : Sensors) (bus : Bus) :
    (enlist Bus.wire rom s bus).1 = tally bus s rom ∧
      settled (enlist Bus.wire rom s bus).2 = settled bus := by
  have power : ∃ answer line, (if s.parasite then (false, bus) else
        readPowerSupply Bus.wire rom bus) = (answer, line) ∧ settled line = settled bus ∧
      (s.parasite || answer) = (s.parasite || powerOf bus rom) := by
    obtain ⟨supply, unchanged⟩ := readPowerSupply_eq rom bus
    generalize readPowerSupply Bus.wire rom bus = asked at supply unchanged ⊢
    cases s.parasite with
    | true => exact ⟨false, bus, rfl, rfl, rfl⟩
    | false => exact ⟨asked.1, asked.2, rfl, unchanged, congrArg (false || ·) supply⟩
  obtain ⟨answer, line, asked, unchanged, either⟩ := power
  have read : ∀ {after : Bus}, settled after = settled bus →
      (getResolution Bus.wire rom after).1 = resolutionAt bus rom ∧
        settled (getResolution Bus.wire rom after).2 = settled bus := by
    intro after same
    obtain ⟨resolution, kept⟩ := getResolution_eq rom after
    rw [← resolutionAt, resolutionAt_congr same] at resolution
    exact ⟨resolution, kept.trans same⟩
  obtain ⟨first, same⟩ := read unchanged
  obtain ⟨again, last⟩ := read same
  unfold enlist
  rw [asked]
  simp only [either, first, tally, if_pos valid]
  split_ifs
  · exact ⟨rfl, same⟩
  · rw [again]
    exact ⟨rfl, last⟩

/-- From the place the search state has come to, the loop tallies the rest of the visible ROM
codes. -/
theorem beginLoop_eq {bus : Bus} (extra : ℕ) {n c : ℕ} (left : (visible bus).length = c + n)
    {line : Bus} (same : settled line = settled bus) {s : Sensors}
    (ready : Ready true bus c s.oneWire) :
    (∃ state, (beginLoop Bus.wire (n + 1 + extra) s line).1 =
      { ((visible bus).drop c).foldl (tally bus) s with oneWire := state }) ∧
      settled (beginLoop Bus.wire (n + 1 + extra) s line).2 = settled bus := by
  induction n generalizing c line s with
  | zero =>
    obtain ⟨found, _⟩ := search_visible ((ready_congr (roster_congr same true)).mpr ready)
      (by rw [visible_congr same]; omega)
    have unchanged := search_settled true line s.oneWire
    rw [visible_congr same, List.getElem?_eq_none (by omega)] at found
    rw [List.drop_of_length_le (by omega), Nat.add_comm (0 + 1) extra]
    simp only [beginLoop, found]
    exact ⟨⟨_, rfl⟩, unchanged.trans same⟩
  | succ n ih =>
    have inside : c < (visible bus).length := by omega
    obtain ⟨found, next⟩ := search_visible ((ready_congr (roster_congr same true)).mpr ready)
      (by rw [visible_congr same]; omega)
    have unchanged := (search_settled true line s.oneWire).trans same
    rw [visible_congr same, List.getElem?_eq_getElem inside] at found
    have later := (ready_congr (roster_congr same true)).mp (next (by rwa [visible_congr same]))
    have fuel : n + 1 + 1 + extra = (n + 1 + extra) + 1 := by omega
    rw [fuel, List.drop_eq_getElem_cons inside, List.foldl_cons]
    have left' : (visible bus).length = c + 1 + n := by omega
    rw [beginLoop]
    generalize search Bus.wire true s.oneWire line = result at found later unchanged ⊢
    simp only [found]
    by_cases valid : validAddress (visible bus)[c]
    · rw [if_pos valid]
      obtain ⟨tallied, same'⟩ := enlist_eq valid { s with oneWire := result.search } result.bus
      generalize enlist Bus.wire (visible bus)[c] { s with oneWire := result.search } result.bus =
        enlisted at tallied same' ⊢
      rw [tally_congr unchanged, tally_oneWire] at tallied
      obtain ⟨⟨state, rest⟩, settledRest⟩ := ih left' (same'.trans unchanged)
        (s := enlisted.1) (by rw [tallied]; exact later)
      refine ⟨⟨state, ?_⟩, settledRest⟩
      rw [rest, tallied, tallies_oneWire]
    · rw [if_neg valid]
      obtain ⟨⟨state, rest⟩, settledRest⟩ := ih left' unchanged
        (s := { s with oneWire := result.search }) later
      refine ⟨⟨state, ?_⟩, settledRest⟩
      rw [rest, tallies_oneWire, tally, if_neg valid]

theorem begin_eq (extra : ℕ) (s : Sensors) (bus : Bus) :
    (∃ state, (begin Bus.wire ((visible bus).length + 1 + extra) s bus).1 =
      { (visible bus).foldl (tally bus) { s with devices := 0 } with oneWire := state }) ∧
      settled (begin Bus.wire ((visible bus).length + 1 + extra) s bus).2 = settled bus := by
  have whole := beginLoop_eq extra (c := 0) (Nat.zero_add _).symm rfl
    (s := { s with oneWire := resetSearch, devices := 0 }) (ready_reset true bus)
  obtain ⟨⟨state, all⟩, unchanged⟩ := whole
  refine ⟨⟨state, all.trans ?_⟩, unchanged⟩
  rw [List.drop_zero]
  have start := tallies_oneWire bus (visible bus) { s with devices := 0 } resetSearch
  exact congrArg (fun t : Sensors => { t with oneWire := state }) start

theorem tallies_devices (bus : Bus) (roms : List Address) (s : Sensors) :
    (roms.foldl (tally bus) s).devices =
      s.devices + BitVec.ofNat 8 (roms.countP fun rom => validAddress rom) := by
  induction roms generalizing s with
  | nil => simp
  | cons rom rest ih =>
    rw [List.foldl_cons, ih, tally, List.countP_cons]
    by_cases valid : validAddress rom
    · rw [if_pos valid, if_pos valid, BitVec.ofNat_add, BitVec.add_comm (BitVec.ofNat 8 _),
        ← BitVec.add_assoc]
      rfl
    · rw [if_neg valid, if_neg valid, Nat.add_zero]

theorem tallies_parasite (bus : Bus) (roms : List Address) (s : Sensors) :
    (roms.foldl (tally bus) s).parasite =
      (s.parasite || roms.any fun rom => validAddress rom && powerOf bus rom) := by
  induction roms generalizing s with
  | nil => simp
  | cons rom rest ih =>
    rw [List.foldl_cons, ih, tally, List.any_cons]
    cases valid : validAddress rom with
    | true => rw [if_pos rfl, Bool.true_and, Bool.or_assoc]
    | false => rw [if_neg Bool.false_ne_true, Bool.false_and, Bool.false_or]

theorem tallies_waits (bus : Bus) (roms : List Address) (s : Sensors) :
    (roms.foldl (tally bus) s).waitForConversion = s.waitForConversion := by
  induction roms generalizing s with
  | nil => rfl
  | cons rom rest ih =>
    rw [List.foldl_cons, ih, tally]
    split_ifs <;> rfl

theorem begin_devices (extra : ℕ) (s : Sensors) (bus : Bus) :
    (begin Bus.wire ((visible bus).length + 1 + extra) s bus).1.devices =
      BitVec.ofNat 8 ((visible bus).countP fun rom => validAddress rom) := by
  obtain ⟨⟨state, all⟩, _⟩ := begin_eq extra s bus
  rw [all]
  exact (tallies_devices bus (visible bus) { s with devices := 0 }).trans (BitVec.zero_add _)

/-- `begin` counts the visible devices with a right check sum, in a byte, and finds out whether one
of them has to be supplied over the line. -/
theorem begin_counts (extra : ℕ) (s : Sensors) (bus : Bus) :
    (begin Bus.wire ((visible bus).length + 1 + extra) s bus).1.devices =
        BitVec.ofNat 8 ((visible bus).countP fun rom => validAddress rom) ∧
      (begin Bus.wire ((visible bus).length + 1 + extra) s bus).1.parasite =
        (s.parasite || (visible bus).any fun rom => validAddress rom && powerOf bus rom) ∧
      settled (begin Bus.wire ((visible bus).length + 1 + extra) s bus).2 = settled bus := by
  obtain ⟨⟨state, all⟩, unchanged⟩ := begin_eq extra s bus
  refine ⟨begin_devices extra s bus, ?_, unchanged⟩
  rw [all]
  exact tallies_parasite bus (visible bus) { s with devices := 0 }

/-! Waiting for the slowest device. -/

theorem resolutionAt_range (bus : Bus) (rom : Address) :
    resolutionAt bus rom ∈ ([0, 9, 10, 11, 12] : List Byte) := by
  unfold resolutionAt
  split_ifs
  · decide
  · cases find rom bus with
    | none => decide
    | some d => exact resolutionOf_range (d.memory.get 4)

/-- The resolution that is waited for stays one of the four and is never less than before. -/
theorem tallies_resolution (bus : Bus) (roms : List Address) {s : Sensors}
    (start : s.bitResolution ∈ ([9, 10, 11, 12] : List Byte)) :
    (roms.foldl (tally bus) s).bitResolution ∈ ([9, 10, 11, 12] : List Byte) ∧
      s.bitResolution ≤ (roms.foldl (tally bus) s).bitResolution ∧
      ∀ rom ∈ roms, validAddress rom →
        resolutionAt bus rom ≤ (roms.foldl (tally bus) s).bitResolution := by
  have bigger : ∀ first ∈ ([9, 10, 11, 12] : List Byte),
      ∀ second ∈ ([0, 9, 10, 11, 12] : List Byte),
      (if first > second then first else second) ∈ ([9, 10, 11, 12] : List Byte) ∧
        first ≤ (if first > second then first else second) ∧
        second ≤ (if first > second then first else second) := by decide
  induction roms generalizing s with
  | nil => exact ⟨start, BitVec.le_refl _, fun rom none => absurd none List.not_mem_nil⟩
  | cons rom rest ih =>
    rw [List.foldl_cons]
    by_cases valid : validAddress rom
    · obtain ⟨oneOf, above, covers⟩ := bigger _ start _ (resolutionAt_range bus rom)
      have step : (tally bus s rom).bitResolution =
          if s.bitResolution > resolutionAt bus rom then s.bitResolution
          else resolutionAt bus rom := by rw [tally, if_pos valid]
      rw [← step] at oneOf above covers
      obtain ⟨inRange, grows, all⟩ := ih oneOf
      refine ⟨inRange, BitVec.le_trans above grows, fun other member => ?_⟩
      rcases List.mem_cons.mp member with rfl | later
      · exact fun _ => BitVec.le_trans covers grows
      · exact all other later
    · have same : tally bus s rom = s := by rw [tally, if_neg valid]
      rw [same]
      obtain ⟨inRange, grows, all⟩ := ih start
      refine ⟨inRange, grows, fun other member otherValid => ?_⟩
      rcases List.mem_cons.mp member with rfl | later
      · exact absurd otherValid valid
      · exact all other later otherValid

/-- The device with this address is one that `begin` counts at `bus`, with a resolution that can be
read, and at `line` it still has that resolution. -/
structure Counted (bus line : Bus) (rom : Address) : Prop where
  seen : rom ∈ visible bus
  valid : validAddress rom = true
  read : resolutionAt bus rom ≠ 0
  kept : resolutionAt line rom = resolutionAt bus rom

theorem resolutionAt_member {line : Bus} {d : Device} (member : d ∈ line.devices) :
    resolutionAt line d.rom =
      if d.rom.get 0 = 0x10 then 12 else resolutionOf (d.memory.get 4) := by
  rw [resolutionAt, find_eq member]
  rfl

/-- After `begin` a request for temperatures waits as long as any of the counted devices needs. -/
theorem begin_finishes (extra : ℕ) {s : Sensors} (bus : Bus)
    (start : s.bitResolution ∈ ([9, 10, 11, 12] : List Byte)) (waits : s.waitForConversion = true)
    {line : Bus} {d : Device} (member : d ∈ line.devices) (counted : Counted bus line d.rom) :
    Finishes (begin Bus.wire ((visible bus).length + 1 + extra) s bus).1 d := by
  have slower : ∀ own ∈ ([0, 9, 10, 11, 12] : List Byte), own ≠ 0 →
      ∀ all ∈ ([9, 10, 11, 12] : List Byte), own ≤ all →
        millisToWaitForConversion own ≤ millisToWaitForConversion all := by decide
  obtain ⟨seen, valid, read, kept⟩ := counted
  obtain ⟨⟨state, all⟩, _⟩ := begin_eq extra s bus
  obtain ⟨inRange, _, covers⟩ := tallies_resolution bus (visible bus) (s := { s with devices := 0 })
    start
  have still := (tallies_waits bus (visible bus) { s with devices := 0 }).trans waits
  have needs := conversionTime_eq d (kept.symm.trans (resolutionAt_member member)) read
  rw [all]
  refine ⟨still, ?_⟩
  rw [needs]
  exact slower _ (resolutionAt_range bus d.rom) read _ inRange (covers d.rom seen valid)

end ArduMash.Dallas.Inventory
