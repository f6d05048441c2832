import ArduMash.Dallas.Inventory

/-!
The functions that take an index for an address. They search the line up to it, and
find the visible ROM codes in their order.
-/

namespace ArduMash.Dallas.Indices
open OneWire.Line OneWire.Devices OneWire.Addressing OneWire.Search OneWire.Enumeration
open OneWire.Calls Library Registers Store Inventory
open Sketch.Hardware (rawToCelsius)

/-- What the loop comes to from depth `c` on. -/
theorem getAddressLoop_eq {bus : Bus} {index : Byte} (last : index.toNat < 255) (extra : ℕ)
    {n c : ℕ} (left : index.toNat + 1 = c + n) (inside : c ≤ (visible bus).length) {line : Bus}
    (same : settled line = settled bus) (deviceAddress : Address) {s : Sensors}
    (ready : Ready true bus c s.oneWire) :
    let located := getAddressLoop Bus.wire index (n + extra) (BitVec.ofNat 8 c) deviceAddress s line
    located.result =
        (decide (0 < n) && ((visible bus)[index.toNat]?).any fun rom => validAddress rom) ∧
      located.deviceAddress = (((visible bus).drop c).take n).getLast?.getD deviceAddress ∧
      (∃ state, located.sensors = { s with oneWire := state }) ∧
      settled located.bus = settled bus := by
  induction n generalizing c line s deviceAddress with
  | zero =>
    intro located
    have stopped : located = ⟨false, deviceAddress, s, line⟩ := by
      have beyond : ¬BitVec.ofNat 8 c ≤ index := by
        rw [BitVec.le_def, BitVec.toNat_ofNat]
        omega
      change getAddressLoop _ _ (0 + extra) _ _ _ _ = _
      cases extra with
      | zero => rfl
      | succ extra => exact if_neg beyond
    rw [stopped]
    exact ⟨rfl, rfl, ⟨s.oneWire, rfl⟩, same⟩
  | succ n ih =>
    intro located
    have upTo : BitVec.ofNat 8 c ≤ index := by
      rw [BitVec.le_def, BitVec.toNat_ofNat]
      omega
    obtain ⟨found, next⟩ := search_visible ((ready_congr (roster_congr same true)).mpr ready)
      (by rwa [visible_congr same])
    have unchanged := (search_settled true line s.oneWire).trans same
    rw [visible_congr same] at found next
    have step : located = getAddressLoop Bus.wire index (n + extra + 1) (BitVec.ofNat 8 c)
        deviceAddress s line := by
      change getAddressLoop _ _ (n + 1 + extra) _ _ _ _ = _
      rw [Nat.add_right_comm]
    rw [step, getAddressLoop, if_pos upTo]
    generalize search Bus.wire true s.oneWire line = result at found next unchanged ⊢
    rcases Nat.lt_or_eq_of_le inside with more | all
    · have later := (ready_congr (roster_congr same true)).mp (next more)
      rw [List.getElem?_eq_getElem more] at found
      simp only [found]
      have path : (((visible bus).drop c).take (n + 1)).getLast?.getD deviceAddress =
          (((visible bus).drop (c + 1)).take n).getLast?.getD (visible bus)[c] := by
        rw [List.drop_eq_getElem_cons more, List.take_succ_cons, List.getLast?_cons]
        rfl
      have depth : BitVec.ofNat 8 c = index ↔ n = 0 := by
        rw [← BitVec.toNat_inj, BitVec.toNat_ofNat]
        omega
      by_cases here : BitVec.ofNat 8 c = index ∧ validAddress (visible bus)[c]
      · obtain rfl : n = 0 := depth.mp here.1
        obtain rfl : index.toNat = c := by omega
        rw [if_pos here]
        refine ⟨?_, ?_, ⟨_, rfl⟩, unchanged⟩
        · rw [List.getElem?_eq_getElem more, Option.any_some, here.2]
          rfl
        · rw [path]
          rfl
      · rw [if_neg here, show BitVec.ofNat 8 c + 1 = BitVec.ofNat 8 (c + 1) from
          (BitVec.ofNat_add _ _).symm]
        obtain ⟨end_, reached, ⟨state, sensors⟩, settled_⟩ := ih (by omega) more unchanged
          (visible bus)[c] (s := { s with oneWire := result.search }) later
        refine ⟨end_.trans ?_, reached.trans path.symm, ⟨state, sensors⟩, settled_⟩
        rcases Nat.eq_zero_or_pos n with zero | positive
        · obtain rfl : index.toNat = c := by omega
          have invalid : validAddress (visible bus)[index.toNat] = false := by
            rw [← Bool.not_eq_true]
            exact fun valid => here ⟨depth.mpr zero, valid⟩
          rw [zero, List.getElem?_eq_getElem more, Option.any_some, invalid]
          rfl
        · simp [positive]
    · rw [List.getElem?_eq_none (Nat.le_of_eq all.symm)] at found
      have none_ : (visible bus)[index.toNat]? = none := List.getElem?_eq_none (by omega)
      simp only [found]
      refine ⟨?_, ?_, ⟨_, rfl⟩, unchanged⟩
      · rw [none_]
        simp
      · rw [List.drop_of_length_le (Nat.le_of_eq all.symm)]
        rfl

theorem getAddress_eq (extra : ℕ) (deviceAddress : Address) {index : Byte}
    (last : index.toNat < 255) (s : Sensors) (bus : Bus) :
    let located := getAddress Bus.wire (index.toNat + 1 + extra) deviceAddress index s bus
    located.result = ((visible bus)[index.toNat]?).any (fun rom => validAddress rom) ∧
      located.deviceAddress = ((visible bus).take (index.toNat + 1)).getLast?.getD deviceAddress ∧
      (∃ state, located.sensors = { s with oneWire := state }) ∧
      settled located.bus = settled bus :=
  getAddressLoop_eq last extra (Nat.zero_add _).symm (Nat.zero_le _) rfl deviceAddress
    (s := { s with oneWire := resetSearch }) (ready_reset true bus)

/-- `getAddress` finds the device at its index among the visible ones, unless the check sum of that
one is wrong. The array is left with the last ROM code found, also when nothing is returned. -/
theorem getAddress_finds (extra : ℕ) (deviceAddress : Address) {index : Byte}
    (last : index.toNat < 255) (s : Sensors) (bus : Bus) :
    let located := getAddress Bus.wire (index.toNat + 1 + extra) deviceAddress index s bus
    located.result = ((visible bus)[index.toNat]?).any (fun rom => validAddress rom) ∧
      located.deviceAddress = ((visible bus).take (index.toNat + 1)).getLast?.getD deviceAddress ∧
      settled located.bus = settled bus := by
  obtain ⟨result, reached, _, unchanged⟩ := getAddress_eq extra deviceAddress last s bus
  exact ⟨result, reached, unchanged⟩

theorem getLast?_take_succ {roms : List Address} {i : ℕ} {rom : Address}
    (here : roms[i]? = some rom) : (roms.take (i + 1)).getLast? = some rom := by
  rw [List.getLast?_take, Nat.add_sub_cancel, here]
  rfl

theorem getTempC_congr {bus other : Bus} (same : settled bus = settled other)
    (deviceAddress : Address) :
    (getTempC Bus.wire deviceAddress bus).1 = (getTempC Bus.wire deviceAddress other).1 := by
  rw [getTempC, getTempC, getTemp, getTemp, lookUp_congr same]

theorem getAddress_finds_twoProbes :
    let located := getAddress Bus.wire 2 (factoryNew 9).rom 1 setOneWire twoProbes
    located.result = true ∧ located.deviceAddress = (factoryNew 1).rom ∧
      settled located.bus = settled twoProbes := by
  obtain ⟨result, reached, unchanged⟩ := getAddress_finds 0 (factoryNew 9).rom
    (show (1 : Byte).toNat < 255 by decide) setOneWire twoProbes
  rw [visible_twoProbes] at result reached
  exact ⟨result.trans (by decide), reached, unchanged⟩

/-! The other functions go on with what `getAddress` has left in the array. -/

theorem byIndex_eq {α : Type} (call : Address → Bus → α) (extra : ℕ) (unset : Address)
    {index : Byte} (last : index.toNat < 255) (s : Sensors) {bus : Bus} (some_ : visible bus ≠ []) :
    ∃ line, settled line = settled bus ∧
      ∃ rom, (visible bus)[min index.toNat ((visible bus).length - 1)]? = some rom ∧
        byIndex Bus.wire call (index.toNat + 1 + extra) unset index s bus = call rom line := by
  obtain ⟨_, reached, _, unchanged⟩ := getAddress_eq extra unset last s bus
  have many := List.length_pos_iff.mpr some_
  have inside : min index.toNat ((visible bus).length - 1) < (visible bus).length := by omega
  refine ⟨_, unchanged, _, List.getElem?_eq_getElem inside, ?_⟩
  have final : ((visible bus).take (index.toNat + 1)).getLast?.getD unset =
      (visible bus)[min index.toNat ((visible bus).length - 1)] := by
    rcases Nat.lt_or_ge index.toNat (visible bus).length with within | beyond
    · rw [getLast?_take_succ (List.getElem?_eq_getElem within), Option.getD_some]
      congr 1
      omega
    · rw [List.take_of_length_le (by omega), List.getLast?_eq_getElem?]
      rw [List.getElem?_eq_getElem (by omega), Option.getD_some]
      congr 1
      omega
  rw [byIndex, reached, final]

/-- Where an index is beyond the last device, these functions mean the last device, and so they read
its user data or overwrite it. -/
theorem byIndex_last (extra : ℕ) (unset : Address) {index : Byte} (last : index.toNat < 255)
    (data : BitVec 16) (poll : Poll) (s : Sensors) {bus : Bus} (some_ : visible bus ≠ []) :
    ∃ rom, (visible bus)[min index.toNat ((visible bus).length - 1)]? = some rom ∧
      (getUserDataByIndex Bus.wire (index.toNat + 1 + extra) unset index s bus).1 =
        (getUserData Bus.wire rom bus).1 ∧
      settled (setUserDataByIndex Bus.wire (index.toNat + 1 + extra) unset index data s bus) =
        settled (setUserData Bus.wire rom data bus) ∧
      (requestTemperaturesByIndex Bus.wire (index.toNat + 1 + extra) unset index poll s bus).1 =
        (requestTemperaturesByAddress Bus.wire rom poll s bus).1 ∧
      settled (requestTemperaturesByIndex Bus.wire (index.toNat + 1 + extra) unset index poll s
          bus).2 =
        settled (requestTemperaturesByAddress Bus.wire rom poll s bus).2 := by
  obtain ⟨line, same, rom, here, read⟩ :=
    byIndex_eq (getUserData Bus.wire) extra unset last s some_
  obtain ⟨setLine, setSame, setRom, setHere, set⟩ :=
    byIndex_eq (fun address => setUserData Bus.wire address data) extra unset last s some_
  obtain ⟨askLine, askSame, askRom, askHere, ask⟩ :=
    byIndex_eq (fun address => requestTemperaturesByAddress Bus.wire address poll s) extra unset
      last s some_
  obtain rfl : setRom = rom := Option.some.inj (setHere.symm.trans here)
  obtain rfl : askRom = setRom := Option.some.inj (askHere.symm.trans here)
  refine ⟨askRom, here, ?_, ?_, ?_, ?_⟩
  · rw [getUserDataByIndex, read, getUserData, getUserData, lookUp_congr same]
  · rw [setUserDataByIndex, set, setUserData, setUserData, amend_congr setSame]
  · rw [requestTemperaturesByIndex, ask, requestTemperaturesByAddress_congr askSame]
  · rw [requestTemperaturesByIndex, ask, requestTemperaturesByAddress_congr askSame]

theorem byIndex_last_twoProbes :
    (getUserDataByIndex Bus.wire 200 (factoryNew 9).rom 199 setOneWire twoProbes).1 =
      (getUserData Bus.wire (factoryNew 1).rom twoProbes).1 := by
  have some_ : visible twoProbes ≠ [] := by
    rw [visible_twoProbes]
    exact List.cons_ne_nil _ _
  obtain ⟨rom, here, read, _⟩ := byIndex_last 0 (factoryNew 9).rom
    (show (199 : Byte).toNat < 255 by decide) 0 ⟨0, 12, ⟨fun _ => 0⟩, 750⟩ setOneWire some_
  rw [visible_twoProbes] at here
  have second : (factoryNew 1).rom = rom := Option.some.inj here
  rw [second]
  exact read

/-- A reading by index is one by the address at that index. -/
theorem tempCByIndex_eq (extra : ℕ) (deviceAddress : Address) {index : Byte}
    (last : index.toNat < 255) (s : Sensors) (bus : Bus) :
    (getTempCByIndex Bus.wire (index.toNat + 1 + extra) deviceAddress index s bus).1 =
      (((visible bus)[index.toNat]?).filter fun rom => validAddress rom).elim (some (-127))
        fun rom => (getTempC Bus.wire rom bus).1 := by
  obtain ⟨result, reached, _, unchanged⟩ := getAddress_eq extra deviceAddress last s bus
  unfold getTempCByIndex
  generalize getAddress Bus.wire (index.toNat + 1 + extra) deviceAddress index s bus = located
    at result reached unchanged ⊢
  cases here : (visible bus)[index.toNat]? with
  | none =>
    rw [here] at result
    simp only [result, Option.any_none]
    rfl
  | some rom =>
    rw [getLast?_take_succ here] at reached
    rw [here, Option.any_some] at result
    cases valid : validAddress rom with
    | false =>
      simp only [result, valid, Option.filter_some, Bool.false_eq_true, if_false]
      rfl
    | true =>
      simp only [result, valid, Option.filter_some, if_true, reached]
      exact getTempC_congr unchanged rom

theorem tempCByIndex_eq_twoProbes :
    (getTempCByIndex Bus.wire 8 (factoryNew 9).rom 7 setOneWire twoProbes).1 = some (-127) :=
  (tempCByIndex_eq 0 (factoryNew 9).rom (show (7 : Byte).toNat < 255 by decide) setOneWire
    twoProbes).trans (by
      rw [visible_twoProbes]
      rfl)

/-! The resolution of all devices. -/

theorem roster_update {bus : Bus} {f : Device → Device} (keeps : ∀ d, (f d).rom = d.rom)
    (alarms : ∀ d, (f d).alarm = d.alarm) (searchMode : Bool) :
    roster searchMode (bus.update f keeps) = roster searchMode bus := by
  have answers : ∀ d, OneWire.Triplet.Answers searchMode (f d) ↔
      OneWire.Triplet.Answers searchMode d := by
    intro d
    rw [OneWire.Triplet.Answers, OneWire.Triplet.Answers, alarms]
  simp only [roster, Bus.update, List.filter_map, List.map_map]
  congr 1
  refine (List.map_congr_left fun d _ => keeps d).trans ?_
  congr 1
  exact List.filter_congr fun d _ => decide_eq_decide.mpr (answers d)

def setAll (newResolution : Byte) (roms : List Address) : List Op :=
  roms.map fun rom => .setResolution rom newResolution

theorem visible_setResolution (deviceAddress : Address) (newResolution : Byte) (bus : Bus) :
    visible (setResolution Bus.wire deviceAddress newResolution bus).2 = visible bus := by
  unfold setResolution
  split_ifs
  · exact visible_congr (isConnected_eq deviceAddress bus).2
  · rw [visible_congr (amend_eq _ deviceAddress bus).2, visible, visible, roster_update]
    intro d
    unfold inPlace
    split_ifs <;> rfl

theorem visible_setAll (newResolution : Byte) (roms : List Address) (bus : Bus) :
    visible (runs (setAll newResolution roms) bus) = visible bus := by
  induction roms generalizing bus with
  | nil => rfl
  | cons rom rest ih => exact (ih _).trans (visible_setResolution rom newResolution bus)

/-- The loop over the indices sets one device after the other. -/
theorem setResolutionAll_settled (extra : ℕ) (newResolution : Byte) (deviceAddress : Address)
    {s : Sensors} {bus : Bus} (counted : s.devices.toNat = (visible bus).length) :
    settled (setResolutionAll Bus.wire ((visible bus).length + extra) newResolution deviceAddress s
      bus).bus = settled (runs (setAll (constrained newResolution) (visible bus)) bus) := by
  have few := s.devices.isLt
  have upTo : ∀ m ≤ (visible bus).length, settled ((List.range m).foldl
      (fun before i =>
        let located := getAddress Bus.wire ((visible bus).length + extra) before.deviceAddress
          (BitVec.ofNat 8 i) before.sensors before.bus
        { located with
          bus := (setResolution Bus.wire located.deviceAddress (constrained newResolution)
            located.bus).2 })
      (⟨true, deviceAddress, { s with bitResolution := constrained newResolution }, bus⟩ :
        Located Bus)).bus =
      settled (runs (setAll (constrained newResolution) ((visible bus).take m)) bus) := by
    intro m
    induction m with
    | zero => exact fun _ => rfl
    | succ m ih =>
      intro inside
      have before := ih (Nat.le_of_succ_le inside)
      have index : (BitVec.ofNat 8 m).toNat = m := by
        rw [BitVec.toNat_ofNat]
        omega
      rw [List.range_succ, List.foldl_append, List.foldl_cons, List.foldl_nil]
      generalize (List.range m).foldl _ _ = reached at before ⊢
      have sameVisible : visible reached.bus = visible bus :=
        (visible_congr before).trans (visible_setAll _ _ bus)
      have fuel : (visible bus).length + extra = (BitVec.ofNat 8 m).toNat + 1 +
          ((visible bus).length + extra - m - 1) := by omega
      have last : (BitVec.ofNat 8 m).toNat < 255 := by omega
      obtain ⟨_, found, _, unchanged⟩ := getAddress_eq ((visible bus).length + extra - m - 1)
        reached.deviceAddress last reached.sensors reached.bus
      rw [← fuel, sameVisible, index, getLast?_take_succ (List.getElem?_eq_getElem inside)] at found
      rw [← fuel] at unchanged
      have taken : setAll (constrained newResolution) ((visible bus).take (m + 1)) =
          setAll (constrained newResolution) ((visible bus).take m) ++
            [.setResolution (visible bus)[m] (constrained newResolution)] := by
        rw [← List.take_append_getElem inside]
        exact List.map_append
      simp only [found]
      rw [taken, runs, List.foldl_append, setResolution_congr (unchanged.trans before)]
      rfl
  have all := upTo _ (Nat.le_refl _)
  rw [List.take_length, ← counted] at all
  rw [setResolutionAll, ← counted]
  exact all

theorem last_setAll {rom : Address} {newResolution : Byte} {roms : List Address}
    (member : rom ∈ roms) (family : rom.get 0 ≠ 0x10) (v : Byte) :
    last rom 4 (setAll newResolution roms) v = configuration newResolution := by
  have mine : ∀ v, ((Op.setResolution rom newResolution).puts rom 4).getD v =
      configuration newResolution := by
    intro v
    rw [Op.puts, if_pos ⟨rfl, rfl, family⟩]
    rfl
  have stays : ∀ roms : List Address, last rom 4 (setAll newResolution roms)
      (configuration newResolution) = configuration newResolution := by
    intro roms
    induction roms with
    | nil => rfl
    | cons other rest ih =>
      have step : ((Op.setResolution other newResolution).puts rom 4).getD
          (configuration newResolution) = configuration newResolution := by
        rw [Op.puts]
        split_ifs <;> rfl
      exact (congrArg (last rom 4 (setAll newResolution rest)) step).trans ih
  induction roms generalizing v with
  | nil => cases member
  | cons other rest ih =>
    rcases List.mem_cons.mp member with rfl | later
    · exact (congrArg (last rom 4 (setAll newResolution rest)) (mine v)).trans (stays rest)
    · exact ih later _

theorem resolutionOf_constrained (newResolution : Byte) :
    resolutionOf (configuration (constrained newResolution)) = constrained newResolution := by
  rw [resolutionOf_configuration]
  revert newResolution
  decide

theorem roster_all (bus : Bus) : (roster true bus).length = bus.devices.length := by
  have all : bus.devices.filter (fun d => decide (OneWire.Triplet.Answers true d)) = bus.devices :=
    List.filter_eq_self.mpr fun d _ => decide_eq_true (Bool.true_or _)
  rw [roster, all, List.length_insertionSort, List.length_map]

/-- After `begin` has counted the devices of a line, all with right check sums, they all get the
resolution that is set, as far as there is one. -/
theorem setResolutionAll_sets (newResolution : Byte) (deviceAddress : Address) (s : Sensors)
    {bus : Bus} (few : bus.devices.length ≤ 255)
    (valid : ∀ d ∈ bus.devices, d.rom.get 0 ≠ 0 ∧ validAddress d.rom = true) :
    let begun := begin Bus.wire (bus.devices.length + 1) s bus
    let after := setResolutionAll Bus.wire bus.devices.length newResolution deviceAddress begun.1
      begun.2
    ∀ d ∈ bus.devices, (getResolution Bus.wire d.rom after.bus).1 =
      if d.rom.get 0 = 0x10 then 12 else constrained newResolution := by
  intro begun after d member
  have families : ∀ rom ∈ roster true bus, rom.get 0 ≠ 0 := by
    intro rom inRoster
    obtain ⟨d, inBus, _, rfl⟩ := mem_roster.mp inRoster
    exact (valid d inBus).1
  have seen : visible bus = roster true bus := if_pos families
  have long : (visible bus).length = bus.devices.length := by rw [seen, roster_all]
  have counted := begin_devices 0 s bus
  have unchanged := (begin_eq 0 s bus).2
  rw [long] at counted unchanged
  have everyone : (visible bus).countP (fun rom => validAddress rom) = bus.devices.length := by
    rw [← long]
    apply List.countP_eq_length.mpr
    intro rom inVisible
    obtain ⟨d, inBus, rfl⟩ := mem_visible inVisible
    exact (valid d inBus).2
  have sameVisible : visible begun.2 = visible bus := visible_congr unchanged
  have all : begun.1.devices.toNat = (visible begun.2).length := by
    rw [sameVisible, long]
    change (begin Bus.wire (bus.devices.length + 1) s bus).1.devices.toNat = _
    rw [counted, everyone, BitVec.toNat_ofNat]
    omega
  have done : settled after.bus =
      settled (runs (setAll (constrained newResolution) (visible bus)) begun.2) := by
    have set := setResolutionAll_settled 0 newResolution deviceAddress all
    rwa [sameVisible, long] at set
  rw [(getResolution_eq d.rom after.bus).1, ← resolutionAt, resolutionAt_congr done, resolutionAt,
    ← (getResolution_eq d.rom _).1, getResolution_last]
  by_cases family : d.rom.get 0 = 0x10
  · rw [if_pos family, if_pos family]
  · have mine : d.rom ∈ visible bus := by
      rw [seen]
      exact mem_roster.mpr ⟨d, member, Bool.true_or _, rfl⟩
    rw [if_neg family, if_neg family, find_elim_congr unchanged d.rom 0 fun _ => rfl,
      find_eq member, Option.elim_some]
    exact (congrArg resolutionOf (last_setAll mine family _)).trans
      (resolutionOf_constrained newResolution)

theorem setResolutionAll_sets_twoProbes :
    let begun := begin Bus.wire 3 setOneWire twoProbes
    let after := setResolutionAll Bus.wire 2 10 (factoryNew 9).rom begun.1 begun.2
    ∀ d ∈ twoProbes.devices, (getResolution Bus.wire d.rom after.bus).1 =
      if d.rom.get 0 = 0x10 then 12 else constrained 10 := by
  have few : twoProbes.devices.length ≤ 255 := by decide
  exact setResolutionAll_sets 10 (factoryNew 9).rom setOneWire few (by decide)

end ArduMash.Dallas.Indices
