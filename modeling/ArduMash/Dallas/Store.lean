import ArduMash.Dallas.Registers
import ArduMash.OneWire.Enumeration

/-!
What the devices hold after any number of calls, in any order and to any addresses.
Each register keeps the last value that was put into it, whatever is done to the
other devices of the line and to the other registers.
-/

namespace ArduMash.Dallas.Store
open OneWire.Line OneWire.Devices OneWire.Addressing OneWire.Search OneWire.Triplet
open OneWire.Enumeration
open Library Registers

/-! The search for alarms tells the devices nothing but when to be silent. -/

theorem alarmLoop_settled {k n : ℕ} (all : k + n = 64) (path : Address) (scan : AlarmScan)
    (bus : Bus) :
    settled (alarmLoop Bus.wire (List.range' k n) scan (searching false path k bus)).2.2 =
      settled bus := by
  induction n generalizing k path scan with
  | zero => exact settled_searching false path bus k
  | succ n ih =>
    have inside : k < 64 := by omega
    obtain ⟨a, readA, _⟩ := read_id false path bus ⟨k, inside⟩
    obtain ⟨nota, readNota, _⟩ := read_complement false path bus ⟨k, inside⟩
    have written := write_direction false path bus ⟨k, inside⟩ (scan.take k a nota).1
    rw [List.range'_succ, alarmLoop]
    simp only [readA, readNota]
    split_ifs
    · exact settled_enter _ bus
    · rw [written]
      exact ih (by omega) _ _

theorem alarmSearch_settled (s : Sensors) (bus : Bus) :
    settled (Library.alarmSearch Bus.wire s bus).2.2 = settled bus := by
  have command : Bus.wire.write 0xEC (Bus.wire.reset bus).2 =
      searching false s.alarmSearchAddress 0 bus := search_command false _ bus
  have scanned := alarmLoop_settled (show 0 + 64 = 64 from rfl) s.alarmSearchAddress ⟨-1, true, s⟩
    bus
  rw [← List.range_eq_range', ← command] at scanned
  unfold Library.alarmSearch
  split_ifs
  · rfl
  · dsimp only
    split_ifs
    · exact scanned
    · exact scanned
    · exact settled_enter _ bus

/-- A call of the library, or what goes on around the line: time passes, and temperatures change.
`look` is any function that only reads the scratch pad of a device. -/
inductive Op where
  | setResolution (deviceAddress : Address) (newResolution : Byte)
  | setUserData (deviceAddress : Address) (data : BitVec 16)
  | setHighAlarmTemp (deviceAddress : Address) (celsius : Byte)
  | setLowAlarmTemp (deviceAddress : Address) (celsius : Byte)
  | requestTemperatures (s : Sensors)
  | requestTemperaturesByAddress (deviceAddress : Address) (poll : Poll) (s : Sensors)
  | look (deviceAddress : Address)
  | readPowerSupply (deviceAddress : Address)
  | search (searchMode : Bool) (s : SearchState)
  | alarmSearch (s : Sensors)
  | pass (ms : ℕ)
  | warm (samples : Address → Octets 8)

namespace Op

def run (bus : Bus) : Op → Bus
  | .setResolution deviceAddress newResolution =>
    (Library.setResolution Bus.wire deviceAddress newResolution bus).2
  | .setUserData deviceAddress data => Library.setUserData Bus.wire deviceAddress data bus
  | .setHighAlarmTemp deviceAddress celsius =>
    Library.setHighAlarmTemp Bus.wire deviceAddress celsius bus
  | .setLowAlarmTemp deviceAddress celsius =>
    Library.setLowAlarmTemp Bus.wire deviceAddress celsius bus
  | .requestTemperatures s => (Library.requestTemperatures Bus.wire s bus).2
  | .requestTemperaturesByAddress deviceAddress poll s =>
    (Library.requestTemperaturesByAddress Bus.wire deviceAddress poll s bus).2
  | .look deviceAddress => (isConnected Bus.wire deviceAddress bus).2
  | .readPowerSupply deviceAddress => (Library.readPowerSupply Bus.wire deviceAddress bus).2
  | .search searchMode s => (OneWire.Search.search Bus.wire searchMode s bus).bus
  | .alarmSearch s => (Library.alarmSearch Bus.wire s bus).2.2
  | .pass ms => Bus.wire.delay ms bus
  | .warm samples => bus.update (fun d => { d with sample := samples d.rom }) fun _ => rfl

/-! The purpose of a call, for one device and one register at a time. -/

/-- What the call puts into register `i` of the device with ROM code `rom`. -/
def puts (rom : Address) (i : ℕ) : Op → Option Byte
  | .setResolution deviceAddress newResolution =>
    if rom = deviceAddress ∧ i = 4 ∧ rom.get 0 ≠ 0x10 then some (configuration newResolution)
    else none
  | .setUserData deviceAddress data =>
    if rom = deviceAddress ∧ i = 2 then some ((data.sshiftRight 8).setWidth 8)
    else if rom = deviceAddress ∧ i = 3 then some ((data &&& 255).setWidth 8)
    else none
  | .setHighAlarmTemp deviceAddress celsius =>
    if rom = deviceAddress ∧ i = 2 then some (alarmTemp celsius) else none
  | .setLowAlarmTemp deviceAddress celsius =>
    if rom = deviceAddress ∧ i = 3 then some (alarmTemp celsius) else none
  | _ => none

end Op

/-- Register `i` of the device with this ROM code. -/
def registerAt (rom : Address) (i : ℕ) (bus : Bus) : Option Byte :=
  (find rom bus).map fun d => d.memory.get i

theorem registerAt_congr {bus other : Bus} (same : settled bus = settled other) (rom : Address)
    (i : ℕ) : registerAt rom i bus = registerAt rom i other := by
  have found := find_elim_congr same rom none (f := fun d => some (d.memory.get i)) fun _ => rfl
  have each : ∀ bus, registerAt rom i bus =
      (find rom bus).elim none fun d => some (d.memory.get i) := by
    intro bus
    unfold registerAt
    cases find rom bus <;> rfl
  rw [each, each, found]

theorem registerAt_update {bus : Bus} {f : Device → Device} (keeps : ∀ d, (f d).rom = d.rom)
    {rom : Address} {i : ℕ} {change : Byte → Byte}
    (changed : ∀ d, d.rom = rom → (f d).memory.get i = change (d.memory.get i)) :
    registerAt rom i (bus.update f keeps) = (registerAt rom i bus).map change := by
  rw [registerAt, find_update, registerAt]
  cases found : find rom bus with
  | none => rfl
  | some d => exact congrArg some (changed d (find_rom found).2)

/-- A register that a function keeps. -/
theorem registerAt_kept {bus : Bus} {f : Device → Device} (keeps : ∀ d, (f d).rom = d.rom)
    {rom : Address} {i : ℕ} (kept : ∀ d, (f d).memory.get i = d.memory.get i) :
    registerAt rom i (bus.update f keeps) = registerAt rom i bus := by
  have same : ∀ d, d.rom = rom → (f d).memory.get i = id (d.memory.get i) := fun d _ => kept d
  exact (registerAt_update keeps same).trans Option.map_id_apply

/-- Editing the scratch pad puts the edited registers in place. -/
theorem amend_puts {edit : ScratchPad → ScratchPad} {deviceAddress : Address}
    {puts : Address → ℕ → Option Byte}
    (edited : ∀ pad : ScratchPad, ∀ i < 8,
      (edit pad).get i = (puts deviceAddress i).getD (pad.get i))
    (others : ∀ i, ¬(i = 2 ∨ i = 3 ∨ (i = 4 ∧ deviceAddress.get 0 ≠ 0x10)) →
      puts deviceAddress i = none)
    (addressed : ∀ rom i, rom ≠ deviceAddress → puts rom i = none) (bus : Bus) (rom : Address)
    {i : ℕ} (inside : i < 8) :
    registerAt rom i (amend Bus.wire edit deviceAddress bus).2 =
      (registerAt rom i bus).map (puts rom i).getD := by
  rw [registerAt_congr (amend_eq edit deviceAddress bus).2]
  refine registerAt_update _ fun d its => ?_
  unfold inPlace
  split_ifs with here
  · obtain rfl : deviceAddress = rom := here.symm.trans its
    subst here
    rw [written_get _ _ inside]
    split_ifs with mine
    · rw [edited (padOf d) i inside, get_padOf d inside]
    · rw [others i mine]
      rfl
  · rw [addressed rom i fun same => here (its.trans same)]
    rfl

theorem put_one (pad : ScratchPad) {deviceAddress : Address} {v : Byte} {i j : ℕ}
    (inside : i < 8) :
    (pad.modify j fun _ => v).get i =
      (if deviceAddress = deviceAddress ∧ i = j then some v else none).getD (pad.get i) := by
  rw [Octets.get_modify _ _ (Nat.lt_succ_of_lt inside)]
  by_cases mine : i = j
  · rw [if_pos mine, if_pos ⟨rfl, mine⟩]
    rfl
  · rw [if_neg mine, if_neg fun all => mine all.2]
    rfl

theorem setResolution_puts (deviceAddress : Address) (newResolution : Byte) (bus : Bus)
    (rom : Address) {i : ℕ} (inside : i < 8) :
    registerAt rom i (Library.setResolution Bus.wire deviceAddress newResolution bus).2 =
      (registerAt rom i bus).map
        ((Op.setResolution deviceAddress newResolution).puts rom i).getD := by
  unfold Library.setResolution
  by_cases family : deviceAddress.get 0 = 0x10
  · have nothing : (Op.setResolution deviceAddress newResolution).puts rom i = none := by
      rw [Op.puts, if_neg]
      rintro ⟨same, _, other⟩
      exact other (same ▸ family)
    rw [if_pos family, nothing]
    refine (registerAt_congr (isConnected_eq deviceAddress bus).2 rom i).trans ?_
    exact Option.map_id_apply.symm
  · rw [if_neg family]
    apply amend_puts _ _ _ _ _ inside
    · intro pad i inside
      rw [Octets.get_modify _ _ (Nat.lt_succ_of_lt inside), Op.puts]
      by_cases mine : i = 4
      · rw [if_pos mine, if_pos ⟨rfl, mine, family⟩]
        rfl
      · rw [if_neg mine, if_neg fun all => mine all.2.1]
        rfl
    · exact fun i other => if_neg fun mine => other (.inr (.inr mine.2))
    · exact fun rom i other => if_neg fun mine => other mine.1

theorem setUserData_puts (deviceAddress : Address) (data : BitVec 16) (bus : Bus)
    (rom : Address) {i : ℕ} (inside : i < 8) :
    registerAt rom i (Library.setUserData Bus.wire deviceAddress data bus) =
      (registerAt rom i bus).map ((Op.setUserData deviceAddress data).puts rom i).getD := by
  apply amend_puts _ _ _ _ _ inside
  · intro pad i inside
    have place := Nat.lt_succ_of_lt inside
    rw [Octets.get_modify _ _ place, Octets.get_modify _ _ place, Op.puts]
    simp only [true_and]
    by_cases high : i = 2
    · rw [if_neg (by omega), if_pos high, if_pos high]
      rfl
    · rw [if_neg high, if_neg high]
      by_cases low : i = 3
      · rw [if_pos low, if_pos low]
        rfl
      · rw [if_neg low, if_neg low]
        rfl
  · intro i other
    rw [Op.puts, if_neg fun mine => other (.inl mine.2),
      if_neg fun mine => other (.inr (.inl mine.2))]
  · intro rom i other
    rw [Op.puts, if_neg fun mine => other mine.1, if_neg fun mine => other mine.1]

/-- A request for temperatures, or time, changes no register but those of the temperature. -/
theorem request_register (deviceAddress : Address) (poll : Poll) (s : Sensors) (bus : Bus)
    (rom : Address) {i : ℕ} (kept : i = 2 ∨ i = 3 ∨ i = 4) :
    registerAt rom i (Library.requestTemperaturesByAddress Bus.wire deviceAddress poll s bus).2 =
      registerAt rom i bus := by
  apply request_keeps fun line => registerAt rom i line = registerAt rom i bus
  · exact fun same before => (registerAt_congr same rom i).trans before
  · intro ms line before
    exact (registerAt_kept (Device.pass_rom ms) fun d => pass_get ms d (by omega)
      (by omega)).trans before
  · intro line before
    refine (registerAt_kept _ fun d => ?_).trans before
    unfold inPlace
    split_ifs <;> rfl
  · rfl

theorem requestAll_register (s : Sensors) (bus : Bus) (rom : Address) {i : ℕ}
    (kept : i = 2 ∨ i = 3 ∨ i = 4) :
    registerAt rom i (Library.requestTemperatures Bus.wire s bus).2 = registerAt rom i bus := by
  have started : registerAt rom i (Bus.wire.write 0x44 (Bus.wire.skip (Bus.wire.reset bus).2)) =
      registerAt rom i bus := by
    rw [command_all]
    exact registerAt_kept _ fun _ => rfl
  unfold Library.requestTemperatures
  split_ifs
  · refine (registerAt_kept (Device.pass_rom _) fun d => ?_).trans started
    exact pass_get _ d (by omega) (by omega)
  · exact started

/-- On the line a call puts into each register what it is meant to put there. -/
theorem run_register (op : Op) (bus : Bus) (rom : Address) {i : ℕ}
    (kept : i = 2 ∨ i = 3 ∨ i = 4) :
    registerAt rom i (op.run bus) = (registerAt rom i bus).map (op.puts rom i).getD := by
  have inside : i < 8 := by omega
  have nothing : ∀ {after : Bus}, settled after = settled bus →
      registerAt rom i after = (registerAt rom i bus).map (none : Option Byte).getD :=
    fun same => (registerAt_congr same rom i).trans Option.map_id_apply.symm
  cases op with
  | setResolution deviceAddress newResolution =>
    exact setResolution_puts deviceAddress newResolution bus rom inside
  | setUserData deviceAddress data => exact setUserData_puts deviceAddress data bus rom inside
  | setHighAlarmTemp deviceAddress celsius =>
    apply amend_puts _ _ _ _ _ inside
    · exact fun pad i inside => put_one pad inside
    · exact fun i other => if_neg fun mine => other (.inl mine.2)
    · exact fun rom i other => if_neg fun mine => other mine.1
  | setLowAlarmTemp deviceAddress celsius =>
    apply amend_puts _ _ _ _ _ inside
    · exact fun pad i inside => put_one pad inside
    · exact fun i other => if_neg fun mine => other (.inr (.inl mine.2))
    · exact fun rom i other => if_neg fun mine => other mine.1
  | requestTemperatures s =>
    exact (requestAll_register s bus rom kept).trans Option.map_id_apply.symm
  | requestTemperaturesByAddress deviceAddress poll s =>
    exact (request_register deviceAddress poll s bus rom kept).trans Option.map_id_apply.symm
  | look deviceAddress => exact nothing (isConnected_eq deviceAddress bus).2
  | readPowerSupply deviceAddress => exact nothing (readPowerSupply_eq deviceAddress bus).2
  | search searchMode s => exact nothing (search_settled searchMode bus s)
  | alarmSearch s => exact nothing (alarmSearch_settled s bus)
  | pass ms =>
    refine (registerAt_kept (Device.pass_rom ms) fun d => ?_).trans Option.map_id_apply.symm
    exact pass_get ms d inside (by omega)
  | warm samples =>
    exact (registerAt_kept (f := fun d => { d with sample := samples d.rom }) (fun _ => rfl)
      fun _ => rfl).trans Option.map_id_apply.symm

/-! Runs. -/

/-- Any calls with any addresses, one after the other. -/
def runs (ops : List Op) (bus : Bus) : Bus := ops.foldl Op.run bus

/-- What register `i` of a device holds that held `v`. -/
def last (rom : Address) (i : ℕ) (ops : List Op) (v : Byte) : Byte :=
  ops.foldl (fun v op => (op.puts rom i).getD v) v

theorem runs_register (ops : List Op) (bus : Bus) (rom : Address) {i : ℕ}
    (kept : i = 2 ∨ i = 3 ∨ i = 4) :
    registerAt rom i (runs ops bus) = (registerAt rom i bus).map (last rom i ops) := by
  induction ops generalizing bus with
  | nil => exact Option.map_id_apply.symm
  | cons op rest ih =>
    have later := ih (op.run bus)
    rw [run_register op bus rom kept, Option.map_map] at later
    exact later

/-- What an address finds after the calls. -/
theorem find_runs (rom : Address) (ops : List Op) (bus : Bus) :
    (find rom bus = none ∧ find rom (runs ops bus) = none) ∨
      ∃ d after, find rom bus = some d ∧ find rom (runs ops bus) = some after ∧
        ∀ i, i = 2 ∨ i = 3 ∨ i = 4 → after.memory.get i = last rom i ops (d.memory.get i) := by
  have registers : ∀ {i : ℕ}, i = 2 ∨ i = 3 ∨ i = 4 →
      (find rom (runs ops bus)).map (fun d => d.memory.get i) =
        ((find rom bus).map fun d => d.memory.get i).map (last rom i ops) :=
    fun kept => runs_register ops bus rom kept
  cases found : find rom bus with
  | none =>
    have none_ := registers (.inl rfl)
    rw [found] at none_
    exact .inl ⟨rfl, Option.map_eq_none_iff.mp none_⟩
  | some d =>
    obtain ⟨after, there, _⟩ := Option.map_eq_some_iff.mp
      (registers (.inl rfl) |>.trans (by rw [found]; rfl))
    refine .inr ⟨d, after, rfl, there, fun i kept => ?_⟩
    have register := registers kept
    rw [found, there] at register
    exact Option.some.inj register

/-- The two bytes of the user data, as they are read. -/
theorem joined (high low : Byte) :
    high.setWidth 16 <<< 8 + low.setWidth 16 = high ++ low := by
  apply BitVec.eq_of_toNat_eq
  have highByte := high.isLt
  have lowByte := low.isLt
  rw [BitVec.toNat_append, ← Nat.shiftLeft_add_eq_or_of_lt lowByte]
  simp only [BitVec.toNat_add, BitVec.toNat_shiftLeft, BitVec.toNat_setWidth, Nat.shiftLeft_eq]
  omega

/-- And as they are written. -/
theorem parted (data : BitVec 16) :
    ((data.sshiftRight 8).setWidth 8 ++ (data &&& 255).setWidth 8 : BitVec 16) = data := by
  apply BitVec.eq_of_getLsbD_eq
  intro i inside
  have mask : ∀ i : ℕ, i < 8 → (255 : BitVec 16).getLsbD i = true := by decide
  rw [BitVec.getLsbD_append]
  by_cases low : i < 8
  · rw [if_pos low, BitVec.getLsbD_setWidth, BitVec.getLsbD_and, mask i low,
      decide_eq_true low, Bool.true_and, Bool.and_true]
  · rw [if_neg low, BitVec.getLsbD_setWidth, BitVec.getLsbD_sshiftRight]
    have high : i - 8 < 8 := by omega
    have position : 8 + (i - 8) = i := by omega
    simp only [high, decide_true, Bool.true_and, position, inside, if_true]
    simp only [show ¬16 ≤ i - 8 by omega, decide_false, Bool.not_false, Bool.true_and]

/-- What is looked up after some operations, if it can be told from the device before. -/
theorem lookUp_last {α : Type} (otherwise : α) (look : ScratchPad → α) {value : Device → α}
    {deviceAddress : Address} (ops : List Op) (bus : Bus)
    (same : ∀ d after : Device, (∀ i, i = 2 ∨ i = 3 ∨ i = 4 →
      (padOf after).get i = last deviceAddress i ops (d.memory.get i)) →
        look (padOf after) = value d) :
    (lookUp Bus.wire otherwise look deviceAddress (runs ops bus)).1 =
      (find deviceAddress bus).elim otherwise value := by
  rw [(lookUp_eq otherwise look deviceAddress (runs ops bus)).1]
  rcases find_runs deviceAddress ops bus with ⟨before, nobody⟩ | found
  · rw [before, nobody]
    rfl
  · obtain ⟨d, after, before, there, registers⟩ := found
    rw [before, there]
    refine same d after fun i kept => ?_
    rw [get_padOf after (by omega), registers i kept]

theorem getUserData_last (deviceAddress : Address) (ops : List Op) (bus : Bus) :
    (getUserData Bus.wire deviceAddress (runs ops bus)).1 =
      (find deviceAddress bus).elim 0 fun d =>
        last deviceAddress 2 ops (d.memory.get 2) ++ last deviceAddress 3 ops (d.memory.get 3) := by
  apply lookUp_last
  intro d after registers
  rw [registers 2 (.inl rfl), registers 3 (.inr (.inl rfl)), joined]

theorem getResolution_last (deviceAddress : Address) (ops : List Op) (bus : Bus) :
    (getResolution Bus.wire deviceAddress (runs ops bus)).1 =
      if deviceAddress.get 0 = 0x10 then 12
      else (find deviceAddress bus).elim 0 fun d =>
        resolutionOf (last deviceAddress 4 ops (d.memory.get 4)) := by
  unfold getResolution
  by_cases family : deviceAddress.get 0 = 0x10
  · rw [if_pos family, if_pos family]
  · rw [if_neg family, if_neg family]
    apply lookUp_last
    intro d after registers
    rw [registers 4 (.inr (.inr rfl))]

/-- Every register holds what was put into it last, and the functions that look it up find that:
the alarm temperatures, the user data made of both, and the resolution. -/
theorem registers_hold (deviceAddress : Address) (ops : List Op) (bus : Bus) :
    let held := fun (i : ℕ) (d : Device) => last deviceAddress i ops (d.memory.get i)
    (getHighAlarmTemp Bus.wire deviceAddress (runs ops bus)).1 =
        (find deviceAddress bus).elim (-127) (held 2) ∧
      (getLowAlarmTemp Bus.wire deviceAddress (runs ops bus)).1 =
        (find deviceAddress bus).elim (-127) (held 3) ∧
      (getUserData Bus.wire deviceAddress (runs ops bus)).1 =
        (find deviceAddress bus).elim 0 (fun d => held 2 d ++ held 3 d) ∧
      (getResolution Bus.wire deviceAddress (runs ops bus)).1 =
        if deviceAddress.get 0 = 0x10 then 12
        else (find deviceAddress bus).elim 0 fun d => resolutionOf (held 4 d) := by
  intro held
  refine ⟨?_, ?_, getUserData_last deviceAddress ops bus, getResolution_last deviceAddress ops bus⟩
  · apply lookUp_last
    intro d after registers
    exact registers 2 (.inl rfl)
  · apply lookUp_last
    intro d after registers
    exact registers 3 (.inr (.inl rfl))

theorem last_kept {deviceAddress : Address} {i : ℕ} {ops : List Op}
    (others : ∀ op ∈ ops, op.puts deviceAddress i = none) (v : Byte) :
    last deviceAddress i ops v = v := by
  induction ops generalizing v with
  | nil => rfl
  | cons op rest ih =>
    have kept := ih (fun op member => others op (List.mem_cons_of_mem _ member)) v
    rw [last, List.foldl_cons, others op List.mem_cons_self]
    exact kept

/-- User data come back as they were set, whatever else has been done on the line since. -/
theorem userData_kept {deviceAddress : Address} {bus : Bus} {ops : List Op}
    (attached : (find deviceAddress bus).isSome) (data : BitVec 16)
    (others : ∀ op ∈ ops, op.puts deviceAddress 2 = none ∧ op.puts deviceAddress 3 = none) :
    (getUserData Bus.wire deviceAddress
      (runs (.setUserData deviceAddress data :: ops) bus)).1 = data := by
  obtain ⟨d, found⟩ := Option.isSome_iff_exists.mp attached
  have start : ∀ i v, last deviceAddress i (.setUserData deviceAddress data :: ops) v =
      last deviceAddress i ops
        (((Op.setUserData deviceAddress data).puts deviceAddress i).getD v) :=
    fun i v => rfl
  rw [getUserData_last, found]
  change last _ _ _ _ ++ last _ _ _ _ = data
  rw [start, start, last_kept fun op member => (others op member).1,
    last_kept fun op member => (others op member).2]
  have high : (Op.setUserData deviceAddress data).puts deviceAddress 2 =
      some ((data.sshiftRight 8).setWidth 8) := if_pos ⟨rfl, rfl⟩
  have low : (Op.setUserData deviceAddress data).puts deviceAddress 3 =
      some ((data &&& 255).setWidth 8) := by
    rw [Op.puts, if_neg fun mine => absurd mine.2 (by decide), if_pos ⟨rfl, rfl⟩]
  rw [high, low]
  exact parted data

theorem userData_kept_twoProbes :
    (getUserData Bus.wire (factoryNew 1).rom
      (runs [.setUserData (factoryNew 1).rom 0xBEEF, .setUserData (factoryNew 2).rom 7,
        .setResolution (factoryNew 1).rom 9, .requestTemperatures setOneWire] twoProbes)).1 =
      0xBEEF := by
  apply userData_kept (by decide)
  decide

/-- A resolution stays in force, and 9 bits if it was none. -/
theorem resolution_kept {deviceAddress : Address} {bus : Bus} {ops : List Op}
    (attached : (find deviceAddress bus).isSome) (newResolution : Byte)
    (others : ∀ op ∈ ops, op.puts deviceAddress 4 = none) :
    (getResolution Bus.wire deviceAddress
      (runs (.setResolution deviceAddress newResolution :: ops) bus)).1 =
        if deviceAddress.get 0 = 0x10 then 12
        else if newResolution ∈ [10, 11, 12] then newResolution
        else 9 := by
  obtain ⟨d, found⟩ := Option.isSome_iff_exists.mp attached
  rw [getResolution_last, found]
  by_cases family : deviceAddress.get 0 = 0x10
  · rw [if_pos family, if_pos family]
  · rw [if_neg family, if_neg family]
    have put : (Op.setResolution deviceAddress newResolution).puts deviceAddress 4 =
        some (configuration newResolution) := if_pos ⟨rfl, rfl, family⟩
    change resolutionOf (last deviceAddress 4 ops
      (((Op.setResolution deviceAddress newResolution).puts deviceAddress 4).getD _)) = _
    rw [last_kept others, put]
    exact resolutionOf_configuration newResolution

theorem resolution_kept_twoProbes :
    (getResolution Bus.wire (factoryNew 1).rom
      (runs [.setResolution (factoryNew 1).rom 10, .setUserData (factoryNew 1).rom 7,
        .setResolution (factoryNew 2).rom 11, .requestTemperatures setOneWire] twoProbes)).1 =
      10 := by
  refine (resolution_kept (by decide) 10 ?_).trans (by decide)
  decide

end ArduMash.Dallas.Store
