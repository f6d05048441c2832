import ArduMash.OneWire.Crc

/-!
The thermometers at the line, bit by bit, as far as the library talks to them. A
slot is low if the master or any device pulls it low, and whoever listens takes the
level of the line. ROM codes are unique.
-/

namespace ArduMash.OneWire.Devices
open Line Crc

inductive Phase where
  /-- Until the next reset. -/
  | idle
  | romCommand (count : ℕ) (heard : Byte)
  | searchBit (k : ℕ)
  | searchComplement (k : ℕ)
  | searchDirection (k : ℕ)
  | matching (k : ℕ)
  | command (count : ℕ) (heard : Byte)
  | sending (rest : List Bool)
  | receiving (index count : ℕ) (heard : Byte)
  deriving DecidableEq

/-- `memory` is the scratch pad without its check sum, `sample` what a conversion puts into the
registers of the temperature when it ends, and `conversion` the milliseconds until then. That a
device pulls down the slots right after the command, until it has converted, is left out: the
library goes on with a reset. -/
structure Device where
  rom : Address
  memory : Octets 8
  sample : Octets 8
  parasite : Bool
  alarm : Bool
  conversion : Option ℕ
  phase : Phase
  deriving DecidableEq

namespace Device

/-- The nine bytes a device sends. -/
def scratchPad (d : Device) : List Byte := d.memory.toList ++ [crc8 d.memory.toList]

/-- The whole degrees in the temperature register, against TL and TH. They start at bit 4, in a
DS18S20 at bit 1. -/
def alarmCondition (rom : Address) (memory : Octets 8) : Bool :=
  let register := memory.get 1 ++ memory.get 0
  let degrees : Byte := (register >>> if rom.get 0 = 0x10 then 1 else 4).setWidth 8
  degrees.sle (memory.get 3) || (memory.get 2).sle degrees

/-- The registers of the temperature are bytes 0, 1 and 6. -/
def converted (d : Device) : Octets 8 :=
  ⟨fun i => if i.val = 0 ∨ i.val = 1 ∨ i.val = 6 then d.sample.byte i else d.memory.byte i⟩

/-- The milliseconds a conversion takes at most, rounded up, by bits 5 and 6 of the configuration. A
DS18S20 has no configuration. -/
def conversionTime (d : Device) : ℕ :=
  if d.rom.get 0 = 0x10 then 750
  else
    match (d.memory.get 4).getLsbD 6, (d.memory.get 4).getLsbD 5 with
    | false, false => 94
    | false, true => 188
    | true, false => 375
    | true, true => 750

def startConversion (d : Device) : Device := { d with conversion := some d.conversionTime }

def endConversion (d : Device) : Device :=
  { d with
    memory := d.converted
    alarm := alarmCondition d.rom d.converted
    conversion := none }

/-- What `ms` milliseconds do. -/
def pass (ms : ℕ) (d : Device) : Device :=
  match d.conversion with
  | none => d
  | some left => if left ≤ ms then d.endConversion else { d with conversion := some (left - ms) }

def obeyRom (v : Byte) (d : Device) : Device :=
  { d with
    phase :=
      if v = 0xF0 then .searchBit 0
      else if v = 0xEC then (if d.alarm then .searchBit 0 else .idle)
      else if v = 0x55 then .matching 0
      else if v = 0xCC then .command 0 0
      else .idle }

def obey (v : Byte) (d : Device) : Device :=
  if v = 0x44 then { d.startConversion with phase := .idle }
  else
    { d with
      phase :=
        if v = 0xBE then .sending (stream d.scratchPad)
        else if v = 0x4E then .receiving 2 0 0
        else if v = 0xB4 then .sending [!d.parasite]
        else .idle }

/-- The registers that are written end before byte 4 in a DS18S20, and after it in the others. -/
def writable (d : Device) : ℕ := if d.rom.get 0 = 0x10 then 4 else 5

def store (index : ℕ) (v : Byte) (d : Device) : Device :=
  { d with
    memory := d.memory.modify index (fun _ => v)
    phase := if index + 1 < d.writable then .receiving (index + 1) 0 0 else .idle }

/-- The level a device lets through. -/
def drive (d : Device) : Bool :=
  match d.phase with
  | .searchBit k => d.rom.bit k
  | .searchComplement k => !d.rom.bit k
  | .sending (bit :: _) => bit
  | _ => true

/-- Bits come with the lowest first. -/
def shiftIn (heard : Byte) (line : Bool) : Byte := heard >>> 1 ||| if line then 0x80 else 0

def hear (line : Bool) (d : Device) : Device :=
  match d.phase with
  | .idle => d
  | .romCommand count heard =>
    if count + 1 < 8 then { d with phase := .romCommand (count + 1) (shiftIn heard line) }
    else d.obeyRom (shiftIn heard line)
  | .searchBit k => { d with phase := .searchComplement k }
  | .searchComplement k => { d with phase := .searchDirection k }
  | .searchDirection k =>
    { d with
      phase :=
        if line = d.rom.bit k then (if k + 1 < 64 then .searchBit (k + 1) else .command 0 0)
        else .idle }
  | .matching k =>
    { d with
      phase :=
        if line = d.rom.bit k then (if k + 1 < 64 then .matching (k + 1) else .command 0 0)
        else .idle }
  | .command count heard =>
    if count + 1 < 8 then { d with phase := .command (count + 1) (shiftIn heard line) }
    else d.obey (shiftIn heard line)
  | .sending rest => { d with phase := .sending rest.tail }
  | .receiving index count heard =>
    if count + 1 < 8 then { d with phase := .receiving index (count + 1) (shiftIn heard line) }
    else d.store index (shiftIn heard line)

@[simp] theorem obeyRom_rom (v : Byte) (d : Device) : (d.obeyRom v).rom = d.rom := rfl

@[simp] theorem obey_rom (v : Byte) (d : Device) : (d.obey v).rom = d.rom := by
  unfold obey
  split_ifs <;> rfl

@[simp] theorem store_rom (index : ℕ) (v : Byte) (d : Device) : (d.store index v).rom = d.rom := rfl

@[simp] theorem pass_rom (ms : ℕ) (d : Device) : (d.pass ms).rom = d.rom := by
  unfold pass
  split
  · rfl
  · split_ifs <;> rfl

@[simp] theorem hear_rom (line : Bool) (d : Device) : (d.hear line).rom = d.rom := by
  unfold hear
  split
  all_goals first | rfl | (split_ifs <;> simp)

end Device

/-! The line with its devices. -/

@[ext] structure Bus where
  devices : List Device
  distinct : (devices.map Device.rom).Nodup

namespace Bus

/-- Every device changes on its own; its ROM code stays. -/
def update (bus : Bus) (f : Device → Device) (keeps : ∀ d, (f d).rom = d.rom) : Bus where
  devices := bus.devices.map f
  distinct := by
    rw [List.map_map, show Device.rom ∘ f = Device.rom from funext keeps]
    exact bus.distinct

theorem update_update (bus : Bus) {f g : Device → Device} (keepsF : ∀ d, (f d).rom = d.rom)
    (keepsG : ∀ d, (g d).rom = d.rom) :
    (bus.update f keepsF).update g keepsG =
      bus.update (fun d => g (f d)) (fun d => (keepsG (f d)).trans (keepsF d)) := by
  apply Bus.ext
  simp [update]

theorem update_congr (bus : Bus) {f g : Device → Device} {keepsF : ∀ d, (f d).rom = d.rom}
    {keepsG : ∀ d, (g d).rom = d.rom} (same : ∀ d ∈ bus.devices, f d = g d) :
    bus.update f keepsF = bus.update g keepsG :=
  Bus.ext (List.map_congr_left same)

def level (bus : Bus) (master : Bool) : Bool := master && bus.devices.all Device.drive

def slot (master : Bool) (bus : Bus) : Bool × Bus :=
  (bus.level master, bus.update (Device.hear (bus.level master)) (Device.hear_rom _))

/-- There is a presence pulse if there is a device. -/
def reset (bus : Bus) : Bool × Bus :=
  (!bus.devices.isEmpty, bus.update (fun d => { d with phase := .romCommand 0 0 }) fun _ => rfl)

/-- For the devices a slot in which the master reads is one in which it writes a 1. -/
def wire : Wire Bus where
  reset := reset
  writeBit := fun bit bus => (slot bit bus).2
  readBit := slot true
  delay := fun ms bus => bus.update (Device.pass ms) (Device.pass_rom ms)

end Bus

/-- A DS18B20 as it is delivered, with alarms at 75 and 70 degrees and a resolution of 12 bits. -/
def factoryNew (serial : Byte) : Device where
  rom :=
    .ofList ([0x28, serial, 0, 0, 0, 0, 0] ++ [crc8 [0x28, serial, 0, 0, 0, 0, 0]])
  memory := .ofList [0x50, 0x05, 0x4B, 0x46, 0x7F, 0xFF, 0x0C, 0x10]
  sample := .ofList [0x91, 0x01, 0x4B, 0x46, 0x7F, 0xFF, 0x0F, 0x10]
  parasite := false
  alarm := false
  conversion := none
  phase := .idle

def twoProbes : Bus := ⟨[factoryNew 1, factoryNew 2], by decide⟩

end ArduMash.OneWire.Devices
