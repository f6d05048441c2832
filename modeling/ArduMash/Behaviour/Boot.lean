import ArduMash.Dallas.Indices
import ArduMash.Database.Records
import ArduMash.Sketch.Board

/-!
What `setup` leaves. It takes the first device of the line for the probe, and starts
with an empty table whatever the EEPROM held.
-/

namespace ArduMash.Behaviour.Boot
open Sketch Globals Hardware Board Foundation.CellMemory
open OneWire.Line OneWire.Devices OneWire.Addressing OneWire.Calls
open Dallas.Library (Sensors setOneWire validAddress getAddress)
open Dallas.Registers (Finishes)
open Dallas.Inventory Dallas.Indices Database.Library Database.Records

abbrev Cell := Sketch.Globals.Byte

/-- What `setup` does at a line of devices. -/
abbrev bootedAt {τ : Type} (eeprom : Memory τ Cell) (extra : ℕ) (m : τ) (bus : Bus) :
    Booted τ Bus :=
  setup eeprom Bus.wire ((visible bus).length + 1 + extra) m bus

/-- And what it has when it asks for the address of the probe. -/
abbrev begunAt (extra : ℕ) (bus : Bus) : Sensors × Bus :=
  Dallas.Library.begin Bus.wire ((visible bus).length + 1 + extra) setOneWire bus

/-- The line about the missing address is printed if it is missing. -/
theorem noAddressLine_printed (devices : Cell) (located : Bool) :
    .serial noAddressLine ∈ setupEvents devices located ↔ located = false := by
  cases located <;> simp [setupEvents, noAddressLine, draw, bootScreen]

section Setup
variable {τ : Type} (eeprom : Memory τ Cell) (extra : ℕ) (m : τ) (bus : Bus)

/-- The address of the probe, and what becomes of the object. -/
theorem located_eq :
    let booted := bootedAt eeprom extra m bus
    booted.ram.insideThermometer = (visible bus).head?.getD ⟨fun _ => 0⟩ ∧
      (.serial noAddressLine ∈ booted.events ↔
        ¬(visible bus).head?.any fun rom => validAddress rom) ∧
      (∃ state, booted.ram.sensors = { (begunAt extra bus).1 with oneWire := state }) ∧
      settled booted.line = settled bus := by
  intro booted
  have zero : (0 : Cell).toNat < 255 := by decide
  have fuel : (0 : Cell).toNat + 1 + ((visible bus).length + extra) =
      (visible bus).length + 1 + extra := by
    rw [show (0 : Cell).toNat = 0 from rfl]
    omega
  have unchanged := (begin_eq extra setOneWire bus).2
  obtain ⟨result, found, ⟨state, sensors⟩, later⟩ := getAddress_eq ((visible bus).length + extra)
    ⟨fun _ => 0⟩ zero (begunAt extra bus).1 (begunAt extra bus).2
  rw [visible_congr unchanged] at result found
  rw [fuel] at result found later sensors
  refine ⟨?_, ?_, ⟨state, sensors⟩, later.trans unchanged⟩
  · refine found.trans ?_
    cases visible bus <;> rfl
  · rw [show booted.events = setupEvents _ _ from rfl, noAddressLine_printed, Bool.not_eq_true]
    refine Eq.congr_left (result.trans ?_)
    cases visible bus <;> rfl

/-- The new table takes two cells. -/
theorem created_eq {capacity : ℕ}
    (fits : myTbl + headSize + capacity * recipeStepSize.toNat ≤ eeprom.size) :
    let booted := bootedAt eeprom extra m bus
    Holds eeprom myTbl recipeStepSize capacity (booted.ram.db, booted.eeprom) [] ∧
      eeprom.SameOutside (fun a => a = 1 ∨ a = 2) m booted.eeprom := by
  have inside := head_inside fits
  refine ⟨(created_holds fits powerOn.db m).1, fun a room other => ?_⟩
  rw [not_or] at other
  exact (eeprom.read_write_ne _ _ inside room other.2).trans
    (eeprom.read_write_ne _ _ (Nat.lt_of_succ_lt inside) room other.1)

/-- `setup` takes the first device it can see for the probe, and keeps the address also if its check
sum is wrong and the sketch has said that there is none. It leaves the devices as they are. The
table it creates is empty whatever the EEPROM held, and only the two cells of its head are
written. -/
theorem setup_boots {capacity : ℕ}
    (fits : myTbl + headSize + capacity * recipeStepSize.toNat ≤ eeprom.size) :
    let booted := bootedAt eeprom extra m bus
    booted.ram.state = Globals.setup ∧
      booted.ram.insideThermometer = (visible bus).head?.getD ⟨fun _ => 0⟩ ∧
      (.serial noAddressLine ∈ booted.events ↔
        ¬(visible bus).head?.any fun rom => validAddress rom) ∧
      booted.ram.sensors.devices =
        BitVec.ofNat 8 ((visible bus).countP fun rom => validAddress rom) ∧
      settled booted.line = settled bus ∧
      Holds eeprom myTbl recipeStepSize capacity (booted.ram.db, booted.eeprom) [] ∧
      eeprom.SameOutside (fun a => a = 1 ∨ a = 2) m booted.eeprom := by
  intro booted
  obtain ⟨found, printed, ⟨state, sensors⟩, unchanged⟩ := located_eq eeprom extra m bus
  obtain ⟨empty, untouched⟩ := created_eq eeprom extra m bus fits
  refine ⟨rfl, found, printed, ?_, unchanged, empty, untouched⟩
  rw [sensors]
  exact begin_devices extra setOneWire bus

theorem setup_boots_twoProbes :
    let booted := bootedAt uno 0 [] twoProbes
    booted.ram.insideThermometer = (factoryNew 2).rom ∧ booted.ram.sensors.devices = 2 := by
  have both :
      [(factoryNew 2).rom, (factoryNew 1).rom].countP (fun rom => validAddress rom) = 2 := by
    decide
  obtain ⟨_, found, _, counted, _⟩ := setup_boots uno 0 [] twoProbes uno_fits
  rw [visible_twoProbes] at found counted
  rw [both] at counted
  exact ⟨found, counted⟩

/-- The waiting time is found out once. -/
theorem booted_finishes {line : Bus} {d : Device} (member : d ∈ line.devices)
    (counted : Counted bus line d.rom) : Finishes (bootedAt eeprom extra m bus).ram.sensors d := by
  obtain ⟨_, _, ⟨state, sensors⟩, _⟩ := located_eq eeprom extra m bus
  rw [sensors]
  exact begin_finishes extra bus (s := setOneWire) (by decide) rfl member counted

end Setup

end ArduMash.Behaviour.Boot
