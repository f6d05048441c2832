import Mathlib.Data.BitVec
import Mathlib.Data.List.OfFn

/-!
The 1-Wire line under the master's functions. What a reset, the slots of single bits
and the time between them do is the line's own affair: a `Wire` is given by these
four, and everything above them is as the vendored OneWire library computes it.
-/

namespace ArduMash.OneWire.Line

abbrev Byte := BitVec 8

/-- An array of `n` bytes. -/
@[ext] structure Octets (n : ℕ) where
  byte : Fin n → Byte
  deriving DecidableEq

/-- `DeviceAddress`, and the `ROM_NO` of the search. -/
abbrev Address := Octets 8

namespace Octets
variable {n : ℕ}

/-- Only read inside the array. -/
def get (octets : Octets n) (i : ℕ) : Byte := if inside : i < n then octets.byte ⟨i, inside⟩ else 0

def modify (octets : Octets n) (i : ℕ) (change : Byte → Byte) : Octets n :=
  ⟨fun j => if j.val = i then change (octets.byte j) else octets.byte j⟩

def ofList (bytes : List Byte) : Octets n := ⟨fun i => bytes.getD i 0⟩

def toList (octets : Octets n) : List Byte := List.ofFn octets.byte

/-- Bit `k`, counted from the lowest bit of the first byte. -/
def bit (octets : Octets n) (k : ℕ) : Bool := (octets.get (k / 8)).getLsbD (k % 8)

theorem get_modify (octets : Octets n) (change : Byte → Byte) {i j : ℕ} (inside : j < n) :
    (octets.modify i change).get j = if j = i then change (octets.get j) else octets.get j := by
  simp only [get, modify, dif_pos inside]

theorem get_byte (octets : Octets n) (i : Fin n) : octets.get i = octets.byte i := dif_pos i.isLt

theorem eq_of_get {first second : Octets n} (same : ∀ i < n, first.get i = second.get i) :
    first = second := by
  apply Octets.ext
  funext i
  rw [← get_byte, ← get_byte, same i i.isLt]

/-- A byte is known by its bits. -/
theorem get_eq_of_bit {first second : Octets n} {i : ℕ}
    (same : ∀ j < 8, first.bit (8 * i + j) = second.bit (8 * i + j)) :
    first.get i = second.get i := by
  apply BitVec.eq_of_getLsbD_eq
  intro j inside
  have atBit := same j inside
  have byteNumber : (8 * i + j) / 8 = i := by omega
  have position : (8 * i + j) % 8 = j := by omega
  simpa only [bit, byteNumber, position] using atBit

theorem eq_of_bit {first second : Octets n}
    (same : ∀ k < 8 * n, first.bit k = second.bit k) : first = second := by
  apply eq_of_get
  intro i inside
  exact get_eq_of_bit fun j small => same (8 * i + j) (by omega)

end Octets

/-- A reset answers whether a device has sent its presence pulse. Milliseconds go by in `delay`
only. -/
structure Wire (σ : Type) where
  reset : σ → Bool × σ
  writeBit : Bool → σ → σ
  readBit : σ → Bool × σ
  delay : ℕ → σ → σ

/-- The values of the mask in the loops over the bits of a byte. -/
def bitMasks : List Byte := [0x01, 0x02, 0x04, 0x08, 0x10, 0x20, 0x40, 0x80]

namespace Wire
variable {σ : Type} (wire : Wire σ)

def write (v : Byte) (bus : σ) : σ :=
  bitMasks.foldl (fun bus mask => wire.writeBit (decide (mask &&& v ≠ 0)) bus) bus

def read (bus : σ) : Byte × σ :=
  bitMasks.foldl (fun sofar mask =>
    let slot := wire.readBit sofar.2
    (if slot.1 then sofar.1 ||| mask else sofar.1, slot.2)) (0, bus)

def writeBytes (bytes : List Byte) (bus : σ) : σ :=
  bytes.foldl (fun bus byte => wire.write byte bus) bus

def readBytes : ℕ → σ → List Byte × σ
  | 0, bus => ([], bus)
  | count + 1, bus =>
    let first := wire.read bus
    let rest := readBytes count first.2
    (first.1 :: rest.1, rest.2)

/-- "Choose ROM". -/
def select (rom : Address) (bus : σ) : σ := wire.writeBytes rom.toList (wire.write 0x55 bus)

/-- "Skip ROM". -/
def skip (bus : σ) : σ := wire.write 0xCC bus

end Wire

/-! Bytes and their bits. -/

/-- The bits of a byte in the order they are sent. -/
def bits (v : Byte) : List Bool := (List.range 8).map v.getLsbD

theorem write_eq {σ : Type} (wire : Wire σ) (v : Byte) (bus : σ) :
    wire.write v bus = (bits v).foldl (fun bus b => wire.writeBit b bus) bus := by
  have masked : bitMasks.map (fun mask => decide (mask &&& v ≠ 0)) = bits v := by
    revert v
    decide
  rw [← masked, List.foldl_map]
  rfl

theorem writeBytes_eq {σ : Type} (wire : Wire σ) (bytes : List Byte) (bus : σ) :
    wire.writeBytes bytes bus =
      (bytes.flatMap bits).foldl (fun bus b => wire.writeBit b bus) bus := by
  unfold Wire.writeBytes
  rw [List.foldl_flatMap]
  simp only [write_eq]

/-- The byte made of eight bits in the order they arrive. -/
def ofBits (arrived : List Bool) : Byte :=
  (arrived.zip bitMasks).foldl (fun v slot => if slot.1 then v ||| slot.2 else v) 0

theorem ofBits_bits (v : Byte) : ofBits (bits v) = v := by
  revert v
  decide

def readBits {σ : Type} (wire : Wire σ) : ℕ → σ → List Bool × σ
  | 0, bus => ([], bus)
  | count + 1, bus =>
    let first := wire.readBit bus
    let rest := readBits wire count first.2
    (first.1 :: rest.1, rest.2)

theorem read_eq {σ : Type} (wire : Wire σ) (bus : σ) :
    wire.read bus = (ofBits (readBits wire 8 bus).1, (readBits wire 8 bus).2) := rfl

end ArduMash.OneWire.Line
