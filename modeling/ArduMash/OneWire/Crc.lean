import ArduMash.Foundation.ReflectedCrc
import ArduMash.OneWire.Line
import Mathlib.Data.List.Iterate

/-!
The check sum of ROM codes and scratch pads. The library has it twice, by table and
bit by bit; which one is compiled is chosen by `ONEWIRE_CRC8_TABLE`.
-/

namespace ArduMash.OneWire.Crc
open Line Foundation.ReflectedCrc

def dscrcTable : List Byte :=
  [0, 94, 188, 226, 97, 63, 221, 131, 194, 156, 126, 32, 163, 253, 31, 65,
    157, 195, 33, 127, 252, 162, 64, 30, 95, 1, 227, 189, 62, 96, 130, 220,
    35, 125, 159, 193, 66, 28, 254, 160, 225, 191, 93, 3, 128, 222, 60, 98,
    190, 224, 2, 92, 223, 129, 99, 61, 124, 34, 192, 158, 29, 67, 161, 255,
    70, 24, 250, 164, 39, 121, 155, 197, 132, 218, 56, 102, 229, 187, 89, 7,
    219, 133, 103, 57, 186, 228, 6, 88, 25, 71, 165, 251, 120, 38, 196, 154,
    101, 59, 217, 135, 4, 90, 184, 230, 167, 249, 27, 69, 198, 152, 122, 36,
    248, 166, 68, 26, 153, 199, 37, 123, 58, 100, 134, 216, 91, 5, 231, 185,
    140, 210, 48, 110, 237, 179, 81, 15, 78, 16, 242, 172, 47, 113, 147, 205,
    17, 79, 173, 243, 112, 46, 204, 146, 211, 141, 111, 49, 178, 236, 14, 80,
    175, 241, 19, 77, 206, 144, 114, 44, 109, 51, 209, 143, 12, 82, 176, 238,
    50, 108, 142, 208, 83, 13, 239, 177, 240, 174, 76, 18, 145, 207, 45, 115,
    202, 148, 118, 40, 171, 245, 23, 73, 8, 86, 180, 234, 105, 55, 213, 139,
    87, 9, 235, 181, 54, 104, 138, 212, 149, 203, 41, 119, 244, 170, 72, 22,
    233, 183, 85, 11, 136, 214, 52, 106, 43, 117, 151, 201, 74, 20, 246, 168,
    116, 42, 200, 150, 21, 75, 169, 247, 182, 232, 10, 84, 215, 137, 107, 53]

/-- The variant with the table. -/
def crc8 (bytes : List Byte) : Byte :=
  bytes.foldl (fun crc byte => dscrcTable.getD (crc ^^^ byte).toNat 0) 0

/-- One turn of the inner loop on `(crc, inbyte)`. -/
def crcBit (state : Byte × Byte) : Byte × Byte :=
  let mix := (state.1 ^^^ state.2) &&& 0x01
  let shifted := state.1 >>> 1
  (if mix ≠ 0 then shifted ^^^ 0x8C else shifted, state.2 >>> 1)

/-- The variant bit by bit. -/
def crc8Direct (bytes : List Byte) : Byte :=
  bytes.foldl (fun crc inbyte => (crcBit^[8] (crc, inbyte)).1) 0

/-- The polynomial of the check sum, with the lowest bit first. -/
def polynomial : Byte := 0x8C

theorem polynomial_top : polynomial.getLsbD (8 - 1) = true := by decide

/-- The bits of some bytes in the order they are sent. -/
def stream (bytes : List Byte) : List Bool := bytes.flatMap bits

theorem length_bits (v : Byte) : (bits v).length = 8 := by simp [bits]

theorem stream_cons (byte : Byte) (rest : List Byte) :
    stream (byte :: rest) = bits byte ++ stream rest := List.flatMap_cons

theorem length_stream (bytes : List Byte) : (stream bytes).length = 8 * bytes.length := by
  simp [stream, length_bits, Nat.mul_comm]

theorem value_bits {w : ℕ} (v : Byte) : (value (bits v) : BitVec w) = v.setWidth w := value_word v

/-- A byte runs through the register as one exclusive or and eight shifts. -/
theorem run_bits (crc v : Byte) :
    run polynomial crc (bits v) = run polynomial (crc ^^^ v) (List.replicate 8 false) := by
  have added := run_eq_run_zeros polynomial crc (Nat.le_of_eq (length_bits v))
  rw [value_bits, length_bits, BitVec.setWidth_eq] at added
  exact added

theorem table_entry (index : Byte) :
    dscrcTable.getD index.toNat 0 = run polynomial index (List.replicate 8 false) := by
  have table : dscrcTable = (List.range 256).map fun i =>
      run polynomial (BitVec.ofNat 8 i) (List.replicate 8 false) := by
    decide +kernel
  rw [table, List.getD_eq_getElem?_getD, List.getElem?_map, List.getElem?_range index.isLt,
    Option.map_some, Option.getD_some, BitVec.ofNat_toNat, BitVec.setWidth_eq]

/-- A register that takes each byte like its eight bits takes a stream of them all. -/
theorem foldl_eq_run {w : ℕ} {poly : BitVec w} {f : BitVec w → Byte → BitVec w}
    (same : ∀ crc byte, f crc byte = run poly crc (bits byte)) (bytes : List Byte)
    (crc : BitVec w) : bytes.foldl f crc = run poly crc (stream bytes) := by
  induction bytes generalizing crc with
  | nil => rfl
  | cons byte rest ih => rw [List.foldl_cons, ih, stream_cons, run_append, same]

theorem crc8_eq_run (bytes : List Byte) : crc8 bytes = run polynomial 0 (stream bytes) := by
  apply foldl_eq_run
  intro crc byte
  rw [run_bits, table_entry]

theorem crcBit_eq (crc inbyte : Byte) :
    crcBit (crc, inbyte) = (step polynomial crc (inbyte.getLsbD 0), inbyte >>> 1) := by
  have low : ∀ mixed : Byte, mixed &&& 0x01 ≠ 0 ↔ mixed.getLsbD 0 = true := by decide
  simp only [crcBit, step, low, BitVec.getLsbD_xor, polynomial]

theorem crcBit_run (count : ℕ) (crc inbyte : Byte) :
    (crcBit^[count] (crc, inbyte)).1 =
      run polynomial crc ((List.range count).map inbyte.getLsbD) := by
  induction count generalizing crc inbyte with
  | zero => rfl
  | succ count ih =>
    rw [Function.iterate_succ_apply, crcBit_eq, ih, List.range_succ_eq_map, List.map_cons, run_cons,
      List.map_map]
    congr 2
    funext i
    simp [BitVec.getLsbD_ushiftRight, Nat.add_comm]

/-- The table agrees with the computation it stands for. -/
theorem crc8_eq_crc8Direct (bytes : List Byte) : crc8 bytes = crc8Direct bytes := by
  rw [crc8_eq_run]
  exact (foldl_eq_run (fun crc inbyte => crcBit_run 8 crc inbyte) bytes 0).symm

/-- Bytes followed by their check sum leave the register empty, and no other byte does. -/
theorem crc8_append (bytes : List Byte) (sum : Byte) :
    crc8 (bytes ++ [sum]) = 0 ↔ crc8 bytes = sum := by
  have last : stream (bytes ++ [sum]) = stream bytes ++ bits sum := by
    simp [stream, List.flatMap_append]
  rw [crc8_eq_run, crc8_eq_run, last, run_append, run_bits]
  constructor
  · intro cleared
    by_contra other
    exact run_zeros_ne_zero polynomial_top
      (fun same => other (BitVec.xor_eq_zero_iff.mp same)) 8 cleared
  · intro same
    rw [same, BitVec.xor_self]
    exact run_zeros polynomial 8

/-! Errors on the line. -/

/-- Where the bits of two messages differ. -/
def difference (sent received : List Byte) : List Bool :=
  List.zipWith (· ^^ ·) (stream sent) (stream received)

/-- Up to three wrong bits, any odd number of them, or any within eight in a row. -/
inductive Slight (wrong : List Bool) : Prop where
  | few (some_ : 0 < wrong.count true) (upTo : wrong.count true ≤ 3)
  | odd (odd : wrong.count true % 2 = 1)
  | burst (before after : ℕ) (window : List Bool) (short : window.length < 8)
      (same : wrong = List.replicate before false ++
        true :: (window ++ List.replicate after false))

theorem parity_polynomial : Parity polynomial fun crc => sumBits crc 8 :=
  parity_sumBits polynomial (by decide)

/-- The register needs 127 shifts to come round. -/
theorem not_round : ∀ between < 126,
    run polynomial polynomial (List.replicate between false) ≠ 1 := by
  have orbit : 1 ∉ List.iterate (fun crc => step polynomial crc false) polynomial 126 := by
    decide +kernel
  intro between inside one
  apply orbit
  rw [List.mem_iterate]
  exact ⟨between, inside, by rw [← run_zeros_iterate, one]⟩

/-- A slight error in up to 15 bytes, of which the last is the check sum, is always seen. -/
theorem slight_seen {sent received : List Byte} (checked : crc8 sent = 0)
    (same : received.length = sent.length) (short : sent.length ≤ 15)
    (slight : Slight (difference sent received)) : crc8 received ≠ 0 := by
  have streams : (stream sent).length = (stream received).length := by
    rw [length_stream, length_stream, same]
  have length : (difference sent received).length = 8 * sent.length := by
    simp only [difference, List.length_zipWith, ← streams, length_stream, Nat.min_self]
  rw [crc8_eq_run] at checked ⊢
  intro cleared
  have unseen : run polynomial 0 (difference sent received) = 0 :=
    (run_eq_iff polynomial 0 streams).mp (checked.trans cleared.symm)
  revert unseen
  cases slight with
  | few some_ upTo =>
    exact few_seen polynomial_top parity_polynomial
      (fun between inside => not_round between (by omega)) some_ upTo
  | odd odd => exact parity_polynomial.odd_seen odd
  | burst before after window small equal =>
    rw [equal]
    exact burst_seen polynomial_top before after small

end ArduMash.OneWire.Crc
