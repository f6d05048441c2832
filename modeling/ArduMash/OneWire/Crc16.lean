import ArduMash.OneWire.Crc

/-!
The check sum of longer messages, which devices send inverted. What the library
computes with a table of parities is the polynomial of 16 bits.
-/

namespace ArduMash.OneWire.Crc16
open Line Crc Foundation.ReflectedCrc

def oddparity : List Byte := [0, 1, 1, 0, 1, 0, 0, 1, 1, 0, 0, 1, 0, 1, 1, 0]

/-- One turn of the loop, as it is compiled where there is no `_crc16_update`. -/
def crc16Byte (crc : BitVec 16) (byte : Byte) : BitVec 16 :=
  let cdata := (byte.setWidth 16 ^^^ crc) &&& 0xff
  let crc := crc >>> 8
  let crc :=
    if oddparity.getD (cdata &&& 0x0F).toNat 0 ^^^ oddparity.getD (cdata >>> 4).toNat 0 ≠ 0 then
      crc ^^^ 0xC001
    else crc
  let cdata := cdata <<< 6
  let crc := crc ^^^ cdata
  let cdata := cdata <<< 1
  crc ^^^ cdata

def crc16 (input : List Byte) (crc : BitVec 16) : BitVec 16 := input.foldl crc16Byte crc

/-- `first` and `second` are the bytes of `inverted_crc`. -/
def checkCrc16 (input : List Byte) (first second : Byte) (crc : BitVec 16) : Bool :=
  let crc := ~~~crc16 input crc
  decide (crc &&& 0xFF = first.setWidth 16) && decide (crc >>> 8 = second.setWidth 16)

/-- With the lowest bit first. -/
def polynomial16 : BitVec 16 := 0xA001

theorem polynomial16_top : polynomial16.getLsbD (16 - 1) = true := by decide

theorem parity_polynomial16 : Parity polynomial16 fun crc => sumBits crc 16 :=
  parity_sumBits polynomial16 (by decide)

/-- Eight shifts take the upper byte of the register to the lower. -/
theorem run_upper (high : Byte) :
    run polynomial16 (high.setWidth 16 <<< 8) (List.replicate 8 false) = high.setWidth 16 := by
  have clear : ∀ i < 8, (high.setWidth 16 <<< 8 : BitVec 16).getLsbD i = false := by
    intro i below
    simp [BitVec.getLsbD_shiftLeft, below]
  rw [run_zeros_shift _ clear]
  apply BitVec.eq_of_getLsbD_eq
  intro i inside
  have beyond : 8 ≤ i → high.getLsbD i = false := BitVec.getLsbD_of_ge high i
  by_cases low : 8 + i < 16
  · simp [low, inside]
  · simp [low, beyond (by omega)]

/-- And what the lower byte feeds back is the loop's work on `cdata`. -/
theorem run_lower (low : Byte) :
    run polynomial16 (low.setWidth 16) (List.replicate 8 false) =
      crc16Byte 0 low := by
  revert low
  decide +kernel

theorem split_register (x : BitVec 16) :
    x = ((x >>> 8).setWidth 8 : Byte).setWidth 16 <<< 8 ^^^ (x.setWidth 8 : Byte).setWidth 16 := by
  apply BitVec.eq_of_getLsbD_eq
  intro i inside
  simp only [BitVec.getLsbD_xor, BitVec.getLsbD_shiftLeft, BitVec.getLsbD_setWidth,
    BitVec.getLsbD_ushiftRight]
  by_cases low : i < 8
  · simp [low, inside]
  · have upper : 8 + (i - 8) = i := by omega
    have fits : i - 8 < 8 := by omega
    have within : i - 8 < 16 := by omega
    simp [low, inside, upper, fits, within]

theorem crc16Byte_split (crc : BitVec 16) (byte : Byte) :
    crc16Byte crc byte = crc >>> 8 ^^^ crc16Byte 0 ((byte.setWidth 16 ^^^ crc).setWidth 8) := by
  have lower : (((byte.setWidth 16 ^^^ crc).setWidth 8 : Byte).setWidth 16 ^^^ 0) &&& 0xff =
      (byte.setWidth 16 ^^^ crc) &&& 0xff := by
    rw [show (0 : BitVec 16) = 0#16 from rfl, BitVec.xor_zero]
    apply BitVec.eq_of_getLsbD_eq
    intro i inside
    have mask : ∀ i < 16, (0xff : BitVec 16).getLsbD i = decide (i < 8) := by decide
    rw [BitVec.getLsbD_and, BitVec.getLsbD_and, mask i inside, BitVec.getLsbD_setWidth,
      BitVec.getLsbD_setWidth]
    by_cases low : i < 8 <;> simp [low, inside]
  unfold crc16Byte
  simp only [lower]
  split_ifs <;> simp [BitVec.xor_assoc]

/-- A byte goes into the register like its eight bits. -/
theorem crc16Byte_run (crc : BitVec 16) (byte : Byte) :
    crc16Byte crc byte = run polynomial16 crc (bits byte) := by
  have fitting : (bits byte).length ≤ 16 := by
    rw [length_bits]
    decide
  have added := run_eq_run_zeros polynomial16 crc fitting
  rw [value_bits, length_bits, split_register (crc ^^^ byte.setWidth 16), run_zeros_xor,
    run_upper, run_lower] at added
  have upper : ((crc ^^^ byte.setWidth 16) >>> 8).setWidth 8 = (crc >>> 8).setWidth 8 := by
    apply BitVec.eq_of_getLsbD_eq
    intro i inside
    simp [BitVec.getLsbD_setWidth, BitVec.getLsbD_ushiftRight, inside]
  have fits : ((crc >>> 8).setWidth 8 : Byte).setWidth 16 = crc >>> 8 := by
    apply BitVec.eq_of_toNat_eq
    have bound := crc.isLt
    simp only [BitVec.toNat_setWidth, BitVec.toNat_ushiftRight, Nat.shiftRight_eq_div_pow]
    omega
  rw [added, crc16Byte_split, upper, fits, BitVec.xor_comm (byte.setWidth 16)]

/-- The loop with the table computes the check sum of the polynomial, for any start. -/
theorem crc16_eq_run (input : List Byte) (crc : BitVec 16) :
    crc16 input crc = run polynomial16 crc (stream input) :=
  foldl_eq_run crc16Byte_run input crc

/-- What is left in the register after a message and its inverted check sum. -/
def residue : BitVec 16 := 0xB001

theorem toNat_joined (first second : Byte) :
    (second ++ first : BitVec 16).toNat = second.toNat * 256 + first.toNat := by
  rw [BitVec.toNat_append, ← Nat.shiftLeft_add_eq_or_of_lt first.isLt, Nat.shiftLeft_eq]

theorem inverted_iff (y : BitVec 16) (first second : Byte) :
    (y &&& 0xFF = first.setWidth 16 ∧ y >>> 8 = second.setWidth 16) ↔ second ++ first = y := by
  have lower : (y &&& 0xFF).toNat = y.toNat % 256 :=
    (BitVec.toNat_and y 0xFF).trans (Nat.and_two_pow_sub_one_eq_mod y.toNat 8)
  have firstBound := first.isLt
  have secondBound := second.isLt
  have bound := y.isLt
  rw [← BitVec.toNat_inj, ← BitVec.toNat_inj, ← BitVec.toNat_inj, toNat_joined, lower,
    BitVec.toNat_ushiftRight, BitVec.toNat_setWidth, BitVec.toNat_setWidth,
    Nat.shiftRight_eq_div_pow]
  omega

theorem value_joined (first second : Byte) :
    (value (bits first ++ bits second) : BitVec 16) = second ++ first := by
  rw [value_append, value_bits, value_bits, length_bits]
  apply BitVec.eq_of_getLsbD_eq
  intro i inside
  rw [BitVec.getLsbD_xor, BitVec.getLsbD_shiftLeft, BitVec.getLsbD_append, BitVec.getLsbD_setWidth,
    BitVec.getLsbD_setWidth]
  by_cases low : i < 8
  · simp [low, inside]
  · have within : i - 8 < 16 := by omega
    have beyond : first.getLsbD i = false := BitVec.getLsbD_of_ge first i (by omega)
    simp [low, inside, within, beyond]

theorem complement_iff (sum v : BitVec 16) : sum ^^^ v = 0xFFFF ↔ v = ~~~sum := by
  have ones : (0xFFFF : BitVec 16) = BitVec.allOnes 16 := rfl
  rw [ones, ← BitVec.xor_allOnes]
  constructor
  · intro same
    rw [← same, ← BitVec.xor_assoc, BitVec.xor_self, BitVec.zero_xor]
  · intro same
    rw [same, ← BitVec.xor_assoc, BitVec.xor_self, BitVec.zero_xor]

/-- Nothing else leaves the same in the register after shifting. -/
theorem shifted_iff (x y : BitVec 16) (count : ℕ) :
    run polynomial16 x (List.replicate count false) =
      run polynomial16 y (List.replicate count false) ↔ x = y := by
  constructor
  · intro same
    by_contra different
    refine run_zeros_ne_zero polynomial16_top
      (fun none_ => different (BitVec.xor_eq_zero_iff.mp none_)) count
      (?_ : run polynomial16 (x ^^^ y) _ = 0)
    rw [run_zeros_xor, same, BitVec.xor_self]
    rfl
  · intro same
    rw [same]

/-- A message is accepted exactly if it leaves the residue, its inverted check sum included. -/
theorem checkCrc16_iff (input : List Byte) (first second : Byte) (crc : BitVec 16) :
    checkCrc16 input first second crc = true ↔
      run polynomial16 crc (stream (input ++ [first, second])) = residue := by
  have last : stream (input ++ [first, second]) = stream input ++ (bits first ++ bits second) := by
    simp [stream, List.flatMap_append]
  have long : (bits first ++ bits second).length = 16 := by
    rw [List.length_append, length_bits, length_bits]
  have left : residue = run polynomial16 0xFFFF (List.replicate 16 false) := by decide +kernel
  rw [checkCrc16, Bool.and_eq_true, decide_eq_true_iff, decide_eq_true_iff, inverted_iff,
    crc16_eq_run, last, run_append, run_eq_run_zeros polynomial16 _ (Nat.le_of_eq long), long,
    value_joined, left, shifted_iff, complement_iff]

/-- An odd number of wrong bits, or any within sixteen in a row. -/
inductive Slight16 (wrong : List Bool) : Prop where
  | odd (odd : wrong.count true % 2 = 1)
  | burst (before after : ℕ) (window : List Bool) (short : window.length < 16)
      (same : wrong = List.replicate before false ++
        true :: (window ++ List.replicate after false))

/-- Of a message that is accepted, no copy with a slight error is, however long it is. -/
theorem checkCrc16_sees {sent received : List Byte} {first second otherFirst otherSecond : Byte}
    {crc : BitVec 16} (accepted : checkCrc16 sent first second crc = true)
    (same : received.length = sent.length)
    (slight : Slight16 (difference (sent ++ [first, second])
      (received ++ [otherFirst, otherSecond]))) :
    checkCrc16 received otherFirst otherSecond crc = false := by
  rw [← Bool.not_eq_true]
  intro passed
  have streams : (stream (sent ++ [first, second])).length =
      (stream (received ++ [otherFirst, otherSecond])).length := by
    rw [length_stream, length_stream, List.length_append, List.length_append, same]
    rfl
  have unseen := (run_eq_iff polynomial16 crc streams).mp
    (((checkCrc16_iff _ _ _ _).mp accepted).trans ((checkCrc16_iff _ _ _ _).mp passed).symm)
  revert unseen
  cases slight with
  | odd odd => exact parity_polynomial16.odd_seen odd
  | burst before after window small equal =>
    rw [difference] at equal
    rw [equal]
    exact burst_seen polynomial16_top before after small

theorem checkCrc16_sees_one : checkCrc16 [0xF0, 0x88, 0x01] 0x99 0xCC 0 = false :=
  checkCrc16_sees
    (show checkCrc16 [0xF0, 0x88, 0x00] 0x99 0xCC 0 = true by decide) rfl
    (.odd (by decide))

end ArduMash.OneWire.Crc16
