import MctpSerial.FrameCheckSequence
import MctpSerial.ShiftRegisters

/-!
# The frame check sequence bit by bit

The table of `calcFcs` is that of a shift register which reads a byte bit by bit, lowest
bit first: every entry is eight moves of the register. The checksum is therefore the
reflected CRC-16 with the polynomial `0x8408`, without a final complement.
-/
namespace MctpSerial.MctpFramer
open ShiftRegisters

/-- The taps of the frame check sequence. -/
def fcsTaps : BitVec 16 := 0x8408#16

theorem fcsTaps_top : fcsTaps.getLsbD (16 - 1) = true := by decide

theorem parity_fcsTaps : parity fcsTaps = true := by decide

/-- Every entry of the table is eight moves of the register. -/
theorem fcstab_eq (i : Fin 256) :
    fcstab.getD i 0 = (shift fcsTaps)^[8] (BitVec.ofNat 16 i) := by
  revert i
  decide +kernel

theorem getLsbD_mask (i : ℕ) : (0xff#16).getLsbD i = decide (i < 8) := by
  by_cases hi : i < 16
  · have hmask : ∀ i : Fin 16, (0xff#16).getLsbD i = decide ((i : ℕ) < 8) := by decide
    exact hmask ⟨i, hi⟩
  · rw [BitVec.getLsbD_of_ge _ _ (by omega), decide_eq_false (by omega)]

/-- A word is its high byte and its low byte. -/
theorem split_bytes (z : BitVec 16) : z = ((z >>> 8) <<< 8) ^^^ (z &&& 0xff#16) := by
  apply BitVec.eq_of_getLsbD_eq
  intro i hi
  simp only [BitVec.getLsbD_xor, BitVec.getLsbD_shiftLeft, BitVec.getLsbD_ushiftRight,
    BitVec.getLsbD_and, getLsbD_mask, hi]
  by_cases h8 : i < 8
  · simp [h8]
  · simp [h8, show 8 + (i - 8) = i by omega]

theorem iterate_shift_eight (z : BitVec 16) :
    (shift fcsTaps)^[8] z = (z >>> 8) ^^^ fcstab.getD (z &&& 0xff#16).toNat 0 := by
  have hhigh : (shift fcsTaps)^[8] ((z >>> 8) <<< 8) = z >>> 8 := by
    refine iterate_shift_shiftLeft fcsTaps fun i hi => ?_
    rw [BitVec.getLsbD_ushiftRight, BitVec.getLsbD_of_ge z _ hi]
  have hlt : (z &&& 0xff#16).toNat < 256 := by
    rw [BitVec.toNat_and]
    exact Nat.and_lt_two_pow (n := 8) _ (by decide)
  have hlow : (shift fcsTaps)^[8] (z &&& 0xff#16) = fcstab.getD (z &&& 0xff#16).toNat 0 := by
    have htab := fcstab_eq ⟨(z &&& 0xff#16).toNat, hlt⟩
    rw [BitVec.ofNat_toNat, BitVec.setWidth_eq] at htab
    exact htab.symm
  conv_lhs => rw [split_bytes z]
  rw [iterate_shift_xor, hhigh, hlow]

/-- One turn of `calcFcs` reads the bits of one byte. -/
theorem fcsStep_eq_feed (fcs : BitVec 16) (c : Byte) :
    fcsStep fcs c = feed fcsTaps fcs (bitsOf c) := by
  have hbyte : c.setWidth 16 &&& 0xff#16 = c.setWidth 16 := by
    apply BitVec.eq_of_getLsbD_eq
    intro i hi
    rw [BitVec.getLsbD_and, getLsbD_mask, BitVec.getLsbD_setWidth]
    by_cases h8 : i < 8
    · simp [h8]
    · rw [BitVec.getLsbD_of_ge c i (by omega), Bool.and_false, Bool.false_and]
  have hhigh : (fcs ^^^ c.setWidth 16) >>> 8 = fcs >>> 8 := by
    apply BitVec.eq_of_getLsbD_eq
    intro i hi
    rw [BitVec.getLsbD_ushiftRight, BitVec.getLsbD_xor, BitVec.getLsbD_setWidth,
      BitVec.getLsbD_of_ge c (8 + i) (by omega), Bool.and_false, Bool.xor_false,
      BitVec.getLsbD_ushiftRight]
  rw [feed_eq_iterate fcsTaps (by simp), word_bitsOf, length_bitsOf, iterate_shift_eight, hhigh,
    fcsStep, hbyte]
  exact BitVec.allOnes_and

theorem foldl_fcsStep (fcs : BitVec 16) (bytes : List Byte) :
    bytes.foldl fcsStep fcs = feed fcsTaps fcs (bytes.flatMap bitsOf) := by
  induction bytes generalizing fcs with
  | nil => rfl
  | cons c bytes ih =>
    rw [List.foldl_cons, ih, fcsStep_eq_feed, List.flatMap_cons, feed_append]

/-! ## The bitwise checksum -/

/-- One bit of the reflected CRC-16: the register moves right, and the polynomial is added
if a one falls out. -/
def crcBit (crc : BitVec 16) : BitVec 16 :=
  if crc.getLsbD 0 then (crc >>> 1) ^^^ 0x8408#16 else crc >>> 1

/-- One byte: it is added to the low byte of the register, which then takes eight bits. -/
def crcByte (crc : BitVec 16) (c : Byte) : BitVec 16 := crcBit^[8] (crc ^^^ c.setWidth 16)

/-- The checksum of a byte string, without a final complement. -/
def bitwiseCrc (crc : BitVec 16) (bytes : List Byte) : BitVec 16 := bytes.foldl crcByte crc

theorem crcBit_eq_shift : crcBit = shift fcsTaps := by
  funext crc
  rw [crcBit, shift]
  split
  · rfl
  · exact (BitVec.xor_zero).symm

theorem fcsStep_eq_crcByte : fcsStep = crcByte := by
  funext fcs c
  rw [fcsStep_eq_feed, feed_eq_iterate fcsTaps (by simp), word_bitsOf, length_bitsOf, crcByte,
    crcBit_eq_shift]

/-- The table-driven checksum of a byte string is the bitwise one, whatever stands behind the
string in memory. -/
theorem calcFcs_eq_bitwiseCrc (fcs : BitVec 16) (bytes rest : List Byte) :
    calcFcs fcs (bytes ++ rest) bytes.length = bitwiseCrc fcs bytes := by
  rw [calcFcs_append, calcFcs, Int.toNat_natCast, List.take_length, fcsStep_eq_crcByte,
    bitwiseCrc]

end MctpSerial.MctpFramer
