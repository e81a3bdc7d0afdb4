import Mathlib.Data.List.GetD
import RtThread.Ymodem

/-! The two CRC16 of ymodem.c: the one that shifts bit by bit, and the one with the table. -/
namespace RtThread.YmodemCrc
open Ymodem

def ccittTable : List UInt16 := [
  0x0000, 0x1021, 0x2042, 0x3063, 0x4084, 0x50A5, 0x60C6, 0x70E7,
  0x8108, 0x9129, 0xA14A, 0xB16B, 0xC18C, 0xD1AD, 0xE1CE, 0xF1EF,
  0x1231, 0x0210, 0x3273, 0x2252, 0x52B5, 0x4294, 0x72F7, 0x62D6,
  0x9339, 0x8318, 0xB37B, 0xA35A, 0xD3BD, 0xC39C, 0xF3FF, 0xE3DE,
  0x2462, 0x3443, 0x0420, 0x1401, 0x64E6, 0x74C7, 0x44A4, 0x5485,
  0xA56A, 0xB54B, 0x8528, 0x9509, 0xE5EE, 0xF5CF, 0xC5AC, 0xD58D,
  0x3653, 0x2672, 0x1611, 0x0630, 0x76D7, 0x66F6, 0x5695, 0x46B4,
  0xB75B, 0xA77A, 0x9719, 0x8738, 0xF7DF, 0xE7FE, 0xD79D, 0xC7BC,
  0x48C4, 0x58E5, 0x6886, 0x78A7, 0x0840, 0x1861, 0x2802, 0x3823,
  0xC9CC, 0xD9ED, 0xE98E, 0xF9AF, 0x8948, 0x9969, 0xA90A, 0xB92B,
  0x5AF5, 0x4AD4, 0x7AB7, 0x6A96, 0x1A71, 0x0A50, 0x3A33, 0x2A12,
  0xDBFD, 0xCBDC, 0xFBBF, 0xEB9E, 0x9B79, 0x8B58, 0xBB3B, 0xAB1A,
  0x6CA6, 0x7C87, 0x4CE4, 0x5CC5, 0x2C22, 0x3C03, 0x0C60, 0x1C41,
  0xEDAE, 0xFD8F, 0xCDEC, 0xDDCD, 0xAD2A, 0xBD0B, 0x8D68, 0x9D49,
  0x7E97, 0x6EB6, 0x5ED5, 0x4EF4, 0x3E13, 0x2E32, 0x1E51, 0x0E70,
  0xFF9F, 0xEFBE, 0xDFDD, 0xCFFC, 0xBF1B, 0xAF3A, 0x9F59, 0x8F78,
  0x9188, 0x81A9, 0xB1CA, 0xA1EB, 0xD10C, 0xC12D, 0xF14E, 0xE16F,
  0x1080, 0x00A1, 0x30C2, 0x20E3, 0x5004, 0x4025, 0x7046, 0x6067,
  0x83B9, 0x9398, 0xA3FB, 0xB3DA, 0xC33D, 0xD31C, 0xE37F, 0xF35E,
  0x02B1, 0x1290, 0x22F3, 0x32D2, 0x4235, 0x5214, 0x6277, 0x7256,
  0xB5EA, 0xA5CB, 0x95A8, 0x8589, 0xF56E, 0xE54F, 0xD52C, 0xC50D,
  0x34E2, 0x24C3, 0x14A0, 0x0481, 0x7466, 0x6447, 0x5424, 0x4405,
  0xA7DB, 0xB7FA, 0x8799, 0x97B8, 0xE75F, 0xF77E, 0xC71D, 0xD73C,
  0x26D3, 0x36F2, 0x0691, 0x16B0, 0x6657, 0x7676, 0x4615, 0x5634,
  0xD94C, 0xC96D, 0xF90E, 0xE92F, 0x99C8, 0x89E9, 0xB98A, 0xA9AB,
  0x5844, 0x4865, 0x7806, 0x6827, 0x18C0, 0x08E1, 0x3882, 0x28A3,
  0xCB7D, 0xDB5C, 0xEB3F, 0xFB1E, 0x8BF9, 0x9BD8, 0xABBB, 0xBB9A,
  0x4A75, 0x5A54, 0x6A37, 0x7A16, 0x0AF1, 0x1AD0, 0x2AB3, 0x3A92,
  0xFD2E, 0xED0F, 0xDD6C, 0xCD4D, 0xBDAA, 0xAD8B, 0x9DE8, 0x8DC9,
  0x7C26, 0x6C07, 0x5C64, 0x4C45, 0x3CA2, 0x2C83, 0x1CE0, 0x0CC1,
  0xEF1F, 0xFF3E, 0xCF5D, 0xDF7C, 0xAF9B, 0xBFBA, 0x8FD9, 0x9FF8,
  0x6E17, 0x7E36, 0x4E55, 0x5E74, 0x2E93, 0x3EB2, 0x0ED1, 0x1EF0 ]

/-- One turn of the loop of CRC16, with YMODEM_USING_CRC_TABLE. -/
def crcTableByte (crc : UInt16) (q : UInt8) : UInt16 :=
  (crc <<< 8) ^^^ ccittTable.getD ((crc >>> 8 ^^^ q.toUInt16) &&& 0xff).toNat 0

def crc16Table (q : Bytes) : UInt16 := q.foldl crcTableByte 0

/-- The two bytes that a sender puts behind the data. -/
def crcBytes (crc : UInt16) : Bytes := [(crc >>> 8).toUInt8, crc.toUInt8]

section Shift
variable (a b : UInt16) (q : UInt8)

theorem crcShift_eq : crcShift a = a <<< 1 ^^^ (if a.toBitVec.getLsbD 15 then 0x1021 else 0) := by
  have mask : a &&& 0x8000 = if a.toBitVec.getLsbD 15 then 0x8000 else 0 := by
    apply UInt16.toBitVec_inj.mp
    have places : (0x8000 : UInt16).toBitVec = BitVec.twoPow 16 15 := rfl
    rw [UInt16.toBitVec_and, places, BitVec.and_twoPow]
    split <;> rfl
  by_cases high : a.toBitVec.getLsbD 15
  · have set : a &&& 0x8000 ≠ 0 := by
      rw [mask, if_pos high]
      decide
    rw [crcShift, if_pos set, if_pos high]
  · have clear : a &&& 0x8000 = 0 := by rw [mask, if_neg high]
    rw [crcShift, if_neg (not_not_intro clear), if_neg high, UInt16.xor_zero]

theorem crcShift_xor : crcShift (a ^^^ b) = crcShift a ^^^ crcShift b := by
  simp only [crcShift_eq, UInt16.toBitVec_xor, BitVec.getLsbD_xor, UInt16.shiftLeft_xor]
  cases a.toBitVec.getLsbD 15 <;> cases b.toBitVec.getLsbD 15
  · simp
  · simp [UInt16.xor_assoc]
  · simp only [Bool.xor_false, Bool.false_eq_true, if_true, if_false, UInt16.xor_zero]
    ac_rfl
  · simp only [Bool.xor_true, Bool.not_true, Bool.false_eq_true, if_true, if_false, UInt16.xor_zero]
    have cancel : (0x1021 : UInt16) ^^^ 0x1021 = 0 := by decide
    calc a <<< 1 ^^^ b <<< 1
      _ = a <<< 1 ^^^ b <<< 1 ^^^ ((0x1021 : UInt16) ^^^ 0x1021) := by rw [cancel, UInt16.xor_zero]
      _ = a <<< 1 ^^^ (0x1021 : UInt16) ^^^ (b <<< 1 ^^^ (0x1021 : UInt16)) := by ac_rfl

theorem crcShift_iterate_xor (n : Nat) : crcShift^[n] (a ^^^ b) = crcShift^[n] a ^^^ crcShift^[n] b := by
  induction n generalizing a b with
  | zero => rfl
  | succ n ih => rw [Function.iterate_succ_apply, crcShift_xor, ih, Function.iterate_succ_apply,
      Function.iterate_succ_apply]

/-- crcShift on the number that the register holds. -/
def turn (n : Nat) : Nat := n <<< 1 % 2 ^ 16 ^^^ if n.testBit 15 then 0x1021 else 0

theorem toNat_crcShift : (crcShift a).toNat = turn a.toNat := by
  have top : a.toBitVec.getLsbD 15 = a.toNat.testBit 15 := rfl
  rw [crcShift_eq, UInt16.toNat_xor, UInt16.toNat_shiftLeft, turn, top]
  split <;> rfl

theorem toNat_iterate (n : Nat) : (crcShift^[n] a).toNat = turn^[n] a.toNat := by
  induction n generalizing a with
  | zero => rfl
  | succ n ih => rw [Function.iterate_succ_apply, ih, toNat_crcShift, Function.iterate_succ_apply]

theorem crcShift_high : crcShift^[8] (q.toUInt16 <<< 8) = ccittTable.getD q.toNat 0 := by
  have entries : (List.range 256).map (fun i => turn^[8] (i <<< 8 % 2 ^ 16)) = ccittTable.map UInt16.toNat := by
    decide +kernel
  have entry := congrArg (fun table => table.getD q.toNat (UInt16.toNat 0)) entries
  have inside : q.toNat < 256 := q.toNat_lt
  apply UInt16.toNat_inj.mp
  rw [toNat_iterate, UInt16.toNat_shiftLeft, UInt8.toNat_toUInt16]
  simp only [List.getD_map] at entry
  rw [← entry, List.getD_eq_getElem?_getD, List.getElem?_map, List.getElem?_range inside]
  rfl

theorem crcShift_low : crcShift^[8] q.toUInt16 = q.toUInt16 <<< 8 := by
  have moves : ∀ i < 256, turn^[8] i = i <<< 8 % 2 ^ 16 := by decide +kernel
  apply UInt16.toNat_inj.mp
  rw [toNat_iterate, UInt16.toNat_shiftLeft, UInt8.toNat_toUInt16]
  exact moves q.toNat q.toNat_lt

theorem halves_xor : a = (a >>> 8).toUInt8.toUInt16 <<< 8 ^^^ a.toUInt8.toUInt16 := by
  apply UInt16.toBitVec_inj.mp
  simp only [UInt16.toBitVec_xor, UInt16.toBitVec_shiftLeft, UInt8.toBitVec_toUInt16, UInt16.toBitVec_toUInt8,
    UInt16.toBitVec_shiftRight]
  ext i inside
  by_cases low : i < 8
  · simp [low, BitVec.getLsbD_eq_getElem, inside]
  · have high : i - 8 < 8 := by omega
    have place : 8 + (i - 8) = i := by omega
    simp [low, high, place, BitVec.getLsbD_eq_getElem, inside]

end Shift

section Bytes
variable (crc : UInt16) (q : UInt8)

theorem low_byte : crc &&& (0xff : UInt16) = crc.toUInt8.toUInt16 := by
  have mask : (0xff : UInt16).toBitVec = (BitVec.allOnes 8).setWidth (8 + 8) := by decide
  apply UInt16.toBitVec_inj.mp
  rw [UInt16.toBitVec_and, mask, UInt8.toBitVec_toUInt16, UInt16.toBitVec_toUInt8]
  exact (BitVec.and_setWidth_allOnes 8 8 crc.toBitVec).trans (BitVec.setWidth_eq_append (by decide)).symm

theorem index_eq : (crc >>> 8 ^^^ q.toUInt16) &&& (0xff : UInt16) = ((crc >>> 8).toUInt8 ^^^ q).toUInt16 := by
  rw [low_byte, UInt16.toUInt8_xor, UInt8.toUInt8_toUInt16]

theorem byte_back (a : UInt16) : (a <<< 8 >>> 8).toUInt8 = a.toUInt8 := by
  apply UInt8.toBitVec_inj.mp
  simp only [UInt16.toBitVec_shiftLeft, UInt16.toBitVec_toUInt8, UInt16.toBitVec_shiftRight]
  ext i inside
  have place : 8 + i < 16 := by omega
  have moved : ¬ 8 + i < 8 := by omega
  have width : i < 16 := by omega
  simp [place, moved, BitVec.getLsbD_eq_getElem, width]

theorem sum_high : ((crc ^^^ q.toUInt16 <<< 8) >>> 8).toUInt8 = (crc >>> 8).toUInt8 ^^^ q := by
  rw [UInt16.shiftRight_xor, UInt16.toUInt8_xor, byte_back, UInt8.toUInt8_toUInt16]

theorem sum_low : (crc ^^^ q.toUInt16 <<< 8).toUInt8 = crc.toUInt8 := by
  apply UInt8.toBitVec_inj.mp
  ext i inside
  simp

theorem low_moved : crc.toUInt8.toUInt16 <<< 8 = crc <<< 8 := by
  apply UInt16.toBitVec_inj.mp
  simp only [UInt16.toBitVec_shiftLeft, UInt8.toBitVec_toUInt16, UInt16.toBitVec_toUInt8]
  ext i inside
  by_cases low : i < 8
  · simp [low]
  · have high : i - 8 < 8 := by omega
    have width : i - 8 < 16 := by omega
    simp [low, high, BitVec.getLsbD_eq_getElem, width]

theorem crcByte_table : crcByte crc q = crcTableByte crc q := by
  have split : crc ^^^ q.toUInt16 <<< 8 =
      ((crc >>> 8).toUInt8 ^^^ q).toUInt16 <<< 8 ^^^ crc.toUInt8.toUInt16 := by
    rw [← sum_high, ← sum_low crc q, ← halves_xor]
  rw [crcByte, split, crcShift_iterate_xor, crcShift_high, crcShift_low, low_moved, crcTableByte, index_eq,
    UInt8.toNat_toUInt16, UInt16.xor_comm]

theorem crcTableByte_high : crcTableByte crc (crc >>> 8).toUInt8 = crc <<< 8 := by
  have first : ccittTable.getD (0 : UInt8).toUInt16.toNat 0 = 0 := rfl
  rw [crcTableByte, index_eq, UInt8.xor_self, first, UInt16.xor_zero]

theorem residue : (crcBytes crc).foldl crcTableByte crc = 0 := by
  have empty : crc <<< 8 <<< 8 = 0 := by
    apply UInt16.toBitVec_inj.mp
    ext i inside
    simp
  rw [crcBytes, List.foldl_cons, List.foldl_cons, List.foldl_nil, crcTableByte_high, ← byte_back crc,
    crcTableByte_high, empty]

end Bytes

section Strings
variable (q : Bytes)

theorem foldl_table (crc : UInt16) : q.foldl crcByte crc = q.foldl crcTableByte crc := by
  induction q generalizing crc with
  | nil => rfl
  | cons b q ih => rw [List.foldl_cons, List.foldl_cons, crcByte_table, ih]

theorem crc16_table : crc16 q = crc16Table q := foldl_table q 0

theorem crc16Table_residue : crc16Table (q ++ crcBytes (crc16Table q)) = 0 := by
  rw [crc16Table, List.foldl_append]
  exact residue (crc16Table q)

theorem crc16_agree :
    crc16Table q = crc16 q ∧ crc16Table (q ++ crcBytes (crc16Table q)) = 0 ∧
      crc16 (q ++ crcBytes (crc16 q)) = 0 := by
  have same := crc16_table q
  have nothing := crc16Table_residue q
  refine ⟨same.symm, nothing, ?_⟩
  rw [same, crc16_table, nothing]

end Strings

end RtThread.YmodemCrc
