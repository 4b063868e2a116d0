import Fl2440.Lib.Memory
import Fl2440.Lib.ShiftRegister
import Mathlib.Data.Fintype.Basic

/-! The table-driven CRC ITU-T V.41 of `crc-itu-t.c`, and the proof that it
divides by x^16 + x^12 + x^5 + 1, the most significant bit of each byte first. -/
namespace Fl2440.Tlv

open Fl2440.Lib
open ShiftRegister

abbrev UShort := BitVec 16

def crcItuTTable : Array UShort := #[
    0x0000, 0x1021, 0x2042, 0x3063, 0x4084, 0x50a5, 0x60c6, 0x70e7,
    0x8108, 0x9129, 0xa14a, 0xb16b, 0xc18c, 0xd1ad, 0xe1ce, 0xf1ef,
    0x1231, 0x0210, 0x3273, 0x2252, 0x52b5, 0x4294, 0x72f7, 0x62d6,
    0x9339, 0x8318, 0xb37b, 0xa35a, 0xd3bd, 0xc39c, 0xf3ff, 0xe3de,
    0x2462, 0x3443, 0x0420, 0x1401, 0x64e6, 0x74c7, 0x44a4, 0x5485,
    0xa56a, 0xb54b, 0x8528, 0x9509, 0xe5ee, 0xf5cf, 0xc5ac, 0xd58d,
    0x3653, 0x2672, 0x1611, 0x0630, 0x76d7, 0x66f6, 0x5695, 0x46b4,
    0xb75b, 0xa77a, 0x9719, 0x8738, 0xf7df, 0xe7fe, 0xd79d, 0xc7bc,
    0x48c4, 0x58e5, 0x6886, 0x78a7, 0x0840, 0x1861, 0x2802, 0x3823,
    0xc9cc, 0xd9ed, 0xe98e, 0xf9af, 0x8948, 0x9969, 0xa90a, 0xb92b,
    0x5af5, 0x4ad4, 0x7ab7, 0x6a96, 0x1a71, 0x0a50, 0x3a33, 0x2a12,
    0xdbfd, 0xcbdc, 0xfbbf, 0xeb9e, 0x9b79, 0x8b58, 0xbb3b, 0xab1a,
    0x6ca6, 0x7c87, 0x4ce4, 0x5cc5, 0x2c22, 0x3c03, 0x0c60, 0x1c41,
    0xedae, 0xfd8f, 0xcdec, 0xddcd, 0xad2a, 0xbd0b, 0x8d68, 0x9d49,
    0x7e97, 0x6eb6, 0x5ed5, 0x4ef4, 0x3e13, 0x2e32, 0x1e51, 0x0e70,
    0xff9f, 0xefbe, 0xdfdd, 0xcffc, 0xbf1b, 0xaf3a, 0x9f59, 0x8f78,
    0x9188, 0x81a9, 0xb1ca, 0xa1eb, 0xd10c, 0xc12d, 0xf14e, 0xe16f,
    0x1080, 0x00a1, 0x30c2, 0x20e3, 0x5004, 0x4025, 0x7046, 0x6067,
    0x83b9, 0x9398, 0xa3fb, 0xb3da, 0xc33d, 0xd31c, 0xe37f, 0xf35e,
    0x02b1, 0x1290, 0x22f3, 0x32d2, 0x4235, 0x5214, 0x6277, 0x7256,
    0xb5ea, 0xa5cb, 0x95a8, 0x8589, 0xf56e, 0xe54f, 0xd52c, 0xc50d,
    0x34e2, 0x24c3, 0x14a0, 0x0481, 0x7466, 0x6447, 0x5424, 0x4405,
    0xa7db, 0xb7fa, 0x8799, 0x97b8, 0xe75f, 0xf77e, 0xc71d, 0xd73c,
    0x26d3, 0x36f2, 0x0691, 0x16b0, 0x6657, 0x7676, 0x4615, 0x5634,
    0xd94c, 0xc96d, 0xf90e, 0xe92f, 0x99c8, 0x89e9, 0xb98a, 0xa9ab,
    0x5844, 0x4865, 0x7806, 0x6827, 0x18c0, 0x08e1, 0x3882, 0x28a3,
    0xcb7d, 0xdb5c, 0xeb3f, 0xfb1e, 0x8bf9, 0x9bd8, 0xabbb, 0xbb9a,
    0x4a75, 0x5a54, 0x6a37, 0x7a16, 0x0af1, 0x1ad0, 0x2ab3, 0x3a92,
    0xfd2e, 0xed0f, 0xdd6c, 0xcd4d, 0xbdaa, 0xad8b, 0x9de8, 0x8dc9,
    0x7c26, 0x6c07, 0x5c64, 0x4c45, 0x3ca2, 0x2c83, 0x1ce0, 0x0cc1,
    0xef1f, 0xff3e, 0xcf5d, 0xdf7c, 0xaf9b, 0xbfba, 0x8fd9, 0x9ff8,
    0x6e17, 0x7e36, 0x4e55, 0x5e74, 0x2e93, 0x3eb2, 0x0ed1, 0x1ef0]

def crcItuTByte (crc : UShort) (data : Byte) : UShort :=
  (crc <<< 8) ^^^ crcItuTTable.getD (((crc >>> 8) ^^^ data.setWidth 16) &&& 0xff#16).toNat 0#16

/-- `crc_itu_t(crc, &buffer[off], len)`. -/
def crcItuT (crc : UShort) (buffer : Mem) (off : Nat) : Nat → Reading UShort
  | 0 => pure crc
  | len + 1 => do
      let data ← readByte buffer off
      crcItuT (crcItuTByte crc data) buffer (off + 1) len

/-- 0x1021, without the leading term. -/
def polynomial : UShort := 0x1021#16

theorem polynomial_constant_term : polynomial.getLsbD 0 = true := by decide

theorem crcItuTTable_eq_shifts : ∀ index : Fin 256,
    crcItuTTable.getD index.val 0#16 = shifts polynomial 8 (BitVec.ofNat 16 index.val <<< 8) := by
  decide +kernel

private theorem testBit_mask (i : Nat) : (0xff#16).getLsbD i = decide (i < 8) := by
  rw [BitVec.getLsbD_ofNat, show (255 : Nat) = 2 ^ 8 - 1 by rfl, Nat.testBit_two_pow_sub_one]
  by_cases h : i < 8
  · simp [h, show i < 16 by omega]
  · simp [h]

private theorem tableIndex_lt (crc : UShort) (data : Byte) :
    (((crc >>> 8) ^^^ data.setWidth 16) &&& 0xff#16).toNat < 256 := by
  rw [BitVec.toNat_and]
  exact Nat.lt_of_le_of_lt Nat.and_le_right (by decide)

/-- The byte enters at the top of the register; the table holds the part of
the shifted register that comes from its upper half. -/
theorem crcItuTByte_eq_shifts (crc : UShort) (data : Byte) :
    crcItuTByte crc data = shifts polynomial 8 (crc ^^^ data.setWidth 16 <<< 8) := by
  have hsplit : crc ^^^ data.setWidth 16 <<< 8 =
      (crc &&& 0xff#16) ^^^ (((crc >>> 8) ^^^ data.setWidth 16) &&& 0xff#16) <<< 8 := by
    apply BitVec.eq_of_getLsbD_eq
    intro i hi
    simp only [BitVec.getLsbD_xor, BitVec.getLsbD_and, BitVec.getLsbD_shiftLeft, testBit_mask,
      BitVec.getLsbD_ushiftRight, BitVec.getLsbD_setWidth, hi, decide_true, Bool.true_and]
    by_cases hlow : i < 8
    · simp [hlow]
    · simp [hlow, show i - 8 < 8 by omega, show i - 8 < 16 by omega, show 8 + (i - 8) = i by omega]
  have hlow : shifts polynomial 8 (crc &&& 0xff#16) = crc <<< 8 := by
    rw [shifts_eq_shiftLeft]
    · apply BitVec.eq_of_getLsbD_eq
      intro i hi
      simp only [BitVec.getLsbD_shiftLeft, BitVec.getLsbD_and, testBit_mask, hi, decide_true,
        Bool.true_and]
      by_cases hbyte : i < 8
      · simp [hbyte]
      · simp [show i - 8 < 8 by omega]
    · intro i hi
      simp only [BitVec.getMsbD_eq_getLsbD, BitVec.getLsbD_and, testBit_mask]
      simp [show ¬ (15 - i < 8) by omega]
  have htable := crcItuTTable_eq_shifts ⟨_, tableIndex_lt crc data⟩
  simp only [BitVec.ofNat_toNat, BitVec.setWidth_eq] at htable
  rw [hsplit, shifts_xor, hlow, ← htable]
  rfl

theorem crcItuTByte_eq_feedAll (crc : UShort) (data : Byte) :
    crcItuTByte crc data = feedAll polynomial crc (bitsOf data 8) := by
  have hbits : bitsOf data 8 = bitsOf (data.setWidth 16 <<< 8) 8 := by
    apply List.map_congr_left
    intro i hi
    have hlt : i < 8 := List.mem_range.mp hi
    simp only [BitVec.getMsbD_shiftLeft, BitVec.getMsbD_setWidth]
    simp
  have hgone : (data.setWidth 16 <<< 8) <<< 8 = 0#16 := by
    rw [← BitVec.shiftLeft_add]
    exact BitVec.shiftLeft_eq_zero (by omega)
  rw [crcItuTByte_eq_shifts, hbits, feedAll_bitsOf, hgone, BitVec.xor_zero]

/-- Bit `k` of a message in transmission order. -/
def bitAt (m : Mem) (k : Nat) : Bool := (m (k / 8)).getMsbD (k % 8)

def messageBits (m : Mem) (n : Nat) : List Bool := (List.range (8 * n)).map (bitAt m)

theorem messageBits_succ (m : Mem) (n : Nat) :
    messageBits m (n + 1) = messageBits m n ++ bitsOf (m n) 8 := by
  unfold messageBits bitsOf
  rw [show 8 * (n + 1) = 8 * n + 8 by omega, List.range_add, List.map_append, List.map_map]
  congr 1
  apply List.map_congr_left
  intro i hi
  have hlt : i < 8 := List.mem_range.mp hi
  simp [bitAt, show (8 * n + i) / 8 = n by omega, show (8 * n + i) % 8 = i by omega]

/-- The checksum of the first `n` bytes, without the record of reads. -/
def crcOver (crc : UShort) (m : Mem) (n : Nat) : UShort :=
  (List.range n).foldl (fun c i => crcItuTByte c (m i)) crc

@[simp] theorem crcOver_zero (crc : UShort) (m : Mem) : crcOver crc m 0 = crc := by
  simp only [crcOver, List.range_zero, List.foldl_nil]

theorem crcOver_succ (crc : UShort) (m : Mem) (n : Nat) :
    crcOver crc m (n + 1) = crcItuTByte (crcOver crc m n) (m n) := by
  simp [crcOver, List.range_succ]

theorem crcOver_congr (crc : UShort) {m m' : Mem} {n : Nat} (h : ∀ i < n, m i = m' i) :
    crcOver crc m n = crcOver crc m' n := by
  induction n with
  | zero => simp only [crcOver_zero]
  | succ n ih =>
      rw [crcOver_succ, crcOver_succ, ih fun i hi => h i (by omega), h n (by omega)]

theorem crcOver_eq_feedAll (crc : UShort) (m : Mem) (n : Nat) :
    crcOver crc m n = feedAll polynomial crc (messageBits m n) := by
  induction n with
  | zero =>
      simp only [crcOver_zero, messageBits, Nat.mul_zero, List.range_zero, List.map_nil, feedAll_nil]
  | succ n ih => rw [crcOver_succ, messageBits_succ, feedAll_append, ih, crcItuTByte_eq_feedAll]

theorem crcOver_xor (crc : UShort) (m e : Mem) (n : Nat) :
    crcOver crc (fun i => m i ^^^ e i) n = crcOver crc m n ^^^ crcOver 0#16 e n := by
  simp only [crcOver_eq_feedAll, messageBits]
  rw [← feedAll_xor, BitVec.xor_zero]
  congr 1
  apply List.map_congr_left
  intro k _
  simp [bitAt]

theorem value_crcItuT (crc : UShort) (buffer : Mem) (off len : Nat) :
    (crcItuT crc buffer off len).value =
      (List.range len).foldl (fun c i => crcItuTByte c (buffer (off + i))) crc := by
  induction len generalizing crc off with
  | zero => rfl
  | succ len ih =>
      simp only [crcItuT, Reading.value_bind, value_readByte, ih, List.range_succ_eq_map,
        List.foldl_cons, List.foldl_map, Nat.add_zero, Nat.succ_eq_add_one]
      simp only [Nat.add_assoc, Nat.add_comm 1]

theorem value_crcItuT_zero (crc : UShort) (buffer : Mem) (len : Nat) :
    (crcItuT crc buffer 0 len).value = crcOver crc buffer len := by
  simp [value_crcItuT, crcOver]

theorem within_crcItuT (crc : UShort) (buffer : Mem) {off len : Nat} {n : Int}
    (h : (off : Int) + len ≤ n) : (crcItuT crc buffer off len).Within n := by
  induction len generalizing crc off with
  | zero => exact Reading.within_pure _ _
  | succ len ih =>
      rw [crcItuT, Reading.within_bind_iff, within_readByte_iff]
      push_cast at h
      exact ⟨by omega, ih _ (by push_cast; omega)⟩

end Fl2440.Tlv
