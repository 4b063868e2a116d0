import Fl2440.Tlv.CrcItuT
import Mathlib.Algebra.Order.Ring.Int

/-! The TLV codec of `tlv_pack.c`: two tag bytes, two length bytes, the value
and two CRC bytes, the most significant byte of each field first. Buffers are
never NULL once the codec has tested them, so the helpers take them as memory. -/
namespace Fl2440.Tlv

open Fl2440.Lib

def tlvMgicCrc : UShort := 0xEC60#16
abbrev tlvTagSize : Nat := 2
abbrev tlvLenSize : Nat := 2
abbrev tlvCrcSize : Nat := 2
abbrev tlvHeadSize : Nat := tlvTagSize + tlvLenSize
abbrev tlvMinSize : Nat := tlvHeadSize + tlvCrcSize

theorem tlv_sizes : tlvTagSize = 2 ∧ tlvHeadSize = 4 ∧ tlvMinSize = 6 := ⟨rfl, rfl, rfl⟩

/-- `while (size) *(bytes + --size) = val >> ((8 * i++) & 0xFF)`. -/
def ushortToBytesLoop (bytes : Mem) (off : Nat) (val : UShort) : Nat → Nat → Mem
  | 0, _ => bytes
  | size + 1, i => ushortToBytesLoop
      (bytes.write (off + size) ((val >>> ((8 * i) &&& 0xFF)).setWidth 8)) off val size (i + 1)

def ushortToBytes (bytes : Mem) (off : Nat) (val : UShort) : Nat × Mem :=
  (2, ushortToBytesLoop bytes off val 2 0)

def bytesToUshortLoop (bytes : Mem) (off : Nat) (len : Int) : Nat → Nat → UShort → Reading UShort
  | 0, _, val => pure val
  | left + 1, i, val => do
      let byte ← readByte bytes (off + i)
      let val := val + byte.setWidth 16
      bytesToUshortLoop bytes off len left (i + 1) (if (i : Int) < len - 1 then val <<< 8 else val)

/-- `len > sizeof(unsigned short)` compares as unsigned, so it also refuses
negative lengths. -/
def bytesToUshort (bytes : Mem) (off : Nat) (len : Int) : Reading UShort :=
  if len < 0 ∨ 2 < len then pure 0#16 else bytesToUshortLoop bytes off len len.toNat 0 0#16

def tlvEncodeTl (obuf : Mem) (tag len : UShort) : Nat × Mem :=
  let (_, obuf) := ushortToBytes obuf 0 tag
  let (_, obuf) := ushortToBytes obuf tlvTagSize len
  (tlvTagSize + tlvLenSize, obuf)

def tlvDecodeTl (ibuf : Mem) : Reading (Nat × UShort × UShort) := do
  let tag ← bytesToUshort ibuf 0 tlvTagSize
  let len ← bytesToUshort ibuf tlvTagSize tlvLenSize
  pure (tlvTagSize + tlvLenSize, tag, len)

def tlvPack (tlvObuf : Option Mem) (obufSize : Int) (tag len : UShort) (val : Option Mem) :
    Nat × Option Mem :=
  match tlvObuf with
  | none => (0, none)
  | some obuf =>
      let len := if val.isNone then 0#16 else len
      if obufSize < tlvMinSize + len.toNat then (0, some obuf)
      else
        let (oft, obuf) := tlvEncodeTl obuf tag len
        let obuf := match val with
          | none => obuf
          | some v => obuf.copy tlvHeadSize v len.toNat
        let oft := oft + len.toNat
        let crc := (crcItuT tlvMgicCrc obuf 0 oft).value
        let (n, obuf) := ushortToBytes obuf oft crc
        (oft + n, some obuf)

/-- What `tlv_unpack` returns and what its three output pointers point at
afterwards; `none` is a NULL pointer. -/
structure Unpacked where
  rv : Int
  tag : Option UShort
  len : Option UShort
  val : Option Mem

def tlvUnpack (tlvMsg : Option Mem) (msgLen : Int) (tag len : Option UShort) (val : Option Mem) :
    Reading Unpacked :=
  match tlvMsg, tag, len, val with
  | some msg, some _, some _, some v =>
      if msgLen < tlvMinSize then pure ⟨-1, tag, len, val⟩
      else do
        let (oft, newTag, newLen) ← tlvDecodeTl msg
        let crc ← bytesToUshort msg (oft + newLen.toNat) 2
        let sum ← crcItuT tlvMgicCrc msg 0 (tlvHeadSize + newLen.toNat)
        if crc ≠ sum then pure ⟨-2, some newTag, some newLen, val⟩
        else do
          let block ← readBlock msg oft newLen.toNat
          pure ⟨0, some newTag, some newLen, some (v.copy 0 block newLen.toNat)⟩
  | _, _, _, _ => pure ⟨-1, tag, len, val⟩

def ushortAt (m : Mem) (off : Nat) : UShort :=
  (m off).setWidth 16 <<< 8 + (m (off + 1)).setWidth 16

def declaredLen (m : Mem) : Nat := (ushortAt m tlvTagSize).toNat

theorem toNat_ushortAt (m : Mem) (off : Nat) :
    (ushortAt m off).toNat = 256 * (m off).toNat + (m (off + 1)).toNat := by
  have hhigh := (m off).isLt
  have hlow := (m (off + 1)).isLt
  simp only [ushortAt, BitVec.toNat_add, BitVec.toNat_shiftLeft, BitVec.toNat_setWidth,
    Nat.shiftLeft_eq]
  omega

theorem ushortAt_congr {m m' : Mem} {off : Nat} (h0 : m off = m' off)
    (h1 : m (off + 1) = m' (off + 1)) : ushortAt m off = ushortAt m' off := by
  rw [ushortAt, ushortAt, h0, h1]

theorem ushortAt_inj {m m' : Mem} {off : Nat} (h : ushortAt m off = ushortAt m' off) :
    m off = m' off ∧ m (off + 1) = m' (off + 1) := by
  have hval := congrArg BitVec.toNat h
  rw [toNat_ushortAt, toNat_ushortAt] at hval
  have h0 := (m (off + 1)).isLt
  have h1 := (m' (off + 1)).isLt
  constructor <;> apply BitVec.eq_of_toNat_eq <;> omega

@[simp] theorem value_bytesToUshort (m : Mem) (off : Nat) :
    (bytesToUshort m off 2).value = ushortAt m off := by
  simp [bytesToUshort, bytesToUshortLoop, ushortAt]

theorem within_bytesToUshort_iff (m : Mem) (off : Nat) (n : Int) :
    (bytesToUshort m off 2).Within n ↔ (off : Int) + 1 < n := by
  simp only [bytesToUshort, bytesToUshortLoop, show ¬ ((2 : Int) < 0 ∨ (2 : Int) < 2) by omega,
    if_false, show (2 : Int).toNat = 2 by rfl, Reading.within_bind_iff, within_readByte_iff,
    Reading.within_pure, Nat.add_zero, and_true, Nat.cast_add, Nat.cast_one]
  omega

theorem ushortToBytes_snd (m : Mem) (off : Nat) (val : UShort) :
    (ushortToBytes m off val).2 =
      (m.write (off + 1) (val.setWidth 8)).write off ((val >>> 8).setWidth 8) := by
  simp [ushortToBytes, ushortToBytesLoop]

theorem ushortAt_ushortToBytes (m : Mem) (off : Nat) (val : UShort) :
    ushortAt (ushortToBytes m off val).2 off = val := by
  apply BitVec.eq_of_toNat_eq
  rw [toNat_ushortAt, ushortToBytes_snd, Mem.write_same, Mem.write_ne _ _ (by omega),
    Mem.write_same]
  have hval := val.isLt
  simp only [BitVec.toNat_setWidth, BitVec.toNat_ushiftRight, Nat.shiftRight_eq_div_pow]
  omega

theorem ushortToBytes_frame (m : Mem) (off : Nat) (val : UShort) {i : Nat}
    (h : i < off ∨ off + 2 ≤ i) : (ushortToBytes m off val).2 i = m i := by
  rw [ushortToBytes_snd, Mem.write_ne _ _ (by omega), Mem.write_ne _ _ (by omega)]

@[simp] theorem value_tlvDecodeTl (m : Mem) :
    (tlvDecodeTl m).value = (tlvHeadSize, ushortAt m 0, ushortAt m tlvTagSize) := by
  simp only [tlvDecodeTl, Reading.value_bind, Reading.value_pure]
  exact congrArg (Prod.mk _) (congrArg₂ Prod.mk (value_bytesToUshort m 0) (value_bytesToUshort m 2))

theorem within_tlvDecodeTl (m : Mem) {n : Int} (h : (tlvHeadSize : Int) ≤ n) :
    (tlvDecodeTl m).Within n := by
  have h' : (4 : Int) ≤ n := h
  simp only [tlvDecodeTl, Reading.within_bind_iff]
  refine ⟨(within_bytesToUshort_iff m 0 n).mpr ?_, (within_bytesToUshort_iff m 2 n).mpr ?_,
    Reading.within_pure _ _⟩
  · push_cast
    omega
  · push_cast
    omega

/-- The stored checksum is the one of the head and value in front of it. -/
def Framed (m : Mem) : Prop :=
  ushortAt m (tlvHeadSize + declaredLen m) = crcOver tlvMgicCrc m (tlvHeadSize + declaredLen m)

instance (m : Mem) : Decidable (Framed m) := decEq _ _

theorem tlvUnpack_eq (m : Mem) (msgLen : Int) (t l : UShort) (v : Mem)
    (h : (tlvMinSize : Int) ≤ msgLen) :
    tlvUnpack (some m) msgLen (some t) (some l) (some v) = (do
      let (oft, newTag, newLen) ← tlvDecodeTl m
      let crc ← bytesToUshort m (oft + newLen.toNat) 2
      let sum ← crcItuT tlvMgicCrc m 0 (tlvHeadSize + newLen.toNat)
      if crc ≠ sum then pure ⟨-2, some newTag, some newLen, some v⟩
      else do
        let block ← readBlock m oft newLen.toNat
        pure ⟨0, some newTag, some newLen, some (v.copy 0 block newLen.toNat)⟩) :=
  if_neg (not_lt.mpr h)

theorem value_tlvUnpack (m : Mem) (msgLen : Int) (t l : UShort) (v : Mem)
    (h : (tlvMinSize : Int) ≤ msgLen) :
    (tlvUnpack (some m) msgLen (some t) (some l) (some v)).value =
      if Framed m then
        ⟨0, some (ushortAt m 0), some (ushortAt m tlvTagSize),
          some (v.copy 0 (fun i => m (tlvHeadSize + i)) (declaredLen m))⟩
      else ⟨-2, some (ushortAt m 0), some (ushortAt m tlvTagSize), some v⟩ := by
  simp only [tlvUnpack_eq m msgLen t l v h, Reading.value_bind, value_tlvDecodeTl,
    value_bytesToUshort, value_crcItuT_zero]
  by_cases hframed : Framed m
  · have hsum : ushortAt m (tlvHeadSize + (ushortAt m tlvTagSize).toNat) =
        crcOver tlvMgicCrc m (tlvHeadSize + (ushortAt m tlvTagSize).toNat) := hframed
    rw [if_pos hframed, if_neg (not_not.mpr hsum)]
    rfl
  · have hsum : ushortAt m (tlvHeadSize + (ushortAt m tlvTagSize).toNat) ≠
        crcOver tlvMgicCrc m (tlvHeadSize + (ushortAt m tlvTagSize).toNat) := hframed
    rw [if_neg hframed, if_pos hsum]
    rfl

theorem within_tlvUnpack_iff (m : Mem) (msgLen : Int) (t l : UShort) (v : Mem)
    (h : (tlvMinSize : Int) ≤ msgLen) :
    (tlvUnpack (some m) msgLen (some t) (some l) (some v)).Within msgLen ↔
      ((tlvMinSize + declaredLen m : Nat) : Int) ≤ msgLen := by
  have hcrc : (bytesToUshort m (tlvHeadSize + declaredLen m) 2).Within msgLen ↔
      ((tlvMinSize + declaredLen m : Nat) : Int) ≤ msgLen := by
    rw [within_bytesToUshort_iff]
    push_cast
    omega
  simp only [tlvUnpack_eq m msgLen t l v h, Reading.within_bind_iff, value_tlvDecodeTl]
  constructor
  · rintro ⟨_, hfield, _⟩
    exact hcrc.mp hfield
  · intro hfit
    have hfit' : (6 : Int) + declaredLen m ≤ msgLen := by
      push_cast at hfit
      omega
    refine ⟨within_tlvDecodeTl m ?_, hcrc.mpr hfit, within_crcItuT _ _ ?_, ?_⟩
    · push_cast
      omega
    · change ((0 : Nat) : Int) + ((tlvHeadSize + declaredLen m : Nat) : Int) ≤ msgLen
      push_cast
      omega
    · split
      · exact Reading.within_pure _ _
      · rw [Reading.within_bind_iff]
        refine ⟨within_readBlock _ ?_, Reading.within_pure _ _⟩
        change ((tlvHeadSize : Nat) : Int) + (declaredLen m : Int) ≤ msgLen
        push_cast
        omega

end Fl2440.Tlv
