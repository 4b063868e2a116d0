import Fl2440.Yaffs.Controller
import Fl2440.Yaffs.YaffsEcc

/-! `yaffs_packedtags2.c`: the tags of a chunk as they are stored with it. -/
namespace Fl2440.Yaffs

open Fl2440.Lib Fl2440.MyBoot

inductive EccResult where
  | unknown
  | noError
  | fixed
  | unfixed
deriving DecidableEq

inductive BlockState where
  | unknown
  | scanning
  | needsScan
  | empty
  | allocating
  | full
  | dirty
  | checkpoint
  | collecting
  | dead
deriving DecidableEq

def YAFFS_OBJECT_TYPE_FILE : Word := 1

def YAFFS_OBJECT_TYPE_HARDLINK : Word := 4

def YAFFS_OBJECT_TYPE_MAX : Word := 5

structure ExtTags where
  chunkUsed : Word
  objId : Word
  chunkId : Word
  nBytes : Word
  eccResult : EccResult
  blockBad : Word
  isDeleted : Word
  serialNumber : Word
  seqNumber : Word
  extraAvailable : Word
  extraParentId : Word
  extraIsShrink : Word
  extraShadows : Word
  /-- what is read may be none of the types -/
  extraObjType : Word
  /-- a `loff_t` -/
  extraFileSize : BitVec 64
  extraEquivId : Word
deriving DecidableEq

/-- `memset(t, 0, sizeof(struct yaffs_ext_tags))` -/
def ExtTags.zero : ExtTags := ⟨0, 0, 0, 0, .unknown, 0, 0, 0, 0, 0, 0, 0, 0, 0, 0, 0⟩

@[ext] structure PackedTags2TagsOnly where
  seqNumber : Word
  objId : Word
  chunkId : Word
  nBytes : Word
deriving DecidableEq

def EXTRA_HEADER_INFO_FLAG : Word := 0x80000000

def EXTRA_SHRINK_FLAG : Word := 0x40000000

def EXTRA_SHADOWS_FLAG : Word := 0x20000000

def ALL_EXTRA_FLAGS : Word := 0xf0000000

def EXTRA_OBJECT_TYPE_SHIFT : Nat := 28

def EXTRA_OBJECT_TYPE_MASK : Word := 0x0f <<< EXTRA_OBJECT_TYPE_SHIFT

def yaffsCheckTagsExtraPackable (t : ExtTags) : Bool :=
  if t.chunkId ≠ 0 ∨ t.extraAvailable = 0 then false
  else if t.extraObjType = YAFFS_OBJECT_TYPE_FILE ∧ t.extraFileSize.sshiftRight 31 ≠ 0 then false
  else true

def yaffsPackTags2TagsOnly (t : ExtTags) : PackedTags2TagsOnly :=
  let ptt : PackedTags2TagsOnly := ⟨t.seqNumber, t.objId, t.chunkId, t.nBytes⟩
  if yaffsCheckTagsExtraPackable t then
    let ptt := { ptt with chunkId := EXTRA_HEADER_INFO_FLAG ||| t.extraParentId }
    let ptt := if t.extraIsShrink ≠ 0 then { ptt with chunkId := ptt.chunkId ||| EXTRA_SHRINK_FLAG } else ptt
    let ptt := if t.extraShadows ≠ 0 then { ptt with chunkId := ptt.chunkId ||| EXTRA_SHADOWS_FLAG } else ptt
    let ptt := { ptt with objId := ptt.objId &&& ~~~EXTRA_OBJECT_TYPE_MASK }
    let ptt := { ptt with objId := ptt.objId ||| t.extraObjType <<< EXTRA_OBJECT_TYPE_SHIFT }
    if t.extraObjType = YAFFS_OBJECT_TYPE_HARDLINK then { ptt with nBytes := t.extraEquivId }
    else if t.extraObjType = YAFFS_OBJECT_TYPE_FILE then { ptt with nBytes := t.extraFileSize.setWidth 32 }
    else { ptt with nBytes := 0 }
  else ptt

def yaffsUnpackTags2TagsOnly (ptt : PackedTags2TagsOnly) : ExtTags :=
  if ptt.seqNumber = 0xffffffff then .zero
  else
    let t := { ExtTags.zero with
      chunkUsed := 1, objId := ptt.objId, chunkId := ptt.chunkId, nBytes := ptt.nBytes, seqNumber := ptt.seqNumber }
    if ptt.chunkId &&& EXTRA_HEADER_INFO_FLAG ≠ 0 then
      let t := { t with
        chunkId := 0
        nBytes := 0
        extraAvailable := 1
        extraParentId := ptt.chunkId &&& ~~~ALL_EXTRA_FLAGS
        extraIsShrink := if ptt.chunkId &&& EXTRA_SHRINK_FLAG ≠ 0 then 1 else 0
        extraShadows := if ptt.chunkId &&& EXTRA_SHADOWS_FLAG ≠ 0 then 1 else 0
        extraObjType := ptt.objId >>> EXTRA_OBJECT_TYPE_SHIFT
        objId := ptt.objId &&& ~~~EXTRA_OBJECT_TYPE_MASK }
      if t.extraObjType = YAFFS_OBJECT_TYPE_HARDLINK then { t with extraEquivId := ptt.nBytes }
      else { t with extraFileSize := ptt.nBytes.setWidth 64 }
    else t

/-- What a reader gets of tags: the fields that are stored. -/
def ExtTags.stored (t : ExtTags) : ExtTags :=
  let plain := { ExtTags.zero with chunkUsed := 1, objId := t.objId, seqNumber := t.seqNumber }
  if yaffsCheckTagsExtraPackable t then
    { plain with
      extraAvailable := 1
      extraParentId := t.extraParentId
      extraIsShrink := if t.extraIsShrink ≠ 0 then 1 else 0
      extraShadows := if t.extraShadows ≠ 0 then 1 else 0
      extraObjType := t.extraObjType
      extraFileSize := if t.extraObjType = YAFFS_OBJECT_TYPE_FILE then t.extraFileSize else 0
      extraEquivId := if t.extraObjType = YAFFS_OBJECT_TYPE_HARDLINK then t.extraEquivId else 0 }
  else { plain with chunkId := t.chunkId, nBytes := t.nBytes }

theorem stored_chunkUsed (t : ExtTags) : t.stored.chunkUsed = 1 := by
  unfold ExtTags.stored
  split <;> rfl

theorem stored_seqNumber (t : ExtTags) : t.stored.seqNumber = t.seqNumber := by
  unfold ExtTags.stored
  split <;> rfl

/-- Tags that keep clear of the bits for the extra information and of the sequence number of an erased chunk. -/
structure ExtTags.Packable (t : ExtTags) : Prop where
  seq : t.seqNumber ≠ 0xffffffff
  chunk : yaffsCheckTagsExtraPackable t = false → t.chunkId &&& EXTRA_HEADER_INFO_FLAG = 0
  obj : yaffsCheckTagsExtraPackable t = true → t.objId &&& EXTRA_OBJECT_TYPE_MASK = 0
  parent : yaffsCheckTagsExtraPackable t = true → t.extraParentId &&& ALL_EXTRA_FLAGS = 0
  type : yaffsCheckTagsExtraPackable t = true → t.extraObjType ≤ YAFFS_OBJECT_TYPE_MAX

section Fields

variable {x flags field mask : Word}

theorem and_not_self_of_and (hx : x &&& field = 0#32) : x &&& ~~~field = x := by
  have hsplit : x &&& ~~~field ||| x &&& field = x := by
    rw [← BitVec.and_or_distrib_left, BitVec.or_comm, BitVec.or_not_self, BitVec.and_allOnes]
  rwa [hx, BitVec.or_zero] at hsplit

theorem field_of_or (hx : x &&& field = 0#32) (hflags : flags &&& ~~~field = 0#32) : (x ||| flags) &&& ~~~field = x := by
  rw [BitVec.and_or_distrib_right, hflags, BitVec.or_zero, and_not_self_of_and hx]

theorem flag_of_or (hx : x &&& field = 0#32) (hmask : field &&& mask = mask) : (x ||| flags) &&& mask = flags &&& mask := by
  have hnone : x &&& mask = 0#32 := by rw [← hmask, ← BitVec.and_assoc, hx, BitVec.zero_and]
  rw [BitVec.and_or_distrib_right, hnone, BitVec.zero_or]

theorem shift_type {type : Word} (h : type ≤ YAFFS_OBJECT_TYPE_MAX) :
    (type <<< EXTRA_OBJECT_TYPE_SHIFT) >>> EXTRA_OBJECT_TYPE_SHIFT = type ∧
      (type <<< EXTRA_OBJECT_TYPE_SHIFT) &&& ~~~EXTRA_OBJECT_TYPE_MASK = 0 := by
  have hval : type.toNat ≤ 5 := h
  obtain ⟨k, hk, rfl⟩ : ∃ k, k ≤ 5 ∧ type = BitVec.ofNat 32 k := ⟨type.toNat, hval, by simp⟩
  interval_cases k <;> decide

theorem shift_obj (h : x &&& EXTRA_OBJECT_TYPE_MASK = 0#32) : x >>> EXTRA_OBJECT_TYPE_SHIFT = 0#32 := by
  have hmask : ∀ k : Fin 4, EXTRA_OBJECT_TYPE_MASK.getLsbD (EXTRA_OBJECT_TYPE_SHIFT + k) = true := by decide
  apply BitVec.eq_of_getLsbD_eq
  intro k _
  rw [BitVec.getLsbD_ushiftRight, BitVec.getLsbD_zero]
  by_cases hk : k < 4
  · have hbit := congrArg (fun word : Word => word.getLsbD (EXTRA_OBJECT_TYPE_SHIFT + k)) h
    rwa [BitVec.getLsbD_and, hmask ⟨k, hk⟩, Bool.and_true, BitVec.getLsbD_zero] at hbit
  · exact BitVec.getLsbD_of_ge _ _ (by unfold EXTRA_OBJECT_TYPE_SHIFT; omega)

theorem setWidth_size {size : BitVec 64} (h : size.sshiftRight 31 = 0#64) : (size.setWidth 32).setWidth 64 = size := by
  ext k hk : 1
  rw [BitVec.getElem_setWidth, BitVec.getLsbD_setWidth]
  by_cases hlow : k < 32
  · simp [hlow, BitVec.getLsbD_eq_getElem hk]
  · have hbit := congrArg (·.getLsbD (k - 31)) h
    have hsum : 31 + (k - 31) = k := by omega
    rw [BitVec.getLsbD_sshiftRight, hsum, if_pos hk, decide_eq_false (by omega), Bool.not_false, Bool.true_and] at hbit
    rw [decide_eq_false hlow, Bool.false_and, ← BitVec.getLsbD_eq_getElem hk, hbit, BitVec.getLsbD_zero]

end Fields

def ExtTags.flags (t : ExtTags) : Word :=
  EXTRA_HEADER_INFO_FLAG ||| (if t.extraIsShrink ≠ 0 then EXTRA_SHRINK_FLAG else 0) |||
    (if t.extraShadows ≠ 0 then EXTRA_SHADOWS_FLAG else 0)

theorem flags_spec (t : ExtTags) : t.flags &&& ~~~ALL_EXTRA_FLAGS = 0#32 ∧ t.flags &&& EXTRA_HEADER_INFO_FLAG ≠ 0 ∧
    (t.flags &&& EXTRA_SHRINK_FLAG ≠ 0 ↔ t.extraIsShrink ≠ 0) ∧
    (t.flags &&& EXTRA_SHADOWS_FLAG ≠ 0 ↔ t.extraShadows ≠ 0) := by
  unfold ExtTags.flags
  split_ifs with hshrink hshadows hshadows
  · exact ⟨by decide, by decide, iff_of_true (by decide) hshrink, iff_of_true (by decide) hshadows⟩
  · exact ⟨by decide, by decide, iff_of_true (by decide) hshrink, iff_of_false (by decide) hshadows⟩
  · exact ⟨by decide, by decide, iff_of_false (by decide) hshrink, iff_of_true (by decide) hshadows⟩
  · exact ⟨by decide, by decide, iff_of_false (by decide) hshrink, iff_of_false (by decide) hshadows⟩

theorem pack_header {t : ExtTags} (h : yaffsCheckTagsExtraPackable t = true) : yaffsPackTags2TagsOnly t =
    { seqNumber := t.seqNumber
      objId := t.objId &&& ~~~EXTRA_OBJECT_TYPE_MASK ||| t.extraObjType <<< EXTRA_OBJECT_TYPE_SHIFT
      chunkId := t.extraParentId ||| t.flags
      nBytes := if t.extraObjType = YAFFS_OBJECT_TYPE_HARDLINK then t.extraEquivId
        else if t.extraObjType = YAFFS_OBJECT_TYPE_FILE then t.extraFileSize.setWidth 32 else 0 } := by
  unfold yaffsPackTags2TagsOnly ExtTags.flags
  rw [if_pos h]
  split_ifs <;> simp <;> ac_rfl

theorem size_of_packable {t : ExtTags} (h : yaffsCheckTagsExtraPackable t = true)
    (hfile : t.extraObjType = YAFFS_OBJECT_TYPE_FILE) : t.extraFileSize.sshiftRight 31 = 0 := by
  unfold yaffsCheckTagsExtraPackable at h
  split_ifs at h with _ hsize
  exact not_not.mp fun hne => hsize ⟨hfile, hne⟩

theorem yaffsUnpackTags2TagsOnly_pack (t : ExtTags) (h : t.Packable) :
    yaffsUnpackTags2TagsOnly (yaffsPackTags2TagsOnly t) = t.stored := by
  cases hpack : yaffsCheckTagsExtraPackable t with
  | false =>
      have hpacked : yaffsPackTags2TagsOnly t = ⟨t.seqNumber, t.objId, t.chunkId, t.nBytes⟩ :=
        if_neg (Bool.not_eq_true _ ▸ hpack)
      rw [hpacked, yaffsUnpackTags2TagsOnly, if_neg h.seq]
      dsimp only
      rw [if_neg (not_not.mpr (h.chunk hpack)), ExtTags.stored, if_neg (Bool.not_eq_true _ ▸ hpack)]
  | true =>
      obtain ⟨hclear, hheader, hshrink, hshadows⟩ := flags_spec t
      have hparent := h.parent hpack
      have hobj := h.obj hpack
      obtain ⟨htype, hmask⟩ := shift_type (h.type hpack)
      have hflag : ∀ {mask : Word}, ALL_EXTRA_FLAGS &&& mask = mask →
          (t.extraParentId ||| t.flags) &&& mask = t.flags &&& mask := fun hmask => flag_of_or hparent hmask
      have hobjType : (t.objId ||| t.extraObjType <<< EXTRA_OBJECT_TYPE_SHIFT) >>> EXTRA_OBJECT_TYPE_SHIFT =
          t.extraObjType := by
        rw [BitVec.ushiftRight_or_distrib, shift_obj hobj, htype, BitVec.zero_or]
      rw [pack_header hpack, and_not_self_of_and hobj, yaffsUnpackTags2TagsOnly, if_neg h.seq]
      dsimp only
      rw [hflag (by decide), if_pos hheader, field_of_or hparent hclear, hflag (by decide), hflag (by decide),
        hobjType, field_of_or hobj hmask, ExtTags.stored, if_pos hpack]
      simp only [hshrink, hshadows]
      by_cases hlink : t.extraObjType = YAFFS_OBJECT_TYPE_HARDLINK
      · have hfile : ¬ t.extraObjType = YAFFS_OBJECT_TYPE_FILE := by rw [hlink]; decide
        simp only [if_pos hlink, if_neg hfile]
        rfl
      by_cases hfile : t.extraObjType = YAFFS_OBJECT_TYPE_FILE
      · simp only [if_neg hlink, if_pos hfile, setWidth_size (size_of_packable hpack hfile)]
        rfl
      · simp only [if_neg hlink, if_neg hfile]
        rfl

/-- `sizeof(struct yaffs_packed_tags2_tags_only)` -/
def tagsSize : BitVec 32 := 16

namespace PackedTags2TagsOnly

def bytes (ptt : PackedTags2TagsOnly) : List Byte :=
  wordBytes ptt.seqNumber ++ wordBytes ptt.objId ++ wordBytes ptt.chunkId ++ wordBytes ptt.nBytes

def ofBytes (bytes : List Byte) : PackedTags2TagsOnly :=
  ⟨bytesWord (bytes.take 4), bytesWord ((bytes.drop 4).take 4), bytesWord ((bytes.drop 8).take 4),
    bytesWord ((bytes.drop 12).take 4)⟩

def toVector (ptt : PackedTags2TagsOnly) : Vector Byte tagsSize.toNat := Vector.ofFn fun i => ptt.bytes.getD i 0

theorem length_bytes (ptt : PackedTags2TagsOnly) : ptt.bytes.length = 16 := rfl

theorem toList_toVector (ptt : PackedTags2TagsOnly) : ptt.toVector.toList = ptt.bytes := by
  apply List.ext_getElem
  · rw [Vector.length_toList, length_bytes]
    rfl
  · intro i hi hi'
    simp [toVector, hi']

@[simp] theorem ofBytes_bytes (ptt : PackedTags2TagsOnly) : ofBytes ptt.bytes = ptt := by
  ext1 <;> exact bytesWord_wordBytes _

end PackedTags2TagsOnly

structure PackedTags2 where
  t : PackedTags2TagsOnly
  ecc : YaffsEccOther

/-- The `ecc` of `pt` is whatever it was where there is to be none. -/
def yaffsPackTags2 (pt : PackedTags2) (t : ExtTags) (tagsEcc : Bool) : PackedTags2 :=
  let ptt := yaffsPackTags2TagsOnly t
  if tagsEcc then ⟨ptt, yaffsEccCalcOther tagsSize ptt.toVector⟩ else ⟨ptt, pt.ecc⟩

/-- `pt` is corrected in place. -/
def yaffsUnpackTags2 (pt : PackedTags2) (tagsEcc : Bool) : ExtTags × PackedTags2 :=
  let (eccResult, pt) : EccResult × PackedTags2 :=
    if pt.t.seqNumber ≠ 0xffffffff ∧ tagsEcc then
      let ecc := yaffsEccCalcOther tagsSize pt.t.toVector
      let (result, data, readEcc) := yaffsEccCorrectOther tagsSize pt.t.toVector pt.ecc ecc
      (if result = 0 then .noError else if result = 1 then .fixed else if result = -1 then .unfixed else .unknown,
        ⟨.ofBytes data.toList, readEcc⟩)
    else (.noError, pt)
  ({ yaffsUnpackTags2TagsOnly pt.t with eccResult }, pt)

/-- `sizeof(struct yaffs_packed_tags2)` -/
def packedSize : Nat := 28

namespace PackedTags2

/-- The structure in memory; three bytes behind `col_parity` are not used. -/
def bytes (pt : PackedTags2) (pad : Vector Byte 3) : List Byte :=
  pt.t.bytes ++ [pt.ecc.colParity] ++ pad.toList ++ wordBytes pt.ecc.lineParity ++ wordBytes pt.ecc.lineParityPrime

def ofBytes (bytes : List Byte) : PackedTags2 :=
  ⟨.ofBytes (bytes.take 16), bytes.getD 16 0, bytesWord ((bytes.drop 20).take 4), bytesWord ((bytes.drop 24).take 4)⟩

variable (pt : PackedTags2) (pad : Vector Byte 3)

theorem length_bytes : (pt.bytes pad).length = packedSize := by
  simp [bytes, PackedTags2TagsOnly.length_bytes, wordBytes, packedSize]

end PackedTags2

theorem wordBytes_turn (w : Word) (i : Fin 4) (j : Fin 8) :
    wordBytes (w ^^^ BitVec.twoPow 32 (8 * i + j)) = flipBit (wordBytes w) i j := by
  have hxor : ∀ x y : Word, wordBytes (x ^^^ y) = List.zipWith (· ^^^ ·) (wordBytes x) (wordBytes y) := by
    intro x y
    simp [wordBytes, BitVec.ushiftRight_xor_distrib]
  have hone : ∀ (i : Fin 4) (j : Fin 8), wordBytes (BitVec.twoPow 32 (8 * i + j)) = flipBit [0, 0, 0, 0] i j := by
    decide
  rw [hxor, hone]
  fin_cases i <;> simp [wordBytes, flipBit]

theorem wordBytes_bytesWord (b0 b1 b2 b3 : Byte) : wordBytes (bytesWord [b0, b1, b2, b3]) = [b0, b1, b2, b3] := by
  simp only [wordBytes, bytesWord, List.foldr_cons, List.foldr_nil, List.cons.injEq, and_true]
  refine ⟨?_, ?_, ?_, ?_⟩
  all_goals
    apply BitVec.eq_of_getLsbD_eq
    intro k hk
    interval_cases k <;> simp

theorem wordBytes_take {bytes : List Byte} (h : bytes.length = 4) : wordBytes (bytesWord bytes) = bytes := by
  match bytes, h with
  | [b0, b1, b2, b3], _ => exact wordBytes_bytesWord b0 b1 b2 b3

theorem flipBit_append_left {a : List Byte} {i : Nat} (hi : i < a.length) (b : List Byte) (j : Nat) :
    flipBit (a ++ b) i j = flipBit a i j ++ b := by
  unfold flipBit
  induction a generalizing i with
  | nil => cases hi
  | cons x a ih =>
      cases i with
      | zero => rfl
      | succ i => exact congrArg (x :: ·) (ih (Nat.lt_of_succ_lt_succ hi))

theorem flipBit_append_right (a b : List Byte) (i j : Nat) : flipBit (a ++ b) (a.length + i) j = a ++ flipBit b i j := by
  unfold flipBit
  induction a with
  | nil => rw [List.length_nil, Nat.zero_add]; rfl
  | cons x a ih =>
      rw [List.length_cons, Nat.succ_add]
      exact congrArg (x :: ·) ih

namespace PackedTags2

theorem take_append_drop_add (l : List Byte) (k n : Nat) : (l.drop k).take n ++ l.drop (k + n) = l.drop k := by
  rw [← List.drop_drop, List.take_append_drop]

theorem bytes_tagsOfBytes {raw : List Byte} (h : raw.length = 16) : (PackedTags2TagsOnly.ofBytes raw).bytes = raw := by
  have hlast : (raw.drop 12).take 4 = raw.drop 12 := List.take_of_length_le (by simp [h])
  rw [PackedTags2TagsOnly.bytes, PackedTags2TagsOnly.ofBytes]
  dsimp only
  rw [wordBytes_take (by simp [h]), wordBytes_take (by simp [h]), wordBytes_take (by simp [h]),
    wordBytes_take (by simp [h]), hlast, List.append_assoc, take_append_drop_add _ 8 4, List.append_assoc,
    take_append_drop_add _ 4 4, List.take_append_drop]

theorem toVector_ofBytes (v : Vector Byte tagsSize.toNat) : (PackedTags2TagsOnly.ofBytes v.toList).toVector = v := by
  have hlength : v.toList.length = 16 := Vector.length_toList
  apply Vector.toList_inj.mp
  rw [PackedTags2TagsOnly.toList_toVector, bytes_tagsOfBytes hlength]

theorem line_neZero : NeZero 32 := ⟨by decide⟩

/-- The bit of the tags or their code that a bit of the bytes is. -/
def bitOf (i : Nat) (j : Fin 8) : Option (YaffsEccOther.Bit tagsSize) :=
  if h : i < 16 then some (.inl (⟨i, h⟩, j))
  else if i = 16 then some (.inr (.inl j))
  else if i < 20 then none
  else if i < 24 then some (.inr (.inr (.inl (@Fin.ofNat 32 line_neZero (8 * (i - 20) + j)))))
  else some (.inr (.inr (.inr (@Fin.ofNat 32 line_neZero (8 * (i - 24) + j)))))

def ofStored (stored : Vector Byte tagsSize.toNat × YaffsEccOther) : PackedTags2 := ⟨.ofBytes stored.1.toList, stored.2⟩

theorem ofBytes_append {a pad l p : List Byte} (c : Byte) (ha : a.length = 16) (hpad : pad.length = 3)
    (hl : l.length = 4) (hp : p.length = 4) :
    ofBytes (a ++ [c] ++ pad ++ l ++ p) = ⟨.ofBytes a, c, bytesWord l, bytesWord p⟩ := by
  have hbehind : (a ++ [c] ++ pad).length = 20 := by simp [ha, hpad]
  have hbehind' : (a ++ [c] ++ pad ++ l).length = 24 := by simp [ha, hpad, hl]
  have htake : (a ++ [c] ++ pad ++ l ++ p).take 16 = a := by
    simp [← ha]
  have hget : (a ++ [c] ++ pad ++ l ++ p).getD 16 0 = c := by
    simp [← ha]
  have hline : ((a ++ [c] ++ pad ++ l ++ p).drop 20).take 4 = l := by
    rw [List.append_assoc _ l p, List.drop_left' hbehind, List.take_left' hl]
  have hprime : ((a ++ [c] ++ pad ++ l ++ p).drop 24).take 4 = p := by
    rw [List.drop_left' hbehind', List.take_of_length_le hp.le]
  rw [ofBytes, htake, hget, hline, hprime]

variable (pt : PackedTags2) (pad : Vector Byte 3)

theorem ofStored_self : ofStored (pt.t.toVector, pt.ecc) = pt := by
  rw [ofStored, PackedTags2TagsOnly.toList_toVector, PackedTags2TagsOnly.ofBytes_bytes]

theorem bytesWord_flipBit (w : Word) {i : Nat} (hi : i < 4) (j : Fin 8) :
    bytesWord (flipBit (wordBytes w) i j) = w ^^^ BitVec.twoPow 32 (Fin.ofNat 32 (8 * i + j)).val := by
  rw [← wordBytes_turn w ⟨i, hi⟩ j, bytesWord_wordBytes, Fin.val_ofNat, Nat.mod_eq_of_lt (by omega)]

theorem ofBytes_bytes : ofBytes (pt.bytes pad) = pt := by
  rw [bytes, ofBytes_append _ rfl Vector.length_toList rfl rfl, PackedTags2TagsOnly.ofBytes_bytes, bytesWord_wordBytes,
    bytesWord_wordBytes]

theorem ofBytes_flipBit {i : Nat} (hi : i < packedSize) (j : Fin 8) : ofBytes (flipBit (pt.bytes pad) i j) =
    (bitOf i j).elim pt fun p => ofStored (YaffsEccOther.turn p (pt.t.toVector, pt.ecc)) := by
  have ht : pt.t.bytes.length = 16 := rfl
  have hpad : pad.toList.length = 3 := Vector.length_toList
  have hc : (pt.t.bytes ++ [pt.ecc.colParity]).length = 17 := by simp [ht]
  have hbehind : (pt.t.bytes ++ [pt.ecc.colParity] ++ pad.toList).length = 20 := by simp [ht]
  have hbehind' : (pt.t.bytes ++ [pt.ecc.colParity] ++ pad.toList ++ wordBytes pt.ecc.lineParity).length = 24 := by
    simp [ht, wordBytes]
  unfold packedSize at hi
  unfold bytes bitOf
  split_ifs with h16 hcol hpadded hline
  · rw [flipBit_append_left (by omega), flipBit_append_left (by omega), flipBit_append_left (by omega),
      flipBit_append_left (by omega), ofBytes_append _ (by simpa using ht) hpad rfl rfl, bytesWord_wordBytes,
      bytesWord_wordBytes]
    have hturn := toList_turnBit pt.t.toVector (⟨i, h16⟩, j)
    rw [PackedTags2TagsOnly.toList_toVector] at hturn
    simp only [Option.elim, ofStored, YaffsEccOther.turn, hturn]
  · have hat : i = pt.t.bytes.length + 0 := hcol
    rw [flipBit_append_left (by omega), flipBit_append_left (by omega), flipBit_append_left (by omega), hat,
      flipBit_append_right, flipBit, List.modify_zero_cons, ofBytes_append _ ht hpad rfl rfl, bytesWord_wordBytes,
      bytesWord_wordBytes]
    simp only [Option.elim, ofStored, YaffsEccOther.turn, YaffsEccOther.turnBit, PackedTags2TagsOnly.toList_toVector]
  · obtain ⟨k, rfl⟩ : ∃ k, i = (pt.t.bytes ++ [pt.ecc.colParity]).length + k := ⟨i - 17, by omega⟩
    rw [flipBit_append_left (by omega), flipBit_append_left (by omega), flipBit_append_right,
      ofBytes_append _ ht (by simp) rfl rfl, PackedTags2TagsOnly.ofBytes_bytes, bytesWord_wordBytes, bytesWord_wordBytes]
    rfl
  · obtain ⟨k, rfl⟩ : ∃ k, i = (pt.t.bytes ++ [pt.ecc.colParity] ++ pad.toList).length + k := ⟨i - 20, by omega⟩
    have hk : k < 4 := by omega
    have hsub : (pt.t.bytes ++ [pt.ecc.colParity] ++ pad.toList).length + k - 20 = k := by omega
    rw [flipBit_append_left (by omega), flipBit_append_right, ofBytes_append _ ht hpad (by simp [wordBytes]) rfl,
      bytesWord_flipBit _ hk, bytesWord_wordBytes, hsub]
    simp only [Option.elim, ofStored, YaffsEccOther.turn, YaffsEccOther.turnBit, PackedTags2TagsOnly.toList_toVector]
  · obtain ⟨k, rfl⟩ : ∃ k, i = (pt.t.bytes ++ [pt.ecc.colParity] ++ pad.toList ++
        wordBytes pt.ecc.lineParity).length + k := ⟨i - 24, by omega⟩
    have hk : k < 4 := by omega
    have hsub : (pt.t.bytes ++ [pt.ecc.colParity] ++ pad.toList ++ wordBytes pt.ecc.lineParity).length + k - 24 = k := by
      omega
    rw [flipBit_append_right, ofBytes_append _ ht hpad rfl (by simp [wordBytes]), bytesWord_flipBit _ hk,
      bytesWord_wordBytes, hsub]
    simp only [Option.elim, ofStored, YaffsEccOther.turn, YaffsEccOther.turnBit, PackedTags2TagsOnly.toList_toVector]

def padOf (bytes : List Byte) : Vector Byte 3 := Vector.ofFn fun i => bytes.getD (17 + i) 0

theorem take_eq_ofFn {raw : List Byte} {k n : Nat} (h : k + n ≤ raw.length) :
    (raw.drop k).take n = List.ofFn fun i : Fin n => raw.getD (k + i) 0 := by
  apply List.ext_getElem
  · simp
    omega
  · intro i hi hi'
    have hlt : k + i < raw.length := by simp at hi; omega
    simp [hlt]

theorem bytes_ofBytes {raw : List Byte} (h : raw.length = packedSize) : (ofBytes raw).bytes (padOf raw) = raw := by
  unfold packedSize at h
  have hcol : [raw.getD 16 0] = (raw.drop 16).take 1 := by
    rw [take_eq_ofFn (by omega)]
    rfl
  have hpad : (padOf raw).toList = (raw.drop 17).take 3 :=
    Vector.toList_ofFn.trans (take_eq_ofFn (by omega)).symm
  have hlast : (raw.drop 24).take 4 = raw.drop 24 := List.take_of_length_le (by simp [h])
  rw [bytes, ofBytes]
  dsimp only
  rw [bytes_tagsOfBytes (by simp [h]), wordBytes_take (by simp [h]), wordBytes_take (by simp [h]), hcol, hpad, hlast,
    List.append_assoc, take_append_drop_add _ 20 4, List.append_assoc, take_append_drop_add _ 17 3, List.append_assoc,
    take_append_drop_add _ 16 1, List.take_append_drop]

theorem ofStored_toVector (stored : Vector Byte tagsSize.toNat × YaffsEccOther) :
    ((ofStored stored).t.toVector, (ofStored stored).ecc) = stored := by
  rw [ofStored, toVector_ofBytes]

theorem ofBytes_flipBit_flipBit {i k : Nat} (hi : i < packedSize) (hk : k < packedSize) {j l : Fin 8}
    {p q : YaffsEccOther.Bit tagsSize} (hp : bitOf i j = some p) (hq : bitOf k l = some q) :
    ofBytes (flipBit (flipBit (pt.bytes pad) k l) i j) =
      ofStored (YaffsEccOther.turn p (YaffsEccOther.turn q (pt.t.toVector, pt.ecc))) := by
  have hraw : (flipBit (pt.bytes pad) k l).length = packedSize := by rw [length_flipBit, length_bytes]
  have hfirst := ofBytes_flipBit pt pad hk l
  rw [hq, Option.elim_some] at hfirst
  rw [← bytes_ofBytes hraw, ofBytes_flipBit _ _ hi, hp, Option.elim_some, hfirst, ofStored_toVector]

theorem bitOf_inj {i k : Nat} (hi : i < packedSize) (hk : k < packedSize) {j l : Fin 8} {p : YaffsEccOther.Bit tagsSize}
    (hp : bitOf i j = some p) (hq : bitOf k l = some p) : i = k ∧ j = l := by
  unfold packedSize at hi hk
  unfold bitOf at hp hq
  split_ifs at hp hq
  all_goals
    obtain rfl := Option.some.inj hp
    simp only [Option.some.injEq, Sum.inl.injEq, Sum.inr.injEq, Prod.mk.injEq, reduceCtorEq, Fin.ext_iff,
      Fin.val_ofNat] at hq <;> omega

theorem take_flipBit (raw : List Byte) (i j n : Nat) : (flipBit raw i j).take n = flipBit (raw.take n) i j :=
  List.take_modify _ _ _ _

theorem seqNumber_turn (p : YaffsEccOther.Bit tagsSize) (stored : Vector Byte tagsSize.toNat × YaffsEccOther) :
    ∃ k, (ofStored (YaffsEccOther.turn p stored)).t.seqNumber = (ofStored stored).t.seqNumber ^^^ BitVec.twoPow 32 k := by
  have hnone : BitVec.twoPow 32 32 = 0#32 := by decide
  rcases p with ⟨i, j⟩ | p
  · have hlist := toList_turnBit stored.1 (i, j)
    have hfour : (stored.1.toList.take 4).length = 4 := by simp [tagsSize]
    simp only [ofStored, YaffsEccOther.turn, PackedTags2TagsOnly.ofBytes, hlist, take_flipBit]
    by_cases hi : i.val < 4
    · exact ⟨_, (congrArg _ (congrArg (flipBit · i j) (wordBytes_take hfour)).symm).trans (bytesWord_flipBit _ hi j)⟩
    · refine ⟨32, ?_⟩
      rw [hnone, BitVec.xor_zero, flipBit, List.modify_eq_self (by omega)]
  · exact ⟨32, by rw [hnone, BitVec.xor_zero]; rfl⟩

def reported (result : Int) : EccResult :=
  if result = 0 then .noError else if result = 1 then .fixed else if result = -1 then .unfixed else .unknown

theorem unpack_ofStored {stored : Vector Byte tagsSize.toNat × YaffsEccOther}
    (h : (ofStored stored).t.seqNumber ≠ 0xffffffff) :
    let r := yaffsEccCorrectOther tagsSize stored.1 stored.2 (yaffsEccCalcOther tagsSize stored.1)
    yaffsUnpackTags2 (ofStored stored) true =
      ({ yaffsUnpackTags2TagsOnly (ofStored r.2).t with eccResult := reported r.1 }, ofStored r.2) := by
  intro r
  have hvector : (ofStored stored).t.toVector = stored.1 := toVector_ofBytes _
  have hecc : (ofStored stored).ecc = stored.2 := rfl
  rw [yaffsUnpackTags2, if_pos ⟨h, rfl⟩, hvector, hecc]
  rfl

end PackedTags2

/-- A sequence number that no two wrong bits turn into that of an erased chunk. -/
def SeqApart (seq : Word) : Prop := ∀ k l, seq ^^^ BitVec.twoPow 32 k ^^^ BitVec.twoPow 32 l ≠ 0xffffffff

/-- A bit of the stored bytes that the code watches over. -/
def Watched (i : Nat) (j : Fin 8) : Prop := i < 16 ∨ i = 16 ∧ j.val < 6 ∨ 20 ≤ i ∧ i < packedSize

theorem seqNumber_pack (t : ExtTags) : (yaffsPackTags2TagsOnly t).seqNumber = t.seqNumber := by
  unfold yaffsPackTags2TagsOnly
  dsimp only
  split_ifs <;> rfl

theorem bitOf_watched {i : Nat} {j : Fin 8} (h : Watched i j) :
    i < packedSize ∧ ∃ p, PackedTags2.bitOf i j = some p ∧ ¬ (YaffsEccOther.wrong p).Spare := by
  simp only [YaffsEccOther.spare_iff]
  unfold packedSize
  rcases h with hi | ⟨rfl, hj⟩ | ⟨hle, hlt⟩
  · exact ⟨by omega, _, dif_pos hi, id⟩
  · exact ⟨by omega, .inr (.inl j), by simp [PackedTags2.bitOf], Nat.not_le_of_lt hj⟩
  · unfold packedSize at hlt
    by_cases hline : i < 24
    · exact ⟨hlt, _, by rw [PackedTags2.bitOf, dif_neg (by omega), if_neg (by omega), if_neg (by omega), if_pos hline], id⟩
    · exact ⟨hlt, _, by rw [PackedTags2.bitOf, dif_neg (by omega), if_neg (by omega), if_neg (by omega), if_neg hline], id⟩

theorem bitOf_eq_none {i : Nat} (j : Fin 8) : PackedTags2.bitOf i j = none ↔ 17 ≤ i ∧ i < 20 := by
  unfold PackedTags2.bitOf
  split_ifs <;> simp <;> omega

theorem tags_secDed : SecDed (yaffsEccCalcOther tagsSize) (yaffsEccCorrectOther tagsSize) YaffsEccOther.turn
    (fun p => (YaffsEccOther.wrong p).Spare) := (YaffsEccOther.code tagsSize).secDed (by decide)

def ExtTags.coded (t : ExtTags) : Vector Byte tagsSize.toNat × YaffsEccOther :=
  ((yaffsPackTags2TagsOnly t).toVector, yaffsEccCalcOther tagsSize (yaffsPackTags2TagsOnly t).toVector)

section Coded

variable {t : ExtTags}

theorem ofStored_coded (t : ExtTags) (pt : PackedTags2) : PackedTags2.ofStored t.coded = yaffsPackTags2 pt t true :=
  PackedTags2.ofStored_self (yaffsPackTags2 pt t true)

theorem seqNumber_coded (t : ExtTags) : (PackedTags2.ofStored t.coded).t.seqNumber = t.seqNumber := by
  rw [ofStored_coded t ⟨⟨0, 0, 0, 0⟩, 0, 0, 0⟩]
  exact seqNumber_pack t

theorem unpack_coded (h : t.Packable) : yaffsUnpackTags2TagsOnly (PackedTags2.ofStored t.coded).t = t.stored := by
  rw [ofStored_coded t ⟨⟨0, 0, 0, 0⟩, 0, 0, 0⟩]
  exact yaffsUnpackTags2TagsOnly_pack t h

theorem unpack_clean (h : t.Packable) :
    (yaffsUnpackTags2 (PackedTags2.ofStored t.coded) true).1 = { t.stored with eccResult := .noError } := by
  have hseq : (PackedTags2.ofStored t.coded).t.seqNumber ≠ 0xffffffff := by rw [seqNumber_coded]; exact h.seq
  rw [PackedTags2.unpack_ofStored hseq, ExtTags.coded, tags_secDed.clean, ← ExtTags.coded, unpack_coded h]
  rfl

theorem unpack_single (h : t.Packable) (hseq : SeqApart t.seqNumber) (p : YaffsEccOther.Bit tagsSize) :
    (yaffsUnpackTags2 (PackedTags2.ofStored (YaffsEccOther.turn p t.coded)) true).1 =
      { t.stored with eccResult := .fixed } := by
  obtain ⟨k, hturned⟩ := PackedTags2.seqNumber_turn p t.coded
  have hnone : BitVec.twoPow 32 32 = 0#32 := by decide
  have hapart : (PackedTags2.ofStored (YaffsEccOther.turn p t.coded)).t.seqNumber ≠ 0xffffffff := by
    have hone := hseq k 32
    rwa [hnone, BitVec.xor_zero, ← seqNumber_coded t, ← hturned] at hone
  rw [PackedTags2.unpack_ofStored hapart, ExtTags.coded, tags_secDed.single _ p, ← ExtTags.coded, unpack_coded h]
  rfl

theorem unpack_double (hseq : SeqApart t.seqNumber) {p q : YaffsEccOther.Bit tagsSize} (hne : p ≠ q)
    (hp : ¬ (YaffsEccOther.wrong p).Spare) (hq : ¬ (YaffsEccOther.wrong q).Spare) :
    (yaffsUnpackTags2 (PackedTags2.ofStored (YaffsEccOther.turn p (YaffsEccOther.turn q t.coded))) true).1.eccResult =
      .unfixed := by
  obtain ⟨l, hturned⟩ := PackedTags2.seqNumber_turn q t.coded
  obtain ⟨k, hturned'⟩ := PackedTags2.seqNumber_turn p (YaffsEccOther.turn q t.coded)
  have hapart : (PackedTags2.ofStored (YaffsEccOther.turn p (YaffsEccOther.turn q t.coded))).t.seqNumber ≠ 0xffffffff := by
    rw [hturned', hturned, seqNumber_coded]
    exact hseq l k
  rw [PackedTags2.unpack_ofStored hapart, ExtTags.coded, tags_secDed.double _ p q hne hp hq]
  rfl

theorem coded_eq (t : ExtTags) (pt : PackedTags2) :
    ((yaffsPackTags2 pt t true).t.toVector, (yaffsPackTags2 pt t true).ecc) = t.coded := rfl

theorem unpack_bytes (h : t.Packable) (pt : PackedTags2) (pad : Vector Byte 3) :
    (yaffsUnpackTags2 (.ofBytes ((yaffsPackTags2 pt t true).bytes pad)) true).1 = { t.stored with eccResult := .noError } := by
  rw [PackedTags2.ofBytes_bytes, ← ofStored_coded]
  exact unpack_clean h

theorem unpack_flipBit (h : t.Packable) (hseq : SeqApart t.seqNumber) (pt : PackedTags2) (pad : Vector Byte 3) {i : Nat}
    (hi : i < packedSize) (j : Fin 8) :
    (yaffsUnpackTags2 (.ofBytes (flipBit ((yaffsPackTags2 pt t true).bytes pad) i j)) true).1 =
      { t.stored with eccResult := if 17 ≤ i ∧ i < 20 then .noError else .fixed } := by
  have hpart := bitOf_eq_none (i := i) j
  rw [PackedTags2.ofBytes_flipBit _ _ hi, coded_eq]
  cases hbit : PackedTags2.bitOf i j with
  | none =>
      rw [if_pos (hpart.mp hbit), Option.elim_none, ← ofStored_coded]
      exact unpack_clean h
  | some p =>
      have hwatched : ¬ (17 ≤ i ∧ i < 20) := fun hpad => by
        rw [hpart.mpr hpad] at hbit
        cases hbit
      rw [if_neg hwatched]
      exact unpack_single h hseq p

theorem unpack_flipBit_flipBit (hseq : SeqApart t.seqNumber) (pt : PackedTags2) (pad : Vector Byte 3) {i k : Nat}
    {j l : Fin 8} (hij : Watched i j) (hkl : Watched k l) (hne : (i, j) ≠ (k, l)) :
    (yaffsUnpackTags2 (.ofBytes (flipBit (flipBit ((yaffsPackTags2 pt t true).bytes pad) k l) i j)) true).1.eccResult =
      .unfixed := by
  obtain ⟨hi, p, hp, hspare⟩ := bitOf_watched hij
  obtain ⟨hk, q, hq, hspare'⟩ := bitOf_watched hkl
  have hpq : p ≠ q := by
    rintro rfl
    obtain ⟨rfl, rfl⟩ := PackedTags2.bitOf_inj hi hk hp hq
    exact hne rfl
  rw [PackedTags2.ofBytes_flipBit_flipBit _ _ hi hk hp hq, coded_eq]
  exact unpack_double hseq hpq hspare hspare'

end Coded

/-- What a reader gets of the tags that were stored with their code. -/
structure Survives (t : ExtTags) (raw : List Byte) : Prop where
  same : (yaffsUnpackTags2 (.ofBytes raw) true).1 = { t.stored with eccResult := .noError }
  single : ∀ i < packedSize, ∀ j : Fin 8, (yaffsUnpackTags2 (.ofBytes (flipBit raw i j)) true).1 =
    { t.stored with eccResult := if 17 ≤ i ∧ i < 20 then .noError else .fixed }
  double : ∀ i j k l, Watched i j → Watched k l → (i, j) ≠ (k, l) →
    (yaffsUnpackTags2 (.ofBytes (flipBit (flipBit raw k l) i j)) true).1.eccResult = .unfixed

/-- Tags can be read as they were stored with any one bit wrong; with any two wrong bits the reader is told. -/
theorem yaffsUnpackTags2_survives (t : ExtTags) (h : t.Packable) (hseq : SeqApart t.seqNumber) (pt : PackedTags2)
    (pad : Vector Byte 3) : Survives t ((yaffsPackTags2 pt t true).bytes pad) where
  same := unpack_bytes h pt pad
  single _ hi j := unpack_flipBit h hseq pt pad hi j
  double _ _ _ _ hij hkl hne := unpack_flipBit_flipBit hseq pt pad hij hkl hne

theorem seqApart_of_clear {seq : Word} {a b c : Nat} (hab : a ≠ b) (hac : a ≠ c) (hbc : b ≠ c) (ha : seq.getLsbD a = false)
    (hb : seq.getLsbD b = false) (hc : seq.getLsbD c = false) (hlt : a < 32 ∧ b < 32 ∧ c < 32) : SeqApart seq := by
  intro k l heq
  have hone : ∀ m < 32, seq.getLsbD m = false → m = k ∨ m = l := by
    intro m hm hclear
    have hbit := congrArg (·.getLsbD m) heq
    have hones : (0xffffffff : Word).getLsbD m = true := by
      have hall : ∀ m : Fin 32, (0xffffffff : Word).getLsbD m = true := by decide
      exact hall ⟨m, hm⟩
    simp only [BitVec.getLsbD_xor, hclear, hones, BitVec.getLsbD_twoPow] at hbit
    by_contra hnot
    rw [not_or] at hnot
    simp [Ne.symm hnot.1, Ne.symm hnot.2] at hbit
  have h1 := hone a hlt.1 ha
  have h2 := hone b hlt.2.1 hb
  have h3 := hone c hlt.2.2 hc
  omega

def headerTags : ExtTags :=
  { ExtTags.zero with
    objId := 257, seqNumber := 4097, extraAvailable := 1, extraParentId := 1, extraObjType := YAFFS_OBJECT_TYPE_FILE,
    extraFileSize := 5000 }

theorem headerTags_packable : headerTags.Packable := by
  constructor <;> decide

theorem headerTags_apart : SeqApart headerTags.seqNumber :=
  seqApart_of_clear (a := 1) (b := 2) (c := 3) (by decide) (by decide) (by decide) (by decide) (by decide) (by decide)
    (by decide)

theorem headerTags_survives :
    Survives headerTags ((yaffsPackTags2 ⟨⟨0, 0, 0, 0⟩, 0, 0, 0⟩ headerTags true).bytes (Vector.replicate 3 0)) :=
  yaffsUnpackTags2_survives headerTags headerTags_packable headerTags_apart _ _

end Fl2440.Yaffs
