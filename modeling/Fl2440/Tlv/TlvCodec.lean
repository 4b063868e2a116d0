import Fl2440.Tlv.TlvPack

/-! The packer and the unpacker are inverse to each other, the unpacker accepts
nothing but the packer's frames, and where it reads depends on a length field
it does not compare with the size of the message. -/
namespace Fl2440.Tlv

open Fl2440.Lib

/-- A NULL value counts as an empty one. -/
def valueLen (len : UShort) (val : Option Mem) : Nat := if val.isNone then 0 else len.toNat

/-- The first `6 + len` bytes of `out` are the frame of a tag and a value. -/
structure FrameOf (out : Mem) (tag len : UShort) (value : Mem) : Prop where
  tag_eq : ushortAt out 0 = tag
  len_eq : ushortAt out tlvTagSize = len
  value_eq : ∀ i < len.toNat, out (tlvHeadSize + i) = value i
  framed : Framed out

theorem FrameOf.declaredLen_eq {out value : Mem} {tag len : UShort}
    (h : FrameOf out tag len value) : declaredLen out = len.toNat :=
  congrArg BitVec.toNat h.len_eq

theorem FrameOf.agree {a b value : Mem} {tag len : UShort} (ha : FrameOf a tag len value)
    (hb : FrameOf b tag len value) : ∀ i < tlvMinSize + len.toNat, a i = b i := by
  obtain ⟨_, hheadSize, hminSize⟩ := tlv_sizes
  have htag := ushortAt_inj (ha.tag_eq.trans hb.tag_eq.symm)
  have hlen := ushortAt_inj (ha.len_eq.trans hb.len_eq.symm)
  have hbody : ∀ i < tlvHeadSize + len.toNat, a i = b i := by
    intro i hi
    by_cases hhead : i < tlvHeadSize
    · have hcase : i = 0 ∨ i = 1 ∨ i = 2 ∨ i = 3 := by omega
      rcases hcase with rfl | rfl | rfl | rfl
      · exact htag.1
      · exact htag.2
      · exact hlen.1
      · exact hlen.2
    · obtain ⟨j, rfl⟩ := Nat.exists_eq_add_of_le (Nat.le_of_not_lt hhead)
      rw [ha.value_eq j (by omega), hb.value_eq j (by omega)]
  have hcrc : ushortAt a (tlvHeadSize + len.toNat) = ushortAt b (tlvHeadSize + len.toNat) := by
    have hfa := ha.framed
    have hfb := hb.framed
    rw [Framed, ha.declaredLen_eq] at hfa
    rw [Framed, hb.declaredLen_eq] at hfb
    rw [hfa, hfb, crcOver_congr _ hbody]
  obtain ⟨hhigh, hlow⟩ := ushortAt_inj hcrc
  intro i hi
  by_cases hin : i < tlvHeadSize + len.toNat
  · exact hbody i hin
  · have hcase : i = tlvHeadSize + len.toNat ∨ i = tlvHeadSize + len.toNat + 1 := by omega
    rcases hcase with rfl | rfl
    · exact hhigh
    · exact hlow

theorem FrameOf.of_agree {a b value : Mem} {tag len : UShort} (ha : FrameOf a tag len value)
    (h : ∀ i < tlvMinSize + len.toNat, b i = a i) : FrameOf b tag len value := by
  obtain ⟨htagSize, hheadSize, hminSize⟩ := tlv_sizes
  have hlen : ushortAt b tlvTagSize = len :=
    (ushortAt_congr (h _ (by omega)) (h _ (by omega))).trans ha.len_eq
  have hdeclared : declaredLen b = len.toNat := congrArg BitVec.toNat hlen
  refine ⟨(ushortAt_congr (h _ (by omega)) (h _ (by omega))).trans ha.tag_eq, hlen, ?_, ?_⟩
  · intro i hi
    rw [h _ (by omega), ha.value_eq i hi]
  · have hframed := ha.framed
    rw [Framed, ha.declaredLen_eq] at hframed
    rw [Framed, hdeclared, ushortAt_congr (h _ (by omega)) (h _ (by omega)), hframed]
    exact crcOver_congr _ fun i hi => (h i (by omega)).symm

theorem tlvPack_none (obuf : Mem) (obufSize : Int) (tag len : UShort) (v : Mem) :
    tlvPack (some obuf) obufSize tag len none = tlvPack (some obuf) obufSize tag 0#16 (some v) := by
  have hempty : ∀ m : Mem, m.copy tlvHeadSize v 0 = m := fun m => by
    funext i
    exact Mem.copy_outside m v (by omega)
  simp [tlvPack, hempty]

theorem tlvPack_some (obuf : Mem) (obufSize : Int) (tag len : UShort) (v : Mem)
    (h : ((tlvMinSize + len.toNat : Nat) : Int) ≤ obufSize) :
    ∃ out, tlvPack (some obuf) obufSize tag len (some v) = (tlvMinSize + len.toNat, some out) ∧
      FrameOf out tag len v := by
  obtain ⟨_, hheadSize, hminSize⟩ := tlv_sizes
  let head := (tlvEncodeTl obuf tag len).2
  let body := head.copy tlvHeadSize v len.toNat
  let crc := crcOver tlvMgicCrc body (tlvHeadSize + len.toNat)
  let out := (ushortToBytes body (tlvHeadSize + len.toNat) crc).2
  have hpack : tlvPack (some obuf) obufSize tag len (some v) =
      (tlvMinSize + len.toNat, some out) := by
    have hroom : ¬ obufSize < ((tlvMinSize : Nat) : Int) + (len.toNat : Int) := by
      push_cast at h ⊢
      omega
    simp only [tlvPack, Option.isNone_some, Bool.false_eq_true, if_false, if_neg hroom,
      value_crcItuT_zero]
    refine congrArg₂ Prod.mk ?_ rfl
    change tlvHeadSize + len.toNat + 2 = tlvMinSize + len.toNat
    omega
  have hbody : ∀ i < tlvHeadSize + len.toNat, out i = body i := fun i hi =>
    ushortToBytes_frame _ _ _ (Or.inl hi)
  have hhead : ∀ i < tlvHeadSize, body i = head i := fun i hi =>
    Mem.copy_outside _ _ (Or.inl hi)
  have hat : ∀ off, off + 1 < tlvHeadSize → ushortAt out off = ushortAt head off := by
    intro off hoff
    apply ushortAt_congr
    · rw [hbody _ (by omega), hhead _ (by omega)]
    · rw [hbody _ (by omega), hhead _ (by omega)]
  have hlen : ushortAt out tlvTagSize = len := by
    rw [hat _ (by decide)]
    exact ushortAt_ushortToBytes _ _ _
  have htag : ushortAt out 0 = tag := by
    rw [hat _ (by decide)]
    refine (ushortAt_congr ?_ ?_).trans (ushortAt_ushortToBytes obuf 0 tag)
    · exact ushortToBytes_frame _ _ _ (Or.inl (by decide))
    · exact ushortToBytes_frame _ _ _ (Or.inl (by decide))
  have hdeclared : declaredLen out = len.toNat := congrArg BitVec.toNat hlen
  refine ⟨out, hpack, htag, hlen, ?_, ?_⟩
  · intro i hi
    rw [hbody _ (by omega)]
    exact Mem.copy_inside _ _ hi
  · rw [Framed, hdeclared]
    exact (ushortAt_ushortToBytes _ _ _).trans (crcOver_congr _ fun i hi => (hbody i hi).symm)

theorem tlvPack_frame (obuf : Mem) (obufSize : Int) (tag len : UShort) (val : Option Mem)
    (h : ((tlvMinSize + valueLen len val : Nat) : Int) ≤ obufSize) :
    ∃ out value, tlvPack (some obuf) obufSize tag len val =
        (tlvMinSize + valueLen len val, some out) ∧
      FrameOf out tag (BitVec.ofNat 16 (valueLen len val)) value ∧
      (∀ src, val = some src → value = src) := by
  cases val with
  | none =>
      obtain ⟨out, hpack, hframe⟩ := tlvPack_some obuf obufSize tag 0#16 obuf (by simpa [valueLen] using h)
      exact ⟨out, obuf, by simpa [valueLen, tlvPack_none obuf obufSize tag len obuf] using hpack,
        by simpa [valueLen] using hframe, by simp⟩
  | some v =>
      obtain ⟨out, hpack, hframe⟩ := tlvPack_some obuf obufSize tag len v (by simpa [valueLen] using h)
      exact ⟨out, v, by simpa [valueLen] using hpack, by simpa [valueLen] using hframe,
        fun src hsrc => Option.some.inj hsrc⟩

theorem tlvUnpack_frame (m : Mem) (msgLen : Int) (t l : UShort) (v : Mem)
    (h : ((tlvMinSize + declaredLen m : Nat) : Int) ≤ msgLen) :
    ∃ rv w, (tlvUnpack (some m) msgLen (some t) (some l) (some v)).value =
        ⟨rv, some (ushortAt m 0), some (ushortAt m tlvTagSize), some w⟩ ∧
      (rv = 0 ↔ Framed m) ∧ (Framed m → ∀ i < declaredLen m, w i = m (tlvHeadSize + i)) := by
  have hmin : (tlvMinSize : Int) ≤ msgLen := by
    push_cast at h ⊢
    omega
  rw [value_tlvUnpack m msgLen t l v hmin]
  by_cases hframed : Framed m
  · rw [if_pos hframed]
    refine ⟨0, _, rfl, by simp [hframed], fun _ i hi => ?_⟩
    have hcopy : v.copy 0 (fun j => m (tlvHeadSize + j)) (declaredLen m) (0 + i) = m (tlvHeadSize + i) :=
      Mem.copy_inside v _ hi
    simpa using hcopy
  · rw [if_neg hframed]
    exact ⟨-2, v, rfl, by simp [hframed], fun hf => absurd hf hframed⟩

/-- Round trip and exact image: what is packed is unpacked again, and a message
that holds its declared frame is accepted if and only if it starts with the
frame of the tag, length and value it is reported to carry. -/
theorem tlv_roundtrip_exact :
    (∀ (obuf : Mem) (obufSize : Int) (tag len : UShort) (val : Option Mem) (t l : UShort) (v : Mem),
      ((tlvMinSize + valueLen len val : Nat) : Int) ≤ obufSize →
      ∃ out w, tlvPack (some obuf) obufSize tag len val =
          (tlvMinSize + valueLen len val, some out) ∧
        (tlvUnpack (some out) (tlvMinSize + valueLen len val : Nat) (some t) (some l)
            (some v)).value =
          ⟨0, some tag, some (BitVec.ofNat 16 (valueLen len val)), some w⟩ ∧
        ∀ src, val = some src → ∀ i < valueLen len val, w i = src i) ∧
    (∀ (m : Mem) (msgLen : Int) (t l : UShort) (v obuf : Mem),
      ((tlvMinSize + declaredLen m : Nat) : Int) ≤ msgLen →
      ∃ rv tag len w out, (tlvUnpack (some m) msgLen (some t) (some l) (some v)).value =
          ⟨rv, some tag, some len, some w⟩ ∧
        len.toNat = declaredLen m ∧
        tlvPack (some obuf) msgLen tag len (some w) = (tlvMinSize + len.toNat, some out) ∧
        (rv = 0 ↔ ∀ i < tlvMinSize + declaredLen m, m i = out i)) := by
  constructor
  · intro obuf obufSize tag len val t l v hroom
    obtain ⟨out, value, hpack, hframe, hvalue⟩ := tlvPack_frame obuf obufSize tag len val hroom
    have hlen : (BitVec.ofNat 16 (valueLen len val)).toNat = valueLen len val := by
      apply Nat.mod_eq_of_lt
      unfold valueLen
      split
      · exact Nat.two_pow_pos 16
      · exact len.isLt
    have hdeclared : declaredLen out = valueLen len val := hframe.declaredLen_eq.trans hlen
    obtain ⟨rv, w, hunpack, hrv, hw⟩ := tlvUnpack_frame out (tlvMinSize + valueLen len val : Nat)
      t l v (by rw [hdeclared])
    rw [hframe.tag_eq, hframe.len_eq, hrv.mpr hframe.framed] at hunpack
    refine ⟨out, w, hpack, hunpack, fun src hsrc i hi => ?_⟩
    rw [hw hframe.framed i (by omega), hframe.value_eq i (by omega), hvalue src hsrc]
  · intro m msgLen t l v obuf hfit
    obtain ⟨rv, w, hunpack, hrv, hw⟩ := tlvUnpack_frame m msgLen t l v hfit
    obtain ⟨out, hpack, hframe⟩ := tlvPack_some obuf msgLen (ushortAt m 0) (ushortAt m tlvTagSize) w
      hfit
    refine ⟨rv, _, _, w, out, hunpack, rfl, hpack, ?_⟩
    constructor
    · intro hzero
      have hframed := hrv.mp hzero
      have hsame : FrameOf m (ushortAt m 0) (ushortAt m tlvTagSize) w :=
        ⟨rfl, rfl, fun i hi => (hw hframed i hi).symm, hframed⟩
      exact hsame.agree hframe
    · intro hagree
      exact hrv.mpr (hframe.of_agree hagree).framed

/-- `tlv_unpack` stays inside the message, and accepts it only with its whole
frame inside, unless the length field points behind the message. -/
theorem tlvUnpack_inside_iff (tlvMsg : Option Mem) (msgLen : Int) (tag len : Option UShort)
    (val : Option Mem) :
    ((tlvUnpack tlvMsg msgLen tag len val).Within msgLen ∧
      ((tlvUnpack tlvMsg msgLen tag len val).value.rv = 0 →
        ∀ newLen, (tlvUnpack tlvMsg msgLen tag len val).value.len = some newLen →
          ((tlvMinSize + newLen.toNat : Nat) : Int) ≤ msgLen)) ↔
      (∀ m, tlvMsg = some m → tag.isSome → len.isSome → val.isSome →
        (tlvMinSize : Int) ≤ msgLen → ((tlvMinSize + declaredLen m : Nat) : Int) ≤ msgLen) := by
  by_cases hcall : ∃ m t l v, tlvMsg = some m ∧ tag = some t ∧ len = some l ∧ val = some v ∧
      (tlvMinSize : Int) ≤ msgLen
  · obtain ⟨m, t, l, v, rfl, rfl, rfl, rfl, hmin⟩ := hcall
    rw [within_tlvUnpack_iff m msgLen t l v hmin]
    constructor
    · rintro ⟨hfit, _⟩ m' hm' _ _ _ _
      rwa [← Option.some.inj hm']
    · intro hcond
      have hfit := hcond m rfl rfl rfl rfl hmin
      refine ⟨hfit, fun _ newLen hnew => ?_⟩
      obtain ⟨rv, w, hunpack, _⟩ := tlvUnpack_frame m msgLen t l v hfit
      rw [hunpack] at hnew
      rw [← Option.some.inj hnew]
      exact hfit
  · have hrefused : tlvUnpack tlvMsg msgLen tag len val = pure ⟨-1, tag, len, val⟩ := by
      cases tlvMsg <;> cases tag <;> cases len <;> cases val <;>
        simp_all [tlvUnpack]
    rw [hrefused]
    constructor
    · intro _ m hm htag hlen hval hmin
      obtain ⟨t, ht⟩ := Option.isSome_iff_exists.mp htag
      obtain ⟨l, hl⟩ := Option.isSome_iff_exists.mp hlen
      obtain ⟨v, hv⟩ := Option.isSome_iff_exists.mp hval
      exact absurd ⟨m, t, l, v, hm, ht, hl, hv, hmin⟩ hcall
    · intro _
      exact ⟨Reading.within_pure _ _, fun h => absurd h (by simp)⟩

/-- Six bytes that announce a value of one byte: the second half of the CRC
field is read behind the message. -/
theorem tlvUnpack_reads_behind_message :
    let m : Mem := fun i => if i = 3 then 1 else 0
    6 ∈ (tlvUnpack (some m) 6 (some 0) (some 0) (some m)).reads ∧
      ¬ ((tlvUnpack (some m) 6 (some 0) (some 0) (some m)).Within 6 ∧
        ((tlvUnpack (some m) 6 (some 0) (some 0) (some m)).value.rv = 0 →
          ∀ newLen, (tlvUnpack (some m) 6 (some 0) (some 0) (some m)).value.len = some newLen →
            ((tlvMinSize + newLen.toNat : Nat) : Int) ≤ 6)) := by
  intro m
  have hread : 6 ∈ (tlvUnpack (some m) 6 (some 0) (some 0) (some m)).reads := by decide
  refine ⟨hread, fun h => ?_⟩
  have hlt := h.1 6 hread
  omega

end Fl2440.Tlv
