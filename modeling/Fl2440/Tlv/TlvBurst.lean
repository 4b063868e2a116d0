import Fl2440.Tlv.TlvCodec

/-! A damaged frame is noticed whenever the damage is one burst of at most
sixteen bits that leaves the length field alone. -/
namespace Fl2440.Tlv

open Fl2440.Lib
open ShiftRegister

theorem ushortAt_eq_append (m : Mem) (off : Nat) :
    ushortAt m off = (m off ++ m (off + 1) : BitVec 16) := by
  apply BitVec.eq_of_toNat_eq
  have hlow := (m (off + 1)).isLt
  rw [toNat_ushortAt, BitVec.toNat_append, ← Nat.shiftLeft_add_eq_or_of_lt hlow, Nat.shiftLeft_eq]
  omega

theorem bitsOf_ushortAt (m : Mem) (off : Nat) :
    bitsOf (ushortAt m off) 16 = bitsOf (m off) 8 ++ bitsOf (m (off + 1)) 8 := by
  have hrange : List.range 16 = List.range 8 ++ (List.range 8).map (8 + ·) := by decide
  rw [bitsOf, hrange, List.map_append, List.map_map, ushortAt_eq_append]
  refine congrArg₂ (· ++ ·) (List.map_congr_left fun i hi => ?_) (List.map_congr_left fun i _ => ?_)
  · have hlt := List.mem_range.mp hi
    exact BitVec.getMsbD_append.trans (if_neg (by omega))
  · refine BitVec.getMsbD_append.trans ((if_pos (Nat.le_add_right 8 i)).trans ?_)
    rw [Nat.add_sub_cancel_left]

theorem feedAll_messageBits_eq_zero_iff (e : Mem) (n : Nat) :
    feedAll polynomial 0#16 (messageBits e (n + 2)) = 0#16 ↔
      crcOver 0#16 e n = ushortAt e n := by
  have hbits : messageBits e (n + 2) = messageBits e n ++ bitsOf (ushortAt e n) 16 := by
    rw [messageBits_succ, messageBits_succ, List.append_assoc, bitsOf_ushortAt]
  rw [hbits, feedAll_append, ← crcOver_eq_feedAll, feedAll_word]
  constructor
  · intro hzero
    by_contra hne
    refine shifts_ne_zero polynomial_constant_term 16 (fun hsum => hne ?_) hzero
    exact BitVec.xor_eq_zero_iff.mp hsum
  · intro heq
    rw [heq, BitVec.xor_self, shifts_zero]

theorem ushortAt_xor (m e : Mem) (off : Nat) :
    ushortAt (fun i => m i ^^^ e i) off = ushortAt m off ^^^ ushortAt e off := by
  simp only [ushortAt_eq_append]
  exact (BitVec.xor_append ..).symm

theorem length_untouched {e : Mem} {n : Nat} (hn : tlvMinSize ≤ n)
    (hplace : (∀ k < 8 * n, bitAt e k = true → k < 16) ∨
      (∀ k < 8 * n, bitAt e k = true → 32 ≤ k)) : ushortAt e tlvTagSize = 0#16 := by
  obtain ⟨_, _, hminSize⟩ := tlv_sizes
  have hclear : ∀ i, (i = 2 ∨ i = 3) → e i = 0#8 := by
    intro i hi
    apply BitVec.eq_of_getMsbD_eq
    intro j hj
    by_contra hset
    have hbit : bitAt e (8 * i + j) = true := by
      have hset' : (e i).getMsbD j = true := by simpa using hset
      rwa [bitAt, show (8 * i + j) / 8 = i by omega, show (8 * i + j) % 8 = j by omega]
    rcases hplace with h | h
    · have := h _ (by omega) hbit
      omega
    · have := h _ (by omega) hbit
      omega
  rw [ushortAt, hclear 2 (Or.inl rfl), hclear 3 (Or.inr rfl)]
  rfl

/-- Burst detection. `out` is a frame of `n` bytes and `err` the error pattern;
only its first `n` bytes matter. -/
theorem tlv_burst_detected (obuf : Mem) (obufSize : Int) (tag len : UShort) (val : Option Mem)
    (out : Mem) (n : Nat) (hpack : tlvPack (some obuf) obufSize tag len val = (n, some out))
    (hn : n ≠ 0) (err : Mem) (start k : Nat) (hk : k < 8 * n) (hone : bitAt err k = true)
    (hburst : ∀ i < 8 * n, bitAt err i = true → start ≤ i ∧ i < start + 16)
    (hplace : (∀ i < 8 * n, bitAt err i = true → i < 16) ∨
      (∀ i < 8 * n, bitAt err i = true → 32 ≤ i)) (t l : UShort) (v : Mem) :
    (tlvUnpack (some fun i => out i ^^^ err i) n (some t) (some l) (some v)).value.rv = -2 := by
  have hroom : ((tlvMinSize + valueLen len val : Nat) : Int) ≤ obufSize := by
    by_contra hsmall
    have hrefused : tlvPack (some obuf) obufSize tag len val = (0, some obuf) := by
      have hlen : (if val.isNone then 0#16 else len).toNat = valueLen len val := by
        unfold valueLen
        split <;> rfl
      have hlt : obufSize < ((tlvMinSize : Nat) : Int) + (valueLen len val : Int) := by
        push_cast at hsmall ⊢
        omega
      simp only [tlvPack, hlen, if_pos hlt]
    exact hn (congrArg Prod.fst (hpack.symm.trans hrefused))
  obtain ⟨frame, value, hpacked, hframe, _⟩ := tlvPack_frame obuf obufSize tag len val hroom
  obtain ⟨hsize, hout⟩ := Prod.mk.inj (hpacked.symm.trans hpack)
  cases Option.some.inj hout
  let damaged : Mem := fun i => out i ^^^ err i
  have hlen : ushortAt damaged tlvTagSize = ushortAt out tlvTagSize := by
    rw [ushortAt_xor, length_untouched (by omega) hplace, BitVec.xor_zero]
  have hdeclared : declaredLen damaged = declaredLen out := congrArg BitVec.toNat hlen
  have hdeclaredFrame : tlvMinSize + declaredLen out = n := by
    rw [← hsize, hframe.declaredLen_eq, BitVec.toNat_ofNat, Nat.mod_eq_of_lt]
    unfold valueLen
    split
    · exact Nat.two_pow_pos 16
    · exact len.isLt
  have hdamage : ¬ Framed damaged := by
    have hburst' := feedAll_burst_ne_zero polynomial_constant_term (bitAt err) (8 * n) start k hk
      hone hburst
    intro hcheck
    have hcheckFrame := hframe.framed
    rw [Framed] at hcheckFrame
    rw [Framed, hdeclared, ushortAt_xor, crcOver_xor, hcheckFrame, BitVec.xor_right_inj] at hcheck
    apply hburst'
    have hzero := (feedAll_messageBits_eq_zero_iff err _).mpr hcheck.symm
    rwa [show tlvHeadSize + declaredLen out + 2 = n by
      obtain ⟨_, hheadSize, hminSize⟩ := tlv_sizes
      omega] at hzero
  have hvalue := value_tlvUnpack damaged n t l v (by omega)
  rw [if_neg hdamage] at hvalue
  exact congrArg Unpacked.rv hvalue

theorem tlv_burst_detected_tag_bit :
    (tlvUnpack (some fun i =>
        (tlvPack (some fun _ => 0) 7 0xBEEF#16 1#16 (some fun _ => 0x41)).2.get rfl i ^^^
          if i = 0 then 0x80 else 0)
      (7 : Nat) (some 0) (some 0) (some fun _ => 0)).value.rv = -2 := by
  refine tlv_burst_detected (fun _ => 0) 7 0xBEEF#16 1#16 (some fun _ => 0x41) _ 7
    (Prod.ext ?_ ?_) ?_
    (fun i => if i = 0 then 0x80 else 0) 0 0 ?_ ?_ ?_
    (Or.inl ?_) 0 0 (fun _ => 0)
  · rfl
  · exact (Option.some_get _).symm
  · decide
  · decide
  · decide
  · decide +kernel
  · decide +kernel

end Fl2440.Tlv
