import Fl2440.Eeprom.Eeprom

/-! Serial number and MAC address that stand in the device after `-w`. Both are made from
one number, and each is cut to the length of its field. -/
namespace Fl2440.Eeprom

open Fl2440.Lib

def storedSn (dev : Mem) : Except Fault (List Byte) := cstr (dev.bytes snOffset snLen)

def storedMac (dev : Mem) : Except Fault (List Byte) := cstr (dev.bytes macOffset macLen)

/-- Six numbers of two hexadecimal digits, with colons between them. -/
def WellFormedMac (mac : List Byte) : Prop :=
  mac.length = 17 ∧ ∀ i < 17, if i % 3 = 2 then mac[i]? = some (chr ':') else (mac[i]?.bind (digitValue 16)).isSome = true

instance (mac : List Byte) : Decidable (WellFormedMac mac) :=
  inferInstanceAs (Decidable (_ ∧ ∀ i < 17, if i % 3 = 2 then mac[i]? = some (chr ':')
    else (mac[i]?.bind (digitValue 16)).isSome = true))

structure Distinct (dev dev' : Mem) : Prop where
  sn : storedSn dev ≠ storedSn dev'
  mac : storedMac dev ≠ storedMac dev'
  formed : ∃ mac, storedMac dev = .ok mac ∧ WellFormedMac mac
  formed' : ∃ mac, storedMac dev' = .ok mac ∧ WellFormedMac mac

variable {dev buf done dev' buf' done' : Mem} {sn sn' : BitVec 32} {user user' : Option (List Byte)}

theorem writeUser_front (h : writeUser dev user = .ok done) {offset size : Nat} (hfront : offset + size ≤ userOffset) :
    done.bytes offset size = dev.bytes offset size := by
  cases user with
  | none =>
      cases h
      rfl
  | some name =>
      simp only [writeUser, writeEeprom] at h
      split_ifs at h
      cases h
      exact Mem.bytes_copy_outside _ _ (.inl hfront)

theorem writeMode_front (h : writeMode dev buf sn user = .ok done) (hsn : sn ≠ 0) :
    storedSn done = .ok (serialNumber sn) ∧ storedMac done = .ok (macAddress sn) := by
  have hclear : ∃ cleared, clearEeprom dev buf sn user = .ok cleared := by
    unfold clearEeprom
    split_ifs
    · rw [writeEeprom_eq (by decide) (by decide)]
      exact ⟨_, rfl⟩
    · exact ⟨_, rfl⟩
  obtain ⟨⟨dev, buf⟩, hclear⟩ := hclear
  rw [writeMode, hclear] at h
  simp only [ok_bind, writeSn_eq hsn] at h
  constructor
  · rw [storedSn, writeUser_front h (by decide), bytes_withSn_sn]
    exact cstr_terminated (zero_notMem_serialNumber sn)
  · rw [storedMac, writeUser_front h (by decide), bytes_withSn_mac]
    exact cstr_terminated (zero_notMem_macAddress sn)

theorem ne_zero_of_pos (h : 0 < sn.toInt) : sn ≠ 0 := by
  rintro rfl
  simp at h

theorem formatInt_of_pos (width : Nat) (h : 0 < sn.toInt) : formatInt width sn = zeroPadded width (numeral 10 sn.toNat) := by
  have hnat : sn.toInt.natAbs = sn.toNat := by
    rw [BitVec.toInt_eq_toNat_cond] at h ⊢
    split_ifs at h ⊢ <;> omega
  rw [formatInt, if_neg (by omega), hnat]

theorem serialNumber_eq (sn : BitVec 32) : serialNumber sn = ascii "LY-FL2440-" ++ (formatHex 3 sn).take 3 := by
  have hprefix : (ascii "LY-FL2440-").length = 10 := by decide
  simp [serialNumber, snText, List.take_append, hprefix]

theorem macAddress_eq (h : 0 < sn.toInt) :
    macAddress sn = ascii "00:05:69:00:00:" ++ (zeroPadded 2 (numeral 10 sn.toNat)).take 2 := by
  have hprefix : (ascii "00:05:69:00:00:").length = 15 := by decide
  simp [macAddress, macText, List.take_append, hprefix, formatInt_of_pos 2 h]

theorem serialNumber_eq_iff : serialNumber sn = serialNumber sn' ↔ leading 16 3 sn.toNat = leading 16 3 sn'.toNat := by
  rw [serialNumber_eq, serialNumber_eq, List.append_cancel_left_eq]
  exact take_zeroPadded_eq_iff (by decide) (by decide) (by decide) _ _

theorem macAddress_eq_iff (h : 0 < sn.toInt) (h' : 0 < sn'.toInt) :
    macAddress sn = macAddress sn' ↔ leading 10 2 sn.toNat = leading 10 2 sn'.toNat := by
  rw [macAddress_eq h, macAddress_eq h', List.append_cancel_left_eq]
  exact take_zeroPadded_eq_iff (by decide) (by decide) (by decide) _ _

theorem mem_zeroPadded {radix width n : Nat} {b : Byte} (hlow : 1 < radix) (h : b ∈ zeroPadded width (numeral radix n)) :
    ∃ d < radix, b = digitChar d := by
  rcases List.mem_append.mp h with hzero | hdigit
  · exact ⟨0, by omega, (List.mem_replicate.mp hzero).2⟩
  · unfold numeral at hdigit
    split at hdigit
    · exact ⟨0, by omega, List.mem_singleton.mp hdigit⟩
    · obtain ⟨d, hd, rfl⟩ := List.mem_map.mp hdigit
      exact ⟨d, Nat.digits_lt_base hlow (List.mem_reverse.mp hd), rfl⟩

theorem wellFormedMac_digits :
    ∀ c d : Fin 10, WellFormedMac (ascii "00:05:69:00:00:" ++ [digitChar c, digitChar d]) := by
  decide +kernel

theorem wellFormedMac_macAddress (h : 0 < sn.toInt) : WellFormedMac (macAddress sn) := by
  have hlength : ((zeroPadded 2 (numeral 10 sn.toNat)).take 2).length = 2 :=
    List.length_take_of_le (le_length_zeroPadded _ _)
  obtain ⟨b, c, htext⟩ := List.length_eq_two.mp hlength
  have hdigit : ∀ e ∈ [b, c], ∃ d < 10, e = digitChar d := by
    intro e he
    rw [← htext] at he
    exact mem_zeroPadded (by decide) (List.mem_of_mem_take he)
  obtain ⟨d, hd, rfl⟩ := hdigit b (by simp)
  obtain ⟨e, he, rfl⟩ := hdigit c (by simp)
  rw [macAddress_eq h, htext]
  exact wellFormedMac_digits ⟨d, hd⟩ ⟨e, he⟩

/-- Two boards get identities of their own just when their numbers differ in what the
fields show of them: three hexadecimal digits and two decimal ones, from the left. -/
theorem distinct_iff (hsn : 0 < sn.toInt) (hsn' : 0 < sn'.toInt) (h : writeMode dev buf sn user = .ok done)
    (h' : writeMode dev' buf' sn' user' = .ok done') :
    Distinct done done' ↔
      leading 16 3 sn.toNat ≠ leading 16 3 sn'.toNat ∧ leading 10 2 sn.toNat ≠ leading 10 2 sn'.toNat := by
  obtain ⟨hstored, hmac⟩ := writeMode_front h (ne_zero_of_pos hsn)
  obtain ⟨hstored', hmac'⟩ := writeMode_front h' (ne_zero_of_pos hsn')
  have hserials : storedSn done = storedSn done' ↔ leading 16 3 sn.toNat = leading 16 3 sn'.toNat := by
    rw [hstored, hstored', Except.ok.injEq, serialNumber_eq_iff]
  have hmacs : storedMac done = storedMac done' ↔ leading 10 2 sn.toNat = leading 10 2 sn'.toNat := by
    rw [hmac, hmac', Except.ok.injEq, macAddress_eq_iff hsn hsn']
  constructor
  · intro hdistinct
    exact ⟨fun heq => hdistinct.sn (hserials.mpr heq), fun heq => hdistinct.mac (hmacs.mpr heq)⟩
  · rintro ⟨hhex, hdecimal⟩
    constructor
    · exact fun heq => hhex (hserials.mp heq)
    · exact fun heq => hdecimal (hmacs.mp heq)
    · exact ⟨_, hmac, wellFormedMac_macAddress hsn⟩
    · exact ⟨_, hmac', wellFormedMac_macAddress hsn'⟩

theorem distinct_iff_one_two : Distinct (withSn zeros zeros 1) (withSn zeros zeros 2) := by
  have hone : writeMode zeros zeros 1 none = .ok (withSn zeros zeros 1) := rfl
  have htwo : writeMode zeros zeros 2 none = .ok (withSn zeros zeros 2) := rfl
  exact (distinct_iff (by decide) (by decide) hone htwo).mpr (by decide +kernel)

/-- Boards 10 and 100 get the same MAC address. -/
theorem boards_share_mac :
    ¬ ∀ (dev buf done dev' buf' done' : Mem) (sn sn' : BitVec 32) (user user' : Option (List Byte)), sn ≠ sn' →
      0 < sn.toInt → 0 < sn'.toInt → writeMode dev buf sn user = .ok done → writeMode dev' buf' sn' user' = .ok done' →
      Distinct done done' := by
  intro h
  have hdistinct := h zeros zeros (withSn zeros zeros 10) zeros zeros (withSn zeros zeros 100) 10 100 none none
    (by decide) (by decide) (by decide) rfl rfl
  apply hdistinct.mac
  simp only [storedMac, bytes_withSn_mac]
  decide +kernel

end Fl2440.Eeprom
