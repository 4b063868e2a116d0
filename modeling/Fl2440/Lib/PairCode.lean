import Mathlib.Algebra.BigOperators.Fin

/-! Codes that keep the sum of the addresses of the set bits and the sum of the complements of
these addresses. What was read and what is computed anew differ by a pattern, which tells one
wrong bit from two. -/
namespace Fl2440.Lib

section Weight

variable {ι : Type} {w : ι → Bool} {k : ι}

def weight [Fintype ι] (w : ι → Bool) : Nat := ∑ k, (w k).toNat

@[simp] theorem weight_zero [Fintype ι] : weight (fun _ : ι => false) = 0 := by simp [weight]

theorem weight_pos_iff [Fintype ι] : 0 < weight w ↔ ∃ i, w i = true := by
  rw [Nat.pos_iff_ne_zero, weight, Ne, Finset.sum_eq_zero_iff]
  simp

variable [DecidableEq ι]

def toggle (w : ι → Bool) (k : ι) : ι → Bool := fun i => w i ^^ decide (i = k)

@[simp] theorem toggle_toggle (w : ι → Bool) (k : ι) : toggle (toggle w k) k = w := by
  funext i
  simp [toggle]

theorem toggle_self (w : ι → Bool) (k : ι) : toggle w k k = !w k := by simp [toggle]

theorem toggle_of_ne (w : ι → Bool) {i : ι} (h : i ≠ k) : toggle w k i = w i := by simp [toggle, h]

variable [Fintype ι]

theorem weight_eq_add (w : ι → Bool) (k : ι) :
    weight w = (w k).toNat + ∑ i ∈ Finset.univ.erase k, (w i).toNat :=
  (Finset.add_sum_erase _ _ (Finset.mem_univ k)).symm

theorem weight_toggle_of_false (h : w k = false) : weight (toggle w k) = weight w + 1 := by
  have hrest : ∑ i ∈ Finset.univ.erase k, (toggle w k i).toNat = ∑ i ∈ Finset.univ.erase k, (w i).toNat :=
    Finset.sum_congr rfl fun i hi => by rw [toggle_of_ne w (Finset.ne_of_mem_erase hi)]
  rw [weight_eq_add _ k, weight_eq_add w k, hrest, toggle_self, h, Bool.not_false, Bool.toNat_true, Bool.toNat_false]
  omega

theorem weight_toggle_of_true (h : w k = true) : weight (toggle w k) + 1 = weight w := by
  have hfalse : toggle w k k = false := by rw [toggle_self, h]; rfl
  rw [← weight_toggle_of_false hfalse, toggle_toggle]

theorem weight_toggle (w : ι → Bool) (k : ι) :
    weight (toggle w k) = weight w + 1 ∨ weight (toggle w k) + 1 = weight w := by
  cases h : w k with
  | false => exact .inl (weight_toggle_of_false h)
  | true => exact .inr (weight_toggle_of_true h)

end Weight

/-- The places of a word: each bit of the address, each bit of the complement, and bits that are
the same in every word. -/
abbrev Place (n s : Nat) := Fin n × Bool ⊕ Fin s

variable {n s : Nat}

def addressWord (a : Fin n → Bool) : Place n s → Bool
  | .inl (k, side) => a k == side
  | .inr _ => false

/-- Each bit of the one sum is the complement of the bit of the other. -/
def Paired (w : Place n s → Bool) : Prop := ∀ k, w (.inl (k, false)) = !w (.inl (k, true))

instance (w : Place n s → Bool) : Decidable (Paired w) := inferInstanceAs (Decidable (∀ _, _))

inductive Verdict (n : Nat) where
  | clean
  | data (a : Fin n → Bool)
  | word
  | broken

def verdict (w : Place n s → Bool) : Verdict n :=
  if ∀ k, w k = false then .clean
  else if Paired w then .data fun k => w (.inl (k, true))
  else if weight w = 1 then .word
  else .broken

theorem paired_addressWord (a : Fin n → Bool) : Paired (addressWord a : Place n s → Bool) := by
  intro k
  cases h : a k <;> simp [addressWord, h]

theorem weight_place (w : Place n s → Bool) :
    weight w = ∑ k, ((w (.inl (k, true))).toNat + (w (.inl (k, false))).toNat) + ∑ j, (w (.inr j)).toNat := by
  rw [weight, Fintype.sum_sum_type, Fintype.sum_prod_type]
  simp

theorem Paired.weight_eq {w : Place n s → Bool} (h : Paired w) : weight w = n + ∑ j, (w (.inr j)).toNat := by
  have hone : ∀ k, (w (.inl (k, true))).toNat + (w (.inl (k, false))).toNat = 1 := fun k => by
    rw [h k]
    cases w (.inl (k, true)) <;> rfl
  rw [weight_place]
  simp [hone]

theorem weight_addressWord (a : Fin n → Bool) : weight (addressWord a : Place n s → Bool) = n := by
  rw [(paired_addressWord a).weight_eq]
  simp [addressWord]

theorem verdict_addressWord (hn : 0 < n) (a : Fin n → Bool) : verdict (addressWord a : Place n s → Bool) = .data a := by
  have hset : ¬ ∀ k, (addressWord a : Place n s → Bool) k = false := fun hclean => by
    have hweight := weight_addressWord (s := s) a
    rw [funext hclean, weight_zero] at hweight
    omega
  rw [verdict, if_neg hset, if_pos (paired_addressWord a)]
  simp [addressWord]

/-- One wrong bit: of the data, at its address, or of the word. -/
inductive Wrong (n s : Nat) where
  | data (a : Fin n → Bool)
  | word (k : Place n s)

namespace Wrong

def pattern : Wrong n s → Place n s → Bool
  | .data a => addressWord a
  | .word k => toggle (fun _ => false) k

def Spare : Wrong n s → Prop
  | .word (.inr _) => True
  | _ => False

variable {e e' : Wrong n s}

theorem weight_word (k : Place n s) : weight (pattern (.word k)) = 1 := by
  rw [pattern, weight_toggle_of_false rfl, weight_zero]

theorem not_paired {w : Place n s → Bool} (h : weight w < n) : ¬ Paired w := fun hpaired => by
  rw [hpaired.weight_eq] at h
  omega

theorem verdict_word (hn : 2 ≤ n) (k : Place n s) : verdict (pattern (.word k)) = .word := by
  have hweight := weight_word k
  have hset : ¬ ∀ i, pattern (.word k) i = false := fun hclean => by
    rw [funext hclean, weight_zero] at hweight
    cases hweight
  rw [verdict, if_neg hset, if_neg (not_paired (by omega)), if_pos hweight]

theorem verdict_broken {w : Place n s → Bool} (hpaired : ¬ Paired w) (hzero : weight w ≠ 0) (hone : weight w ≠ 1) :
    verdict w = .broken := by
  have hset : ¬ ∀ i, w i = false := fun hclean => hzero (by rw [funext hclean, weight_zero])
  rw [verdict, if_neg hset, if_neg hpaired, if_neg hone]

def both (e e' : Wrong n s) : Place n s → Bool := fun k => e.pattern k ^^ e'.pattern k

theorem both_comm (e e' : Wrong n s) : both e e' = both e' e := funext fun _ => Bool.xor_comm _ _

theorem both_word (e : Wrong n s) (k : Place n s) : both e (.word k) = toggle e.pattern k := by
  funext i
  simp [both, pattern, toggle]

theorem both_data (hn : 0 < n) {a b : Fin n → Bool} (h : a ≠ b) :
    verdict (both (.data a) (.data b) : Place n s → Bool) = .broken := by
  have hsame : ∀ k side, (both (.data a) (.data b) : Place n s → Bool) (.inl (k, side)) = (a k ^^ b k) := by
    intro k side
    cases ha : a k <;> cases hb : b k <;> cases side <;> simp [both, pattern, addressWord, ha, hb]
  have hspare : ∀ j, (both (.data a) (.data b) : Place n s → Bool) (.inr j) = false := fun j => by
    simp [both, pattern, addressWord]
  obtain ⟨k, hk⟩ := Function.ne_iff.mp h
  have heven : weight (both (.data a) (.data b) : Place n s → Bool) = 2 * weight fun k => a k ^^ b k := by
    rw [weight_place]
    simp only [hsame, hspare, weight, Finset.mul_sum, Bool.toNat_false, Finset.sum_const_zero, Nat.add_zero, Nat.two_mul]
  have hpos : 0 < weight fun k => a k ^^ b k := weight_pos_iff.mpr ⟨k, by simpa using hk⟩
  refine verdict_broken (fun hpaired => ?_) (by omega) (by omega)
  have hboth := hpaired ⟨0, hn⟩
  rw [hsame, hsame] at hboth
  simp at hboth

theorem data_word (hn : 3 ≤ n) (a : Fin n → Bool) {k : Place n s} (hk : ¬ (Wrong.word k).Spare) :
    verdict (both (.data a) (.word k)) = .broken := by
  have hweight : weight (both (.data a) (.word k)) = n + 1 ∨ weight (both (.data a) (.word k)) + 1 = n := by
    have htoggle := weight_toggle (addressWord a) k
    rwa [weight_addressWord, ← pattern, ← both_word] at htoggle
  have hspare : ∀ j, both (.data a) (.word k) (.inr j) = false := by
    intro j
    cases k with
    | inl k => simp [both, pattern, addressWord, toggle]
    | inr k => exact absurd trivial hk
  refine verdict_broken (fun hpaired => ?_) (by omega) (by omega)
  have heq := hpaired.weight_eq
  simp only [hspare, Bool.toNat_false, Finset.sum_const_zero] at heq
  omega

theorem word_word (hn : 3 ≤ n) {k l : Place n s} (h : k ≠ l) : verdict (both (.word k) (.word l)) = .broken := by
  have hweight : weight (both (.word k) (.word l)) = 2 := by
    rw [both_word, weight_toggle_of_false (by simp [pattern, toggle, h.symm]), weight_word]
  exact verdict_broken (not_paired (by omega)) (by omega) (by omega)

/-- Two wrong bits are never taken for one. -/
theorem verdict_both (hn : 3 ≤ n) (h : e ≠ e') (hspare : ¬ e.Spare) (hspare' : ¬ e'.Spare) :
    verdict (both e e') = .broken := by
  cases e with
  | data a =>
      cases e' with
      | data b => exact both_data (by omega) fun hab => h (congrArg Wrong.data hab)
      | word k => exact data_word hn a hspare'
  | word k =>
      cases e' with
      | data a => rw [both_comm]; exact data_word hn a hspare
      | word l => exact word_word hn fun hkl => h (congrArg Wrong.word hkl)

end Wrong

/-- A code that corrects one wrong bit and finds two: `turn` turns over a bit of what is stored,
at a place of the data or of the code; a spare place tells nothing. -/
structure SecDed {δ ω π : Type} (encode : δ → ω) (correct : δ → ω → ω → Int × δ × ω) (turn : π → δ × ω → δ × ω)
    (spare : π → Prop) : Prop where
  clean : ∀ data, correct data (encode data) (encode data) = (0, data, encode data)
  single : ∀ data p, let stored := turn p (data, encode data)
    correct stored.1 stored.2 (encode stored.1) = (1, data, encode data)
  double : ∀ data p q, p ≠ q → ¬ spare p → ¬ spare q → let stored := turn p (turn q (data, encode data))
    correct stored.1 stored.2 (encode stored.1) = (-1, stored)

/-- What a decoder does with a verdict; `fix` turns over the bit at an address, if there is one. -/
def Verdict.apply {δ ω : Type} (fix : (Fin n → Bool) → δ → Option δ) (data : δ) (read test : ω) :
    Verdict n → Int × δ × ω
  | .clean => (0, data, read)
  | .data a =>
      match fix a data with
      | some data => (1, data, read)
      | none => (-1, data, read)
  | .word => (1, data, test)
  | .broken => (-1, data, read)

/-- An encoder and a decoder of this kind. Each place of what is stored stands for a wrong bit,
whose pattern is what turning it over adds. -/
structure PairCode (n s : Nat) (δ ω π : Type) where
  encode : δ → ω
  correct : δ → ω → ω → Int × δ × ω
  turn : π → δ × ω → δ × ω
  bits : ω → Place n s → Bool
  fix : (Fin n → Bool) → δ → Option δ
  wrong : π → Wrong n s
  wrong_inj : ∀ p q, wrong p = wrong q → p = q
  correct_eq : ∀ data read test,
    correct data read test = (verdict fun k => bits read k ^^ bits test k).apply fix data read test
  turn_bits : ∀ p stored k, (bits (turn p stored).2 k ^^ bits (encode (turn p stored).1) k) =
    ((bits stored.2 k ^^ bits (encode stored.1) k) ^^ (wrong p).pattern k)
  turn_data : ∀ p a stored, wrong p = .data a → fix a (turn p stored).1 = some stored.1 ∧ (turn p stored).2 = stored.2
  turn_word : ∀ p l stored, wrong p = .word l → (turn p stored).1 = stored.1

namespace PairCode

variable {δ ω π : Type} (c : PairCode n s δ ω π)

/-- By how much a stored word differs from that of the data with it. -/
def syndrome (stored : δ × ω) : Place n s → Bool := fun k => c.bits stored.2 k ^^ c.bits (c.encode stored.1) k

theorem syndrome_encode (data : δ) : c.syndrome (data, c.encode data) = fun _ => false := by
  funext k
  simp [syndrome]

theorem syndrome_turn (p : π) (stored : δ × ω) :
    c.syndrome (c.turn p stored) = fun k => c.syndrome stored k ^^ (c.wrong p).pattern k :=
  funext (c.turn_bits p stored)

theorem correct_stored (stored : δ × ω) : c.correct stored.1 stored.2 (c.encode stored.1) =
    (verdict (c.syndrome stored)).apply c.fix stored.1 stored.2 (c.encode stored.1) := c.correct_eq _ _ _

theorem secDed (hn : 3 ≤ n) : SecDed c.encode c.correct c.turn fun p => (c.wrong p).Spare where
  clean data := by
    have hclean : verdict (fun _ : Place n s => false) = .clean := if_pos fun _ => rfl
    exact (c.correct_stored (data, c.encode data)).trans (by rw [syndrome_encode, hclean]; rfl)
  single data p := by
    intro stored
    have hsyndrome : c.syndrome stored = (c.wrong p).pattern := by
      rw [show stored = c.turn p (data, c.encode data) from rfl, syndrome_turn, syndrome_encode]
      simp
    rw [correct_stored, hsyndrome]
    cases hwrong : c.wrong p with
    | data a =>
        obtain ⟨hfix, hword⟩ := c.turn_data p a (data, c.encode data) hwrong
        rw [Wrong.pattern, verdict_addressWord (by omega), Verdict.apply]
        simp only [stored, hfix, hword]
    | word k =>
        have hdata := c.turn_word p k (data, c.encode data) hwrong
        rw [Wrong.verdict_word (by omega), Verdict.apply]
        simp only [stored, hdata]
  double data p q hne hspare hspare' := by
    intro stored
    have hsyndrome : c.syndrome stored = Wrong.both (c.wrong q) (c.wrong p) := by
      rw [show stored = c.turn p (c.turn q (data, c.encode data)) from rfl, syndrome_turn, syndrome_turn, syndrome_encode]
      funext k
      simp [Wrong.both]
    have hwrong : c.wrong q ≠ c.wrong p := fun heq => hne (c.wrong_inj _ _ heq).symm
    rw [correct_stored, hsyndrome, Wrong.verdict_both hn hwrong hspare' hspare]
    rfl

end PairCode

end Fl2440.Lib
