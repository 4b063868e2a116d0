import Mathlib.Algebra.Group.Nat.Defs
import Mathlib.Logic.Basic
import Mathlib.Tactic.SplitIfs

/-! Fields of `w` bits laid end to end in words of `n` bits. A field that does not end in the word
in which it starts goes on in the next one. -/
namespace Fl2440.Lib.PackedWords

variable {n k w i p : Nat} {words : Vector (BitVec n) k} {val : BitVec n}

/-- The bits of the words, from the least significant one of the first word on. -/
def bitAt (words : Vector (BitVec n) k) (i : Nat) : Bool := (words[i / n]?.getD 0#n).getLsbD (i % n)

def mask (n w : Nat) : BitVec n := 1#n <<< w - 1#n

def merge (m old val : BitVec n) : BitVec n := old &&& ~~~m ||| m &&& val

def store (w : Nat) (words : Vector (BitVec n) k) (p : Nat) (val : BitVec n) : Vector (BitVec n) k :=
  let word := p / n
  let bit := p % n
  let words := words.setIfInBounds word (merge (mask n w <<< bit) (words[word]?.getD 0#n) (val <<< bit))
  if w > n - bit then
    let bit := n - bit
    let word := word + 1
    words.setIfInBounds word (merge (mask n w >>> bit) (words[word]?.getD 0#n) (val >>> bit))
  else words

def load (w : Nat) (words : Vector (BitVec n) k) (p : Nat) : BitVec n :=
  let word := p / n
  let bit := p % n
  let val := words[word]?.getD 0#n >>> bit
  let val := if w > n - bit then val ||| words[word + 1]?.getD 0#n <<< (n - bit) else val
  val &&& mask n w

theorem toNat_mask (hw : w ≤ n) : (mask n w).toNat = 2 ^ w - 1 := by
  have hpos := Nat.two_pow_pos w
  have hle : 2 ^ w ≤ 2 ^ n := Nat.pow_le_pow_right (by decide) hw
  rw [mask, BitVec.toNat_sub, BitVec.toNat_shiftLeft, BitVec.toNat_ofNat, Nat.shiftLeft_eq]
  by_cases h : n = 0
  · subst h
    obtain rfl : w = 0 := by omega
    decide
  · have hone : 1 % 2 ^ n = 1 := Nat.mod_eq_of_lt (Nat.one_lt_two_pow h)
    rw [hone, Nat.one_mul]
    rcases Nat.eq_or_lt_of_le hle with heq | hlt
    · rw [heq, Nat.mod_self, Nat.add_zero, Nat.mod_eq_of_lt (by omega)]
    · rw [Nat.mod_eq_of_lt hlt, show 2 ^ n - 1 + 2 ^ w = 2 ^ n + (2 ^ w - 1) by omega, Nat.add_mod_left,
        Nat.mod_eq_of_lt (by omega)]

theorem getLsbD_mask (hw : w ≤ n) : (mask n w).getLsbD i = decide (i < w) := by
  rw [BitVec.getLsbD, toNat_mask hw, Nat.testBit_two_pow_sub_one]

theorem getLsbD_merge {m old : BitVec n} (hi : i < n) :
    (merge m old val).getLsbD i = if m.getLsbD i then val.getLsbD i else old.getLsbD i := by
  simp only [merge, BitVec.getLsbD_or, BitVec.getLsbD_and, BitVec.getLsbD_not, hi, decide_true, Bool.true_and]
  cases m.getLsbD i <;> simp

theorem bitAt_set {j : Nat} (hj : j < k) (x : BitVec n) :
    bitAt (words.setIfInBounds j x) i = if i / n = j then x.getLsbD (i % n) else bitAt words i := by
  rw [bitAt, Vector.getElem?_setIfInBounds, bitAt]
  by_cases h : j = i / n
  · rw [if_pos h, if_pos hj, if_pos h.symm, Option.getD_some]
  · rw [if_neg h, if_neg (Ne.symm h)]

theorem bitAt_set_merge {j : Nat} (hn : 0 < n) (hj : j < k) (m v : BitVec n) :
    bitAt (words.setIfInBounds j (merge m (words[j]?.getD 0#n) v)) i =
      if i / n = j ∧ m.getLsbD (i % n) then v.getLsbD (i % n) else bitAt words i := by
  rw [bitAt_set hj]
  by_cases hword : i / n = j
  · rw [if_pos hword, getLsbD_merge (Nat.mod_lt i hn), bitAt, hword]
    simp only [true_and]
  · rw [if_neg hword, if_neg fun h => hword h.1]

theorem first_word (val : BitVec n) (hn : 0 < n) (hw : w ≤ n) (hword : i / n = p / n) :
    ((mask n w <<< (p % n)).getLsbD (i % n) ↔ p ≤ i ∧ i < p + w) ∧
      (p ≤ i → (val <<< (p % n)).getLsbD (i % n) = val.getLsbD (i - p)) := by
  have hp := Nat.div_add_mod p n
  have hi := Nat.div_add_mod i n
  rw [hword] at hi
  have hbit := Nat.mod_lt i hn
  rw [BitVec.getLsbD_shiftLeft, getLsbD_mask hw, BitVec.getLsbD_shiftLeft]
  simp only [hbit, decide_true, Bool.true_and, Bool.and_eq_true, Bool.not_eq_true', decide_eq_false_iff_not,
    decide_eq_true_eq]
  refine ⟨by omega, fun hle => ?_⟩
  rw [decide_eq_false (by omega), Bool.not_false, Bool.true_and, show i % n - p % n = i - p by omega]

theorem next_word (val : BitVec n) (hn : 0 < n) (hw : w ≤ n) (hword : i / n = p / n + 1) :
    ((mask n w >>> (n - p % n)).getLsbD (i % n) ↔ p ≤ i ∧ i < p + w) ∧
      (val >>> (n - p % n)).getLsbD (i % n) = val.getLsbD (i - p) := by
  have hp := Nat.div_add_mod p n
  have hi := Nat.div_add_mod i n
  rw [hword, Nat.mul_succ] at hi
  have hbit := Nat.mod_lt p hn
  rw [BitVec.getLsbD_ushiftRight, getLsbD_mask hw, BitVec.getLsbD_ushiftRight, decide_eq_true_eq]
  exact ⟨by omega, by rw [show n - p % n + i % n = i - p by omega]⟩

theorem div_of_mem (hn : 0 < n) (hw : w ≤ n) (hle : p ≤ i) (hlt : i < p + w) :
    i / n = p / n ∨ i / n = p / n + 1 ∧ w > n - p % n := by
  have hp := Nat.div_add_mod p n
  have hbit := Nat.mod_lt p hn
  by_cases h : p % n + (i - p) < n
  · refine .inl ((Nat.div_eq_iff hn).mpr ?_)
    rw [Nat.mul_comm]
    omega
  · refine .inr ⟨(Nat.div_eq_iff hn).mpr ?_, by omega⟩
    rw [Nat.mul_comm, Nat.mul_succ]
    omega

theorem bitAt_store (hn : 0 < n) (hw0 : 0 < w) (hw : w ≤ n) (hp : p + w ≤ n * k) (val : BitVec n) (i : Nat) :
    bitAt (store w words p val) i = if p ≤ i ∧ i < p + w then val.getLsbD (i - p) else bitAt words i := by
  have hp' := Nat.div_add_mod p n
  have hq : p / n < k := Nat.div_lt_of_lt_mul (by omega)
  have hfirst : ∀ v : BitVec n,
      bitAt (words.setIfInBounds (p / n) (merge (mask n w <<< (p % n)) (words[p / n]?.getD 0#n) v)) i =
        if i / n = p / n ∧ (mask n w <<< (p % n)).getLsbD (i % n) then v.getLsbD (i % n) else bitAt words i :=
    bitAt_set_merge hn hq (mask n w <<< (p % n))
  rw [store]
  by_cases hmore : w > n - p % n
  · have hnext : p / n + 1 < k := Nat.lt_of_mul_lt_mul_left (a := n) (by rw [Nat.mul_succ]; omega)
    rw [if_pos hmore, bitAt_set_merge hn hnext, hfirst]
    by_cases hword : i / n = p / n
    · obtain ⟨hmem, hval⟩ := first_word val hn hw hword
      rw [if_neg (by omega)]
      simp only [hword, true_and, hmem]
      by_cases hin : p ≤ i ∧ i < p + w
      · rw [if_pos hin, if_pos hin, hval hin.1]
      · rw [if_neg hin, if_neg hin]
    · by_cases hword' : i / n = p / n + 1
      · obtain ⟨hmem, hval⟩ := next_word val hn hw hword'
        simp only [hword', true_and, hmem, hval]
        rw [if_neg (c := p / n + 1 = p / n ∧ _) (by omega)]
      · have hout : ¬ (p ≤ i ∧ i < p + w) := fun hin => by
          have := div_of_mem hn hw hin.1 hin.2
          omega
        rw [if_neg fun h => hword' h.1, if_neg fun h => hword h.1, if_neg hout]
  · rw [if_neg hmore, hfirst]
    by_cases hword : i / n = p / n
    · obtain ⟨hmem, hval⟩ := first_word val hn hw hword
      simp only [hword, true_and, hmem]
      by_cases hin : p ≤ i ∧ i < p + w
      · rw [if_pos hin, if_pos hin, hval hin.1]
      · rw [if_neg hin, if_neg hin]
    · have hout : ¬ (p ≤ i ∧ i < p + w) := fun hin => by
        have := div_of_mem hn hw hin.1 hin.2
        omega
      rw [if_neg fun h => hword h.1, if_neg hout]

theorem getLsbD_load (hn : 0 < n) (hw : w ≤ n) (j : Nat) :
    (load w words p).getLsbD j = (decide (j < w) && bitAt words (p + j)) := by
  have hp := Nat.div_add_mod p n
  have hbit := Nat.mod_lt p hn
  rw [load, BitVec.getLsbD_and, getLsbD_mask hw, Bool.and_comm]
  by_cases hj : j < w
  · have hi := Nat.div_add_mod (p + j) n
    have hbit' := Nat.mod_lt (p + j) hn
    rw [decide_eq_true hj, Bool.true_and, Bool.true_and, bitAt]
    rcases div_of_mem hn hw (Nat.le_add_right p j) (by omega) with hword | ⟨hword, hmore⟩
    · rw [hword] at hi
      have hlow : j < n - p % n := by omega
      rw [hword, show (p + j) % n = p % n + j by omega]
      split_ifs with hmore
      · rw [BitVec.getLsbD_or, BitVec.getLsbD_ushiftRight, BitVec.getLsbD_shiftLeft, decide_eq_true hlow]
        simp only [Bool.not_true, Bool.and_false, Bool.false_and, Bool.or_false]
      · rw [BitVec.getLsbD_ushiftRight]
    · rw [hword, Nat.mul_succ] at hi
      have hhigh : ¬ j < n - p % n := by omega
      rw [if_pos hmore, hword, show (p + j) % n = j - (n - p % n) by omega, BitVec.getLsbD_or,
        BitVec.getLsbD_ushiftRight, BitVec.getLsbD_shiftLeft, decide_eq_true (show j < n by omega),
        decide_eq_false hhigh, BitVec.getLsbD_of_ge _ _ (show n ≤ p % n + j by omega)]
      simp only [Bool.not_false, Bool.true_and, Bool.false_or]
  · rw [decide_eq_false hj, Bool.false_and, Bool.false_and]

theorem load_store_self (hn : 0 < n) (hw0 : 0 < w) (hw : w ≤ n) (hp : p + w ≤ n * k) (val : BitVec n) :
    load w (store w words p val) p = val &&& mask n w := by
  refine BitVec.eq_of_getLsbD_eq fun j _ => ?_
  rw [getLsbD_load hn hw, bitAt_store hn hw0 hw hp, BitVec.getLsbD_and, getLsbD_mask hw, Bool.and_comm]
  by_cases hj : j < w
  · rw [if_pos ⟨Nat.le_add_right p j, Nat.add_lt_add_left hj p⟩, Nat.add_sub_cancel_left]
  · rw [decide_eq_false hj, Bool.and_false, Bool.and_false]

theorem load_store_of_disjoint {q : Nat} (hn : 0 < n) (hw0 : 0 < w) (hw : w ≤ n) (hp : p + w ≤ n * k)
    (hq : q + w ≤ p ∨ p + w ≤ q) (val : BitVec n) : load w (store w words p val) q = load w words q := by
  refine BitVec.eq_of_getLsbD_eq fun j _ => ?_
  rw [getLsbD_load hn hw, getLsbD_load hn hw, bitAt_store hn hw0 hw hp]
  by_cases hj : j < w
  · rw [if_neg (by omega)]
  · rw [decide_eq_false hj, Bool.false_and, Bool.false_and]

theorem ext_bits {words' : Vector (BitVec n) k} (hn : 0 < n) (h : ∀ i < n * k, bitAt words i = bitAt words' i) :
    words = words' := by
  refine Vector.ext fun j hj => BitVec.eq_of_getLsbD_eq fun b hb => ?_
  have hbound : n * j + b < n * k := calc
    n * j + b < n * j + n := Nat.add_lt_add_left hb _
    _ = n * (j + 1) := rfl
    _ ≤ n * k := Nat.mul_le_mul_left n hj
  have hbit := h (n * j + b) hbound
  rwa [bitAt, bitAt, Nat.mul_add_div hn, Nat.div_eq_of_lt hb, Nat.add_zero, Nat.mul_add_mod, Nat.mod_eq_of_lt hb,
    Vector.getElem?_eq_getElem hj, Vector.getElem?_eq_getElem hj] at hbit

@[simp]
theorem bitAt_zero : bitAt (Vector.replicate k 0#n) i = false := by
  rw [bitAt, Vector.getElem?_replicate]
  split_ifs <;> exact BitVec.getLsbD_zero

theorem eq_zero_of_load {m : Nat} (hn : 0 < n) (hw0 : 0 < w) (hw : w ≤ n) (hfill : n * k = m * w)
    (h : ∀ f < m, load w words (f * w) = 0#n) :
    words = Vector.replicate k 0#n := by
  refine ext_bits hn fun i hi => ?_
  have hfield := h (i / w) (Nat.div_lt_of_lt_mul (by rwa [Nat.mul_comm w m, ← hfill]))
  have hbit : (load w words (i / w * w)).getLsbD (i % w) = _ := getLsbD_load hn hw (i % w)
  rw [hfield, BitVec.getLsbD_zero, decide_eq_true (Nat.mod_lt i hw0), Bool.true_and,
    Nat.mul_comm (i / w) w, Nat.div_add_mod] at hbit
  rw [bitAt_zero, ← hbit]

end Fl2440.Lib.PackedWords
