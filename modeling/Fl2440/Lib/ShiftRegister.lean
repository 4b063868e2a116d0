import Mathlib.Data.List.Basic
import Mathlib.Data.Bool.Basic

/-! Division registers over bits, most significant bit first. The register is
linear in its contents and in its input, and when the feedback polynomial has
a constant term it never forgets a non-zero state. Both facts together detect
every burst that is no longer than the register. -/
namespace Fl2440.Lib.ShiftRegister

/-- Move the register one place up and divide by the feedback polynomial. -/
def shift (poly c : BitVec w) : BitVec w :=
  if c.msb then (c <<< 1) ^^^ poly else c <<< 1

def shifts (poly : BitVec w) : Nat → BitVec w → BitVec w
  | 0, c => c
  | n + 1, c => shifts poly n (shift poly c)

/-- An input bit enters at the top place. -/
def topBit (w : Nat) (b : Bool) : BitVec w := if b then BitVec.twoPow w (w - 1) else 0#w

def feed (poly c : BitVec w) (b : Bool) : BitVec w := shift poly (c ^^^ topBit w b)

def feedAll (poly c : BitVec w) (bits : List Bool) : BitVec w := bits.foldl (feed poly) c

/-- The first `n` bits of a word, most significant first. -/
def bitsOf (x : BitVec w) (n : Nat) : List Bool := (List.range n).map x.getMsbD

theorem shift_xor (poly a b : BitVec w) :
    shift poly (a ^^^ b) = shift poly a ^^^ shift poly b := by
  unfold shift
  rw [BitVec.msb_xor, BitVec.shiftLeft_xor_distrib]
  cases a.msb <;> cases b.msb
  · simp
  · simp [BitVec.xor_assoc]
  · simp only [Bool.xor_false, ↓reduceIte, Bool.false_eq_true]
    ac_rfl
  · simp only [bne_self_eq_false, Bool.false_eq_true, ↓reduceIte]
    rw [show a <<< 1 ^^^ poly ^^^ (b <<< 1 ^^^ poly) =
      a <<< 1 ^^^ b <<< 1 ^^^ (poly ^^^ poly) by ac_rfl, BitVec.xor_self, BitVec.xor_zero]

@[simp] theorem shift_zero (poly : BitVec w) : shift poly 0#w = 0#w := by
  simp [shift]

theorem shifts_xor (poly : BitVec w) (n : Nat) (a b : BitVec w) :
    shifts poly n (a ^^^ b) = shifts poly n a ^^^ shifts poly n b := by
  induction n generalizing a b with
  | zero => rfl
  | succ n ih => simp only [shifts, shift_xor, ih]

@[simp] theorem shifts_zero (poly : BitVec w) (n : Nat) : shifts poly n 0#w = 0#w := by
  induction n with
  | zero => rfl
  | succ n ih => simpa only [shifts, shift_zero] using ih

/-- The constant term of the polynomial marks every bit that leaves at the
top, so no state but zero is ever mapped to zero. -/
theorem shift_ne_zero {poly c : BitVec w} (hpoly : poly.getLsbD 0 = true) (hc : c ≠ 0#w) :
    shift poly c ≠ 0#w := by
  intro hzero
  unfold shift at hzero
  split at hzero
  · have hlow : ((c <<< 1) ^^^ poly).getLsbD 0 = true := by
      rw [BitVec.getLsbD_xor, hpoly]
      simp
    simp [hzero] at hlow
  · rename_i hmsb
    apply hc
    apply BitVec.eq_of_getLsbD_eq
    intro i hi
    rw [BitVec.getLsbD_zero]
    by_cases htop : i + 1 < w
    · have hnext := congrArg (fun v : BitVec w => v.getLsbD (i + 1)) hzero
      simpa [BitVec.getLsbD_shiftLeft, htop, hi] using hnext
    · have htop' : i = w - 1 := by omega
      rw [BitVec.msb_eq_getLsbD_last] at hmsb
      rw [htop']
      simpa using hmsb

theorem shifts_ne_zero {poly : BitVec w} (hpoly : poly.getLsbD 0 = true) (n : Nat)
    {c : BitVec w} (hc : c ≠ 0#w) : shifts poly n c ≠ 0#w := by
  induction n generalizing c with
  | zero => exact hc
  | succ n ih => exact ih (shift_ne_zero hpoly hc)

theorem shifts_eq_shiftLeft (poly x : BitVec w) (n : Nat)
    (hclear : ∀ i < n, x.getMsbD i = false) : shifts poly n x = x <<< n := by
  induction n generalizing x with
  | zero => simp [shifts]
  | succ n ih =>
      have hmsb : x.msb = false := by
        rw [BitVec.msb]
        exact hclear 0 (by omega)
      have hone : shift poly x = x <<< 1 := by simp [shift, hmsb]
      rw [shifts, hone, ih, ← BitVec.shiftLeft_add, Nat.add_comm]
      intro i hi
      rw [BitVec.getMsbD_shiftLeft]
      exact hclear (i + 1) (by omega)

@[simp] theorem feedAll_nil (poly c : BitVec w) : feedAll poly c [] = c := rfl

@[simp] theorem feedAll_cons (poly c : BitVec w) (b : Bool) (bits : List Bool) :
    feedAll poly c (b :: bits) = feedAll poly (feed poly c b) bits := rfl

theorem feedAll_append (poly c : BitVec w) (first second : List Bool) :
    feedAll poly c (first ++ second) = feedAll poly (feedAll poly c first) second :=
  List.foldl_append

theorem topBit_xor (w : Nat) (a b : Bool) : topBit w (a ^^ b) = topBit w a ^^^ topBit w b := by
  cases a <;> cases b <;> simp [topBit]

theorem feed_xor (poly c d : BitVec w) (a b : Bool) :
    feed poly (c ^^^ d) (a ^^ b) = feed poly c a ^^^ feed poly d b := by
  unfold feed
  rw [← shift_xor, topBit_xor]
  congr 1
  ac_rfl

theorem feedAll_xor (poly : BitVec w) (index : List ι) (f g : ι → Bool) (c d : BitVec w) :
    feedAll poly (c ^^^ d) (index.map fun i => f i ^^ g i) =
      feedAll poly c (index.map f) ^^^ feedAll poly d (index.map g) := by
  induction index generalizing c d with
  | nil => rfl
  | cons i index ih => simp only [List.map_cons, feedAll_cons, feed_xor, ih]

theorem feedAll_false (poly c : BitVec w) (bits : List Bool) (hbits : ∀ b ∈ bits, b = false) :
    feedAll poly c bits = shifts poly bits.length c := by
  induction bits generalizing c with
  | nil => rfl
  | cons b bits ih =>
      have hb : b = false := hbits b (by simp)
      have hone : feed poly c b = shift poly c := by simp [feed, topBit, hb]
      rw [feedAll_cons, hone, ih _ fun a ha => hbits a (List.mem_cons_of_mem b ha)]
      rfl

theorem bitsOf_succ (x : BitVec w) (n : Nat) :
    bitsOf x (n + 1) = x.msb :: bitsOf (x <<< 1) n := by
  unfold bitsOf
  rw [List.range_succ_eq_map, List.map_cons, List.map_map, BitVec.msb]
  congr 1
  apply List.map_congr_left
  intro i _
  simp only [Function.comp_apply, BitVec.getMsbD_shiftLeft, Nat.succ_eq_add_one]

theorem shift_eq_feed_msb (poly c x : BitVec w) :
    feed poly c x.msb ^^^ x <<< 1 = shift poly (c ^^^ x) := by
  have hrest : shift poly (x ^^^ topBit w x.msb) = x <<< 1 := by
    have hclear : (x ^^^ topBit w x.msb).msb = false := by
      rw [BitVec.msb_xor]
      cases hmsb : x.msb
      · simp [topBit]
      · have hw : 0 < w := by
          cases w with
          | zero => simp [BitVec.msb, BitVec.getMsbD] at hmsb
          | succ w => omega
        simp [topBit, BitVec.msb_twoPow]
        omega
    have hlost : topBit w x.msb <<< 1 = 0#w := by
      unfold topBit
      split
      · apply BitVec.eq_of_getLsbD_eq
        intro i hi
        simp [BitVec.getLsbD_shiftLeft, BitVec.getLsbD_twoPow]
        omega
      · simp
    simp [shift, hclear, BitVec.shiftLeft_xor_distrib, hlost]
  rw [← hrest, feed, ← shift_xor]
  congr 1
  rw [show c ^^^ topBit w x.msb ^^^ (x ^^^ topBit w x.msb) =
    c ^^^ x ^^^ (topBit w x.msb ^^^ topBit w x.msb) by ac_rfl, BitVec.xor_self, BitVec.xor_zero]

theorem feedAll_bitsOf (poly : BitVec w) (n : Nat) (c x : BitVec w) :
    feedAll poly c (bitsOf x n) = shifts poly n (c ^^^ x) ^^^ x <<< n := by
  induction n generalizing c x with
  | zero =>
      show c = c ^^^ x ^^^ x <<< 0
      rw [BitVec.shiftLeft_zero, BitVec.xor_assoc, BitVec.xor_self, BitVec.xor_zero]
  | succ n ih =>
      rw [bitsOf_succ x n, feedAll_cons, ih, shift_eq_feed_msb,
        ← BitVec.shiftLeft_add, Nat.add_comm 1 n]
      rfl

theorem feedAll_word (poly c x : BitVec w) :
    feedAll poly c (bitsOf x w) = shifts poly w (c ^^^ x) := by
  rw [feedAll_bitsOf poly w]
  simp

def windowWord (w : Nat) (bit : Nat → Bool) (start : Nat) : BitVec w :=
  (BitVec.ofBoolListBE ((List.range w).map fun i => bit (start + i))).cast (by simp)

theorem getMsbD_windowWord (w : Nat) (bit : Nat → Bool) (start i : Nat) (hi : i < w) :
    (windowWord w bit start).getMsbD i = bit (start + i) := by
  simp [windowWord, hi]

theorem bitsOf_windowWord (w : Nat) (bit : Nat → Bool) (start : Nat) :
    bitsOf (windowWord w bit start) w = (List.range w).map fun i => bit (start + i) := by
  apply List.map_congr_left
  intro i hi
  exact getMsbD_windowWord w bit start i (List.mem_range.mp hi)

private theorem range_split (bit : Nat → Bool) (a b : Nat) :
    (List.range (a + b)).map bit =
      (List.range a).map bit ++ (List.range b).map fun i => bit (a + i) := by
  rw [List.range_add, List.map_append, List.map_map]
  rfl

/-- Burst detection: a non-zero input whose ones lie within `w` consecutive
places leaves a register that started at zero in a non-zero state. -/
theorem feedAll_burst_ne_zero {poly : BitVec w} (hpoly : poly.getLsbD 0 = true)
    (bit : Nat → Bool) (n start k : Nat) (hk : k < n) (hone : bit k = true)
    (hwindow : ∀ i < n, bit i = true → start ≤ i ∧ i < start + w) :
    feedAll poly 0#w ((List.range n).map bit) ≠ 0#w := by
  -- Pad with zeros behind the input, so that the window lies inside.
  let padded : Nat → Bool := fun i => if i < n then bit i else false
  have hpadded : ∀ i, padded i = true → start ≤ i ∧ i < start + w := by
    intro i hi
    by_cases hin : i < n
    · exact hwindow i hin (by simpa [padded, hin] using hi)
    · simp [padded, hin] at hi
  have hinput : (List.range n).map bit = (List.range n).map padded := by
    apply List.map_congr_left
    intro i hi
    simp [padded, List.mem_range.mp hi]
  have hword : windowWord w padded start ≠ 0#w := by
    intro hzero
    obtain ⟨hlow, hhigh⟩ := hwindow k hk hone
    have hbit := getMsbD_windowWord w padded start (k - start) (by omega)
    rw [hzero, show start + (k - start) = k by omega] at hbit
    simp [padded, hk, hone] at hbit
  have hlong : feedAll poly 0#w ((List.range (start + w + n)).map padded) ≠ 0#w := by
    rw [range_split, range_split, feedAll_append, feedAll_append,
      feedAll_false poly _ ((List.range start).map padded),
      feedAll_false poly _ ((List.range n).map _), shifts_zero, ← bitsOf_windowWord w padded start,
      feedAll_word]
    · apply shifts_ne_zero hpoly
      apply shifts_ne_zero hpoly
      simpa using hword
    · intro b hb
      obtain ⟨i, _, rfl⟩ := List.mem_map.mp hb
      by_contra hset
      have := hpadded _ (by simpa using hset)
      omega
    · intro b hb
      obtain ⟨i, hi, rfl⟩ := List.mem_map.mp hb
      by_contra hset
      have := hpadded _ (by simpa using hset)
      have := List.mem_range.mp hi
      omega
  intro hzero
  apply hlong
  rw [Nat.add_comm, range_split, feedAll_append, ← hinput, hzero,
    feedAll_false poly _ ((List.range (start + w)).map _), shifts_zero]
  intro b hb
  obtain ⟨i, _, rfl⟩ := List.mem_map.mp hb
  simp [padded, show ¬ n + i < n by omega]

end Fl2440.Lib.ShiftRegister
