import Mathlib.Tactic.Ring
import Mathlib.Data.Nat.Bitwise
import Fl2440.MyBoot.Chip

/-! Word arithmetic of the driver: `generic_ffs`, masks and shifts by powers of
two, and address cycles. -/
namespace Fl2440.MyBoot

/-- `generic_ffs`: one plus the index of the lowest bit that is set. -/
def genericFfs (x : Word) : Nat :=
  if x = 0 then 0
  else
    let (x, r) := if x &&& 0xffff = 0 then (x.sshiftRight 16, 1 + 16) else (x, 1)
    let (x, r) := if x &&& 0xff = 0 then (x.sshiftRight 8, r + 8) else (x, r)
    let (x, r) := if x &&& 0xf = 0 then (x.sshiftRight 4, r + 4) else (x, r)
    let (x, r) := if x &&& 3 = 0 then (x.sshiftRight 2, r + 2) else (x, r)
    if x &&& 1 = 0 then r + 1 else r

theorem genericFfs_two_pow {k : Nat} (h : k < 32) : genericFfs (BitVec.ofNat 32 (2 ^ k)) = k + 1 := by
  have all : ∀ k : Fin 32, genericFfs (BitVec.ofNat 32 (2 ^ k.val)) = k.val + 1 := by decide
  exact all ⟨k, h⟩

theorem toNat_two_pow {k : Nat} (h : k < 32) : (BitVec.ofNat 32 (2 ^ k)).toNat = 2 ^ k := by
  rw [BitVec.toNat_ofNat]
  exact Nat.mod_eq_of_lt (Nat.pow_lt_pow_right (by decide) h)

/-- `x & (2^k - 1)` -/
theorem toNat_and_mask (x : Word) {k : Nat} (h : k < 32) :
    (x &&& (BitVec.ofNat 32 (2 ^ k) - 1)).toNat = x.toNat % 2 ^ k := by
  have hpos : 0 < 2 ^ k := Nat.two_pow_pos k
  have hmask : (BitVec.ofNat 32 (2 ^ k) - 1 : Word).toNat = 2 ^ k - 1 := by
    rw [BitVec.toNat_sub_of_le (by rw [BitVec.le_def, toNat_two_pow h]; exact hpos),
      toNat_two_pow h]
    rfl
  rw [BitVec.toNat_and, hmask, Nat.and_two_pow_sub_one_eq_mod]

/-- `x & ~(2^k - 1)` -/
theorem toNat_and_not_mask (x : Word) {k : Nat} (h : k < 32) :
    (x &&& ~~~(BitVec.ofNat 32 (2 ^ k) - 1)).toNat = x.toNat / 2 ^ k * 2 ^ k := by
  have split : (x &&& ~~~(BitVec.ofNat 32 (2 ^ k) - 1)) =
      x - (x &&& (BitVec.ofNat 32 (2 ^ k) - 1)) := by
    generalize BitVec.ofNat 32 (2 ^ k) - 1 = mask
    rw [eq_comm, BitVec.sub_eq_iff_eq_add, BitVec.add_eq_or_of_and_eq_zero]
    · ext i hi
      simp only [BitVec.getElem_or, BitVec.getElem_and, BitVec.getElem_not]
      cases x[i] <;> cases mask[i] <;> rfl
    · ext i hi
      simp only [BitVec.getElem_and, BitVec.getElem_not, BitVec.getElem_zero]
      cases x[i] <;> cases mask[i] <;> rfl
  have hle : (x &&& (BitVec.ofNat 32 (2 ^ k) - 1)).toNat ≤ x.toNat := by
    rw [toNat_and_mask x h]
    exact Nat.mod_le _ _
  rw [split, BitVec.toNat_sub_of_le hle, toNat_and_mask x h]
  have := Nat.div_add_mod' x.toNat (2 ^ k)
  omega

theorem toNat_shift (x : Word) (k : Nat) : (x >>> k).toNat = x.toNat / 2 ^ k := by
  rw [BitVec.toNat_ushiftRight, Nat.shiftRight_eq_div_pow]

theorem toNat_ofNat_of_lt {n : Nat} (h : n < 2 ^ 32) : (BitVec.ofNat 32 n).toNat = n := by
  rw [BitVec.toNat_ofNat, Nat.mod_eq_of_lt h]

theorem ofNat_sub_ofNat {m n : Nat} (h : n ≤ m) :
    BitVec.ofNat 32 m - BitVec.ofNat 32 n = BitVec.ofNat 32 (m - n) := by
  rw [BitVec.sub_eq_iff_eq_add, ← BitVec.ofNat_add, Nat.sub_add_cancel h]

theorem slt_zero_iff (x : Word) : x.slt 0 = true ↔ 2 ^ 31 ≤ x.toNat := by
  rw [BitVec.slt, decide_eq_true_iff, BitVec.toInt_eq_toNat_cond, show (0 : Word).toInt = 0 from rfl]
  have := x.isLt
  split <;> omega

theorem add_ofNat_zero (p : Word) : p + BitVec.ofNat 32 0 = p := BitVec.add_zero p

theorem add_ofNat_succ (p : Word) (i : Nat) : p + BitVec.ofNat 32 (i + 1) = p + 1 + BitVec.ofNat 32 i := by
  rw [Nat.add_comm, BitVec.ofNat_add, ← BitVec.add_assoc]
  rfl

theorem add_ofNat_inj (p : Word) {i j : Nat} (hi : i < 2 ^ 32) (hj : j < 2 ^ 32) :
    p + BitVec.ofNat 32 i = p + BitVec.ofNat 32 j ↔ i = j := by
  rw [BitVec.add_right_inj, ← BitVec.toNat_inj, toNat_ofNat_of_lt hi, toNat_ofNat_of_lt hj]

theorem toNat_and_0xff (x : Word) : (x &&& 0xff).toNat = x.toNat % 256 := toNat_and_mask x (k := 8) (by decide)

/-- What the chip makes of its address cycles, the low byte first. -/
def address (cycles : List Word) : Nat := cycles.foldr (fun c n => c.toNat + 256 * n) 0

def columnCycles (offset : Word) : List Word := [offset &&& 0xff, (offset >>> 8) &&& 0xff]

def pageCycles (page_num : Word) : List Word :=
  [page_num &&& 0xff, (page_num >>> 8) &&& 0xff, (page_num >>> 16) &&& 0xff]

def blockCycles (block_num : Word) : List Word :=
  [(block_num <<< 6) &&& 0xff, (block_num >>> 2) &&& 0xff, (block_num >>> 10) &&& 0x0f]

theorem address_columnCycles (offset : Word) : address (columnCycles offset) = offset.toNat % 2 ^ 16 := by
  simp only [address, columnCycles, List.foldr, toNat_and_0xff, toNat_shift]
  omega

theorem address_pageCycles (page_num : Word) : address (pageCycles page_num) = page_num.toNat % 2 ^ 24 := by
  simp only [address, pageCycles, List.foldr, toNat_and_0xff, toNat_shift]
  omega

theorem address_blockCycles (block_num : Word) :
    address (blockCycles block_num) = pagesPerBlock * block_num.toNat % 2 ^ 20 := by
  have hlow : ((block_num <<< 6) &&& 0xff : Word).toNat = 64 * block_num.toNat % 256 := by
    rw [toNat_and_0xff, BitVec.toNat_shiftLeft, Nat.shiftLeft_eq]
    omega
  have hhigh : ((block_num >>> 10) &&& 0x0f : Word).toNat = block_num.toNat / 2 ^ 10 % 16 := by
    rw [show (0x0f : Word) = BitVec.ofNat 32 (2 ^ 4) - 1 by decide, toNat_and_mask _ (by decide),
      toNat_shift]
    rfl
  simp only [address, blockCycles, List.foldr, hlow, hhigh, toNat_and_0xff, toNat_shift,
    pagesPerBlock]
  omega

end Fl2440.MyBoot
