import Mathlib.Algebra.Group.Nat.Defs
import Mathlib.Data.List.Nodup
import Fl2440.Lib.Memory

/-! Error correcting codes for one wrong bit in a block of bytes. -/
namespace Fl2440.Lib

def flipBit (data : List Byte) (i j : Nat) : List Byte := data.modify i (· ^^^ BitVec.twoPow 8 j)

inductive Diagnosis where
  | clean
  | single (i j : Nat)
  | broken
deriving DecidableEq

/-- A code for blocks of at most so many bytes: the word of a block, and what a word and
a block say together. -/
structure Ecc (size : Nat) where
  word : List Byte → BitVec 32
  diagnose : BitVec 32 → List Byte → Diagnosis
  clean_iff : ∀ w data, diagnose w data = .clean ↔ w = word data
  single : ∀ data i j, data.length ≤ size → i < data.length → j < 8 →
    diagnose (word data) (flipBit data i j) = .single i j
  inside : ∀ {w data i j}, diagnose w data = .single i j → i < size ∧ j < 8

@[simp] theorem length_flipBit (data : List Byte) (i j : Nat) : (flipBit data i j).length = data.length := by
  simp [flipBit]

def bitAt (data : List Byte) (n : Nat) : Bool := (data.getD (n / 8) 0).getLsbD (n % 8)

theorem bitAt_flipBit {data : List Byte} {i j : Nat} (hi : i < data.length) (hj : j < 8) (n : Nat) :
    bitAt (flipBit data i j) n = (bitAt data n ^^ decide (n = 8 * i + j)) := by
  by_cases hbyte : n / 8 = i
  · have hget : (flipBit data i j).getD i 0 = data.getD i 0 ^^^ BitVec.twoPow 8 j := by
      simp [flipBit, hi]
    have hsame : j = n % 8 ↔ n = 8 * i + j := by omega
    rw [bitAt, bitAt, hbyte, hget, BitVec.getLsbD_xor, BitVec.getLsbD_twoPow]
    simp [hj, hsame]
  · have hget : (flipBit data i j).getD (n / 8) 0 = data.getD (n / 8) 0 := by
      simp [flipBit, Ne.symm hbyte]
    have hne : n ≠ 8 * i + j := by omega
    rw [bitAt, bitAt, hget]
    simp [hne]

def xorOver (p : Nat → Bool) (code : Nat → BitVec 32) : List Nat → BitVec 32
  | [] => 0
  | n :: list => (if p n then code n else 0) ^^^ xorOver p code list

theorem xorOver_congr {p q : Nat → Bool} {code : Nat → BitVec 32} {list : List Nat} (h : ∀ n ∈ list, q n = p n) :
    xorOver q code list = xorOver p code list := by
  induction list with
  | nil => rfl
  | cons n list ih =>
      rw [List.forall_mem_cons] at h
      rw [xorOver, xorOver, h.1, ih h.2]

theorem xorOver_toggle {p q : Nat → Bool} {code : Nat → BitVec 32} {k : Nat} {list : List Nat} (hnodup : list.Nodup)
    (hk : k ∈ list) (h : ∀ n, q n = (p n ^^ decide (n = k))) :
    xorOver q code list = xorOver p code list ^^^ code k := by
  induction list with
  | nil => cases hk
  | cons n list ih =>
      rw [List.nodup_cons] at hnodup
      rw [xorOver, xorOver]
      by_cases hn : n = k
      · have hrest : xorOver q code list = xorOver p code list := by
          apply xorOver_congr
          intro m hm
          have hne : m ≠ k := fun heq => hnodup.1 (hn.symm ▸ heq ▸ hm)
          simp [h, hne]
        rw [hrest, h, hn, BitVec.xor_assoc, BitVec.xor_comm (xorOver p code list), ← BitVec.xor_assoc]
        cases p k <;> simp
      · have hmem : k ∈ list := (List.mem_cons.mp hk).resolve_left fun heq => hn heq.symm
        rw [ih hnodup.2 hmem, h]
        simp [hn, BitVec.xor_assoc]

/-- The positions of the set bits, counted from 1 and added up. -/
def positionWord (data : List Byte) : BitVec 32 :=
  xorOver (bitAt data) (fun n => BitVec.ofNat 32 (n + 1)) (List.range (8 * data.length))

theorem positionWord_flipBit {data : List Byte} {i j : Nat} (hi : i < data.length) (hj : j < 8) :
    positionWord (flipBit data i j) = positionWord data ^^^ BitVec.ofNat 32 (8 * i + j + 1) := by
  rw [positionWord, positionWord, length_flipBit]
  apply xorOver_toggle List.nodup_range
  · rw [List.mem_range]
    omega
  · exact bitAt_flipBit hi hj

def positionCode (size : Nat) (hsize : 8 * size < 2 ^ 32) : Ecc size where
  word := positionWord
  diagnose w data :=
    let syndrome := (w ^^^ positionWord data).toNat
    if syndrome = 0 then .clean
    else if syndrome ≤ 8 * size then .single ((syndrome - 1) / 8) ((syndrome - 1) % 8) else .broken
  clean_iff := by
    intro w data
    have hzero : (w ^^^ positionWord data).toNat = 0 ↔ w = positionWord data := by
      rw [← BitVec.toNat_zero (w := 32), BitVec.toNat_inj, BitVec.xor_eq_zero_iff]
    rw [← hzero]
    dsimp only
    split_ifs with h h'
    · exact iff_of_true rfl h
    · exact iff_of_false nofun h
    · exact iff_of_false nofun h
  single := by
    intro data i j hdata hi hj
    have hsyndrome : (positionWord data ^^^ positionWord (flipBit data i j)).toNat = 8 * i + j + 1 := by
      rw [positionWord_flipBit hi hj, ← BitVec.xor_assoc, BitVec.xor_self, BitVec.zero_xor, BitVec.toNat_ofNat]
      omega
    have hi' : (8 * i + j) / 8 = i := by omega
    have hj' : (8 * i + j) % 8 = j := by omega
    dsimp only
    rw [hsyndrome, if_neg (Nat.succ_ne_zero _), if_pos (by omega), Nat.add_sub_cancel, hi', hj']
  inside := by
    intro w data i j h
    dsimp only at h
    split_ifs at h
    cases h
    omega

end Fl2440.Lib
