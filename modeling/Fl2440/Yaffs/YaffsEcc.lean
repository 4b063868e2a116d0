import Mathlib.Tactic.FinCases
import Fl2440.Lib.Ecc
import Fl2440.Lib.PairCode

/-! `yaffs_ecc.c`: the code of a block of 256 bytes, and that of any number of bytes. -/
namespace Fl2440.Yaffs

open Fl2440.Lib

def columnParityTable : List Byte := [
  0x00, 0x55, 0x59, 0x0c, 0x65, 0x30, 0x3c, 0x69,
  0x69, 0x3c, 0x30, 0x65, 0x0c, 0x59, 0x55, 0x00,
  0x95, 0xc0, 0xcc, 0x99, 0xf0, 0xa5, 0xa9, 0xfc,
  0xfc, 0xa9, 0xa5, 0xf0, 0x99, 0xcc, 0xc0, 0x95,
  0x99, 0xcc, 0xc0, 0x95, 0xfc, 0xa9, 0xa5, 0xf0,
  0xf0, 0xa5, 0xa9, 0xfc, 0x95, 0xc0, 0xcc, 0x99,
  0x0c, 0x59, 0x55, 0x00, 0x69, 0x3c, 0x30, 0x65,
  0x65, 0x30, 0x3c, 0x69, 0x00, 0x55, 0x59, 0x0c,
  0xa5, 0xf0, 0xfc, 0xa9, 0xc0, 0x95, 0x99, 0xcc,
  0xcc, 0x99, 0x95, 0xc0, 0xa9, 0xfc, 0xf0, 0xa5,
  0x30, 0x65, 0x69, 0x3c, 0x55, 0x00, 0x0c, 0x59,
  0x59, 0x0c, 0x00, 0x55, 0x3c, 0x69, 0x65, 0x30,
  0x3c, 0x69, 0x65, 0x30, 0x59, 0x0c, 0x00, 0x55,
  0x55, 0x00, 0x0c, 0x59, 0x30, 0x65, 0x69, 0x3c,
  0xa9, 0xfc, 0xf0, 0xa5, 0xcc, 0x99, 0x95, 0xc0,
  0xc0, 0x95, 0x99, 0xcc, 0xa5, 0xf0, 0xfc, 0xa9,
  0xa9, 0xfc, 0xf0, 0xa5, 0xcc, 0x99, 0x95, 0xc0,
  0xc0, 0x95, 0x99, 0xcc, 0xa5, 0xf0, 0xfc, 0xa9,
  0x3c, 0x69, 0x65, 0x30, 0x59, 0x0c, 0x00, 0x55,
  0x55, 0x00, 0x0c, 0x59, 0x30, 0x65, 0x69, 0x3c,
  0x30, 0x65, 0x69, 0x3c, 0x55, 0x00, 0x0c, 0x59,
  0x59, 0x0c, 0x00, 0x55, 0x3c, 0x69, 0x65, 0x30,
  0xa5, 0xf0, 0xfc, 0xa9, 0xc0, 0x95, 0x99, 0xcc,
  0xcc, 0x99, 0x95, 0xc0, 0xa9, 0xfc, 0xf0, 0xa5,
  0x0c, 0x59, 0x55, 0x00, 0x69, 0x3c, 0x30, 0x65,
  0x65, 0x30, 0x3c, 0x69, 0x00, 0x55, 0x59, 0x0c,
  0x99, 0xcc, 0xc0, 0x95, 0xfc, 0xa9, 0xa5, 0xf0,
  0xf0, 0xa5, 0xa9, 0xfc, 0x95, 0xc0, 0xcc, 0x99,
  0x95, 0xc0, 0xcc, 0x99, 0xf0, 0xa5, 0xa9, 0xfc,
  0xfc, 0xa9, 0xa5, 0xf0, 0x99, 0xcc, 0xc0, 0x95,
  0x00, 0x55, 0x59, 0x0c, 0x65, 0x30, 0x3c, 0x69,
  0x69, 0x3c, 0x30, 0x65, 0x0c, 0x59, 0x55, 0x00]

def columnParity (b : Byte) : Byte := columnParityTable.getD b.toNat 0

theorem columnParity_flip : ∀ (b : Byte) (j : Fin 8),
    columnParity (b ^^^ BitVec.twoPow 8 j) = columnParity b ^^^ columnParity (BitVec.twoPow 8 j) := by
  decide

def yaffsCountBitsTable : List Nat := [
  0, 1, 1, 2, 1, 2, 2, 3, 1, 2, 2, 3, 2, 3, 3, 4,
  1, 2, 2, 3, 2, 3, 3, 4, 2, 3, 3, 4, 3, 4, 4, 5,
  1, 2, 2, 3, 2, 3, 3, 4, 2, 3, 3, 4, 3, 4, 4, 5,
  2, 3, 3, 4, 3, 4, 4, 5, 3, 4, 4, 5, 4, 5, 5, 6,
  1, 2, 2, 3, 2, 3, 3, 4, 2, 3, 3, 4, 3, 4, 4, 5,
  2, 3, 3, 4, 3, 4, 4, 5, 3, 4, 4, 5, 4, 5, 5, 6,
  2, 3, 3, 4, 3, 4, 4, 5, 3, 4, 4, 5, 4, 5, 5, 6,
  3, 4, 4, 5, 4, 5, 5, 6, 4, 5, 5, 6, 5, 6, 6, 7,
  1, 2, 2, 3, 2, 3, 3, 4, 2, 3, 3, 4, 3, 4, 4, 5,
  2, 3, 3, 4, 3, 4, 4, 5, 3, 4, 4, 5, 4, 5, 5, 6,
  2, 3, 3, 4, 3, 4, 4, 5, 3, 4, 4, 5, 4, 5, 5, 6,
  3, 4, 4, 5, 4, 5, 5, 6, 4, 5, 5, 6, 5, 6, 6, 7,
  2, 3, 3, 4, 3, 4, 4, 5, 3, 4, 4, 5, 4, 5, 5, 6,
  3, 4, 4, 5, 4, 5, 5, 6, 4, 5, 5, 6, 5, 6, 6, 7,
  3, 4, 4, 5, 4, 5, 5, 6, 4, 5, 5, 6, 5, 6, 6, 7,
  4, 5, 5, 6, 5, 6, 6, 7, 5, 6, 6, 7, 6, 7, 7, 8]

def hweight8 (x : Byte) : Nat := yaffsCountBitsTable.getD x.toNat 0

def hweight32 (x : BitVec 32) : Nat :=
  hweight8 ((x &&& 0xff).setWidth 8) + hweight8 (((x >>> 8) &&& 0xff).setWidth 8) +
    hweight8 (((x >>> 16) &&& 0xff).setWidth 8) + hweight8 (((x >>> 24) &&& 0xff).setWidth 8)

theorem hweight8_eq : ∀ x : Byte, hweight8 x = ∑ j : Fin 8, (x.getLsbD j).toNat := by decide

theorem sum_bytes (f : Nat → Nat) : ∑ j : Fin 32, f j =
    ∑ j : Fin 8, f j + ∑ j : Fin 8, f (8 + j) + ∑ j : Fin 8, f (16 + j) + ∑ j : Fin 8, f (24 + j) := by
  rw [Fin.sum_univ_eq_sum_range f, Fin.sum_univ_eq_sum_range f, Fin.sum_univ_eq_sum_range fun j => f (8 + j),
    Fin.sum_univ_eq_sum_range fun j => f (16 + j), Fin.sum_univ_eq_sum_range fun j => f (24 + j),
    show 32 = 8 + 8 + 8 + 8 from rfl, Finset.sum_range_add, Finset.sum_range_add, Finset.sum_range_add]

theorem getLsbD_byte (x : BitVec 32) (s : Nat) (j : Fin 8) :
    (((x >>> s) &&& 0xff).setWidth 8).getLsbD j = x.getLsbD (s + j) := by
  have hmask : (0xff : BitVec 32).getLsbD j = true := by
    revert j
    decide
  rw [BitVec.getLsbD_setWidth, BitVec.getLsbD_and, BitVec.getLsbD_ushiftRight, hmask]
  simp [j.isLt]

theorem hweight32_eq (x : BitVec 32) : hweight32 x = ∑ j : Fin 32, (x.getLsbD j).toNat := by
  have hlow : (x &&& 0xff).setWidth 8 = ((x >>> 0) &&& 0xff).setWidth 8 := by rw [BitVec.ushiftRight_zero]
  rw [hweight32, hlow, sum_bytes fun j => (x.getLsbD j).toNat]
  simp only [hweight8_eq, getLsbD_byte, Nat.zero_add]

section Turn

variable {n : Nat}

/-- `v[i] ^= 1 << j` -/
def turnBit (v : Vector Byte n) (i j : Nat) : Vector Byte n :=
  v.setIfInBounds i (v[i]?.getD 0 ^^^ BitVec.twoPow 8 j)

theorem get_turnBit (v : Vector Byte n) (i j : Nat) (k : Fin n) :
    (turnBit v i j).get k = if i = k then v.get k ^^^ BitVec.twoPow 8 j else v.get k := by
  refine (Vector.getElem_setIfInBounds k.isLt).trans ?_
  split_ifs with h
  · simp only [h, Fin.is_lt, getElem?_pos, Option.getD_some]
    rfl
  · rfl

theorem toList_turnBit (v : Vector Byte n) (p : Fin n × Fin 8) :
    (turnBit v p.1 p.2).toList = flipBit v.toList p.1 p.2 := by
  apply List.ext_getElem
  · simp
  · intro k hk hk'
    have hk : k < n := by simpa using hk
    have hget : (turnBit v p.1 p.2)[k] = _ := get_turnBit v p.1 p.2 ⟨k, hk⟩
    simp only [flipBit, List.getElem_modify, Vector.getElem_toList, hget]
    rfl

theorem getLsbD_turnBit (v : Vector Byte n) (p q : Fin n × Fin 8) :
    ((turnBit v p.1 p.2).get q.1).getLsbD q.2 = ((v.get q.1).getLsbD q.2 ^^ decide (q = p)) := by
  rw [get_turnBit]
  by_cases h : p.1 = q.1
  · have hbit : p.2.val = q.2.val ↔ q = p := by
      rw [Prod.ext_iff, Fin.val_inj]
      exact ⟨fun h' => ⟨h.symm, h'.symm⟩, fun h' => h'.2.symm⟩
    rw [if_pos (congrArg Fin.val h), BitVec.getLsbD_xor, BitVec.getLsbD_twoPow]
    simp [hbit]
  · have hne : q ≠ p := fun heq => h (congrArg Prod.fst heq.symm)
    rw [if_neg fun hval => h (Fin.val_inj.mp hval)]
    simp [hne]

theorem turnBit_turnBit (v : Vector Byte n) (i j : Nat) : turnBit (turnBit v i j) i j = v := by
  ext k hk : 1
  have hget : (turnBit (turnBit v i j) i j)[k] = _ := get_turnBit (turnBit v i j) i j ⟨k, hk⟩
  rw [hget, get_turnBit]
  split_ifs
  · rw [BitVec.xor_assoc, BitVec.xor_self, BitVec.xor_zero]
    rfl
  · rfl

end Turn

/-- `col_parity`, `line_parity` and `line_parity_prime`, the last two `w` bits wide. -/
@[ext] structure Parities (w : Nat) where
  col : Byte
  line : BitVec w
  linePrime : BitVec w

namespace Parities

variable {w : Nat}

def take (p : Parities w) (i : Nat) (b : Byte) : Parities w :=
  if b &&& 0x01 ≠ 0 then ⟨p.col ^^^ b, p.line ^^^ BitVec.ofNat w i, p.linePrime ^^^ ~~~BitVec.ofNat w i⟩
  else { p with col := p.col ^^^ b }

def loop (p : Parities w) (i : Nat) : List Byte → Parities w
  | [] => p
  | b :: data => (p.take i (columnParity b)).loop (i + 1) data

def add (p q : Parities w) : Parities w := ⟨p.col ^^^ q.col, p.line ^^^ q.line, p.linePrime ^^^ q.linePrime⟩

def share (i j : Nat) : Parities w :=
  ⟨columnParity (BitVec.twoPow 8 j), BitVec.ofNat w i, ~~~BitVec.ofNat w i⟩

theorem take_add (p q : Parities w) (i : Nat) (b : Byte) : (p.add q).take i b = (p.take i b).add q := by
  unfold take
  split_ifs
  · ext1 <;> simp only [add, BitVec.xor_assoc, BitVec.xor_comm q.col, BitVec.xor_comm q.line, BitVec.xor_comm q.linePrime]
  · ext1 <;> simp only [add, BitVec.xor_assoc, BitVec.xor_comm q.col]

theorem loop_add (p q : Parities w) (i : Nat) (data : List Byte) : (p.add q).loop i data = (p.loop i data).add q := by
  induction data generalizing p i with
  | nil => rfl
  | cons b data ih => rw [loop, loop, take_add, ih]

theorem odd_flip : ∀ (b : Byte) (j : Fin 8),
    (b ^^^ columnParity (BitVec.twoPow 8 j)) &&& 0x01 ≠ 0 ↔ b &&& 0x01 = 0 := by
  decide

theorem take_flip (p : Parities w) (i : Nat) (b : Byte) (j : Fin 8) :
    p.take i (columnParity (b ^^^ BitVec.twoPow 8 j)) = (p.take i (columnParity b)).add (share i j) := by
  rw [columnParity_flip]
  generalize columnParity b = c
  by_cases h : c &&& 0x01 = 0
  · rw [take, if_pos ((odd_flip c j).mpr h), take, if_neg (not_not.mpr h)]
    ext1 <;> simp only [add, share, BitVec.xor_assoc]
  · rw [take, if_neg fun h' => h ((odd_flip c j).mp h'), take, if_pos h]
    ext1 <;> simp only [add, share, BitVec.xor_assoc, BitVec.xor_self, BitVec.xor_zero]

theorem loop_flipBit (p : Parities w) (i : Nat) {data : List Byte} {k : Nat} (hk : k < data.length) (j : Fin 8) :
    p.loop i (flipBit data k j) = (p.loop i data).add (share (i + k) j) := by
  induction data generalizing p i k with
  | nil => cases hk
  | cons b data ih =>
      cases k with
      | zero => exact (congrArg (loop · _ data) (take_flip p i b j)).trans (loop_add _ _ _ _)
      | succ k =>
          refine (ih (p.take i (columnParity b)) (i + 1) (Nat.lt_of_succ_lt_succ hk)).trans ?_
          rw [Nat.add_assoc, Nat.add_comm 1 k]
          rfl

/-- The bits that are kept: those of the addresses and of their complements. -/
def bits (p : Parities w) : Place (w + 3) 2 → Bool
  | .inl (k, side) =>
      if k.val < 3 then p.col.getLsbD (if side then 2 * k + 3 else 2 * k + 2)
      else if side then p.line.getLsbD (k - 3) else p.linePrime.getLsbD (k - 3)
  | .inr _ => false

theorem bits_line (p : Parities w) {k : Nat} (hk : k < w) (side : Bool) :
    p.bits (.inl (⟨k + 3, by omega⟩, side)) = (if side then p.line else p.linePrime).getLsbD k := by
  rw [bits]
  cases side <;> simp

def address (i : BitVec w) (j : Fin 8) (k : Fin (w + 3)) : Bool :=
  if k.val < 3 then j.val.testBit k else i.getLsbD (k - 3)

theorem bits_add (p q : Parities w) (k : Place (w + 3) 2) : (p.add q).bits k = (p.bits k ^^ q.bits k) := by
  rcases k with ⟨k, side⟩ | k
  · unfold bits
    dsimp only
    split_ifs <;> simp [add]
  · rfl

theorem columnParity_twoPow : ∀ (j : Fin 8) (k : Fin 3) (side : Bool),
    (columnParity (BitVec.twoPow 8 j)).getLsbD (if side then 2 * k + 3 else 2 * k + 2) = (j.val.testBit k == side) := by
  decide

theorem bits_share (i : Nat) (j : Fin 8) (k : Place (w + 3) 2) :
    (share i j : Parities w).bits k = addressWord (address (BitVec.ofNat w i) j) k := by
  rcases k with ⟨k, side⟩ | k
  · rw [bits, addressWord, address]
    by_cases hk : k.val < 3
    · rw [if_pos hk, if_pos hk]
      exact columnParity_twoPow j ⟨k, hk⟩ side
    · have hline : k.val - 3 < w := by omega
      rw [if_neg hk, if_neg hk]
      cases side <;> simp [share, hline]
  · rfl

theorem eq_of_testBit : ∀ {j j' : Fin 8}, (∀ k : Fin 3, j.val.testBit k = j'.val.testBit k) → j = j' := by
  decide

theorem address_inj {i i' : BitVec w} {j j' : Fin 8} (h : address i j = address i' j') : i = i' ∧ j = j' := by
  constructor
  · ext k hk : 1
    have hbit := congrFun h ⟨k + 3, by omega⟩
    have hk' : ¬ k + 3 < 3 := by omega
    simpa [address, hk', BitVec.getLsbD_eq_getElem hk] using hbit
  · apply eq_of_testBit
    intro k
    have hbit := congrFun h ⟨k, by omega⟩
    simpa [address] using hbit

end Parities

section Fix

variable {n w : Nat}

/-- The bit of the data that an address is the address of, turned over. -/
noncomputable def fix (w : Nat) (a : Fin (w + 3) → Bool) (data : Vector Byte n) : Option (Vector Byte n) :=
  open Classical in
  if h : ∃ p : Fin n × Fin 8, Parities.address (BitVec.ofNat w p.1) p.2 = a then
    some (turnBit data h.choose.1 h.choose.2) else none

theorem address_ofNat (hn : n ≤ 2 ^ w) {p q : Fin n × Fin 8}
    (h : Parities.address (BitVec.ofNat w p.1) p.2 = Parities.address (BitVec.ofNat w q.1) q.2) : p = q := by
  obtain ⟨hbyte, hbit⟩ := Parities.address_inj h
  refine Prod.ext (Fin.ext ?_) hbit
  have hval := congrArg BitVec.toNat hbyte
  rwa [BitVec.toNat_ofNat, BitVec.toNat_ofNat, Nat.mod_eq_of_lt (by omega), Nat.mod_eq_of_lt (by omega)] at hval

theorem fix_address (hn : n ≤ 2 ^ w) (p : Fin n × Fin 8) (data : Vector Byte n) :
    fix w (Parities.address (BitVec.ofNat w p.1) p.2) data = some (turnBit data p.1 p.2) := by
  have hex : ∃ q : Fin n × Fin 8, Parities.address (BitVec.ofNat w q.1) q.2 = Parities.address (BitVec.ofNat w p.1) p.2 :=
    ⟨p, rfl⟩
  rw [fix, dif_pos hex, address_ofNat hn hex.choose_spec]

theorem fix_toNat (hn : n ≤ 2 ^ w) {byte : BitVec w} (hbyte : byte.toNat < n) {bit : Nat} (hbit : bit < 8)
    (data : Vector Byte n) :
    fix w (Parities.address byte (Fin.ofNat 8 bit)) data = some (turnBit data byte.toNat bit) := by
  have hfix := fix_address hn (⟨byte.toNat, hbyte⟩, Fin.ofNat 8 bit) data
  rwa [BitVec.ofNat_toNat, BitVec.setWidth_eq, Fin.val_ofNat, Nat.mod_eq_of_lt hbit] at hfix

theorem fix_outside {byte : BitVec w} (hbyte : n ≤ byte.toNat) (hn : n ≤ 2 ^ w) (bit : Fin 8) (data : Vector Byte n) :
    fix w (Parities.address byte bit) data = none := by
  rw [fix, dif_neg]
  rintro ⟨p, hp⟩
  have hval := congrArg BitVec.toNat (Parities.address_inj hp).1
  rw [BitVec.toNat_ofNat, Nat.mod_eq_of_lt (by omega)] at hval
  omega

end Fix

/-- `if (x & mask) t |= bit;`, one after the other. -/
def gather (t : Byte) : List (Byte × Byte × Byte) → Byte
  | [] => t
  | (x, mask, bit) :: list => gather (if x &&& mask ≠ 0 then t ||| bit else t) list

theorem getLsbD_gather (t : Byte) (list : List (Byte × Byte × Byte)) (k : Nat) : (gather t list).getLsbD k =
    (t.getLsbD k || list.any fun e => decide (e.1 &&& e.2.1 ≠ 0) && e.2.2.getLsbD k) := by
  induction list generalizing t with
  | nil => simp [gather]
  | cons e list ih =>
      rw [gather, ih, List.any_cons, ← Bool.or_assoc]
      by_cases h : e.1 &&& e.2.1 ≠ 0
      · rw [if_pos h, decide_eq_true h, BitVec.getLsbD_or, Bool.true_and]
      · rw [if_neg h, decide_eq_false h, Bool.false_and, Bool.or_false]

def yaffsEccCalc (data : Vector Byte 256) : Vector Byte 3 :=
  let p : Parities 8 := (⟨0, 0, 0⟩ : Parities 8).loop 0 data.toList
  #v[~~~gather 0 [(p.line, 0x08, 0x80), (p.linePrime, 0x08, 0x40), (p.line, 0x04, 0x20), (p.linePrime, 0x04, 0x10),
      (p.line, 0x02, 0x08), (p.linePrime, 0x02, 0x04), (p.line, 0x01, 0x02), (p.linePrime, 0x01, 0x01)],
    ~~~gather 0 [(p.line, 0x80, 0x80), (p.linePrime, 0x80, 0x40), (p.line, 0x40, 0x20), (p.linePrime, 0x40, 0x10),
      (p.line, 0x20, 0x08), (p.linePrime, 0x20, 0x04), (p.line, 0x10, 0x02), (p.linePrime, 0x10, 0x01)],
    ~~~p.col ||| 0x03]

def yaffsEccCorrect (data : Vector Byte 256) (readEcc testEcc : Vector Byte 3) : Int × Vector Byte 256 × Vector Byte 3 :=
  let d0 := readEcc[0] ^^^ testEcc[0]
  let d1 := readEcc[1] ^^^ testEcc[1]
  let d2 := readEcc[2] ^^^ testEcc[2]
  if d0 ||| d1 ||| d2 = 0 then (0, data, readEcc)
  else if (d0 ^^^ (d0 >>> 1)) &&& 0x55 = 0x55 ∧ (d1 ^^^ (d1 >>> 1)) &&& 0x55 = 0x55 ∧
      (d2 ^^^ (d2 >>> 1)) &&& 0x54 = 0x54 then
    let byte := gather 0 [(d1, 0x80, 0x80), (d1, 0x20, 0x40), (d1, 0x08, 0x20), (d1, 0x02, 0x10),
      (d0, 0x80, 0x08), (d0, 0x20, 0x04), (d0, 0x08, 0x02), (d0, 0x02, 0x01)]
    let bit := gather 0 [(d2, 0x80, 0x04), (d2, 0x20, 0x02), (d2, 0x08, 0x01)]
    (1, turnBit data byte.toNat bit.toNat, readEcc)
  else if hweight8 d0 + hweight8 d1 + hweight8 d2 = 1 then (1, data, testEcc)
  else (-1, data, readEcc)

@[ext] structure YaffsEccOther where
  colParity : Byte
  lineParity : BitVec 32
  lineParityPrime : BitVec 32

def yaffsEccCalcOther (nBytes : BitVec 32) (data : Vector Byte nBytes.toNat) : YaffsEccOther :=
  let p : Parities 32 := (⟨0, 0, 0⟩ : Parities 32).loop 0 data.toList
  ⟨(p.col >>> 2) &&& 0x3f, p.line, p.linePrime⟩

def yaffsEccCorrectOther (nBytes : BitVec 32) (data : Vector Byte nBytes.toNat) (readEcc testEcc : YaffsEccOther) :
    Int × Vector Byte nBytes.toNat × YaffsEccOther :=
  let deltaCol := readEcc.colParity ^^^ testEcc.colParity
  let deltaLine := readEcc.lineParity ^^^ testEcc.lineParity
  let deltaLinePrime := readEcc.lineParityPrime ^^^ testEcc.lineParityPrime
  if deltaCol.setWidth 32 ||| deltaLine ||| deltaLinePrime = 0 then (0, data, readEcc)
  else if deltaLine = ~~~deltaLinePrime ∧ (deltaCol ^^^ (deltaCol >>> 1)) &&& 0x15 = 0x15 then
    let bit := gather 0 [(deltaCol, 0x20, 0x04), (deltaCol, 0x08, 0x02), (deltaCol, 0x02, 0x01)]
    if deltaLine ≥ nBytes then (-1, data, readEcc)
    else (1, turnBit data deltaLine.toNat bit.toNat, readEcc)
  else if hweight32 deltaLine + hweight32 deltaLinePrime + hweight8 deltaCol = 1 then (1, data, testEcc)
  else (-1, data, readEcc)

theorem mask_iff : ∀ (x : Byte) (j : Fin 8), x &&& BitVec.twoPow 8 j ≠ 0 ↔ x.getLsbD j = true := by decide

namespace YaffsEcc

theorem bit_neZero : NeZero 8 := ⟨by decide⟩

/-- The byte and the bit of the three bytes that stand for a place. -/
def source : Place 11 2 → Fin 3 × Fin 8
  | .inl (k, side) =>
      if k.val < 3 then (2, @Fin.ofNat 8 bit_neZero (2 * k + 2 + side.toNat))
      else if k.val < 7 then (0, @Fin.ofNat 8 bit_neZero (2 * (k - 3) + side.toNat))
      else (1, @Fin.ofNat 8 bit_neZero (2 * (k - 7) + side.toNat))
  | .inr j => (2, @Fin.ofNat 8 bit_neZero j)

def place : Fin 3 × Fin 8 → Place 11 2
  | (0, j) => .inl (Fin.ofNat 11 (j / 2 + 3), j.val % 2 == 1)
  | (1, j) => .inl (Fin.ofNat 11 (j / 2 + 7), j.val % 2 == 1)
  | (2, j) => if j.val < 2 then .inr (Fin.ofNat 2 j) else .inl (Fin.ofNat 11 (j / 2 - 1), j.val % 2 == 1)

theorem place_source : ∀ k, place (source k) = k := by decide

theorem source_place : ∀ p, source (place p) = p := by decide

def sourceEquiv : Place 11 2 ≃ Fin 3 × Fin 8 := ⟨source, place, place_source, source_place⟩

def bits (ecc : Fin 3 → Byte) (k : Place 11 2) : Bool := (ecc (source k).1).getLsbD (source k).2

theorem bits_turnBit (ecc : Vector Byte 3) (p : Fin 3 × Fin 8) (k : Place 11 2) :
    bits (turnBit ecc p.1 p.2).get k = (bits ecc.get k ^^ toggle (fun _ => false) (place p) k) := by
  have hplace : source k = p ↔ k = place p := (sourceEquiv.eq_symm_apply).symm
  rw [bits, getLsbD_turnBit]
  simp [toggle, bits, hplace]

theorem gather_sums (x y : Byte) (mask : Fin 4 → Byte) (k : Fin 4) (side : Bool) :
    (gather 0 [(x, mask 3, 0x80), (y, mask 3, 0x40), (x, mask 2, 0x20), (y, mask 2, 0x10),
      (x, mask 1, 0x08), (y, mask 1, 0x04), (x, mask 0, 0x02), (y, mask 0, 0x01)]).getLsbD (2 * k + side.toNat) =
      decide ((if side then x else y) &&& mask k ≠ 0) := by
  rw [getLsbD_gather]
  fin_cases k <;> cases side <;> simp

theorem decide_mask (x : Byte) (j : Fin 8) : decide (x &&& BitVec.twoPow 8 j ≠ 0) = x.getLsbD j := by
  rw [Bool.eq_iff_iff, decide_eq_true_iff]
  exact mask_iff x j

theorem low_sums (x y : Byte) (k : Fin 4) (side : Bool) :
    (gather 0 [(x, 0x08, 0x80), (y, 0x08, 0x40), (x, 0x04, 0x20), (y, 0x04, 0x10),
      (x, 0x02, 0x08), (y, 0x02, 0x04), (x, 0x01, 0x02), (y, 0x01, 0x01)]).getLsbD (2 * k + side.toNat) =
      (if side then x else y).getLsbD k :=
  (gather_sums x y (fun k => BitVec.twoPow 8 k) k side).trans (decide_mask _ (k.castLE (by decide)))

theorem high_sums (x y : Byte) (k : Fin 4) (side : Bool) :
    (gather 0 [(x, 0x80, 0x80), (y, 0x80, 0x40), (x, 0x40, 0x20), (y, 0x40, 0x10),
      (x, 0x20, 0x08), (y, 0x20, 0x04), (x, 0x10, 0x02), (y, 0x10, 0x01)]).getLsbD (2 * k + side.toNat) =
      (if side then x else y).getLsbD (k + 4) :=
  (gather_sums x y (fun k => BitVec.twoPow 8 (k + 4)) k side).trans (decide_mask _ (k.addNat 4))

theorem gather_byte (d0 d1 : Byte) (k : Fin 4) :
    let byte := gather 0 [(d1, 0x80, 0x80), (d1, 0x20, 0x40), (d1, 0x08, 0x20), (d1, 0x02, 0x10),
      (d0, 0x80, 0x08), (d0, 0x20, 0x04), (d0, 0x08, 0x02), (d0, 0x02, 0x01)]
    byte.getLsbD k = d0.getLsbD (2 * k + 1) ∧ byte.getLsbD (k + 4) = d1.getLsbD (2 * k + 1) := by
  have hmask : ∀ d : Byte, decide (d &&& 0x02 ≠ 0) = d.getLsbD 1 ∧ decide (d &&& 0x08 ≠ 0) = d.getLsbD 3 ∧
      decide (d &&& 0x20 ≠ 0) = d.getLsbD 5 ∧ decide (d &&& 0x80 ≠ 0) = d.getLsbD 7 := fun d =>
    ⟨decide_mask d 1, decide_mask d 3, decide_mask d 5, decide_mask d 7⟩
  intro byte
  simp only [byte, getLsbD_gather, List.any_cons, List.any_nil, hmask]
  fin_cases k <;> simp

theorem gather_bit : ∀ d : Byte, (gather 0 [(d, 0x80, 0x04), (d, 0x20, 0x02), (d, 0x08, 0x01)]).toNat < 8 ∧
    ∀ k : Fin 3, (gather 0 [(d, 0x80, 0x04), (d, 0x20, 0x02), (d, 0x08, 0x01)]).toNat.testBit k =
      d.getLsbD (2 * k + 3) := by
  decide

theorem col_bits : ∀ (c : Byte) (k : Fin 3) (side : Bool), (~~~c ||| 0x03).getLsbD (2 * k + 2 + side.toNat) =
    !c.getLsbD (if side then 2 * k + 3 else 2 * k + 2) := by
  decide

theorem spare_bits : ∀ (c : Byte) (j : Fin 2), (~~~c ||| 0x03).getLsbD j = true := by decide

section Source

variable (ecc : Fin 3 → Byte) (k : Nat) (side : Bool)

theorem bits_low (hk : k < 3) :
    bits ecc (.inl (⟨k, by omega⟩, side)) = (ecc 2).getLsbD (2 * k + 2 + side.toNat) := by
  have hside := side.toNat_le
  simp only [bits, source, if_pos hk, Fin.val_ofNat]
  rw [Nat.mod_eq_of_lt (by omega)]

theorem bits_mid (hk : k < 4) :
    bits ecc (.inl (⟨k + 3, by omega⟩, side)) = (ecc 0).getLsbD (2 * k + side.toNat) := by
  have hside := side.toNat_le
  simp only [bits, source, if_neg (show ¬ k + 3 < 3 by omega), if_pos (show k + 3 < 7 by omega), Fin.val_ofNat,
    Nat.add_sub_cancel]
  rw [Nat.mod_eq_of_lt (by omega)]

theorem bits_high (hk : k < 4) :
    bits ecc (.inl (⟨k + 7, by omega⟩, side)) = (ecc 1).getLsbD (2 * k + side.toNat) := by
  have hside := side.toNat_le
  simp only [bits, source, if_neg (show ¬ k + 7 < 3 by omega), if_neg (show ¬ k + 7 < 7 by omega), Fin.val_ofNat,
    Nat.add_sub_cancel]
  rw [Nat.mod_eq_of_lt (by omega)]

theorem bits_spare (j : Fin 2) : bits ecc (.inr j) = (ecc 2).getLsbD j := by
  simp only [bits, source, Fin.val_ofNat]
  rw [Nat.mod_eq_of_lt (by omega)]

theorem address_cases {P : Fin 11 → Prop} (low : ∀ k : Fin 3, P ⟨k, by omega⟩) (mid : ∀ k : Fin 4, P ⟨k + 3, by omega⟩)
    (high : ∀ k : Fin 4, P ⟨k + 7, by omega⟩) : ∀ k, P k := by
  rintro ⟨k, hk⟩
  by_cases h3 : k < 3
  · exact low ⟨k, h3⟩
  by_cases h7 : k < 7
  · obtain ⟨l, rfl⟩ := Nat.exists_eq_add_of_le' (Nat.not_lt.mp h3)
    exact mid ⟨l, by omega⟩
  · obtain ⟨l, rfl⟩ := Nat.exists_eq_add_of_le' (Nat.not_lt.mp h7)
    exact high ⟨l, by omega⟩

end Source

theorem bits_calc (data : Vector Byte 256) (k : Place 11 2) :
    bits (yaffsEccCalc data).get k = !((⟨0, 0, 0⟩ : Parities 8).loop 0 data.toList).bits k := by
  generalize hp : (⟨0, 0, 0⟩ : Parities 8).loop 0 data.toList = p
  simp only [yaffsEccCalc, hp]
  rcases k with ⟨k, side⟩ | j
  · revert k
    apply address_cases
    · intro k
      rw [bits_low _ _ _ k.isLt]
      exact (col_bits p.col k side).trans (by simp [Parities.bits])
    · intro k
      rw [bits_mid _ _ _ k.isLt]
      have hside := side.toNat_le
      refine (BitVec.getLsbD_not ..).trans ?_
      rw [decide_eq_true (by omega), Bool.true_and, low_sums, Parities.bits_line p (by omega)]
    · intro k
      rw [bits_high _ _ _ k.isLt]
      have hside := side.toNat_le
      refine (BitVec.getLsbD_not ..).trans ?_
      rw [decide_eq_true (by omega), Bool.true_and, high_sums]
      exact congrArg (!·) (Parities.bits_line p (k := k + 4) (by omega) side).symm
  · rw [bits_spare]
    exact (spare_bits p.col j).trans rfl

def delta (readEcc testEcc : Vector Byte 3) (b : Fin 3) : Byte := readEcc.get b ^^^ testEcc.get b

section Delta

variable (readEcc testEcc : Vector Byte 3)

theorem bits_delta (k : Place 11 2) : (bits readEcc.get k ^^ bits testEcc.get k) = bits (delta readEcc testEcc) k :=
  (BitVec.getLsbD_xor ..).symm

end Delta

variable (d : Fin 3 → Byte)

theorem eq_zero_iff : ∀ d : Byte, d = 0 ↔ ∀ j : Fin 8, d.getLsbD j = false := by decide

theorem bits_eq_false_iff : (∀ k, bits d k = false) ↔ d 0 ||| d 1 ||| d 2 = 0 := by
  have hall : (∀ k, bits d k = false) ↔ ∀ b, d b = 0 := by
    simp only [bits, eq_zero_iff]
    exact ⟨fun h b j => by simpa [source_place] using h (place (b, j)), fun h k => h _ _⟩
  rw [hall, Fin.forall_fin_succ, Fin.forall_fin_two]
  exact (and_assoc.symm.trans (and_congr BitVec.or_eq_zero_iff.symm Iff.rfl)).trans BitVec.or_eq_zero_iff.symm

theorem weight_bits : weight (bits d) = hweight8 (d 0) + hweight8 (d 1) + hweight8 (d 2) := by
  have hsum : weight (bits d) = ∑ p : Fin 3 × Fin 8, ((d p.1).getLsbD p.2).toNat :=
    Equiv.sum_comp sourceEquiv fun p => ((d p.1).getLsbD p.2).toNat
  rw [hsum, Fintype.sum_prod_type, Fin.sum_univ_three]
  simp only [hweight8_eq]

theorem pairs_iff : ∀ d : Byte, (d ^^^ (d >>> 1)) &&& 0x55 = 0x55 ↔
    ∀ k : Fin 4, d.getLsbD (2 * k) = !d.getLsbD (2 * k + 1) := by
  decide

theorem pairs_iff_high : ∀ d : Byte, (d ^^^ (d >>> 1)) &&& 0x54 = 0x54 ↔
    ∀ k : Fin 3, d.getLsbD (2 * k + 2) = !d.getLsbD (2 * k + 3) := by
  decide

theorem paired_iff : Paired (bits d) ↔ (d 0 ^^^ (d 0 >>> 1)) &&& 0x55 = 0x55 ∧
    (d 1 ^^^ (d 1 >>> 1)) &&& 0x55 = 0x55 ∧ (d 2 ^^^ (d 2 >>> 1)) &&& 0x54 = 0x54 := by
  rw [pairs_iff, pairs_iff, pairs_iff_high]
  constructor
  · intro h
    refine ⟨fun k => ?_, fun k => ?_, fun k => ?_⟩
    · have hk := h ⟨k + 3, by omega⟩
      rwa [bits_mid _ _ _ k.isLt, bits_mid _ _ _ k.isLt] at hk
    · have hk := h ⟨k + 7, by omega⟩
      rwa [bits_high _ _ _ k.isLt, bits_high _ _ _ k.isLt] at hk
    · have hk := h ⟨k, by omega⟩
      rwa [bits_low _ _ _ k.isLt, bits_low _ _ _ k.isLt] at hk
  · rintro ⟨hmid, hhigh, hlow⟩
    apply address_cases
    · intro k
      rw [bits_low _ _ _ k.isLt, bits_low _ _ _ k.isLt]
      exact hlow k
    · intro k
      rw [bits_mid _ _ _ k.isLt, bits_mid _ _ _ k.isLt]
      exact hmid k
    · intro k
      rw [bits_high _ _ _ k.isLt, bits_high _ _ _ k.isLt]
      exact hhigh k

theorem address_gather :
    let byte := gather 0 [(d 1, 0x80, 0x80), (d 1, 0x20, 0x40), (d 1, 0x08, 0x20), (d 1, 0x02, 0x10),
      (d 0, 0x80, 0x08), (d 0, 0x20, 0x04), (d 0, 0x08, 0x02), (d 0, 0x02, 0x01)]
    let bit := gather 0 [(d 2, 0x80, 0x04), (d 2, 0x20, 0x02), (d 2, 0x08, 0x01)]
    Parities.address byte (Fin.ofNat 8 bit.toNat) = fun k => bits d (.inl (k, true)) := by
  intro byte bit
  apply funext
  apply address_cases
  · intro k
    obtain ⟨hlt, hbit⟩ := gather_bit (d 2)
    rw [bits_low _ _ _ k.isLt, Parities.address, if_pos k.isLt, Fin.val_ofNat, Nat.mod_eq_of_lt hlt]
    exact hbit k
  · intro k
    rw [bits_mid _ _ _ k.isLt]
    exact (gather_byte (d 0) (d 1) k).1
  · intro k
    rw [bits_high _ _ _ k.isLt]
    exact (gather_byte (d 0) (d 1) k).2

theorem correct_eq (data : Vector Byte 256) (readEcc testEcc : Vector Byte 3) : yaffsEccCorrect data readEcc testEcc =
    (verdict fun k => bits readEcc.get k ^^ bits testEcc.get k).apply (fix 8) data readEcc testEcc := by
  have hdelta : (fun k => bits readEcc.get k ^^ bits testEcc.get k) = bits (delta readEcc testEcc) :=
    funext (bits_delta readEcc testEcc)
  have hget : readEcc[0] ^^^ testEcc[0] = delta readEcc testEcc 0 ∧ readEcc[1] ^^^ testEcc[1] = delta readEcc testEcc 1 ∧
      readEcc[2] ^^^ testEcc[2] = delta readEcc testEcc 2 := ⟨rfl, rfl, rfl⟩
  rw [hdelta, yaffsEccCorrect, hget.1, hget.2.1, hget.2.2, verdict]
  generalize delta readEcc testEcc = d
  simp only [bits_eq_false_iff, paired_iff, weight_bits]
  split_ifs
  · rfl
  · rw [Verdict.apply, ← address_gather, fix_toNat (Nat.le_refl _) (BitVec.isLt _) (gather_bit (d 2)).1]
  · rfl
  · rfl

abbrev Bit := Fin 256 × Fin 8 ⊕ Fin 3 × Fin 8

def turn : Bit → Vector Byte 256 × Vector Byte 3 → Vector Byte 256 × Vector Byte 3
  | .inl p, (data, ecc) => (turnBit data p.1 p.2, ecc)
  | .inr p, (data, ecc) => (data, turnBit ecc p.1 p.2)

def wrong : Bit → Wrong 11 2
  | .inl p => .data (Parities.address (BitVec.ofNat 8 p.1) p.2)
  | .inr p => .word (place p)

theorem wrong_inj : ∀ p q, wrong p = wrong q → p = q
  | .inl _, .inl _, h => congrArg Sum.inl (address_ofNat (Nat.le_refl _) (Wrong.data.inj h))
  | .inr _, .inr _, h => congrArg Sum.inr (sourceEquiv.symm.injective (Wrong.word.inj h))

theorem bits_calc_turnBit (data : Vector Byte 256) (p : Fin 256 × Fin 8) (k : Place 11 2) :
    bits (yaffsEccCalc (turnBit data p.1 p.2)).get k =
      (bits (yaffsEccCalc data).get k ^^ addressWord (Parities.address (BitVec.ofNat 8 p.1) p.2) k) := by
  have hlength : p.1.val < data.toList.length := by simp
  rw [bits_calc, bits_calc, toList_turnBit, Parities.loop_flipBit _ _ hlength, Parities.bits_add, Parities.bits_share,
    Nat.zero_add, Bool.not_xor]

theorem turn_bits (p : Bit) (stored : Vector Byte 256 × Vector Byte 3) (k : Place 11 2) :
    (bits (turn p stored).2.get k ^^ bits (yaffsEccCalc (turn p stored).1).get k) =
      ((bits stored.2.get k ^^ bits (yaffsEccCalc stored.1).get k) ^^ (wrong p).pattern k) := by
  cases p with
  | inl p => exact (congrArg (_ ^^ ·) (bits_calc_turnBit stored.1 p k)).trans (Bool.xor_assoc _ _ _).symm
  | inr p => exact (congrArg (· ^^ _) (bits_turnBit stored.2 p k)).trans (Bool.xor_right_comm _ _ _)

theorem turn_data (p : Bit) (a : Fin 11 → Bool) (stored : Vector Byte 256 × Vector Byte 3) (h : wrong p = .data a) :
    fix 8 a (turn p stored).1 = some stored.1 ∧ (turn p stored).2 = stored.2 := by
  cases p with
  | inl p =>
      cases h
      have hfix := fix_address (w := 8) (by decide) p (turnBit stored.1 p.1 p.2)
      rw [turnBit_turnBit] at hfix
      exact ⟨hfix, rfl⟩
  | inr p => cases h

theorem turn_word (p : Bit) (l : Place 11 2) (stored : Vector Byte 256 × Vector Byte 3) (h : wrong p = .word l) :
    (turn p stored).1 = stored.1 := by
  cases p with
  | inl p => cases h
  | inr p => rfl

noncomputable def code : PairCode 11 2 (Vector Byte 256) (Vector Byte 3) Bit where
  encode := yaffsEccCalc
  correct := yaffsEccCorrect
  turn := turn
  bits ecc := bits ecc.get
  fix := fix 8
  wrong := wrong
  wrong_inj := wrong_inj
  correct_eq := correct_eq
  turn_bits := turn_bits
  turn_data := turn_data
  turn_word := turn_word

/-- The two bits of the last byte that are set in every code. -/
def Bit.Unused : Bit → Prop
  | .inl _ => False
  | .inr p => p.1 = 2 ∧ p.2.val < 2

theorem spare_iff (p : Bit) : (wrong p).Spare ↔ p.Unused := by
  rcases p with p | ⟨b, j⟩
  · exact Iff.rfl
  · match b with
    | 0 => simp [wrong, place, Wrong.Spare, Bit.Unused]
    | 1 => simp [wrong, place, Wrong.Spare, Bit.Unused]
    | 2 =>
        rw [wrong, place]
        split_ifs with hj <;> simp [Wrong.Spare, Bit.Unused, hj]

end YaffsEcc

/-- One wrong bit among the 256 bytes and their code is put right, wherever it is; with two, unless one of
them is unused, nothing is changed and -1 says so. -/
theorem yaffsEccCorrect_secDed : SecDed yaffsEccCalc yaffsEccCorrect YaffsEcc.turn YaffsEcc.Bit.Unused := by
  have hspare : (fun p => (YaffsEcc.wrong p).Spare) = YaffsEcc.Bit.Unused :=
    funext fun p => propext (YaffsEcc.spare_iff p)
  exact hspare ▸ YaffsEcc.code.secDed (by decide)

namespace YaffsEccOther

abbrev Spot := Fin 8 ⊕ Fin 32 ⊕ Fin 32

def source : Place 35 2 → Spot
  | .inl (k, side) =>
      if k.val < 3 then .inl (@Fin.ofNat 8 YaffsEcc.bit_neZero (2 * k + side.toNat))
      else if side then .inr (.inl (Fin.ofNat 32 (k - 3))) else .inr (.inr (Fin.ofNat 32 (k - 3)))
  | .inr j => .inl (@Fin.ofNat 8 YaffsEcc.bit_neZero (j + 6))

def place : Spot → Place 35 2
  | .inl j => if j.val < 6 then .inl (Fin.ofNat 35 (j / 2), j.val % 2 == 1) else .inr (Fin.ofNat 2 (j - 6))
  | .inr (.inl j) => .inl (Fin.ofNat 35 (j + 3), true)
  | .inr (.inr j) => .inl (Fin.ofNat 35 (j + 3), false)

theorem place_source : ∀ k, place (source k) = k := by decide

theorem source_place : ∀ p, source (place p) = p := by decide

def sourceEquiv : Place 35 2 ≃ Spot := ⟨source, place, place_source, source_place⟩

def get (ecc : YaffsEccOther) : Spot → Bool
  | .inl j => ecc.colParity.getLsbD j
  | .inr (.inl j) => ecc.lineParity.getLsbD j
  | .inr (.inr j) => ecc.lineParityPrime.getLsbD j

def bits (ecc : YaffsEccOther) (k : Place 35 2) : Bool := ecc.get (source k)

def turnBit (ecc : YaffsEccOther) : Spot → YaffsEccOther
  | .inl j => { ecc with colParity := ecc.colParity ^^^ BitVec.twoPow 8 j }
  | .inr (.inl j) => { ecc with lineParity := ecc.lineParity ^^^ BitVec.twoPow 32 j }
  | .inr (.inr j) => { ecc with lineParityPrime := ecc.lineParityPrime ^^^ BitVec.twoPow 32 j }

theorem get_turnBit (ecc : YaffsEccOther) (p q : Spot) : (ecc.turnBit p).get q = (ecc.get q ^^ decide (q = p)) := by
  rcases p with p | p | p <;> rcases q with q | q | q <;> simp [turnBit, get, Fin.ext_iff]

theorem bits_turnBit (ecc : YaffsEccOther) (p : Spot) (k : Place 35 2) :
    (ecc.turnBit p).bits k = (ecc.bits k ^^ toggle (fun _ => false) (place p) k) := by
  have hplace : source k = p ↔ k = place p := (sourceEquiv.eq_symm_apply).symm
  rw [bits, get_turnBit]
  simp [toggle, bits, hplace]

def delta (readEcc testEcc : YaffsEccOther) : YaffsEccOther :=
  ⟨readEcc.colParity ^^^ testEcc.colParity, readEcc.lineParity ^^^ testEcc.lineParity,
    readEcc.lineParityPrime ^^^ testEcc.lineParityPrime⟩

theorem bits_delta (readEcc testEcc : YaffsEccOther) (k : Place 35 2) :
    (readEcc.bits k ^^ testEcc.bits k) = (delta readEcc testEcc).bits k := by
  rw [bits, bits, bits]
  rcases source k with j | j | j <;> simp [get, delta]

section Source

variable (ecc : YaffsEccOther) (k : Nat) (side : Bool)

theorem bits_low (hk : k < 3) : ecc.bits (.inl (⟨k, by omega⟩, side)) = ecc.colParity.getLsbD (2 * k + side.toNat) := by
  have hside := side.toNat_le
  simp only [bits, source, if_pos hk, get, Fin.val_ofNat]
  rw [Nat.mod_eq_of_lt (by omega)]

theorem bits_line (hk : k < 32) : ecc.bits (.inl (⟨k + 3, by omega⟩, side)) =
    (if side then ecc.lineParity else ecc.lineParityPrime).getLsbD k := by
  simp only [bits, source, if_neg (show ¬ k + 3 < 3 by omega), Nat.add_sub_cancel]
  cases side
  · rw [if_neg Bool.false_ne_true, if_neg Bool.false_ne_true, get, Fin.val_ofNat, Nat.mod_eq_of_lt hk]
  · rw [if_pos rfl, if_pos rfl, get, Fin.val_ofNat, Nat.mod_eq_of_lt hk]

theorem address_cases {P : Fin 35 → Prop} (low : ∀ k : Fin 3, P ⟨k, by omega⟩)
    (line : ∀ k : Fin 32, P ⟨k + 3, by omega⟩) : ∀ k, P k := by
  rintro ⟨k, hk⟩
  by_cases h3 : k < 3
  · exact low ⟨k, h3⟩
  · obtain ⟨l, rfl⟩ := Nat.exists_eq_add_of_le' (Nat.not_lt.mp h3)
    exact line ⟨l, by omega⟩

end Source

section Delta

variable (d : YaffsEccOther)

theorem bits_eq_false_iff : (∀ k, d.bits k = false) ↔
    d.colParity.setWidth 32 ||| d.lineParity ||| d.lineParityPrime = 0 := by
  have hall : (∀ k, d.bits k = false) ↔ ∀ p, d.get p = false :=
    ⟨fun h p => by simpa [bits, source_place] using h (place p), fun h k => h _⟩
  have hcol : d.colParity.setWidth 32 = 0 ↔ ∀ j : Fin 8, d.colParity.getLsbD j = false := by
    rw [← YaffsEcc.eq_zero_iff]
    refine ⟨fun h => BitVec.eq_of_toNat_eq ?_, fun h => by rw [h]; rfl⟩
    have hval := congrArg BitVec.toNat h
    rwa [BitVec.toNat_setWidth, Nat.mod_eq_of_lt (by omega)] at hval
  have hline : ∀ x : BitVec 32, x = 0 ↔ ∀ j : Fin 32, x.getLsbD j = false := fun x =>
    ⟨fun h j => by rw [h]; simp, fun h => BitVec.eq_of_getLsbD_eq fun j hj => by simpa using h ⟨j, hj⟩⟩
  rw [hall, Sum.forall, Sum.forall]
  refine ((and_congr hcol.symm (and_congr (hline _).symm (hline _).symm)).trans and_assoc.symm).trans ?_
  exact (and_congr BitVec.or_eq_zero_iff.symm Iff.rfl).trans BitVec.or_eq_zero_iff.symm

theorem weight_bits :
    weight d.bits = hweight32 d.lineParity + hweight32 d.lineParityPrime + hweight8 d.colParity := by
  have hsum : weight d.bits = ∑ p, (d.get p).toNat := Equiv.sum_comp sourceEquiv fun p => (d.get p).toNat
  rw [hsum, Fintype.sum_sum_type, Fintype.sum_sum_type, hweight8_eq, hweight32_eq, hweight32_eq]
  exact Nat.add_comm _ _

theorem pairs_iff : ∀ d : Byte, (d ^^^ (d >>> 1)) &&& 0x15 = 0x15 ↔
    ∀ k : Fin 3, d.getLsbD (2 * k) = !d.getLsbD (2 * k + 1) := by
  decide

theorem paired_iff : Paired d.bits ↔ d.lineParity = ~~~d.lineParityPrime ∧
    (d.colParity ^^^ (d.colParity >>> 1)) &&& 0x15 = 0x15 := by
  have hline : d.lineParity = ~~~d.lineParityPrime ↔
      ∀ k : Fin 32, d.lineParityPrime.getLsbD k = !d.lineParity.getLsbD k := by
    constructor
    · intro h k
      rw [h, BitVec.getLsbD_not, decide_eq_true k.isLt, Bool.true_and, Bool.not_not]
    · intro h
      refine BitVec.eq_of_getLsbD_eq fun k hk => ?_
      rw [BitVec.getLsbD_not, decide_eq_true hk, Bool.true_and, h ⟨k, hk⟩, Bool.not_not]
  rw [hline, pairs_iff]
  constructor
  · intro h
    refine ⟨fun k => ?_, fun k => ?_⟩
    · have hk := h ⟨k + 3, by omega⟩
      rwa [bits_line _ _ _ k.isLt, bits_line _ _ _ k.isLt] at hk
    · have hk := h ⟨k, by omega⟩
      rwa [bits_low _ _ _ k.isLt, bits_low _ _ _ k.isLt] at hk
  · rintro ⟨hline, hlow⟩
    apply address_cases
    · intro k
      rw [bits_low _ _ _ k.isLt, bits_low _ _ _ k.isLt]
      exact hlow k
    · intro k
      rw [bits_line _ _ _ k.isLt, bits_line _ _ _ k.isLt]
      exact hline k

theorem gather_bit : ∀ d : Byte, (gather 0 [(d, 0x20, 0x04), (d, 0x08, 0x02), (d, 0x02, 0x01)]).toNat < 8 ∧
    ∀ k : Fin 3, (gather 0 [(d, 0x20, 0x04), (d, 0x08, 0x02), (d, 0x02, 0x01)]).toNat.testBit k =
      d.getLsbD (2 * k + 1) := by
  decide

theorem address_gather :
    let bit := gather 0 [(d.colParity, 0x20, 0x04), (d.colParity, 0x08, 0x02), (d.colParity, 0x02, 0x01)]
    Parities.address d.lineParity (Fin.ofNat 8 bit.toNat) = fun k => d.bits (.inl (k, true)) := by
  intro bit
  apply funext
  apply address_cases
  · intro k
    obtain ⟨hlt, hbit⟩ := gather_bit d.colParity
    rw [bits_low _ _ _ k.isLt, Parities.address, if_pos k.isLt, Fin.val_ofNat, Nat.mod_eq_of_lt hlt]
    exact hbit k
  · intro k
    rw [bits_line _ _ _ k.isLt]
    rfl

end Delta

variable {nBytes : BitVec 32}

theorem shifted_bits : ∀ (c : Byte) (k : Fin 3) (side : Bool), ((c >>> 2) &&& 0x3f).getLsbD (2 * k + side.toNat) =
    c.getLsbD (if side then 2 * k + 3 else 2 * k + 2) := by
  decide

theorem spare_bits : ∀ (c : Byte) (j : Fin 2), ((c >>> 2) &&& 0x3f).getLsbD (j + 6) = false := by decide

theorem bits_calc (data : Vector Byte nBytes.toNat) (k : Place 35 2) :
    (yaffsEccCalcOther nBytes data).bits k = ((⟨0, 0, 0⟩ : Parities 32).loop 0 data.toList).bits k := by
  generalize hp : (⟨0, 0, 0⟩ : Parities 32).loop 0 data.toList = p
  simp only [yaffsEccCalcOther, hp]
  rcases k with ⟨k, side⟩ | j
  · revert k
    apply address_cases
    · intro k
      rw [bits_low _ _ _ k.isLt]
      exact (shifted_bits p.col k side).trans (by simp [Parities.bits])
    · intro k
      rw [bits_line _ _ _ k.isLt, Parities.bits_line p k.isLt]
  · simp only [bits, source, get, Fin.val_ofNat]
    rw [Nat.mod_eq_of_lt (by omega)]
    exact spare_bits p.col j

theorem correct_eq (data : Vector Byte nBytes.toNat) (readEcc testEcc : YaffsEccOther) :
    yaffsEccCorrectOther nBytes data readEcc testEcc =
      (verdict fun k => readEcc.bits k ^^ testEcc.bits k).apply (fix 32) data readEcc testEcc := by
  have hdelta : (fun k => readEcc.bits k ^^ testEcc.bits k) = (delta readEcc testEcc).bits :=
    funext (bits_delta readEcc testEcc)
  have hcol : readEcc.colParity ^^^ testEcc.colParity = (delta readEcc testEcc).colParity := rfl
  have hline : readEcc.lineParity ^^^ testEcc.lineParity = (delta readEcc testEcc).lineParity := rfl
  have hprime : readEcc.lineParityPrime ^^^ testEcc.lineParityPrime = (delta readEcc testEcc).lineParityPrime := rfl
  rw [hdelta, yaffsEccCorrectOther, hcol, hline, hprime, verdict]
  generalize delta readEcc testEcc = d
  have hn : nBytes.toNat ≤ 2 ^ 32 := nBytes.isLt.le
  simp only [bits_eq_false_iff, paired_iff, weight_bits]
  split_ifs with _ _ hbyte
  · rfl
  · rw [Verdict.apply, ← address_gather, fix_outside (BitVec.le_def.mp hbyte) hn]
  · rw [Verdict.apply, ← address_gather, fix_toNat hn (Nat.lt_of_not_le hbyte) (gather_bit d.colParity).1]
  · rfl
  · rfl

abbrev Bit (nBytes : BitVec 32) := Fin nBytes.toNat × Fin 8 ⊕ Spot

def turn : Bit nBytes → Vector Byte nBytes.toNat × YaffsEccOther → Vector Byte nBytes.toNat × YaffsEccOther
  | .inl p, (data, ecc) => (Yaffs.turnBit data p.1 p.2, ecc)
  | .inr p, (data, ecc) => (data, ecc.turnBit p)

def wrong : Bit nBytes → Wrong 35 2
  | .inl p => .data (Parities.address (BitVec.ofNat 32 p.1) p.2)
  | .inr p => .word (place p)

theorem wrong_inj : ∀ p q : Bit nBytes, wrong p = wrong q → p = q
  | .inl _, .inl _, h => congrArg Sum.inl (address_ofNat nBytes.isLt.le (Wrong.data.inj h))
  | .inr _, .inr _, h => congrArg Sum.inr (sourceEquiv.symm.injective (Wrong.word.inj h))

theorem bits_calc_turnBit (data : Vector Byte nBytes.toNat) (p : Fin nBytes.toNat × Fin 8) (k : Place 35 2) :
    (yaffsEccCalcOther nBytes (Yaffs.turnBit data p.1 p.2)).bits k =
      ((yaffsEccCalcOther nBytes data).bits k ^^ addressWord (Parities.address (BitVec.ofNat 32 p.1) p.2) k) := by
  have hlength : p.1.val < data.toList.length := by simp
  rw [bits_calc, bits_calc, toList_turnBit, Parities.loop_flipBit _ _ hlength, Parities.bits_add, Parities.bits_share,
    Nat.zero_add]

theorem turn_bits (p : Bit nBytes) (stored : Vector Byte nBytes.toNat × YaffsEccOther) (k : Place 35 2) :
    ((turn p stored).2.bits k ^^ (yaffsEccCalcOther nBytes (turn p stored).1).bits k) =
      ((stored.2.bits k ^^ (yaffsEccCalcOther nBytes stored.1).bits k) ^^ (wrong p).pattern k) := by
  cases p with
  | inl p => exact (congrArg (_ ^^ ·) (bits_calc_turnBit stored.1 p k)).trans (Bool.xor_assoc _ _ _).symm
  | inr p => exact (congrArg (· ^^ _) (bits_turnBit stored.2 p k)).trans (Bool.xor_right_comm _ _ _)

theorem turn_data (p : Bit nBytes) (a : Fin 35 → Bool) (stored : Vector Byte nBytes.toNat × YaffsEccOther)
    (h : wrong p = .data a) : fix 32 a (turn p stored).1 = some stored.1 ∧ (turn p stored).2 = stored.2 := by
  cases p with
  | inl p =>
      cases h
      have hfix := fix_address nBytes.isLt.le p (Yaffs.turnBit stored.1 p.1 p.2)
      rw [turnBit_turnBit] at hfix
      exact ⟨hfix, rfl⟩
  | inr p => cases h

theorem turn_word (p : Bit nBytes) (l : Place 35 2) (stored : Vector Byte nBytes.toNat × YaffsEccOther)
    (h : wrong p = .word l) : (turn p stored).1 = stored.1 := by
  cases p with
  | inl p => cases h
  | inr p => rfl

noncomputable def code (nBytes : BitVec 32) :
    PairCode 35 2 (Vector Byte nBytes.toNat) YaffsEccOther (Bit nBytes) where
  encode := yaffsEccCalcOther nBytes
  correct := yaffsEccCorrectOther nBytes
  turn := turn
  bits := bits
  fix := fix 32
  wrong := wrong
  wrong_inj := wrong_inj
  correct_eq := correct_eq
  turn_bits := turn_bits
  turn_data := turn_data
  turn_word := turn_word

/-- The two top bits of the column parity, which no code has set. -/
def Bit.Unused : Bit nBytes → Prop
  | .inr (.inl j) => 6 ≤ j.val
  | _ => False

theorem spare_iff (p : Bit nBytes) : (wrong p).Spare ↔ p.Unused := by
  rcases p with p | j | j | j
  · exact Iff.rfl
  · rw [wrong, place]
    split_ifs with hj
    · exact iff_of_false id (Nat.not_le_of_lt hj)
    · exact iff_of_true trivial (Nat.le_of_not_lt hj)
  · exact Iff.rfl
  · exact Iff.rfl

end YaffsEccOther

theorem yaffsEccCorrectOther_secDed (nBytes : BitVec 32) :
    SecDed (yaffsEccCalcOther nBytes) (yaffsEccCorrectOther nBytes) YaffsEccOther.turn YaffsEccOther.Bit.Unused := by
  have hspare : (fun p : YaffsEccOther.Bit nBytes => (YaffsEccOther.wrong p).Spare) = YaffsEccOther.Bit.Unused :=
    funext fun p => propext (YaffsEccOther.spare_iff p)
  exact hspare ▸ (YaffsEccOther.code nBytes).secDed (by decide)

end Fl2440.Yaffs
