import Mathlib.Algebra.BigOperators.Fin
import Mathlib.Algebra.Group.Nat.Defs
import Fl2440.Lib.PackedWords

/-! `yaffs_guts.c`: the trees of tnodes. A tnode of level 0 has a field for each of 16 chunks of a
file, the others point to tnodes of the level below. -/
namespace Fl2440.Yaffs

open Fl2440.Lib

def YAFFS_NTNODES_LEVEL0 : Nat := 16

def YAFFS_NTNODES_INTERNAL : Nat := 8

def YAFFS_TNODES_MAX_LEVEL : Nat := 8

def YAFFS_MAX_CHUNK_ID : Nat := 2 ^ 28 - 1

/-- The fields of the device by which a tnode of level 0 is laid out. -/
structure TnodeLayout where
  tnodeWidth : Nat
  chunkGrpBits : Nat
  le_width : 16 ≤ tnodeWidth
  width_even : tnodeWidth % 2 = 0
  bits_lt : tnodeWidth + chunkGrpBits < 32

namespace TnodeLayout

def tnodeMask (g : TnodeLayout) : BitVec 32 := 1#32 <<< g.tnodeWidth - 1#32

def tnodeSize (g : TnodeLayout) : Nat :=
  let size := g.tnodeWidth * YAFFS_NTNODES_LEVEL0 / 8
  if size < 4 * YAFFS_NTNODES_INTERNAL then 4 * YAFFS_NTNODES_INTERNAL else size

def words (g : TnodeLayout) : Nat := g.tnodeSize / 4

def chunkGrpSize (g : TnodeLayout) : Nat := 2 ^ g.chunkGrpBits

theorem tnodeSize_eq (g : TnodeLayout) : g.tnodeSize = 2 * g.tnodeWidth := by
  have := g.le_width
  rw [tnodeSize, YAFFS_NTNODES_LEVEL0, YAFFS_NTNODES_INTERNAL]
  have hfits : ¬ g.tnodeWidth * 16 / 8 < 4 * 8 := by omega
  exact (if_neg hfits).trans (by omega)

theorem words_fill (g : TnodeLayout) : 32 * g.words = 16 * g.tnodeWidth := by
  have := g.width_even
  rw [words, tnodeSize_eq]
  omega

theorem four_mul_words (g : TnodeLayout) : 4 * g.words = g.tnodeSize := by
  have := g.words_fill
  rw [tnodeSize_eq]
  omega

end TnodeLayout

/-- The loop of `calc_shifts_ceiling`: `shifts` and `extra_bits`. -/
def calcShiftsLoop (x shifts extraBits : Nat) : Nat × Nat :=
  if 1 < x then calcShiftsLoop (x >>> 1) (shifts + 1) (if x &&& 1 ≠ 0 then extraBits + 1 else extraBits)
  else (shifts, extraBits)
termination_by x
decreasing_by
  rw [Nat.shiftRight_one]
  omega

def calcShiftsCeiling (x : Nat) : Nat :=
  let r := calcShiftsLoop x 0 0
  if r.2 ≠ 0 then r.1 + 1 else r.1

abbrev Leaf (g : TnodeLayout) : Type := Vector (BitVec 32) g.words

def Tnode (g : TnodeLayout) : Nat → Type
  | 0 => Leaf g
  | l + 1 => Fin 8 → Option (Tnode g l)

theorem calcShiftsLoop_spec (x shifts extraBits : Nat) (hx : 0 < x) :
    ∃ s e, calcShiftsLoop x shifts extraBits = (shifts + s, extraBits + e) ∧ 2 ^ s ≤ x ∧ x < 2 ^ (s + 1) ∧
      (e = 0 → x = 2 ^ s) := by
  induction x using Nat.strongRecOn generalizing shifts extraBits with
  | ind x ih =>
      rw [calcShiftsLoop]
      split_ifs with h hodd
      · rw [Nat.shiftRight_one]
        obtain ⟨s, e, hloop, hle, hlt, -⟩ := ih (x / 2) (by omega) (shifts + 1) (extraBits + 1) (by omega)
        refine ⟨s + 1, e + 1, ?_, ?_, ?_, nofun⟩
        · rw [hloop, Nat.add_assoc, Nat.add_comm 1 s, Nat.add_assoc, Nat.add_comm 1 e]
        · rw [Nat.pow_succ]
          omega
        · rw [Nat.pow_succ]
          omega
      · rw [Nat.shiftRight_one]
        obtain ⟨s, e, hloop, hle, hlt, hexact⟩ := ih (x / 2) (by omega) (shifts + 1) extraBits (by omega)
        have heven : x % 2 = 0 := by rwa [Nat.and_one_is_mod, ne_eq, not_not] at hodd
        refine ⟨s + 1, e, ?_, ?_, ?_, fun he => ?_⟩
        · rw [hloop, Nat.add_assoc, Nat.add_comm 1 s]
        · rw [Nat.pow_succ]
          omega
        · rw [Nat.pow_succ]
          omega
        · have := hexact he
          rw [Nat.pow_succ]
          omega
      · exact ⟨0, 0, rfl, by omega, by omega, fun _ => by omega⟩

/-- `calc_shifts_ceiling` gives a power of two that is large enough, and none that is needlessly large. -/
theorem calcShiftsCeiling_spec {x n : Nat} (hx : 0 < x) (hn : x < 2 ^ n) :
    x ≤ 2 ^ calcShiftsCeiling x ∧ calcShiftsCeiling x ≤ n := by
  obtain ⟨s, e, hloop, hle, hlt, hexact⟩ := calcShiftsLoop_spec x 0 0 hx
  have hs : s < n := (Nat.pow_lt_pow_iff_right (by decide)).mp (Nat.lt_of_le_of_lt hle hn)
  rw [calcShiftsCeiling, hloop]
  simp only [Nat.zero_add]
  split_ifs with he
  · exact ⟨Nat.le_of_lt hlt, hs⟩
  · exact ⟨Nat.le_of_eq (hexact (not_not.mp he)), Nat.le_of_lt hs⟩

namespace TnodeLayout

/-- `bits` in `yaffs_guts_initialise`, made even where tnodes may be wide. -/
def deviceBits (chunks : Nat) (wideTnodesDisabled : Bool) : Nat :=
  let bits := calcShiftsCeiling chunks
  if !wideTnodesDisabled && bits % 2 = 1 then bits + 1 else bits

def deviceWidth (chunks : Nat) (wideTnodesDisabled : Bool) : Nat :=
  if !wideTnodesDisabled then if deviceBits chunks wideTnodesDisabled < 16 then 16 else deviceBits chunks wideTnodesDisabled
  else 16

def deviceGrpBits (chunks : Nat) (wideTnodesDisabled : Bool) : Nat :=
  let bits := deviceBits chunks wideTnodesDisabled
  let width := deviceWidth chunks wideTnodesDisabled
  if bits ≤ width then 0 else bits - width

variable {chunks : Nat}

theorem deviceBits_le (h0 : 0 < chunks) (h : chunks < 2 ^ 30) (wideTnodesDisabled : Bool) :
    deviceBits chunks wideTnodesDisabled ≤ 30 := by
  have := (calcShiftsCeiling_spec h0 h).2
  rw [deviceBits]
  split_ifs with hodd
  · rw [Bool.and_eq_true, decide_eq_true_eq] at hodd
    omega
  · exact this

theorem le_deviceWidth (chunks : Nat) (wideTnodesDisabled : Bool) : 16 ≤ deviceWidth chunks wideTnodesDisabled := by
  rw [deviceWidth]
  split_ifs <;> omega

theorem deviceWidth_even (chunks : Nat) (wideTnodesDisabled : Bool) :
    deviceWidth chunks wideTnodesDisabled % 2 = 0 := by
  rw [deviceWidth]
  split_ifs with hwide hsmall
  · rfl
  · rw [deviceBits, hwide, Bool.true_and]
    simp only [decide_eq_true_eq]
    split_ifs <;> omega
  · rfl

theorem deviceBits_lt (h0 : 0 < chunks) (h : chunks < 2 ^ 30) (wideTnodesDisabled : Bool) :
    deviceWidth chunks wideTnodesDisabled + deviceGrpBits chunks wideTnodesDisabled < 32 := by
  have := deviceBits_le h0 h wideTnodesDisabled
  rw [deviceGrpBits]
  split_ifs with hfit
  · rw [deviceWidth]
    split_ifs <;> omega
  · omega

/-- What `yaffs_guts_initialise` sets for a device of so many chunks. -/
def ofDevice (chunks : Nat) (wideTnodesDisabled : Bool) (h0 : 0 < chunks) (h : chunks < 2 ^ 30) : TnodeLayout where
  tnodeWidth := deviceWidth chunks wideTnodesDisabled
  chunkGrpBits := deviceGrpBits chunks wideTnodesDisabled
  le_width := le_deviceWidth chunks wideTnodesDisabled
  width_even := deviceWidth_even chunks wideTnodesDisabled
  bits_lt := deviceBits_lt h0 h wideTnodesDisabled

/-- The number of every chunk of the device goes into a field, but for the bits of its group. -/
theorem chunks_le (h0 : 0 < chunks) (h : chunks < 2 ^ 30) (wideTnodesDisabled : Bool) :
    chunks ≤ 2 ^ ((ofDevice chunks wideTnodesDisabled h0 h).tnodeWidth +
      (ofDevice chunks wideTnodesDisabled h0 h).chunkGrpBits) := by
  have hceil := (calcShiftsCeiling_spec h0 h).1
  refine hceil.trans (Nat.pow_le_pow_right (by decide) ?_)
  have hbits : calcShiftsCeiling chunks ≤ deviceBits chunks wideTnodesDisabled := by
    rw [deviceBits]
    split_ifs <;> omega
  show _ ≤ deviceWidth chunks wideTnodesDisabled + deviceGrpBits chunks wideTnodesDisabled
  rw [deviceGrpBits]
  split_ifs <;> omega

theorem grouped_even : 16 % 2 = 0 := rfl

theorem grouped_bits : 16 + 1 < 32 := by decide

/-- For a device of `2 ^ 17` chunks where tnodes may not be wide: a chunk is found in a group of two. -/
def grouped : TnodeLayout := ⟨16, 1, Nat.le_refl 16, grouped_even, grouped_bits⟩

end TnodeLayout

variable {g : TnodeLayout} {l : Nat}

/-- A tnode of level 0 taken as an array of words, and back. -/
def Tnode.map (tn : Tnode g 0) : Leaf g := tn

def Tnode.ofMap (map : Leaf g) : Tnode g 0 := map

def Tnode.internal (tn : Tnode g (l + 1)) : Fin 8 → Option (Tnode g l) := tn

def Tnode.setInternal (tn : Tnode g (l + 1)) (x : Fin 8) (child : Option (Tnode g l)) : Tnode g (l + 1) :=
  fun y => if y = x then child else tn.internal y

def yaffsLoadTnode0 (map : Leaf g) (pos : Nat) (val : BitVec 32) : Leaf g :=
  let pos := pos &&& 0xf
  let val := val >>> g.chunkGrpBits
  let bitInMap := pos * g.tnodeWidth
  let wordInMap := bitInMap / 32
  let bitInWord := bitInMap % 32
  let mask := g.tnodeMask <<< bitInWord
  let map := map.setIfInBounds wordInMap
    (map[wordInMap]?.getD 0#32 &&& ~~~mask ||| mask &&& (val <<< bitInWord))
  if g.tnodeWidth > 32 - bitInWord then
    let bitInWord := 32 - bitInWord
    let wordInMap := wordInMap + 1
    let mask := g.tnodeMask >>> bitInWord
    map.setIfInBounds wordInMap (map[wordInMap]?.getD 0#32 &&& ~~~mask ||| mask &&& (val >>> bitInWord))
  else map

def yaffsGetGroupBase (map : Leaf g) (pos : Nat) : BitVec 32 :=
  let pos := pos &&& 0xf
  let bitInMap := pos * g.tnodeWidth
  let wordInMap := bitInMap / 32
  let bitInWord := bitInMap % 32
  let val := map[wordInMap]?.getD 0#32 >>> bitInWord
  let val :=
    if g.tnodeWidth > 32 - bitInWord then val ||| map[wordInMap + 1]?.getD 0#32 <<< (32 - bitInWord) else val
  (val &&& g.tnodeMask) <<< g.chunkGrpBits

theorem yaffsLoadTnode0_eq (map : Leaf g) (pos : Nat) (val : BitVec 32) :
    yaffsLoadTnode0 map pos val =
      PackedWords.store g.tnodeWidth map ((pos &&& 0xf) * g.tnodeWidth) (val >>> g.chunkGrpBits) := rfl

theorem yaffsGetGroupBase_eq (map : Leaf g) (pos : Nat) :
    yaffsGetGroupBase map pos =
      PackedWords.load g.tnodeWidth map ((pos &&& 0xf) * g.tnodeWidth) <<< g.chunkGrpBits := rfl

/-- What is left of the number of a chunk in the field. -/
def TnodeLayout.groupBase (g : TnodeLayout) (chunk : BitVec 32) : BitVec 32 :=
  (chunk >>> g.chunkGrpBits &&& g.tnodeMask) <<< g.chunkGrpBits

theorem groupBase_toNat {chunk : Nat} (h : chunk < 2 ^ (g.tnodeWidth + g.chunkGrpBits)) :
    (g.groupBase (BitVec.ofNat 32 chunk)).toNat = chunk / g.chunkGrpSize * g.chunkGrpSize := by
  have hbits := g.bits_lt
  have hword : 2 ^ (g.tnodeWidth + g.chunkGrpBits) ≤ 2 ^ 32 := Nat.pow_le_pow_right (by decide) (Nat.le_of_lt hbits)
  have hmask : g.tnodeMask.toNat = 2 ^ g.tnodeWidth - 1 := PackedWords.toNat_mask (by omega)
  have hquot : chunk / 2 ^ g.chunkGrpBits < 2 ^ g.tnodeWidth := by
    rw [Nat.pow_add] at h
    exact Nat.div_lt_of_lt_mul (by rwa [Nat.mul_comm])
  have hback : chunk / 2 ^ g.chunkGrpBits * 2 ^ g.chunkGrpBits ≤ chunk := Nat.div_mul_le_self ..
  rw [TnodeLayout.groupBase, BitVec.toNat_shiftLeft, BitVec.toNat_and, BitVec.toNat_ushiftRight, BitVec.toNat_ofNat,
    Nat.mod_eq_of_lt (Nat.lt_of_lt_of_le h hword), hmask, Nat.and_two_pow_sub_one_eq_mod, Nat.shiftRight_eq_div_pow,
    Nat.mod_eq_of_lt hquot, Nat.shiftLeft_eq, Nat.mod_eq_of_lt (by omega), TnodeLayout.chunkGrpSize]

theorem field_end (pos : Nat) : (pos &&& 0xf) * g.tnodeWidth + g.tnodeWidth ≤ 32 * g.words := by
  have hpos : pos &&& 0xf < 16 := Nat.lt_of_le_of_lt Nat.and_le_right (by decide)
  rw [g.words_fill, ← Nat.succ_mul]
  exact Nat.mul_le_mul_right _ hpos

theorem getGroupBase_load_self (map : Leaf g) (pos : Nat) (val : BitVec 32) :
    yaffsGetGroupBase (yaffsLoadTnode0 map pos val) pos = g.groupBase val := by
  have := g.le_width
  have := g.bits_lt
  rw [yaffsGetGroupBase_eq, yaffsLoadTnode0_eq,
    PackedWords.load_store_self (by decide) (by omega) (by omega) (field_end pos)]
  rfl

theorem getGroupBase_load_of_ne (map : Leaf g) {pos other : Nat} (hne : pos % 16 ≠ other % 16) (val : BitVec 32) :
    yaffsGetGroupBase (yaffsLoadTnode0 map pos val) other = yaffsGetGroupBase map other := by
  have := g.le_width
  have := g.bits_lt
  have hmod : ∀ i, i &&& 0xf = i % 16 := fun i => Nat.and_two_pow_sub_one_eq_mod i 4
  rw [yaffsGetGroupBase_eq, yaffsLoadTnode0_eq, PackedWords.load_store_of_disjoint (by decide) (by omega) (by omega)
    (field_end pos)]
  · rfl
  · rw [hmod, hmod, ← Nat.succ_mul, ← Nat.succ_mul]
    rcases Nat.lt_or_gt_of_ne hne with h | h
    · exact .inr (Nat.mul_le_mul_right _ h)
    · exact .inl (Nat.mul_le_mul_right _ h)

/-! ### The tnodes of a device -/

/-- `n_tnodes`, and the tnodes that the allocator still has. -/
structure TnodePool where
  nTnodes : Int
  avail : Nat

def Leaf.zero (g : TnodeLayout) : Leaf g := Vector.replicate g.words 0#32

def Tnode.zero (g : TnodeLayout) : (l : Nat) → Tnode g l
  | 0 => Tnode.ofMap (Leaf.zero g)
  | _ + 1 => fun _ => none

def yaffsGetTnode (l : Nat) (pool : TnodePool) : Option (Tnode g l × TnodePool) :=
  if pool.avail = 0 then none else some (Tnode.zero g l, ⟨pool.nTnodes + 1, pool.avail - 1⟩)

def yaffsFreeTnode (pool : TnodePool) : TnodePool := ⟨pool.nTnodes - 1, pool.avail + 1⟩

structure FileVar (g : TnodeLayout) where
  topLevel : Nat
  top : Option (Tnode g topLevel)

def requiredDepth (i : Nat) : Nat := if i = 0 then 0 else requiredDepth (i >>> 3) + 1
decreasing_by
  rw [Nat.shiftRight_eq_div_pow]
  exact Nat.div_lt_self (Nat.pos_of_ne_zero ‹_›) (by decide)

theorem slots_neZero : NeZero 8 := ⟨by decide⟩

/-- Where a tnode of level `l + 1` points for a chunk. -/
def slot (l chunkId : Nat) : Fin 8 := @Fin.ofNat 8 slots_neZero (chunkId >>> (4 + l * 3))

def traverse (chunkId : Nat) : (l : Nat) → Tnode g l → Option (Leaf g)
  | 0, tn => some tn.map
  | l + 1, tn => (tn.internal (slot l chunkId)).bind (traverse chunkId l)

def yaffsFindTnode0 (file : FileVar g) (chunkId : Nat) : Option (Leaf g) :=
  if file.topLevel > YAFFS_TNODES_MAX_LEVEL then none
  else if chunkId > YAFFS_MAX_CHUNK_ID then none
  else if requiredDepth (chunkId >>> 4) > file.topLevel then none
  else file.top.bind (traverse chunkId file.topLevel)

def setTnode0 (chunkId : Nat) (leaf : Leaf g) : (l : Nat) → Tnode g l → Tnode g l
  | 0, _ => Tnode.ofMap leaf
  | l + 1, tn =>
      tn.setInternal (slot l chunkId) ((tn.internal (slot l chunkId)).map (setTnode0 chunkId leaf l))

def raise (file : FileVar g) (pool : TnodePool) : Nat → Bool × FileVar g × TnodePool
  | 0 => (true, file, pool)
  | levels + 1 =>
      match yaffsGetTnode (g := g) (file.topLevel + 1) pool with
      | none => (false, file, pool)
      | some (tn, pool) =>
          raise ⟨file.topLevel + 1, some (tn.setInternal 0 file.top)⟩ pool levels

/-- The way down from a tnode of level `l + 1`, on which missing tnodes are added. -/
def addTraverse (chunkId : Nat) (passedTn : Option (Leaf g)) :
    (l : Nat) → Tnode g (l + 1) → TnodePool → Option (Leaf g) × Tnode g (l + 1) × TnodePool
  | 0, tn, pool =>
      let x := slot 0 chunkId
      match passedTn with
      | some passedTn =>
          let pool := if (tn.internal x).isSome then yaffsFreeTnode pool else pool
          (some passedTn, tn.setInternal x (some (Tnode.ofMap passedTn)), pool)
      | none =>
          match tn.internal x with
          | some leaf => (some leaf.map, tn, pool)
          | none =>
              match yaffsGetTnode 0 pool with
              | none => (none, tn, pool)
              | some (leaf, pool) => (some leaf.map, tn.setInternal x (some leaf), pool)
  | l + 1, tn, pool =>
      let x := slot (l + 1) chunkId
      match (tn.internal x).elim (yaffsGetTnode (l + 1) pool) fun child => some (child, pool) with
      | none => (none, tn, pool)
      | some (child, pool) =>
          let r := addTraverse chunkId passedTn l child pool
          (r.1, tn.setInternal x (some r.2.1), r.2.2)

/-- `yaffs_add_find_tnode_0`: what the pointer that is returned leads to, and the tree. -/
def yaffsAddFindTnode0 (file : FileVar g) (pool : TnodePool) (chunkId : Nat) (passedTn : Option (Leaf g)) :
    Option (Leaf g) × FileVar g × TnodePool :=
  if file.topLevel > YAFFS_TNODES_MAX_LEVEL then (none, file, pool)
  else if chunkId > YAFFS_MAX_CHUNK_ID then (none, file, pool)
  else
    match raise file pool (requiredDepth (chunkId >>> 4) - file.topLevel) with
    | (false, file, pool) => (none, file, pool)
    | (true, ⟨l + 1, some tn⟩, pool) =>
        let r := addTraverse chunkId passedTn l tn pool
        (r.1, ⟨l + 1, some r.2.1⟩, r.2.2)
    | (true, ⟨0, some tn⟩, pool) =>
        match passedTn with
        | some passedTn => (some passedTn, ⟨0, some (Tnode.ofMap passedTn)⟩, yaffsFreeTnode pool)
        | none => (some tn.map, ⟨0, some tn⟩, pool)
    | (true, ⟨l, none⟩, pool) => (none, ⟨l, none⟩, pool)

/-- `yaffs_prune_worker`: what is left of the tree. -/
def pruneWorker : (l : Nat) → Tnode g l → Bool → TnodePool → Option (Tnode g l) × TnodePool
  | 0, tn, del0, pool =>
      let hasData := tn.map.any (· != 0#32)
      if !hasData && del0 then (none, yaffsFreeTnode pool) else (some tn, pool)
  | l + 1, tn, del0, pool =>
      let r := (List.finRange 8).foldl (fun r i =>
        (r.1.internal i).elim r fun child =>
          let c := pruneWorker l child (if i = 0 then del0 else true) r.2
          (r.1.setInternal i c.1, c.2)) (tn, pool)
      let hasData := (List.finRange 8).any fun i => (r.1.internal i).isSome
      if !hasData && del0 then (none, yaffsFreeTnode r.2) else (some r.1, r.2)

/-- The tree is shortened while only the left end of its top is in use. -/
def shorten : (l : Nat) → Option (Tnode g l) → TnodePool → FileVar g × TnodePool
  | 0, top, pool => (⟨0, top⟩, pool)
  | l + 1, none, pool => (⟨l + 1, none⟩, pool)
  | l + 1, some tn, pool =>
      let hasData := (List.finRange 8).any fun i => i ≠ 0 && (tn.internal i).isSome
      if hasData then (⟨l + 1, some tn⟩, pool) else shorten l (tn.internal 0) (yaffsFreeTnode pool)

def yaffsPruneTree (file : FileVar g) (pool : TnodePool) : FileVar g × TnodePool :=
  if file.topLevel < 1 then (file, pool)
  else
    let r := file.top.elim (none, pool) fun top => pruneWorker file.topLevel top false pool
    shorten file.topLevel r.1 r.2

/-- What `yaffs_soft_del_worker` has done: the chunks are those that have been deleted. -/
structure SoftDel (g : TnodeLayout) (l : Nat) where
  allDone : Bool
  tn : Tnode g l
  chunks : List (BitVec 32)
  pool : TnodePool

/-- The body of the loop over the fields of a tnode of level 0. -/
def softDelField (r : Leaf g × List (BitVec 32)) (i : Nat) : Leaf g × List (BitVec 32) :=
  let theChunk := yaffsGetGroupBase r.1 i
  if theChunk ≠ 0 then (yaffsLoadTnode0 r.1 i 0, r.2 ++ [theChunk]) else r

/-- The body of the loop over the pointers of a tnode, with the worker for the level below. -/
def softDelStep (worker : Tnode g l → TnodePool → SoftDel g l) (r : SoftDel g (l + 1)) (i : Fin 8) : SoftDel g (l + 1) :=
  if r.allDone then
    (r.tn.internal i).elim r fun child =>
      let c := worker child r.pool
      if c.allDone then ⟨true, r.tn.setInternal i none, r.chunks ++ c.chunks, yaffsFreeTnode c.pool⟩
      else ⟨false, r.tn.setInternal i (some c.tn), r.chunks ++ c.chunks, c.pool⟩
  else r

def softDelWorker : (l : Nat) → Tnode g l → TnodePool → SoftDel g l
  | 0, tn, pool =>
      let r := (List.range YAFFS_NTNODES_LEVEL0).reverse.foldl softDelField (tn.map, [])
      ⟨true, Tnode.ofMap r.1, r.2, pool⟩
  | l + 1, tn, pool => (List.finRange 8).reverse.foldl (softDelStep (softDelWorker l)) ⟨true, tn, [], pool⟩

/-! ### What is in a tree -/

def leafAt (l : Nat) (tn : Option (Tnode g l)) (chunkId : Nat) : Leaf g :=
  (tn.bind (traverse chunkId l)).getD (Leaf.zero g)

def countTnodes : (l : Nat) → Option (Tnode g l) → Nat
  | 0, tn => tn.elim 0 fun _ => 1
  | l + 1, tn => tn.elim 0 fun tn => ∑ x, countTnodes l (tn.internal x) + 1

def Spine : (l : Nat) → Option (Tnode g l) → Prop
  | 0, tn => tn.isSome
  | l + 1, tn => ∃ tn', tn = some tn' ∧ Spine l (tn'.internal 0)

/-- The tnode of level 0 is the same for two chunks, seen from level `l`. -/
def SameLeaf (l a b : Nat) : Prop := a / 16 % 8 ^ l = b / 16 % 8 ^ l

instance (l a b : Nat) : Decidable (SameLeaf l a b) := inferInstanceAs (Decidable (_ = _))

variable {id other : Nat} {pool pool' : TnodePool} {passed : Option (Leaf g)} {leaf : Leaf g}

theorem slot_eq (l chunkId : Nat) : slot l chunkId = Fin.ofNat 8 (chunkId / 16 / 8 ^ l) := by
  rw [slot, Nat.shiftRight_eq_div_pow, Nat.pow_add, Nat.mul_comm l 3, Nat.pow_mul, Nat.div_div_eq_div_mul]

theorem sameLeaf_zero (a b : Nat) : SameLeaf 0 a b := by
  rw [SameLeaf, Nat.pow_zero, Nat.mod_one, Nat.mod_one]

theorem sameLeaf_succ {a b : Nat} : SameLeaf (l + 1) a b ↔ slot l a = slot l b ∧ SameLeaf l a b := by
  have hpos : 0 < 8 ^ l := Nat.pow_pos (by decide)
  rw [slot_eq, slot_eq, Fin.ext_iff, Fin.val_ofNat, Fin.val_ofNat, SameLeaf, SameLeaf, Nat.pow_succ, Nat.mod_mul,
    Nat.mod_mul]
  constructor
  · intro h
    have hlow := congrArg (· % 8 ^ l) h
    simp only [Nat.add_mul_mod_self_left, Nat.mod_mod] at hlow
    rw [hlow] at h
    exact ⟨Nat.eq_of_mul_eq_mul_left hpos (Nat.add_left_cancel h), hlow⟩
  · rintro ⟨hslot, hlow⟩
    rw [hslot, hlow]

@[simp]
theorem Tnode.internal_setInternal (tn : Tnode g (l + 1)) (x y : Fin 8) (child : Option (Tnode g l)) :
    (tn.setInternal x child).internal y = if y = x then child else tn.internal y := rfl

@[simp]
theorem Tnode.internal_zero (x : Fin 8) : (Tnode.zero g (l + 1)).internal x = none := rfl

theorem leafAt_none (l chunkId : Nat) : leafAt l (none : Option (Tnode g l)) chunkId = Leaf.zero g := rfl

theorem leafAt_succ (tn : Tnode g (l + 1)) (chunkId : Nat) :
    leafAt (l + 1) (some tn) chunkId = leafAt l (tn.internal (slot l chunkId)) chunkId := rfl

theorem leafAt_zero_tnode (l chunkId : Nat) : leafAt l (some (Tnode.zero g l)) chunkId = Leaf.zero g := by
  cases l <;> rfl

theorem leafAt_setInternal (tn : Tnode g (l + 1)) (x : Fin 8) (child : Option (Tnode g l)) (chunkId : Nat) :
    leafAt (l + 1) (some (tn.setInternal x child)) chunkId =
      if slot l chunkId = x then leafAt l child chunkId else leafAt (l + 1) (some tn) chunkId := by
  rw [leafAt_succ, Tnode.internal_setInternal, leafAt_succ]
  split_ifs <;> rfl

theorem countTnodes_succ (tn : Tnode g (l + 1)) :
    countTnodes (l + 1) (some tn) = ∑ x, countTnodes l (tn.internal x) + 1 := rfl

theorem countTnodes_setInternal (tn : Tnode g (l + 1)) (x : Fin 8) (child : Option (Tnode g l)) :
    countTnodes (l + 1) (some (tn.setInternal x child)) + countTnodes l (tn.internal x) =
      countTnodes (l + 1) (some tn) + countTnodes l child := by
  have hrest : ∑ y ∈ Finset.univ.erase x, countTnodes l ((tn.setInternal x child).internal y) =
      ∑ y ∈ Finset.univ.erase x, countTnodes l (tn.internal y) := by
    refine Finset.sum_congr rfl fun y hy => ?_
    rw [Tnode.internal_setInternal, if_neg (Finset.ne_of_mem_erase hy)]
  have hnew := Finset.add_sum_erase Finset.univ (fun y => countTnodes l ((tn.setInternal x child).internal y))
    (Finset.mem_univ x)
  have hold := Finset.add_sum_erase Finset.univ (fun y => countTnodes l (tn.internal y)) (Finset.mem_univ x)
  simp only [Tnode.internal_setInternal, if_true] at hnew
  rw [countTnodes_succ, countTnodes_succ, ← hold]
  simp only [Tnode.internal_setInternal, ← hnew] at hrest ⊢
  omega

theorem countTnodes_zero_tnode (l : Nat) : countTnodes l (some (Tnode.zero g l)) = 1 := by
  cases l with
  | zero => rfl
  | succ l =>
      rw [countTnodes_succ]
      simp only [Tnode.internal_zero]
      cases l <;> simp [countTnodes]

theorem spine_setInternal (tn : Tnode g (l + 1)) (x : Fin 8) {child : Option (Tnode g l)} (h : Spine (l + 1) (some tn))
    (hchild : Spine l (tn.internal x) → Spine l child) : Spine (l + 1) (some (tn.setInternal x child)) := by
  obtain ⟨tn', heq, hspine⟩ := h
  obtain rfl := Option.some.inj heq
  refine ⟨_, rfl, ?_⟩
  rw [Tnode.internal_setInternal]
  split_ifs with hx
  · subst hx
    exact hchild hspine
  · exact hspine

end Fl2440.Yaffs
