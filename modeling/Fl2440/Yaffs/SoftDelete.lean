import Mathlib.Data.Finset.Sort
import Fl2440.Yaffs.FileChunks

/-! `yaffs_soft_del_worker`: the chunks of a file that is deleted, from its end on. -/
namespace Fl2440.Yaffs

open Fl2440.Lib

variable {g : TnodeLayout} {l id : Nat} {pool : TnodePool} {map : Leaf g}

theorem groupBase_zero : g.groupBase 0 = 0 := BitVec.eq_of_toNat_eq FileState.Holds.groupBase_val_zero

theorem getGroupBase_congr (map : Leaf g) {i j : Nat} (h : j % 16 = i % 16) :
    yaffsGetGroupBase map j = yaffsGetGroupBase map i := by
  have hmod : ∀ i, i &&& 0xf = i % 16 := fun i => Nat.and_two_pow_sub_one_eq_mod i 4
  rw [yaffsGetGroupBase_eq, yaffsGetGroupBase_eq, hmod, hmod, h]

theorem softDelField_spec (map : Leaf g) (chunks : List (BitVec 32)) (i : Nat) :
    (softDelField (map, chunks) i).2 = chunks ++ [yaffsGetGroupBase map i].filter (· ≠ 0) ∧
      ∀ j, yaffsGetGroupBase (softDelField (map, chunks) i).1 j =
        if j % 16 = i % 16 then 0 else yaffsGetGroupBase map j := by
  rw [softDelField]
  by_cases hzero : yaffsGetGroupBase map i = 0
  · simp only [hzero, ne_eq, not_true_eq_false, if_false, decide_false, List.filter_cons, List.filter_nil,
      Bool.false_eq_true, List.append_nil, true_and]
    intro j
    split_ifs with hj
    · rw [getGroupBase_congr map hj, hzero]
    · rfl
  · simp only [ne_eq, hzero, not_false_eq_true, if_true, decide_true, List.filter_cons, List.filter_nil, true_and]
    intro j
    split_ifs with hj
    · rw [getGroupBase_congr _ hj, getGroupBase_load_self, groupBase_zero]
    · exact getGroupBase_load_of_ne map (Ne.symm hj) 0

theorem softDelFields_spec : ∀ (is : List Nat) (map : Leaf g) (chunks : List (BitVec 32)), is.Nodup → (∀ i ∈ is, i < 16) →
    (is.foldl softDelField (map, chunks)).2 = chunks ++ (is.map (yaffsGetGroupBase map)).filter (· ≠ 0) ∧
      ∀ j < 16, yaffsGetGroupBase (is.foldl softDelField (map, chunks)).1 j =
        if j ∈ is then 0 else yaffsGetGroupBase map j := by
  intro is
  induction is with
  | nil => exact fun map chunks _ _ => ⟨(List.append_nil _).symm, fun j _ => (if_neg List.not_mem_nil).symm⟩
  | cons i is ih =>
      intro map chunks hnodup hlt
      obtain ⟨hnew, hrest⟩ := List.nodup_cons.mp hnodup
      have hi := hlt i List.mem_cons_self
      have hlt' := fun j hj => hlt j (List.mem_cons_of_mem _ hj)
      obtain ⟨hfirst, hbase⟩ := softDelField_spec map chunks i
      rw [List.foldl_cons]
      generalize softDelField (map, chunks) i = r at hfirst hbase ⊢
      obtain ⟨map', chunks'⟩ := r
      dsimp only at hfirst hbase
      obtain ⟨hchunks, hfields⟩ := ih map' chunks' hrest hlt'
      have hothers : is.map (yaffsGetGroupBase map') = is.map (yaffsGetGroupBase map) := by
        refine List.map_congr_left fun j hj => ?_
        have := hlt' j hj
        rw [hbase, if_neg fun h => hnew (by rwa [show i = j by omega])]
      refine ⟨?_, fun j hj => ?_⟩
      · rw [hchunks, hothers, hfirst, List.append_assoc, ← List.filter_append]
        rfl
      · rw [hfields j hj, hbase]
        by_cases hmem : j ∈ is
        · rw [if_pos hmem, if_pos (List.mem_cons_of_mem _ hmem)]
        · rw [if_neg hmem]
          refine if_congr ?_ rfl rfl
          rw [List.mem_cons, or_iff_left hmem]
          omega

theorem leaf_eq_zero_of_groupBase (h : ∀ j < 16, yaffsGetGroupBase map j = 0) : map = Leaf.zero g := by
  have hbits := g.bits_lt
  have hwidth := g.le_width
  refine PackedWords.eq_zero_of_load (by decide) (by omega) (by omega) g.words_fill fun f hf => ?_
  have hbase := congrArg BitVec.toNat (h f hf)
  have hmod : f &&& 0xf = f := by
    rw [Nat.and_two_pow_sub_one_eq_mod f 4]
    exact Nat.mod_eq_of_lt hf
  have hmask : (PackedWords.mask 32 g.tnodeWidth).toNat = 2 ^ g.tnodeWidth - 1 := PackedWords.toNat_mask (by omega)
  rw [yaffsGetGroupBase_eq, hmod, BitVec.toNat_shiftLeft, Nat.shiftLeft_eq] at hbase
  have hlt : (PackedWords.load g.tnodeWidth map (f * g.tnodeWidth)).toNat < 2 ^ g.tnodeWidth := by
    have hpos := Nat.two_pow_pos g.tnodeWidth
    refine Nat.lt_of_le_of_lt (m := 2 ^ g.tnodeWidth - 1) ?_ (Nat.pred_lt hpos.ne')
    rw [← hmask, PackedWords.load, BitVec.toNat_and]
    exact Nat.and_le_right
  have hword : (PackedWords.load g.tnodeWidth map (f * g.tnodeWidth)).toNat * 2 ^ g.chunkGrpBits < 2 ^ 32 := calc
    _ < 2 ^ g.tnodeWidth * 2 ^ g.chunkGrpBits := Nat.mul_lt_mul_of_pos_right hlt (Nat.two_pow_pos _)
    _ = 2 ^ (g.tnodeWidth + g.chunkGrpBits) := (Nat.pow_add ..).symm
    _ ≤ 2 ^ 32 := Nat.pow_le_pow_right (by decide) (Nat.le_of_lt hbits)
  rw [Nat.mod_eq_of_lt hword] at hbase
  exact BitVec.eq_of_toNat_eq ((Nat.mul_eq_zero.mp hbase).resolve_right (Nat.two_pow_pos _).ne')

/-- The entries of a tree that name a chunk, from the last one on. -/
def softChunks (l : Nat) (tn : Option (Tnode g l)) : List (BitVec 32) :=
  ((List.range (16 * 8 ^ l)).reverse.map fun id => yaffsGetGroupBase (leafAt l tn id) id).filter (· ≠ 0)

theorem softChunks_none (l : Nat) : softChunks l (none : Option (Tnode g l)) = [] := by
  refine List.filter_eq_nil_iff.mpr fun c hc => ?_
  obtain ⟨id, -, rfl⟩ := List.mem_map.mp hc
  rw [leafAt_none, getGroupBase_zero]
  decide

theorem groupBase_under (tn : Tnode g (l + 1)) (i : Fin 8) {k : Nat} (hk : k < 16 * 8 ^ l) :
    yaffsGetGroupBase (leafAt (l + 1) (some tn) (16 * 8 ^ l * i + k)) (16 * 8 ^ l * i + k) =
      yaffsGetGroupBase (leafAt l (tn.internal i) k) k := by
  have hpos : 0 < 8 ^ l := Nat.pow_pos (by decide)
  have hdiv : (16 * 8 ^ l * i + k) / 16 = 8 ^ l * i + k / 16 := by
    rw [Nat.mul_assoc]
    omega
  have hslot : slot l (16 * 8 ^ l * i + k) = i := by
    have hquot : (8 ^ l * i + k / 16) / 8 ^ l = i := by
      rw [Nat.mul_add_div hpos, Nat.div_eq_of_lt (Nat.div_lt_of_lt_mul hk), Nat.add_zero]
    rw [slot_eq, hdiv, hquot]
    exact Fin.ofNat_val_eq_self i
  have hsame : SameLeaf l (16 * 8 ^ l * i + k) k := by rw [SameLeaf, hdiv, Nat.mul_add_mod]
  rw [leafAt_succ, hslot, leafAt_congr (tn.internal i) hsame]
  exact getGroupBase_congr _ (by rw [Nat.mul_assoc, Nat.mul_add_mod])

theorem range_tile (n k : Nat) : List.range (n * k) = (List.range k).flatMap fun i => (List.range n).map (n * i + ·) := by
  induction k with
  | zero => rfl
  | succ k ih => rw [Nat.mul_succ, List.range_add, ih, List.range_succ, List.flatMap_append, List.flatMap_singleton]

theorem softChunks_succ (tn : Tnode g (l + 1)) :
    softChunks (l + 1) (some tn) = (List.finRange 8).reverse.flatMap fun i => softChunks l (tn.internal i) := by
  have htile : List.range (16 * 8 ^ (l + 1)) =
      (List.finRange 8).flatMap fun i => (List.range (16 * 8 ^ l)).map (16 * 8 ^ l * i.val + ·) := by
    have hfin : List.range 8 = (List.finRange 8).map Fin.val := by decide
    rw [Nat.pow_succ, ← Nat.mul_assoc, range_tile, hfin, List.flatMap_map]
  rw [softChunks, htile, List.reverse_flatMap, List.map_flatMap, List.filter_flatMap]
  refine congrArg (List.flatMap · (List.finRange 8).reverse) (funext fun i => ?_)
  rw [softChunks, Function.comp_apply, ← List.map_reverse, List.map_map]
  refine congrArg _ (List.map_congr_left fun k hk => ?_)
  exact groupBase_under tn i (List.mem_range.mp (List.mem_reverse.mp hk))

/-- What the deletion of a tree does: every entry is given away, and all tnodes but the top are freed. -/
structure Deleted (tn : Tnode g l) (pool : TnodePool) (r : SoftDel g l) : Prop where
  allDone : r.allDone = true
  tn_eq : r.tn = Tnode.zero g l
  chunks : r.chunks = softChunks l (some tn)
  tnodes : r.pool.nTnodes = pool.nTnodes - countTnodes l (some tn) + 1

structure Deleting (is : List (Fin 8)) (r r' : SoftDel g (l + 1)) : Prop where
  allDone : r'.allDone = true
  internal : ∀ j, r'.tn.internal j = if j ∈ is then none else r.tn.internal j
  chunks : r'.chunks = r.chunks ++ is.flatMap fun i => softChunks l (r.tn.internal i)
  tnodes : r'.pool.nTnodes = r.pool.nTnodes - (is.map fun i => countTnodes l (r.tn.internal i)).sum

theorem softDelStep_spec (ih : ∀ (tn : Tnode g l) pool, Deleted tn pool (softDelWorker l tn pool))
    {r : SoftDel g (l + 1)} (hr : r.allDone = true) (i : Fin 8) : Deleting [i] r (softDelStep (softDelWorker l) r i) := by
  rw [softDelStep, if_pos hr]
  cases hchild : r.tn.internal i with
  | none =>
      refine ⟨hr, fun j => ?_, ?_, ?_⟩
      · by_cases hj : j = i
        · rw [if_pos (List.mem_singleton.mpr hj), hj]
          exact hchild
        · rw [if_neg fun hmem => hj (List.mem_singleton.mp hmem)]
          rfl
      · rw [List.flatMap_singleton, hchild, softChunks_none, List.append_nil]
        rfl
      · have hnone : countTnodes l (none : Option (Tnode g l)) = 0 := by cases l <;> rfl
        rw [List.map_singleton, List.sum_singleton, hchild, hnone]
        exact (Int.sub_zero _).symm
  | some child =>
      have hdeleted := ih child r.pool
      rw [Option.elim_some]
      simp only [hdeleted.allDone, if_true]
      refine ⟨rfl, fun j => ?_, ?_, ?_⟩
      · simp only [Tnode.internal_setInternal, List.mem_singleton]
      · rw [List.flatMap_singleton, hchild, ← hdeleted.chunks]
      · rw [List.map_singleton, List.sum_singleton, hchild]
        have := hdeleted.tnodes
        show (softDelWorker l child r.pool).pool.nTnodes - 1 = _
        omega

theorem softDel_loop (ih : ∀ (tn : Tnode g l) pool, Deleted tn pool (softDelWorker l tn pool)) :
    ∀ (is : List (Fin 8)) (r : SoftDel g (l + 1)), r.allDone = true → is.Nodup →
      Deleting is r (is.foldl (softDelStep (softDelWorker l)) r) := by
  intro is
  induction is with
  | nil =>
      exact fun r hr _ => ⟨hr, fun _ => rfl, (List.append_nil _).symm, (Int.sub_zero _).symm⟩
  | cons i is hind =>
      intro r hr hnodup
      obtain ⟨hnew, hrest⟩ := List.nodup_cons.mp hnodup
      have hstep := softDelStep_spec ih hr i
      have hloop := hind (softDelStep (softDelWorker l) r i) hstep.allDone hrest
      have hsame : ∀ j ∈ is, (softDelStep (softDelWorker l) r i).tn.internal j = r.tn.internal j := by
        intro j hj
        have hne : j ∉ [i] := fun hmem => hnew (by rwa [List.mem_singleton.mp hmem] at hj)
        rw [hstep.internal, if_neg hne]
      rw [List.foldl_cons]
      refine ⟨hloop.allDone, fun j => ?_, ?_, ?_⟩
      · rw [hloop.internal, hstep.internal]
        by_cases hj : j ∈ is
        · rw [if_pos hj, if_pos (List.mem_cons_of_mem _ hj)]
        · rw [if_neg hj]
          exact if_congr (by rw [List.mem_singleton, List.mem_cons, or_iff_left hj]) rfl rfl
      · rw [hloop.chunks, hstep.chunks, List.append_assoc, List.flatMap_singleton, List.flatMap_cons]
        refine congrArg _ (congrArg _ (List.flatMap_congr fun j hj => ?_))
        rw [hsame j hj]
      · have hsum : is.map (fun j => countTnodes l ((softDelStep (softDelWorker l) r i).tn.internal j)) =
            is.map fun j => countTnodes l (r.tn.internal j) :=
          List.map_congr_left fun j hj => by rw [hsame j hj]
        have hfirst := hstep.tnodes
        have hlater := hloop.tnodes
        rw [List.map_singleton, List.sum_singleton] at hfirst
        rw [hsum] at hlater
        rw [List.map_cons, List.sum_cons, Nat.cast_add]
        omega

theorem softDelWorker_spec : ∀ (l : Nat) (tn : Tnode g l) (pool : TnodePool), Deleted tn pool (softDelWorker l tn pool) := by
  intro l
  induction l with
  | zero =>
      intro tn pool
      obtain ⟨hchunks, hfields⟩ := softDelFields_spec (List.range 16).reverse tn.map []
        (List.nodup_reverse.mpr List.nodup_range) fun i hi => List.mem_range.mp (List.mem_reverse.mp hi)
      refine ⟨rfl, ?_, ?_, ?_⟩
      · refine congrArg Tnode.ofMap (leaf_eq_zero_of_groupBase fun j hj => ?_)
        exact (hfields j hj).trans (if_pos (List.mem_reverse.mpr (List.mem_range.mpr hj)))
      · exact hchunks
      · show pool.nTnodes = pool.nTnodes - 1 + 1
        omega
  | succ l ih =>
      intro tn pool
      have hloop := softDel_loop ih (List.finRange 8).reverse ⟨true, tn, [], pool⟩ rfl
        (List.nodup_reverse.mpr (List.nodup_finRange 8))
      rw [softDelWorker]
      refine ⟨hloop.allDone, funext fun j => ?_, ?_, ?_⟩
      · exact (hloop.internal j).trans (if_pos (List.mem_reverse.mpr (List.mem_finRange j)))
      · rw [hloop.chunks, softChunks_succ]
        exact List.nil_append _
      · have hsum : ((List.finRange 8).reverse.map fun i => countTnodes l (tn.internal i)).sum =
            ∑ x, countTnodes l (tn.internal x) := by
          rw [List.map_reverse, List.sum_reverse, Fin.sum_univ_def]
        have htnodes := hloop.tnodes
        simp only [hsum] at htnodes
        rw [htnodes, countTnodes_succ]
        omega

/-! ### Files -/

/-- `yaffs_soft_del_file`: the chunks that are deleted, and the file. Where the file has no chunk its top is freed. -/
def yaffsSoftDelFile (deleted softDel : Bool) (s : FileState g) : List (BitVec 32) × FileState g :=
  if !deleted || softDel then ([], s)
  else if s.obj.nDataChunks ≤ 0 then
    ([], ⟨{ s.obj with file := ⟨s.obj.file.topLevel, none⟩ }, yaffsFreeTnode s.pool⟩)
  else
    s.obj.file.top.elim ([], s) fun top =>
      let r := softDelWorker s.obj.file.topLevel top s.pool
      (r.chunks, ⟨{ s.obj with file := ⟨s.obj.file.topLevel, some r.tn⟩ }, r.pool⟩)

variable {s : FileState g} {objId : MyBoot.Word} {rest : Int} {m : ChunkMap}

namespace FileState.Holds

theorem entry_eq (h : s.Holds objId rest m) (hid : id < 16 * 8 ^ s.obj.file.topLevel) :
    (yaffsGetGroupBase (leafAt s.obj.file.topLevel s.obj.file.top id) id).toNat = m id := by
  have hdiv : id / 16 < 8 ^ s.obj.file.topLevel := Nat.div_lt_of_lt_mul hid
  have hmax : 16 * 8 ^ s.obj.file.topLevel ≤ 16 * 8 ^ YAFFS_TNODES_MAX_LEVEL :=
    Nat.mul_le_mul_left _ (Nat.pow_le_pow_right (by decide) h.sound.level_le)
  have hlast : 16 * 8 ^ YAFFS_TNODES_MAX_LEVEL = YAFFS_MAX_CHUNK_ID + 1 := by decide
  have hentry := h.chunks id (by omega)
  rwa [FileVar.tnode0, if_pos hdiv] at hentry

theorem lt_of_entry (h : s.Holds objId rest m) (hid : m id ≠ 0) : id < 16 * 8 ^ s.obj.file.topLevel := by
  by_contra hlt
  have hdiv : ¬ id / 16 < 8 ^ s.obj.file.topLevel := fun hdiv => hlt (by omega)
  by_cases hmax : id ≤ YAFFS_MAX_CHUNK_ID
  · have hentry := h.chunks id hmax
    rw [FileVar.tnode0, if_neg hdiv, getGroupBase_zero] at hentry
    exact hid hentry.symm
  · exact hid (h.none_above id (Nat.lt_of_not_le hmax))

theorem positions (h : s.Holds objId rest m) :
    (List.range (16 * 8 ^ s.obj.file.topLevel)).reverse.filter (m · ≠ 0) = m.support.sort (· ≥ ·) := by
  have hsorted : ((List.range (16 * 8 ^ s.obj.file.topLevel)).reverse.filter (m · ≠ 0)).Pairwise (· ≥ ·) := by
    refine List.Pairwise.filter _ (List.pairwise_reverse.mpr ?_)
    exact List.pairwise_lt_range.imp Nat.le_of_lt
  have hnodup : ((List.range (16 * 8 ^ s.obj.file.topLevel)).reverse.filter (m · ≠ 0)).Nodup :=
    (List.nodup_reverse.mpr List.nodup_range).filter _
  rw [← (List.toFinset_sort _ hnodup).mpr hsorted]
  refine congrArg (Finset.sort · (· ≥ ·)) (Finset.ext fun id => ?_)
  rw [List.mem_toFinset, List.mem_filter, List.mem_reverse, List.mem_range, decide_eq_true_eq, Finsupp.mem_support_iff]
  exact and_iff_right_of_imp h.lt_of_entry

theorem softDel (h : s.Holds objId rest m) :
    (yaffsSoftDelFile true false s).1.map BitVec.toNat = (m.support.sort (· ≥ ·)).map m ∧
      (∀ chunkId, (yaffsSoftDelFile true false s).2.obj.file.tnode0 chunkId = Leaf.zero g) ∧
      (m ≠ 0 → (yaffsSoftDelFile true false s).2.pool.nTnodes = 1 + rest) ∧
      (m = 0 → (yaffsSoftDelFile true false s).2.pool.nTnodes = s.pool.nTnodes - 1) := by
  by_cases hempty : m = 0
  · have hcount : s.obj.nDataChunks ≤ 0 := by
      rw [h.count, hempty]
      exact Int.le_refl 0
    have hfile : yaffsSoftDelFile true false s =
        ([], ⟨{ s.obj with file := ⟨s.obj.file.topLevel, none⟩ }, yaffsFreeTnode s.pool⟩) := by
      rw [yaffsSoftDelFile, if_neg (by decide), if_pos hcount]
    rw [hfile, hempty]
    refine ⟨by simp, fun chunkId => ?_, fun hne => absurd rfl hne, fun _ => rfl⟩
    rw [FileVar.tnode0]
    split_ifs <;> rfl
  · have hcount : ¬ s.obj.nDataChunks ≤ 0 := by
      have hpos := Finset.card_pos.mpr (Finsupp.support_nonempty_iff.mpr hempty)
      rw [h.count]
      omega
    obtain ⟨top, htop⟩ : ∃ top, s.obj.file.top = some top := by
      refine Option.ne_none_iff_exists'.mp fun hnone => ?_
      have hspine := h.sound.spine
      rw [hnone] at hspine
      exact not_spine_none hspine
    have hdeleted := softDelWorker_spec s.obj.file.topLevel top s.pool
    have hfile : yaffsSoftDelFile true false s =
        ((softDelWorker s.obj.file.topLevel top s.pool).chunks,
          ⟨{ s.obj with file := ⟨s.obj.file.topLevel, some (softDelWorker s.obj.file.topLevel top s.pool).tn⟩ },
            (softDelWorker s.obj.file.topLevel top s.pool).pool⟩) := by
      rw [yaffsSoftDelFile, if_neg (by decide), if_neg hcount, htop]
      rfl
    rw [hfile]
    refine ⟨?_, fun chunkId => ?_, fun _ => ?_, fun hzero => absurd hzero hempty⟩
    · have hentry : ∀ id ∈ (List.range (16 * 8 ^ s.obj.file.topLevel)).reverse,
          (yaffsGetGroupBase (leafAt s.obj.file.topLevel (some top) id) id).toNat = m id := by
        intro id hid
        rw [← htop]
        exact h.entry_eq (List.mem_range.mp (List.mem_reverse.mp hid))
      rw [hdeleted.chunks, softChunks, List.filter_map, List.map_map, ← h.positions]
      have hfilter : (List.range (16 * 8 ^ s.obj.file.topLevel)).reverse.filter
          ((· ≠ 0) ∘ fun id => yaffsGetGroupBase (leafAt s.obj.file.topLevel (some top) id) id) =
          (List.range (16 * 8 ^ s.obj.file.topLevel)).reverse.filter (m · ≠ 0) := by
        refine List.filter_congr fun id hid => decide_eq_decide.mpr (not_congr ?_)
        rw [← hentry id hid]
        exact ⟨fun hzero => congrArg BitVec.toNat hzero, fun hzero => BitVec.eq_of_toNat_eq hzero⟩
      refine (congrArg (List.map _) hfilter).trans (List.map_congr_left fun id hid => ?_)
      exact hentry id (List.mem_of_mem_filter hid)
    · rw [hdeleted.tn_eq, FileVar.tnode0]
      split_ifs
      · exact leafAt_zero_tnode _ chunkId
      · rfl
    · have htnodes := h.tnodes
      have hfreed := hdeleted.tnodes
      rw [FileVar.tnodes, htop] at htnodes
      simp only
      omega

end FileState.Holds

/-- When a file is deleted after any run, every chunk that its map names is given back once, from the end
of the file on, and the tree is empty. A file with chunks keeps its top tnode and loses the others; of a
file without one the top is freed alone. -/
theorem fileRun_softDel (objId : MyBoot.Word) (first last : Nat) (pool : TnodePool) (ops : List FileOp)
    (hops : ∀ op ∈ ops, op.Valid g first last) :
    let s := (fileRun first last ⟨FileObj.new g objId, pool⟩ ops).2
    let r := yaffsSoftDelFile true false s
    ∃ granted, granted.length = ops.length ∧ let m := (mapRun g objId 0 ops granted).2
      (fileRun first last ⟨FileObj.new g objId, pool⟩ ops).1 = (mapRun g objId 0 ops granted).1 ∧
        r.1.map BitVec.toNat = (m.support.sort (· ≥ ·)).map m ∧
        (∀ chunkId, r.2.obj.file.tnode0 chunkId = Leaf.zero g) ∧ (m ≠ 0 → r.2.pool.nTnodes = pool.nTnodes) ∧
        (m = 0 → r.2.pool.nTnodes = s.pool.nTnodes - 1) := by
  intro s r
  obtain ⟨granted, hlength, hreplies, hholds, -⟩ := (FileState.Holds.new g objId pool).run ops hops
  obtain ⟨hchunks, hempty, htnodes, hzero⟩ := hholds.softDel
  refine ⟨granted, hlength, hreplies, hchunks, hempty, fun hne => (htnodes hne).trans ?_, hzero⟩
  omega

theorem fileRun_softDel_putTwice :
    let s := (fileRun 64 131071 ⟨FileObj.new .grouped 257, ⟨1, 64⟩⟩ putTwice).2
    let r := yaffsSoftDelFile true false s
    ∃ granted, granted.length = 4 ∧ let m := (mapRun .grouped 257 0 putTwice granted).2
      (fileRun 64 131071 ⟨FileObj.new .grouped 257, ⟨1, 64⟩⟩ putTwice).1 = (mapRun .grouped 257 0 putTwice granted).1 ∧
        r.1.map BitVec.toNat = (m.support.sort (· ≥ ·)).map m ∧
        (∀ chunkId, r.2.obj.file.tnode0 chunkId = Leaf.zero .grouped) ∧ (m ≠ 0 → r.2.pool.nTnodes = 1) ∧
        (m = 0 → r.2.pool.nTnodes = s.pool.nTnodes - 1) :=
  fileRun_softDel 257 64 131071 ⟨1, 64⟩ putTwice putTwice_valid

end Fl2440.Yaffs
