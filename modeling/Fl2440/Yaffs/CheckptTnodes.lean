import Mathlib.Algebra.Order.BigOperators.Group.List
import Fl2440.Yaffs.FileTree
import Fl2440.Yaffs.PackedTags2

/-! `yaffs_yaffs2.c`: the tree of a file in a checkpoint. -/
namespace Fl2440.Yaffs

open Fl2440.Lib Fl2440.MyBoot

variable {g : TnodeLayout} {l id : Nat} {file dst : FileVar g} {pool : TnodePool}

def leafBytes (leaf : Leaf g) : List Byte := leaf.toList.flatMap wordBytes

def bytesLeaf (g : TnodeLayout) (bytes : List Byte) : Leaf g :=
  Vector.ofFn fun i => bytesWord ((bytes.drop (4 * i.val)).take 4)

/-- `yaffs2_checkpt_tnode_worker`: what is written, if all of it can be written. -/
def checkptTnodeWorker : (l : Nat) → Tnode g l → Nat → List Byte
  | 0, tn, chunkOffset => wordBytes (BitVec.ofNat 32 (chunkOffset <<< 4)) ++ leafBytes tn.map
  | l + 1, tn, chunkOffset =>
      (List.finRange 8).flatMap fun i =>
        (tn.internal i).elim [] fun child => checkptTnodeWorker l child ((chunkOffset <<< 3) + i)

def yaffs2WrCheckptTnodes (file : FileVar g) : List Byte :=
  (file.top.elim [] fun top => checkptTnodeWorker file.topLevel top 0) ++ wordBytes 0xffffffff

/-- `yaffs2_rd_checkpt_tnodes`: whether all went well, and the bytes that are left. -/
def yaffs2RdCheckptTnodes (bytes : List Byte) (file : FileVar g) (pool : TnodePool) :
    Bool × List Byte × FileVar g × TnodePool :=
  if bytes.length < 4 then (false, [], file, pool)
  else
    let baseChunk := bytesWord (bytes.take 4)
    let rest := bytes.drop 4
    if ~~~baseChunk = 0 then (true, rest, file, pool)
    else
      match yaffsGetTnode (g := g) 0 pool with
      | none => (false, rest, file, pool)
      | some (_, pool) =>
          if rest.length < g.tnodeSize then (false, [], file, pool)
          else
            let tn := bytesLeaf g (rest.take g.tnodeSize)
            let r := yaffsAddFindTnode0 file pool baseChunk.toNat (some tn)
            if r.1.isSome then yaffs2RdCheckptTnodes (rest.drop g.tnodeSize) r.2.1 r.2.2
            else (false, rest.drop g.tnodeSize, r.2.1, r.2.2)
termination_by bytes.length
decreasing_by
  rw [List.length_drop, List.length_drop]
  omega

/-- The tnodes of level 0 with the chunks of the file that they begin with. -/
def records : (l : Nat) → Option (Tnode g l) → Nat → List (Nat × Leaf g)
  | 0, tn, chunkOffset => tn.elim [] fun tn => [(chunkOffset <<< 4, tn.map)]
  | l + 1, tn, chunkOffset =>
      tn.elim [] fun tn => (List.finRange 8).flatMap fun i => records l (tn.internal i) ((chunkOffset <<< 3) + i)

def recordBytes (r : Nat × Leaf g) : List Byte := wordBytes (BitVec.ofNat 32 r.1) ++ leafBytes r.2

theorem worker_eq : ∀ (l : Nat) (tn : Tnode g l) (chunkOffset : Nat),
    checkptTnodeWorker l tn chunkOffset = (records l (some tn) chunkOffset).flatMap recordBytes := by
  intro l
  induction l with
  | zero => exact fun tn chunkOffset => (List.append_nil _).symm
  | succ l ih =>
      intro tn chunkOffset
      rw [checkptTnodeWorker, records, Option.elim_some, List.flatMap_assoc]
      refine congrArg (List.flatMap · (List.finRange 8)) (funext fun i => ?_)
      cases tn.internal i with
      | none => cases l <;> rfl
      | some child => exact ih child _

/-- The last record for a chunk counts. -/
def override (recs : List (Nat × Leaf g)) (f : Nat → Leaf g) : Nat → Leaf g :=
  recs.foldl (fun f r id => if id / 16 = r.1 / 16 then r.2 else f id) f

theorem override_append (a b : List (Nat × Leaf g)) (f : Nat → Leaf g) :
    override (a ++ b) f = override b (override a f) := List.foldl_append

theorem under_iff (id chunkOffset : Nat) (i : Fin 8) :
    id / 16 / 8 ^ l = (chunkOffset <<< 3) + i ↔ id / 16 / 8 ^ (l + 1) = chunkOffset ∧ slot l id = i := by
  rw [slot_eq, Fin.ext_iff, Fin.val_ofNat, Nat.pow_succ, ← Nat.div_div_eq_div_mul, Nat.shiftLeft_eq]
  have := i.isLt
  omega

theorem override_records : ∀ (l : Nat) (tn : Option (Tnode g l)) (chunkOffset : Nat) (f : Nat → Leaf g) (id : Nat),
    override (records l tn chunkOffset) f id =
      if id / 16 / 8 ^ l = chunkOffset then (tn.bind (traverse id l)).getD (f id) else f id := by
  intro l
  induction l with
  | zero =>
      intro tn chunkOffset f id
      cases tn with
      | none => exact (ite_self _).symm
      | some tn =>
          rw [records, Option.elim_some, override, List.foldl_cons, List.foldl_nil, Nat.pow_zero, Nat.div_one,
            Nat.shiftLeft_eq, Nat.mul_div_cancel _ (by decide)]
          rfl
  | succ l ih =>
      intro tn chunkOffset f id
      cases tn with
      | none => exact (ite_self _).symm
      | some tn =>
          have hloop : ∀ (is : List (Fin 8)) (f : Nat → Leaf g), is.Nodup →
              override (is.flatMap fun i => records l (tn.internal i) ((chunkOffset <<< 3) + i)) f id =
                if id / 16 / 8 ^ (l + 1) = chunkOffset ∧ slot l id ∈ is then
                  ((tn.internal (slot l id)).bind (traverse id l)).getD (f id) else f id := by
            intro is
            induction is with
            | nil => exact fun f _ => (if_neg fun h => List.not_mem_nil h.2).symm
            | cons i is hind =>
                intro f hnodup
                obtain ⟨hnew, hrest⟩ := List.nodup_cons.mp hnodup
                rw [List.flatMap_cons, override_append, hind _ hrest, ih, if_congr (under_iff id chunkOffset i) rfl rfl]
                by_cases hoff : id / 16 / 8 ^ (l + 1) = chunkOffset
                · by_cases hslot : slot l id = i
                  · have hout : slot l id ∉ is := by rwa [hslot]
                    rw [if_neg fun h => hout h.2, if_pos ⟨hoff, hslot⟩, if_pos ⟨hoff, hslot ▸ List.mem_cons_self⟩, hslot]
                  · rw [if_neg (c := _ ∧ slot l id = i) fun h => hslot h.2]
                    exact if_congr (by rw [List.mem_cons, or_iff_right hslot]) rfl rfl
                · rw [if_neg fun h => hoff h.1, if_neg fun h => hoff h.1, if_neg fun h => hoff h.1]
          rw [records, Option.elim_some, hloop _ f (List.nodup_finRange 8)]
          exact if_congr (and_iff_left (List.mem_finRange _)) rfl rfl

theorem records_base : ∀ (l : Nat) (tn : Option (Tnode g l)) (chunkOffset : Nat), ∀ r ∈ records l tn chunkOffset,
    r.1 % 16 = 0 ∧ r.1 / 16 / 8 ^ l = chunkOffset := by
  intro l
  induction l with
  | zero =>
      intro tn chunkOffset r hr
      cases tn with
      | none => cases hr
      | some tn =>
          obtain rfl := List.mem_singleton.mp hr
          rw [Nat.shiftLeft_eq, Nat.pow_zero, Nat.div_one]
          omega
  | succ l ih =>
      intro tn chunkOffset r hr
      cases tn with
      | none => cases hr
      | some tn =>
          obtain ⟨i, -, hi⟩ := List.mem_flatMap.mp hr
          obtain ⟨hmod, hdiv⟩ := ih (tn.internal i) ((chunkOffset <<< 3) + i) r hi
          exact ⟨hmod, ((under_iff r.1 chunkOffset i).mp hdiv).1⟩

theorem length_records_le : ∀ (l : Nat) (tn : Option (Tnode g l)) (chunkOffset : Nat),
    (records l tn chunkOffset).length ≤ countTnodes l tn := by
  intro l
  induction l with
  | zero =>
      intro tn chunkOffset
      cases tn <;> exact Nat.le_refl _
  | succ l ih =>
      intro tn chunkOffset
      cases tn with
      | none => exact Nat.le_refl _
      | some tn =>
          rw [records, Option.elim_some, List.length_flatMap, countTnodes_succ, Fin.sum_univ_def]
          refine Nat.le_succ_of_le (List.sum_le_sum fun i _ => ?_)
          exact ih (tn.internal i) _

theorem length_leafBytes (leaf : Leaf g) : (leafBytes leaf).length = g.tnodeSize := by
  have hwords : ∀ w, (wordBytes w).length = 4 := fun _ => rfl
  rw [leafBytes, List.length_flatMap]
  simp only [hwords]
  rw [List.map_const', List.sum_replicate, Vector.length_toList, ← g.four_mul_words, smul_eq_mul, Nat.mul_comm]

theorem take_drop_words : ∀ (words : List Word) (i : Nat) (h : i < words.length),
    ((words.flatMap wordBytes).drop (4 * i)).take 4 = wordBytes words[i]
  | w :: words, 0, _ => rfl
  | w :: words, i + 1, h => by
      have hrest := take_drop_words words i (Nat.lt_of_succ_lt_succ h)
      rw [List.flatMap_cons, Nat.mul_succ, Nat.add_comm, ← List.drop_drop, List.getElem_cons_succ, ← hrest]
      rfl

theorem bytesLeaf_leafBytes (leaf : Leaf g) : bytesLeaf g (leafBytes leaf) = leaf := by
  refine Vector.ext fun i hi => ?_
  rw [bytesLeaf, Vector.getElem_ofFn, leafBytes, take_drop_words _ i (by rwa [Vector.length_toList]), bytesWord_wordBytes,
    Vector.getElem_toList]

theorem read_record {base : Nat} (leaf : Leaf g) (hdst : dst.Sound) (hmod : base % 16 = 0)
    (hbase : base ≤ YAFFS_MAX_CHUNK_ID) (havail : 17 ≤ pool.avail) (rest : List Byte) :
    ∃ dst' pool', yaffs2RdCheckptTnodes (recordBytes (base, leaf) ++ rest) dst pool =
        yaffs2RdCheckptTnodes rest dst' pool' ∧ dst'.Sound ∧
      dst'.tnode0 = (fun id => if id / 16 = base / 16 then leaf else dst.tnode0 id) ∧
      pool'.nTnodes - dst'.tnodes = pool.nTnodes - dst.tnodes ∧ pool.avail ≤ pool'.avail + 17 := by
  have hlast : YAFFS_MAX_CHUNK_ID = 2 ^ 28 - 1 := rfl
  have hword : (BitVec.ofNat 32 base).toNat = base := toNat_ofNat_of_lt (by omega)
  have hmore : ~~~(BitVec.ofNat 32 base) ≠ 0 := by
    intro hzero
    have hnot := congrArg BitVec.toNat hzero
    rw [BitVec.toNat_not, hword] at hnot
    change 2 ^ 32 - 1 - base = 0 at hnot
    omega
  have hadd := FileVar.addFind_spec hdst hbase ⟨pool.nTnodes + 1, pool.avail - 1⟩ (some leaf)
  have hfound := hadd.enough (by simp only [YAFFS_TNODES_MAX_LEVEL]; omega)
  generalize hr : yaffsAddFindTnode0 dst ⟨pool.nTnodes + 1, pool.avail - 1⟩ base (some leaf) = r at hadd hfound
  obtain ⟨found, dst', pool'⟩ := r
  obtain ⟨found, rfl⟩ := Option.isSome_iff_exists.mp hfound
  refine ⟨dst', pool', ?_, hadd.sound, ?_, ?_, ?_⟩
  · have hbytes : recordBytes (base, leaf) ++ rest = wordBytes (BitVec.ofNat 32 base) ++ (leafBytes leaf ++ rest) :=
      List.append_assoc ..
    have hshort : ¬ (wordBytes (BitVec.ofNat 32 base) ++ (leafBytes leaf ++ rest)).length < 4 := by
      rw [List.length_append]
      exact Nat.not_lt.mpr (Nat.le_add_right 4 _)
    have htake : (wordBytes (BitVec.ofNat 32 base) ++ (leafBytes leaf ++ rest)).take 4 = wordBytes (BitVec.ofNat 32 base) :=
      List.take_left' rfl
    have hdrop : (wordBytes (BitVec.ofNat 32 base) ++ (leafBytes leaf ++ rest)).drop 4 = leafBytes leaf ++ rest :=
      List.drop_left' rfl
    have hleaf : ¬ (leafBytes leaf ++ rest).length < g.tnodeSize := by
      rw [List.length_append, length_leafBytes]
      exact Nat.not_lt.mpr (Nat.le_add_right _ _)
    rw [hbytes, yaffs2RdCheckptTnodes, if_neg hshort, htake, hdrop, bytesWord_wordBytes]
    simp only
    rw [if_neg hmore, yaffsGetTnode, if_neg (by omega)]
    simp only
    rw [if_neg hleaf, List.take_left' (length_leafBytes leaf), List.drop_left' (length_leafBytes leaf),
      bytesLeaf_leafBytes, hword, hr]
    rfl
  · funext id
    split_ifs with hsame
    · obtain ⟨hreached, hfound⟩ := hadd.reached found rfl
      rw [FileVar.tnode0_congr hsame, ← FileVar.find_getD hadd.sound.level_le hbase, hreached, hfound]
      rfl
    · exact hadd.others id (.inr hsame)
  · have hbalanced := hadd.balanced
    rw [if_pos ⟨rfl, rfl⟩] at hbalanced
    simp only at hbalanced
    omega
  · have := hadd.avail
    simp only [YAFFS_TNODES_MAX_LEVEL] at this
    omega

theorem read_records : ∀ (recs : List (Nat × Leaf g)) (dst : FileVar g) (pool : TnodePool) (rest : List Byte), dst.Sound →
    (∀ r ∈ recs, r.1 % 16 = 0 ∧ r.1 ≤ YAFFS_MAX_CHUNK_ID) → 17 * recs.length ≤ pool.avail →
    ∃ dst' pool', yaffs2RdCheckptTnodes (recs.flatMap recordBytes ++ (wordBytes 0xffffffff ++ rest)) dst pool =
        (true, rest, dst', pool') ∧ dst'.Sound ∧ dst'.tnode0 = override recs dst.tnode0 ∧
      pool'.nTnodes - dst'.tnodes = pool.nTnodes - dst.tnodes := by
  intro recs
  induction recs with
  | nil =>
      intro dst pool rest hdst _ _
      refine ⟨dst, pool, ?_, hdst, rfl, rfl⟩
      have hshort : ¬ (wordBytes 0xffffffff ++ rest).length < 4 := by
        rw [List.length_append]
        exact Nat.not_lt.mpr (Nat.le_add_right 4 _)
      have htake : (wordBytes 0xffffffff ++ rest).take 4 = wordBytes 0xffffffff := List.take_left' rfl
      rw [List.flatMap_nil, List.nil_append, yaffs2RdCheckptTnodes, if_neg hshort, htake, bytesWord_wordBytes]
      exact if_pos (by decide)
  | cons r recs ih =>
      intro dst pool rest hdst hrecs havail
      rw [List.length_cons] at havail
      obtain ⟨hmod, hbase⟩ := hrecs r List.mem_cons_self
      obtain ⟨dst₁, pool₁, hread, hdst₁, htnode0, hcount, hleft⟩ := read_record r.2 hdst hmod hbase
        (show 17 ≤ pool.avail by omega) (recs.flatMap recordBytes ++ (wordBytes 0xffffffff ++ rest))
      obtain ⟨dst', pool', hrest, hdst', hall, hcount'⟩ := ih dst₁ pool₁ rest hdst₁
        (fun r hr => hrecs r (List.mem_cons_of_mem _ hr)) (by omega)
      refine ⟨dst', pool', ?_, hdst', ?_, hcount'.trans hcount⟩
      · rw [List.flatMap_cons, List.append_assoc, hread, hrest]
      · rw [hall, htnode0]
        rfl

/-- The tree of a file is read back from a checkpoint: every chunk has its entry again, and what follows in
the checkpoint is left to be read. -/
theorem checkpt_tnodes (h : file.Sound) (hpool : 17 * file.tnodes ≤ pool.avail) (rest : List Byte) :
    ∃ file' pool', yaffs2RdCheckptTnodes (yaffs2WrCheckptTnodes file ++ rest) ⟨0, some (Tnode.zero g 0)⟩ pool =
        (true, rest, file', pool') ∧ file'.Sound ∧ (∀ chunkId, file'.tnode0 chunkId = file.tnode0 chunkId) ∧
      pool'.nTnodes - file'.tnodes = pool.nTnodes - 1 := by
  obtain ⟨l, top⟩ := file
  have hbytes : yaffs2WrCheckptTnodes ⟨l, top⟩ ++ rest =
      (records l top 0).flatMap recordBytes ++ (wordBytes 0xffffffff ++ rest) := by
    rw [yaffs2WrCheckptTnodes, List.append_assoc]
    cases top with
    | none => exact absurd h.spine not_spine_none
    | some top => exact congrArg (· ++ _) (worker_eq l top 0)
  have hrecs : ∀ r ∈ records l top 0, r.1 % 16 = 0 ∧ r.1 ≤ YAFFS_MAX_CHUNK_ID := by
    intro r hr
    obtain ⟨hmod, hdiv⟩ := records_base l top 0 r hr
    have hlow : r.1 / 16 < 8 ^ l := (Nat.div_eq_zero_iff_lt (Nat.pow_pos (by decide))).mp hdiv
    have hle : 8 ^ l ≤ 8 ^ YAFFS_TNODES_MAX_LEVEL := Nat.pow_le_pow_right (by decide) h.level_le
    have hlast : YAFFS_MAX_CHUNK_ID + 1 = 16 * 8 ^ YAFFS_TNODES_MAX_LEVEL := by decide
    exact ⟨hmod, by omega⟩
  have hlength := length_records_le l top 0
  obtain ⟨file', pool', hread, hsound, htnode0, hcount⟩ := read_records (records l top 0) ⟨0, some (Tnode.zero g 0)⟩ pool
    rest ⟨Nat.zero_le _, rfl⟩ hrecs (Nat.le_trans (Nat.mul_le_mul_left 17 hlength) hpool)
  refine ⟨file', pool', by rw [hbytes, hread], hsound, fun chunkId => ?_, hcount⟩
  have hzero : FileVar.tnode0 (⟨0, some (Tnode.zero g 0)⟩ : FileVar g) chunkId = Leaf.zero g := by
    rw [FileVar.tnode0]
    split_ifs <;> rfl
  rw [htnode0, override_records, hzero, FileVar.tnode0]
  exact if_congr (Nat.div_eq_zero_iff_lt (Nat.pow_pos (by decide))) rfl rfl

/-- A file of three levels: its chunk 675 is the chunk 70 of the device. -/
def threeLevels : FileVar .grouped :=
  let first := (Tnode.zero .grouped 1).setInternal ⟨0, by decide⟩ (some (Tnode.zero .grouped 0))
  let last := (Tnode.zero .grouped 1).setInternal ⟨2, by decide⟩ (some (Tnode.ofMap (yaffsLoadTnode0 (Leaf.zero .grouped) 675 70)))
  ⟨2, some (((Tnode.zero .grouped 2).setInternal ⟨0, by decide⟩ (some first)).setInternal ⟨5, by decide⟩ (some last))⟩

theorem threeLevels_sound : threeLevels.Sound := ⟨by decide, _, rfl, _, rfl, rfl⟩

example : (threeLevels.top.bind (traverse 675 threeLevels.topLevel)).map (yaffsGetGroupBase · 675) = some 70 := by
  decide

theorem checkpt_tnodes_threeLevels :
    ∃ file' pool', yaffs2RdCheckptTnodes (yaffs2WrCheckptTnodes threeLevels ++ [7, 8])
        ⟨0, some (Tnode.zero .grouped 0)⟩ ⟨1, 85⟩ = (true, [7, 8], file', pool') ∧ file'.Sound ∧
      (∀ chunkId, file'.tnode0 chunkId = threeLevels.tnode0 chunkId) ∧ pool'.nTnodes - file'.tnodes = 1 - 1 :=
  checkpt_tnodes threeLevels_sound (by decide) [7, 8]

end Fl2440.Yaffs
