import Mathlib.Data.Finsupp.Single
import Fl2440.Yaffs.FileTree
import Fl2440.Yaffs.PackedTags2
import Fl2440.Yaffs.K9f2g08Api

/-! `yaffs_guts.c`: which chunk of the device holds a chunk of a file. -/
namespace Fl2440.Yaffs

open Fl2440.Lib Fl2440.MyBoot

/-- What a device says of its chunks: `yaffs_check_chunk_bit`, and the tags that are read. -/
structure ChunkView where
  checkChunkBit : Nat → Bool
  tags : Nat → ExtTags

/-- The part of `struct yaffs_obj` that a file has for its chunks. -/
structure FileObj (g : TnodeLayout) where
  objId : Word
  file : FileVar g
  nDataChunks : Int

variable {g : TnodeLayout}

def yaffsTagsMatch (tags : ExtTags) (objId chunkObj : Word) : Bool :=
  tags.chunkId == chunkObj && tags.objId == objId && tags.isDeleted == 0

/-- The loop of `yaffs_find_chunk_in_group`, with the number of chunks that are left. -/
def findInGroup (g : TnodeLayout) (v : ChunkView) (objId inodeChunk : Word) : Nat → Nat → Int
  | 0, _ => -1
  | left + 1, theChunk =>
      if theChunk = 0 then -1
      else if v.checkChunkBit theChunk &&
          (g.chunkGrpSize == 1 || yaffsTagsMatch (v.tags theChunk) objId inodeChunk) then theChunk
      else findInGroup g v objId inodeChunk left (theChunk + 1)

def yaffsFindChunkInGroup (g : TnodeLayout) (v : ChunkView) (theChunk : Nat) (objId inodeChunk : Word) : Int :=
  findInGroup g v objId inodeChunk g.chunkGrpSize theChunk

def yaffsFindChunkInFile (v : ChunkView) (obj : FileObj g) (inodeChunk : Nat) : Int :=
  (yaffsFindTnode0 obj.file inodeChunk).elim (-1) fun tn =>
    yaffsFindChunkInGroup g v (yaffsGetGroupBase tn inodeChunk).toNat obj.objId (BitVec.ofNat 32 inodeChunk)

def FileVar.setTnode0 (file : FileVar g) (chunkId : Nat) (leaf : Leaf g) : FileVar g :=
  ⟨file.topLevel, file.top.map (Yaffs.setTnode0 chunkId leaf file.topLevel)⟩

def yaffsFindDelFileChunk (v : ChunkView) (obj : FileObj g) (inodeChunk : Nat) : Int × FileObj g :=
  (yaffsFindTnode0 obj.file inodeChunk).elim (-1, obj) fun tn =>
    let theChunk := (yaffsGetGroupBase tn inodeChunk).toNat
    let retVal := yaffsFindChunkInGroup g v theChunk obj.objId (BitVec.ofNat 32 inodeChunk)
    if retVal ≠ -1 then
      (retVal, { obj with file := obj.file.setTnode0 inodeChunk (yaffsLoadTnode0 tn inodeChunk 0) })
    else (retVal, obj)

/-- What `yaffs_put_chunk_in_file` leaves; `deleted` is the chunk that it has deleted. -/
structure Put (g : TnodeLayout) where
  ret : Int
  deleted : Option Nat
  obj : FileObj g
  pool : TnodePool

/-- `yaffs_put_chunk_in_file` for a file; `backward` where `in_scan` is negative. It is not positive. -/
def yaffsPutChunkInFile (obj : FileObj g) (pool : TnodePool) (inodeChunk nandChunk : Nat) (backward : Bool) : Put g :=
  let r := yaffsAddFindTnode0 obj.file pool inodeChunk none
  let obj := { obj with file := r.2.1 }
  let pool := r.2.2
  r.1.elim ⟨YAFFS_FAIL, none, obj, pool⟩ fun tn =>
    if nandChunk = 0 then ⟨YAFFS_OK, none, obj, pool⟩
    else
      let existing := yaffsGetGroupBase tn inodeChunk
      if backward && 0 < existing.toInt then ⟨YAFFS_OK, some nandChunk, obj, pool⟩
      else
        let obj := if existing = 0 then { obj with nDataChunks := obj.nDataChunks + 1 } else obj
        let tn := yaffsLoadTnode0 tn inodeChunk (BitVec.ofNat 32 nandChunk)
        ⟨YAFFS_OK, none, { obj with file := obj.file.setTnode0 inodeChunk tn }, pool⟩

/-- The body of the loop of `yaffs_prune_chunks`; the chunks of the device are those from `first` to `last`. -/
def pruneChunk (v : ChunkView) (first last : Nat) (obj : FileObj g) (i : Nat) : Int × FileObj g :=
  let r := yaffsFindDelFileChunk v obj i
  let chunkId := r.1
  if chunkId < 1 then r
  else if chunkId < first ∨ last < chunkId then r
  else (chunkId, { r.2 with nDataChunks := r.2.nDataChunks - 1 })

inductive FileOp where
  | find (v : ChunkView) (inodeChunk : Nat)
  | put (inodeChunk nandChunk : Nat) (backward : Bool)
  | pruneChunk (v : ChunkView) (inodeChunk : Nat)
  | pruneTree

inductive FileReply where
  | chunk (chunkId : Int)
  | put (ret : Int) (deleted : Option Nat)
  | done
deriving DecidableEq

structure FileState (g : TnodeLayout) where
  obj : FileObj g
  pool : TnodePool

def fileStep (first last : Nat) (s : FileState g) : FileOp → FileReply × FileState g
  | .find v inodeChunk => (.chunk (yaffsFindChunkInFile v s.obj inodeChunk), s)
  | .put inodeChunk nandChunk backward =>
      let r := yaffsPutChunkInFile s.obj s.pool inodeChunk nandChunk backward
      (.put r.ret r.deleted, ⟨r.obj, r.pool⟩)
  | .pruneChunk v inodeChunk =>
      let r := pruneChunk v first last s.obj inodeChunk
      (.chunk r.1, ⟨r.2, s.pool⟩)
  | .pruneTree =>
      let r := yaffsPruneTree s.obj.file s.pool
      (.done, ⟨{ s.obj with file := r.1 }, r.2⟩)

def fileRun (first last : Nat) (s : FileState g) : List FileOp → List FileReply × FileState g
  | [] => ([], s)
  | op :: ops =>
      let r := fileStep first last s op
      let rest := fileRun first last r.2 ops
      (r.1 :: rest.1, rest.2)

def FileObj.new (g : TnodeLayout) (objId : Word) : FileObj g := ⟨objId, ⟨0, some (Tnode.zero g 0)⟩, 0⟩

/-! ### What the tree stands for -/

/-- For every chunk of a file the first chunk of the group that holds it, and 0 where there is none. -/
abbrev ChunkMap := Nat →₀ Nat

def TnodeLayout.groupOf (g : TnodeLayout) (chunk : Nat) : Nat := chunk / g.chunkGrpSize * g.chunkGrpSize

/-- The chunk is in use and has the tags of this chunk of the file. Alone in its group it needs no tags. -/
def ChunkView.Shows (v : ChunkView) (g : TnodeLayout) (objId inodeChunk : Word) (chunk : Nat) : Prop :=
  v.checkChunkBit chunk = true ∧ (g.chunkGrpSize = 1 ∨
    (v.tags chunk).chunkId = inodeChunk ∧ (v.tags chunk).objId = objId ∧ (v.tags chunk).isDeleted = 0)

instance (v : ChunkView) (g : TnodeLayout) (objId inodeChunk : Word) :
    DecidablePred (v.Shows g objId inodeChunk) := fun _ => inferInstanceAs (Decidable (_ ∧ _))

/-- The first chunk of the group that the view shows to be the one looked for. -/
def ChunkMap.find (m : ChunkMap) (g : TnodeLayout) (v : ChunkView) (objId : Word) (inodeChunk : Nat) : Option Nat :=
  if m inodeChunk = 0 then none
  else (List.range' (m inodeChunk) g.chunkGrpSize).find? (v.Shows g objId (BitVec.ofNat 32 inodeChunk) ·)

/-- `granted` where there were tnodes enough. -/
noncomputable def mapStep (g : TnodeLayout) (objId : Word) (granted : Bool) (m : ChunkMap) : FileOp → FileReply × ChunkMap
  | .find v inodeChunk => (.chunk ((m.find g v objId inodeChunk).elim (-1) Nat.cast), m)
  | .put inodeChunk nandChunk backward =>
      if !granted then (.put YAFFS_FAIL none, m)
      else if nandChunk = 0 then (.put YAFFS_OK none, m)
      else if backward && 0 < m inodeChunk then (.put YAFFS_OK (some nandChunk), m)
      else (.put YAFFS_OK none, m.update inodeChunk (g.groupOf nandChunk))
  | .pruneChunk v inodeChunk =>
      (m.find g v objId inodeChunk).elim (.chunk (-1), m) fun chunk => (.chunk chunk, m.erase inodeChunk)
  | .pruneTree => (.done, m)

noncomputable def mapRun (g : TnodeLayout) (objId : Word) (m : ChunkMap) : List FileOp → List Bool → List FileReply × ChunkMap
  | [], _ => ([], m)
  | op :: ops, granted =>
      let r := mapStep g objId (granted.headD false) m op
      let rest := mapRun g objId r.2 ops granted.tail
      (r.1 :: rest.1, rest.2)

/-- Chunks are put where the device has them, and chunks that are not of the device are not in use. -/
def FileOp.Valid (g : TnodeLayout) (first last : Nat) : FileOp → Prop
  | .find _ _ => True
  | .put _ nandChunk _ =>
      nandChunk ≠ 0 → g.chunkGrpSize ≤ nandChunk ∧ nandChunk < 2 ^ (g.tnodeWidth + g.chunkGrpBits)
  | .pruneChunk v _ => ∀ chunk, v.checkChunkBit chunk → first ≤ chunk ∧ chunk ≤ last
  | .pruneTree => True

def FileOp.InFile : FileOp → Prop
  | .put inodeChunk _ _ => inodeChunk ≤ YAFFS_MAX_CHUNK_ID
  | _ => True

/-- The tree holds the chunks of `m`, `n_data_chunks` is their number, and `n_tnodes` counts its tnodes
with those that `rest` other files have. -/
structure FileState.Holds (s : FileState g) (objId : Word) (rest : Int) (m : ChunkMap) : Prop where
  objId_eq : s.obj.objId = objId
  sound : s.obj.file.Sound
  chunks : ∀ id ≤ YAFFS_MAX_CHUNK_ID, (yaffsGetGroupBase (s.obj.file.tnode0 id) id).toNat = m id
  none_above : ∀ id, YAFFS_MAX_CHUNK_ID < id → m id = 0
  count : s.obj.nDataChunks = m.support.card
  tnodes : s.pool.nTnodes = s.obj.file.tnodes + rest

variable {v : ChunkView} {first last id other chunk : Nat} {objId : Word} {s : FileState g} {rest : Int} {m : ChunkMap}
  {obj : FileObj g} {file : FileVar g} {tn leaf : Leaf g}

theorem getGroupBase_zero (pos : Nat) : yaffsGetGroupBase (Leaf.zero g) pos = 0 := by
  have hload : PackedWords.load g.tnodeWidth (Leaf.zero g) ((pos &&& 0xf) * g.tnodeWidth) = 0#32 := by
    have := g.bits_lt
    refine BitVec.eq_of_getLsbD_eq fun j _ => ?_
    rw [PackedWords.getLsbD_load (by decide) (by omega), Leaf.zero, PackedWords.bitAt_zero, Bool.and_false,
      BitVec.getLsbD_zero]
  rw [yaffsGetGroupBase_eq, hload, BitVec.zero_shiftLeft]
  rfl

theorem getGroupBase_toInt (map : Leaf g) (pos : Nat) : 0 < (yaffsGetGroupBase map pos).toInt ↔
    0 < (yaffsGetGroupBase map pos).toNat := by
  have hbits := g.bits_lt
  have hmask : g.tnodeMask.toNat = 2 ^ g.tnodeWidth - 1 := PackedWords.toNat_mask (by omega)
  have hpos := Nat.two_pow_pos g.tnodeWidth
  have hlt : (yaffsGetGroupBase map pos).toNat < 2 ^ 31 := by
    rw [yaffsGetGroupBase, BitVec.toNat_shiftLeft, BitVec.toNat_and, hmask, Nat.shiftLeft_eq]
    refine Nat.lt_of_le_of_lt (Nat.mod_le _ _) ?_
    calc
      _ ≤ (2 ^ g.tnodeWidth - 1) * 2 ^ g.chunkGrpBits := Nat.mul_le_mul_right _ Nat.and_le_right
      _ < 2 ^ g.tnodeWidth * 2 ^ g.chunkGrpBits :=
        Nat.mul_lt_mul_of_pos_right (Nat.pred_lt hpos.ne') (Nat.two_pow_pos _)
      _ ≤ 2 ^ 31 := by
        rw [← Nat.pow_add]
        exact Nat.pow_le_pow_right (by decide) (by omega)
  rw [BitVec.toInt_eq_toNat_of_lt (by omega)]
  exact Int.natCast_pos

theorem shows_iff (g : TnodeLayout) (v : ChunkView) (objId inodeChunk : Word) (chunk : Nat) :
    (v.checkChunkBit chunk && (g.chunkGrpSize == 1 || yaffsTagsMatch (v.tags chunk) objId inodeChunk)) =
      decide (v.Shows g objId inodeChunk chunk) := by
  rw [Bool.eq_iff_iff, decide_eq_true_iff, ChunkView.Shows, yaffsTagsMatch]
  simp [and_assoc]

theorem findInGroup_eq (v : ChunkView) (objId inodeChunk : Word) (left : Nat) {theChunk : Nat} (hne : theChunk ≠ 0) :
    findInGroup g v objId inodeChunk left theChunk =
      ((List.range' theChunk left).find? (v.Shows g objId inodeChunk ·)).elim (-1) Nat.cast := by
  induction left generalizing theChunk with
  | zero => rfl
  | succ left ih =>
      rw [findInGroup, if_neg hne, shows_iff, List.range'_succ, List.find?_cons]
      cases decide (v.Shows g objId inodeChunk theChunk) with
      | true => rfl
      | false => exact ih (Nat.succ_ne_zero theChunk)

theorem findChunkInGroup_eq (m : ChunkMap) (v : ChunkView) (objId : Word) (id : Nat) :
    yaffsFindChunkInGroup g v (m id) objId (BitVec.ofNat 32 id) = (m.find g v objId id).elim (-1) Nat.cast := by
  rw [yaffsFindChunkInGroup, ChunkMap.find]
  split_ifs with hzero
  · rw [hzero]
    cases g.chunkGrpSize with
    | zero => rfl
    | succ left => rw [findInGroup, if_pos rfl]; rfl
  · exact findInGroup_eq v objId _ _ hzero

theorem find_eq_none {m : ChunkMap} (hzero : m id = 0) : m.find g v objId id = none := if_pos hzero

theorem find_eq_some {m : ChunkMap} (h : m.find g v objId id = some chunk) :
    m id ≠ 0 ∧ chunk ≠ 0 ∧ v.checkChunkBit chunk = true := by
  rw [ChunkMap.find] at h
  split_ifs at h with hzero
  obtain ⟨i, -, rfl⟩ := List.mem_range'.mp (List.mem_of_find?_eq_some h)
  have hshows := List.find?_some h
  rw [decide_eq_true_iff] at hshows
  exact ⟨hzero, by omega, hshows.1⟩

namespace FileVar

theorem traverse_of_find (h : file.Sound) (hid : id ≤ YAFFS_MAX_CHUNK_ID) (hfind : yaffsFindTnode0 file id = some tn) :
    id / 16 < 8 ^ file.topLevel ∧ file.top.bind (traverse id file.topLevel) = some tn := by
  rw [find_eq h.level_le hid] at hfind
  split_ifs at hfind with hlow
  exact ⟨hlow, hfind⟩

theorem setTnode0_spec (h : file.Sound) (hid : id ≤ YAFFS_MAX_CHUNK_ID) (hfind : yaffsFindTnode0 file id = some tn)
    (leaf : Leaf g) :
    (file.setTnode0 id leaf).Sound ∧ (file.setTnode0 id leaf).tnodes = file.tnodes ∧
      ∀ other, (file.setTnode0 id leaf).tnode0 other = if other / 16 = id / 16 then leaf else file.tnode0 other := by
  obtain ⟨hlow, htraverse⟩ := traverse_of_find h hid hfind
  obtain ⟨l, top⟩ := file
  cases top with
  | none => cases htraverse
  | some top =>
      refine ⟨⟨h.level_le, spine_setTnode0 leaf h.spine⟩, countTnodes_setTnode0 leaf htraverse, fun other => ?_⟩
      have hnew : (FileVar.setTnode0 ⟨l, some top⟩ id leaf).tnode0 other =
          if other / 16 < 8 ^ l then leafAt l (some (Yaffs.setTnode0 id leaf l top)) other else Leaf.zero g := rfl
      have hold : tnode0 ⟨l, some top⟩ other =
          if other / 16 < 8 ^ l then leafAt l (some top) other else Leaf.zero g := rfl
      rw [hnew, hold]
      by_cases hlow' : other / 16 < 8 ^ l
      · rw [if_pos hlow', if_pos hlow', leafAt_setTnode0 leaf htraverse]
        refine if_congr ?_ rfl rfl
        rw [SameLeaf, Nat.mod_eq_of_lt hlow, Nat.mod_eq_of_lt hlow']
      · have hne : ¬ other / 16 = id / 16 := fun heq => hlow' (by rw [heq]; exact hlow)
        rw [if_neg hlow', if_neg hlow', if_neg hne]

theorem groupBase_setTnode0 (h : file.Sound) (hid : id ≤ YAFFS_MAX_CHUNK_ID) (hfind : yaffsFindTnode0 file id = some tn)
    (val : BitVec 32) (other : Nat) :
    yaffsGetGroupBase ((file.setTnode0 id (yaffsLoadTnode0 tn id val)).tnode0 other) other =
      if other = id then g.groupBase val else yaffsGetGroupBase (file.tnode0 other) other := by
  have htn : file.tnode0 id = tn := by rw [← find_getD h.level_le hid, hfind, Option.getD_some]
  rw [(setTnode0_spec h hid hfind _).2.2]
  by_cases heq : other = id
  · rw [heq, if_pos rfl, if_pos rfl, getGroupBase_load_self]
  · rw [if_neg heq]
    split_ifs with hdiv
    · have hsame : file.tnode0 other = tn := by
        rw [← htn, tnode0_congr hdiv]
      rw [getGroupBase_load_of_ne tn (by omega), hsame]
    · rfl

end FileVar

namespace FileState.Holds

theorem lookup (h : s.Holds objId rest m) (id : Nat) :
    yaffsFindTnode0 s.obj.file id = none ∧ m id = 0 ∨
      ∃ tn, yaffsFindTnode0 s.obj.file id = some tn ∧ id ≤ YAFFS_MAX_CHUNK_ID ∧ (yaffsGetGroupBase tn id).toNat = m id := by
  by_cases hid : id ≤ YAFFS_MAX_CHUNK_ID
  · have hbase := h.chunks id hid
    have htn := FileVar.find_getD h.sound.level_le hid
    cases hfind : yaffsFindTnode0 s.obj.file id with
    | none =>
        rw [hfind, Option.getD_none] at htn
        rw [← htn, getGroupBase_zero] at hbase
        exact .inl ⟨rfl, hbase.symm⟩
    | some tn =>
        rw [hfind, Option.getD_some] at htn
        exact .inr ⟨tn, rfl, hid, htn ▸ hbase⟩
  · have hnone : yaffsFindTnode0 s.obj.file id = none := by
      rw [yaffsFindTnode0, if_neg (Nat.not_lt.mpr h.sound.level_le), if_pos (Nat.lt_of_not_le hid)]
    exact .inl ⟨hnone, h.none_above id (Nat.lt_of_not_le hid)⟩

theorem find_eq (h : s.Holds objId rest m) (v : ChunkView) (id : Nat) :
    yaffsFindChunkInFile v s.obj id = (m.find g v objId id).elim (-1) Nat.cast := by
  rw [yaffsFindChunkInFile, h.objId_eq]
  rcases h.lookup id with ⟨hfind, hzero⟩ | ⟨tn, hfind, -, hbase⟩
  · rw [hfind, find_eq_none hzero]
    rfl
  · rw [hfind, Option.elim_some, hbase, findChunkInGroup_eq]

theorem write (h : s.Holds objId rest m) (hid : id ≤ YAFFS_MAX_CHUNK_ID) (hfind : yaffsFindTnode0 s.obj.file id = some tn)
    (val : BitVec 32) {n : Int} (hn : n = (m.update id (g.groupBase val).toNat).support.card) :
    Holds ⟨⟨s.obj.objId, s.obj.file.setTnode0 id (yaffsLoadTnode0 tn id val), n⟩, s.pool⟩ objId rest
      (m.update id (g.groupBase val).toNat) where
  objId_eq := h.objId_eq
  sound := (FileVar.setTnode0_spec h.sound hid hfind _).1
  chunks := by
    intro other hother
    rw [FileVar.groupBase_setTnode0 h.sound hid hfind, Finsupp.update_apply]
    split_ifs with heq
    · rfl
    · exact h.chunks other hother
  none_above := by
    intro other hother
    rw [Finsupp.update_apply, if_neg (by omega)]
    exact h.none_above other hother
  count := hn
  tnodes := h.tnodes.trans (by rw [(FileVar.setTnode0_spec h.sound hid hfind _).2.1])

theorem groupBase_val_zero : (g.groupBase 0).toNat = 0 := by
  rw [TnodeLayout.groupBase]
  simp

def Step (first last : Nat) (s : FileState g) (objId : Word) (rest : Int) (m : ChunkMap) (op : FileOp) (granted : Bool) :
    Prop :=
  (fileStep first last s op).1 = (mapStep g objId granted m op).1 ∧
    (fileStep first last s op).2.Holds objId rest (mapStep g objId granted m op).2

theorem prune_step (h : s.Holds objId rest m) (hv : ∀ chunk, v.checkChunkBit chunk → first ≤ chunk ∧ chunk ≤ last)
    (id : Nat) : Step first last s objId rest m (.pruneChunk v id) true := by
  unfold Step
  rw [fileStep, mapStep]
  rcases h.lookup id with ⟨hfind, hzero⟩ | ⟨tn, hfind, hid, hbase⟩
  · have hdel : yaffsFindDelFileChunk v s.obj id = (-1, s.obj) := by rw [yaffsFindDelFileChunk, hfind]; rfl
    rw [pruneChunk, hdel, find_eq_none hzero]
    exact ⟨rfl, h⟩
  · have hgroup : yaffsFindChunkInGroup g v (m id) s.obj.objId (BitVec.ofNat 32 id) =
        (m.find g v objId id).elim (-1) Nat.cast := by rw [h.objId_eq, findChunkInGroup_eq]
    cases hchunk : m.find g v objId id with
    | none =>
        have hdel : yaffsFindDelFileChunk v s.obj id = (-1, s.obj) := by
          rw [yaffsFindDelFileChunk, hfind, Option.elim_some, hbase]
          simp only [hgroup, hchunk]
          rfl
        rw [pruneChunk, hdel]
        exact ⟨rfl, h⟩
    | some chunk =>
        obtain ⟨hentry, hne, hbit⟩ := find_eq_some hchunk
        obtain ⟨hfirst, hlast⟩ := hv chunk hbit
        have hcount : s.obj.nDataChunks - 1 = (m.update id 0).support.card := by
          have hmem : id ∈ m.support := Finsupp.mem_support_iff.mpr hentry
          have hpos := Finset.card_pos.mpr ⟨id, hmem⟩
          rw [Finsupp.support_update_zero, Finset.card_erase_of_mem hmem, h.count]
          omega
        have hwrite := h.write hid hfind 0 (n := s.obj.nDataChunks - 1)
        have hdel : yaffsFindDelFileChunk v s.obj id =
            ((chunk : Int), { s.obj with file := s.obj.file.setTnode0 id (yaffsLoadTnode0 tn id 0) }) := by
          rw [yaffsFindDelFileChunk, hfind, Option.elim_some, hbase]
          simp only [hgroup, hchunk, Option.elim_some]
          exact if_pos (show (chunk : Int) ≠ -1 by omega)
        rw [groupBase_val_zero, ← Finsupp.erase_eq_update_zero] at hwrite
        rw [← Finsupp.erase_eq_update_zero] at hcount
        rw [pruneChunk, hdel]
        simp only [Option.elim_some]
        rw [if_neg (by omega), if_neg (by omega)]
        exact ⟨rfl, hwrite hcount⟩

theorem added (h : s.Holds objId rest m) {found : Option (Leaf g)} {file' : FileVar g} {pool' : TnodePool} {need : Nat}
    (hadd : FileVar.Extended need id none s.obj.file s.pool found file' pool') (hid : id ≤ YAFFS_MAX_CHUNK_ID) :
    Holds ⟨⟨s.obj.objId, file', s.obj.nDataChunks⟩, pool'⟩ objId rest m where
  objId_eq := h.objId_eq
  sound := hadd.sound
  chunks := by
    intro other hother
    have hsame : file'.tnode0 other = s.obj.file.tnode0 other := by
      cases hfound : found with
      | none => exact hadd.others other (.inl hfound)
      | some leaf =>
          by_cases hdiv : other / 16 = id / 16
          · obtain ⟨hreached, hleaf⟩ := hadd.reached leaf hfound
            rw [FileVar.tnode0_congr hdiv, FileVar.tnode0_congr hdiv, ← FileVar.find_getD hadd.sound.level_le hid, hreached]
            exact hleaf
          · exact hadd.others other (.inr hdiv)
    rw [← h.chunks other hother]
    simp only [hsame]
  none_above := h.none_above
  count := h.count
  tnodes := by
    have hbalanced := hadd.balanced
    rw [if_neg fun h => Bool.false_ne_true h.1] at hbalanced
    have := h.tnodes
    simp only
    omega

theorem replace (h : s.Holds objId rest m) (hid : id ≤ YAFFS_MAX_CHUNK_ID) (hfind : yaffsFindTnode0 s.obj.file id = some tn)
    (hbase : (yaffsGetGroupBase tn id).toNat = m id) {chunk : Nat} (hsize : g.chunkGrpSize ≤ chunk)
    (hlt : chunk < 2 ^ (g.tnodeWidth + g.chunkGrpBits)) :
    Holds ⟨⟨s.obj.objId, s.obj.file.setTnode0 id (yaffsLoadTnode0 tn id (BitVec.ofNat 32 chunk)),
      if yaffsGetGroupBase tn id = 0 then s.obj.nDataChunks + 1 else s.obj.nDataChunks⟩, s.pool⟩ objId rest
      (m.update id (g.groupOf chunk)) := by
  have hgroup : (g.groupBase (BitVec.ofNat 32 chunk)).toNat = g.groupOf chunk := groupBase_toNat hlt
  have hpos : 0 < g.chunkGrpSize := Nat.two_pow_pos _
  have hne : g.groupOf chunk ≠ 0 := by
    have := Nat.div_pos hsize hpos
    exact (Nat.mul_pos this hpos).ne'
  rw [← hgroup]
  refine h.write hid hfind _ ?_
  rw [hgroup, Finsupp.support_update_ne_zero _ _ hne]
  by_cases hold : m id = 0
  · have hzero : yaffsGetGroupBase tn id = 0 := BitVec.eq_of_toNat_eq (hbase.trans hold)
    rw [if_pos hzero, Finset.card_insert_of_notMem (Finsupp.notMem_support_iff.mpr hold), h.count]
    rfl
  · have hsome : yaffsGetGroupBase tn id ≠ 0 := by
      intro hzero
      rw [hzero] at hbase
      exact hold hbase.symm
    rw [if_neg hsome, Finset.insert_eq_self.mpr (Finsupp.mem_support_iff.mpr hold), h.count]

theorem put_pool (obj : FileObj g) (pool : TnodePool) (id chunk : Nat) (backward : Bool) :
    (yaffsPutChunkInFile obj pool id chunk backward).pool = (yaffsAddFindTnode0 obj.file pool id none).2.2 := by
  rw [yaffsPutChunkInFile]
  cases (yaffsAddFindTnode0 obj.file pool id none).1 with
  | none => rfl
  | some tn =>
      simp only [Option.elim_some]
      split_ifs <;> rfl

theorem put_step (h : s.Holds objId rest m) (id : Nat) {chunk : Nat} (backward : Bool)
    (hchunk : chunk ≠ 0 → g.chunkGrpSize ≤ chunk ∧ chunk < 2 ^ (g.tnodeWidth + g.chunkGrpBits)) :
    ∃ granted, Step first last s objId rest m (.put id chunk backward) granted ∧
      (id ≤ YAFFS_MAX_CHUNK_ID → 2 * YAFFS_TNODES_MAX_LEVEL ≤ s.pool.avail → granted = true) := by
  by_cases hid : id ≤ YAFFS_MAX_CHUNK_ID
  · have hadd := FileVar.addFind_spec h.sound hid s.pool none
    unfold Step
    rw [fileStep, yaffsPutChunkInFile]
    generalize yaffsAddFindTnode0 s.obj.file s.pool id none = r at hadd ⊢
    obtain ⟨found, file', pool'⟩ := r
    have hnew := h.added hadd hid
    cases found with
    | none =>
        refine ⟨false, ⟨rfl, hnew⟩, fun _ havail => ?_⟩
        cases hadd.enough havail
    | some tn =>
        have hfind := (hadd.reached tn rfl).1
        obtain ⟨tn', hfind', -, hbase⟩ := (hnew.lookup id).resolve_left fun hnone => by
          rw [hfind] at hnone
          cases hnone.1
        obtain rfl := Option.some.inj (hfind.symm.trans hfind')
        refine ⟨true, ?_, fun _ _ => rfl⟩
        rw [mapStep]
        simp only [Option.elim_some, Bool.not_true, Bool.false_eq_true, if_false]
        by_cases hzero : chunk = 0
        · rw [if_pos hzero, if_pos hzero]
          exact ⟨rfl, hnew⟩
        · obtain ⟨hsize, hlt⟩ := hchunk hzero
          have hsign : (backward && decide (0 < (yaffsGetGroupBase tn id).toInt)) = (backward && decide (0 < m id)) := by
            rw [← hbase]
            exact congrArg _ (decide_eq_decide.mpr (getGroupBase_toInt tn id))
          rw [if_neg hzero, if_neg hzero, hsign]
          by_cases hkeep : (backward && decide (0 < m id)) = true
          · rw [if_pos hkeep, if_pos hkeep]
            exact ⟨rfl, hnew⟩
          · have hreplaced := hnew.replace hid hfind hbase hsize hlt
            rw [if_neg hkeep, if_neg hkeep]
            refine ⟨rfl, ?_⟩
            split_ifs at hreplaced ⊢
            · exact hreplaced
            · exact hreplaced
  · have hnone : yaffsAddFindTnode0 s.obj.file s.pool id none = (none, s.obj.file, s.pool) := by
      rw [yaffsAddFindTnode0, if_neg (Nat.not_lt.mpr h.sound.level_le), if_pos (Nat.lt_of_not_le hid)]
    refine ⟨false, ?_, fun hle => absurd hle hid⟩
    unfold Step
    rw [fileStep, yaffsPutChunkInFile, hnone]
    exact ⟨rfl, h⟩

theorem prune_tree_step (h : s.Holds objId rest m) : Step first last s objId rest m .pruneTree true := by
  obtain ⟨hsound, hleaf, hcount, -⟩ := FileVar.pruneTree_spec h.sound s.pool
  refine ⟨rfl, ⟨h.objId_eq, hsound, fun id hid => ?_, h.none_above, h.count, ?_⟩⟩
  · have hbase := h.chunks id hid
    rw [← hleaf] at hbase
    exact hbase
  · have := h.tnodes
    show (yaffsPruneTree s.obj.file s.pool).2.nTnodes = (yaffsPruneTree s.obj.file s.pool).1.tnodes + rest
    omega

theorem step (h : s.Holds objId rest m) {op : FileOp} (hop : op.Valid g first last) :
    ∃ granted, Step first last s objId rest m op granted ∧
      (op.InFile → 2 * YAFFS_TNODES_MAX_LEVEL ≤ s.pool.avail → granted = true) := by
  match op, hop with
  | .find v id, _ => exact ⟨true, ⟨congrArg _ (h.find_eq v id), h⟩, fun _ _ => rfl⟩
  | .put id chunk backward, hchunk => exact h.put_step id backward hchunk
  | .pruneChunk v id, hv => exact ⟨true, h.prune_step hv id, fun _ _ => rfl⟩
  | .pruneTree, _ => exact ⟨true, h.prune_tree_step, fun _ _ => rfl⟩

theorem step_avail (h : s.Holds objId rest m) (first last : Nat) (op : FileOp) :
    s.pool.avail ≤ (fileStep first last s op).2.pool.avail + 2 * YAFFS_TNODES_MAX_LEVEL := by
  cases op with
  | find v id => exact Nat.le_add_right _ _
  | pruneChunk v id => exact Nat.le_add_right _ _
  | pruneTree => exact Nat.le_add_right_of_le (FileVar.pruneTree_spec h.sound s.pool).2.2.2
  | put id chunk backward =>
      rw [fileStep, put_pool]
      by_cases hid : id ≤ YAFFS_MAX_CHUNK_ID
      · exact (FileVar.addFind_spec h.sound hid s.pool none).avail
      · rw [yaffsAddFindTnode0, if_neg (Nat.not_lt.mpr h.sound.level_le), if_pos (Nat.lt_of_not_le hid)]
        exact Nat.le_add_right _ _

theorem run (ops : List FileOp) : ∀ {s : FileState g} {m : ChunkMap}, s.Holds objId rest m →
    (∀ op ∈ ops, op.Valid g first last) →
    ∃ granted, granted.length = ops.length ∧ (fileRun first last s ops).1 = (mapRun g objId m ops granted).1 ∧
      (fileRun first last s ops).2.Holds objId rest (mapRun g objId m ops granted).2 ∧
      ((∀ op ∈ ops, op.InFile) → 2 * YAFFS_TNODES_MAX_LEVEL * ops.length ≤ s.pool.avail → ∀ b ∈ granted, b = true) := by
  induction ops with
  | nil => exact fun h _ => ⟨[], rfl, rfl, h, fun _ _ b hb => absurd hb List.not_mem_nil⟩
  | cons op ops ih =>
      intro s m h hvalid
      obtain ⟨b, ⟨hreply, hnext⟩, henough⟩ := h.step (hvalid op List.mem_cons_self)
      obtain ⟨granted, hlength, hreplies, hlast, hall⟩ := ih hnext fun o ho => hvalid o (List.mem_cons_of_mem _ ho)
      refine ⟨b :: granted, congrArg (· + 1) hlength, ?_, hlast, fun hin havail => ?_⟩
      · rw [fileRun, mapRun, List.headD_cons, List.tail_cons, hreply, hreplies]
      · have hleft := h.step_avail first last op
        rw [List.length_cons, Nat.mul_succ] at havail
        intro c hc
        rcases List.mem_cons.mp hc with rfl | hc
        · exact henough (hin op List.mem_cons_self) (by omega)
        · exact hall (fun o ho => hin o (List.mem_cons_of_mem _ ho)) (by omega) c hc

theorem new (g : TnodeLayout) (objId : Word) (pool : TnodePool) :
    FileState.Holds ⟨FileObj.new g objId, pool⟩ objId (pool.nTnodes - 1) 0 := by
  refine ⟨rfl, ⟨Nat.zero_le _, rfl⟩, fun id _ => ?_, fun _ _ => rfl, rfl, ?_⟩
  · have hzero : (FileObj.new g objId).file.tnode0 id = Leaf.zero g := by
      rw [FileVar.tnode0]
      split_ifs <;> rfl
    rw [hzero, getGroupBase_zero]
    rfl
  · show pool.nTnodes = 1 + (pool.nTnodes - 1)
    omega

end FileState.Holds

/-- A chunk is put in a file and found, and another one takes its place. -/
def putTwice : List FileOp :=
  [.put 300 71 false, .find ⟨(· == 71), fun _ => { ExtTags.zero with objId := 257, chunkId := 300 }⟩ 300,
    .put 300 90 false, .pruneTree]

theorem putTwice_valid : ∀ op ∈ putTwice, op.Valid .grouped 64 131071 := by
  simp [putTwice, FileOp.Valid, TnodeLayout.grouped, TnodeLayout.chunkGrpSize]

end Fl2440.Yaffs
