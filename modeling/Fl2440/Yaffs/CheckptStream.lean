import Fl2440.Yaffs.Checkptrw
import Mathlib.Algebra.Order.Floor.Div
import Mathlib.Data.List.SplitLengths

/-! A checkpoint that is written and read again. -/
namespace Fl2440.Yaffs

open Fl2440.Lib Fl2440.MyBoot

variable {p : CheckptParam} {E : List Nat} {d d' d₀ : CheckptDev} {stored : List (List Byte)} {i k : Nat}

section Blocks

theorem ceilDiv_succ (hpos : 0 < i) : (k + 1) ⌈/⌉ i = k / i + 1 := by
  rw [Nat.ceilDiv_eq_add_pred_div, show k + 1 + i - 1 = k + i by omega, Nat.add_div_right _ hpos]

theorem ceilDiv_of_mod_eq (hpos : 0 < i) (h : k % i = 0) : k ⌈/⌉ i = k / i := by
  obtain ⟨q, rfl⟩ := Nat.dvd_of_mod_eq_zero h
  rw [Nat.ceilDiv_eq_add_pred_div, Nat.add_sub_assoc hpos, Nat.mul_add_div hpos, Nat.mul_div_cancel_left _ hpos,
    Nat.div_eq_of_lt (by omega), Nat.add_zero]

theorem ceilDiv_of_mod_ne (hpos : 0 < i) (h : k % i ≠ 0) : k ⌈/⌉ i = k / i + 1 := by
  obtain _ | k := k
  · simp at h
  rw [ceilDiv_succ hpos, Nat.succ_div_of_not_dvd fun hdvd => h (Nat.mod_eq_zero_of_dvd hdvd)]

theorem div_lt_ceilDiv {m : Nat} (hpos : 0 < m) (h : i < k) : i / m < k ⌈/⌉ m := by
  obtain _ | k := k
  · omega
  · rw [ceilDiv_succ hpos]
    exact Nat.lt_succ_of_le (Nat.div_le_div_right (Nat.le_of_lt_succ h))

def blocksFor (p : CheckptParam) (k : Nat) : Nat := k ⌈/⌉ p.chunksPerBlock

theorem blocksFor_succ : blocksFor p (k + 1) = k / p.chunksPerBlock + 1 := ceilDiv_succ p.chunks_pos

theorem blocksFor_of_mod_eq (h : k % p.chunksPerBlock = 0) : blocksFor p k = k / p.chunksPerBlock :=
  ceilDiv_of_mod_eq p.chunks_pos h

theorem blocksFor_of_mod_ne (h : k % p.chunksPerBlock ≠ 0) : blocksFor p k = k / p.chunksPerBlock + 1 :=
  ceilDiv_of_mod_ne p.chunks_pos h

theorem succ_div_mod_of_eq (hpos : 0 < i) (heq : k % i + 1 = i) : (k + 1) / i = k / i + 1 ∧ (k + 1) % i = 0 := by
  have hdiv := Nat.div_add_mod k i
  refine (Nat.div_mod_unique hpos).mpr ⟨?_, hpos⟩
  rw [Nat.mul_succ]
  omega

theorem succ_div_mod_of_ne (hpos : 0 < i) (hne : k % i + 1 ≠ i) :
    (k + 1) / i = k / i ∧ (k + 1) % i = k % i + 1 := by
  have hlt := Nat.mod_lt k hpos
  have hdiv := Nat.div_add_mod k i
  exact (Nat.div_mod_unique hpos).mpr ⟨by omega, by omega⟩

theorem find_block {P : Nat → Bool} {hi j next : Nat} (hsorted : E.Pairwise (· < ·)) (hj : j < E.length)
    (hhi : E[j] ≤ hi) (hprev : ∀ b ∈ E.take j, b < next) (hnext : next ≤ E[j])
    (hwanted : ∀ b, next ≤ b → b ≤ hi → (P b ↔ b ∈ E)) :
    (List.range' next (hi + 1 - next)).find? P = some E[j] := by
  refine List.find?_range'_eq_some.mpr ⟨?_, ?_, ?_⟩
  · exact (hwanted _ hnext hhi).mpr (List.getElem_mem hj)
  · rw [List.mem_range'_1]
    omega
  · intro b hb hlt
    rw [Bool.not_eq_true', ← Bool.not_eq_true, hwanted b hb (by omega)]
    intro hin
    obtain ⟨t, ht, rfl⟩ := List.mem_iff_getElem.mp hin
    obtain htj | htj := Nat.lt_or_ge t j
    · have hbefore : E[t] ∈ E.take j := List.mem_take_iff_getElem.mpr ⟨t, by omega, rfl⟩
      have := hprev _ hbefore
      omega
    · obtain rfl | htj := Nat.eq_or_lt_of_le htj
      · omega
      · have := List.pairwise_iff_getElem.mp hsorted j t hj ht htj
        omega

/-- Where the page `k` of a stream in the blocks `E` is. -/
def pageAt (p : CheckptParam) (E : List Nat) (k : Nat) : Nat :=
  E.getD (k / p.chunksPerBlock) 0 * p.chunksPerBlock + k % p.chunksPerBlock

theorem pageAt_div : pageAt p E k / p.chunksPerBlock = E.getD (k / p.chunksPerBlock) 0 := by
  rw [pageAt, Nat.mul_comm, Nat.mul_add_div p.chunks_pos, Nat.div_eq_of_lt (Nat.mod_lt _ p.chunks_pos), Nat.add_zero]

theorem pageAt_mod : pageAt p E k % p.chunksPerBlock = k % p.chunksPerBlock := by
  rw [pageAt, Nat.mul_comm, Nat.mul_add_mod, Nat.mod_mod]

theorem pageAt_inj (hsorted : E.Pairwise (· < ·)) (hi : i / p.chunksPerBlock < E.length)
    (hk : k / p.chunksPerBlock < E.length) (h : pageAt p E i = pageAt p E k) : i = k := by
  have hdiv := pageAt_div (p := p) (E := E) (k := i)
  have hmod := pageAt_mod (p := p) (E := E) (k := i)
  rw [h, pageAt_div, List.getD_eq_getElem _ _ hi, List.getD_eq_getElem _ _ hk] at hdiv
  rw [h, pageAt_mod] at hmod
  have hnodup : E.Nodup := hsorted.imp Nat.ne_of_lt
  have hquot := hnodup.getElem_inj_iff.mp hdiv
  rw [← Nat.div_add_mod i p.chunksPerBlock, ← Nat.div_add_mod k p.chunksPerBlock, hquot, hmod]

end Blocks

section Pages

def pageRec (p : CheckptParam) (E : List Nat) (k : Nat) (data : List Byte) : CheckptPage :=
  ⟨data, E.getD (k / p.chunksPerBlock) 0 + 1, k + 1, YAFFS_SEQUENCE_CHECKPOINT_DATA, .noError⟩

def pageLeft (p : CheckptParam) (E : List Nat) (k : Nat) (data : List Byte) : CheckptPage :=
  (p.program (pageAt p E k)).getD (pageRec p E k data)

/-- The block from which the one after the first `j` of the stream is looked for. -/
def nextFor (p : CheckptParam) (E : List Nat) (j : Nat) : Nat :=
  if j = 0 then p.internalStartBlock else E.getD (j - 1) 0 + 1

/-- A block that has a page of a checkpoint is known to have one, unless it is bad. -/
structure CheckptReady (p : CheckptParam) (d : CheckptDev) : Prop where
  tagged : ∀ b, p.internalStartBlock ≤ b → b ≤ p.internalEndBlock → d.bad b = false →
    (d.pages (b * p.chunksPerBlock)).seqNumber = YAFFS_SEQUENCE_CHECKPOINT_DATA → d.blockState b = .checkpoint
  good : ∀ b, p.internalStartBlock ≤ b → b ≤ p.internalEndBlock →
    d.blockState b = .empty ∨ d.blockState b = .checkpoint → d.bad b = false

/-- A device on which a checkpoint is going to be written: `E` are the blocks that are empty. -/
structure Room (p : CheckptParam) (E : List Nat) (d₀ : CheckptDev) : Prop where
  sorted : E.Pairwise (· < ·)
  range : ∀ b ∈ E, p.internalStartBlock ≤ b ∧ b ≤ p.internalEndBlock
  empty : ∀ b, p.internalStartBlock ≤ b → b ≤ p.internalEndBlock → (d₀.blockState b = .empty ↔ b ∈ E)
  avail : 0 < d₀.nErasedBlocks - p.nReservedBlocks
  ready : CheckptReady p d₀
  gone : ∀ b, p.internalStartBlock ≤ b → b ≤ p.internalEndBlock → d₀.blockState b ≠ .checkpoint

/-- Where a stream is after `k` pages, written or read. -/
structure Cursor (p : CheckptParam) (E : List Nat) (k : Nat) (d : CheckptDev) : Prop where
  seq : d.pageSeq = k
  blocks : d.blocksInCheckpt = blocksFor p k
  curNone : k % p.chunksPerBlock = 0 → d.curBlock = none
  cur : k % p.chunksPerBlock ≠ 0 → d.curBlock = E[k / p.chunksPerBlock]? ∧ d.curChunk = k % p.chunksPerBlock
  next : d.nextBlock = some (nextFor p E (blocksFor p k))

/-- The pages of `stored` have been written to the first blocks of `E`. -/
structure Stored (p : CheckptParam) (E : List Nat) (d₀ : CheckptDev) (stored : List (List Byte)) (d : CheckptDev) :
    Prop where
  fits : blocksFor p stored.length ≤ E.length
  state : ∀ b, d.blockState b = if b ∈ E.take (blocksFor p stored.length) then .checkpoint else d₀.blockState b
  erased : d.nErasedBlocks = d₀.nErasedBlocks
  bad : d.bad = d₀.bad
  pages : ∀ i (h : i < stored.length), d.pages (pageAt p E i) = pageLeft p E i stored[i]
  others : ∀ c, (∀ i < stored.length, c ≠ pageAt p E i) → d.pages c = d₀.pages c

theorem nextFor_le {j : Nat} (hsorted : E.Pairwise (· < ·)) (hstart : ∀ b ∈ E, p.internalStartBlock ≤ b)
    (hj : j < E.length) : nextFor p E j ≤ E[j] := by
  obtain _ | j := j
  · exact hstart _ (List.getElem_mem hj)
  · have hlt := List.pairwise_iff_getElem.mp hsorted j (j + 1) (by omega) hj (by omega)
    simp only [nextFor, Nat.add_one_ne_zero, if_false, Nat.add_sub_cancel]
    rw [List.getD_eq_getElem _ _ (by omega)]
    exact hlt

theorem start_le_nextFor {j : Nat} (hstart : ∀ b ∈ E, p.internalStartBlock ≤ b) (hj : j ≤ E.length) :
    p.internalStartBlock ≤ nextFor p E j := by
  obtain _ | j := j
  · exact Nat.le_refl _
  · simp only [nextFor, Nat.add_one_ne_zero, if_false, Nat.add_sub_cancel]
    rw [List.getD_eq_getElem _ _ hj]
    exact Nat.le_succ_of_le (hstart _ (List.getElem_mem _))

theorem lt_nextFor {j b : Nat} (hsorted : E.Pairwise (· < ·)) (hj : j ≤ E.length) (hb : b ∈ E.take j) :
    b < nextFor p E j := by
  obtain ⟨t, ht, rfl⟩ := List.mem_take_iff_getElem.mp hb
  obtain _ | j := j
  · omega
  · have hle : E[t] ≤ E[j] := by
      obtain rfl | hlt := Nat.eq_or_lt_of_le (show t ≤ j by omega)
      · exact Nat.le_refl _
      · exact Nat.le_of_lt (List.pairwise_iff_getElem.mp hsorted t j (by omega) (by omega) hlt)
    simp only [nextFor, Nat.add_one_ne_zero, if_false, Nat.add_sub_cancel]
    rw [List.getD_eq_getElem _ _ (by omega)]
    omega

theorem Cursor.seek {P : Nat → Bool} (h : Cursor p E k d) (hsorted : E.Pairwise (· < ·))
    (hrange : ∀ b ∈ E, p.internalStartBlock ≤ b ∧ b ≤ p.internalEndBlock) (hk : k / p.chunksPerBlock < E.length)
    (hmod : k % p.chunksPerBlock = 0)
    (hwanted : ∀ b, p.internalStartBlock ≤ b → b ≤ p.internalEndBlock → b ∉ E.take (k / p.chunksPerBlock) →
      (P b ↔ b ∈ E)) :
    ∃ next, d.nextBlock = some next ∧ next ≤ p.internalEndBlock ∧
      (blocksFrom p next).find? P = some E[k / p.chunksPerBlock] := by
  refine ⟨_, h.next, ?_, ?_⟩ <;> rw [blocksFor_of_mod_eq hmod]
  · exact Nat.le_trans (nextFor_le hsorted (fun b hb => (hrange b hb).1) hk) (hrange _ (List.getElem_mem hk)).2
  · refine find_block hsorted hk (hrange _ (List.getElem_mem hk)).2
      (fun b hb => lt_nextFor hsorted (by omega) hb) (nextFor_le hsorted (fun b hb => (hrange b hb).1) hk) ?_
    intro b hb hend
    have hstart := Nat.le_trans (start_le_nextFor (fun b hb => (hrange b hb).1) (Nat.le_of_lt hk)) hb
    refine hwanted b hstart hend fun hin => ?_
    have := lt_nextFor (p := p) hsorted (Nat.le_of_lt hk) hin
    omega

def sought (p : CheckptParam) (E : List Nat) (k : Nat) (d : CheckptDev) : CheckptDev :=
  { d with
    curBlock := some (E.getD (k / p.chunksPerBlock) 0)
    curChunk := k % p.chunksPerBlock
    nextBlock := some (E.getD (k / p.chunksPerBlock) 0 + 1) }

theorem Cursor.sought_eq (h : Cursor p E k d) (hk : k / p.chunksPerBlock < E.length) (hmod : k % p.chunksPerBlock ≠ 0) :
    d.curBlock.isNone = false ∧ sought p E k d = d := by
  have hcur := h.cur hmod
  have hnext := h.next
  rw [List.getElem?_eq_getElem hk] at hcur
  rw [blocksFor_of_mod_ne hmod, nextFor, if_neg (Nat.add_one_ne_zero _), Nat.add_sub_cancel] at hnext
  refine ⟨by simp [hcur.1], ?_⟩
  obtain ⟨⟩ := d
  simp_all [sought]

theorem Cursor.findErased (room : Room p E d₀) (h : Cursor p E stored.length d) (hs : Stored p E d₀ stored d)
    (hk : stored.length / p.chunksPerBlock < E.length) :
    (if d.curBlock.isNone then { checkptFindErasedBlock p d with curChunk := 0 } else d) =
      sought p E stored.length d := by
  by_cases hmod : stored.length % p.chunksPerBlock = 0
  · obtain ⟨next, hnext, hend, hfind⟩ := h.seek (P := (d.blockState · = .empty)) room.sorted room.range hk hmod (by
      intro b hlo hhi hnot
      rw [decide_eq_true_iff, hs.state, blocksFor_of_mod_eq hmod, if_neg hnot]
      exact room.empty b hlo hhi)
    have havail := room.avail
    rw [← hs.erased] at havail
    rw [h.curNone hmod, Option.isNone_none, if_pos rfl]
    simp only [checkptFindErasedBlock, hnext, Option.bind_some, if_pos (And.intro hend havail), hfind]
    simp [sought, hmod, hk]
  · obtain ⟨hsome, heq⟩ := h.sought_eq hk hmod
    rw [hsome, if_neg Bool.false_ne_true, heq]

theorem Cursor.succ (hk : k / p.chunksPerBlock < E.length) :
    let full := (k + 1) % p.chunksPerBlock = 0
    d'.pageSeq = k + 1 → d'.blocksInCheckpt = k / p.chunksPerBlock + 1 →
      d'.nextBlock = some (E.getD (k / p.chunksPerBlock) 0 + 1) → (full → d'.curBlock = none) →
      (¬full → d'.curBlock = some (E.getD (k / p.chunksPerBlock) 0) ∧ d'.curChunk = k % p.chunksPerBlock + 1) →
      Cursor p E (k + 1) d' := by
  intro full hseq hblocks hnext hnone hcur
  refine ⟨hseq, by rw [hblocks, blocksFor_succ], hnone, fun hne => ?_, ?_⟩
  · have hnot : k % p.chunksPerBlock + 1 ≠ p.chunksPerBlock := fun heq =>
      hne (succ_div_mod_of_eq p.chunks_pos heq).2
    obtain ⟨hdiv, hmod⟩ := succ_div_mod_of_ne p.chunks_pos hnot
    rw [hdiv, hmod, List.getElem?_eq_getElem hk, ← List.getD_eq_getElem _ 0 hk]
    exact hcur hne
  · rw [hnext, blocksFor_succ, nextFor, if_neg (Nat.add_one_ne_zero _), Nat.add_sub_cancel]

theorem full_iff : k % p.chunksPerBlock + 1 ≥ p.chunksPerBlock ↔ (k + 1) % p.chunksPerBlock = 0 := by
  have hlt := Nat.mod_lt k p.chunks_pos
  constructor
  · intro hge
    exact (succ_div_mod_of_eq p.chunks_pos (by omega)).2
  · intro h
    by_contra hlt'
    have := (succ_div_mod_of_ne p.chunks_pos (by omega : k % p.chunksPerBlock + 1 ≠ p.chunksPerBlock)).2
    omega

theorem Stored.append {data : List Byte} (hsorted : E.Pairwise (· < ·)) (hs : Stored p E d₀ stored d)
    (hk : stored.length / p.chunksPerBlock < E.length) (hbad : d'.bad = d.bad)
    (herased : d'.nErasedBlocks = d.nErasedBlocks)
    (hstate : d'.blockState = if stored.length % p.chunksPerBlock = 0 then
      Function.update d.blockState E[stored.length / p.chunksPerBlock] .checkpoint else d.blockState)
    (hpages : d'.pages =
      Function.update d.pages (pageAt p E stored.length) (pageLeft p E stored.length data)) :
    Stored p E d₀ (stored ++ [data]) d' := by
  have hlt : ∀ i < stored.length, i / p.chunksPerBlock < E.length := fun i hi =>
    Nat.lt_of_le_of_lt (Nat.div_le_div_right (Nat.le_of_lt hi)) hk
  have hlength : (stored ++ [data]).length = stored.length + 1 := by simp
  constructor
  case fits =>
    rw [hlength, blocksFor_succ]
    exact hk
  case state =>
    intro b
    rw [hlength, blocksFor_succ, List.take_succ_eq_append_getElem hk, hstate]
    split
    case isTrue hmod =>
      rw [Function.update_apply, hs.state, blocksFor_of_mod_eq hmod]
      by_cases hb : b = E[stored.length / p.chunksPerBlock]
      · rw [if_pos hb, if_pos (List.mem_append_right _ (List.mem_singleton.mpr hb))]
      · simp only [List.mem_append, List.mem_singleton, hb, or_false, if_false]
    case isFalse hmod =>
      rw [hs.state, blocksFor_of_mod_ne hmod, List.take_succ_eq_append_getElem hk]
  case erased => rw [herased, hs.erased]
  case bad => rw [hbad, hs.bad]
  case pages =>
    intro i hi
    rw [hpages, Function.update_apply]
    obtain hlast | hbefore := Nat.eq_or_lt_of_le (Nat.le_of_lt_succ (hlength ▸ hi))
    · subst hlast
      simp
    · rw [if_neg fun heq => Nat.ne_of_lt hbefore (pageAt_inj hsorted (hlt i hbefore) hk heq), hs.pages i hbefore,
        List.getElem_append_left hbefore]
  case others =>
    intro c hc
    rw [hpages, Function.update_of_ne (hc _ (by simp)), hs.others c fun i hi => hc i (by simp; omega)]

def flushed (p : CheckptParam) (E : List Nat) (k : Nat) (d : CheckptDev) : CheckptDev :=
  { d with
    blockState := if k % p.chunksPerBlock = 0 then
      Function.update d.blockState (E.getD (k / p.chunksPerBlock) 0) .checkpoint else d.blockState
    blocksInCheckpt := k / p.chunksPerBlock + 1
    pages := Function.update d.pages (pageAt p E k) (pageLeft p E k d.buffer)
    pageSeq := k + 1
    curChunk := if (k + 1) % p.chunksPerBlock = 0 then 0 else k % p.chunksPerBlock + 1
    curBlock := if (k + 1) % p.chunksPerBlock = 0 then none else some (E.getD (k / p.chunksPerBlock) 0)
    nextBlock := some (E.getD (k / p.chunksPerBlock) 0 + 1)
    buffer := checkptHdr (k + 1) d.sum d.xor ++ List.replicate (p.dataBytesPerChunk - checkptHdrSize) 0
    byteOffs := checkptHdrSize }

theorem checkptFlushBuffer_eq (room : Room p E d₀) (h : Cursor p E stored.length d) (hs : Stored p E d₀ stored d)
    (hk : stored.length / p.chunksPerBlock < E.length) :
    checkptFlushBuffer p d = (true, flushed p E stored.length d) := by
  have hblocks := h.blocks
  rw [checkptFlushBuffer, h.findErased room hs hk]
  by_cases hmod : stored.length % p.chunksPerBlock = 0
  · rw [blocksFor_of_mod_eq hmod] at hblocks
    have hge : p.chunksPerBlock ≤ 1 ↔ (stored.length + 1) % p.chunksPerBlock = 0 := by rw [← full_iff, hmod]
    by_cases hfull : (stored.length + 1) % p.chunksPerBlock = 0 <;>
      simp [sought, flushed, pageLeft, pageRec, pageAt, hge, checkptInitChunkHdr, h.seq, hblocks, hmod, hfull]
  · rw [blocksFor_of_mod_ne hmod] at hblocks
    by_cases hfull : (stored.length + 1) % p.chunksPerBlock = 0 <;>
      simp [sought, flushed, pageLeft, pageRec, pageAt, full_iff, checkptInitChunkHdr, h.seq, hblocks, hmod, hfull]

theorem Cursor.flushed (hk : k / p.chunksPerBlock < E.length) : Cursor p E (k + 1) (flushed p E k d) := by
  refine Cursor.succ hk rfl rfl rfl (fun hfull => ?_) (fun hfull => ?_) <;> simp [Yaffs.flushed, hfull]

theorem Stored.flushed (hsorted : E.Pairwise (· < ·)) (hs : Stored p E d₀ stored d)
    (hk : stored.length / p.chunksPerBlock < E.length) :
    Stored p E d₀ (stored ++ [d.buffer]) (flushed p E stored.length d) := by
  refine hs.append hsorted hk rfl rfl ?_ rfl
  rw [Yaffs.flushed, List.getD_eq_getElem _ _ hk]

end Pages

section Write

def payload (p : CheckptParam) : Nat := p.dataBytesPerChunk - checkptHdrSize

theorem payload_pos : 0 < payload p := Nat.sub_pos_of_lt p.hdr_lt

theorem payload_add : checkptHdrSize + payload p = p.dataBytesPerChunk := Nat.add_sub_cancel' (Nat.le_of_lt p.hdr_lt)

def sumOf (bs : List Byte) : Word := bs.foldl (fun sum b => sum + b.setWidth 32) 0

def xorOf (bs : List Byte) : Word := bs.foldl (fun xor b => xor ^^^ b.setWidth 32) 0

@[simp] theorem sumOf_append (bs : List Byte) (b : Byte) : sumOf (bs ++ [b]) = sumOf bs + b.setWidth 32 := by
  simp [sumOf]

@[simp] theorem xorOf_append (bs : List Byte) (b : Byte) : xorOf (bs ++ [b]) = xorOf bs ^^^ b.setWidth 32 := by
  simp [xorOf]

def pagePart (p : CheckptParam) (bs : List Byte) (k : Nat) : List Byte := (bs.drop (k * payload p)).take (payload p)

def pageData (p : CheckptParam) (bs : List Byte) (k : Nat) : List Byte :=
  let before := bs.take (k * payload p)
  checkptHdr k (sumOf before) (xorOf before) ++
    (pagePart p bs k ++ List.replicate (payload p - (pagePart p bs k).length) 0)

theorem checkptHdr_length (seq : Nat) (sum xor : Word) : (checkptHdr seq sum xor).length = checkptHdrSize := rfl

theorem take_checkptHdr (seq : Nat) (sum xor : Word) (data : List Byte) :
    (checkptHdr seq sum xor ++ data).take checkptHdrSize = checkptHdr seq sum xor :=
  List.take_left' (checkptHdr_length ..)

variable {bs : List Byte} {b : Byte}

theorem pageData_append (h : (k + 1) * payload p ≤ bs.length) : pageData p (bs ++ [b]) k = pageData p bs k := by
  have hle : k * payload p ≤ bs.length := Nat.le_trans (Nat.mul_le_mul_right _ (Nat.le_succ k)) h
  rw [Nat.succ_mul] at h
  have hpart : pagePart p (bs ++ [b]) k = pagePart p bs k := by
    rw [pagePart, pagePart, List.drop_append_of_le_length hle, List.take_append_of_le_length (by simp; omega)]
  rw [pageData, pageData, hpart, List.take_append_of_le_length hle]

theorem pagePart_last : pagePart p bs (bs.length / payload p) = bs.drop (bs.length / payload p * payload p) := by
  have hdiv := Nat.div_add_mod bs.length (payload p)
  have hlt := Nat.mod_lt bs.length (payload_pos (p := p))
  rw [Nat.mul_comm] at hdiv
  exact List.take_of_length_le (by simp; omega)

theorem pagePart_last_length : (pagePart p bs (bs.length / payload p)).length = bs.length % payload p := by
  have hdiv := Nat.div_add_mod bs.length (payload p)
  rw [Nat.mul_comm] at hdiv
  rw [pagePart_last, List.length_drop]
  omega

theorem pageData_set : (pageData p bs (bs.length / payload p)).set (checkptHdrSize + bs.length % payload p) b =
    pageData p (bs ++ [b]) (bs.length / payload p) := by
  have hlt := Nat.mod_lt bs.length (payload_pos (p := p))
  have hle : bs.length / payload p * payload p ≤ bs.length := Nat.div_mul_le_self _ _
  have hpart : pagePart p (bs ++ [b]) (bs.length / payload p) = pagePart p bs (bs.length / payload p) ++ [b] := by
    have hlength : (pagePart p bs (bs.length / payload p)).length = bs.length % payload p := pagePart_last_length
    rw [pagePart_last] at hlength ⊢
    rw [pagePart, List.drop_append_of_le_length hle, List.take_of_length_le]
    rw [List.length_append, hlength]
    exact hlt
  rw [pageData, pageData, hpart, List.take_append_of_le_length hle,
    List.set_append_right _ _ (by simp [checkptHdr_length]), checkptHdr_length, Nat.add_sub_cancel_left, ← pagePart_last_length, List.set_append_right _ _ (Nat.le_refl _),
    Nat.sub_self, List.append_assoc, List.length_append, pagePart_last_length]
  obtain ⟨rest, hrest⟩ := Nat.exists_eq_add_of_lt hlt
  rw [show payload p - bs.length % payload p = rest + 1 by omega,
    show payload p - (bs.length % payload p + [b].length) = rest by simp; omega, List.replicate_succ]
  rfl

/-- The stream is open, and `bs` has been written to it. -/
structure Writing (p : CheckptParam) (E : List Nat) (d₀ : CheckptDev) (bs : List Byte) (d : CheckptDev) : Prop where
  cursor : Cursor p E (bs.length / payload p) d
  stored : Stored p E d₀ ((List.range (bs.length / payload p)).map (pageData p bs)) d
  openWrite : d.openWrite = true
  buffer : d.buffer = pageData p bs (bs.length / payload p)
  byteOffs : d.byteOffs = checkptHdrSize + bs.length % payload p
  sum : d.sum = sumOf bs
  xor : d.xor = xorOf bs

/-- How many bytes the blocks of `E` take. -/
def capacity (p : CheckptParam) (E : List Nat) : Nat := E.length * p.chunksPerBlock * payload p

theorem page_lt (h : i < capacity p E) : i / payload p / p.chunksPerBlock < E.length := by
  have hmul : capacity p E = E.length * p.chunksPerBlock * payload p := rfl
  rw [Nat.div_lt_iff_lt_mul p.chunks_pos, Nat.div_lt_iff_lt_mul payload_pos, ← hmul]
  exact h

theorem map_pageData_append :
    (List.range (bs.length / payload p)).map (pageData p (bs ++ [b])) =
      (List.range (bs.length / payload p)).map (pageData p bs) := by
  refine List.map_congr_left fun i hi => pageData_append ?_
  rw [List.mem_range] at hi
  exact Nat.le_trans (Nat.mul_le_mul_right _ hi) (Nat.div_mul_le_self _ _)

theorem pageData_self (h : k * payload p = bs.length) :
    pageData p bs k = checkptHdr k (sumOf bs) (xorOf bs) ++ List.replicate (payload p) 0 := by
  simp [pageData, pagePart, h]

def buffered (d : CheckptDev) (b : Byte) : CheckptDev :=
  { d with
    buffer := d.buffer.set d.byteOffs b
    sum := d.sum + b.setWidth 32
    xor := d.xor ^^^ b.setWidth 32
    byteOffs := d.byteOffs + 1
    byteCount := d.byteCount + 1 }

theorem checkptWrByte_eq : checkptWrByte p d b =
    if d.byteOffs + 1 ≥ p.dataBytesPerChunk then checkptFlushBuffer p (buffered d b) else (true, buffered d b) := rfl

theorem Cursor.buffered (h : Cursor p E k d) : Cursor p E k (buffered d b) :=
  ⟨h.seq, h.blocks, h.curNone, h.cur, h.next⟩

theorem Stored.buffered (h : Stored p E d₀ stored d) : Stored p E d₀ stored (buffered d b) :=
  ⟨h.fits, h.state, h.erased, h.bad, h.pages, h.others⟩

theorem checkptWrByte_spec (room : Room p E d₀) (h : Writing p E d₀ bs d) (hfit : bs.length < capacity p E) :
    (checkptWrByte p d b).1 = true ∧ Writing p E d₀ (bs ++ [b]) (checkptWrByte p d b).2 := by
  have hlength : (bs ++ [b]).length = bs.length + 1 := by simp
  have hbuffer : (buffered d b).buffer = pageData p (bs ++ [b]) (bs.length / payload p) := by
    rw [← pageData_set, ← h.buffer, ← h.byteOffs]
    rfl
  have hsum : (buffered d b).sum = sumOf (bs ++ [b]) := by rw [sumOf_append, ← h.sum]; rfl
  have hxor : (buffered d b).xor = xorOf (bs ++ [b]) := by rw [xorOf_append, ← h.xor]; rfl
  have hpayload := payload_add (p := p)
  have hlt := Nat.mod_lt bs.length (payload_pos (p := p))
  rw [checkptWrByte_eq, h.byteOffs]
  by_cases hfull : bs.length % payload p + 1 = payload p
  · obtain ⟨hdiv, hmod⟩ := succ_div_mod_of_eq payload_pos hfull
    have hcount : ((List.range (bs.length / payload p)).map (pageData p bs)).length = bs.length / payload p := by simp
    have hk := page_lt hfit
    have hcursor := h.cursor.buffered (b := b)
    have hstored := h.stored.buffered (b := b)
    have hflush := checkptFlushBuffer_eq room (hcount.symm ▸ hcursor) hstored (hcount.symm ▸ hk)
    have hafter := hstored.flushed room.sorted (hcount.symm ▸ hk)
    rw [hcount] at hflush hafter
    rw [if_pos (by omega), hflush]
    refine ⟨rfl, ?_⟩
    constructor
    case cursor =>
      rw [hlength, hdiv]
      exact Cursor.flushed hk
    case stored =>
      rw [hlength, hdiv, List.range_succ, List.map_append, map_pageData_append, List.map_singleton, ← hbuffer]
      exact hafter
    case openWrite => exact h.openWrite
    case buffer =>
      have hself : (bs.length / payload p + 1) * payload p = (bs ++ [b]).length := by
        have hdivmod := Nat.div_add_mod bs.length (payload p)
        rw [Nat.mul_comm] at hdivmod
        rw [hlength, Nat.succ_mul]
        omega
      rw [hlength, hdiv, pageData_self hself, ← hsum, ← hxor]
      rfl
    case byteOffs => rw [hlength, hmod]; rfl
    case sum => exact hsum
    case xor => exact hxor
  · obtain ⟨hdiv, hmod⟩ := succ_div_mod_of_ne payload_pos hfull
    rw [if_neg (by omega)]
    refine ⟨rfl, ?_⟩
    constructor
    case cursor =>
      rw [hlength, hdiv]
      exact h.cursor.buffered
    case stored =>
      rw [hlength, hdiv, map_pageData_append]
      exact h.stored.buffered
    case openWrite => exact h.openWrite
    case buffer =>
      rw [hlength, hdiv]
      exact hbuffer
    case byteOffs =>
      rw [hlength, hmod, ← Nat.add_assoc, ← h.byteOffs]
      rfl
    case sum => exact hsum
    case xor => exact hxor

def checkptWrAll (p : CheckptParam) (d : CheckptDev) : List (List Byte) → List Nat × CheckptDev
  | [] => ([], d)
  | data :: rest =>
      let r := checkptWr p d data
      let rs := checkptWrAll p r.2 rest
      (r.1 :: rs.1, rs.2)

theorem checkptWr_spec (room : Room p E d₀) (data : List Byte) (h : Writing p E d₀ bs d)
    (hfit : bs.length + data.length ≤ capacity p E) :
    (checkptWr p d data).1 = data.length ∧ Writing p E d₀ (bs ++ data) (checkptWr p d data).2 := by
  induction data generalizing bs d with
  | nil => exact ⟨rfl, by rwa [List.append_nil]⟩
  | cons b data ih =>
    rw [List.length_cons] at hfit
    obtain ⟨hok, hstep⟩ := checkptWrByte_spec room h (b := b) (by omega)
    obtain ⟨hcount, hrest⟩ := ih hstep (by simp; omega)
    rw [checkptWr, hok, if_pos rfl, List.append_cons]
    exact ⟨congrArg (· + 1) hcount, hrest⟩

theorem checkptWrAll_spec (room : Room p E d₀) (ws : List (List Byte)) (h : Writing p E d₀ bs d)
    (hfit : bs.length + ws.flatten.length ≤ capacity p E) :
    (checkptWrAll p d ws).1 = ws.map List.length ∧ Writing p E d₀ (bs ++ ws.flatten) (checkptWrAll p d ws).2 := by
  induction ws generalizing bs d with
  | nil => exact ⟨rfl, by rwa [List.flatten_nil, List.append_nil]⟩
  | cons data ws ih =>
    rw [List.flatten_cons, List.length_append] at hfit
    obtain ⟨hcount, hstep⟩ := checkptWr_spec room data h (by omega)
    obtain ⟨hcounts, hrest⟩ := ih hstep (by rw [List.length_append]; omega)
    rw [checkptWrAll, List.flatten_cons, ← List.append_assoc]
    exact ⟨by rw [hcount, hcounts, List.map_cons], hrest⟩

end Write

section Open

structure Erasing (d d' : CheckptDev) : Prop where
  count : d.nErasedBlocks ≤ d'.nErasedBlocks
  gone : ∀ b, d.blockState b ≠ .checkpoint → d'.blockState b ≠ .checkpoint
  rest : d' = { d with
    blockState := d'.blockState
    nErasedBlocks := d'.nErasedBlocks
    nFreeChunks := d'.nFreeChunks
    pages := d'.pages
    bad := d'.bad }

theorem Erasing.refl (d : CheckptDev) : Erasing d d := ⟨Int.le_refl _, fun _ h => h, rfl⟩

theorem Erasing.trans {d₁ d₂ d₃ : CheckptDev} (h : Erasing d₁ d₂) (h' : Erasing d₂ d₃) : Erasing d₁ d₃ where
  count := Int.le_trans h.count h'.count
  gone b hb := h'.gone b (h.gone b hb)
  rest := by
    rw [h'.rest, h.rest]

theorem checkptEraseBlock_spec (hready : CheckptReady p d) (i : Nat) :
    CheckptReady p (checkptEraseBlock p d i) ∧ Erasing d (checkptEraseBlock p d i) ∧
      (checkptEraseBlock p d i).blockState i ≠ .checkpoint := by
  rw [checkptEraseBlock]
  split_ifs with hstate herases
  · refine ⟨⟨fun b hlo hhi hbad htag => ?_, fun b hlo hhi hempty => ?_⟩,
      ⟨Int.le_add_one (Int.le_refl _), fun b hb => ?_, rfl⟩, by simp⟩
    · have hne : b ≠ i := by
        rintro rfl
        simp only [Nat.mul_div_cancel _ p.chunks_pos, if_true] at htag
        exact absurd htag (show (0 : Word) ≠ 0x21 by decide)
      simp only [Nat.mul_div_cancel _ p.chunks_pos, if_neg hne] at htag
      simp only [Function.update_of_ne hne]
      exact hready.tagged b hlo hhi hbad htag
    · by_cases hne : b = i
      · exact hready.good b hlo hhi (.inr (hne ▸ hstate))
      · simp only [Function.update_of_ne hne] at hempty
        exact hready.good b hlo hhi hempty
    · by_cases hne : b = i
      · simp [hne]
      · simpa only [Function.update_of_ne hne] using hb
  · refine ⟨⟨fun b hlo hhi hbad htag => ?_, fun b hlo hhi hempty => ?_⟩,
      ⟨Int.le_refl _, fun b hb => ?_, rfl⟩, by simp⟩
    · have hne : b ≠ i := by
        rintro rfl
        simp at hbad
      simp only [Function.update_of_ne hne] at hbad ⊢
      exact hready.tagged b hlo hhi hbad htag
    · have hne : b ≠ i := by
        rintro rfl
        simp at hempty
      simp only [Function.update_of_ne hne] at hempty ⊢
      exact hready.good b hlo hhi hempty
    · by_cases hne : b = i
      · simp [hne]
      · simpa only [Function.update_of_ne hne] using hb
  · exact ⟨hready, Erasing.refl d, hstate⟩

theorem checkptErase_blocks (blocks : List Nat) (hready : CheckptReady p d) :
    CheckptReady p (blocks.foldl (checkptEraseBlock p) d) ∧ Erasing d (blocks.foldl (checkptEraseBlock p) d) ∧
      ∀ b ∈ blocks, (blocks.foldl (checkptEraseBlock p) d).blockState b ≠ .checkpoint := by
  induction blocks generalizing d with
  | nil => exact ⟨hready, Erasing.refl d, fun b hb => absurd hb List.not_mem_nil⟩
  | cons i blocks ih =>
    obtain ⟨hstep, herasing, hgone⟩ := checkptEraseBlock_spec hready i
    obtain ⟨hrest, herasings, hgones⟩ := ih hstep
    refine ⟨hrest, herasing.trans herasings, fun b hb => ?_⟩
    obtain rfl | hb := List.mem_cons.mp hb
    · exact herasings.gone _ hgone
    · exact hgones b hb

theorem mem_blockRange {b : Nat} : b ∈ blockRange p ↔ p.internalStartBlock ≤ b ∧ b ≤ p.internalEndBlock := by
  rw [blockRange, List.mem_range'_1]
  omega

def emptyBlocks (p : CheckptParam) (d : CheckptDev) : List Nat := (blockRange p).filter (d.blockState · = .empty)

theorem CheckptReady.room (hready : CheckptReady p d) (hspace : checkptSpaceOk p d)
    (hgone : ∀ b ∈ blockRange p, d.blockState b ≠ .checkpoint) : Room p (emptyBlocks p d) d where
  sorted := List.Pairwise.filter _ List.pairwise_lt_range'
  range b hb := mem_blockRange.mp (List.mem_filter.mp hb).1
  empty b hlo hhi := by simp [emptyBlocks, mem_blockRange, hlo, hhi]
  avail := of_decide_eq_true hspace
  ready := hready
  gone b hlo hhi := hgone b (mem_blockRange.mpr ⟨hlo, hhi⟩)

def opened (p : CheckptParam) (d : CheckptDev) : CheckptDev :=
  { d with
    openWrite := true
    pageSeq := 0
    byteCount := 0
    sum := 0
    xor := 0
    curBlock := none
    nextBlock := some p.internalStartBlock
    buffer := checkptHdr 0 0 0 ++ List.replicate (payload p) 0
    byteOffs := checkptHdrSize }

theorem checkptOpen_write_eq (hopen : (checkptOpen p true d).1 = true) :
    checkptSpaceOk p d ∧ (checkptOpen p true d).2 = checkptErase p (opened p d) := by
  have hsame : checkptSpaceOk p { d with openWrite := true } = checkptSpaceOk p d := rfl
  simp only [checkptOpen, hsame, Bool.true_and, if_true] at hopen ⊢
  cases hspace : checkptSpaceOk p d with
  | false => simp [hspace] at hopen
  | true =>
    refine ⟨rfl, ?_⟩
    simp [checkptInitChunkHdr, opened, payload]

theorem checkptOpen_write (hready : CheckptReady p d) (hopen : (checkptOpen p true d).1 = true) :
    let d₀ := (checkptOpen p true d).2
    Room p (emptyBlocks p d₀) d₀ ∧ Writing p (emptyBlocks p d₀) d₀ [] d₀ := by
  obtain ⟨hspace, heq⟩ := checkptOpen_write_eq hopen
  have hready' : CheckptReady p (opened p d) := ⟨hready.tagged, hready.good⟩
  obtain ⟨⟨htagged, hgood⟩, herasing, hgone⟩ := checkptErase_blocks (blockRange p) hready'
  have hrest := herasing.rest
  rw [heq, checkptErase]
  generalize (blockRange p).foldl (checkptEraseBlock p) (opened p d) = e at *
  refine ⟨CheckptReady.room ⟨htagged, hgood⟩ ?_ hgone, ?_⟩
  · have hcount := herasing.count
    have hspace' := of_decide_eq_true hspace
    refine decide_eq_true ?_
    dsimp only [opened] at hcount hspace' ⊢
    omega
  · have hzero : ([] : List Byte).length / payload p = 0 := Nat.zero_div _
    have hblocks : blocksFor p 0 = 0 := blocksFor_of_mod_eq (Nat.zero_mod _) |>.trans (Nat.zero_div _)
    constructor
    case cursor =>
      rw [hzero]
      refine ⟨?_, hblocks.symm, fun _ => ?_, fun hne => absurd (Nat.zero_mod _) hne, ?_⟩
      · rw [hrest]; rfl
      · rw [hrest]; rfl
      · rw [hrest, hblocks]; rfl
    case stored =>
      rw [hzero]
      exact ⟨by simp [hblocks], fun b => by simp [hblocks], rfl, rfl, fun i hi => by simp at hi, fun c _ => rfl⟩
    case openWrite => rw [hrest]; rfl
    case buffer => rw [hzero, pageData_self (Nat.zero_mul _), hrest]; rfl
    case byteOffs => rw [hrest]; simp [opened]
    case sum => rw [hrest]; rfl
    case xor => rw [hrest]; rfl

end Open

section Close

variable {bs : List Byte}

/-- The pages `f` of a checkpoint of `k` pages are in the blocks of `E`, and no other block has one. -/
structure Flash (p : CheckptParam) (E : List Nat) (f : Nat → List Byte) (k : Nat) (d : CheckptDev) : Prop where
  sorted : E.Pairwise (· < ·)
  range : ∀ b ∈ E, p.internalStartBlock ≤ b ∧ b ≤ p.internalEndBlock
  length : E.length = blocksFor p k
  wanted : ∀ b, p.internalStartBlock ≤ b → b ≤ p.internalEndBlock →
    ((d.pages (b * p.chunksPerBlock)).seqNumber = YAFFS_SEQUENCE_CHECKPOINT_DATA ∧ d.bad b = false ↔ b ∈ E)
  pages : ∀ i < k, ∃ ecc ≠ EccResult.unfixed,
    d.pages (pageAt p E i) = { pageRec p E i (f i) with eccResult := ecc }

theorem Flash.congr {f : Nat → List Byte} (h : Flash p E f k d) (hpages : d'.pages = d.pages) (hbad : d'.bad = d.bad) :
    Flash p E f k d' :=
  ⟨h.sorted, h.range, h.length, by rw [hpages, hbad]; exact h.wanted, by rw [hpages]; exact h.pages⟩

/-- The flash of `d'` reads like that of `d`, but for bits that the ECC puts right. -/
structure ReadsLike (d' d : CheckptDev) : Prop where
  bad : d'.bad = d.bad
  pages : ∀ c, ∃ ecc, d'.pages c = { d.pages c with eccResult := ecc } ∧
    (ecc = .unfixed → (d.pages c).eccResult = .unfixed)

theorem Flash.like {f : Nat → List Byte} (h : Flash p E f k d) (hlike : ReadsLike d' d) : Flash p E f k d' where
  sorted := h.sorted
  range := h.range
  length := h.length
  wanted b hlo hhi := by
    obtain ⟨ecc, hpage, -⟩ := hlike.pages (b * p.chunksPerBlock)
    rw [hpage, hlike.bad]
    exact h.wanted b hlo hhi
  pages i hi := by
    obtain ⟨ecc, hpage, hkept⟩ := hlike.pages (pageAt p E i)
    obtain ⟨ecc', hread, hrec⟩ := h.pages i hi
    refine ⟨ecc, fun hunfixed => hread ?_, by rw [hpage, hrec]⟩
    rw [← hkept hunfixed, hrec]

theorem mul_lt_of_lt_blocksFor {t : Nat} (h : t < blocksFor p k) : t * p.chunksPerBlock < k := by
  have hpos := p.chunks_pos
  rw [blocksFor, Nat.ceilDiv_eq_add_pred_div] at h
  have hmul := (Nat.le_div_iff_mul_le hpos).mp h
  rw [Nat.succ_mul] at hmul
  omega

theorem div_lt_blocksFor (h : i < k) : i / p.chunksPerBlock < blocksFor p k := div_lt_ceilDiv p.chunks_pos h

theorem getD_take {t n : Nat} (h : t < n) : (E.take n).getD t 0 = E.getD t 0 := by
  simp [List.getD_eq_getElem?_getD, h]

theorem Stored.flash {f : Nat → List Byte} (room : Room p E d₀) (h : Stored p E d₀ ((List.range k).map f) d)
    (hprogram : ∀ i < k, p.program (pageAt p E i) = none) : Flash p (E.take (blocksFor p k)) f k d := by
  have hcount : ((List.range k).map f).length = k := by simp
  have hfits := h.fits
  have hothers := h.others
  rw [hcount] at hfits hothers
  have hpages : ∀ i < k, d.pages (pageAt p E i) = pageRec p E i (f i) := fun i hi => by
    rw [h.pages i (by rwa [hcount]), pageLeft, hprogram i hi]
    simp
  have hat : ∀ i < k, pageAt p (E.take (blocksFor p k)) i = pageAt p E i := fun i hi => by
    rw [pageAt, pageAt, getD_take (div_lt_blocksFor hi)]
  constructor
  case sorted => exact room.sorted.sublist (List.take_sublist _ _)
  case range => exact fun b hb => room.range b (List.mem_of_mem_take hb)
  case length => rw [List.length_take, Nat.min_eq_left hfits]
  case wanted =>
    intro b hlo hhi
    constructor
    · rintro ⟨htag, hbad⟩
      by_contra hnot
      rw [h.bad] at hbad
      rw [hothers] at htag
      · exact room.gone b hlo hhi (room.ready.tagged b hlo hhi hbad htag)
      · rintro i hi heq
        have hb := congrArg (· / p.chunksPerBlock) heq
        simp only [Nat.mul_div_cancel _ p.chunks_pos, pageAt_div] at hb
        have hlt := div_lt_blocksFor (p := p) hi
        rw [List.getD_eq_getElem _ _ (by omega)] at hb
        exact hnot (hb ▸ List.mem_take_iff_getElem.mpr ⟨_, by omega, rfl⟩)
    · intro hb
      obtain ⟨t, ht, rfl⟩ := List.mem_take_iff_getElem.mp hb
      have hlt := mul_lt_of_lt_blocksFor (p := p) (Nat.lt_of_lt_of_le ht (Nat.min_le_left _ _))
      have hpage := hpages _ hlt
      rw [pageAt, Nat.mul_div_cancel _ p.chunks_pos, Nat.mul_mod_left, Nat.add_zero,
        List.getD_eq_getElem _ _ (Nat.lt_of_lt_of_le ht (Nat.min_le_right _ _))] at hpage
      rw [hpage, h.bad]
      have hmem : E[t] ∈ E := List.getElem_mem _
      obtain ⟨hlo, hhi⟩ := room.range _ hmem
      exact ⟨rfl, room.ready.good _ hlo hhi (.inl ((room.empty _ hlo hhi).mpr hmem))⟩
  case pages =>
    intro i hi
    refine ⟨.noError, by decide, ?_⟩
    rw [hat i hi, hpages i hi, pageRec, pageRec, getD_take (div_lt_blocksFor hi)]

theorem checkptFlushBuffer_full (room : Room p E d₀) (h : Cursor p E (E.length * p.chunksPerBlock) d)
    (hs : Stored p E d₀ stored d) (hcount : stored.length = E.length * p.chunksPerBlock) :
    checkptFlushBuffer p d = (false, { d with nextBlock := none, curBlock := none, curChunk := 0 }) := by
  have hmod : E.length * p.chunksPerBlock % p.chunksPerBlock = 0 := Nat.mul_mod_left _ _
  have hblocks : blocksFor p (E.length * p.chunksPerBlock) = E.length := by
    rw [blocksFor_of_mod_eq hmod, Nat.mul_div_cancel _ p.chunks_pos]
  have hfind : (blocksFrom p (nextFor p E E.length)).find? (d.blockState · = .empty) = none := by
    rw [List.find?_eq_none]
    intro b hb hempty
    rw [blocksFrom, List.mem_range'_1] at hb
    have hlo := Nat.le_trans (start_le_nextFor (fun b hb => (room.range b hb).1) (Nat.le_refl _)) hb.1
    rw [decide_eq_true_iff, hs.state, hcount, hblocks, List.take_length] at hempty
    split at hempty
    case isTrue => exact absurd hempty (by decide)
    case isFalse hnot => exact hnot ((room.empty b hlo (by omega)).mp hempty)
  have hnext := h.next
  rw [hblocks] at hnext
  rw [checkptFlushBuffer, h.curNone hmod]
  simp [checkptFindErasedBlock, hnext, hfind]

/-- How many pages are written for `bs` bytes, where the last one is left out when it does not fit. -/
def pagesWritten (p : CheckptParam) (E : List Nat) (bs : List Byte) : Nat :=
  min (bs.length / payload p + 1) (E.length * p.chunksPerBlock)

theorem pagesWritten_of_lt (hlt : bs.length < capacity p E) : pagesWritten p E bs = bs.length / payload p + 1 := by
  have hk := page_lt hlt
  rw [Nat.div_lt_iff_lt_mul p.chunks_pos] at hk
  exact Nat.min_eq_left hk

theorem pagesWritten_of_eq (heq : bs.length = capacity p E) : pagesWritten p E bs = bs.length / payload p := by
  have hk : bs.length / payload p = E.length * p.chunksPerBlock := by
    rw [heq, capacity, Nat.mul_div_cancel _ payload_pos]
  rw [pagesWritten, ← hk]
  exact Nat.min_eq_right (Nat.le_succ _)

theorem checkptClose_write (room : Room p E d₀) (h : Writing p E d₀ bs d) (hfit : bs.length ≤ capacity p E)
    (hprogram : ∀ i < pagesWritten p E bs, p.program (pageAt p E i) = none) :
    Flash p (E.take (blocksFor p (pagesWritten p E bs))) (pageData p bs) (pagesWritten p E bs) (checkptClose p d) ∧
      (checkptClose p d).bad = d₀.bad ∧ ∀ b, (checkptClose p d).blockState b =
        if b ∈ E.take (blocksFor p (pagesWritten p E bs)) then .checkpoint else d₀.blockState b := by
  have hoffs : d.byteOffs ≠ 4 := by
    rw [h.byteOffs, checkptHdrSize]
    omega
  have hcount : ((List.range (bs.length / payload p)).map (pageData p bs)).length = bs.length / payload p := by simp
  have hclose : checkptClose p d =
      { (checkptFlushBuffer p d).2 with
        nFreeChunks := (checkptFlushBuffer p d).2.nFreeChunks -
          (checkptFlushBuffer p d).2.blocksInCheckpt * p.chunksPerBlock
        nErasedBlocks := (checkptFlushBuffer p d).2.nErasedBlocks - (checkptFlushBuffer p d).2.blocksInCheckpt } := by
    simp only [checkptClose, h.openWrite, if_true, if_pos hoffs]
  obtain ⟨stored, hlength, hstored⟩ : ∃ stored, stored = (List.range (pagesWritten p E bs)).map (pageData p bs) ∧
      Stored p E d₀ stored (checkptFlushBuffer p d).2 := by
    refine ⟨_, rfl, ?_⟩
    obtain hlt | heq := Nat.lt_or_eq_of_le hfit
    · have hk := page_lt hlt
      rw [checkptFlushBuffer_eq room (hcount.symm ▸ h.cursor) h.stored (hcount.symm ▸ hk), pagesWritten_of_lt hlt,
        List.range_succ, List.map_append, List.map_singleton, ← h.buffer]
      exact h.stored.flushed room.sorted (hcount.symm ▸ hk)
    · have hk : bs.length / payload p = E.length * p.chunksPerBlock := by
        rw [heq, capacity, Nat.mul_div_cancel _ payload_pos]
      rw [checkptFlushBuffer_full room (hk ▸ h.cursor) h.stored (hcount.trans hk), pagesWritten_of_eq heq]
      exact ⟨h.stored.fits, h.stored.state, h.stored.erased, h.stored.bad, h.stored.pages, h.stored.others⟩
  subst hlength
  have hflash := hstored.flash room hprogram
  have hstate := hstored.state
  rw [List.length_map, List.length_range] at hstate
  rw [hclose]
  exact ⟨hflash.congr rfl rfl, hstored.bad, hstate⟩

theorem Flash.ready {f : Nat → List Byte} {j : Nat} (room : Room p E d₀) (h : Flash p (E.take j) f k d)
    (hbad : d.bad = d₀.bad) (hstate : ∀ b, d.blockState b = if b ∈ E.take j then .checkpoint else d₀.blockState b) :
    CheckptReady p d where
  tagged b hlo hhi hgood htag := by
    rw [hstate, if_pos ((h.wanted b hlo hhi).mp ⟨htag, hgood⟩)]
  good b hlo hhi hempty := by
    rw [hstate] at hempty
    split at hempty
    case isTrue hin => exact ((h.wanted b hlo hhi).mpr hin).2
    case isFalse =>
      rw [hbad]
      exact room.ready.good b hlo hhi hempty

theorem ceilDiv_le_pagesWritten (hfit : bs.length ≤ capacity p E) : bs.length ⌈/⌉ payload p ≤ pagesWritten p E bs := by
  refine Nat.le_min.mpr ⟨?_, ?_⟩
  · by_cases hmod : bs.length % payload p = 0
    · rw [ceilDiv_of_mod_eq payload_pos hmod]
      exact Nat.le_succ _
    · exact Nat.le_of_eq (ceilDiv_of_mod_ne payload_pos hmod)
  · rw [ceilDiv_le_iff_le_mul payload_pos, Nat.mul_comm]
    exact hfit

end Close

section Read

variable {bs : List Byte} {f : Nat → List Byte} {bad : Nat → Bool} {m : Nat}

def filled (p : CheckptParam) (E : List Nat) (m : Nat) (d : CheckptDev) : CheckptDev :=
  { d with
    blockList := if m % p.chunksPerBlock = 0 then d.blockList ++ [E.getD (m / p.chunksPerBlock) 0] else d.blockList
    blocksInCheckpt := m / p.chunksPerBlock + 1
    pageSeq := m + 1
    curChunk := m % p.chunksPerBlock + 1
    curBlock := if (m + 1) % p.chunksPerBlock = 0 then none else some (E.getD (m / p.chunksPerBlock) 0)
    nextBlock := some (E.getD (m / p.chunksPerBlock) 0 + 1)
    buffer := (d.pages (pageAt p E m)).data
    byteOffs := checkptHdrSize }

theorem Cursor.findBlock (hflash : Flash p E f k d) (h : Cursor p E m d) (hm : m < k)
    (hmax : m / p.chunksPerBlock < d.maxBlocks) :
    (if d.curBlock.isNone then { checkptFindBlock p d with curChunk := 0 } else d) =
      { sought p E m d with
        blockList := if m % p.chunksPerBlock = 0 then d.blockList ++ [E.getD (m / p.chunksPerBlock) 0] else d.blockList
        blocksInCheckpt := m / p.chunksPerBlock + 1 } := by
  have hk : m / p.chunksPerBlock < E.length := by
    rw [hflash.length]
    exact div_lt_blocksFor hm
  have hblocks := h.blocks
  by_cases hmod : m % p.chunksPerBlock = 0
  · rw [blocksFor_of_mod_eq hmod] at hblocks
    obtain ⟨next, hnext, -, hfind⟩ := h.seek hflash.sorted hflash.range hk hmod
      (P := fun b => (d.pages (b * p.chunksPerBlock)).seqNumber = YAFFS_SEQUENCE_CHECKPOINT_DATA && !d.bad b) (by
        intro b hlo hhi _
        simp only [Bool.and_eq_true, decide_eq_true_iff, Bool.not_eq_true']
        exact hflash.wanted b hlo hhi)
    obtain ⟨ecc, -, hpage⟩ := hflash.pages m hm
    rw [pageAt, hmod, Nat.add_zero, List.getD_eq_getElem _ _ hk] at hpage
    rw [h.curNone hmod, Option.isNone_none, if_pos rfl]
    simp only [checkptFindBlock, hnext, Option.bind_some, if_pos (show d.blocksInCheckpt < d.maxBlocks by omega), hfind,
      hpage]
    simp [sought, hmod, hk, hblocks, pageRec]
  · obtain ⟨hsome, heq⟩ := h.sought_eq hk hmod
    rw [blocksFor_of_mod_ne hmod] at hblocks
    rw [hsome, if_neg Bool.false_ne_true, heq, if_neg hmod, ← hblocks]

theorem checkptFill_eq (hflash : Flash p E f k d) (h : Cursor p E m d) (hm : m < k)
    (hmax : m / p.chunksPerBlock < d.maxBlocks) (hhdr : (f m).take checkptHdrSize = checkptHdr m d.sum d.xor) :
    checkptFill p d = (true, filled p E m d) := by
  obtain ⟨ecc, hread, hpage⟩ := hflash.pages m hm
  have hdata : (d.pages (pageAt p E m)).data = f m := by rw [hpage]; rfl
  rw [checkptFill, h.findBlock hflash hm hmax]
  simp only [sought]
  rw [pageAt] at hpage
  by_cases hfull : (m + 1) % p.chunksPerBlock = 0 <;>
    simp [-List.getD_eq_getElem?_getD, hpage, pageRec, filled, hdata, checkptCheckChunkHdr, h.seq, hhdr, full_iff,
      hread, hfull]

theorem Cursor.filled (hm : m / p.chunksPerBlock < E.length) : Cursor p E (m + 1) (filled p E m d) := by
  refine Cursor.succ hm rfl rfl rfl (fun hfull => ?_) (fun hfull => ?_) <;> simp [Yaffs.filled, hfull]

theorem filled_blockList (hm : m / p.chunksPerBlock < E.length) (hlist : d.blockList = E.take (blocksFor p m)) :
    (filled p E m d).blockList = E.take (blocksFor p (m + 1)) := by
  have heq : (filled p E m d).blockList =
      if m % p.chunksPerBlock = 0 then d.blockList ++ [E.getD (m / p.chunksPerBlock) 0] else d.blockList := rfl
  rw [heq, hlist, blocksFor_succ, List.take_succ_eq_append_getElem hm, ← List.getD_eq_getElem _ 0 hm]
  split
  case isTrue hzero => rw [blocksFor_of_mod_eq hzero]
  case isFalse hzero =>
    rw [blocksFor_of_mod_ne hzero, List.take_succ_eq_append_getElem hm, ← List.getD_eq_getElem _ 0 hm]

/-- The stream is open for reading, and the first `n` of the bytes `bs` have been read. -/
structure Reading (p : CheckptParam) (E : List Nat) (bad : Nat → Bool) (bs : List Byte) (k n : Nat)
    (d : CheckptDev) : Prop where
  flash : Flash p E (pageData p bs) k d
  bad : d.bad = bad
  cursor : Cursor p E (n ⌈/⌉ payload p) d
  byteOffs : d.byteOffs = if n % payload p = 0 then p.dataBytesPerChunk else checkptHdrSize + n % payload p
  buffer : n % payload p ≠ 0 → d.buffer = pageData p bs (n / payload p)
  sum : d.sum = sumOf (bs.take n)
  xor : d.xor = xorOf (bs.take n)
  openRead : d.openWrite = false
  blockList : d.blockList = E.take (blocksFor p (n ⌈/⌉ payload p))
  maxBlocks : blocksFor p (bs.length ⌈/⌉ payload p) ≤ d.maxBlocks

def taken (d : CheckptDev) (b : Byte) : CheckptDev :=
  { d with
    sum := d.sum + b.setWidth 32
    xor := d.xor ^^^ b.setWidth 32
    byteOffs := d.byteOffs + 1
    byteCount := d.byteCount + 1 }

theorem checkptRdByte_eq {d' : CheckptDev}
    (h : (if d.byteOffs ≥ p.dataBytesPerChunk then checkptFill p d else (true, d)) = (true, d')) :
    checkptRdByte p d = (some (d'.buffer.getD d'.byteOffs 0), taken d' (d'.buffer.getD d'.byteOffs 0)) := by
  rw [checkptRdByte, h]
  rfl

theorem pageData_getD {n : Nat} (hn : n < bs.length) :
    (pageData p bs (n / payload p)).getD (checkptHdrSize + n % payload p) 0 = bs[n] := by
  have hdiv := Nat.div_add_mod n (payload p)
  have hlt := Nat.mod_lt n (payload_pos (p := p))
  rw [Nat.mul_comm] at hdiv
  have hpart : n % payload p < (pagePart p bs (n / payload p)).length := by
    simp [pagePart]
    omega
  rw [pageData, List.getD_append_right _ _ _ _ (by simp [checkptHdr_length]), checkptHdr_length,
    Nat.add_sub_cancel_left, List.getD_append _ _ _ _ hpart, List.getD_eq_getElem _ _ hpart]
  simp [pagePart, hdiv]

theorem take_pageData (bs : List Byte) (k : Nat) : (pageData p bs k).take checkptHdrSize =
    checkptHdr k (sumOf (bs.take (k * payload p))) (xorOf (bs.take (k * payload p))) := take_checkptHdr ..

theorem Reading.fill {n : Nat} (h : Reading p E bad bs k n d) (hn : n < bs.length) (hk : bs.length ⌈/⌉ payload p ≤ k) :
    ∃ e, (if d.byteOffs ≥ p.dataBytesPerChunk then checkptFill p d else (true, d)) = (true, e) ∧
      Flash p E (pageData p bs) k e ∧ Cursor p E (n / payload p + 1) e ∧
      e.byteOffs = checkptHdrSize + n % payload p ∧ e.buffer = pageData p bs (n / payload p) ∧
      e.sum = d.sum ∧ e.xor = d.xor ∧ e.openWrite = false ∧ e.bad = bad ∧
      e.blockList = E.take (blocksFor p (n / payload p + 1)) ∧
      blocksFor p (bs.length ⌈/⌉ payload p) ≤ e.maxBlocks := by
  have hpage := div_lt_ceilDiv (payload_pos (p := p)) hn
  have hmax := Nat.lt_of_lt_of_le (div_lt_blocksFor hpage) h.maxBlocks
  have hn := Nat.lt_of_lt_of_le hpage hk
  have hpayload := payload_add (p := p)
  have hlt := Nat.mod_lt n (payload_pos (p := p))
  have hcursor := h.cursor
  have hlist := h.blockList
  have hoffs := h.byteOffs
  by_cases hmod : n % payload p = 0
  · have hm : n / payload p / p.chunksPerBlock < E.length := by
      rw [h.flash.length]
      exact div_lt_blocksFor hn
    have hfill : n = n / payload p * payload p := by
      have hdiv := Nat.div_add_mod n (payload p)
      rw [Nat.mul_comm] at hdiv
      omega
    rw [ceilDiv_of_mod_eq payload_pos hmod] at hcursor hlist
    rw [if_pos hmod] at hoffs
    have hhdr : (pageData p bs (n / payload p)).take checkptHdrSize = checkptHdr (n / payload p) d.sum d.xor := by
      rw [take_pageData, ← hfill, ← h.sum, ← h.xor]
    rw [if_pos (Nat.le_of_eq hoffs.symm), checkptFill_eq h.flash hcursor hn hmax hhdr]
    refine ⟨_, rfl, ?_, Cursor.filled hm, ?_, ?_, rfl, rfl, h.openRead, h.bad, ?_, h.maxBlocks⟩
    · exact h.flash.congr rfl rfl
    · rw [hmod]
      rfl
    · obtain ⟨ecc, -, hpage⟩ := h.flash.pages _ hn
      rw [filled, hpage]
      rfl
    · exact filled_blockList hm hlist
  · rw [ceilDiv_of_mod_ne payload_pos hmod] at hcursor hlist
    rw [if_neg hmod] at hoffs
    rw [if_neg (by omega)]
    exact ⟨d, rfl, h.flash, hcursor, hoffs, h.buffer hmod, rfl, rfl, h.openRead, h.bad, hlist, h.maxBlocks⟩

theorem Reading.next {n : Nat} (h : Reading p E bad bs k n d) (hn : n < bs.length) (hk : bs.length ⌈/⌉ payload p ≤ k) :
    (checkptRdByte p d).1 = some bs[n] ∧ Reading p E bad bs k (n + 1) (checkptRdByte p d).2 := by
  have hpayload := payload_add (p := p)
  obtain ⟨e, hfill, hflash, hcursor, hoffs, hbuffer, hsum, hxor, hopen, hbad, hlist, hmax⟩ :=
    h.fill hn hk
  have hbyte : e.buffer.getD e.byteOffs 0 = bs[n] := by rw [hbuffer, hoffs, pageData_getD hn]
  rw [checkptRdByte_eq hfill, hbyte]
  refine ⟨rfl, ?_⟩
  constructor
  case flash => exact hflash.congr rfl rfl
  case cursor =>
    rw [ceilDiv_succ payload_pos]
    exact ⟨hcursor.seq, hcursor.blocks, hcursor.curNone, hcursor.cur, hcursor.next⟩
  case byteOffs =>
    change e.byteOffs + 1 = _
    rw [hoffs]
    by_cases hfull : n % payload p + 1 = payload p
    · rw [if_pos (succ_div_mod_of_eq payload_pos hfull).2]
      omega
    · rw [(succ_div_mod_of_ne payload_pos hfull).2, if_neg (Nat.succ_ne_zero _), Nat.add_assoc]
  case buffer =>
    intro hne
    have hnot : n % payload p + 1 ≠ payload p := fun heq => hne (succ_div_mod_of_eq payload_pos heq).2
    rw [(succ_div_mod_of_ne payload_pos hnot).1]
    exact hbuffer
  case sum => rw [List.take_succ_eq_append_getElem hn, sumOf_append, ← h.sum, ← hsum]; rfl
  case xor => rw [List.take_succ_eq_append_getElem hn, xorOf_append, ← h.xor, ← hxor]; rfl
  case bad => exact hbad
  case openRead => exact hopen
  case blockList =>
    rw [ceilDiv_succ payload_pos]
    exact hlist
  case maxBlocks => exact hmax

theorem checkptRd_spec {n : Nat} (count : Nat) (h : Reading p E bad bs k n d) (hn : n + count ≤ bs.length)
    (hk : bs.length ⌈/⌉ payload p ≤ k) :
    (checkptRd p d count).1 = (bs.drop n).take count ∧ Reading p E bad bs k (n + count) (checkptRd p d count).2 := by
  induction count generalizing n d with
  | zero => exact ⟨List.take_zero.symm, h⟩
  | succ count ih =>
    obtain ⟨hbyte, hnext⟩ := h.next (by omega) hk
    obtain ⟨hbytes, hrest⟩ := ih hnext (by omega)
    rw [checkptRd, hbyte, Option.elim_some, List.drop_eq_getElem_cons (by omega), List.take_succ_cons]
    exact ⟨congrArg _ hbytes, by rwa [Nat.add_right_comm] at hrest⟩

def checkptRdAll (p : CheckptParam) (d : CheckptDev) : List Nat → List (List Byte) × CheckptDev
  | [] => ([], d)
  | nBytes :: rest =>
      let r := checkptRd p d nBytes
      let rs := checkptRdAll p r.2 rest
      (r.1 :: rs.1, rs.2)

theorem checkptRdAll_spec {n : Nat} (ns : List Nat) (h : Reading p E bad bs k n d) (hn : n + ns.sum ≤ bs.length)
    (hk : bs.length ⌈/⌉ payload p ≤ k) :
    (checkptRdAll p d ns).1 = ns.splitLengths (bs.drop n) ∧
      Reading p E bad bs k (n + ns.sum) (checkptRdAll p d ns).2 := by
  induction ns generalizing n d with
  | nil => exact ⟨rfl, h⟩
  | cons count ns ih =>
    rw [List.sum_cons] at hn
    obtain ⟨hbytes, hstep⟩ := checkptRd_spec count h (by omega) hk
    obtain ⟨hrest, hreading⟩ := ih hstep (by omega)
    rw [checkptRdAll, List.splitLengths_cons, List.drop_drop, List.sum_cons, ← Nat.add_assoc]
    exact ⟨congrArg₂ _ hbytes hrest, hreading⟩

theorem checkptOpen_read (hflash : Flash p E (pageData p bs) k d)
    (hlimit : bs.length ≤ checkptMaxBlocks p * p.chunksPerBlock * payload p) :
    Reading p E d.bad bs k 0 (checkptOpen p false d).2 := by
  have hzero : 0 ⌈/⌉ payload p = 0 := zero_ceilDiv _
  have hblocks : blocksFor p 0 = 0 := zero_ceilDiv _
  have hmax : blocksFor p (bs.length ⌈/⌉ payload p) ≤ checkptMaxBlocks p := by
    rw [blocksFor, ceilDiv_le_iff_le_mul p.chunks_pos, ceilDiv_le_iff_le_mul payload_pos]
    calc bs.length ≤ checkptMaxBlocks p * p.chunksPerBlock * payload p := hlimit
      _ = payload p * (p.chunksPerBlock * checkptMaxBlocks p) := by ring
  have hopen : (checkptOpen p false d).2 =
      { d with
        openWrite := false
        pageSeq := 0
        byteCount := 0
        sum := 0
        xor := 0
        curBlock := none
        nextBlock := some p.internalStartBlock
        byteOffs := p.dataBytesPerChunk
        blocksInCheckpt := 0
        maxBlocks := checkptMaxBlocks p
        blockList := [] } := rfl
  rw [hopen]
  constructor
  case flash => exact hflash.congr rfl rfl
  case bad => rfl
  case cursor =>
    rw [hzero]
    refine ⟨rfl, hblocks.symm, fun _ => rfl, fun hne => absurd (Nat.zero_mod _) hne, ?_⟩
    rw [hblocks]
    rfl
  case byteOffs => rw [Nat.zero_mod, if_pos rfl]
  case buffer => exact fun hne => absurd (Nat.zero_mod _) hne
  case sum => rfl
  case xor => rfl
  case openRead => rfl
  case blockList => rw [hzero, hblocks, List.take_zero]
  case maxBlocks => exact hmax

theorem checkptWrAll_closed (hready : CheckptReady p d) (hopen : (checkptOpen p true d).1 = true) (ws : List (List Byte))
    (hfit : ws.flatten.length ≤ capacity p (emptyBlocks p (checkptOpen p true d).2))
    (hprogram : ∀ i < pagesWritten p (emptyBlocks p (checkptOpen p true d).2) ws.flatten,
      p.program (pageAt p (emptyBlocks p (checkptOpen p true d).2) i) = none) :
    let d₀ := (checkptOpen p true d).2
    let E := emptyBlocks p d₀
    let pages := pagesWritten p E ws.flatten
    let w := checkptWrAll p d₀ ws
    let c := checkptClose p w.2
    Room p E d₀ ∧ (w.1 = ws.map List.length ∧ Writing p E d₀ ws.flatten w.2) ∧
      Flash p (E.take (blocksFor p pages)) (pageData p ws.flatten) pages c ∧ c.bad = d₀.bad ∧
        ∀ b, c.blockState b = if b ∈ E.take (blocksFor p pages) then .checkpoint else d₀.blockState b := by
  intro d₀ E pages w c
  obtain ⟨room, hwriting⟩ := checkptOpen_write hready hopen
  have hwritten := checkptWrAll_spec room ws hwriting (by simpa using hfit)
  rw [List.nil_append] at hwritten
  exact ⟨room, hwritten, checkptClose_write room hwritten.2 hfit hprogram⟩

theorem Flash.read {e : CheckptDev} (h : Flash p E (pageData p bs) k d) (hlike : ReadsLike e d) (ns : List Nat) (hns : ns.sum = bs.length) (hk : bs.length ⌈/⌉ payload p ≤ k)
    (hlimit : bs.length ≤ checkptMaxBlocks p * p.chunksPerBlock * payload p) :
    (checkptRdAll p (checkptOpen p false e).2 ns).1 = ns.splitLengths bs ∧
      Reading p E d.bad bs k bs.length (checkptRdAll p (checkptOpen p false e).2 ns).2 := by
  have hreading := checkptOpen_read (h.like hlike) hlimit
  obtain ⟨hbytes, hread⟩ := checkptRdAll_spec ns hreading (by omega) hk
  rw [Nat.zero_add, hns, hlike.bad] at hread
  exact ⟨hbytes, hread⟩

/-- What is written to a checkpoint in portions, without a program that fails, is read from it in portions, by a device
that has nothing in common with the one that wrote it but the flash; and it can be replaced by another checkpoint. -/
theorem checkpt_roundTrip (hready : CheckptReady p d) (hopen : (checkptOpen p true d).1 = true)
    (ws : List (List Byte)) (ns : List Nat) (hns : ns.sum = ws.flatten.length)
    (hfit : ws.flatten.length ≤ capacity p (emptyBlocks p (checkptOpen p true d).2))
    (hprogram : ∀ i < pagesWritten p (emptyBlocks p (checkptOpen p true d).2) ws.flatten,
      p.program (pageAt p (emptyBlocks p (checkptOpen p true d).2) i) = none)
    (hlimit : ws.flatten.length ≤ checkptMaxBlocks p * p.chunksPerBlock * payload p) :
    let w := checkptWrAll p (checkptOpen p true d).2 ws
    let c := checkptClose p w.2
    w.1 = ws.map List.length ∧ CheckptReady p c ∧
      ∀ e : CheckptDev, ReadsLike e c →
        let r := checkptRdAll p (checkptOpen p false e).2 ns
        r.1 = ns.splitLengths ws.flatten ∧ getCheckptSum r.2 = getCheckptSum w.2 := by
  intro w c
  obtain ⟨room, ⟨hcounts, hwritten⟩, hflash, hbad, hstate⟩ := checkptWrAll_closed hready hopen ws hfit hprogram
  refine ⟨hcounts, hflash.ready room hbad hstate, fun e hlike => ?_⟩
  obtain ⟨hbytes, hreading⟩ := hflash.read hlike ns hns (ceilDiv_le_pagesWritten hfit) hlimit
  refine ⟨hbytes, ?_⟩
  rw [getCheckptSum, getCheckptSum, hreading.sum, hreading.xor, hwritten.sum, hwritten.xor, List.take_length]

theorem checkptMarkBlock_of_empty {state : Nat → BlockState} {blk : Nat}
    (hrange : p.internalStartBlock ≤ blk ∧ blk ≤ p.internalEndBlock)
    (hstate : state blk = .empty ∨ state blk = .checkpoint) :
    checkptMarkBlock p state blk = Function.update state blk .checkpoint := by
  rw [checkptMarkBlock]
  split
  case isTrue => rfl
  case isFalse hnot =>
    obtain hempty | hcheckpt := hstate
    · exact absurd ⟨hrange.1, hrange.2, hempty⟩ hnot
    · rw [← hcheckpt, Function.update_eq_self]

theorem blocksFor_mono {m : Nat} (h : m ≤ k) : blocksFor p m ≤ blocksFor p k := by
  rw [blocksFor, blocksFor, Nat.ceilDiv_eq_add_pred_div, Nat.ceilDiv_eq_add_pred_div]
  exact Nat.div_le_div_right (by omega)

theorem checkptMarkBlocks {state : Nat → BlockState} (blocks : List Nat)
    (hrange : ∀ b ∈ blocks, p.internalStartBlock ≤ b ∧ b ≤ p.internalEndBlock)
    (hstate : ∀ b ∈ blocks, state b = .empty ∨ state b = .checkpoint) (b : Nat) :
    blocks.foldl (checkptMarkBlock p) state b = if b ∈ blocks then .checkpoint else state b := by
  induction blocks generalizing state with
  | nil => simp
  | cons blk blocks ih =>
    rw [List.foldl_cons, checkptMarkBlock_of_empty (hrange blk List.mem_cons_self) (hstate blk List.mem_cons_self)]
    rw [ih fun b hb => hrange b (List.mem_cons_of_mem _ hb)]
    · by_cases hb : b = blk <;> simp [hb]
    · intro b hb
      rw [Function.update_apply]
      split
      · exact .inr rfl
      · exact hstate b (List.mem_cons_of_mem _ hb)

/-- The states of the blocks as they were while the first `i` blocks of `E` were written, each at its own time. -/
def StatesOf (E : List Nat) (d₀ : CheckptDev) (i : Nat) (state : Nat → BlockState) : Prop :=
  ∀ b, state b = d₀.blockState b ∨ b ∈ E.take i ∧ state b = .checkpoint

theorem Stored.states {i : Nat} (h : Stored p E d₀ stored d) (hle : blocksFor p stored.length ≤ i) (b : Nat) :
    d.blockState b = d₀.blockState b ∨ b ∈ E.take i ∧ d.blockState b = .checkpoint := by
  rw [h.state]
  split
  case isTrue hin => exact .inr ⟨List.take_subset_take_left E hle hin, rfl⟩
  case isFalse => exact .inl rfl

theorem checkptClose_read {i : Nat} {state : Nat → BlockState} (room : Room p E d₀) (hopen : d.openWrite = false)
    (hlist : d.blockList = E.take i) (hstates : StatesOf E d₀ i state) (b : Nat) :
    (checkptClose p { d with blockState := state }).blockState b =
      if b ∈ E.take i then .checkpoint else d₀.blockState b := by
  have hclose : (checkptClose p { d with blockState := state }).blockState =
      d.blockList.foldl (checkptMarkBlock p) state := by
    simp only [checkptClose, hopen, if_neg Bool.false_ne_true]
  have hstate : ∀ b ∈ E.take i, state b = .empty ∨ state b = .checkpoint := by
    intro b hb
    obtain hbefore | ⟨-, hmarked⟩ := hstates b
    · have hin := List.mem_of_mem_take hb
      exact .inl (hbefore.trans ((room.empty b (room.range b hin).1 (room.range b hin).2).mpr hin))
    · exact .inr hmarked
  rw [hclose, hlist, checkptMarkBlocks _ (fun b hb => room.range b (List.mem_of_mem_take hb)) hstate]
  split
  case isTrue => rfl
  case isFalse hnot => exact (hstates b).resolve_right fun hin => hnot hin.1

theorem closed_ready_iff {i j : Nat} {state : Nat → BlockState} (room : Room p E d₀) (hflash : Flash p (E.take j) f k d)
    (hopen : d.openWrite = false) (hbad : d.bad = d₀.bad) (hlist : d.blockList = E.take i)
    (hstates : StatesOf E d₀ i state) (hle : i ≤ j) (hj : j ≤ E.length) :
    CheckptReady p (checkptClose p { d with blockState := state }) ↔ i = j := by
  have hstate := checkptClose_read room hopen hlist hstates
  have hpages : (checkptClose p { d with blockState := state }).pages = d.pages := by
    simp only [checkptClose, hopen, if_neg Bool.false_ne_true]
  have hbads : (checkptClose p { d with blockState := state }).bad = d.bad := by
    simp only [checkptClose, hopen, if_neg Bool.false_ne_true]
  have hclosed : Flash p (E.take j) f k (checkptClose p { d with blockState := state }) :=
    hflash.congr hpages hbads
  constructor
  · intro hready
    by_contra hne
    have hlt : i < E.length := by omega
    have hin : E[i] ∈ E.take j := List.mem_take_iff_getElem.mpr ⟨i, by omega, rfl⟩
    obtain ⟨hlo, hhi⟩ := hflash.range _ hin
    obtain ⟨htag, hgood⟩ := (hclosed.wanted _ hlo hhi).mpr hin
    have hcheckpt := hready.tagged _ hlo hhi hgood htag
    rw [hstate, if_neg ?_] at hcheckpt
    · exact room.gone _ hlo hhi hcheckpt
    · intro hbefore
      obtain ⟨t, ht, heq⟩ := List.mem_take_iff_getElem.mp hbefore
      have hnodup : E.Nodup := room.sorted.imp Nat.ne_of_lt
      have := hnodup.getElem_inj_iff.mp heq
      omega
  · rintro rfl
    exact hclosed.ready room (hbads.trans hbad) hstate

/-- Reading a checkpoint to its end comes to all of its blocks, but for one that has no more than the last header. -/
theorem blocksFor_pagesWritten (hfit : bs.length ≤ capacity p E) :
    blocksFor p (bs.length ⌈/⌉ payload p) = blocksFor p (pagesWritten p E bs) ↔
      ¬(bs.length % (payload p * p.chunksPerBlock) = 0 ∧ bs.length < capacity p E) := by
  obtain hlt | heq := Nat.lt_or_eq_of_le hfit
  · rw [pagesWritten_of_lt hlt, blocksFor_succ, and_iff_left hlt, Nat.mod_mul]
    by_cases hmod : bs.length % payload p = 0
    · rw [ceilDiv_of_mod_eq payload_pos hmod, hmod, Nat.zero_add, Nat.mul_eq_zero,
        or_iff_right (Nat.ne_of_gt payload_pos)]
      by_cases hzero : bs.length / payload p % p.chunksPerBlock = 0
      · rw [blocksFor_of_mod_eq hzero]
        simp [hzero]
      · rw [blocksFor_of_mod_ne hzero]
        simp [hzero]
    · rw [ceilDiv_of_mod_ne payload_pos hmod, blocksFor_succ]
      simp [hmod]
  · have hmod : bs.length % payload p = 0 := by rw [heq, capacity, Nat.mul_mod_left]
    rw [pagesWritten_of_eq heq, ceilDiv_of_mod_eq payload_pos hmod]
    simp [heq]

theorem checkptWrAll_states (hready : CheckptReady p d) (hopen : (checkptOpen p true d).1 = true) (ws : List (List Byte))
    {time : Nat → Nat} (hfit : ws.flatten.length ≤ capacity p (emptyBlocks p (checkptOpen p true d).2)) :
    let d₀ := (checkptOpen p true d).2
    StatesOf (emptyBlocks p d₀) d₀ (blocksFor p (ws.flatten.length ⌈/⌉ payload p))
      fun b => (checkptWrAll p d₀ (ws.take (time b))).2.blockState b := by
  intro d₀ b
  obtain ⟨room, hwriting⟩ := checkptOpen_write hready hopen
  have hle : (ws.take (time b)).flatten.length ≤ ws.flatten.length :=
    (List.take_sublist (time b) ws).flatten.length_le
  have hwritten := (checkptWrAll_spec room (ws.take (time b)) hwriting (by simpa using Nat.le_trans hle hfit)).2
  rw [List.nil_append] at hwritten
  refine hwritten.stored.states ?_ b
  rw [List.length_map, List.length_range]
  refine blocksFor_mono (Nat.le_trans (Nat.div_le_div_right hle) ?_)
  rw [Nat.ceilDiv_eq_add_pred_div]
  exact Nat.div_le_div_right (by have := payload_pos (p := p); omega)

/-- After a checkpoint has been read and closed it can be replaced by another one, unless its bytes fill the chunks of
its blocks: the header that is written after them is then the only page in a block, which nobody has read. The states
of the blocks are those that went into the stream, which changed while they were written. -/
theorem checkpt_read_ready_iff (hready : CheckptReady p d) (hopen : (checkptOpen p true d).1 = true)
    (ws : List (List Byte)) (ns : List Nat) (hns : ns.sum = ws.flatten.length)
    (hfit : ws.flatten.length ≤ capacity p (emptyBlocks p (checkptOpen p true d).2))
    (hprogram : ∀ i < pagesWritten p (emptyBlocks p (checkptOpen p true d).2) ws.flatten,
      p.program (pageAt p (emptyBlocks p (checkptOpen p true d).2) i) = none)
    (hlimit : ws.flatten.length ≤ checkptMaxBlocks p * p.chunksPerBlock * payload p) :
    let d₀ := (checkptOpen p true d).2
    let c := checkptClose p (checkptWrAll p d₀ ws).2
    ∀ (e : CheckptDev) (time : Nat → Nat), ReadsLike e c →
      let r := (checkptRdAll p (checkptOpen p false e).2 ns).2
      let state b := (checkptWrAll p d₀ (ws.take (time b))).2.blockState b
      CheckptReady p (checkptClose p { r with blockState := state }) ↔
        ¬(ws.flatten.length % (payload p * p.chunksPerBlock) = 0 ∧ ws.flatten.length < capacity p (emptyBlocks p d₀)) := by
  intro d₀ c e time hlike
  obtain ⟨room, -, hflash, hbad, -⟩ := checkptWrAll_closed hready hopen ws hfit hprogram
  obtain ⟨-, hreading⟩ := hflash.read hlike ns hns (ceilDiv_le_pagesWritten hfit) hlimit
  rw [← blocksFor_pagesWritten hfit]
  have hmono := blocksFor_mono (p := p) (ceilDiv_le_pagesWritten hfit)
  refine closed_ready_iff room hreading.flash hreading.openRead ?_ ?_ (checkptWrAll_states hready hopen ws hfit) hmono ?_
  · rw [hreading.bad, hbad]
  · rw [hreading.blockList, List.take_take, Nat.min_eq_left hmono]
  · have hlength := hflash.length
    rw [List.length_take] at hlength
    omega

theorem small_hdr : checkptHdrSize < 18 := by decide

theorem small_chunks : 0 < 2 := by decide

/-- Three blocks of two chunks, with two bytes in every chunk after its header. -/
def CheckptParam.small : CheckptParam := ⟨18, 2, 1, 3, 0, fun _ => true, fun _ => none, small_hdr, small_chunks⟩

def CheckptDev.blank : CheckptDev where
  blockState _ := .empty
  nErasedBlocks := 3
  nFreeChunks := 6
  pages _ := .erased .small
  bad _ := false
  openWrite := false
  buffer := []
  pageSeq := 0
  byteOffs := 0
  byteCount := 0
  sum := 0
  xor := 0
  curBlock := none
  curChunk := 0
  nextBlock := none
  blocksInCheckpt := 0
  maxBlocks := 0
  blockList := []

theorem blank_ready : CheckptReady .small .blank := by
  have huntagged : (CheckptPage.erased .small).seqNumber ≠ YAFFS_SEQUENCE_CHECKPOINT_DATA :=
    show (0 : Word) ≠ 0x21 by decide
  exact ⟨fun _ _ _ _ htag => absurd htag huntagged, fun _ _ _ _ => rfl⟩

theorem checkpt_roundTrip_blank :
    let w := checkptWrAll .small (checkptOpen .small true .blank).2 [[1, 2, 3], [4]]
    let c := checkptClose .small w.2
    w.1 = [[1, 2, 3], [4]].map List.length ∧ CheckptReady .small c ∧
      ∀ e : CheckptDev, ReadsLike e c →
        let r := checkptRdAll .small (checkptOpen .small false e).2 [1, 3]
        r.1 = [1, 3].splitLengths [[1, 2, 3], [4]].flatten ∧ getCheckptSum r.2 = getCheckptSum w.2 :=
  checkpt_roundTrip blank_ready (by decide) [[1, 2, 3], [4]] [1, 3] (by decide) (by decide) (fun _ _ => rfl) (by decide)

theorem checkpt_read_ready_blank :
    let d₀ := (checkptOpen .small true .blank).2
    let c := checkptClose .small (checkptWrAll .small d₀ [[1, 2, 3], [4]]).2
    ∀ (e : CheckptDev) (time : Nat → Nat), ReadsLike e c →
      let r := (checkptRdAll .small (checkptOpen .small false e).2 [1, 3]).2
      let state b := (checkptWrAll .small d₀ (List.take (time b) [[1, 2, 3], [4]])).2.blockState b
      CheckptReady .small (checkptClose .small { r with blockState := state }) ↔
        ¬(4 % (payload .small * 2) = 0 ∧ 4 < capacity .small (emptyBlocks .small d₀)) :=
  checkpt_read_ready_iff blank_ready (by decide) [[1, 2, 3], [4]] [1, 3] (by decide) (by decide) (fun _ _ => rfl)
    (by decide)

end Read

end Fl2440.Yaffs
