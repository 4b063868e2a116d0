import Fl2440.Yaffs.RoundTrip
import Fl2440.Yaffs.PackedTags2

/-! `yaffs_k9f2g08.c`: chunks with tags, and what the blocks of a device say of themselves. -/
namespace Fl2440.Yaffs

open Fl2440.Lib Fl2440.MyBoot

/-- `ynf_write_chunk_tags`, where the tags are not put into the data. `pt` and the bytes between its fields are
what the stack has there. -/
def ynfWriteChunkTags (unit : EccUnit) (wear : Wear) (s : Controller) (nandChunk : Word) (data : Option (List Byte))
    (tags : ExtTags) (noTagsEcc : Bool) (pt : PackedTags2) (pad : Vector Byte 3) : Int × Controller :=
  let pt := yaffsPackTags2 pt tags (!noTagsEcc)
  k9f2g08Write unit wear s nandChunk data (some (pt.bytes pad))

structure ChunkRead where
  ret : Int
  data : List Byte
  tags : ExtTags

/-- The ECC of the data and that of the tags together. -/
def mergeEcc (eccStatus : Int) (tags : ExtTags) : ExtTags :=
  if tags.chunkUsed ≠ 0 then
    if eccStatus < 0 ∨ tags.eccResult = .unfixed then { tags with eccResult := .unfixed }
    else if eccStatus > 0 ∨ tags.eccResult = .fixed then { tags with eccResult := .fixed }
    else { tags with eccResult := .noError }
  else tags

/-- `ynf_read_chunk_tags` with tags, and with `data` or without; `eccStatus` is what the stack has there. -/
def ynfReadChunkTags (unit : EccUnit) (wear : Wear) (s : Controller) (nandChunk : Word) (data : Bool) (noTagsEcc : Bool)
    (eccStatus : Int) : ChunkRead :=
  let r := k9f2g08Read unit wear s nandChunk data packedSize eccStatus
  let tags := (yaffsUnpackTags2 (.ofBytes r.spare) (!noTagsEcc)).1
  ⟨r.ret, r.dat, mergeEcc r.eccStatus tags⟩

def k9f2g08MarkBlockBad (wear : Wear) (s : Controller) (blkNum : Word) : Int × Controller :=
  let rowAddr := blkNum * 64
  let colAddr : Word := 2048
  let s := s.bspNandSetCs 0
  let s := s.bspNandWriteCmd wear 0x80
  let s := s.writeAddrs (columnCycles colAddr ++ pageCycles rowAddr)
  let s := s.bspNandWriteData32 0xffffffff
  let s := s.bspNandWriteData32 0x00000000
  let s := s.bspNandWriteData32 0xffffffff
  let s := s.bspNandWriteData32 0xffffffff
  let s := s.bspNandWriteCmd wear 0x10
  let s := s.bspNandSetCs 1
  let (status, s) := waitBusyStatus wear s
  (if status &&& (1 <<< 0) ≠ 0 then YAFFS_FAIL else YAFFS_OK, s)

def k9f2g08IsBlockOk (wear : Wear) (s : Controller) (blkNum : Word) : Bool :=
  let s := openPage wear s (2048 + 4) (blkNum * 64)
  let (tmp, _) := s.bspNandReadData32
  tmp = 0xffffffff

def chunksPerBlock : Word := 64

/-- `ynf_query_block`: the state and the sequence number. -/
def ynfQueryBlock (unit : EccUnit) (wear : Wear) (s : Controller) (blockId : Word) (noTagsEcc : Bool) (eccStatus : Int) :
    BlockState × Word :=
  let chunkNo := blockId * chunksPerBlock
  if !k9f2g08IsBlockOk wear s blockId then (.dead, 0)
  else
    let tags := (ynfReadChunkTags unit wear s chunkNo false noTagsEcc eccStatus).tags
    if tags.chunkUsed = 0 then (.empty, 0) else (.needsScan, tags.seqNumber)

variable {unit : EccUnit} {wear : Wear} {s : Controller}

theorem k9f2g08Read_tags (unit : EccUnit) (wear : Wear) (s : Controller) (chunk : Word) (n : Nat) (e : Int) :
    k9f2g08Read unit wear s chunk false n e = ⟨YAFFS_OK, e, [], rowBytes s.chip.cells (chunkRow chunk) (2048 + 16) n⟩ := by
  obtain ⟨hchip, hbus⟩ := openPage_spec wear s (2048 + 16) chunk
  have hcolumn : address (columnCycles (2048 + 16)) = 2048 + 16 := by decide
  rw [hcolumn] at hbus
  unfold k9f2g08Read
  simp only [Bool.false_eq_true, if_false, Controller.readData8s_eq, Controller.readData, hbus, hchip]
  rfl

theorem k9f2g08IsBlockOk_eq (wear : Wear) (s : Controller) (blkNum : Word) : k9f2g08IsBlockOk wear s blkNum =
    decide (bytesWord (rowBytes s.chip.cells (chunkRow (blkNum * 64)) (2048 + 4) 4) = 0xffffffff) := by
  obtain ⟨hchip, hbus⟩ := openPage_spec wear s (2048 + 4) (blkNum * 64)
  have hcolumn : address (columnCycles (2048 + 4)) = 2048 + 4 := by decide
  rw [hcolumn] at hbus
  simp only [k9f2g08IsBlockOk, Controller.bspNandReadData32, Controller.readData, hbus, hchip]
  rfl

def badMark : List Byte := wordBytes 0xffffffff ++ wordBytes 0 ++ wordBytes 0xffffffff ++ wordBytes 0xffffffff

theorem writeData_input {cycles : List Word} {data : List Byte} (h : s.bus = .input cycles data) (bytes : List Byte) :
    (s.writeData bytes).bus = .input cycles (data ++ bytes) ∧ (s.writeData bytes).chip = s.chip := by
  simp [Controller.writeData, Controller.transferred, h]

theorem program_input (wear : Wear) {cycles : List Word} {data : List Byte} (h : s.bus = .input cycles data) :
    (s.bspNandWriteCmd wear 0x10).chip =
        (s.chip.program wear (address (cycles.drop 2)) (address (cycles.take 2)) data).2 ∧
      (s.bspNandWriteCmd wear 0x10).bus =
        .done (s.chip.program wear (address (cycles.drop 2)) (address (cycles.take 2)) data).1 := by
  simp [Controller.bspNandWriteCmd, h]

theorem finish_program (wear : Wear) {cycles : List Word} {data : List Byte} (h : s.bus = .input cycles data) :
    let waited := waitBusyStatus wear ((s.bspNandWriteCmd wear 0x10).bspNandSetCs 1)
    waited.2.chip = (s.chip.program wear (address (cycles.drop 2)) (address (cycles.take 2)) data).2 ∧
      ((if waited.1 &&& (1 <<< 0) ≠ 0 then YAFFS_FAIL else YAFFS_OK) = YAFFS_OK ↔
        wear.program s.chip.log.length = none) := by
  obtain ⟨hchip, hbus⟩ := program_input wear h
  obtain ⟨hstatus, hwaited⟩ := waitBusyStatus_spec (s := (s.bspNandWriteCmd wear 0x10).bspNandSetCs 1) wear
    (by rw [bspNandSetCs_bus, hbus])
  have hpassed := Chip.program_status wear s.chip (address (cycles.drop 2)) (address (cycles.take 2)) data
  have hbit : (1 <<< 0 : Byte) = 0x01 := by decide
  dsimp only
  constructor
  · rw [hwaited, bspNandSetCs_chip, hchip]
  · rw [hstatus, ← Option.not_isSome_iff_eq_none, ← hpassed, hbit]
    split_ifs with hfail
    · exact iff_of_false (by decide) (not_not.mpr hfail)
    · exact iff_of_true rfl hfail

theorem k9f2g08MarkBlockBad_spec (wear : Wear) (s : Controller) (blkNum : Word) :
    (k9f2g08MarkBlockBad wear s blkNum).2.chip =
        (s.chip.program wear (chunkRow (blkNum * 64)) 2048 badMark).2 ∧
      ((k9f2g08MarkBlockBad wear s blkNum).1 = YAFFS_OK ↔ wear.program s.chip.log.length = none) := by
  have hbus : ((s.bspNandSetCs 0).bspNandWriteCmd wear 0x80).bus = .input [] [] := by
    simp [Controller.bspNandWriteCmd]
  have haddrs := Controller.writeAddrs_input hbus (columnCycles 2048 ++ pageCycles (blkNum * 64))
  have hinput : (((s.bspNandSetCs 0).bspNandWriteCmd wear 0x80).writeAddrs
      (columnCycles 2048 ++ pageCycles (blkNum * 64))).bus = .input (columnCycles 2048 ++ pageCycles (blkNum * 64)) [] := by
    rw [haddrs]
  have hchip : (((s.bspNandSetCs 0).bspNandWriteCmd wear 0x80).writeAddrs
      (columnCycles 2048 ++ pageCycles (blkNum * 64))).chip = s.chip := by
    rw [haddrs]
    simp [Controller.bspNandWriteCmd]
  obtain ⟨hmarked, hkept⟩ := writeData_input hinput badMark
  have hfinish := finish_program wear hmarked
  have hcycles : (columnCycles 2048 ++ pageCycles (blkNum * 64)).drop 2 = pageCycles (blkNum * 64) ∧
      address ((columnCycles 2048 ++ pageCycles (blkNum * 64)).take 2) = 2048 := by
    refine ⟨by simp [columnCycles], ?_⟩
    rw [List.take_left' (by simp [columnCycles])]
    decide
  rw [hkept, hchip, hcycles.1, hcycles.2] at hfinish
  have hwrites : ∀ t : Controller, (((t.writeData (wordBytes 0xffffffff)).writeData (wordBytes 0)).writeData
      (wordBytes 0xffffffff)).writeData (wordBytes 0xffffffff) = t.writeData badMark := fun t => by
    simp only [Controller.writeData_append, badMark]
  simp only [k9f2g08MarkBlockBad, Controller.bspNandWriteData32, hwrites]
  exact hfinish

/-- What a device is asked to change between two erasures. -/
inductive PortOp where
  | write (chunk : Word) (data : Vector Byte 2048) (tags : ExtTags) (pt : PackedTags2) (pad : Vector Byte 3)
  | markBad (blkNum : Word)

namespace PortOp

def row : PortOp → Nat
  | write chunk .. => chunkRow chunk
  | markBad blkNum => chunkRow (blkNum * 64)

def run (unit : EccUnit) (wear : Wear) (s : Controller) : PortOp → Int × Controller
  | write chunk data tags pt pad => ynfWriteChunkTags unit wear s chunk (some data.toList) tags false pt pad
  | markBad blkNum => k9f2g08MarkBlockBad wear s blkNum

/-- The bytes of the program command, and the column they start at. -/
def sent (unit : EccUnit) : PortOp → Nat × List Byte
  | write _ data tags pt pad => (0, chunkBytes unit data.toList ((yaffsPackTags2 pt tags true).bytes pad))
  | markBad _ => (2048, badMark)

theorem run_spec (unit : EccUnit) (wear : Wear) (s : Controller) (op : PortOp) :
    (op.run unit wear s).2.chip = (s.chip.program wear op.row (op.sent unit).1 (op.sent unit).2).2 ∧
      ((op.run unit wear s).1 = YAFFS_OK ↔ wear.program s.chip.log.length = none) := by
  cases op with
  | write chunk data tags pt pad => exact k9f2g08Write_spec unit wear s chunk data.toList _
  | markBad blkNum => exact k9f2g08MarkBlockBad_spec wear s blkNum

end PortOp

inductive Page where
  | blank
  | tagged (t : ExtTags)
  | spoilt

inductive Mark where
  | good
  | bad
  | spoilt

/-- A device as the one who writes it knows it. -/
structure Port where
  pages : Nat → Page
  marks : Nat → Mark

def Page.write (t : ExtTags) : Page → Page
  | .blank => .tagged t
  | _ => .spoilt

def Mark.set : Mark → Mark
  | .spoilt => .spoilt
  | _ => .bad

/-- A page is written once; of a command that fails nothing is known. -/
def Port.step (p : Port) (op : PortOp) (ret : Int) : Port :=
  if ret = YAFFS_OK then
    match op with
    | .write chunk _ tags _ _ =>
        { p with pages := Function.update p.pages (chunkRow chunk) ((p.pages (chunkRow chunk)).write tags) }
    | .markBad blkNum =>
        { p with marks := Function.update p.marks (chunkRow (blkNum * 64)) (p.marks (chunkRow (blkNum * 64))).set }
  else ⟨Function.update p.pages op.row .spoilt, Function.update p.marks op.row .spoilt⟩

def portStep (unit : EccUnit) (wear : Wear) (state : Controller × Port) (op : PortOp) : Controller × Port :=
  ((op.run unit wear state.1).2, state.2.step op (op.run unit wear state.1).1)

def Port.erased : Port := ⟨fun _ => .blank, fun _ => .good⟩

def AtMark (c : Nat) : Prop := 2048 + 4 ≤ c ∧ c < 2048 + 8

def Page.Stands (cells : Nat → Byte) : Page → Prop
  | .blank => ∀ c, ¬ AtMark c → cells c = 0xff
  | .tagged t => ∃ pt pad, ∀ i < packedSize,
      cells (2048 + 16 + i) = ((yaffsPackTags2 pt t true).bytes pad).getD i 0
  | .spoilt => True

def Mark.Stands (cells : Nat → Byte) : Mark → Prop
  | .good => ∀ c, AtMark c → cells c = 0xff
  | .bad => ∀ c, AtMark c → cells c = 0
  | .spoilt => True

structure Port.Stands (p : Port) (cells : Cells) : Prop where
  pages : ∀ r, (p.pages r).Stands (cells r)
  marks : ∀ r, (p.marks r).Stands (cells r)

theorem stands_erased : Port.erased.Stands MyBoot.erased := ⟨fun _ _ _ => rfl, fun _ _ _ => rfl⟩

section Programmed

variable {cells : Cells} {row : Nat}

theorem programmed_other {r : Nat} (h : r ≠ row) (column : Nat) (data : List Byte) :
    cells.programmed row column data r = cells r := by
  funext c
  rw [Cells.programmed, if_neg fun hr => h hr.1]

theorem programmed_ones {column c : Nat} {data : List Byte} (h : ∀ i < data.length, column + i = c → data.getD i 0 = 0xff) :
    cells.programmed row column data row c = cells row c := by
  have hones : ∀ b : Byte, b &&& 0xff = b := by decide
  unfold Cells.programmed
  split_ifs with hc
  · rw [h (c - column) (by omega) (by omega), hones]
  · rfl

theorem programmed_blank {column : Nat} {data : List Byte} {i : Nat} (hi : i < data.length)
    (h : cells row (column + i) = 0xff) : cells.programmed row column data row (column + i) = data.getD i 0 := by
  have hones : ∀ b : Byte, 0xff &&& b = b := by decide
  rw [Cells.programmed, if_pos ⟨rfl, by omega, by omega⟩, h, hones, Nat.add_sub_cancel_left]

end Programmed

section Step

variable {p : Port} {cells : Cells}

theorem length_chunkBytes (unit : EccUnit) (data : Vector Byte 2048) :
    (data.toList ++ wordBytes (unit.spare data.toList &&& 0xffff) ++ List.replicate 12 0xff).length = 2048 + 16 := by
  simp [wordBytes]

theorem chunkBytes_mark (unit : EccUnit) (data : Vector Byte 2048) (spare : List Byte) {c : Nat} (hc : AtMark c) :
    (chunkBytes unit data.toList spare).getD c 0 = 0xff := by
  obtain ⟨hle, hlt⟩ := hc
  obtain ⟨k, rfl⟩ : ∃ k, c = 2052 + k := ⟨c - 2052, by omega⟩
  have hfour : (data.toList ++ wordBytes (unit.spare data.toList &&& 0xffff)).length = 2052 := by simp [wordBytes]
  have hk : k < 12 := by omega
  rw [chunkBytes, List.append_assoc, ← hfour, List.getD_append_right _ _ _ _ (by omega), Nat.add_sub_cancel_left,
    List.getD_append _ _ _ _ (by simpa using hk), List.getD_eq_getElem _ _ (by simpa using hk), List.getElem_replicate]

theorem chunkBytes_spare (unit : EccUnit) (data : Vector Byte 2048) (spare : List Byte) (i : Nat) :
    (chunkBytes unit data.toList spare).getD (2048 + 16 + i) 0 = spare.getD i 0 := by
  rw [chunkBytes, ← length_chunkBytes unit data, List.getD_append_right _ _ _ _ (by omega), Nat.add_sub_cancel_left]

theorem Mark.Stands.congr {mark : Mark} {row row' : Nat → Byte} (h : mark.Stands row)
    (hrow : ∀ c, AtMark c → row' c = row c) : mark.Stands row' := by
  cases mark with
  | good => exact fun c hc => (hrow c hc).trans (h c hc)
  | bad => exact fun c hc => (hrow c hc).trans (h c hc)
  | spoilt => trivial

theorem Page.Stands.congr {page : Page} {row row' : Nat → Byte} (h : page.Stands row)
    (hrow : ∀ c, ¬ AtMark c → row' c = row c) : page.Stands row' := by
  cases page with
  | blank => exact fun c hc => (hrow c hc).trans (h c hc)
  | tagged t =>
      obtain ⟨pt, pad, hbytes⟩ := h
      exact ⟨pt, pad, fun i hi => (hrow _ fun hc => by have := hc.2; omega).trans (hbytes i hi)⟩
  | spoilt => trivial

theorem stands_write (h : p.Stands cells) (unit : EccUnit) (chunk : Word) (data : Vector Byte 2048) (tags : ExtTags)
    (pt : PackedTags2) (pad : Vector Byte 3) : (p.step (.write chunk data tags pt pad) YAFFS_OK).Stands
      (cells.programmed (chunkRow chunk) 0 (chunkBytes unit data.toList ((yaffsPackTags2 pt tags true).bytes pad))) := by
  rw [Port.step, if_pos rfl]
  constructor
  · intro r
    dsimp only
    by_cases hr : r = chunkRow chunk
    · subst hr
      have hpage := h.pages (chunkRow chunk)
      rw [Function.update_self]
      cases hcase : p.pages (chunkRow chunk) with
      | blank =>
          rw [hcase] at hpage
          refine ⟨pt, pad, fun i hi => ?_⟩
          have hlength : (chunkBytes unit data.toList ((yaffsPackTags2 pt tags true).bytes pad)).length =
              2048 + 16 + packedSize := by
            rw [chunkBytes, List.length_append, length_chunkBytes, PackedTags2.length_bytes]
          have hcell : cells (chunkRow chunk) (0 + (2048 + 16 + i)) = 0xff := hpage _ fun hc => by
            have := hc.2
            omega
          have hlt : 2048 + 16 + i < (chunkBytes unit data.toList ((yaffsPackTags2 pt tags true).bytes pad)).length := by
            omega
          have hsent := programmed_blank hlt hcell
          rwa [chunkBytes_spare, Nat.zero_add] at hsent
      | tagged t => trivial
      | spoilt => trivial
    · rw [Function.update_of_ne hr, programmed_other hr]
      exact h.pages r
  · intro r
    dsimp only
    by_cases hr : r = chunkRow chunk
    · subst hr
      refine (h.marks _).congr fun c hc => programmed_ones fun i _ hic => ?_
      rw [Nat.zero_add] at hic
      rw [hic, chunkBytes_mark unit data _ hc]
    · rw [programmed_other hr]
      exact h.marks r

theorem badMark_spec : ∀ i < badMark.length, badMark.getD i 0 = if 4 ≤ i ∧ i < 8 then 0 else 0xff := by decide

theorem stands_markBad (h : p.Stands cells) (blkNum : Word) : (p.step (.markBad blkNum) YAFFS_OK).Stands
    (cells.programmed (chunkRow (blkNum * 64)) 2048 badMark) := by
  have hlength : badMark.length = 16 := by decide
  rw [Port.step, if_pos rfl]
  constructor
  · intro r
    dsimp only
    by_cases hr : r = chunkRow (blkNum * 64)
    · subst hr
      refine (h.pages _).congr fun c hc => programmed_ones fun i hi hic => ?_
      rw [badMark_spec i hi, if_neg fun hat => hc ⟨by omega, by omega⟩]
    · rw [programmed_other hr]
      exact h.pages r
  · intro r
    dsimp only
    by_cases hr : r = chunkRow (blkNum * 64)
    · subst hr
      have hmark := h.marks (chunkRow (blkNum * 64))
      have hclear : ∀ c, AtMark c → cells.programmed (chunkRow (blkNum * 64)) 2048 badMark (chunkRow (blkNum * 64)) c = 0 := by
        rintro c ⟨hle, hlt⟩
        have hnone : ∀ b : Byte, b &&& 0 = 0 := by decide
        rw [Cells.programmed, if_pos ⟨rfl, by omega, by omega⟩, badMark_spec _ (by omega), if_pos (by omega), hnone]
      rw [Function.update_self]
      cases hcase : p.marks (chunkRow (blkNum * 64)) with
      | good => exact hclear
      | bad => exact hclear
      | spoilt => trivial
    · rw [Function.update_of_ne hr, programmed_other hr]
      exact h.marks r

theorem stands_failed (h : p.Stands cells) (op : PortOp) {ret : Int} (hret : ret ≠ YAFFS_OK) (junk : Nat → Byte) :
    (p.step op ret).Stands (cells.withRow op.row junk) := by
  have hother : ∀ r, r ≠ op.row → cells.withRow op.row junk r = cells r := by
    intro r hr
    funext c
    rw [Cells.withRow, if_neg hr]
  have hstep : p.step op ret = ⟨Function.update p.pages op.row .spoilt, Function.update p.marks op.row .spoilt⟩ :=
    if_neg hret
  rw [hstep]
  constructor
  · intro r
    dsimp only
    by_cases hr : r = op.row
    · rw [hr, Function.update_self]
      trivial
    · rw [Function.update_of_ne hr, hother r hr]
      exact h.pages r
  · intro r
    dsimp only
    by_cases hr : r = op.row
    · rw [hr, Function.update_self]
      trivial
    · rw [Function.update_of_ne hr, hother r hr]
      exact h.marks r

theorem stands_step {unit : EccUnit} {wear : Wear} {state : Controller × Port} (h : state.2.Stands state.1.chip.cells)
    (op : PortOp) : (portStep unit wear state op).2.Stands (portStep unit wear state op).1.chip.cells := by
  obtain ⟨hchip, hret⟩ := op.run_spec unit wear state.1
  cases hwear : wear.program state.1.chip.log.length with
  | none =>
      have hcells : (op.run unit wear state.1).2.chip.cells =
          state.1.chip.cells.programmed op.row (op.sent unit).1 (op.sent unit).2 := by
        rw [hchip, Chip.program, hwear]
      rw [portStep, hret.mpr hwear, hcells]
      cases op with
      | write chunk data tags pt pad => exact stands_write h unit chunk data tags pt pad
      | markBad blkNum => exact stands_markBad h blkNum
  | some junk =>
      have hcells : (op.run unit wear state.1).2.chip.cells = state.1.chip.cells.withRow op.row junk := by
        rw [hchip, Chip.program, hwear]
      rw [portStep, hcells]
      exact stands_failed h op (fun hok => by rw [hret.mp hok] at hwear; cases hwear) junk

theorem stands_run {unit : EccUnit} {wear : Wear} {state : Controller × Port} (h : state.2.Stands state.1.chip.cells)
    (ops : List PortOp) : (ops.foldl (portStep unit wear) state).2.Stands (ops.foldl (portStep unit wear) state).1.chip.cells := by
  induction ops generalizing state with
  | nil => exact h
  | cons op ops ih => exact ih (stands_step h op)

end Step

def spareTurned (s : Controller) (chunk : Word) (i j : Nat) : Controller :=
  { s with chip := { s.chip with
      cells := fun r c => if r = chunkRow chunk ∧ c = 2048 + 16 + i then s.chip.cells r c ^^^ BitVec.twoPow 8 j
        else s.chip.cells r c } }

theorem rowBytes_spareTurned (s : Controller) (chunk : Word) (i : Nat) (j : Fin 8) :
    rowBytes (spareTurned s chunk i j).chip.cells (chunkRow chunk) (2048 + 16) packedSize =
      flipBit (rowBytes s.chip.cells (chunkRow chunk) (2048 + 16) packedSize) i j := by
  apply List.ext_getElem
  · simp [rowBytes]
  · intro k hk hk'
    have hsame : (k = i) = (i = k) := propext eq_comm
    simp [rowBytes, spareTurned, flipBit, List.getElem_modify, hsame]

theorem tags_eq (unit : EccUnit) (wear : Wear) (s : Controller) (chunk : Word) (data : Bool) (e : Int) :
    (ynfReadChunkTags unit wear s chunk data false e).tags =
      mergeEcc (k9f2g08Read unit wear s chunk data packedSize e).eccStatus
        (yaffsUnpackTags2 (.ofBytes (rowBytes s.chip.cells (chunkRow chunk) (2048 + 16) packedSize)) true).1 := by
  have hspare : (k9f2g08Read unit wear s chunk data packedSize e).spare =
      rowBytes s.chip.cells (chunkRow chunk) (2048 + 16) packedSize := by
    cases data with
    | false => rw [k9f2g08Read_tags]
    | true =>
        rw [k9f2g08Read_eq, readResult]
        split <;> rfl
  rw [ynfReadChunkTags, hspare]
  rfl

theorem mergeEcc_fields (e : Int) (t : ExtTags) :
    (mergeEcc e t).chunkUsed = t.chunkUsed ∧ (mergeEcc e t).seqNumber = t.seqNumber := by
  unfold mergeEcc
  split_ifs <;> exact ⟨rfl, rfl⟩

theorem mergeEcc_unfixed (e : Int) {t : ExtTags} (h : t.eccResult = .unfixed) : (mergeEcc e t).eccResult = .unfixed := by
  unfold mergeEcc
  by_cases hused : t.chunkUsed ≠ 0
  · rw [if_pos hused, if_pos (.inr h)]
  · rw [if_neg hused, h]

/-- What a device says of itself: of a block, and of the tags of a chunk with up to two wrong bits. -/
structure Told (unit : EccUnit) (wear : Wear) (s : Controller) (p : Port) : Prop where
  dead : ∀ blk e, p.marks (chunkRow (blk * 64)) = .bad → ynfQueryBlock unit wear s blk false e = (.dead, 0)
  empty : ∀ blk e, p.marks (chunkRow (blk * 64)) = .good → p.pages (chunkRow (blk * 64)) = .blank →
    ynfQueryBlock unit wear s blk false e = (.empty, 0)
  scan : ∀ blk e t, p.marks (chunkRow (blk * 64)) = .good → p.pages (chunkRow (blk * 64)) = .tagged t → t.Packable →
    ynfQueryBlock unit wear s blk false e = (.needsScan, t.seqNumber)
  tags : ∀ chunk t data e, p.pages (chunkRow chunk) = .tagged t → t.Packable →
    (ynfReadChunkTags unit wear s chunk data false e).tags =
      mergeEcc (k9f2g08Read unit wear s chunk data packedSize e).eccStatus { t.stored with eccResult := .noError }
  fixed : ∀ chunk t data e i j, p.pages (chunkRow chunk) = .tagged t → t.Packable → SeqApart t.seqNumber → Watched i j →
    let turned := spareTurned s chunk i j
    (ynfReadChunkTags unit wear turned chunk data false e).tags =
      mergeEcc (k9f2g08Read unit wear turned chunk data packedSize e).eccStatus { t.stored with eccResult := .fixed }
  unfixed : ∀ chunk t data e i j k l, p.pages (chunkRow chunk) = .tagged t → SeqApart t.seqNumber → Watched i j →
    Watched k l → (i, j) ≠ (k, l) → let turned := spareTurned (spareTurned s chunk k l) chunk i j
    (ynfReadChunkTags unit wear turned chunk data false e).tags.eccResult = .unfixed

theorem query_used {blk : Word} {noTagsEcc : Bool} {e : Int} (hok : k9f2g08IsBlockOk wear s blk = true)
    (hused : (ynfReadChunkTags unit wear s (blk * chunksPerBlock) false noTagsEcc e).tags.chunkUsed ≠ 0) :
    ynfQueryBlock unit wear s blk noTagsEcc e =
      (.needsScan, (ynfReadChunkTags unit wear s (blk * chunksPerBlock) false noTagsEcc e).tags.seqNumber) := by
  simp only [ynfQueryBlock, hok, Bool.not_true, Bool.false_eq_true, if_false]
  rw [if_neg hused]

theorem rowBytes_eq_replicate {cells : Cells} {row column n : Nat} {b : Byte}
    (h : ∀ i < n, cells row (column + i) = b) : rowBytes cells row column n = List.replicate n b := by
  rw [List.eq_replicate_iff]
  refine ⟨by simp [rowBytes], fun x hx => ?_⟩
  obtain ⟨i, hi, rfl⟩ := List.mem_map.mp hx
  exact h i (List.mem_range.mp hi)

section Told

variable {p : Port} (h : p.Stands s.chip.cells)

include h

theorem isBlockOk_good (wear : Wear) {blk : Word} (hgood : p.marks (chunkRow (blk * 64)) = .good) :
    k9f2g08IsBlockOk wear s blk = true := by
  have hmark := h.marks (chunkRow (blk * 64))
  rw [hgood] at hmark
  have hrow : rowBytes s.chip.cells (chunkRow (blk * 64)) (2048 + 4) 4 = List.replicate 4 0xff :=
    rowBytes_eq_replicate fun i hi => hmark _ ⟨by omega, by omega⟩
  rw [k9f2g08IsBlockOk_eq, hrow]
  decide

theorem isBlockOk_bad (wear : Wear) {blk : Word} (hbad : p.marks (chunkRow (blk * 64)) = .bad) :
    k9f2g08IsBlockOk wear s blk = false := by
  have hmark := h.marks (chunkRow (blk * 64))
  rw [hbad] at hmark
  have hrow : rowBytes s.chip.cells (chunkRow (blk * 64)) (2048 + 4) 4 = List.replicate 4 0 :=
    rowBytes_eq_replicate fun i hi => hmark _ ⟨by omega, by omega⟩
  rw [k9f2g08IsBlockOk_eq, hrow]
  decide

theorem tags_blank (unit : EccUnit) (wear : Wear) {chunk : Word} (hblank : p.pages (chunkRow chunk) = .blank) (data : Bool)
    (e : Int) : (ynfReadChunkTags unit wear s chunk data false e).tags.chunkUsed = 0 := by
  have hpage := h.pages (chunkRow chunk)
  rw [hblank] at hpage
  have hrow : rowBytes s.chip.cells (chunkRow chunk) (2048 + 16) packedSize = List.replicate packedSize 0xff :=
    rowBytes_eq_replicate fun i hi => hpage _ fun hc => by have := hc.2; omega
  have hunused : (yaffsUnpackTags2 (.ofBytes (List.replicate packedSize 0xff)) true).1.chunkUsed = 0 := by decide
  rw [tags_eq, (mergeEcc_fields _ _).1, hrow, hunused]

theorem rowBytes_tagged {chunk : Word} {t : ExtTags} (htagged : p.pages (chunkRow chunk) = .tagged t) :
    ∃ pt pad, rowBytes s.chip.cells (chunkRow chunk) (2048 + 16) packedSize = (yaffsPackTags2 pt t true).bytes pad := by
  have hpage := h.pages (chunkRow chunk)
  rw [htagged] at hpage
  obtain ⟨pt, pad, hbytes⟩ := hpage
  refine ⟨pt, pad, List.ext_getElem ?_ fun i hi hi' => ?_⟩
  · rw [PackedTags2.length_bytes]
    simp [rowBytes]
  · have hlt : i < packedSize := by simpa [rowBytes] using hi
    have hcell := hbytes i hlt
    rw [List.getD_eq_getElem _ _ hi'] at hcell
    simpa [rowBytes] using hcell

theorem told_of_stands (unit : EccUnit) (wear : Wear) : Told unit wear s p where
  dead blk e hbad := by
    rw [ynfQueryBlock, isBlockOk_bad h wear hbad]
    rfl
  empty blk e hgood hblank := by
    have htags := tags_blank h unit wear hblank false e
    simp only [ynfQueryBlock, isBlockOk_good h wear hgood, chunksPerBlock, Bool.not_true, Bool.false_eq_true, if_false, htags,
      if_true]
  scan blk e t hgood htagged hpackable := by
    obtain ⟨pt, pad, hrow⟩ := rowBytes_tagged h htagged
    have htags := tags_eq unit wear s (blk * 64) false e
    rw [hrow, unpack_bytes hpackable] at htags
    have hused : (ynfReadChunkTags unit wear s (blk * 64) false false e).tags.chunkUsed = 1 := by
      rw [htags]
      exact (mergeEcc_fields _ _).1.trans (stored_chunkUsed t)
    have hnumber : (ynfReadChunkTags unit wear s (blk * 64) false false e).tags.seqNumber = t.seqNumber := by
      rw [htags]
      exact (mergeEcc_fields _ _).2.trans (stored_seqNumber t)
    have hquery := query_used (isBlockOk_good h wear hgood) (ne_of_eq_of_ne hused (by decide))
    exact hquery.trans (congrArg _ hnumber)
  tags chunk t data e htagged hpackable := by
    obtain ⟨pt, pad, hrow⟩ := rowBytes_tagged h htagged
    rw [tags_eq, hrow, unpack_bytes hpackable]
  fixed chunk t data e i j htagged hpackable hseq hwatched := by
    intro turned
    obtain ⟨pt, pad, hrow⟩ := rowBytes_tagged h htagged
    have hi := (bitOf_watched hwatched).1
    have hnone : ¬ (17 ≤ i ∧ i < 20) := by
      unfold Watched at hwatched
      omega
    rw [tags_eq, rowBytes_spareTurned, hrow, unpack_flipBit hpackable hseq pt pad hi j, if_neg hnone]
  unfixed chunk t data e i j k l htagged hseq hij hkl hne := by
    intro turned
    obtain ⟨pt, pad, hrow⟩ := rowBytes_tagged h htagged
    rw [tags_eq]
    apply mergeEcc_unfixed
    rw [rowBytes_spareTurned, rowBytes_spareTurned, hrow]
    exact unpack_flipBit_flipBit hseq pt pad hij hkl hne

end Told

/-- After every run of writes and marks on an erased device, the blocks and the chunks say what was done to them. -/
theorem told_run (unit : EccUnit) (wear : Wear) (s : Controller) (h : s.chip.cells = MyBoot.erased) (ops : List PortOp) :
    let state := ops.foldl (portStep unit wear) (s, Port.erased)
    Told unit wear state.1 state.2 := by
  intro state
  apply told_of_stands
  apply stands_run
  rw [h]
  exact stands_erased

def writeThenMark : List PortOp :=
  [.write 130 (Vector.replicate 2048 0x5a) headerTags ⟨⟨0, 0, 0, 0⟩, 0, 0, 0⟩ (Vector.replicate 3 0), .markBad 2]

theorem told_run_fresh :
    let state := writeThenMark.foldl (portStep positionUnit unworn) (fresh, Port.erased)
    Told positionUnit unworn state.1 state.2 := told_run positionUnit unworn fresh rfl writeThenMark

end Fl2440.Yaffs
