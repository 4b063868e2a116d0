import Fl2440.Yaffs.PackedTags2

/-! `yaffs_checkptrw.c`: the bytes of a checkpoint in blocks of their own. Block and chunk numbers are not
offset, and memory for the buffer is there. -/
namespace Fl2440.Yaffs

open Fl2440.Lib Fl2440.MyBoot

def YAFFS_CHECKPOINT_VERSION : Word := 7

def YAFFS_SEQUENCE_CHECKPOINT_DATA : Word := 0x21

/-- `sizeof(struct yaffs_checkpt_chunk_hdr)` -/
def checkptHdrSize : Nat := 16

structure CheckptPage where
  data : List Byte
  objId : Nat
  chunkId : Nat
  seqNumber : Word
  eccResult : EccResult
deriving DecidableEq

/-- The parameters of a device, and how its commands turn out: the blocks that can be erased, and what is left of a
chunk where its program fails. -/
structure CheckptParam where
  dataBytesPerChunk : Nat
  chunksPerBlock : Nat
  internalStartBlock : Nat
  internalEndBlock : Nat
  nReservedBlocks : Int
  erases : Nat → Bool
  program : Nat → Option CheckptPage
  hdr_lt : checkptHdrSize < dataBytesPerChunk
  chunks_pos : 0 < chunksPerBlock

/-- The blocks of a device and its checkpoint stream; a block number that is -1 in the source is none. -/
structure CheckptDev where
  blockState : Nat → BlockState
  nErasedBlocks : Int
  nFreeChunks : Int
  pages : Nat → CheckptPage
  bad : Nat → Bool
  openWrite : Bool
  buffer : List Byte
  pageSeq : Nat
  byteOffs : Nat
  byteCount : Nat
  sum : Word
  xor : Word
  curBlock : Option Nat
  curChunk : Nat
  nextBlock : Option Nat
  blocksInCheckpt : Nat
  maxBlocks : Nat
  blockList : List Nat

variable (p : CheckptParam)

def CheckptPage.erased : CheckptPage := ⟨List.replicate p.dataBytesPerChunk 0xff, 0, 0, 0, .noError⟩

def checkptHdr (seq : Nat) (sum xor : Word) : List Byte :=
  wordBytes YAFFS_CHECKPOINT_VERSION ++ wordBytes (BitVec.ofNat 32 seq) ++ wordBytes sum ++ wordBytes xor

def checkptInitChunkHdr (d : CheckptDev) : CheckptDev :=
  { d with
    byteOffs := checkptHdrSize
    buffer := checkptHdr d.pageSeq d.sum d.xor ++ d.buffer.drop checkptHdrSize }

def checkptCheckChunkHdr (d : CheckptDev) : Bool :=
  d.buffer.take checkptHdrSize == checkptHdr d.pageSeq d.sum d.xor

def checkptSpaceOk (d : CheckptDev) : Bool := 0 < d.nErasedBlocks - p.nReservedBlocks

def blockRange : List Nat := List.range' p.internalStartBlock (p.internalEndBlock + 1 - p.internalStartBlock)

/-- The body of the loop of `yaffs_checkpt_erase` -/
def checkptEraseBlock (d : CheckptDev) (i : Nat) : CheckptDev :=
  if d.blockState i = .checkpoint then
    if p.erases i then
      { d with
        pages := fun c => if c / p.chunksPerBlock = i then CheckptPage.erased p else d.pages c
        blockState := Function.update d.blockState i .empty
        nErasedBlocks := d.nErasedBlocks + 1
        nFreeChunks := d.nFreeChunks + p.chunksPerBlock }
    else { d with bad := Function.update d.bad i true, blockState := Function.update d.blockState i .dead }
  else d

def checkptErase (d : CheckptDev) : CheckptDev :=
  { (blockRange p).foldl (checkptEraseBlock p) d with blocksInCheckpt := 0 }

def blocksFrom (next : Nat) : List Nat := List.range' next (p.internalEndBlock + 1 - next)

def checkptFindErasedBlock (d : CheckptDev) : CheckptDev :=
  let blocksAvail := d.nErasedBlocks - p.nReservedBlocks
  let found := d.nextBlock.bind fun next =>
    if next ≤ p.internalEndBlock ∧ blocksAvail > 0 then (blocksFrom p next).find? (d.blockState · = .empty) else none
  { d with nextBlock := found.map (· + 1), curBlock := found }

def checkptFindBlock (d : CheckptDev) : CheckptDev :=
  -- from -1, where a search that has found no more leaves it, the source would search all blocks again
  let found := d.nextBlock.bind fun next =>
    if d.blocksInCheckpt < d.maxBlocks then
      (blocksFrom p next).find? fun i =>
        (d.pages (i * p.chunksPerBlock)).seqNumber = YAFFS_SEQUENCE_CHECKPOINT_DATA && !d.bad i
    else none
  match found with
  | some i =>
      { d with
        nextBlock := some (d.pages (i * p.chunksPerBlock)).objId
        curBlock := some i
        blockList := d.blockList ++ [i]
        blocksInCheckpt := d.blocksInCheckpt + 1 }
  | none => { d with nextBlock := none, curBlock := none }

def checkptMaxBlocks : Nat := (p.internalEndBlock - p.internalStartBlock) / 16 + 2

/-- `yaffs2_checkpt_open` -/
def checkptOpen (writing : Bool) (d : CheckptDev) : Bool × CheckptDev :=
  let d := { d with openWrite := writing }
  if writing && !checkptSpaceOk p d then (false, d)
  else
    let d := { d with
      pageSeq := 0
      byteCount := 0
      sum := 0
      xor := 0
      curBlock := none
      nextBlock := some p.internalStartBlock }
    if writing then
      let d := checkptInitChunkHdr { d with buffer := List.replicate p.dataBytesPerChunk 0 }
      (true, checkptErase p d)
    else
      (true, { d with
        byteOffs := p.dataBytesPerChunk
        blocksInCheckpt := 0
        maxBlocks := checkptMaxBlocks p
        blockList := [] })

/-- `yaffs2_checkpt_flush_buffer` -/
def checkptFlushBuffer (d : CheckptDev) : Bool × CheckptDev :=
  let d := if d.curBlock.isNone then { checkptFindErasedBlock p d with curChunk := 0 } else d
  match d.curBlock with
  | none => (false, d)
  | some cur =>
      let d := if d.curChunk = 0 then
          { d with
            blockState := Function.update d.blockState cur .checkpoint
            blocksInCheckpt := d.blocksInCheckpt + 1 }
        else d
      let chunk := cur * p.chunksPerBlock + d.curChunk
      let page : CheckptPage :=
        ⟨d.buffer, d.nextBlock.getD (2 ^ 32 - 1), d.pageSeq + 1, YAFFS_SEQUENCE_CHECKPOINT_DATA, .noError⟩
      -- nobody looks at what `write_chunk_tags_fn` returns
      let d := { d with
        pages := Function.update d.pages chunk ((p.program chunk).getD page)
        pageSeq := d.pageSeq + 1
        curChunk := d.curChunk + 1 }
      let d := if d.curChunk ≥ p.chunksPerBlock then { d with curChunk := 0, curBlock := none } else d
      (true, checkptInitChunkHdr { d with buffer := List.replicate p.dataBytesPerChunk 0 })

/-- `yaffs2_get_checkpt_sum` -/
def getCheckptSum (d : CheckptDev) : Word := d.sum <<< 8 ||| d.xor &&& 0xff

/-- The body of the loop of `yaffs2_checkpt_wr` -/
def checkptWrByte (d : CheckptDev) (b : Byte) : Bool × CheckptDev :=
  let d := { d with
    buffer := d.buffer.set d.byteOffs b
    sum := d.sum + b.setWidth 32
    xor := d.xor ^^^ b.setWidth 32
    byteOffs := d.byteOffs + 1
    byteCount := d.byteCount + 1 }
  if d.byteOffs ≥ p.dataBytesPerChunk then checkptFlushBuffer p d else (true, d)

/-- `yaffs2_checkpt_wr` of a stream that is open for writing: how many bytes have been taken. -/
def checkptWr (d : CheckptDev) : List Byte → Nat × CheckptDev
  | [] => (0, d)
  | b :: data =>
      let r := checkptWrByte p d b
      if r.1 then
        let rest := checkptWr r.2 data
        (rest.1 + 1, rest.2)
      else (1, r.2)

/-- The next chunk of the stream is read where the buffer has been read to its end. -/
def checkptFill (d : CheckptDev) : Bool × CheckptDev :=
  let d := if d.curBlock.isNone then { checkptFindBlock p d with curChunk := 0 } else d
  match d.curBlock with
  | none => (false, d)
  | some cur =>
      let page := d.pages (cur * p.chunksPerBlock + d.curChunk)
      let d := { d with buffer := page.data }
      -- no other ECC result is above `YAFFS_ECC_RESULT_FIXED`
      if page.chunkId ≠ d.pageSeq + 1 ∨ page.eccResult = .unfixed ∨ page.seqNumber ≠ YAFFS_SEQUENCE_CHECKPOINT_DATA then
        (false, d)
      else
        let ok := checkptCheckChunkHdr d
        let d := { d with byteOffs := checkptHdrSize }
        if !ok then (false, d)
        else
          let d := { d with pageSeq := d.pageSeq + 1, curChunk := d.curChunk + 1 }
          (true, if d.curChunk ≥ p.chunksPerBlock then { d with curBlock := none } else d)

def checkptRdByte (d : CheckptDev) : Option Byte × CheckptDev :=
  let r := if d.byteOffs ≥ p.dataBytesPerChunk then checkptFill p d else (true, d)
  let d := r.2
  if r.1 then
    let b := d.buffer.getD d.byteOffs 0
    (some b, { d with
      sum := d.sum + b.setWidth 32
      xor := d.xor ^^^ b.setWidth 32
      byteOffs := d.byteOffs + 1
      byteCount := d.byteCount + 1 })
  else (none, d)

/-- `yaffs2_checkpt_rd` of a stream that is open for reading: the bytes that are read. -/
def checkptRd (d : CheckptDev) : Nat → List Byte × CheckptDev
  | 0 => ([], d)
  | nBytes + 1 =>
      let r := checkptRdByte p d
      r.1.elim ([], r.2) fun b =>
        let rest := checkptRd r.2 nBytes
        (b :: rest.1, rest.2)

def checkptMarkBlock (state : Nat → BlockState) (blk : Nat) : Nat → BlockState :=
  if p.internalStartBlock ≤ blk ∧ blk ≤ p.internalEndBlock ∧ state blk = .empty then
    Function.update state blk .checkpoint
  else state

def checkptClose (d : CheckptDev) : CheckptDev :=
  let d :=
    if d.openWrite then if d.byteOffs ≠ 4 then (checkptFlushBuffer p d).2 else d
    else
      { d with blockState := d.blockList.foldl (checkptMarkBlock p) d.blockState }
  { d with
    nFreeChunks := d.nFreeChunks - d.blocksInCheckpt * p.chunksPerBlock
    nErasedBlocks := d.nErasedBlocks - d.blocksInCheckpt }

end Fl2440.Yaffs
