import Fl2440.Lib.While
import Fl2440.MyBoot.Bitops

/-! The NAND driver of the bootloader: page access, bad block markers, erase,
and the read and write loops. Loops take a number of rounds; a loop that has not
ended in them returns nothing. -/
namespace Fl2440.MyBoot

open Fl2440.Lib

structure BootNand where
  page_size : Word
  spare_size : Word
  block_size : Word
  block_num : Word
  bad_block_offset : Word
  id : Word

namespace BootNand

def pageShift (nand : BootNand) : Nat := genericFfs nand.page_size - 1

def blockShift (nand : BootNand) : Nat := genericFfs nand.block_size - 1

end BootNand

def NAND_K9F2G08 : Word := 0xecda

/-- `nand_init`, given the identification that the chip answers. -/
def nandInit (nand_id : Word) : Option BootNand :=
  if nand_id = NAND_K9F2G08 then
    some { id := NAND_K9F2G08
           spare_size := 64
           page_size := 0x0800
           block_size := 0x20000
           block_num := 2048
           bad_block_offset := 0x0800 }
  else none

abbrev Ram := Word → Byte

def Ram.at (ram : Ram) (p : Word) : Mem := fun i => ram (p + BitVec.ofNat 32 i)

def Ram.store (ram : Ram) (p : Word) : List Byte → Ram
  | [] => ram
  | b :: data => Ram.store (Function.update ram p b) (p + 1) data

def failure : Word := -1

/-- The column that a page command starts at: a whole main area needs no random
input or output command. -/
def startColumn (nand : BootNand) (offset size : Word) : Nat :=
  if offset = 0 ∧ nand.page_size = size then 0 else address (columnCycles offset)

def nandReadPage (nand : BootNand) (cells : Cells) (page_num offset size : Word) : List Byte :=
  let bytes := if nand.page_size + nand.spare_size - offset ≥ size then size
    else nand.page_size + nand.spare_size - offset
  (List.range bytes.toNat).map fun i =>
    cells (address (pageCycles page_num)) (startColumn nand offset size + i)

/-- `nand_write_page`, with the memory at `data`. -/
def nandWritePage (nand : BootNand) (wear : Wear) (chip : Chip) (page_num offset : Word) (data : Mem)
    (size : Word) : Word × Chip :=
  let bytes := if nand.page_size + nand.spare_size - offset > size then size
    else nand.page_size + nand.spare_size - offset
  let (stat, chip) := chip.program wear (address (pageCycles page_num))
    (startColumn nand offset size) ((List.range bytes.toNat).map data)
  if stat &&& 0x01 ≠ 0 then (failure, chip) else (bytes, chip)

def blockStart (nand : BootNand) (addr : Word) : Word := addr &&& ~~~(nand.block_size - 1)

def isBadBlock (nand : BootNand) (cells : Cells) (addr : Word) : Bool :=
  let page_num := blockStart nand addr >>> nand.pageShift
  (nandReadPage nand cells page_num nand.bad_block_offset 1).head? != some 0xff

def markBadBlock (nand : BootNand) (wear : Wear) (chip : Chip) (addr : Word) : Word × Chip :=
  let page_num := blockStart nand addr >>> nand.pageShift
  let (ret, chip) := nandWritePage nand wear chip page_num nand.bad_block_offset (fun _ => 0xee) 1
  (if ret.slt 0 then ret else 0, chip)

def nandEraseBlock (nand : BootNand) (wear : Wear) (chip : Chip) (block_num : Word) : Word × Chip :=
  let (stat, chip) := chip.erase wear (address (blockCycles block_num))
  let block_start := block_num <<< nand.blockShift
  if stat &&& 0x01 ≠ 0 then (failure, (markBadBlock nand wear chip block_start).2) else (0, chip)

structure Erasing where
  chip : Chip
  addr : Word
  size : Word
  failed : Word

def eraseRound (nand : BootNand) (wear : Wear) (skip_bad : Bool) (s : Erasing) : Erasing :=
  let (ret, chip) := nandEraseBlock nand wear s.chip (s.addr >>> nand.blockShift)
  if ret.slt 0 then
    if skip_bad then
      { s with chip, addr := s.addr + nand.block_size, size := s.size + nand.block_size }
    else { s with chip, failed := s.failed + 1 }
  else { s with chip, addr := s.addr + nand.block_size }

def eraseGoesOn (start_addr : Word) (s : Erasing) : Bool := decide (s.addr < start_addr + s.size)

def nandErase (nand : BootNand) (wear : Wear) (rounds : Nat) (chip : Chip) (start_addr size : Word)
    (skip_bad : Bool) : Option Word × Chip :=
  if start_addr &&& (nand.block_size - 1) ≠ 0 ∨ size &&& (nand.block_size - 1) ≠ 0 then
    (some failure, chip)
  else
    let s := whileLoop (eraseGoesOn start_addr) (eraseRound nand wear skip_bad) rounds
      ⟨chip, start_addr, size, 0⟩
    if eraseGoesOn start_addr s then (none, s.chip)
    else (some (if !skip_bad && s.failed != 0 then s.failed else 0), s.chip)

/-- The variables of the loops of `nand_read` and `nand_write`. What a page
access changes, RAM or the chip, is the `store`. -/
structure Transfer (α : Type) where
  store : α
  addr : Word
  buf : Word
  left : Word
  bytes : Word

def transferGoesOn (s : Transfer α) : Bool := decide (s.left > 0)

/-- One round of both loops. `cells` is the array that the markers are read from,
`page` the page access: page number, offset in the page, buffer, size. -/
def transferRound (nand : BootNand) (cells : α → Cells) (page : α → Word → Word → Word → Word → Word × α)
    (size : Word) (s : Transfer α) : Transfer α :=
  if s.addr &&& (nand.block_size - 1) = 0 ∧ isBadBlock nand (cells s.store) s.addr = true then
    { s with addr := s.addr + nand.block_size }
  else
    let page_num := s.addr >>> nand.pageShift
    let page_offset := s.addr &&& (nand.page_size - 1)
    let (bytes, store) := page s.store page_num page_offset s.buf
      (if s.left ≥ nand.page_size then nand.page_size else size % nand.page_size)
    { store, bytes, addr := s.addr + bytes, buf := s.buf + bytes, left := s.left - bytes }

def transfer (nand : BootNand) (cells : α → Cells) (page : α → Word → Word → Word → Word → Word × α)
    (rounds : Nat) (store : α) (start_addr size buf : Word) : Option Word × α :=
  if start_addr &&& (nand.page_size - 1) ≠ 0 then (some failure, store)
  else
    let s := whileLoop transferGoesOn (transferRound nand cells page size) rounds
      ⟨store, start_addr, buf, size, 0⟩
    if transferGoesOn s then (none, s.store) else (some s.bytes, s.store)

/-- What `nand_read` changes, with a record of the rows that it took data from. -/
structure Readout where
  ram : Ram
  rows : List Nat

def readPageInto (nand : BootNand) (cells : Cells) (out : Readout) (page_num offset buf size : Word) :
    Word × Readout :=
  let data := nandReadPage nand cells page_num offset size
  (BitVec.ofNat 32 data.length,
    { ram := out.ram.store buf data, rows := out.rows ++ [address (pageCycles page_num)] })

def writePageFrom (nand : BootNand) (wear : Wear) (ram : Ram) (chip : Chip)
    (page_num offset buf size : Word) : Word × Chip :=
  nandWritePage nand wear chip page_num offset (ram.at buf) size

def nandRead (nand : BootNand) (cells : Cells) (rounds : Nat) (ram : Ram)
    (start_addr size buf : Word) : Option Word × Readout :=
  transfer nand (fun _ => cells) (readPageInto nand cells) rounds ⟨ram, []⟩ start_addr size buf

def nandWrite (nand : BootNand) (wear : Wear) (rounds : Nat) (ram : Ram) (chip : Chip)
    (start_addr size buf : Word) : Option Word × Chip :=
  transfer nand Chip.cells (writePageFrom nand wear ram) rounds chip start_addr size buf

end Fl2440.MyBoot
