import Fl2440.MyBoot.K9f2g08

/-! Chips that the driver can address: power-of-two pages and blocks, and an
address for every byte. Page `p` has address `pageAddr p`, its block is
`p / pagesInBlock`, and the first spare byte of a block's first page is its
marker. -/
namespace Fl2440.MyBoot

open Fl2440.Lib

structure Geometry where
  pageShift : Nat
  blockShift : Nat
  spare : Nat
  blocks : Nat
  pageShift_le : pageShift ≤ blockShift
  blockShift_lt : blockShift < 31
  spare_pos : 0 < spare
  /-- two column cycles -/
  columns_le : 2 ^ pageShift + spare ≤ 2 ^ 16
  /-- three row cycles -/
  rows_le : blocks * 2 ^ (blockShift - pageShift) ≤ 2 ^ 24
  bytes_le : blocks * 2 ^ blockShift ≤ 2 ^ 32

def k9f2g08 : Geometry where
  pageShift := 11
  blockShift := 17
  spare := 64
  blocks := 2048
  pageShift_le := by decide
  blockShift_lt := by decide
  spare_pos := by decide
  columns_le := by decide
  rows_le := by decide
  bytes_le := by decide

namespace Geometry

variable (g : Geometry)

def pageSize : Nat := 2 ^ g.pageShift

def blockSize : Nat := 2 ^ g.blockShift

def pagesInBlock : Nat := 2 ^ (g.blockShift - g.pageShift)

def pages : Nat := g.blocks * g.pagesInBlock

def nand : BootNand where
  page_size := BitVec.ofNat 32 g.pageSize
  spare_size := BitVec.ofNat 32 g.spare
  block_size := BitVec.ofNat 32 g.blockSize
  block_num := BitVec.ofNat 32 g.blocks
  bad_block_offset := BitVec.ofNat 32 g.pageSize
  id := NAND_K9F2G08

/-- What `nand_init` sets for the chip of the board. -/
example : nandInit NAND_K9F2G08 = some k9f2g08.nand := rfl

def pageAddr (p : Nat) : Word := BitVec.ofNat 32 (p * g.pageSize)

def marker (cells : Cells) (block : Nat) : Byte := cells (block * g.pagesInBlock) g.pageSize

def bad (cells : Cells) (block : Nat) : Bool := g.marker cells block != 0xff

theorem pageSize_pos : 0 < g.pageSize := Nat.two_pow_pos _

theorem pagesInBlock_pos : 0 < g.pagesInBlock := Nat.two_pow_pos _

theorem pagesInBlock_mul : g.pagesInBlock * g.pageSize = g.blockSize := by
  rw [pagesInBlock, pageSize, blockSize, ← Nat.pow_add, Nat.sub_add_cancel g.pageShift_le]

theorem pageShift_lt : g.pageShift < 32 := by
  have := g.pageShift_le
  have := g.blockShift_lt
  omega

theorem blockShift_lt_word : g.blockShift < 32 := by
  have := g.blockShift_lt
  omega

theorem pageSize_lt : g.pageSize + g.spare ≤ 2 ^ 16 := g.columns_le

theorem pages_le : g.pages ≤ 2 ^ 24 := g.rows_le

theorem pages_mul_le : g.pages * g.pageSize ≤ 2 ^ 32 := by
  rw [pages, Nat.mul_assoc, pagesInBlock_mul]
  exact g.bytes_le

theorem mul_pageSize_lt {p : Nat} (h : p < g.pages) : p * g.pageSize < 2 ^ 32 :=
  calc p * g.pageSize < g.pages * g.pageSize := Nat.mul_lt_mul_of_pos_right h g.pageSize_pos
    _ ≤ 2 ^ 32 := g.pages_mul_le

@[simp] theorem nand_pageShift : g.nand.pageShift = g.pageShift := by
  rw [BootNand.pageShift, nand, pageSize, genericFfs_two_pow g.pageShift_lt]
  rfl

@[simp] theorem nand_blockShift : g.nand.blockShift = g.blockShift := by
  rw [BootNand.blockShift, nand, blockSize, genericFfs_two_pow g.blockShift_lt_word]
  rfl

theorem toNat_pageAddr {p : Nat} (h : p < g.pages) : (g.pageAddr p).toNat = p * g.pageSize :=
  toNat_ofNat_of_lt (g.mul_pageSize_lt h)

theorem toNat_page_size : g.nand.page_size.toNat = g.pageSize := toNat_two_pow g.pageShift_lt

theorem toNat_block_size : g.nand.block_size.toNat = g.blockSize := toNat_two_pow g.blockShift_lt_word

theorem pageAddr_add_block (p : Nat) :
    g.pageAddr p + g.nand.block_size = g.pageAddr (p + g.pagesInBlock) := by
  rw [pageAddr, pageAddr, nand, ← BitVec.ofNat_add, Nat.add_mul, pagesInBlock_mul]

theorem pageAddr_add_page (p : Nat) : g.pageAddr p + g.nand.page_size = g.pageAddr (p + 1) := by
  rw [pageAddr, pageAddr, nand, ← BitVec.ofNat_add, Nat.add_mul, Nat.one_mul]

theorem pageAddr_page_num {p : Nat} (h : p < g.pages) :
    g.pageAddr p >>> g.nand.pageShift = BitVec.ofNat 32 p := by
  apply BitVec.eq_of_toNat_eq
  rw [nand_pageShift, toNat_shift, toNat_pageAddr g h, ← pageSize, Nat.mul_div_cancel _ g.pageSize_pos,
    toNat_ofNat_of_lt (by have := g.pages_le; omega)]

theorem pageAddr_page_offset {p : Nat} (h : p < g.pages) :
    g.pageAddr p &&& (g.nand.page_size - 1) = 0 := by
  apply BitVec.eq_of_toNat_eq
  rw [nand, pageSize, toNat_and_mask _ g.pageShift_lt, toNat_pageAddr g h, ← pageSize,
    Nat.mul_mod_left]
  rfl

theorem pageAddr_aligned_iff {p : Nat} (h : p < g.pages) :
    g.pageAddr p &&& (g.nand.block_size - 1) = 0 ↔ g.pagesInBlock ∣ p := by
  rw [← BitVec.toNat_inj, nand, blockSize, toNat_and_mask _ g.blockShift_lt_word,
    toNat_pageAddr g h, ← blockSize, ← pagesInBlock_mul, Nat.mul_mod_mul_right]
  constructor
  · intro h0
    exact Nat.dvd_of_mod_eq_zero ((Nat.mul_eq_zero.mp h0).resolve_right g.pageSize_pos.ne')
  · intro hdvd
    rw [Nat.mod_eq_zero_of_dvd hdvd, Nat.zero_mul]
    rfl

theorem div_lt_blocks {p : Nat} (h : p < g.pages) : p / g.pagesInBlock < g.blocks :=
  Nat.div_lt_of_lt_mul (by rw [Nat.mul_comm]; exact h)

theorem blockStart_pageAddr {p : Nat} (h : p < g.pages) :
    blockStart g.nand (g.pageAddr p) = g.pageAddr (p / g.pagesInBlock * g.pagesInBlock) := by
  have hle : p / g.pagesInBlock * g.pagesInBlock ≤ p := Nat.div_mul_le_self _ _
  apply BitVec.eq_of_toNat_eq
  rw [blockStart, nand, blockSize, toNat_and_not_mask _ g.blockShift_lt_word, toNat_pageAddr g h,
    toNat_pageAddr g (by omega), ← blockSize, ← pagesInBlock_mul,
    Nat.mul_div_mul_right _ _ g.pageSize_pos, Nat.mul_assoc]

theorem marker_page_num {p : Nat} (h : p < g.pages) :
    blockStart g.nand (g.pageAddr p) >>> g.nand.pageShift =
      BitVec.ofNat 32 (p / g.pagesInBlock * g.pagesInBlock) := by
  have hle : p / g.pagesInBlock * g.pagesInBlock ≤ p := Nat.div_mul_le_self _ _
  rw [blockStart_pageAddr g h, pageAddr_page_num g (by omega)]

theorem address_pageCycles {p : Nat} (h : p < g.pages) :
    address (pageCycles (BitVec.ofNat 32 p)) = p := by
  have := g.pages_le
  rw [MyBoot.address_pageCycles, toNat_ofNat_of_lt (by omega)]
  omega

theorem startColumn_main (size : Word) : startColumn g.nand 0 size = 0 := by
  rw [startColumn, address_columnCycles]
  split <;> rfl

theorem startColumn_marker : startColumn g.nand g.nand.bad_block_offset 1 = g.pageSize := by
  have hlt := g.pageSize_lt
  have hpos := g.pageSize_pos
  have hspare := g.spare_pos
  have hcol : g.nand.bad_block_offset.toNat = g.pageSize := toNat_ofNat_of_lt (by omega)
  have hne : g.nand.bad_block_offset ≠ 0 := by
    intro h0
    have : g.pageSize = 0 := by rw [← hcol, h0]; rfl
    omega
  rw [startColumn, if_neg (fun h => hne h.1), address_columnCycles, hcol]
  omega

theorem room_marker : g.nand.page_size + g.nand.spare_size - g.nand.bad_block_offset =
    BitVec.ofNat 32 g.spare := by
  show BitVec.ofNat 32 g.pageSize + BitVec.ofNat 32 g.spare - BitVec.ofNat 32 g.pageSize = _
  rw [BitVec.add_comm, BitVec.add_sub_cancel]

theorem room_main {len : Nat} (h : len ≤ g.pageSize) :
    BitVec.ofNat 32 len < g.nand.page_size + g.nand.spare_size - 0 := by
  have hlt := g.pageSize_lt
  have hspare := g.spare_pos
  show BitVec.ofNat 32 len < BitVec.ofNat 32 g.pageSize + BitVec.ofNat 32 g.spare - 0#32
  rw [BitVec.sub_zero, ← BitVec.ofNat_add, BitVec.lt_def, toNat_ofNat_of_lt (by omega),
    toNat_ofNat_of_lt (by omega)]
  omega

theorem one_le_spare : (1 : Word) ≤ BitVec.ofNat 32 g.spare := by
  have hlt := g.pageSize_lt
  have hspare := g.spare_pos
  rw [BitVec.le_def, toNat_ofNat_of_lt (n := g.spare) (by omega)]
  exact hspare

theorem nandReadPage_main (cells : Cells) {p len : Nat} (hp : p < g.pages) (hlen : len ≤ g.pageSize) :
    nandReadPage g.nand cells (BitVec.ofNat 32 p) 0 (BitVec.ofNat 32 len) =
      (List.range len).map (cells p) := by
  have hlt := g.pageSize_lt
  rw [nandReadPage, if_pos (BitVec.le_of_lt (g.room_main hlen)), toNat_ofNat_of_lt (by omega),
    address_pageCycles g hp, startColumn_main]
  simp

theorem nandWritePage_row (wear : Wear) (chip : Chip) (page_num : Word) (data : Mem) {len : Nat}
    (hlen : len ≤ g.pageSize) :
    nandWritePage g.nand wear chip page_num 0 data (BitVec.ofNat 32 len) =
      (if (wear.program chip.log.length).isSome then failure else BitVec.ofNat 32 len,
        (chip.program wear (address (pageCycles page_num)) 0 ((List.range len).map data)).2) := by
  have hlt := g.pageSize_lt
  rw [nandWritePage, if_pos (g.room_main hlen), toNat_ofNat_of_lt (by omega), startColumn_main]
  simp only [Chip.program_status]
  split <;> rfl

theorem nandWritePage_main (wear : Wear) (chip : Chip) (data : Mem) {p len : Nat} (hp : p < g.pages)
    (hlen : len ≤ g.pageSize) :
    nandWritePage g.nand wear chip (BitVec.ofNat 32 p) 0 data (BitVec.ofNat 32 len) =
      (if (wear.program chip.log.length).isSome then failure else BitVec.ofNat 32 len,
        (chip.program wear p 0 ((List.range len).map data)).2) := by
  rw [nandWritePage_row g wear chip _ data hlen, address_pageCycles g hp]

theorem isBadBlock_eq (cells : Cells) {p : Nat} (hp : p < g.pages) :
    isBadBlock g.nand cells (g.pageAddr p) = g.bad cells (p / g.pagesInBlock) := by
  have hle : p / g.pagesInBlock * g.pagesInBlock ≤ p := Nat.div_mul_le_self _ _
  rw [isBadBlock, marker_page_num g hp, nandReadPage, room_marker, if_pos g.one_le_spare,
    address_pageCycles g (by omega), startColumn_marker]
  rfl

theorem markBadBlock_program (wear : Wear) (chip : Chip) (addr : Word) :
    (markBadBlock g.nand wear chip addr).2 =
      (chip.program wear (address (pageCycles (blockStart g.nand addr >>> g.nand.pageShift))) g.pageSize [0xee]).2 := by
  have hone : (if BitVec.ofNat 32 g.spare > 1 then 1 else BitVec.ofNat 32 g.spare) = (1 : Word) := by
    split
    next => rfl
    next h => exact BitVec.le_antisymm (BitVec.not_lt.mp h) g.one_le_spare
  rw [markBadBlock, nandWritePage, room_marker, hone, startColumn_marker]
  simp only [Chip.program_status]
  split <;> rfl

theorem markBadBlock_eq (wear : Wear) (chip : Chip) {p : Nat} (hp : p < g.pages) :
    (markBadBlock g.nand wear chip (g.pageAddr p)).2 =
      (chip.program wear (p / g.pagesInBlock * g.pagesInBlock) g.pageSize [0xee]).2 := by
  have hle : p / g.pagesInBlock * g.pagesInBlock ≤ p := Nat.div_mul_le_self _ _
  rw [markBadBlock_program, marker_page_num g hp, address_pageCycles g (by omega)]

end Geometry

end Fl2440.MyBoot
