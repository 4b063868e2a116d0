import Fl2440.MyBoot.Transfer

/-! What `nand_write` stores is what `nand_read` brings back. Both go through the
same pieces, because writing main areas leaves the markers alone. -/
namespace Fl2440.MyBoot

open Fl2440.Lib

section Ram

variable {ram : Ram} {p : Word} {data : List Byte}

theorem Ram.store_append (ram : Ram) (p : Word) (first second : List Byte) :
    ram.store p (first ++ second) =
      (ram.store p first).store (p + BitVec.ofNat 32 first.length) second := by
  induction first generalizing ram p with
  | nil => rw [List.nil_append, Ram.store, List.length_nil, add_ofNat_zero]
  | cons b first ih => rw [List.cons_append, Ram.store, Ram.store, ih, List.length_cons, add_ofNat_succ]

theorem Ram.store_other {q : Word} (h : ∀ i < data.length, q ≠ p + BitVec.ofNat 32 i) :
    ram.store p data q = ram q := by
  induction data generalizing ram p with
  | nil => rfl
  | cons b data ih =>
      have h0 : q ≠ p := by
        have := h 0 (by simp)
        rwa [add_ofNat_zero] at this
      rw [Ram.store, ih, Function.update_of_ne h0]
      intro i hi
      rw [← add_ofNat_succ]
      exact h (i + 1) (by simpa using hi)

theorem Ram.store_inside {i : Nat} (hlen : data.length ≤ 2 ^ 32) (hi : i < data.length) :
    ram.store p data (p + BitVec.ofNat 32 i) = data[i] := by
  induction data generalizing ram p i with
  | nil => simp at hi
  | cons b data ih =>
      rw [List.length_cons] at hlen hi
      cases i with
      | zero =>
          rw [Ram.store, add_ofNat_zero, Ram.store_other, Function.update_self]
          · rfl
          · intro j hj he
            rw [← add_ofNat_succ, ← add_ofNat_zero p, BitVec.add_assoc, BitVec.zero_add,
              add_ofNat_inj p (by omega) (by omega)] at he
            omega
      | succ i =>
          rw [Ram.store, add_ofNat_succ, ih (by omega) (by omega)]
          rfl

end Ram

def Ram.piece (ram : Ram) (buf : Word) (piece : Piece) : List Byte :=
  (List.range piece.len).map (ram.at (buf + BitVec.ofNat 32 piece.off))

theorem Ram.piece_eq (ram : Ram) (buf : Word) (piece : Piece) :
    ram.piece buf piece = (List.range piece.len).map fun i => ram.at buf (piece.off + i) := by
  apply List.map_congr_left
  intro i _
  rw [Ram.at, Ram.at, BitVec.ofNat_add, BitVec.add_assoc]

/-! Writing -/

section Writing

variable {g : Geometry} {wear : Wear} {ram : Ram} {chip : Chip} {buf : Word}

theorem Chip.program_passes (chip : Chip) (h : wear.program chip.log.length = none) (row column : Nat)
    (data : List Byte) : (chip.program wear row column data).2 =
      { cells := chip.cells.programmed row column data
        log := chip.log ++ [⟨chip.cells, .program row column data true⟩] } := by
  rw [Chip.program, h]

theorem Cells.programmed_other (cells : Cells) {row r : Nat} (data : List Byte) (h : r ≠ row) (c : Nat) :
    cells.programmed row 0 data r c = cells r c := if_neg fun h' => h h'.1

theorem Cells.programmed_behind (cells : Cells) (row r : Nat) {data : List Byte} {c : Nat}
    (h : data.length ≤ c) : cells.programmed row 0 data r c = cells r c := if_neg (by omega)

theorem Cells.programmed_inside (cells : Cells) (row : Nat) {data : List Byte} {c : Nat}
    (h : c < data.length) : cells.programmed row 0 data row c = cells row c &&& data[c] := by
  rw [Cells.programmed, if_pos (by omega), Nat.sub_zero, List.getD_eq_getElem _ _ h]

/-- What a page access of `nand_write` does when it passes. -/
def writePiece (wear : Wear) (ram : Ram) (buf : Word) (chip : Chip) (piece : Piece) : Chip :=
  (chip.program wear piece.unit 0 (ram.piece buf piece)).2

theorem writePageFrom_main (g : Geometry) (wear : Wear) (ram : Ram) (buf : Word) (chip : Chip)
    (piece : Piece) (hunit : piece.unit < g.pages) (hlen : piece.len ≤ g.pageSize) :
    writePageFrom g.nand wear ram chip (BitVec.ofNat 32 piece.unit) 0 (buf + BitVec.ofNat 32 piece.off)
        (BitVec.ofNat 32 piece.len) =
      (if (wear.program chip.log.length).isSome then failure else BitVec.ofNat 32 piece.len,
        writePiece wear ram buf chip piece) := by
  rw [writePageFrom, g.nandWritePage_main wear chip _ hunit hlen]
  rfl

theorem writePiece_commands (wear : Wear) (ram : Ram) (buf : Word) (chip : Chip) (piece : Piece) :
    (writePiece wear ram buf chip piece).commands = chip.commands ++
      [.program piece.unit 0 (ram.piece buf piece) (wear.program chip.log.length).isNone] :=
  Chip.commands_program _ _ _ _ _

theorem writePiece_bad (g : Geometry) (ram : Ram) (buf : Word) {piece : Piece}
    (hprogram : wear.program chip.log.length = none) (hlen : piece.len ≤ g.pageSize) (block : Nat) :
    g.bad (writePiece wear ram buf chip piece).cells block = g.bad chip.cells block := by
  have hcell : (writePiece wear ram buf chip piece).cells (block * g.pagesInBlock) g.pageSize =
      chip.cells (block * g.pagesInBlock) g.pageSize := by
    rw [writePiece, chip.program_passes hprogram]
    apply Cells.programmed_behind
    simpa [Ram.piece] using hlen
  rw [Geometry.bad, Geometry.bad, Geometry.marker, Geometry.marker, hcell]

theorem sound_write (hprogram : ∀ n, wear.program n = none) (g : Geometry) (ram : Ram) (buf : Word)
    (flag : Nat → Bool) :
    Sound g Chip.cells (writePageFrom g.nand wear ram) buf flag
      (fun chip => ∀ block < g.blocks, g.bad chip.cells block = flag block) (writePiece wear ram buf) where
  flags := fun _ hgood => hgood
  does := by
    intro chip piece _ hunit hlen
    rw [writePageFrom_main g wear ram buf chip piece hunit hlen, hprogram]
    rfl
  keeps := by
    intro chip piece hgood _ hlen block hblock
    rw [writePiece_bad g ram buf (hprogram _) hlen, hgood block hblock]

def writtenCells (ram : Ram) (buf : Word) (cells : Cells) (list : List Piece) : Cells :=
  list.foldl (fun cells piece => cells.programmed piece.unit 0 (ram.piece buf piece)) cells

theorem writePieces_cells (ram : Ram) (buf : Word) (hprogram : ∀ n, wear.program n = none) (list : List Piece) (chip : Chip) :
    (list.foldl (writePiece wear ram buf) chip).cells = writtenCells ram buf chip.cells list := by
  induction list generalizing chip with
  | nil => rfl
  | cons piece list ih =>
      rw [List.foldl_cons, ih, writePiece, chip.program_passes (hprogram _)]
      rfl

theorem writePieces_commands (ram : Ram) (buf : Word) (hprogram : ∀ n, wear.program n = none) (list : List Piece) (chip : Chip) :
    (list.foldl (writePiece wear ram buf) chip).commands =
      chip.commands ++ list.map fun piece => .program piece.unit 0 (ram.piece buf piece) true := by
  induction list generalizing chip with
  | nil => simp
  | cons piece list ih =>
      rw [List.foldl_cons, ih, writePiece_commands, hprogram, List.append_assoc]
      rfl

theorem writtenCells_other {r : Nat} {list : List Piece} (cells : Cells)
    (h : r ∉ list.map Piece.unit) (c : Nat) : writtenCells ram buf cells list r c = cells r c := by
  induction list generalizing cells with
  | nil => rfl
  | cons piece list ih =>
      rw [List.map_cons, List.mem_cons, not_or] at h
      rw [writtenCells, List.foldl_cons]
      exact (ih _ h.2).trans (Cells.programmed_other _ _ h.1 c)

theorem writtenCells_behind {r c : Nat} {list : List Piece} (cells : Cells)
    (h : ∀ piece ∈ list, piece.len ≤ c) : writtenCells ram buf cells list r c = cells r c := by
  induction list generalizing cells with
  | nil => rfl
  | cons piece list ih =>
      rw [writtenCells, List.foldl_cons]
      refine (ih _ fun piece' h' => h piece' (List.mem_cons_of_mem _ h')).trans ?_
      apply Cells.programmed_behind
      simpa [Ram.piece] using h piece List.mem_cons_self

theorem writtenCells_inside {list : List Piece} (hnodup : (list.map Piece.unit).Nodup) (cells : Cells)
    {piece : Piece} (hmem : piece ∈ list) {c : Nat} (hc : c < piece.len)
    (herased : cells piece.unit c = 0xff) :
    writtenCells ram buf cells list piece.unit c = ram.at buf (piece.off + c) := by
  induction list generalizing cells with
  | nil => simp at hmem
  | cons head list ih =>
      rw [List.map_cons, List.nodup_cons] at hnodup
      rw [writtenCells, List.foldl_cons]
      rcases List.mem_cons.mp hmem with rfl | hmem
      · refine (writtenCells_other _ hnodup.1 c).trans ?_
        have hlen : c < (ram.piece buf piece).length := by simpa [Ram.piece] using hc
        have hones : ∀ b : Byte, 0xff &&& b = b := by decide
        rw [Cells.programmed_inside _ _ hlen, herased, hones]
        simp [Ram.piece_eq]
      · have hne : piece.unit ≠ head.unit := fun he => hnodup.1 (he ▸ List.mem_map_of_mem hmem)
        exact ih hnodup.2 _ hmem ((Cells.programmed_other _ _ hne c).trans herased)

theorem writtenCells_readBack {size left : Nat} {units : List Nat} (hnodup : units.Nodup)
    (hroom : left ≤ units.length * size) (cells : Cells)
    (herased : ∀ piece ∈ pieces size units 0 left, ∀ c < piece.len, cells piece.unit c = 0xff) :
    (pieces size units 0 left).flatMap (fun piece =>
      (List.range piece.len).map (writtenCells ram buf cells (pieces size units 0 left) piece.unit)) =
      (List.range left).map (ram.at buf) := by
  have hall : _ = (List.range left).map fun i => ram.at buf (0 + i) := pieces_flatMap (ram.at buf) hroom
  simp only [Nat.zero_add] at hall
  rw [← hall]
  apply List.flatMap_congr
  intro piece hpiece
  apply List.map_congr_left
  intro c hc
  have hc : c < piece.len := List.mem_range.mp hc
  have hpos : 0 < size := Nat.lt_of_lt_of_le (Nat.zero_lt_of_lt hc) (pieces_len_le hpiece)
  apply writtenCells_inside _ _ hpiece hc (herased piece hpiece c hc)
  rw [pieces_units hpos]
  exact hnodup.sublist (List.take_sublist _ _)

end Writing

/-! Reading -/

section Reading

variable {g : Geometry} {cells : Cells} {buf : Word}

def readPiece (cells : Cells) (buf : Word) (out : Readout) (piece : Piece) : Readout where
  ram := out.ram.store (buf + BitVec.ofNat 32 piece.off) ((List.range piece.len).map (cells piece.unit))
  rows := out.rows ++ [piece.unit]

theorem sound_read (g : Geometry) (cells : Cells) (buf : Word) :
    Sound g (fun _ => cells) (readPageInto g.nand cells) buf (g.bad cells) (fun _ => True)
      (readPiece cells buf) where
  flags := fun _ _ _ _ => rfl
  does := by
    intro out piece _ hunit hlen
    rw [readPageInto, g.nandReadPage_main cells hunit hlen, g.address_pageCycles hunit]
    simp [readPiece]
  keeps := fun _ _ _ _ _ => trivial

theorem readPieces_eq {size : Nat} (units : List Nat) (off left : Nat) (out : Readout) :
    (pieces size units off left).foldl (readPiece cells buf) out =
      { ram := out.ram.store (buf + BitVec.ofNat 32 off)
          ((pieces size units off left).flatMap fun piece => (List.range piece.len).map (cells piece.unit))
        rows := out.rows ++ (pieces size units off left).map Piece.unit } := by
  induction units generalizing off left out with
  | nil => simp [pieces, Ram.store]
  | cons u units ih =>
      rcases Nat.eq_zero_or_pos left with rfl | hl
      · simp [Ram.store]
      · rw [pieces_cons hl, List.foldl_cons, ih, readPiece]
        simp only [List.flatMap_cons, List.map_cons, Ram.store_append, List.length_map,
          List.length_range, BitVec.ofNat_add, BitVec.add_assoc, List.append_assoc,
          List.singleton_append]

end Reading

namespace Geometry

variable (g : Geometry)

def firstPage (start_addr : Word) : Nat := start_addr.toNat / g.pageSize

/-- The pages behind `start_addr` that can hold data, as the markers are. -/
def usablePages (cells : Cells) (start_addr : Word) : List Nat :=
  g.track (g.bad cells) (g.firstPage start_addr) (g.firstPage start_addr)

/-- The pages that a transfer of `size` bytes needs. -/
def targetPages (cells : Cells) (start_addr size : Word) : List Nat :=
  (g.usablePages cells start_addr).take (unitsFor g.pageSize size.toNat)

def targetPieces (cells : Cells) (start_addr size : Word) : List Piece :=
  pieces g.pageSize (g.usablePages cells start_addr) 0 size.toNat

theorem targetPieces_units (cells : Cells) (start_addr size : Word) :
    (g.targetPieces cells start_addr size).map Piece.unit = g.targetPages cells start_addr size :=
  pieces_units g.pageSize_pos

variable {g} {cells : α → Cells} {page : α → Word → Word → Word → Word → Word × α}
  {start_addr size buf : Word} {store : α} {good : α → Prop} {effect : α → Piece → α} {marks : Cells}

theorem cursor_start (haligned : start_addr &&& (g.nand.page_size - 1) = 0) (store : α) (size buf : Word) :
    (⟨store, start_addr, buf, size, 0⟩ : Transfer α) =
      g.cursor store buf (g.firstPage start_addr) 0 size.toNat 0 := by
  have hmod : start_addr.toNat % g.pageSize = 0 := by
    have := congrArg BitVec.toNat haligned
    rwa [nand, pageSize, toNat_and_mask _ g.pageShift_lt] at this
  have haddr : g.pageAddr (g.firstPage start_addr) = start_addr := by
    rw [pageAddr, firstPage, Nat.div_mul_cancel (Nat.dvd_of_mod_eq_zero hmod), BitVec.ofNat_toNat,
      BitVec.setWidth_eq]
  rw [cursor, haddr, add_ofNat_zero, BitVec.ofNat_toNat, BitVec.setWidth_eq]

theorem transfer_eq (marks : Cells) (store : α) (sound : Sound g cells page buf (g.bad marks) good effect) (hgood : good store)
    (haligned : start_addr &&& (g.nand.page_size - 1) = 0)
    (hroom : unitsFor g.pageSize size.toNat ≤ (g.usablePages marks start_addr).length) {n : Nat}
    (hn : g.pages ≤ n) :
    ∃ ret, transfer g.nand cells page n store start_addr size buf =
      (some ret, (g.targetPieces marks start_addr size).foldl effect store) := by
  have hsize : size.toNat % g.pageSize = size.toNat % g.pageSize := rfl
  have hrun := transferLoop_eq 0 0 sound (Nat.le_trans (Nat.sub_le _ _) hn) hgood (standing_start _ _ _)
    size.isLt hsize ((unitsFor_le_iff g.pageSize_pos).mp hroom)
  rw [transfer, if_neg (not_not.mpr haligned), cursor_start haligned]
  rw [if_neg]
  · exact ⟨_, Prod.ext rfl hrun.2⟩
  · rw [transferGoesOn, hrun.1]
    decide

theorem mem_targetPages {p : Nat} (h : p ∈ g.targetPages marks start_addr size) :
    p < g.pages ∧ (p < boundary g.pagesInBlock (g.firstPage start_addr) ∨
      g.bad marks (p / g.pagesInBlock) = false) := by
  obtain ⟨-, hp, hv⟩ := mem_walk.mp (List.mem_of_mem_take h)
  refine ⟨hp, ?_⟩
  rw [visited, Bool.or_eq_true, decide_eq_true_iff, Bool.not_eq_true'] at hv
  exact hv

end Geometry

section RoundTrip

variable (g : Geometry) (wear : Wear) (ram ram' : Ram) (chip : Chip) (start_addr size buf buf' : Word)

/-- Writing and reading back, on a chip that programs what it is sent: the reader
gets the buffer, from just the pages that the writer programmed. -/
theorem nandRead_nandWrite (hprogram : ∀ n, wear.program n = none)
    (haligned : start_addr &&& (g.nand.page_size - 1) = 0)
    (hroom : unitsFor g.pageSize size.toNat ≤ (g.usablePages chip.cells start_addr).length)
    (herased : ∀ p ∈ g.targetPages chip.cells start_addr size, ∀ c < g.pageSize,
      chip.cells p c = 0xff) :
    ∃ rounds, ∀ n ≥ rounds, ∃ ret chip' ret' out,
      nandWrite g.nand wear n ram chip start_addr size buf = (some ret, chip') ∧
      nandRead g.nand chip'.cells n ram' start_addr size buf' = (some ret', out) ∧
      (∀ i < size.toNat, out.ram.at buf' i = ram.at buf i) ∧
      (∃ new, chip'.commands = chip.commands ++ new ∧ (∀ command ∈ new, command.isErase = false) ∧
        new.map Command.row = out.rows) ∧
      (∀ p ∈ out.rows, p < boundary g.pagesInBlock (g.firstPage start_addr) ∨
        g.bad chip.cells (p / g.pagesInBlock) = false) ∧
      (g.pagesInBlock ∣ g.firstPage start_addr →
        ∀ p ∈ out.rows, g.bad chip.cells (p / g.pagesInBlock) = false) ∧
      (∀ p c, g.pageSize ≤ c → chip'.cells p c = chip.cells p c) ∧
      (∀ block, g.bad chip'.cells block = g.bad chip.cells block) ∧
      (∀ p, p ∉ out.rows → ∀ c, chip'.cells p c = chip.cells p c) := by
  refine ⟨g.pages, fun n hn => ?_⟩
  obtain ⟨ret, hwrite⟩ := Geometry.transfer_eq chip.cells chip
    (sound_write hprogram g ram buf (g.bad chip.cells)) (fun _ _ => rfl) haligned hroom hn
  have hcells := writePieces_cells ram buf hprogram (g.targetPieces chip.cells start_addr size) chip
  have hcommands := writePieces_commands ram buf hprogram (g.targetPieces chip.cells start_addr size) chip
  generalize (g.targetPieces chip.cells start_addr size).foldl (writePiece wear ram buf) chip = chip'
    at hwrite hcells hcommands
  have hspare : ∀ p c, g.pageSize ≤ c → chip'.cells p c = chip.cells p c := by
    intro p c hc
    rw [hcells]
    exact writtenCells_behind _ fun piece hpiece => Nat.le_trans (pieces_len_le hpiece) hc
  have hbad : g.bad chip'.cells = g.bad chip.cells := by
    funext block
    rw [Geometry.bad, Geometry.bad, Geometry.marker, Geometry.marker, hspare _ _ le_rfl]
  have husable : g.usablePages chip'.cells start_addr = g.usablePages chip.cells start_addr := by
    rw [Geometry.usablePages, hbad]
    rfl
  obtain ⟨ret', hread⟩ := Geometry.transfer_eq chip'.cells (⟨ram', []⟩ : Readout)
    (sound_read g chip'.cells buf') trivial haligned (husable ▸ hroom) hn
  have hrows := g.targetPieces_units chip.cells start_addr size
  have htarget : g.targetPieces chip'.cells start_addr size =
      g.targetPieces chip.cells start_addr size := by
    rw [Geometry.targetPieces, husable]
    rfl
  rw [htarget, Geometry.targetPieces, readPieces_eq, ← Geometry.targetPieces, hrows, List.nil_append,
    add_ofNat_zero] at hread
  refine ⟨ret, chip', ret', _, hwrite, hread, ?_, ⟨_, hcommands, ?_, ?_⟩, ?_, ?_, hspare,
    congrFun hbad, ?_⟩
  · have hback : (g.targetPieces chip.cells start_addr size).flatMap
        (fun piece => (List.range piece.len).map (chip'.cells piece.unit)) =
        (List.range size.toNat).map (ram.at buf) := by
      rw [hcells]
      apply writtenCells_readBack walk_nodup ((unitsFor_le_iff g.pageSize_pos).mp hroom)
      intro piece hpiece c hc
      exact herased _ (hrows ▸ List.mem_map_of_mem hpiece) c
        (Nat.lt_of_lt_of_le hc (pieces_len_le hpiece))
    intro i hi
    have hlen : ((List.range size.toNat).map (ram.at buf)).length = size.toNat := by simp
    have hget : ram'.store buf' ((List.range size.toNat).map (ram.at buf)) (buf' + BitVec.ofNat 32 i) = _ :=
      Ram.store_inside (by rw [hlen]; exact size.isLt.le) (by rw [hlen]; exact hi)
    rw [hback]
    refine hget.trans ?_
    simp
  · intro command hcommand
    obtain ⟨piece, -, rfl⟩ := List.mem_map.mp hcommand
    rfl
  · rw [List.map_map, ← hrows]
    rfl
  · exact fun p hp => (Geometry.mem_targetPages hp).2
  · intro hdvd p hp
    refine (Geometry.mem_targetPages hp).2.resolve_left fun hlt => ?_
    have hstart := (mem_walk.mp (List.mem_of_mem_take hp)).1
    rw [boundary_of_dvd hdvd] at hlt
    omega
  · intro p hp c
    rw [hcells]
    exact writtenCells_other _ (hrows ▸ hp) c

/-- Two-byte pages, two pages to a block. -/
def smallChip : Geometry where
  pageShift := 1
  blockShift := 2
  spare := 1
  blocks := 4
  pageShift_le := by decide
  blockShift_lt := by decide
  spare_pos := by decide
  columns_le := by decide
  rows_le := by decide
  bytes_le := by decide

def firstBlockBad : Cells := fun p c => if p = 0 ∧ c = 2 then 0 else 0xff

theorem nandRead_nandWrite_firstBlockBad :
    ∃ rounds, ∀ n ≥ rounds, ∃ ret chip' ret' out,
      nandWrite smallChip.nand ⟨fun _ => none, fun _ => none⟩ n (fun p => p.setWidth 8) ⟨firstBlockBad, []⟩ 0 3
        0x10 = (some ret, chip') ∧
      nandRead smallChip.nand chip'.cells n (fun _ => 0) 0 3 0x80 = (some ret', out) ∧
      ∀ i < 3, out.ram.at 0x80 i = BitVec.ofNat 8 (0x10 + i) := by
  obtain ⟨rounds, h⟩ := nandRead_nandWrite smallChip ⟨fun _ => none, fun _ => none⟩
    (fun p => p.setWidth 8) (fun _ => 0) ⟨firstBlockBad, []⟩ 0 3 0x10 0x80 (fun _ => rfl) (by decide)
    (by decide) (by decide)
  refine ⟨rounds, fun n hn => ?_⟩
  obtain ⟨ret, chip', ret', out, hwrite, hread, hback, -⟩ := h n hn
  refine ⟨ret, chip', ret', out, hwrite, hread, fun i hi => (hback i hi).trans ?_⟩
  have all : ∀ i < 3, Ram.at (fun p => p.setWidth 8) 0x10 i = BitVec.ofNat 8 (0x10 + i) := by decide
  exact all i hi

end RoundTrip

end Fl2440.MyBoot
