import Fl2440.MyBoot.Erase
import Fl2440.MyBoot.WriteLog
import Fl2440.MyBoot.Xmodem

/-! `dbg_mode`: download a launcher, erase room for it, write it. The eraser learns
of bad blocks from failing erase commands, the writer from markers; the markers
that the eraser leaves make the two agree. -/
namespace Fl2440.MyBoot

open Fl2440.Lib

def LAUNCHER_NAND_ADDR : Word := 0x40000

def eraseSize (nand : BootNand) (size : Word) : Word := (size.sdiv nand.block_size + 1) * nand.block_size

def eraseLauncher (nand : BootNand) (wear : Wear) (rounds : Nat) (chip : Chip) (size : Word) :
    Option Word × Chip :=
  nandErase nand wear rounds chip LAUNCHER_NAND_ADDR (eraseSize nand size) true

def writeLauncher (nand : BootNand) (wear : Wear) (rounds : Nat) (ram : Ram) (chip : Chip)
    (size addr : Word) : Option Word × Chip :=
  nandWrite nand wear rounds ram chip LAUNCHER_NAND_ADDR size addr

/-- The rest of `dbg_mode`, after the download. -/
def storeLauncher (nand : BootNand) (wear : Wear) (rounds : Nat) (ram : Ram) (chip : Chip)
    (size addr : Word) : Chip :=
  match eraseLauncher nand wear rounds chip size with
  | (none, chip) => chip
  | (some _, chip) => (writeLauncher nand wear rounds ram chip size addr).2

/-- `dbg_mode`, after this input on the serial line. -/
def dbgMode (nand : BootNand) (wear : Wear) (rounds : Nat) (ram : Ram) (chip : Chip) (textBase : Word)
    (input : List Byte) : Chip :=
  let s := xmodemRecv ram textBase input
  match s.point with
  | .returned size => storeLauncher nand wear rounds s.ram chip size textBase
  | _ => chip

section Marks

variable {wear : Wear} {chip : Chip} {b : Nat} {tried : List Nat}

theorem eraseBlock_length (wear : Wear) (chip : Chip) (b : Nat) :
    (eraseBlock wear chip b).log.length = chip.log.length + if passes wear b then 1 else 2 := by
  rw [eraseBlock, passes, Chip.erase, row_div]
  cases wear.erase b with
  | none => simp
  | some junk =>
      simp only [Option.isNone_some, Bool.false_eq_true, if_false, Chip.program]
      split <;> simp

theorem eraseBlocks_length (wear : Wear) (chip : Chip) (tried : List Nat) :
    chip.log.length ≤ (tried.foldl (eraseBlock wear) chip).log.length := by
  induction tried generalizing chip with
  | nil => exact le_rfl
  | cons b tried ih =>
      have := eraseBlock_length wear chip b
      have := ih (eraseBlock wear chip b)
      rw [List.foldl_cons]
      omega

theorem eraseBlock_bad (hmark : passes wear b = false → wear.program (chip.log.length + 1) = none) :
    k9f2g08.bad (eraseBlock wear chip b).cells b = !passes wear b := by
  have hrow : b * k9f2g08.pagesInBlock = pagesPerBlock * b := Nat.mul_comm b 64
  have hmarker : ∀ x : Byte, (x &&& 0xee != 0xff) = true := by decide
  rw [passes] at hmark
  rw [Geometry.bad, Geometry.marker, hrow, eraseBlock, passes, Chip.erase, row_div]
  cases herase : wear.erase b with
  | none => simp [Cells.withBlock, row_div, erased]
  | some junk =>
      rw [herase] at hmark
      simp only [Option.isNone_some, Bool.false_eq_true, if_false, Chip.program, List.length_append,
        List.length_singleton, hmark rfl, Cells.programmed]
      simpa using hmarker _

theorem eraseBlocks_bad (hnodup : tried.Nodup)
    (hmark : ∀ k, chip.log.length ≤ k → k < (tried.foldl (eraseBlock wear) chip).log.length →
      wear.program k = none) (hb : b ∈ tried) :
    k9f2g08.bad (tried.foldl (eraseBlock wear) chip).cells b = !passes wear b := by
  induction tried generalizing chip with
  | nil => simp at hb
  | cons first tried ih =>
      rw [List.nodup_cons] at hnodup
      rw [List.foldl_cons] at hmark ⊢
      have hlength := eraseBlock_length wear chip first
      have hlater := eraseBlocks_length wear (eraseBlock wear chip first) tried
      rcases List.mem_cons.mp hb with rfl | hb
      · have hkept : ∀ r c, r / pagesPerBlock = b →
            (tried.foldl (eraseBlock wear) (eraseBlock wear chip b)).cells r c =
              (eraseBlock wear chip b).cells r c :=
          fun r c hr => eraseBlocks_other (hr ▸ hnodup.1) c
        rw [bad_congr hkept]
        apply eraseBlock_bad
        intro hfails
        rw [hfails] at hlength
        exact hmark _ (Nat.le_succ _) (by simp at hlength; omega)
      · apply ih hnodup.2 _ hb
        intro k hk hlt
        exact hmark k (by omega) hlt

end Marks

section Launcher

variable {wear : Wear} {chip : Chip} {size : Word}

def eraseCount (size : Word) : Nat := size.toNat / 0x20000 + 1

theorem eraseSize_eq (hsize : size.slt 0 = false) : eraseSize k9f2g08.nand size = blockAddr (eraseCount size) := by
  have hpos : size.msb = false := by
    have := (slt_zero_iff size).not.mp (by rw [hsize]; exact Bool.false_ne_true)
    rw [BitVec.msb_eq_decide]
    exact decide_eq_false (by omega)
  have hdiv : size.sdiv k9f2g08.nand.block_size = BitVec.ofNat 32 (size.toNat / 0x20000) := by
    rw [BitVec.sdiv_eq, hpos]
    apply BitVec.eq_of_toNat_eq
    have := size.isLt
    rw [toNat_ofNat_of_lt (by omega)]
    exact BitVec.toNat_udiv
  rw [eraseSize, hdiv, blockAddr, eraseCount]
  show (BitVec.ofNat 32 (size.toNat / 0x20000) + BitVec.ofNat 32 1) * BitVec.ofNat 32 0x20000 = _
  rw [← BitVec.ofNat_add, ← BitVec.ofNat_mul]

theorem blockAddr_aligned {b : Nat} (h : b < blocks) :
    BlockAligned (blockAddr b) ∧ blockIndex (blockAddr b) = b := by
  constructor
  · rw [BlockAligned, blockAddr_eq, k9f2g08.pageAddr_aligned_iff]
    · exact Nat.dvd_mul_right 64 b
    · unfold blocks at h
      show 64 * b < 2048 * 64
      omega
  · rw [blockIndex, toNat_blockAddr h.le]
    exact Nat.mul_div_cancel b (by decide)

theorem eraseLauncher_eq (chip : Chip) (hsize : size.slt 0 = false)
    (hroom : eraseCount size ≤ ((blocksFrom LAUNCHER_NAND_ADDR).filter (passes wear)).length) {n : Nat}
    (hn : blocks ≤ n) :
    eraseLauncher k9f2g08.nand wear n chip size =
      (some 0, (attempts (passes wear) (eraseCount size) (blocksFrom LAUNCHER_NAND_ADDR)).foldl
        (eraseBlock wear) chip) := by
  have hlt : eraseCount size < blocks := by
    have hle := List.length_filter_le (passes wear) (blocksFrom LAUNCHER_NAND_ADDR)
    have hfrom : (blocksFrom LAUNCHER_NAND_ADDR).length = 2046 := List.length_range'
    unfold blocks
    omega
  obtain ⟨haligned, hindex⟩ := blockAddr_aligned hlt
  have hstart : BlockAligned LAUNCHER_NAND_ADDR := by decide
  rw [eraseLauncher, eraseSize_eq hsize, nandErase_eq hstart haligned (by rwa [hindex]) hn, hindex]

theorem targetPages_erased {cells : Cells}
    (hroom : eraseCount size ≤ ((blocksFrom LAUNCHER_NAND_ADDR).filter (passes wear)).length)
    (hbad : ∀ b ∈ attempts (passes wear) (eraseCount size) (blocksFrom LAUNCHER_NAND_ADDR),
      k9f2g08.bad cells b = !passes wear b) :
    unitsFor k9f2g08.pageSize size.toNat ≤ (k9f2g08.usablePages cells LAUNCHER_NAND_ADDR).length ∧
      ∀ p ∈ k9f2g08.targetPages cells LAUNCHER_NAND_ADDR size,
        p / pagesPerBlock ∈ (attempts (passes wear) (eraseCount size)
          (blocksFrom LAUNCHER_NAND_ADDR)).filter (passes wear) := by
  obtain ⟨m, hm, htried⟩ : ∃ m ≤ 2046, attempts (passes wear) (eraseCount size)
      (blocksFrom LAUNCHER_NAND_ADDR) = List.range' 2 m := attempts_range' _ _ _ _
  have hcount : ((List.range' 2 m).filter fun b => !k9f2g08.bad cells b).length = eraseCount size := by
    have hsame : ∀ b ∈ List.range' 2 m, (!k9f2g08.bad cells b) = passes wear b := by
      intro b hb
      rw [hbad b (htried ▸ hb), Bool.not_not]
    rw [List.filter_congr hsame, ← htried, attempts_filter, List.length_take, Nat.min_eq_left hroom]
  have hneed : unitsFor k9f2g08.pageSize size.toNat ≤
      ((List.range' 2 m).filter fun b => !k9f2g08.bad cells b).length * k9f2g08.pagesInBlock := by
    rw [unitsFor_le_iff k9f2g08.pageSize_pos, hcount, eraseCount]
    show size.toNat ≤ (size.toNat / 131072 + 1) * 64 * 2048
    omega
  have hlimit : (2 + m) * k9f2g08.pagesInBlock ≤ k9f2g08.pages := by
    show (2 + m) * 64 ≤ 2048 * 64
    omega
  have hstart : 128 ≤ 2 * k9f2g08.pagesInBlock := le_refl 128
  obtain ⟨hlen, htake⟩ := take_walk_groups k9f2g08.pagesInBlock_pos hstart hlimit hneed
  refine ⟨hlen, fun p hp => ?_⟩
  obtain ⟨hmem, hgood⟩ := htake p hp
  rw [htried, List.mem_filter]
  refine ⟨hmem, ?_⟩
  rwa [hbad _ (htried ▸ hmem), Bool.not_eq_false'] at hgood

/-- Whatever erases fail, each page that the writer programs is in a block that was
erased for it, up to the first program command that fails. -/
theorem launcher_in_erased_blocks (wear : Wear) (ram : Ram) (chip : Chip) (size addr : Word)
    (hsize : size.slt 0 = false)
    (hroom : eraseCount size ≤ ((blocksFrom LAUNCHER_NAND_ADDR).filter (passes wear)).length)
    (hmark : ∀ rounds ret chip', eraseLauncher k9f2g08.nand wear rounds chip size = (some ret, chip') →
      ∀ k, chip.log.length ≤ k → k < chip'.log.length → wear.program k = none) :
    ∃ rounds chip' new, (∀ n ≥ rounds, eraseLauncher k9f2g08.nand wear n chip size = (some 0, chip')) ∧
      chip'.log = chip.log ++ new ∧
      ∀ n, ∃ written, (writeLauncher k9f2g08.nand wear n ram chip' size addr).2.commands =
          chip'.commands ++ written ∧
        ∀ before command after, written = before ++ command :: after →
          (∀ earlier ∈ before, earlier.passed = true) →
          command.isErase = false ∧ command.row / pagesPerBlock ∈ new.filterMap Issued.erasedBlock := by
  have hnodup : (attempts (passes wear) (eraseCount size) (blocksFrom LAUNCHER_NAND_ADDR)).Nodup :=
    attempts_nodup List.nodup_range'
  have herase := eraseLauncher_eq chip hsize hroom (le_refl blocks)
  have hbad := fun b => eraseBlocks_bad (b := b) hnodup (hmark _ _ _ herase)
  obtain ⟨hfit, hpages⟩ := targetPages_erased hroom hbad
  obtain ⟨new, hlog, herased, -⟩ := eraseBlocks_log wear chip hnodup
  refine ⟨blocks, _, new, fun n hn => eraseLauncher_eq chip hsize hroom hn, hlog, fun n => ?_⟩
  have haligned : LAUNCHER_NAND_ADDR &&& (k9f2g08.nand.page_size - 1) = 0 := by decide
  obtain ⟨written, hwritten, hfollows⟩ := nandWrite_follows k9f2g08 wear ram _ addr haligned hfit n
  refine ⟨written, hwritten, fun before command after hsplit hpassed => ?_⟩
  obtain ⟨piece, hpiece, passed, rfl⟩ := (hsplit ▸ hfollows).piece hpassed
  refine ⟨rfl, ?_⟩
  rw [herased]
  apply hpages
  rw [← k9f2g08.targetPieces_units]
  exact List.mem_map_of_mem hpiece

def launcherBlockFails : Wear := ⟨fun b => if b = 2 then some erased else none, fun _ => none⟩

theorem launcher_in_erased_blocks_launcherBlockFails :
    ∃ rounds chip' new, (∀ n ≥ rounds, eraseLauncher k9f2g08.nand launcherBlockFails n ⟨erased, []⟩ 5 =
        (some 0, chip')) ∧ chip'.log = new ∧
      ∀ n command later, (writeLauncher k9f2g08.nand launcherBlockFails n (fun _ => 0) chip' 5 0).2.commands =
        chip'.commands ++ command :: later → command.row / pagesPerBlock ∈ new.filterMap Issued.erasedBlock := by
  have hroom : 1 ≤ ((blocksFrom LAUNCHER_NAND_ADDR).filter (passes launcherBlockFails)).length :=
    List.length_pos_of_mem (List.mem_filter.mpr ⟨List.mem_range'_1.mpr (by decide : 2 ≤ 3 ∧ 3 < 2 + 2046), rfl⟩)
  obtain ⟨rounds, chip', new, herase, hlog, hwrite⟩ := launcher_in_erased_blocks
    launcherBlockFails (fun _ => 0) ⟨erased, []⟩ 5 0 (by decide) hroom (fun _ _ _ _ _ _ _ => rfl)
  refine ⟨rounds, chip', new, herase, hlog, fun n command later h => ?_⟩
  obtain ⟨written, hwritten, hall⟩ := hwrite n
  have hsplit := List.append_cancel_left (hwritten.symm.trans h)
  exact (hall [] command later hsplit (by simp)).2

def firstPageFails : Wear := ⟨fun _ => none, fun k => if k = 1 then some fun _ => 0xff else none⟩

/-- The writer takes -1 for a number of bytes, and programs the last page of the block
before the launcher, which nobody has erased. -/
theorem failed_page_program_strays :
    ¬ ∀ (wear : Wear) (ram : Ram) (chip : Chip) (size addr : Word), size.slt 0 = false →
      eraseCount size ≤ ((blocksFrom LAUNCHER_NAND_ADDR).filter (passes wear)).length →
      (∀ rounds ret chip', eraseLauncher k9f2g08.nand wear rounds chip size = (some ret, chip') →
        ∀ k, chip.log.length ≤ k → k < chip'.log.length → wear.program k = none) →
      ∃ rounds chip' new, (∀ n ≥ rounds, eraseLauncher k9f2g08.nand wear n chip size = (some 0, chip')) ∧
        chip'.log = chip.log ++ new ∧
        ∀ n, ∃ written, (writeLauncher k9f2g08.nand wear n ram chip' size addr).2.commands =
            chip'.commands ++ written ∧
          ∀ command ∈ written, command.isErase = false ∧
            command.row / pagesPerBlock ∈ new.filterMap Issued.erasedBlock := by
  intro h
  have hsize : (5 : Word).slt 0 = false := by decide
  have hroom : eraseCount 5 ≤ ((blocksFrom LAUNCHER_NAND_ADDR).filter (passes firstPageFails)).length :=
    List.length_pos_of_mem (List.mem_filter.mpr ⟨List.mem_range'_1.mpr (by decide : 2 ≤ 2 ∧ 2 < 2 + 2046), rfl⟩)
  have herase : ∀ n ≥ blocks, eraseLauncher k9f2g08.nand firstPageFails n ⟨erased, []⟩ 5 =
      (some 0, eraseBlock firstPageFails ⟨erased, []⟩ 2) := fun n hn => eraseLauncher_eq ⟨erased, []⟩ hsize hroom hn
  have hmark : ∀ rounds ret chip', eraseLauncher k9f2g08.nand firstPageFails rounds ⟨erased, []⟩ 5 =
      (some ret, chip') → ∀ k, 0 ≤ k → k < chip'.log.length → firstPageFails.program k = none := by
    intro n ret chip' hret k _ hk
    have hlog : chip'.log.length = 1 := by
      cases n with
      | zero => exact nomatch (Prod.mk.inj hret).1
      | succ n =>
          let s : Erasing := ⟨⟨erased, []⟩, LAUNCHER_NAND_ADDR, eraseSize k9f2g08.nand 5, 0⟩
          have hgo : eraseGoesOn LAUNCHER_NAND_ADDR s = true := by decide
          have hdone : eraseGoesOn LAUNCHER_NAND_ADDR (eraseRound k9f2g08.nand firstPageFails true s) = false := by
            decide
          have hloop := (whileLoop_enter hgo n).trans (whileLoop_done hdone n)
          rw [eraseLauncher, nandErase_loop (by decide) (by decide) hloop] at hret
          rw [← (Prod.mk.inj hret).2]
          decide
    obtain rfl : k = 0 := by omega
    rfl
  obtain ⟨rounds, chip', new, hends, hlog, hwrite⟩ :=
    h firstPageFails (fun _ => 0) ⟨erased, []⟩ 5 0 hsize hroom hmark
  obtain rfl : chip' = eraseBlock firstPageFails ⟨erased, []⟩ 2 := by
    have hboth := (hends _ (le_max_left rounds blocks)).symm.trans (herase _ (le_max_right rounds blocks))
    exact (Prod.mk.inj hboth).2
  obtain ⟨written, hwritten, hall⟩ := hwrite 2
  have hnew : new.filterMap Issued.erasedBlock = [2] := by
    rw [← List.nil_append new, ← hlog]
    rfl
  have hrows : (writeLauncher k9f2g08.nand firstPageFails 2 (fun _ => 0)
      (eraseBlock firstPageFails ⟨erased, []⟩ 2) 5 0).2.commands.map Command.row = [128, 128, 127] := by decide
  rw [hwritten, List.map_append] at hrows
  have hstray : 127 ∈ written.map Command.row := by
    have hrest : written.map Command.row = [128, 127] := (List.append_right_inj [128]).mp hrows
    rw [hrest]
    decide
  obtain ⟨command, hcommand, hrow⟩ := List.mem_map.mp hstray
  have hblock := (hall command hcommand).2
  rw [hrow, hnew] at hblock
  exact absurd hblock (by decide)

end Launcher

end Fl2440.MyBoot
