import Fl2440.Lib.Attempts
import Fl2440.MyBoot.Geometry

/-! `nand_erase` with bad blocks skipped. It goes from block to block, and each
erase that fails moves the end of the loop one block on. -/
namespace Fl2440.MyBoot

open Fl2440.Lib

def blockAddr (b : Nat) : Word := BitVec.ofNat 32 (b * 0x20000)

def blocks : Nat := 2048

def passes (wear : Wear) (b : Nat) : Bool := (wear.erase b).isNone

def eraseBlock (wear : Wear) (chip : Chip) (b : Nat) : Chip :=
  let chip := (chip.erase wear (pagesPerBlock * b)).2
  if passes wear b then chip
  else (chip.program wear (pagesPerBlock * b) k9f2g08.pageSize [0xee]).2

section Steps

variable {wear : Wear} {chip : Chip} {b want : Nat}

theorem row_div (b : Nat) : pagesPerBlock * b / pagesPerBlock = b := 
  Nat.mul_div_cancel_left b (show 0 < pagesPerBlock by decide)

theorem blockAddr_eq (b : Nat) : blockAddr b = k9f2g08.pageAddr (pagesPerBlock * b) := by
  rw [blockAddr, Geometry.pageAddr, pagesPerBlock, Nat.mul_comm 64 b, Nat.mul_assoc]
  rfl

theorem toNat_blockAddr_of_lt (h : b < 2 ^ 15) : (blockAddr b).toNat = b * 0x20000 :=
  toNat_ofNat_of_lt (by omega)

theorem toNat_blockAddr (h : b ≤ blocks) : (blockAddr b).toNat = b * 0x20000 :=
  toNat_blockAddr_of_lt (by unfold blocks at h; omega)

theorem blockAddr_add (b : Nat) : blockAddr b + k9f2g08.nand.block_size = blockAddr (b + 1) := by
  rw [blockAddr, blockAddr, Nat.add_mul, BitVec.ofNat_add]
  rfl

theorem nandEraseBlock_eq (h : b < blocks) :
    nandEraseBlock k9f2g08.nand wear chip (blockAddr b >>> k9f2g08.nand.blockShift) =
      (if passes wear b then 0 else failure, eraseBlock wear chip b) := by
  unfold blocks at h
  have hnum : blockAddr b >>> k9f2g08.nand.blockShift = BitVec.ofNat 32 b := by
    apply BitVec.eq_of_toNat_eq
    rw [Geometry.nand_blockShift, toNat_shift, toNat_blockAddr (by unfold blocks; omega),
      toNat_ofNat_of_lt (by omega)]
    exact Nat.mul_div_cancel b (show 0 < 2 ^ 17 by decide)
  have hrow : address (blockCycles (BitVec.ofNat 32 b)) = pagesPerBlock * b := by
    rw [address_blockCycles, toNat_ofNat_of_lt (by omega), pagesPerBlock]
    omega
  have hstart : BitVec.ofNat 32 b <<< k9f2g08.nand.blockShift = k9f2g08.pageAddr (pagesPerBlock * b) := by
    rw [← blockAddr_eq, Geometry.nand_blockShift]
    apply BitVec.eq_of_toNat_eq
    rw [BitVec.toNat_shiftLeft, toNat_ofNat_of_lt (by omega), toNat_blockAddr (by unfold blocks; omega),
      Nat.shiftLeft_eq]
    exact Nat.mod_eq_of_lt (by omega : b * 2 ^ 17 < 2 ^ 32)
  have hdiv : pagesPerBlock * b / k9f2g08.pagesInBlock * k9f2g08.pagesInBlock = pagesPerBlock * b := by
    rw [Nat.mul_comm pagesPerBlock]
    exact congrArg (· * 64) (Nat.mul_div_cancel b (show 0 < 64 by decide))
  have hpage : pagesPerBlock * b < k9f2g08.pages := by
    show 64 * b < 2048 * 64
    omega
  rw [hnum, nandEraseBlock, hrow, hstart]
  simp only [Chip.erase_status, row_div, k9f2g08.markBadBlock_eq wear _ hpage, hdiv]
  rw [eraseBlock, passes]
  cases wear.erase b <;> rfl

/-- The loop at block `b`, with `want` more successes to come. -/
def erasing (start : Word) (failed : Word) (chip : Chip) (b want : Nat) : Erasing :=
  ⟨chip, blockAddr b, blockAddr (b + want) - start, failed⟩

variable {start failed : Word}

theorem eraseGoesOn_erasing (h : b + want < 2 ^ 15) :
    eraseGoesOn start (erasing start failed chip b want) = decide (0 < want) := by
  rw [eraseGoesOn, erasing]
  congr 1
  rw [BitVec.add_comm, BitVec.sub_add_cancel, BitVec.lt_def, toNat_blockAddr_of_lt (by omega),
    toNat_blockAddr_of_lt h]
  apply propext
  show b * 131072 < (b + want) * 131072 ↔ 0 < want
  omega

theorem eraseGoesOn_zero : eraseGoesOn start (erasing start failed chip b 0) = false := by
  rw [eraseGoesOn, erasing, Nat.add_zero, BitVec.add_comm, BitVec.sub_add_cancel]
  exact decide_eq_false (BitVec.lt_irrefl _)

theorem eraseRound_erasing {skip_bad : Bool} (h : b < blocks) (hnext : skip_bad = true ∨ passes wear b = true) :
    eraseRound k9f2g08.nand wear skip_bad (erasing start failed chip b (want + 1)) =
      erasing start failed (eraseBlock wear chip b) (b + 1) (if passes wear b then want else want + 1) := by
  have hfail : failure.slt 0 = true := by decide
  have hzero : (0 : Word).slt 0 = false := by decide
  rw [eraseRound, erasing, nandEraseBlock_eq h]
  cases hpasses : passes wear b with
  | true =>
      simp only [if_true, hzero, Bool.false_eq_true, if_false, blockAddr_add, erasing]
      rw [Nat.add_right_comm b 1 want, Nat.add_assoc]
  | false =>
      obtain rfl := hnext.resolve_right (by rw [hpasses]; exact Bool.false_ne_true)
      simp only [if_true, hfail, Bool.false_eq_true, if_false, blockAddr_add, erasing]
      rw [Nat.add_right_comm b 1 (want + 1), ← blockAddr_add (b + (want + 1)), BitVec.sub_add_comm]

theorem eraseLoop_eq (start failed : Word) (chip : Chip) {n : Nat} (hn : blocks - b ≤ n)
    (hroom : want ≤ ((List.range' b (blocks - b)).filter (passes wear)).length) :
    ∃ last, whileLoop (eraseGoesOn start) (eraseRound k9f2g08.nand wear true) n
        (erasing start failed chip b want) =
      erasing start failed
        ((attempts (passes wear) want (List.range' b (blocks - b))).foldl (eraseBlock wear) chip) last 0 := by
  have hle : want ≤ blocks - b := by
    have := List.length_filter_le (passes wear) (List.range' b (blocks - b))
    rw [List.length_range'] at this
    omega
  induction n generalizing b want chip with
  | zero =>
      obtain rfl : want = 0 := by omega
      exact ⟨b, by simp⟩
  | succ n ih =>
      rcases Nat.eq_zero_or_pos want with rfl | hpos
      · refine ⟨b, ?_⟩
        rw [whileLoop_done eraseGoesOn_zero, attempts_zero, List.foldl_nil]
      · obtain ⟨want, rfl⟩ := Nat.exists_eq_succ_of_ne_zero hpos.ne'
        have hlist : List.range' b (blocks - b) = b :: List.range' (b + 1) (blocks - (b + 1)) := by
          rw [show blocks - b = (blocks - (b + 1)) + 1 by omega, List.range'_succ]
        rw [hlist] at hroom
        have hblocks : blocks = 2048 := rfl
        rw [whileLoop_enter (by rw [eraseGoesOn_erasing (by omega)]; exact decide_eq_true hpos),
          eraseRound_erasing (by omega) (.inl rfl), hlist, attempts, List.foldl_cons]
        rw [List.filter_cons] at hroom
        refine ih _ (by omega) ?_ ?_
        · cases h : passes wear b <;> simp [h] at hroom ⊢ <;> omega
        · have := List.length_filter_le (passes wear) (List.range' (b + 1) (blocks - (b + 1)))
          rw [List.length_range'] at this
          cases h : passes wear b <;> simp [h] at hroom ⊢ <;> omega

end Steps

/-! The blocks tried, seen from the chip -/

section Chip

variable {wear : Wear} {chip : Chip} {b : Nat} {tried : List Nat}

def Issued.erasedBlock (issued : Issued) : Option Nat :=
  match issued.command with
  | .erase row true => some (row / pagesPerBlock)
  | _ => none

theorem eraseBlock_log (wear : Wear) (chip : Chip) (b : Nat) :
    ∃ marks : List Issued, (∀ mark ∈ marks, mark.command.isErase = false) ∧
      (eraseBlock wear chip b).log =
        chip.log ++ ⟨chip.cells, .erase (pagesPerBlock * b) (passes wear b)⟩ :: marks := by
  rw [eraseBlock, passes, Chip.erase, row_div]
  cases wear.erase b with
  | none => exact ⟨[], by simp, rfl⟩
  | some junk =>
      simp only [Option.isNone_some, Bool.false_eq_true, if_false, Chip.program]
      split
      all_goals exact ⟨[_], by simp [Command.isErase], List.append_assoc _ _ _⟩

theorem eraseBlock_other (wear : Wear) (chip : Chip) {r : Nat} (h : r / pagesPerBlock ≠ b) (c : Nat) :
    (eraseBlock wear chip b).cells r c = chip.cells r c := by
  have herase : (chip.erase wear (pagesPerBlock * b)).2.cells r c = chip.cells r c :=
    chip.erase_block_ne wear (by rwa [row_div]) c
  rw [eraseBlock]
  split
  · exact herase
  · refine (Chip.program_row_ne wear _ _ _ ?_ c).trans herase
    rintro rfl
    exact h (row_div b)

theorem eraseBlocks_other {r : Nat} (h : r / pagesPerBlock ∉ tried) (c : Nat) :
    (tried.foldl (eraseBlock wear) chip).cells r c = chip.cells r c := by
  induction tried generalizing chip with
  | nil => rfl
  | cons b tried ih =>
      rw [List.mem_cons, not_or] at h
      rw [List.foldl_cons, ih h.2, eraseBlock_other wear chip h.1]

theorem eraseBlocks_log (wear : Wear) (chip : Chip) (hnodup : tried.Nodup) :
    ∃ new, (tried.foldl (eraseBlock wear) chip).log = chip.log ++ new ∧
      new.filterMap Issued.erasedBlock = tried.filter (passes wear) ∧
      (∀ issued ∈ new, issued.command.isErase = true → ∃ b ∈ tried,
        issued.command = .erase (pagesPerBlock * b) (passes wear b) ∧
        ∀ r c, r / pagesPerBlock = b → issued.before r c = chip.cells r c) ∧
      ∀ b ∈ tried, ∃ issued ∈ new, issued.command = .erase (pagesPerBlock * b) (passes wear b) := by
  induction tried generalizing chip with
  | nil => exact ⟨[], by simp⟩
  | cons b tried ih =>
      rw [List.nodup_cons] at hnodup
      obtain ⟨marks, hmarks, hlog⟩ := eraseBlock_log wear chip b
      obtain ⟨new, hnew, herased, hbefore, hissued⟩ := ih (eraseBlock wear chip b) hnodup.2
      refine ⟨⟨chip.cells, .erase (pagesPerBlock * b) (passes wear b)⟩ :: marks ++ new, ?_, ?_, ?_, ?_⟩
      · rw [List.foldl_cons, hnew, hlog, List.append_assoc]
      · have hnone : marks.filterMap Issued.erasedBlock = [] := by
          rw [List.filterMap_eq_nil_iff]
          intro mark hmark
          have := hmarks mark hmark
          rw [Issued.erasedBlock]
          cases h : mark.command <;> simp_all [Command.isErase]
        rw [List.cons_append, List.filterMap_cons, List.filterMap_append, hnone, herased,
          List.nil_append, List.filter_cons]
        cases h : passes wear b <;> simp [Issued.erasedBlock, row_div]
      · intro issued hmem herase
        rw [List.cons_append, List.mem_cons, List.mem_append] at hmem
        rcases hmem with rfl | hmark | hlater
        · exact ⟨b, List.mem_cons_self, rfl, fun _ _ _ => rfl⟩
        · rw [hmarks issued hmark] at herase
          cases herase
        · obtain ⟨b', hb', hcommand, hsame⟩ := hbefore issued hlater herase
          refine ⟨b', List.mem_cons_of_mem _ hb', hcommand, fun r c hr => (hsame r c hr).trans ?_⟩
          apply eraseBlock_other
          rintro he
          exact hnodup.1 (he ▸ hr ▸ hb')
      · intro b' hb'
        rcases List.mem_cons.mp hb' with rfl | hb'
        · exact ⟨_, List.mem_cons_self, rfl⟩
        · obtain ⟨issued, hmem, hcommand⟩ := hissued b' hb'
          exact ⟨issued, List.mem_append_right _ hmem, hcommand⟩

end Chip

/-! A whole `nand_erase` -/

def blockIndex (addr : Word) : Nat := addr.toNat / 0x20000

def BlockAligned (addr : Word) : Prop := addr &&& (k9f2g08.nand.block_size - 1) = 0

instance (addr : Word) : Decidable (BlockAligned addr) := inferInstanceAs (Decidable (_ = _))

def blocksFrom (addr : Word) : List Nat := List.range' (blockIndex addr) (blocks - blockIndex addr)

section Whole

variable {wear : Wear} {chip : Chip} {start_addr size addr : Word}

theorem blockAddr_blockIndex (h : BlockAligned addr) : blockAddr (blockIndex addr) = addr := by
  have hmod : addr.toNat % 2 ^ 17 = 0 := by
    have := congrArg BitVec.toNat h
    rwa [Geometry.nand, Geometry.blockSize, toNat_and_mask _ k9f2g08.blockShift_lt_word] at this
  have hmul : addr.toNat / 0x20000 * 0x20000 = addr.toNat := Nat.div_mul_cancel (Nat.dvd_of_mod_eq_zero hmod)
  rw [blockAddr, blockIndex, hmul, BitVec.ofNat_toNat, BitVec.setWidth_eq]

theorem erasing_start (hstart : BlockAligned start_addr) (hsize : BlockAligned size) (chip : Chip) :
    (⟨chip, start_addr, size, 0⟩ : Erasing) =
      erasing start_addr 0 chip (blockIndex start_addr) (blockIndex size) := by
  have hend : blockAddr (blockIndex start_addr + blockIndex size) = start_addr + size := by
    rw [blockAddr, Nat.add_mul, BitVec.ofNat_add, ← blockAddr, ← blockAddr, blockAddr_blockIndex hstart,
      blockAddr_blockIndex hsize]
  rw [erasing, hend, blockAddr_blockIndex hstart, BitVec.add_comm, BitVec.add_sub_cancel]

theorem nandErase_loop (hstart : BlockAligned start_addr) (hsize : BlockAligned size) {n : Nat} {s : Erasing}
    (hloop : whileLoop (eraseGoesOn start_addr) (eraseRound k9f2g08.nand wear true) n
      ⟨chip, start_addr, size, 0⟩ = s) :
    nandErase k9f2g08.nand wear n chip start_addr size true =
      (if eraseGoesOn start_addr s then none else some 0, s.chip) := by
  have halign : ¬ (start_addr &&& (k9f2g08.nand.block_size - 1) ≠ 0 ∨
      size &&& (k9f2g08.nand.block_size - 1) ≠ 0) := not_or.mpr ⟨not_not.mpr hstart, not_not.mpr hsize⟩
  rw [nandErase, if_neg halign, hloop]
  dsimp only
  split <;> rfl

theorem nandErase_eq (hstart : BlockAligned start_addr) (hsize : BlockAligned size)
    (hroom : blockIndex size ≤ ((blocksFrom start_addr).filter (passes wear)).length) {n : Nat}
    (hn : blocks ≤ n) :
    nandErase k9f2g08.nand wear n chip start_addr size true =
      (some 0, (attempts (passes wear) (blockIndex size) (blocksFrom start_addr)).foldl
        (eraseBlock wear) chip) := by
  obtain ⟨last, hloop⟩ := eraseLoop_eq start_addr 0 chip (Nat.le_trans (Nat.sub_le _ _) hn) hroom
  rw [← erasing_start hstart hsize] at hloop
  rw [nandErase_loop hstart hsize hloop, eraseGoesOn_zero]
  rfl

theorem isBadBlock_blockAddr {b : Nat} (h : b < blocks) (cells : Cells) :
    isBadBlock k9f2g08.nand cells (blockAddr b) = k9f2g08.bad cells b := by
  rw [blockAddr_eq, k9f2g08.isBadBlock_eq]
  · exact congrArg (k9f2g08.bad cells) (row_div b)
  · unfold blocks at h
    show 64 * b < 2048 * 64
    omega

theorem bad_congr {cells cells' : Cells} {b : Nat}
    (h : ∀ r c, r / pagesPerBlock = b → cells r c = cells' r c) :
    k9f2g08.bad cells b = k9f2g08.bad cells' b := by
  have hmarker : k9f2g08.marker cells b = k9f2g08.marker cells' b :=
    h _ _ (Nat.mul_div_cancel b (show 0 < 64 by decide))
  rw [Geometry.bad, Geometry.bad, hmarker]

/-- The promise of skipping bad blocks: no erase command goes to a block that
`is_bad_block` calls bad at that moment, and the blocks erased are the first
`size / block_size` unmarked blocks that erase successfully. -/
def ErasesUnmarked (nand : BootNand) (wear : Wear) (chip : Chip) (start_addr size : Word) : Prop :=
  ∃ rounds, ∀ n ≥ rounds, ∃ ret chip' new,
    nandErase nand wear n chip start_addr size true = (some ret, chip') ∧ chip'.log = chip.log ++ new ∧
    (∀ issued ∈ new, issued.command.isErase = true →
      isBadBlock nand issued.before (blockAddr (issued.command.row / pagesPerBlock)) = false) ∧
    new.filterMap Issued.erasedBlock =
      ((blocksFrom start_addr).filter fun b =>
        !isBadBlock nand chip.cells (blockAddr b) && passes wear b).take (blockIndex size) ∧
    (new.filterMap Issued.erasedBlock).length = blockIndex size

theorem mem_tried {b want j : Nat} (hj : b + j < blocks) :
    b + j ∈ attempts (passes wear) want (List.range' b (blocks - b)) ↔
      ((List.range' b j).filter (passes wear)).length < want := by
  have hlen : j < (List.range' b (blocks - b)).length := by
    rw [List.length_range']
    omega
  have hget : (List.range' b (blocks - b))[j] = b + j := by simp
  have htake : (List.range' b (blocks - b)).take j = List.range' b j := by
    rw [show blocks - b = j + (blocks - b - j) by omega, ← List.range'_append_1,
      List.take_left' List.length_range']
  rw [← htake, ← getElem_mem_attempts List.nodup_range' hlen, hget]

theorem exists_of_mem_tried {b b' want : Nat}
    (h : b' ∈ attempts (passes wear) want (List.range' b (blocks - b))) : ∃ j, b' = b + j ∧ b' < blocks := by
  obtain ⟨j, hj, rfl⟩ := List.mem_range'.mp ((attempts_initial _ _).subset h)
  exact ⟨j, by omega, by omega⟩

theorem filter_tried {list : List Nat} {want : Nat} {unmarked : Nat → Bool}
    (hroom : want ≤ (list.filter (passes wear)).length)
    (hunmarked : ∀ b ∈ attempts (passes wear) want list, unmarked b = true) :
    (attempts (passes wear) want list).filter (passes wear) =
      (list.filter fun b => unmarked b && passes wear b).take want := by
  obtain ⟨rest, hrest⟩ : attempts (passes wear) want list <+: list := attempts_initial want list
  have hsame : (attempts (passes wear) want list).filter (fun b => unmarked b && passes wear b) =
      (attempts (passes wear) want list).filter (passes wear) := by
    apply List.filter_congr
    intro b hb
    rw [hunmarked b hb, Bool.true_and]
  have hlen : ((attempts (passes wear) want list).filter (passes wear)).length = want := by
    rw [attempts_filter, List.length_take, Nat.min_eq_left hroom]
  conv_rhs => rw [← hrest, List.filter_append, hsame]
  exact (List.take_left' hlen).symm

theorem ErasesUnmarked.unmarked (hstart : BlockAligned start_addr) (hsize : BlockAligned size)
    (h : ErasesUnmarked k9f2g08.nand wear chip start_addr size) {j : Nat}
    (hj : ((List.range' (blockIndex start_addr) j).filter (passes wear)).length < blockIndex size) :
    blockIndex start_addr + j < blocks ∧
      isBadBlock k9f2g08.nand chip.cells (blockAddr (blockIndex start_addr + j)) = false := by
  obtain ⟨rounds, h⟩ := h
  obtain ⟨ret, chip', new', hrun, hlog', hgood, hfirst, hcount⟩ := h (max rounds blocks) (le_max_left _ _)
  have hroom : blockIndex size ≤ ((blocksFrom start_addr).filter (passes wear)).length := by
    rw [hfirst, List.length_take] at hcount
    have hsub := List.monotone_filter_right (blocksFrom start_addr)
      (p := fun b => !isBadBlock k9f2g08.nand chip.cells (blockAddr b) && passes wear b) (q := passes wear)
      fun b hb => (Bool.and_eq_true_iff.mp hb).2
    have := hsub.length_le
    omega
  obtain ⟨new, hlog, -, hbefore, hissued⟩ := eraseBlocks_log wear chip
    (attempts_nodup List.nodup_range')
  rw [nandErase_eq hstart hsize hroom (le_max_right _ _), Prod.mk.injEq] at hrun
  obtain ⟨-, rfl⟩ := hrun
  obtain rfl : new = new' := List.append_cancel_left (hlog.symm.trans hlog')
  have hin : blockIndex start_addr + j < blocks := by
    by_contra hout
    have hsub : (blocksFrom start_addr).Sublist (List.range' (blockIndex start_addr) j) :=
      List.range'_sublist_right.mpr (by omega)
    have := (hsub.filter (passes wear)).length_le
    omega
  obtain ⟨issued, hmem, hcommand⟩ := hissued _ ((mem_tried hin).mpr hj)
  have hgood := hgood issued hmem (by rw [hcommand]; rfl)
  obtain ⟨b, -, hb, hsame⟩ := hbefore issued hmem (by rw [hcommand]; rfl)
  obtain rfl : b = blockIndex start_addr + j := by
    rw [hcommand, Command.erase.injEq] at hb
    unfold pagesPerBlock at hb
    omega
  refine ⟨hin, ?_⟩
  rw [hcommand, Command.row, row_div, isBadBlock_blockAddr hin, bad_congr hsame] at hgood
  rw [isBadBlock_blockAddr hin, hgood]

theorem erasesUnmarked_of_unmarked (hstart : BlockAligned start_addr) (hsize : BlockAligned size)
    (h : ∀ j, ((List.range' (blockIndex start_addr) j).filter (passes wear)).length < blockIndex size →
      blockIndex start_addr + j < blocks ∧
        isBadBlock k9f2g08.nand chip.cells (blockAddr (blockIndex start_addr + j)) = false) :
    ErasesUnmarked k9f2g08.nand wear chip start_addr size := by
  have hroom : blockIndex size ≤ ((blocksFrom start_addr).filter (passes wear)).length := by
    by_contra hfew
    have := (h (blocks - blockIndex start_addr) (Nat.lt_of_not_le hfew)).1
    omega
  have hunmarked : ∀ b ∈ attempts (passes wear) (blockIndex size) (blocksFrom start_addr), b < blocks ∧
      isBadBlock k9f2g08.nand chip.cells (blockAddr b) = false := by
    intro b hb
    obtain ⟨j, rfl, hin⟩ := exists_of_mem_tried hb
    exact h j ((mem_tried hin).mp hb)
  obtain ⟨new, hlog, herased, hbefore, -⟩ := eraseBlocks_log wear chip
    (attempts_nodup List.nodup_range')
  refine ⟨blocks, fun n hn => ⟨0, _, new, nandErase_eq hstart hsize hroom hn, hlog, ?_, ?_, ?_⟩⟩
  · intro issued hmem herase
    obtain ⟨b, hb, hcommand, hsame⟩ := hbefore issued hmem herase
    obtain ⟨hin, hbad⟩ := hunmarked b hb
    rw [hcommand, Command.row, row_div, isBadBlock_blockAddr hin, bad_congr hsame,
      ← isBadBlock_blockAddr hin, hbad]
  · rw [herased]
    exact filter_tried hroom fun b hb => by rw [(hunmarked b hb).2]; rfl
  · rw [herased, attempts_filter, List.length_take]
    exact Nat.min_eq_left hroom

/-- The bad block markers survive erasing just if there are none to lose: each
block that comes before enough others have been erased must be there and unmarked. -/
theorem erasesUnmarked_iff (hstart : BlockAligned start_addr) (hsize : BlockAligned size) :
    ErasesUnmarked k9f2g08.nand wear chip start_addr size ↔
      ∀ j, ((List.range' (blockIndex start_addr) j).filter (passes wear)).length < blockIndex size →
        blockIndex start_addr + j < blocks ∧
          isBadBlock k9f2g08.nand chip.cells (blockAddr (blockIndex start_addr + j)) = false :=
  ⟨fun h _ hj => h.unmarked hstart hsize hj, erasesUnmarked_of_unmarked hstart hsize⟩

def Wear.healthy : Wear := ⟨fun _ => none, fun _ => none⟩

/-- Block 0 fails, and so does every try of it that follows. -/
def Wear.firstBlockFails : Wear := ⟨fun b => if b = 0 then some erased else none, fun _ => none⟩

/-- The second block is erased for the first, and a marked one behind it is left alone. -/
theorem erasesUnmarked_firstBlockFails :
    ErasesUnmarked k9f2g08.nand .firstBlockFails ⟨fun p c => if p = 320 ∧ c = 0x800 then 0 else 0xff, []⟩ 0
      0x20000 := by
  refine (erasesUnmarked_iff (by decide) (by decide)).mpr fun j hj => ?_
  match j with
  | 0 => decide
  | 1 => decide
  | j + 2 =>
      rw [List.range'_succ, List.range'_succ, List.filter_cons, List.filter_cons, if_neg (by decide),
        if_pos (by decide), List.length_cons] at hj
      exact absurd hj (by show ¬ _ + 1 < 1; omega)

/-- The first block carries a factory marker, and is erased all the same. -/
theorem marked_block_is_erased :
    ¬ ErasesUnmarked k9f2g08.nand .healthy ⟨fun p c => if p = 0 ∧ c = 0x800 then 0 else 0xff, []⟩ 0
      0x20000 := by
  intro h
  have := (h.unmarked (by decide) (by decide) (j := 0) (by decide)).2
  revert this
  decide

end Whole

end Fl2440.MyBoot
