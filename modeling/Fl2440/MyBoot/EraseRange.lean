import Mathlib.Data.List.Dedup
import Fl2440.MyBoot.Erase
import Fl2440.MyBoot.WriteLog

/-! The blocks that `nand_erase` goes through, where an erase that fails once need
not fail again: how the chip wears goes by the round. -/
namespace Fl2440.MyBoot

open Fl2440.Lib

def wornRound (nand : BootNand) (wears : Nat → Wear) (skip_bad : Bool) (s : Nat × Erasing) : Nat × Erasing :=
  (s.1 + 1, eraseRound nand (wears s.1) skip_bad s.2)

def wornGoesOn (start_addr : Word) (s : Nat × Erasing) : Bool := eraseGoesOn start_addr s.2

/-- `nand_erase` -/
def nandEraseWorn (nand : BootNand) (wears : Nat → Wear) (rounds : Nat) (chip : Chip) (start_addr size : Word)
    (skip_bad : Bool) : Option Word × Chip :=
  if start_addr &&& (nand.block_size - 1) ≠ 0 ∨ size &&& (nand.block_size - 1) ≠ 0 then
    (some failure, chip)
  else
    let s := (whileLoop (wornGoesOn start_addr) (wornRound nand wears skip_bad) rounds
      (0, ⟨chip, start_addr, size, 0⟩)).2
    if eraseGoesOn start_addr s then (none, s.chip)
    else (some (if !skip_bad && s.failed != 0 then s.failed else 0), s.chip)

/-- A chip whose bad blocks stay bad. -/
theorem nandEraseWorn_const (nand : BootNand) (wear : Wear) :
    nandEraseWorn nand (fun _ => wear) = nandErase nand wear := by
  funext rounds chip start_addr size skip_bad
  have hloop : (whileLoop (wornGoesOn start_addr) (wornRound nand (fun _ => wear) skip_bad) rounds
      (0, ⟨chip, start_addr, size, 0⟩)).2 =
        whileLoop (eraseGoesOn start_addr) (eraseRound nand wear skip_bad) rounds ⟨chip, start_addr, size, 0⟩ :=
    whileLoop_map Prod.snd (fun _ => rfl) (fun _ => rfl) rounds _
  rw [nandEraseWorn, nandErase, hloop]

def Issued.triedBlock (issued : Issued) : Option Nat :=
  match issued.command with
  | .erase row _ => some (row / pagesPerBlock)
  | _ => none

def Issued.failedBlock (issued : Issued) : Option Nat :=
  match issued.command with
  | .erase row false => some (row / pagesPerBlock)
  | _ => none

/-- What `nand_erase` is to do with a range: it ends, goes up block by block inside the
chip, and without skipping tells how many blocks failed. -/
def ErasesRange (nand : BootNand) (wears : Nat → Wear) (chip : Chip) (start_addr size : Word)
    (skip_bad : Bool) : Prop :=
  ∃ rounds, ∀ n ≥ rounds, ∃ ret chip' new,
    nandEraseWorn nand wears n chip start_addr size skip_bad = (some ret, chip') ∧ chip'.log = chip.log ++ new ∧
    (∀ b ∈ new.filterMap Issued.triedBlock, b < nand.block_num.toNat) ∧
    (new.filterMap Issued.triedBlock).Pairwise (· < ·) ∧
    (skip_bad = false → ret.toNat = (new.filterMap Issued.failedBlock).dedup.length)

/-- The erase of round `k` passes, where every round before it went on to the next block. -/
def passesInTurn (wears : Nat → Wear) (start_addr : Word) (k : Nat) : Bool :=
  passes (wears k) (blockIndex start_addr + k)

/-- With bad blocks skipped, as many blocks as asked for pass before the chip ends;
without, no block of the range fails. -/
def EnoughPass (wears : Nat → Wear) (start_addr size : Word) : Bool → Prop
  | true => blockIndex size ≤ (List.range (blocks - blockIndex start_addr)).countP (passesInTurn wears start_addr)
  | false => ∀ k < blockIndex size, passesInTurn wears start_addr k = true

variable {wears : Nat → Wear} {chip : Chip} {start start_addr size : Word} {b₀ k want : Nat} {skip_bad : Bool}

def triedChip (wears : Nat → Wear) (chip : Chip) (b₀ : Nat) : Nat → Chip
  | 0 => chip
  | k + 1 => eraseBlock (wears k) (triedChip wears chip b₀ k) (b₀ + k)

def passed (wears : Nat → Wear) (b₀ k : Nat) : Nat :=
  (List.range k).countP fun i => passes (wears i) (b₀ + i)

theorem passed_succ (wears : Nat → Wear) (b₀ k : Nat) :
    passed wears b₀ (k + 1) = passed wears b₀ k + if passes (wears k) (b₀ + k) then 1 else 0 := by
  rw [passed, List.range_succ, List.countP_append, List.countP_singleton]
  rfl

theorem passed_mono (wears : Nat → Wear) (b₀ : Nat) : Monotone (passed wears b₀) :=
  monotone_nat_of_le_succ fun k => by rw [passed_succ]; exact Nat.le_add_right _ _

theorem passed_all (h : ∀ i < k, passes (wears i) (b₀ + i) = true) : passed wears b₀ k = k := by
  induction k with
  | zero => rfl
  | succ k ih =>
      rw [passed_succ, ih fun i hi => h i (Nat.lt_succ_of_lt hi), if_pos (h k (Nat.lt_succ_self k))]

theorem filterMap_of_not_erase {marks : List Issued} (h : ∀ mark ∈ marks, mark.command.isErase = false) :
    marks.filterMap Issued.triedBlock = [] ∧ marks.filterMap Issued.failedBlock = [] := by
  simp only [List.filterMap_eq_nil_iff]
  constructor
  all_goals
    intro mark hmark
    have hcommand := h mark hmark
    simp only [Issued.triedBlock, Issued.failedBlock]
    cases hc : mark.command with
    | erase row ok => simp [hc, Command.isErase] at hcommand
    | program row column data ok => rfl

theorem eraseBlock_tried (wear : Wear) (chip : Chip) (b : Nat) :
    ∃ new, (eraseBlock wear chip b).log = chip.log ++ new ∧ new.filterMap Issued.triedBlock = [b] ∧
      (passes wear b = true → new.filterMap Issued.failedBlock = []) := by
  obtain ⟨marks, hmarks, hlog⟩ := eraseBlock_log wear chip b
  obtain ⟨htried, hfailed⟩ := filterMap_of_not_erase hmarks
  refine ⟨_, hlog, ?_, fun hpasses => ?_⟩
  · rw [List.filterMap_cons, htried]
    simp only [Issued.triedBlock, row_div]
  · rw [List.filterMap_cons, hfailed, hpasses]
    rfl

theorem triedChip_log (wears : Nat → Wear) (chip : Chip) (b₀ k : Nat) :
    ∃ new, (triedChip wears chip b₀ k).log = chip.log ++ new ∧
      new.filterMap Issued.triedBlock = List.range' b₀ k ∧
      ((∀ i < k, passes (wears i) (b₀ + i) = true) → new.filterMap Issued.failedBlock = []) := by
  induction k with
  | zero => exact ⟨[], by simp [triedChip]⟩
  | succ k ih =>
      obtain ⟨new, hlog, htried, hfailed⟩ := ih
      obtain ⟨more, hmore, htried', hfailed'⟩ := eraseBlock_tried (wears k) (triedChip wears chip b₀ k) (b₀ + k)
      refine ⟨new ++ more, ?_, ?_, fun hall => ?_⟩
      · rw [triedChip, hmore, hlog, List.append_assoc]
      · rw [List.filterMap_append, htried, htried', List.range'_concat, Nat.one_mul]
      · rw [List.filterMap_append, hfailed fun i hi => hall i (Nat.lt_succ_of_lt hi),
          hfailed' (hall k (Nat.lt_succ_self k)), List.append_nil]

theorem Chip.erase_log (wear : Wear) (chip : Chip) (row : Nat) :
    ∃ ok, (chip.erase wear row).2.log = chip.log ++ [⟨chip.cells, .erase row ok⟩] := by
  rw [Chip.erase]
  cases wear.erase (row / pagesPerBlock) with
  | none => exact ⟨true, rfl⟩
  | some junk => exact ⟨false, rfl⟩

theorem Chip.program_log (wear : Wear) (chip : Chip) (row column : Nat) (data : List Byte) :
    ∃ ok, (chip.program wear row column data).2.log = chip.log ++ [⟨chip.cells, .program row column data ok⟩] := by
  rw [Chip.program]
  cases wear.program chip.log.length with
  | none => exact ⟨true, rfl⟩
  | some junk => exact ⟨false, rfl⟩

theorem markBadBlock_log (nand : BootNand) (wear : Wear) (chip : Chip) (addr : Word) :
    ∃ issued : Issued, (markBadBlock nand wear chip addr).2.log = chip.log ++ [issued] ∧
      issued.command.isErase = false := by
  rw [markBadBlock]
  dsimp only
  obtain ⟨bytes, hpage⟩ := nandWritePage_chip nand wear chip (blockStart nand addr >>> nand.pageShift)
    nand.bad_block_offset (fun _ => 0xee) 1
  rw [hpage]
  obtain ⟨ok, hlog⟩ := Chip.program_log wear chip
    (address (pageCycles (blockStart nand addr >>> nand.pageShift)))
    (startColumn nand nand.bad_block_offset 1) ((List.range bytes.toNat).map fun _ => 0xee)
  exact ⟨_, hlog, rfl⟩

theorem nandEraseBlock_log (nand : BootNand) (wear : Wear) (chip : Chip) (block_num : Word) :
    ∃ ok, ∃ marks : List Issued, (nandEraseBlock nand wear chip block_num).2.log =
      chip.log ++ ⟨chip.cells, .erase (address (blockCycles block_num)) ok⟩ :: marks ∧
      ∀ mark ∈ marks, mark.command.isErase = false := by
  obtain ⟨ok, herase⟩ := chip.erase_log wear (address (blockCycles block_num))
  obtain ⟨mark, hmark, hkind⟩ := markBadBlock_log nand wear
    (chip.erase wear (address (blockCycles block_num))).2 (block_num <<< nand.blockShift)
  rw [nandEraseBlock]
  dsimp only
  split
  · exact ⟨ok, [mark], by rw [hmark, herase, List.append_assoc]; rfl, by simpa using hkind⟩
  · exact ⟨ok, [], herase, by simp⟩

theorem eraseRound_tried (nand : BootNand) (wear : Wear) (skip_bad : Bool) (s : Erasing) :
    ∃ new, (eraseRound nand wear skip_bad s).chip.log = s.chip.log ++ new ∧
      new.filterMap Issued.triedBlock = [address (blockCycles (s.addr >>> nand.blockShift)) / pagesPerBlock] := by
  obtain ⟨ok, marks, hlog, hmarks⟩ := nandEraseBlock_log nand wear s.chip (s.addr >>> nand.blockShift)
  have hchip : (eraseRound nand wear skip_bad s).chip =
      (nandEraseBlock nand wear s.chip (s.addr >>> nand.blockShift)).2 := by
    rw [eraseRound]
    dsimp only
    split
    · split <;> rfl
    · rfl
  refine ⟨_, hchip ▸ hlog, ?_⟩
  rw [List.filterMap_cons, (filterMap_of_not_erase hmarks).1]
  rfl

theorem wornLoop_eq (start : Word) (chip : Chip) (k : Nat) (skip_bad : Bool) (hblocks : b₀ + k ≤ blocks) (hwant : b₀ + want ≤ blocks)
    (hopen : ∀ i < k, passed wears b₀ i < want)
    (hnext : skip_bad = true ∨ ∀ i < k, passes (wears i) (b₀ + i) = true) :
    whileLoop (wornGoesOn start) (wornRound k9f2g08.nand wears skip_bad) k
        (0, erasing start 0 chip b₀ want) =
      (k, erasing start 0 (triedChip wears chip b₀ k) (b₀ + k) (want - passed wears b₀ k)) := by
  have hcount : blocks = 2048 := rfl
  induction k with
  | zero => rfl
  | succ k ih =>
      have hk : k < k + 1 := Nat.lt_succ_self k
      have hnext' : skip_bad = true ∨ passes (wears k) (b₀ + k) = true := hnext.imp_right fun hall => hall k hk
      have hleft := hopen k hk
      rw [whileLoop_succ, ih (by omega) (fun i hi => hopen i (Nat.lt_succ_of_lt hi))
        (hnext.imp_right fun hall i hi => hall i (Nat.lt_succ_of_lt hi))]
      rw [if_pos (by rw [wornGoesOn, eraseGoesOn_erasing (by omega)]; exact decide_eq_true (by omega)), wornRound]
      obtain ⟨rest, hrest⟩ := Nat.exists_eq_succ_of_ne_zero (Nat.sub_ne_zero_of_lt hleft)
      simp only [hrest]
      rw [eraseRound_erasing (by omega) hnext', triedChip, passed_succ, ← Nat.sub_sub, hrest, Nat.add_assoc]
      cases passes (wears k) (b₀ + k) <;> rfl

theorem wornLoop_grows (start : Word) (nand : BootNand) (wears : Nat → Wear) (skip_bad : Bool) (n : Nat) (s : Nat × Erasing) :
    ∃ more, (whileLoop (wornGoesOn start) (wornRound nand wears skip_bad) n s).2.chip.log =
      s.2.chip.log ++ more := by
  refine whileLoop_preserves (P := fun t : Nat × Erasing => ∃ more, t.2.chip.log = s.2.chip.log ++ more)
    ?_ ⟨[], by simp⟩ n
  rintro t - ⟨more, hmore⟩
  obtain ⟨new, hnew, -⟩ := eraseRound_tried nand (wears t.1) skip_bad t.2
  exact ⟨more ++ new, by rw [wornRound, hnew, hmore, List.append_assoc]⟩

def wornLoop (wears : Nat → Wear) (chip : Chip) (start_addr size : Word) (skip_bad : Bool) (n : Nat) : Erasing :=
  (whileLoop (wornGoesOn start_addr) (wornRound k9f2g08.nand wears skip_bad) n
    (0, ⟨chip, start_addr, size, 0⟩)).2

theorem nandEraseWorn_loop (hstart : BlockAligned start_addr) (hsize : BlockAligned size) (n : Nat) :
    nandEraseWorn k9f2g08.nand wears n chip start_addr size skip_bad =
      let s := wornLoop wears chip start_addr size skip_bad n
      (if eraseGoesOn start_addr s then none else some (if !skip_bad && s.failed != 0 then s.failed else 0),
        s.chip) := by
  have halign : ¬ (start_addr &&& (k9f2g08.nand.block_size - 1) ≠ 0 ∨
      size &&& (k9f2g08.nand.block_size - 1) ≠ 0) := not_or.mpr ⟨not_not.mpr hstart, not_not.mpr hsize⟩
  rw [nandEraseWorn, if_neg halign]
  dsimp only [wornLoop]
  split <;> rfl

theorem ErasesRange.tried (hstart : BlockAligned start_addr) (hsize : BlockAligned size)
    (h : ErasesRange k9f2g08.nand wears chip start_addr size skip_bad) (m : Nat) {new : List Issued}
    (hlog : (wornLoop wears chip start_addr size skip_bad m).chip.log = chip.log ++ new) :
    (∀ b ∈ new.filterMap Issued.triedBlock, b < blocks) ∧ (new.filterMap Issued.triedBlock).Pairwise (· < ·) := by
  obtain ⟨rounds, h⟩ := h
  obtain ⟨ret, chip', all, hrun, hall, hinside, hordered, -⟩ := h (m + rounds) (Nat.le_add_left _ _)
  rw [nandEraseWorn_loop hstart hsize, Prod.mk.injEq] at hrun
  obtain ⟨more, hmore⟩ := wornLoop_grows start_addr k9f2g08.nand wears skip_bad rounds
    (whileLoop (wornGoesOn start_addr) (wornRound k9f2g08.nand wears skip_bad) m
      (0, ⟨chip, start_addr, size, 0⟩))
  rw [← whileLoop_add] at hmore
  have hsplit : all = new ++ more := by
    refine (List.append_cancel_left_eq chip.log _ _).mp ?_
    rw [← hall, ← hrun.2, ← List.append_assoc, ← hlog]
    exact hmore
  rw [hsplit, List.filterMap_append] at hinside hordered
  exact ⟨fun b hb => hinside b (List.mem_append_left _ hb), (List.pairwise_append.mp hordered).1⟩

theorem erasesRange_of_stop (hstart : BlockAligned start_addr) (hsize : BlockAligned size)
    (hin : blockIndex start_addr + blockIndex size ≤ blocks) (hblocks : blockIndex start_addr + k ≤ blocks)
    (hopen : ∀ i < k, passed wears (blockIndex start_addr) i < blockIndex size)
    (hdone : blockIndex size ≤ passed wears (blockIndex start_addr) k)
    (hnext : skip_bad = true ∨ ∀ i < k, passes (wears i) (blockIndex start_addr + i) = true) :
    ErasesRange k9f2g08.nand wears chip start_addr size skip_bad := by
  obtain ⟨new, hlog, htried, hfailed⟩ := triedChip_log wears chip (blockIndex start_addr) k
  refine ⟨k, fun n hn => ⟨0, _, new, ?_, hlog, ?_, ?_, ?_⟩⟩
  · have hloop := wornLoop_eq start_addr chip k skip_bad hblocks hin hopen hnext
    rw [← erasing_start hstart hsize, Nat.sub_eq_zero_of_le hdone] at hloop
    have hstop : wornGoesOn start_addr (k, erasing start_addr 0
        (triedChip wears chip (blockIndex start_addr) k) (blockIndex start_addr + k) 0) = false := eraseGoesOn_zero
    obtain ⟨m, rfl⟩ := Nat.exists_eq_add_of_le hn
    rw [nandEraseWorn_loop hstart hsize]
    dsimp only [wornLoop]
    rw [whileLoop_add, hloop, whileLoop_done hstop, eraseGoesOn_zero]
    simp [erasing]
  · intro b hb
    rw [htried, List.mem_range'_1] at hb
    exact Nat.lt_of_lt_of_le hb.2 hblocks
  · rw [htried]
    exact List.pairwise_lt_range'
  · intro hskip
    rw [hfailed (hnext.resolve_left (by rw [hskip]; exact Bool.false_ne_true))]
    rfl

theorem erasesRange_of_enough (hstart : BlockAligned start_addr) (hsize : BlockAligned size)
    (hin : blockIndex start_addr + blockIndex size ≤ blocks) (h : EnoughPass wears start_addr size skip_bad) :
    ErasesRange k9f2g08.nand wears chip start_addr size skip_bad := by
  cases skip_bad with
  | true =>
      have hex : ∃ k, blockIndex size ≤ passed wears (blockIndex start_addr) k := ⟨_, h⟩
      have hle : Nat.find hex ≤ blocks - blockIndex start_addr := Nat.find_min' hex h
      exact erasesRange_of_stop hstart hsize hin (k := Nat.find hex) (by omega)
        (fun i hi => Nat.lt_of_not_le (Nat.find_min hex hi)) (Nat.find_spec hex) (.inl rfl)
  | false =>
      have hall : ∀ i < blockIndex size, passes (wears i) (blockIndex start_addr + i) = true := h
      refine erasesRange_of_stop hstart hsize hin (k := blockIndex size) hin (fun i hi => ?_)
        (passed_all hall).ge (.inr hall)
      rwa [passed_all fun j hj => hall j (Nat.lt_trans hj hi)]

theorem eraseRound_tried_at (start : Word) (skip_bad : Bool) (wear : Wear) (chip : Chip) {b : Nat} (want : Nat)
    (failed : Word) (hb : b ≤ blocks) :
    ∃ new, (eraseRound k9f2g08.nand wear skip_bad (erasing start failed chip b want)).chip.log = chip.log ++ new ∧
      new.filterMap Issued.triedBlock = [b] := by
  obtain ⟨new, hlog, htried⟩ := eraseRound_tried k9f2g08.nand wear skip_bad (erasing start failed chip b want)
  refine ⟨new, hlog, htried.trans ?_⟩
  have hcount : blocks = 2048 := rfl
  rw [erasing, Geometry.nand_blockShift, address_blockCycles, toNat_shift, toNat_blockAddr hb]
  show [pagesPerBlock * (b * 0x20000 / 2 ^ 17) % 2 ^ 20 / pagesPerBlock] = [b]
  unfold pagesPerBlock
  congr 1
  omega

theorem ErasesRange.enough_skipping (hstart : BlockAligned start_addr) (hsize : BlockAligned size)
    (hin : blockIndex start_addr + blockIndex size ≤ blocks)
    (h : ErasesRange k9f2g08.nand wears chip start_addr size true) : EnoughPass wears start_addr size true := by
  by_contra hfew
  have hfew : passed wears (blockIndex start_addr) (blocks - blockIndex start_addr) < blockIndex size :=
    Nat.lt_of_not_le hfew
  have hcount : blocks = 2048 := rfl
  have hend : blockIndex start_addr + (blocks - blockIndex start_addr) = blocks := by omega
  have hloop := wornLoop_eq start_addr chip (blocks - blockIndex start_addr) true hend.le hin
    (fun i hi => Nat.lt_of_le_of_lt (passed_mono wears _ hi.le) hfew) (.inl rfl)
  obtain ⟨new, hlog, htried, -⟩ := triedChip_log wears chip (blockIndex start_addr) (blocks - blockIndex start_addr)
  obtain ⟨more, hmore, hbehind⟩ := eraseRound_tried_at start_addr true
    (wears (blocks - blockIndex start_addr))
    (triedChip wears chip (blockIndex start_addr) (blocks - blockIndex start_addr))
    (blockIndex size - passed wears (blockIndex start_addr) (blocks - blockIndex start_addr)) 0 hend.le
  have hnext : (wornLoop wears chip start_addr size true (blocks - blockIndex start_addr + 1)).chip.log =
      chip.log ++ (new ++ more) := by
    rw [wornLoop, whileLoop_succ, erasing_start hstart hsize, hloop, if_pos, wornRound, hmore, hlog, List.append_assoc]
    rw [wornGoesOn, eraseGoesOn_erasing (by omega)]
    exact decide_eq_true (by omega)
  have hinside := (h.tried hstart hsize _ hnext).1 (blockIndex start_addr + (blocks - blockIndex start_addr))
    (by rw [List.filterMap_append, hbehind]; exact List.mem_append_right _ (List.mem_singleton_self _))
  exact absurd hinside (by omega)

theorem eraseRound_stays {wear : Wear} {b : Nat} (failed : Word) (hb : b < blocks) (hfail : passes wear b = false) :
    eraseRound k9f2g08.nand wear false (erasing start failed chip b want) =
      erasing start (failed + 1) (eraseBlock wear chip b) b want := by
  have hnegative : failure.slt 0 = true := by decide
  rw [eraseRound, erasing, nandEraseBlock_eq hb, hfail]
  simp only [hnegative, if_true, Bool.false_eq_true, if_false, erasing]

theorem ErasesRange.enough_staying (hstart : BlockAligned start_addr) (hsize : BlockAligned size)
    (hin : blockIndex start_addr + blockIndex size ≤ blocks)
    (h : ErasesRange k9f2g08.nand wears chip start_addr size false) : EnoughPass wears start_addr size false := by
  intro k hk
  induction k using Nat.strongRecOn with
  | ind k ih =>
      by_contra hfail
      have hfail : passes (wears k) (blockIndex start_addr + k) = false := Bool.eq_false_iff.mpr hfail
      have hall : ∀ i < k, passes (wears i) (blockIndex start_addr + i) = true :=
        fun i hi => ih i hi (Nat.lt_trans hi hk)
      have hcount : blocks = 2048 := rfl
      have hloop := wornLoop_eq start_addr chip k false (by omega) hin
        (fun i hi => by rw [passed_all fun j hj => hall j (Nat.lt_trans hj hi)]; omega) (.inr hall)
      rw [passed_all hall, ← erasing_start hstart hsize] at hloop
      have hgoes : ∀ round failed chip', wornGoesOn start_addr (round, erasing start_addr failed chip'
          (blockIndex start_addr + k) (blockIndex size - k)) = true := fun round failed chip' => by
        rw [wornGoesOn, eraseGoesOn_erasing (by omega)]
        exact decide_eq_true (by omega)
      obtain ⟨new, hlog, htried, -⟩ := triedChip_log wears chip (blockIndex start_addr) k
      obtain ⟨more, hmore, hfirst, -⟩ := eraseBlock_tried (wears k)
        (triedChip wears chip (blockIndex start_addr) k) (blockIndex start_addr + k)
      obtain ⟨again, hagain, hsecond⟩ := eraseRound_tried_at start_addr false (wears (k + 1))
        (eraseBlock (wears k) (triedChip wears chip (blockIndex start_addr) k) (blockIndex start_addr + k))
        (blockIndex size - k) (0 + 1) (by omega : blockIndex start_addr + k ≤ blocks)
      have hnext : (wornLoop wears chip start_addr size false (k + 1 + 1)).chip.log =
          chip.log ++ (new ++ (more ++ again)) := by
        rw [wornLoop, whileLoop_succ, whileLoop_succ, hloop, if_pos (hgoes _ _ _), wornRound,
          eraseRound_stays 0 (by omega) hfail, if_pos (hgoes _ _ _), wornRound, hagain, hmore, hlog]
        simp only [List.append_assoc]
      have hordered := (h.tried hstart hsize _ hnext).2
      rw [List.filterMap_append, List.filterMap_append, hfirst, hsecond] at hordered
      have htwice := (List.pairwise_append.mp hordered).2.1
      rw [List.singleton_append, List.pairwise_pair] at htwice
      exact Nat.lt_irrefl _ htwice

/-- The range is erased as promised just where enough blocks pass, in the order in which
they are tried. -/
theorem erasesRange_iff (hstart : BlockAligned start_addr) (hsize : BlockAligned size)
    (hin : start_addr.toNat + size.toNat ≤ blocks * 0x20000) :
    ErasesRange k9f2g08.nand wears chip start_addr size skip_bad ↔ EnoughPass wears start_addr size skip_bad := by
  have hrange : blockIndex start_addr + blockIndex size ≤ blocks := by
    unfold blockIndex
    omega
  constructor
  · intro h
    cases skip_bad with
    | true => exact h.enough_skipping hstart hsize hrange
    | false => exact h.enough_staying hstart hsize hrange
  · exact erasesRange_of_enough hstart hsize hrange

theorem erasesRange_next_block :
    ErasesRange k9f2g08.nand (fun _ => .firstBlockFails) ⟨erased, []⟩ 0 0x20000 true := by
  refine (erasesRange_iff (by decide) (by decide) (by decide)).mpr ?_
  show 1 ≤ passed (fun _ => .firstBlockFails) 0 (2 + 2046)
  exact Nat.le_trans (by decide : 1 ≤ passed (fun _ => .firstBlockFails) 0 2) (passed_mono _ _ (Nat.le_add_right 2 2046))

/-- Without skipping, a block that always fails is erased forever. -/
theorem failing_block_not_erased :
    ¬ ∀ wears chip start_addr size skip_bad, BlockAligned start_addr → BlockAligned size →
      start_addr.toNat + size.toNat ≤ blocks * 0x20000 →
        ErasesRange k9f2g08.nand wears chip start_addr size skip_bad := by
  intro h
  have hfirst := (h (fun _ => .firstBlockFails) ⟨erased, []⟩ 0 0x20000 false (by decide) (by decide)
    (by decide)).enough_staying (by decide) (by decide) (by decide)
  exact absurd (hfirst 0 (by decide)) (by decide)

end Fl2440.MyBoot
