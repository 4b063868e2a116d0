import Fl2440.MyBoot.Launcher
import Fl2440.MyBoot.XmodemPacket

/-! What a download does to the flash. `dbg_mode` goes on whatever `xmodem_recv`
returns, and -1 is a size like any other to the erase and write loops. -/
namespace Fl2440.MyBoot

open Fl2440.Lib

def Command.ErasesOrMarks (nand : BootNand) : Command → Prop
  | .erase _ _ => True
  | .program _ column data _ => column = nand.bad_block_offset.toNat ∧ data = [0xee]

/-- A failed download leaves the chip as it was, and a finished one has only bytes
of its own programmed, apart from the marks of blocks that do not erase. -/
def DownloadSafe (nand : BootNand) (wear : Wear) (ram : Ram) (chip : Chip) (textBase : Word)
    (input : List Byte) : Prop :=
  ∀ size, (xmodemRecv ram textBase input).point = .returned size →
    (size.slt 0 = true → ∀ rounds, dbgMode nand wear rounds ram chip textBase input = chip) ∧
    (size.slt 0 = false → ∀ rounds ret erased, eraseLauncher nand wear rounds chip size = (ret, erased) →
      ∃ erasing written, erased.commands = chip.commands ++ erasing ∧
        (dbgMode nand wear rounds ram chip textBase input).commands = erased.commands ++ written ∧
        (∀ command ∈ erasing, command.ErasesOrMarks nand) ∧ (written.flatMap Command.sent).Sublist input)

theorem dbgMode_returned {nand : BootNand} {wear : Wear} {ram : Ram} {chip : Chip} {textBase size : Word}
    {input : List Byte} (h : (xmodemRecv ram textBase input).point = .returned size) (rounds : Nat) :
    dbgMode nand wear rounds ram chip textBase input =
      storeLauncher nand wear rounds (xmodemRecv ram textBase input).ram chip size textBase := by
  simp only [dbgMode, h]

/-! Negative sizes -/

section Negative

variable {wear : Wear} {ram : Ram} {chip : Chip} {size addr : Word}

theorem blockAligned_blockAddr (b : Nat) : BlockAligned (blockAddr b) := by
  apply BitVec.eq_of_toNat_eq
  show (blockAddr b &&& (BitVec.ofNat 32 (2 ^ 17) - 1)).toNat = 0
  rw [toNat_and_mask _ (by decide), blockAddr, BitVec.toNat_ofNat]
  omega

theorem eraseSize_negative (hsize : size.slt 0 = true) :
    eraseSize k9f2g08.nand size = BitVec.ofNat 32 0x20000 - blockAddr ((2 ^ 32 - size.toNat) / 0x20000) := by
  have hlow := (slt_zero_iff size).mp hsize
  have hlt := size.isLt
  have hmsb : size.msb = true := by
    rw [BitVec.msb_eq_decide]
    exact decide_eq_true hlow
  have hneg : (-size).toNat = 2 ^ 32 - size.toNat := by
    rw [BitVec.toNat_neg]
    exact Nat.mod_eq_of_lt (by omega)
  have hdiv : size.sdiv k9f2g08.nand.block_size = -BitVec.ofNat 32 ((2 ^ 32 - size.toNat) / 0x20000) := by
    rw [BitVec.sdiv_eq, hmsb]
    show -((-size).udiv k9f2g08.nand.block_size) = _
    congr 1
    apply BitVec.eq_of_toNat_eq
    rw [toNat_ofNat_of_lt (by omega), ← hneg]
    exact BitVec.toNat_udiv
  rw [eraseSize, hdiv, blockAddr, BitVec.ofNat_mul]
  show (-_ + BitVec.ofNat 32 1) * BitVec.ofNat 32 0x20000 = _
  rw [BitVec.add_mul, BitVec.neg_mul, BitVec.one_mul, BitVec.add_comm, BitVec.sub_eq_add_neg]

theorem eraseGoesOn_negative (hsize : size.slt 0 = true) (chip : Chip) :
    eraseGoesOn LAUNCHER_NAND_ADDR ⟨chip, LAUNCHER_NAND_ADDR, eraseSize k9f2g08.nand size, 0⟩ = true ↔
      ¬ (0x20000 ≤ 2 ^ 32 - size.toNat ∧ 2 ^ 32 - size.toNat < 0x80000) := by
  have hlow := (slt_zero_iff size).mp hsize
  have hlt := size.isLt
  have hend : LAUNCHER_NAND_ADDR + eraseSize k9f2g08.nand size =
      BitVec.ofNat 32 0x60000 - BitVec.ofNat 32 ((2 ^ 32 - size.toNat) / 0x20000 * 0x20000) := by
    have hfirst : LAUNCHER_NAND_ADDR + BitVec.ofNat 32 0x20000 = BitVec.ofNat 32 0x60000 := by decide
    rw [eraseSize_negative hsize, BitVec.sub_eq_add_neg, BitVec.sub_eq_add_neg, ← BitVec.add_assoc,
      hfirst, blockAddr]
  rw [eraseGoesOn, decide_eq_true_iff]
  dsimp only
  rw [hend, BitVec.lt_def, BitVec.toNat_sub, toNat_ofNat_of_lt (by omega), toNat_ofNat_of_lt (by omega)]
  show 0x40000 < _ ↔ _
  omega

theorem eraseSize_aligned (hsize : size.slt 0 = true) : BlockAligned (eraseSize k9f2g08.nand size) := by
  have hlow := (slt_zero_iff size).mp hsize
  have hlt := size.isLt
  apply BitVec.eq_of_toNat_eq
  show (eraseSize k9f2g08.nand size &&& (BitVec.ofNat 32 (2 ^ 17) - 1)).toNat = 0
  rw [toNat_and_mask _ (by decide), eraseSize_negative hsize, BitVec.toNat_sub, blockAddr,
    toNat_ofNat_of_lt (by omega), toNat_ofNat_of_lt (by omega)]
  omega

theorem eraseRound_first (wear : Wear) (chip : Chip) (size : Word) :
    chip.log.length < (eraseRound k9f2g08.nand wear true
      ⟨chip, LAUNCHER_NAND_ADDR, size, 0⟩).chip.log.length := by
  have hround : (eraseRound k9f2g08.nand wear true ⟨chip, LAUNCHER_NAND_ADDR, size, 0⟩).chip =
      eraseBlock wear chip 2 := by
    have haddr : LAUNCHER_NAND_ADDR = blockAddr 2 := by decide
    rw [eraseRound, haddr, nandEraseBlock_eq (by decide)]
    dsimp only
    split_ifs <;> rfl
  rw [hround, eraseBlock_length]
  split <;> omega

theorem Chip.length_commands (chip : Chip) : chip.commands.length = chip.log.length := List.length_map _

theorem writeLauncher_loop (wear : Wear) (n : Nat) (ram : Ram) (chip : Chip) (size addr : Word) :
    (writeLauncher k9f2g08.nand wear n ram chip size addr).2 =
      (whileLoop transferGoesOn (transferRound k9f2g08.nand Chip.cells
        (writePageFrom k9f2g08.nand wear ram) size) n ⟨chip, LAUNCHER_NAND_ADDR, addr, size, 0⟩).store := by
  have haligned : LAUNCHER_NAND_ADDR &&& (k9f2g08.nand.page_size - 1) = 0 := by decide
  rw [writeLauncher, nandWrite, transfer, if_neg (not_not.mpr haligned)]
  dsimp only
  split <;> rfl

theorem writeLauncher_grows (wear : Wear) (n : Nat) (ram : Ram) (chip : Chip) (size addr : Word) :
    chip.log.length ≤ (writeLauncher k9f2g08.nand wear n ram chip size addr).2.log.length := by
  obtain ⟨new, hnew, -⟩ := transferLoop_commands k9f2g08.nand wear ram size n
    ⟨chip, LAUNCHER_NAND_ADDR, addr, size, 0⟩
  rw [writeLauncher_loop, ← Chip.length_commands, ← Chip.length_commands, hnew, List.length_append]
  exact Nat.le_add_right _ _

theorem storeLauncher_erases (hsize : size.slt 0 = true)
    (hgo : eraseGoesOn LAUNCHER_NAND_ADDR ⟨chip, LAUNCHER_NAND_ADDR, eraseSize k9f2g08.nand size, 0⟩ = true) :
    storeLauncher k9f2g08.nand wear 1 ram chip size addr ≠ chip := by
  have hstart : BlockAligned LAUNCHER_NAND_ADDR := by decide
  have hloop : whileLoop (eraseGoesOn LAUNCHER_NAND_ADDR) (eraseRound k9f2g08.nand wear true) 1
      ⟨chip, LAUNCHER_NAND_ADDR, eraseSize k9f2g08.nand size, 0⟩ =
        eraseRound k9f2g08.nand wear true ⟨chip, LAUNCHER_NAND_ADDR, eraseSize k9f2g08.nand size, 0⟩ := by
    rw [whileLoop_enter hgo, whileLoop_zero]
  have herase := nandErase_loop hstart (eraseSize_aligned hsize) hloop
  have hfirst := eraseRound_first wear chip (eraseSize k9f2g08.nand size)
  generalize eraseRound k9f2g08.nand wear true _ = s at herase hfirst
  intro hsame
  rw [storeLauncher, eraseLauncher, herase] at hsame
  cases hagain : eraseGoesOn LAUNCHER_NAND_ADDR s with
  | true =>
      rw [hagain, if_pos rfl] at hsame
      rw [show s.chip = chip from hsame] at hfirst
      exact Nat.lt_irrefl _ hfirst
  | false =>
      rw [hagain, if_neg Bool.false_ne_true] at hsame
      have hgrows := writeLauncher_grows wear 1 ram s.chip size addr
      rw [show (writeLauncher k9f2g08.nand wear 1 ram s.chip size addr).2 = chip from hsame] at hgrows
      exact Nat.lt_irrefl _ (Nat.lt_of_lt_of_le hfirst hgrows)

def AllBad (cells : Cells) : Prop := ∀ b, isBadBlock k9f2g08.nand cells (blockAddr b) = true

theorem writer_passes_over {n b : Nat} (hpos : size ≠ 0)
    (hbad : ∀ i < n, isBadBlock k9f2g08.nand chip.cells (blockAddr (b + i)) = true) :
    whileLoop transferGoesOn (transferRound k9f2g08.nand Chip.cells (writePageFrom k9f2g08.nand wear ram) size)
      n ⟨chip, blockAddr b, addr, size, 0⟩ = ⟨chip, blockAddr (b + n), addr, size, 0⟩ := by
  have haddr : ∀ i, blockAddr b + BitVec.ofNat 32 (i * k9f2g08.blockSize) = blockAddr (b + i) := by
    intro i
    rw [blockAddr, blockAddr, Nat.add_mul, BitVec.ofNat_add]
    rfl
  have hskips : ∀ i < n, Skips k9f2g08.nand chip.cells (blockAddr b + BitVec.ofNat 32 (i * k9f2g08.blockSize)) := by
    intro i hi
    rw [haddr]
    exact ⟨blockAligned_blockAddr _, hbad i hi⟩
  rw [transferLoop_skips (s := ⟨chip, blockAddr b, addr, size, 0⟩) hpos hskips, haddr]

theorem writer_programs (wear : Wear) (ram : Ram) (size addr : Word) {b : Nat} (hgood : isBadBlock k9f2g08.nand chip.cells (blockAddr b) = false) :
    chip.log.length < (transferRound k9f2g08.nand Chip.cells (writePageFrom k9f2g08.nand wear ram) size
      ⟨chip, blockAddr b, addr, size, 0⟩).store.log.length := by
  rw [transferRound, if_neg (by rw [hgood]; exact fun h => Bool.false_ne_true h.2)]
  dsimp only [writePageFrom]
  obtain ⟨bytes, h⟩ := nandWritePage_chip k9f2g08.nand wear chip (blockAddr b >>> k9f2g08.nand.pageShift)
    (blockAddr b &&& (k9f2g08.nand.page_size - 1)) (ram.at addr)
    (if size ≥ k9f2g08.nand.page_size then k9f2g08.nand.page_size else size % k9f2g08.nand.page_size)
  rw [h, ← Chip.length_commands, ← Chip.length_commands, Chip.commands_program, List.length_append]
  exact Nat.lt_succ_self _

theorem blockAddr_wrap (b : Nat) : blockAddr (2 + (b + 32766)) = blockAddr b := by
  apply BitVec.eq_of_toNat_eq
  rw [blockAddr, blockAddr, BitVec.toNat_ofNat, BitVec.toNat_ofNat]
  omega

theorem writeLauncher_idle_iff (hpos : size ≠ 0) :
    (∀ rounds, (writeLauncher k9f2g08.nand wear rounds ram chip size addr).2 = chip) ↔ AllBad chip.cells := by
  have hstart : LAUNCHER_NAND_ADDR = blockAddr 2 := by decide
  simp only [writeLauncher_loop, hstart]
  constructor
  · intro hidle
    have hbad : ∀ i, isBadBlock k9f2g08.nand chip.cells (blockAddr (2 + i)) = true := by
      intro i
      induction i using Nat.strong_induction_on with
      | _ i ih =>
          by_contra hgood
          rw [Bool.not_eq_true] at hgood
          have hprograms := writer_programs wear ram size addr hgood
          have hsame := hidle (i + 1)
          rw [whileLoop_succ, writer_passes_over hpos ih, if_pos (transferGoesOn_of_left hpos)] at hsame
          rw [hsame] at hprograms
          exact Nat.lt_irrefl _ hprograms
    intro b
    rw [← blockAddr_wrap]
    exact hbad _
  · intro hbad rounds
    rw [writer_passes_over hpos fun i _ => hbad _]

theorem storeLauncher_negative_iff (hsize : size.slt 0 = true) :
    (∀ rounds, storeLauncher k9f2g08.nand wear rounds ram chip size addr = chip) ↔
      (0x20000 ≤ 2 ^ 32 - size.toNat ∧ 2 ^ 32 - size.toNat < 0x80000) ∧ AllBad chip.cells := by
  have hstart : BlockAligned LAUNCHER_NAND_ADDR := by decide
  have hpos : size ≠ 0 := by
    rintro rfl
    exact absurd hsize (by decide)
  by_cases hgo : eraseGoesOn LAUNCHER_NAND_ADDR
      ⟨chip, LAUNCHER_NAND_ADDR, eraseSize k9f2g08.nand size, 0⟩ = true
  · refine ⟨fun h => absurd (h 1) (storeLauncher_erases hsize hgo), fun h => ?_⟩
    exact absurd h.1 ((eraseGoesOn_negative hsize chip).mp hgo)
  · have hrange := not_not.mp ((eraseGoesOn_negative hsize chip).not.mp hgo)
    have hstore : ∀ rounds, storeLauncher k9f2g08.nand wear rounds ram chip size addr =
        (writeLauncher k9f2g08.nand wear rounds ram chip size addr).2 := by
      intro rounds
      rw [Bool.not_eq_true] at hgo
      rw [storeLauncher, eraseLauncher, nandErase_loop hstart (eraseSize_aligned hsize)
        (whileLoop_done hgo rounds), hgo]
      rfl
    simp only [hstore, writeLauncher_idle_iff hpos, hrange, and_self, true_and]

end Negative

/-! Sizes that are not negative -/

section Erasing

variable {wear : Wear} {chip : Chip}

theorem nandEraseBlock_commands (g : Geometry) (wear : Wear) (chip : Chip) (block_num : Word) :
    ∃ new, (nandEraseBlock g.nand wear chip block_num).2.commands = chip.commands ++ new ∧
      ∀ command ∈ new, command.ErasesOrMarks g.nand := by
  have hcolumn : g.pageSize = g.nand.bad_block_offset.toNat := by
    have hlt := g.pageSize_lt
    exact (toNat_ofNat_of_lt (by omega)).symm
  rw [nandEraseBlock]
  dsimp only
  split
  · rw [g.markBadBlock_program, Chip.commands_program, Chip.commands_erase, List.append_assoc]
    exact ⟨_, rfl, by simp [Command.ErasesOrMarks, hcolumn]⟩
  · rw [Chip.commands_erase]
    exact ⟨_, rfl, by simp [Command.ErasesOrMarks]⟩

theorem eraseRound_commands (g : Geometry) (wear : Wear) (skip_bad : Bool) (s : Erasing) :
    ∃ new, (eraseRound g.nand wear skip_bad s).chip.commands = s.chip.commands ++ new ∧
      ∀ command ∈ new, command.ErasesOrMarks g.nand := by
  rw [eraseRound]
  dsimp only
  split_ifs <;> exact nandEraseBlock_commands g wear s.chip _

theorem nandErase_commands (g : Geometry) (wear : Wear) (rounds : Nat) (chip : Chip) (start_addr size : Word)
    (skip_bad : Bool) :
    ∃ new, (nandErase g.nand wear rounds chip start_addr size skip_bad).2.commands = chip.commands ++ new ∧
      ∀ command ∈ new, command.ErasesOrMarks g.nand := by
  have hloop : ∃ new,
      (whileLoop (eraseGoesOn start_addr) (eraseRound g.nand wear skip_bad) rounds
        ⟨chip, start_addr, size, 0⟩).chip.commands = chip.commands ++ new ∧
          ∀ command ∈ new, command.ErasesOrMarks g.nand := by
    refine whileLoop_preserves (P := fun s : Erasing => ∃ new, s.chip.commands = chip.commands ++ new ∧
      ∀ command ∈ new, command.ErasesOrMarks g.nand) ?_ ⟨[], by simp⟩ rounds
    rintro s - ⟨before, hbefore, hall⟩
    obtain ⟨new, hnew, hmore⟩ := eraseRound_commands g wear skip_bad s
    refine ⟨before ++ new, by rw [hnew, hbefore, List.append_assoc], fun command hcommand => ?_⟩
    exact (List.mem_append.mp hcommand).elim (hall command) (hmore command)
  rw [nandErase]
  split
  · exact ⟨[], by simp⟩
  · dsimp only
    split <;> exact hloop

end Erasing

section Writing

variable {g : Geometry} {wear : Wear} {ram : Ram} {size buf : Word} {before : List Command}

structure Sent (g : Geometry) (ram : Ram) (size buf : Word) (before : List Command) (off : Nat)
    (s : Transfer Chip) : Prop where
  left : s.left = BitVec.ofNat 32 (size.toNat - off)
  pointer : s.buf = buf + BitVec.ofNat 32 off
  le : off ≤ size.toNat
  aligned : off < size.toNat → s.addr.toNat % g.pageSize = 0 ∧ off % g.pageSize = 0
  commands : ∃ written, s.store.commands = before ++ written ∧
    written.flatMap Command.sent = (List.range off).map (ram.at buf)

theorem addr_add_mod (g : Geometry) (addr step : Word) (h : addr.toNat % g.pageSize = 0)
    (hstep : g.pageSize ∣ step.toNat) : (addr + step).toNat % g.pageSize = 0 := by
  have hdvd : g.pageSize ∣ 2 ^ 32 := Nat.pow_dvd_pow 2 g.pageShift_lt.le
  rw [BitVec.toNat_add, Nat.mod_mod_of_dvd _ hdvd]
  exact Nat.mod_eq_zero_of_dvd (Nat.dvd_add (Nat.dvd_of_mod_eq_zero h) hstep)

theorem Sent.round (hprogram : ∀ n, wear.program n = none) {off : Nat} {s : Transfer Chip}
    (h : Sent g ram size buf before off s) (hgo : transferGoesOn s = true) :
    ∃ off, Sent g ram size buf before off
      (transferRound g.nand Chip.cells (writePageFrom g.nand wear ram) size s) := by
  have hsize := size.isLt
  have hlt : off < size.toNat := by
    by_contra hge
    rw [transferGoesOn, h.left, show size.toNat - off = 0 by omega] at hgo
    exact absurd hgo (by decide)
  obtain ⟨haddr, hoff⟩ := h.aligned hlt
  rw [transferRound]
  split
  · refine ⟨off, h.left, h.pointer, h.le, fun hlt => ⟨addr_add_mod g _ _ haddr ?_, hoff⟩, h.commands⟩
    rw [g.toNat_block_size, ← g.pagesInBlock_mul]
    exact Nat.dvd_mul_left _ _
  · have hmod : (size.toNat - off) % g.pageSize = size.toNat % g.pageSize := by
      obtain ⟨q, hq⟩ := Nat.dvd_of_mod_eq_zero hoff
      rw [hq, Nat.sub_mul_mod (by omega)]
    have hoffset : s.addr &&& (g.nand.page_size - 1) = 0 := by
      apply BitVec.eq_of_toNat_eq
      show (s.addr &&& (BitVec.ofNat 32 (2 ^ g.pageShift) - 1)).toNat = 0
      rw [toNat_and_mask _ g.pageShift_lt]
      exact haddr
    have hlen : min (size.toNat - off) g.pageSize ≤ g.pageSize := Nat.min_le_right _ _
    have hpage := g.nandWritePage_row wear s.store (s.addr >>> g.nand.pageShift) (ram.at s.buf) hlen
    rw [hprogram] at hpage
    have hleft : size.toNat - off < 2 ^ 32 := by omega
    have hnext := Geometry.nextSize_eq hleft hmod
    rw [← h.left] at hnext
    simp only [hoffset, hnext, writePageFrom, hpage]
    generalize hmin : min (size.toNat - off) g.pageSize = len at hlen
    have hlenle : len ≤ size.toNat - off := hmin ▸ Nat.min_le_left _ _
    refine ⟨off + len, ?_, ?_, by omega, ?_, ?_⟩
    · show s.left - BitVec.ofNat 32 len = _
      rw [h.left, ofNat_sub_ofNat hlenle, Nat.sub_sub]
    · show s.buf + BitVec.ofNat 32 len = _
      rw [h.pointer, BitVec.ofNat_add, BitVec.add_assoc]
    · intro hmore
      have hwhole : len = g.pageSize := by omega
      refine ⟨addr_add_mod g _ _ haddr ?_, by rw [hwhole, Nat.add_mod_right, hoff]⟩
      show g.pageSize ∣ (BitVec.ofNat 32 len).toNat
      rw [toNat_ofNat_of_lt (by omega), hwhole]
    · obtain ⟨written, hwritten, hsent⟩ := h.commands
      have hcommands := (Chip.commands_program wear s.store (address (pageCycles (s.addr >>> g.nand.pageShift)))
        0 ((List.range len).map (ram.at s.buf)))
      rw [hwritten, List.append_assoc] at hcommands
      refine ⟨_, hcommands, ?_⟩
      rw [List.flatMap_append, hsent, List.range_add, List.map_append, List.map_map]
      congr 1
      simp only [List.flatMap_cons, List.flatMap_nil, List.append_nil, Command.sent]
      apply List.map_congr_left
      intro i _
      rw [Ram.at, h.pointer, Function.comp_apply, Ram.at, BitVec.ofNat_add, BitVec.add_assoc]

theorem nandWrite_sends (g : Geometry) (hprogram : ∀ n, wear.program n = none) (ram : Ram) (chip : Chip)
    (start_addr size buf : Word) (n : Nat) :
    ∃ off ≤ size.toNat, ∃ written, (nandWrite g.nand wear n ram chip start_addr size buf).2.commands =
      chip.commands ++ written ∧ written.flatMap Command.sent = (List.range off).map (ram.at buf) := by
  rw [nandWrite, transfer]
  split
  · exact ⟨0, Nat.zero_le _, [], by simp, by simp⟩
  next haligned =>
    have haddr : start_addr.toNat % g.pageSize = 0 := by
      have := congrArg BitVec.toNat (not_not.mp haligned)
      rwa [Geometry.nand, Geometry.pageSize, toNat_and_mask _ g.pageShift_lt] at this
    have hstart : Sent g ram size buf chip.commands 0 ⟨chip, start_addr, buf, size, 0⟩ := by
      refine ⟨?_, (add_ofNat_zero buf).symm, Nat.zero_le _, fun _ => ⟨haddr, Nat.zero_mod _⟩, [], by simp, by simp⟩
      rw [Nat.sub_zero, BitVec.ofNat_toNat, BitVec.setWidth_eq]
    obtain ⟨off, hoff⟩ := whileLoop_preserves (P := fun s => ∃ off, Sent g ram size buf chip.commands off s)
      (fun s hgo hoff => hoff.elim fun off h => h.round hprogram hgo) ⟨0, hstart⟩ n
    obtain ⟨written, hwritten, hsent⟩ := hoff.commands
    refine ⟨off, hoff.le, written, ?_, hsent⟩
    rw [← hwritten]
    dsimp only
    split <;> rfl

end Writing

section Safe

variable {wear : Wear} {ram : Ram} {chip : Chip} {textBase size : Word} {input : List Byte}

theorem written_received (hprogram : ∀ n, wear.program n = none) (hlen : input.length < 2 ^ 31)
    (hreturned : (xmodemRecv ram textBase input).point = .returned size) (hpos : size.slt 0 = false)
    (chip : Chip) (rounds : Nat) :
    ∃ written, (writeLauncher k9f2g08.nand wear rounds (xmodemRecv ram textBase input).ram chip size
        textBase).2.commands = chip.commands ++ written ∧ (written.flatMap Command.sent).Sublist input := by
  obtain ⟨payload, pending, hstoring⟩ := Receiver.storing_xmodemRecv ram textBase input
  obtain ⟨hle, -⟩ := hstoring.returned (Receiver.returns_xmodemRecv ram textBase input) hreturned hpos hlen
  obtain ⟨off, hoff, written, hwritten, hsent⟩ := nandWrite_sends k9f2g08 hprogram
    (xmodemRecv ram textBase input).ram chip LAUNCHER_NAND_ADDR size textBase rounds
  refine ⟨written, hwritten, ?_⟩
  have hbytes : (List.range off).map ((xmodemRecv ram textBase input).ram.at textBase) = payload.take off := by
    apply List.ext_getElem
    · simp only [List.length_map, List.length_range, List.length_take]
      omega
    · intro i hi _
      have hi : i < payload.length := by
        simp only [List.length_map, List.length_range] at hi
        omega
      rw [List.getElem_map, List.getElem_range, List.getElem_take, Ram.at]
      exact (hstoring.holds (by omega)).initial i hi
  rw [hsent, hbytes]
  exact ((List.take_sublist _ _).trans (List.sublist_append_left payload pending)).trans hstoring.received

/-- A download is safe unless `xmodem_recv` returns a negative value. A few negative
values do no harm, on a chip without a good block: they give an empty range to erase. -/
theorem downloadSafe_iff (hprogram : ∀ n, wear.program n = none) (hlen : input.length < 2 ^ 31) :
    DownloadSafe k9f2g08.nand wear ram chip textBase input ↔
      ∀ size, (xmodemRecv ram textBase input).point = .returned size → size.slt 0 = true →
        (0x20000 ≤ 2 ^ 32 - size.toNat ∧ 2 ^ 32 - size.toNat < 0x80000) ∧ AllBad chip.cells := by
  constructor
  · intro h size hreturned hneg
    have hkept := (h size hreturned).1 hneg
    simp only [dbgMode_returned hreturned] at hkept
    exact (storeLauncher_negative_iff hneg).mp hkept
  · intro h size hreturned
    simp only [dbgMode_returned hreturned]
    refine ⟨fun hneg => (storeLauncher_negative_iff hneg).mpr (h size hreturned hneg), ?_⟩
    intro hpos rounds ret erased herase
    obtain ⟨erasing, herasing, hmarks⟩ := nandErase_commands k9f2g08 wear rounds chip LAUNCHER_NAND_ADDR
      (eraseSize k9f2g08.nand size) true
    rw [← eraseLauncher, herase] at herasing
    rw [storeLauncher, herase]
    cases ret with
    | none => exact ⟨erasing, [], herasing, (List.append_nil _).symm, hmarks, List.nil_sublist _⟩
    | some ret =>
        obtain ⟨written, hwritten, hsent⟩ := written_received hprogram hlen hreturned hpos erased rounds
        exact ⟨erasing, written, herasing, hwritten, hmarks, hsent⟩

/-- One block with three bytes of padding, sent to a board on which the launcher's first
block does not erase. -/
theorem downloadSafe_one_block :
    DownloadSafe k9f2g08.nand launcherBlockFails (fun _ => 0) ⟨erased, []⟩ 0x33000000
      (Packet.bytes .padded ++ [Xmodem.EOT]) := by
  refine (downloadSafe_iff (fun _ => rfl) (by decide +kernel)).mpr fun size hreturned hneg => ?_
  have hsize : (xmodemRecv (fun _ => 0) 0x33000000 (Packet.bytes .padded ++ [Xmodem.EOT])).point =
      .returned 125 := by decide +kernel
  rw [hsize, Xmodem.Point.returned.injEq] at hreturned
  rw [← hreturned] at hneg
  exact absurd hneg (by decide)

/-- The sender cancels its transfer at once, and the launcher's first block is erased. -/
theorem cancelled_download_erases :
    ¬ DownloadSafe k9f2g08.nand .healthy (fun _ => 0) ⟨erased, []⟩ 0x33000000 [Xmodem.CAN] := by
  intro h
  have hreturned : (xmodemRecv (fun _ => 0) 0x33000000 [Xmodem.CAN]).point = .returned failure := by decide
  have hkept := (h failure hreturned).1 (by decide) 1
  rw [dbgMode_returned hreturned] at hkept
  exact storeLauncher_erases (by decide) (by decide) hkept

end Safe

end Fl2440.MyBoot
