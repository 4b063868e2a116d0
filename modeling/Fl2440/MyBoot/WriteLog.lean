import Fl2440.MyBoot.RoundTrip

/-! The commands that `nand_write` issues, also on a chip that fails to program.
Up to its first failure the writer keeps to the pieces of the transfer. -/
namespace Fl2440.MyBoot

open Fl2440.Lib

section Log

variable {nand : BootNand} {wear : Wear} {ram : Ram} {size : Word}

theorem nandWritePage_chip (nand : BootNand) (wear : Wear) (chip : Chip) (page_num offset : Word)
    (data : Mem) (size : Word) : ∃ bytes : Word, (nandWritePage nand wear chip page_num offset data size).2 =
      (chip.program wear (address (pageCycles page_num)) (startColumn nand offset size)
        ((List.range bytes.toNat).map data)).2 := by
  rw [nandWritePage]
  dsimp only
  generalize (if nand.page_size + nand.spare_size - offset > size then size
    else nand.page_size + nand.spare_size - offset) = bytes
  refine ⟨bytes, ?_⟩
  split <;> rfl

theorem transferRound_commands (s : Transfer Chip) :
    ∃ new, (transferRound nand Chip.cells (writePageFrom nand wear ram) size s).store.commands =
      s.store.commands ++ new ∧ ∀ command ∈ new, command.isErase = false := by
  rw [transferRound]
  split
  · exact ⟨[], by simp, by simp⟩
  · obtain ⟨bytes, h⟩ := nandWritePage_chip nand wear s.store
      (s.addr >>> nand.pageShift) (s.addr &&& (nand.page_size - 1)) (ram.at s.buf)
      (if s.left ≥ nand.page_size then nand.page_size else size % nand.page_size)
    exact ⟨_, (congrArg Chip.commands h).trans (Chip.commands_program _ _ _ _ _),
      by simp [Command.isErase]⟩

theorem transferLoop_commands (nand : BootNand) (wear : Wear) (ram : Ram) (size : Word) (n : Nat)
    (s : Transfer Chip) :
    ∃ new, (whileLoop transferGoesOn (transferRound nand Chip.cells (writePageFrom nand wear ram) size) n
      s).store.commands = s.store.commands ++ new ∧ ∀ command ∈ new, command.isErase = false := by
  refine whileLoop_preserves (P := fun t : Transfer Chip => ∃ new, t.store.commands =
    s.store.commands ++ new ∧ ∀ command ∈ new, command.isErase = false) ?_ ⟨[], by simp, by simp⟩ n
  rintro t - ⟨new, hnew, hprogram⟩
  obtain ⟨more, hmore, hprogram'⟩ := transferRound_commands t
  refine ⟨new ++ more, by rw [hmore, hnew, List.append_assoc], ?_⟩
  intro command hcommand
  rcases List.mem_append.mp hcommand with h | h
  · exact hprogram command h
  · exact hprogram' command h

end Log

/-- Program commands go through the pieces in order, as long as they pass. -/
def Follows (data : Piece → List Byte) : List Piece → List Command → Prop
  | _, [] => True
  | [], _ :: _ => False
  | piece :: list, command :: later =>
      (∃ passed, command = .program piece.unit 0 (data piece) passed) ∧
        (command.passed = true → Follows data list later)

theorem Follows.nil (data : Piece → List Byte) (list : List Piece) : Follows data list [] := by
  cases list <;> trivial

theorem Follows.piece {data : Piece → List Byte} {list : List Piece} {before after : List Command}
    {command : Command} (h : Follows data list (before ++ command :: after))
    (hpassed : ∀ earlier ∈ before, earlier.passed = true) :
    ∃ piece ∈ list, ∃ passed, command = .program piece.unit 0 (data piece) passed := by
  induction before generalizing list with
  | nil =>
      cases list with
      | nil => exact h.elim
      | cons piece list => exact ⟨piece, List.mem_cons_self, h.1⟩
  | cons first before ih =>
      cases list with
      | nil => exact h.elim
      | cons piece list =>
          obtain ⟨piece', hmem, hcommand⟩ := ih (h.2 (hpassed first List.mem_cons_self))
            fun earlier hearlier => hpassed earlier (List.mem_cons_of_mem _ hearlier)
          exact ⟨piece', List.mem_cons_of_mem _ hmem, hcommand⟩

section Writer

variable {g : Geometry} {wear : Wear} {ram : Ram} {chip : Chip} {size buf : Word}
  {flag : Nat → Bool} {start p left : Nat}

theorem transferLoop_follows (bytes : Word) (off n : Nat)
    (hflag : ∀ block < g.blocks, g.bad chip.cells block = flag block) (hst : g.Standing flag start p)
    (hleft : left < 2 ^ 32) (hsize : left % g.pageSize = size.toNat % g.pageSize)
    (hroom : left ≤ (g.track flag start p).length * g.pageSize) :
    ∃ new, (whileLoop transferGoesOn (transferRound g.nand Chip.cells (writePageFrom g.nand wear ram) size)
        n (g.cursor chip buf p off left bytes)).store.commands = chip.commands ++ new ∧
      Follows (ram.piece buf) (pieces g.pageSize (g.track flag start p) off left) new := by
  induction n generalizing p off left bytes chip with
  | zero => exact ⟨[], (List.append_nil _).symm, .nil _ _⟩
  | succ n ih =>
      rcases Nat.eq_zero_or_pos left with rfl | hpos
      · refine ⟨[], ?_, .nil _ _⟩
        rw [whileLoop_done (by rw [Geometry.transferGoesOn_cursor hleft]; rfl), List.append_nil]
        rfl
      · have hp : p < g.pages := by
          apply Geometry.lt_pages_of_track flag start
          intro hnil
          rw [hnil] at hroom
          simp at hroom
          omega
        rw [whileLoop_enter (by rw [Geometry.transferGoesOn_cursor hleft]; exact decide_eq_true hpos)]
        have hmark := hflag _ (g.div_lt_blocks hp)
        rcases hst.cases with ⟨hdvd, hbad⟩ | ⟨htest, hv⟩
        · rw [Geometry.transferRound_skip hp hdvd (hmark.trans hbad),
            Geometry.track_skip hp hdvd hst.1 hbad]
          rw [Geometry.track_skip hp hdvd hst.1 hbad] at hroom
          exact ih bytes off hflag (hst.skip hdvd) hleft hsize hroom
        · have hlen : min left g.pageSize ≤ g.pageSize := Nat.min_le_right _ _
          have hpage := writePageFrom_main g wear ram buf chip ⟨p, off, min left g.pageSize⟩ hp hlen
          have hcommands := writePiece_commands wear ram buf chip ⟨p, off, min left g.pageSize⟩
          rw [← hmark] at htest
          rw [Geometry.transferRound_page hp hleft htest hsize hpage, Geometry.track_cons hp hv,
            pieces_cons hpos]
          rw [Geometry.track_cons hp hv, List.length_cons, Nat.add_mul, Nat.one_mul] at hroom
          cases hprogram : wear.program chip.log.length with
          | some junk =>
              obtain ⟨new, hnew, -⟩ := transferLoop_commands g.nand wear ram size n _
              rw [hnew, hcommands, hprogram, List.append_assoc]
              exact ⟨_, rfl, ⟨_, rfl⟩, fun h => nomatch h⟩
          | none =>
              simp only [Option.isSome_none, Bool.false_eq_true, if_false]
              rcases Nat.lt_or_ge left g.pageSize with hlt | hge
              · -- the last piece leaves the loop in the middle of a page
                have hmin : min left g.pageSize = left := Nat.min_eq_left hlt.le
                rw [hmin] at hcommands ⊢
                rw [whileLoop_done (by simp [transferGoesOn]), hcommands]
                exact ⟨_, rfl, ⟨_, rfl⟩, fun _ => .nil _ _⟩
              · rw [Geometry.cursor_next hge]
                have hmin : min left g.pageSize = g.pageSize := Nat.min_eq_right hge
                rw [hmin] at hcommands ⊢
                have hbad : ∀ block < g.blocks,
                    g.bad (writePiece wear ram buf chip ⟨p, off, g.pageSize⟩).cells block = flag block :=
                  fun block hblock =>
                    (writePiece_bad g ram buf hprogram le_rfl block).trans (hflag block hblock)
                have hrest : (left - g.pageSize) % g.pageSize = size.toNat % g.pageSize := by
                  rw [← hsize, Nat.mod_eq_sub_mod hge]
                obtain ⟨new, hnew, hfollows⟩ := ih _ (off + g.pageSize) hbad (hst.next hv) (by omega) hrest
                  (by omega)
                rw [hnew, hcommands, List.append_assoc]
                exact ⟨_, rfl, ⟨_, rfl⟩, fun _ => hfollows⟩

theorem nandWrite_follows (g : Geometry) (wear : Wear) (ram : Ram) (chip : Chip) {start_addr size : Word}
    (buf : Word) (haligned : start_addr &&& (g.nand.page_size - 1) = 0)
    (hroom : unitsFor g.pageSize size.toNat ≤ (g.usablePages chip.cells start_addr).length) (n : Nat) :
    ∃ new, (nandWrite g.nand wear n ram chip start_addr size buf).2.commands = chip.commands ++ new ∧
      Follows (ram.piece buf) (g.targetPieces chip.cells start_addr size) new := by
  have hsize : size.toNat % g.pageSize = size.toNat % g.pageSize := rfl
  obtain ⟨new, hnew, hfollows⟩ := transferLoop_follows 0 0 n (fun _ _ => rfl)
    (g.standing_start (g.bad chip.cells) (g.firstPage start_addr)) size.isLt hsize
    ((unitsFor_le_iff g.pageSize_pos).mp hroom)
  refine ⟨new, ?_, hfollows⟩
  rw [nandWrite, transfer, if_neg (not_not.mpr haligned), Geometry.cursor_start haligned, ← hnew]
  dsimp only
  split <;> rfl

end Writer

end Fl2440.MyBoot
