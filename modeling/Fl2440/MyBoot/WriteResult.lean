import Fl2440.MyBoot.Download

/-! What `nand_write` and `nand_read` return. It is what the last page access
returned, and a failed one adds -1 to the length that is left. -/
namespace Fl2440.MyBoot

open Fl2440.Lib

def ReturnsSize (run : Nat → Option Word) (size : Word) : Prop := ∃ rounds, ∀ n ≥ rounds, run n = some size

/-- The promise of the two header comments. A failed program command is the last one, and
the result is negative; without one both functions return the size, whatever is read from
a chip with the same bad blocks. -/
def KeepsCount (g : Geometry) (wear : Wear) (ram : Ram) (chip : Chip) (start_addr size buf : Word) : Prop :=
  ∃ rounds, ∀ n ≥ rounds, ∃ ret chip' new, nandWrite g.nand wear n ram chip start_addr size buf = (some ret, chip') ∧
    chip'.commands = chip.commands ++ new ∧
    (∀ past command future, new = past ++ command :: future → command.passed = false →
      ret.slt 0 = true ∧ future = []) ∧
    ((∀ command ∈ new, command.passed = true) → ret = size ∧
      ∀ cells, (∀ addr, isBadBlock g.nand cells addr = isBadBlock g.nand chip.cells addr) →
        ∀ ram into, ReturnsSize (fun n => (nandRead g.nand cells n ram start_addr size into).1) size)

def FindsPage (g : Geometry) (cells : Cells) (start_addr : Word) : Prop :=
  ∃ k, ¬ Skips g.nand cells (start_addr + BitVec.ofNat 32 (k * g.blockSize))

/-- One page access at most, which passes; or a first one that fails and makes 0 of
the length, 2^32 - 1. -/
def OneAccess (g : Geometry) (wear : Wear) (chip : Chip) (start_addr size : Word) : Prop :=
  size = 0 ∨ FindsPage g chip.cells start_addr ∧
    (size ≤ g.nand.page_size ∧ wear.program chip.log.length = none ∨
      size = -1 ∧ (wear.program chip.log.length).isSome)

section Rounds

variable {g : Geometry} {cells : α → Cells} {page : α → Word → Word → Word → Word → Word × α} {size : Word}

/-- The address is that of a page, and the length left ends in the same page as the whole one. -/
structure OnPage (g : Geometry) (size : Word) (s : Transfer α) : Prop where
  aligned : s.addr.toNat % g.pageSize = 0
  rest : s.left.toNat % g.pageSize = size.toNat % g.pageSize

theorem onPage_start (store : α) {start_addr : Word} (buf size bytes : Word)
    (haligned : start_addr &&& (g.nand.page_size - 1) = 0) :
    OnPage g size (⟨store, start_addr, buf, size, bytes⟩ : Transfer α) := by
  refine ⟨?_, rfl⟩
  have hmask := congrArg BitVec.toNat haligned
  rwa [Geometry.nand, Geometry.pageSize, toNat_and_mask _ g.pageShift_lt] at hmask

theorem OnPage.skip {s : Transfer α} (h : OnPage g size s) :
    OnPage g size { s with addr := s.addr + g.nand.block_size } := by
  refine ⟨addr_add_mod g _ _ h.aligned ?_, h.rest⟩
  rw [g.toNat_block_size, ← g.pagesInBlock_mul]
  exact Nat.dvd_mul_left _ _

theorem OnPage.access {s : Transfer α} (h : OnPage g size s) (hpage : ¬ Skips g.nand (cells s.store) s.addr) :
    transferRound g.nand cells page size s =
      let (bytes, store) := page s.store (s.addr >>> g.nand.pageShift) 0 s.buf
        (BitVec.ofNat 32 (min s.left.toNat g.pageSize))
      { store, bytes, addr := s.addr + bytes, buf := s.buf + bytes, left := s.left - bytes } := by
  have hoffset : s.addr &&& (g.nand.page_size - 1) = 0 := by
    apply BitVec.eq_of_toNat_eq
    show (s.addr &&& (BitVec.ofNat 32 (2 ^ g.pageShift) - 1)).toNat = 0
    rw [toNat_and_mask _ g.pageShift_lt]
    exact h.aligned
  have hnext := Geometry.nextSize_eq s.left.isLt h.rest
  rw [BitVec.ofNat_toNat, BitVec.setWidth_eq] at hnext
  rw [Skips] at hpage
  rw [transferRound, if_neg hpage]
  simp only [hoffset, hnext]

theorem OnPage.moved {s : Transfer α} (h : OnPage g size s) (k : Nat) :
    OnPage g size { s with addr := s.addr + BitVec.ofNat 32 (k * g.blockSize) } := by
  induction k with
  | zero => simpa using h
  | succ k ih =>
      have hskip := ih.skip
      rw [BitVec.add_assoc, Geometry.nand, ← BitVec.ofNat_add, ← Nat.succ_mul] at hskip
      exact hskip

theorem OnPage.next {s t : Transfer α} (h : OnPage g size s)
    (haddr : t.addr = s.addr + BitVec.ofNat 32 (min s.left.toNat g.pageSize))
    (hleft : t.left = s.left - BitVec.ofNat 32 (min s.left.toNat g.pageSize)) :
    t.left.toNat = s.left.toNat - g.pageSize ∧ (t.left ≠ 0 → OnPage g size t) := by
  have hlen := s.left.isLt
  have hsize := g.pageSize_lt
  have hmin : min s.left.toNat g.pageSize ≤ s.left.toNat := Nat.min_le_left _ _
  have hnat : t.left.toNat = s.left.toNat - g.pageSize := by
    rw [hleft, BitVec.toNat_sub_of_le, toNat_ofNat_of_lt (by omega)]
    · omega
    · rw [BitVec.le_def, toNat_ofNat_of_lt (by omega)]
      exact hmin
  refine ⟨hnat, fun hne => ?_⟩
  have hpos : t.left.toNat ≠ 0 := fun h0 => hne (BitVec.eq_of_toNat_eq h0)
  have hwhole : min s.left.toNat g.pageSize = g.pageSize := Nat.min_eq_right (by omega)
  refine ⟨?_, ?_⟩
  · rw [haddr, hwhole]
    apply addr_add_mod g _ _ h.aligned
    rw [toNat_ofNat_of_lt (by omega)]
  · rw [hnat, ← h.rest, Nat.mod_eq_sub_mod (by omega : g.pageSize ≤ s.left.toNat)]

theorem transfer_one {store : α} {start_addr buf : Word} (haligned : start_addr &&& (g.nand.page_size - 1) = 0)
    (hsize : size ≠ 0) {k : Nat}
    (hskips : ∀ i < k, Skips g.nand (cells store) (start_addr + BitVec.ofNat 32 (i * g.blockSize)))
    (hpage : ¬ Skips g.nand (cells store) (start_addr + BitVec.ofNat 32 (k * g.blockSize)))
    (haccess : (page store ((start_addr + BitVec.ofNat 32 (k * g.blockSize)) >>> g.nand.pageShift) 0 buf
      (BitVec.ofNat 32 (min size.toNat g.pageSize))).1 = size) {n : Nat} (hn : k + 1 ≤ n) :
    transfer g.nand cells page n store start_addr size buf =
      (some size, (page store ((start_addr + BitVec.ofNat 32 (k * g.blockSize)) >>> g.nand.pageShift) 0 buf
        (BitVec.ofNat 32 (min size.toNat g.pageSize))).2) := by
  generalize hpiece : page store ((start_addr + BitVec.ofNat 32 (k * g.blockSize)) >>> g.nand.pageShift) 0 buf
    (BitVec.ofNat 32 (min size.toNat g.pageSize)) = access at haccess ⊢
  obtain ⟨bytes, store'⟩ := access
  change bytes = size at haccess
  obtain ⟨m, rfl⟩ := Nat.exists_eq_add_of_le hn
  have hmoved := (onPage_start store buf size 0 haligned).moved k
  have hgo : transferGoesOn (⟨store, start_addr + BitVec.ofNat 32 (k * g.blockSize), buf, size, 0⟩ : Transfer α) =
      true := transferGoesOn_of_left hsize
  have hloop : whileLoop transferGoesOn (transferRound g.nand cells page size) (k + 1)
      ⟨store, start_addr, buf, size, 0⟩ =
        ⟨store', start_addr + BitVec.ofNat 32 (k * g.blockSize) + size, buf + size, 0, size⟩ := by
    rw [whileLoop_succ, transferLoop_skips (s := ⟨store, start_addr, buf, size, 0⟩) hsize hskips, if_pos hgo,
      hmoved.access hpage, hpiece, haccess]
    simp
  have hdone : transferGoesOn (⟨store', start_addr + BitVec.ofNat 32 (k * g.blockSize) + size, buf + size, 0, size⟩ :
      Transfer α) = false := rfl
  rw [transfer, if_neg (not_not.mpr haligned), whileLoop_add, hloop, whileLoop_done hdone]
  rfl

theorem transfer_ends {store store' : α} {start_addr buf ret : Word} {n : Nat}
    (haligned : start_addr &&& (g.nand.page_size - 1) = 0)
    (h : transfer g.nand cells page n store start_addr size buf = (some ret, store')) :
    let s := whileLoop transferGoesOn (transferRound g.nand cells page size) n ⟨store, start_addr, buf, size, 0⟩
    s.left = 0 ∧ s.bytes = ret ∧ s.store = store' := by
  rw [transfer, if_neg (not_not.mpr haligned)] at h
  dsimp only at h ⊢
  split at h
  next => cases h
  next hdone =>
    cases h
    refine ⟨?_, rfl, rfl⟩
    by_contra hleft
    exact hdone (transferGoesOn_of_left hleft)

theorem transfer_empty {store : α} {start_addr buf : Word} (haligned : start_addr &&& (g.nand.page_size - 1) = 0)
    (n : Nat) : transfer g.nand cells page n store start_addr 0 buf = (some 0, store) := by
  have hdone : transferGoesOn (⟨store, start_addr, buf, 0, 0⟩ : Transfer α) = false := rfl
  rw [transfer, if_neg (not_not.mpr haligned), whileLoop_done hdone]
  rfl

end Rounds

/-! The writer -/

section Writer

variable {g : Geometry} {wear : Wear} {ram : Ram} {size : Word} {s : Transfer Chip}

def writeRound (g : Geometry) (wear : Wear) (ram : Ram) (size : Word) : Transfer Chip → Transfer Chip :=
  transferRound g.nand Chip.cells (writePageFrom g.nand wear ram) size

theorem OnPage.write (h : OnPage g size s) (hpage : ¬ Skips g.nand s.store.cells s.addr) :
    ∃ row data, writeRound g wear ram size s =
      let bytes := if (wear.program s.store.log.length).isSome then failure
        else BitVec.ofNat 32 (min s.left.toNat g.pageSize)
      ⟨(s.store.program wear row 0 data).2, s.addr + bytes, s.buf + bytes, s.left - bytes, bytes⟩ := by
  have hlen : min s.left.toNat g.pageSize ≤ g.pageSize := Nat.min_le_right _ _
  refine ⟨address (pageCycles (s.addr >>> g.nand.pageShift)),
    (List.range (min s.left.toNat g.pageSize)).map (ram.at s.buf), ?_⟩
  rw [writeRound, h.access hpage, writePageFrom, g.nandWritePage_row wear s.store _ _ hlen]

theorem OnPage.write_fails (ram : Ram) (h : OnPage g size s) (hpage : ¬ Skips g.nand s.store.cells s.addr)
    (hfails : (wear.program s.store.log.length).isSome = true) :
    ∃ command, (writeRound g wear ram size s).store.commands = s.store.commands ++ [command] ∧
      command.passed = false ∧ (writeRound g wear ram size s).left = s.left + 1 ∧
      (writeRound g wear ram size s).bytes = failure := by
  obtain ⟨row, data, hround⟩ := h.write hpage
  rw [hfails, if_pos rfl] at hround
  have hcommands := Chip.commands_program wear s.store row 0 data
  rw [← Option.not_isSome, hfails] at hcommands
  rw [hround]
  exact ⟨_, hcommands, rfl, BitVec.sub_neg (x := s.left) (y := 1), rfl⟩

theorem OnPage.write_passes (ram : Ram) (h : OnPage g size s) (hpage : ¬ Skips g.nand s.store.cells s.addr)
    (hpasses : wear.program s.store.log.length = none) :
    ∃ command, (writeRound g wear ram size s).store.commands = s.store.commands ++ [command] ∧
      command.passed = true ∧
      (writeRound g wear ram size s).bytes = BitVec.ofNat 32 (min s.left.toNat g.pageSize) ∧
      (writeRound g wear ram size s).left.toNat = s.left.toNat - g.pageSize ∧
      ((writeRound g wear ram size s).left ≠ 0 → OnPage g size (writeRound g wear ram size s)) := by
  obtain ⟨row, data, hround⟩ := h.write hpage
  rw [hpasses, Option.isSome_none, if_neg Bool.false_ne_true] at hround
  have hcommands := Chip.commands_program wear s.store row 0 data
  rw [hpasses] at hcommands
  rw [hround]
  have hnext := h.next (t := ⟨(s.store.program wear row 0 data).2,
    s.addr + BitVec.ofNat 32 (min s.left.toNat g.pageSize), s.buf + BitVec.ofNat 32 (min s.left.toNat g.pageSize),
    s.left - BitVec.ofNat 32 (min s.left.toNat g.pageSize), BitVec.ofNat 32 (min s.left.toNat g.pageSize)⟩) rfl rfl
  exact ⟨_, hcommands, rfl, rfl, hnext⟩

theorem writeLoop_issues {n : Nat} (hleft : s.left ≠ 0)
    (hends : (whileLoop transferGoesOn (writeRound g wear ram size) n s).left = 0) :
    ∃ command more, (whileLoop transferGoesOn (writeRound g wear ram size) n s).store.commands =
      s.store.commands ++ command :: more := by
  induction n generalizing s with
  | zero => exact absurd hends hleft
  | succ n ih =>
      rw [whileLoop_enter (transferGoesOn_of_left hleft)] at hends ⊢
      by_cases hskip : Skips g.nand s.store.cells s.addr
      · have hround : writeRound g wear ram size s = { s with addr := s.addr + g.nand.block_size } :=
          transferRound_skips s hskip
        rw [hround] at hends ⊢
        exact ih hleft hends
      · obtain ⟨bytes, hpage⟩ := nandWritePage_chip g.nand wear s.store
          (s.addr >>> g.nand.pageShift) (s.addr &&& (g.nand.page_size - 1)) (ram.at s.buf)
          (if s.left ≥ g.nand.page_size then g.nand.page_size else size % g.nand.page_size)
        have hround : (writeRound g wear ram size s).store = (nandWritePage g.nand wear s.store
            (s.addr >>> g.nand.pageShift) (s.addr &&& (g.nand.page_size - 1)) (ram.at s.buf)
            (if s.left ≥ g.nand.page_size then g.nand.page_size else size % g.nand.page_size)).2 := by
          rw [Skips] at hskip
          rw [writeRound, transferRound, if_neg hskip]
          rfl
        obtain ⟨more, hmore, -⟩ := transferLoop_commands g.nand wear ram size n (writeRound g wear ram size s)
        rw [hround, hpage, Chip.commands_program, List.append_assoc] at hmore
        exact ⟨_, _, hmore⟩

theorem writeLoop_ends {n : Nat} (h : s.left ≠ 0 → OnPage g size s) (hlast : s.left.toNat + 1 < 2 ^ 32)
    (hends : (whileLoop transferGoesOn (writeRound g wear ram size) n s).left = 0) :
    ∃ new, (whileLoop transferGoesOn (writeRound g wear ram size) n s).store.commands = s.store.commands ++ new ∧
      ((∀ command ∈ new, command.passed = true) ∧
          ((whileLoop transferGoesOn (writeRound g wear ram size) n s).bytes = s.bytes ∨
            (whileLoop transferGoesOn (writeRound g wear ram size) n s).bytes ≤ g.nand.page_size) ∨
        ∃ past command next future, new = past ++ command :: next :: future ∧ command.passed = false) := by
  induction n generalizing s with
  | zero => exact ⟨[], by simp⟩
  | succ n ih =>
      by_cases hleft : s.left = 0
      · rw [whileLoop_done (by rw [transferGoesOn, hleft]; rfl)]
        exact ⟨[], by simp⟩
      have hpage := h hleft
      rw [whileLoop_enter (transferGoesOn_of_left hleft)] at hends ⊢
      by_cases hskip : Skips g.nand s.store.cells s.addr
      · have hround : writeRound g wear ram size s = { s with addr := s.addr + g.nand.block_size } :=
          transferRound_skips s hskip
        rw [hround] at hends ⊢
        exact ih (fun _ => hpage.skip) hlast hends
      cases hprogram : wear.program s.store.log.length with
      | some junk =>
          obtain ⟨command, hcommands, hfailed, hmore, -⟩ := hpage.write_fails ram hskip
            (by rw [hprogram]; rfl)
          have hnonzero : (writeRound g wear ram size s).left ≠ 0 := by
            rw [hmore]
            intro h0
            have hnat := congrArg BitVec.toNat h0
            rw [BitVec.toNat_add, show (1 : Word).toNat = 1 from rfl, Nat.mod_eq_of_lt hlast] at hnat
            exact absurd hnat (Nat.succ_ne_zero _)
          obtain ⟨next, future, hlater⟩ := writeLoop_issues hnonzero hends
          rw [hcommands, List.append_assoc] at hlater
          exact ⟨_, hlater, .inr ⟨[], command, next, future, rfl, hfailed⟩⟩
      | none =>
          obtain ⟨command, hcommands, hpassed, hbytes, hrest, hnext⟩ := hpage.write_passes ram hskip hprogram
          obtain ⟨new, hnew, hcases⟩ := ih hnext (by omega) hends
          rw [hcommands, List.append_assoc] at hnew
          refine ⟨_, hnew, hcases.imp ?_ ?_⟩
          · rintro ⟨hall, hreturned⟩
            refine ⟨fun one hone => ?_, .inr ?_⟩
            · rcases List.mem_cons.mp hone with rfl | hone
              · exact hpassed
              · exact hall one hone
            · rcases hreturned with hsame | hle
              · have hsize := g.pageSize_lt
                rw [hsame, hbytes, BitVec.le_def, g.toNat_page_size, toNat_ofNat_of_lt (by omega)]
                exact Nat.min_le_right _ _
              · exact hle
          · rintro ⟨past, failed, next, future, rfl, hfailed⟩
            exact ⟨command :: past, failed, next, future, rfl, hfailed⟩

end Writer

section Result

variable {g : Geometry} {wear : Wear} {ram : Ram} {chip : Chip} {start_addr size buf : Word}

theorem KeepsCount.findsPage (haligned : start_addr &&& (g.nand.page_size - 1) = 0) (hsize : size ≠ 0)
    (h : KeepsCount g wear ram chip start_addr size buf) : FindsPage g chip.cells start_addr := by
  obtain ⟨rounds, h⟩ := h
  obtain ⟨ret, chip', new, hrun, -⟩ := h rounds le_rfl
  by_contra hnone
  have hall : ∀ i < rounds, Skips g.nand chip.cells (start_addr + BitVec.ofNat 32 (i * g.blockSize)) :=
    fun i _ => not_not.mp fun hpage => hnone ⟨i, hpage⟩
  have hends := (transfer_ends haligned hrun).1
  rw [transferLoop_skips (s := ⟨chip, start_addr, buf, size, 0⟩) hsize hall] at hends
  exact hsize hends

theorem KeepsCount.oneAccess (haligned : start_addr &&& (g.nand.page_size - 1) = 0)
    (h : KeepsCount g wear ram chip start_addr size buf) : OneAccess g wear chip start_addr size := by
  by_cases hsize : size = 0
  · exact .inl hsize
  have hfinds := h.findsPage haligned hsize
  refine .inr ⟨hfinds, ?_⟩
  have hskips := fun i hi => not_not.mp (Nat.find_min hfinds (m := i) hi)
  have hpage := Nat.find_spec hfinds
  generalize Nat.find hfinds = k at hskips hpage
  obtain ⟨rounds, h⟩ := h
  obtain ⟨ret, chip', new, hrun, hnew, hfailed, hpassed⟩ := h (k + 1 + rounds) (Nat.le_add_left _ _)
  have hmoved : OnPage g size ⟨chip, start_addr + BitVec.ofNat 32 (k * g.blockSize), buf, size, 0⟩ :=
    (onPage_start _ _ _ _ haligned).moved k
  have hgo : transferGoesOn (⟨chip, start_addr + BitVec.ofNat 32 (k * g.blockSize), buf, size, 0⟩ : Transfer Chip) =
      true := transferGoesOn_of_left hsize
  obtain ⟨hends, hret, hchip⟩ := transfer_ends haligned hrun
  rw [whileLoop_add, whileLoop_succ, transferLoop_skips (s := ⟨chip, start_addr, buf, size, 0⟩) hsize hskips,
    if_pos hgo] at hends hret hchip
  cases hprogram : wear.program chip.log.length with
  | some junk =>
      refine .inr ⟨?_, rfl⟩
      obtain ⟨command, hcommands, hfails, hleft, -⟩ := hmoved.write_fails ram hpage (by rw [hprogram]; rfl)
      by_contra hshort
      have hnonzero : size + 1 ≠ 0 := fun h0 => hshort <| by
        rw [← BitVec.add_sub_cancel size 1, h0]
        rfl
      obtain ⟨next, future, hlater⟩ := writeLoop_issues (hleft ▸ hnonzero) hends
      have hcommands' : chip'.commands = chip.commands ++ command :: next :: future := by
        rw [← hchip]
        exact hlater.trans ((congrArg (· ++ next :: future) hcommands).trans (List.append_assoc _ _ _))
      obtain rfl : new = command :: next :: future := List.append_cancel_left (hnew.symm.trans hcommands')
      exact absurd (hfailed [] command (next :: future) rfl hfails).2 (List.cons_ne_nil _ _)
  | none =>
      refine .inl ⟨?_, rfl⟩
      by_contra hlong
      have hlong : g.pageSize < size.toNat := by
        rwa [BitVec.le_def, g.toNat_page_size, Nat.not_le] at hlong
      have hpos := g.pageSize_pos
      obtain ⟨command, hcommands, hpass, hbytes, hleft, hnext⟩ := hmoved.write_passes ram hpage hprogram
      obtain ⟨later, hlater, hcases⟩ := writeLoop_ends hnext (by have := size.isLt; dsimp only at hleft; omega) hends
      have hcommands' : chip'.commands = chip.commands ++ command :: later := by
        rw [← hchip]
        exact hlater.trans ((congrArg (· ++ later) hcommands).trans (List.append_assoc _ _ _))
      obtain rfl : new = command :: later := List.append_cancel_left (hnew.symm.trans hcommands')
      rcases hcases with ⟨hall, hreturned⟩ | ⟨past, failed, next, future, rfl, hfails⟩
      · have hret' : ret = size := (hpassed (List.forall_mem_cons.mpr ⟨hpass, hall⟩)).1
        have hle : ret.toNat ≤ g.pageSize := by
          rw [← hret]
          rcases hreturned with hsame | hle
          · have hsize := g.pageSize_lt
            refine (congrArg BitVec.toNat (hsame.trans hbytes)).le.trans ?_
            rw [toNat_ofNat_of_lt (by omega)]
            exact Nat.min_le_right _ _
          · rw [← g.toNat_page_size]
            exact hle
        rw [hret'] at hle
        omega
      · exact absurd (hfailed (command :: past) failed (next :: future) rfl hfails).2 (List.cons_ne_nil _ _)

theorem nandReadPage_length (g : Geometry) (cells : Cells) (page_num : Word) {len : Nat} (hlen : len ≤ g.pageSize) :
    (nandReadPage g.nand cells page_num 0 (BitVec.ofNat 32 len)).length = len := by
  have hlt := g.pageSize_lt
  rw [nandReadPage, if_pos (BitVec.le_of_lt (g.room_main hlen)), toNat_ofNat_of_lt (by omega)]
  simp

theorem ofNat_toNat_size (size : Word) : BitVec.ofNat 32 size.toNat = size := by
  rw [BitVec.ofNat_toNat, BitVec.setWidth_eq]

theorem nandRead_returns (haligned : start_addr &&& (g.nand.page_size - 1) = 0) {cells : Cells}
    (hfinds : FindsPage g cells start_addr) (hshort : size ≤ g.nand.page_size) (ram : Ram) (into : Word) :
    ReturnsSize (fun n => (nandRead g.nand cells n ram start_addr size into).1) size := by
  by_cases hsize : size = 0
  · subst hsize
    exact ⟨0, fun n _ => congrArg Prod.fst (transfer_empty haligned n)⟩
  have hskips := fun i hi => not_not.mp (Nat.find_min hfinds (m := i) hi)
  have hpage := Nat.find_spec hfinds
  generalize Nat.find hfinds = k at hskips hpage
  have hmin : min size.toNat g.pageSize = size.toNat :=
    Nat.min_eq_left (by rw [← g.toNat_page_size]; exact hshort)
  refine ⟨k + 1, fun n hn => ?_⟩
  have haccess : (readPageInto g.nand cells ⟨ram, []⟩
      ((start_addr + BitVec.ofNat 32 (k * g.blockSize)) >>> g.nand.pageShift) 0 into
      (BitVec.ofNat 32 (min size.toNat g.pageSize))).1 = size := by
    rw [readPageInto, nandReadPage_length g cells _ (Nat.min_le_right _ _), hmin, ofNat_toNat_size]
  have hone := @transfer_one _ g (fun _ => cells) (readPageInto g.nand cells) size ⟨ram, []⟩ start_addr into haligned
    hsize k hskips hpage haccess n hn
  exact congrArg Prod.fst hone

theorem findsPage_congr {cells : Cells}
    (hsame : ∀ addr, isBadBlock g.nand cells addr = isBadBlock g.nand chip.cells addr)
    (h : FindsPage g chip.cells start_addr) : FindsPage g cells start_addr := by
  simpa only [FindsPage, Skips, hsame] using h

theorem keepsCount_empty (haligned : start_addr &&& (g.nand.page_size - 1) = 0) :
    KeepsCount g wear ram chip start_addr 0 buf := by
  refine ⟨0, fun n _ => ⟨0, chip, [], transfer_empty haligned n, by simp, by simp, fun _ => ⟨rfl, ?_⟩⟩⟩
  intro cells _ ram into
  exact ⟨0, fun n _ => congrArg Prod.fst (transfer_empty haligned n)⟩

theorem keepsCount_of_oneAccess (haligned : start_addr &&& (g.nand.page_size - 1) = 0)
    (h : OneAccess g wear chip start_addr size) : KeepsCount g wear ram chip start_addr size buf := by
  by_cases hsize : size = 0
  · subst hsize
    exact keepsCount_empty haligned
  obtain ⟨hfinds, hcase⟩ := h.resolve_left hsize
  have hskips := fun i hi => not_not.mp (Nat.find_min hfinds (m := i) hi)
  have hpage := Nat.find_spec hfinds
  generalize Nat.find hfinds = k at hskips hpage
  have hwrite := g.nandWritePage_row wear chip
    ((start_addr + BitVec.ofNat 32 (k * g.blockSize)) >>> g.nand.pageShift) (ram.at buf)
    (Nat.min_le_right size.toNat g.pageSize)
  have haccess : (writePageFrom g.nand wear ram chip
      ((start_addr + BitVec.ofNat 32 (k * g.blockSize)) >>> g.nand.pageShift) 0 buf
      (BitVec.ofNat 32 (min size.toNat g.pageSize))).1 = size := by
    rw [writePageFrom, hwrite]
    rcases hcase with ⟨hshort, hpasses⟩ | ⟨hlast, hfails⟩
    · have hle : size.toNat ≤ g.pageSize := by
        rw [← g.toNat_page_size]
        exact hshort
      rw [hpasses, Option.isSome_none, if_neg Bool.false_ne_true, Nat.min_eq_left hle, ofNat_toNat_size]
    · rw [hfails, if_pos rfl, hlast, failure]
  obtain ⟨command, hcommands, hpassed⟩ : ∃ command : Command, (writePageFrom g.nand wear ram chip
      ((start_addr + BitVec.ofNat 32 (k * g.blockSize)) >>> g.nand.pageShift) 0 buf
      (BitVec.ofNat 32 (min size.toNat g.pageSize))).2.commands = chip.commands ++ [command] ∧
        command.passed = (wear.program chip.log.length).isNone := by
    rw [writePageFrom, hwrite]
    exact ⟨_, Chip.commands_program wear chip _ 0 _, rfl⟩
  refine ⟨k + 1, fun n hn => ⟨size, _, [command], transfer_one haligned hsize hskips hpage haccess hn, hcommands,
    ?_, ?_⟩⟩
  · intro past last future hnew hfailed
    obtain ⟨hlast, hfuture⟩ : command = last ∧ future = [] := by
      cases past with
      | nil => exact ⟨(List.cons.inj hnew).1, (List.cons.inj hnew).2.symm⟩
      | cons first past => simp at hnew
    refine ⟨?_, hfuture⟩
    rcases hcase with ⟨-, hpasses⟩ | ⟨rfl, -⟩
    · rw [← hlast, hpassed, hpasses] at hfailed
      cases hfailed
    · decide
  · intro hall
    rcases hcase with ⟨hshort, -⟩ | ⟨-, hfails⟩
    · exact ⟨rfl, fun cells hsame ram into => nandRead_returns haligned (findsPage_congr hsame hfinds) hshort ram into⟩
    · have hnot := hall command (List.mem_singleton_self _)
      rw [hpassed, ← Option.not_isSome, hfails] at hnot
      cases hnot

/-- The results are as promised for transfers of at most one page access, and there for
one of 2^32 - 1 bytes only if it fails. -/
theorem keepsCount_iff (haligned : start_addr &&& (g.nand.page_size - 1) = 0) :
    KeepsCount g wear ram chip start_addr size buf ↔ OneAccess g wear chip start_addr size :=
  ⟨fun h => h.oneAccess haligned, keepsCount_of_oneAccess haligned⟩

theorem keepsCount_iff_whole_page : KeepsCount k9f2g08 .healthy (fun _ => 0) ⟨erased, []⟩ 0 0x800 0 := by
  refine (keepsCount_iff (by decide)).mpr (.inr ⟨⟨0, ?_⟩, .inl ⟨by decide, rfl⟩⟩)
  decide

/-- Two pages are written, and 2048 is returned for 4096. -/
theorem two_pages_not_counted :
    ¬ ∀ wear ram chip start_addr size buf, start_addr &&& (k9f2g08.nand.page_size - 1) = 0 →
      KeepsCount k9f2g08 wear ram chip start_addr size buf := by
  intro h
  have hone := (h .healthy (fun _ => 0) ⟨erased, []⟩ 0 0x1000 0 (by decide)).oneAccess (by decide)
  rcases hone with hzero | ⟨-, ⟨hshort, -⟩ | ⟨hlast, -⟩⟩
  · exact absurd hzero (by decide)
  · exact absurd hshort (by decide)
  · exact absurd hlast (by decide)

end Result

end Fl2440.MyBoot
