import Fl2440.Lib.SkipWalk
import Fl2440.MyBoot.Geometry

/-! The loop that `nand_read` and `nand_write` share. From a page on it makes one
access for each piece of the transfer, over the pages that a walk past the bad
blocks visits. -/
namespace Fl2440.MyBoot

open Fl2440.Lib

namespace Geometry

variable (g : Geometry)

def track (flag : Nat → Bool) (start p : Nat) : List Nat := walk flag g.pagesInBlock start g.pages p

/-- The loop at page `p`, `off` bytes into the buffer and with `left` bytes to go. -/
def cursor (store : α) (buf : Word) (p off left : Nat) (bytes : Word) : Transfer α :=
  ⟨store, g.pageAddr p, buf + BitVec.ofNat 32 off, BitVec.ofNat 32 left, bytes⟩

variable {g} {cells : α → Cells} {page : α → Word → Word → Word → Word → Word × α} {size buf bytes : Word}
  {store : α} {flag : Nat → Bool} {start p off left : Nat}

theorem track_cons (hp : p < g.pages) (h : visited flag g.pagesInBlock start p = true) :
    g.track flag start p = p :: g.track flag start (p + 1) := walk_visit hp h

theorem track_skip (hp : p < g.pages) (hdvd : g.pagesInBlock ∣ p) (hstart : start ≤ p)
    (hflag : flag (p / g.pagesInBlock) = true) :
    g.track flag start p = g.track flag start (p + g.pagesInBlock) :=
  walk_skip hdvd hstart (group_le (Nat.dvd_mul_left _ _) hdvd hp) hflag

theorem lt_pages_of_track (flag : Nat → Bool) (start : Nat) (h : g.track flag start p ≠ []) : p < g.pages := by
  by_contra hp
  exact h (walk_end (by omega))

theorem transferGoesOn_cursor (hleft : left < 2 ^ 32) :
    transferGoesOn (g.cursor store buf p off left bytes) = decide (0 < left) := by
  rw [transferGoesOn, cursor]
  congr 1
  show (0 < BitVec.ofNat 32 left) = _
  rw [BitVec.lt_def, toNat_ofNat_of_lt hleft]
  rfl

theorem transferRound_skip (hp : p < g.pages) (hdvd : g.pagesInBlock ∣ p)
    (hbad : g.bad (cells store) (p / g.pagesInBlock) = true) :
    transferRound g.nand cells page size (g.cursor store buf p off left bytes) =
      g.cursor store buf (p + g.pagesInBlock) off left bytes := by
  rw [transferRound, if_pos ⟨(g.pageAddr_aligned_iff hp).mpr hdvd, (g.isBadBlock_eq _ hp).trans hbad⟩,
    cursor, cursor, ← g.pageAddr_add_block]

theorem nextSize_eq (hleft : left < 2 ^ 32) (hsize : left % g.pageSize = size.toNat % g.pageSize) :
    (if BitVec.ofNat 32 left ≥ g.nand.page_size then g.nand.page_size else size % g.nand.page_size) =
      BitVec.ofNat 32 (min left g.pageSize) := by
  have hge : BitVec.ofNat 32 left ≥ g.nand.page_size ↔ g.pageSize ≤ left := by
    rw [ge_iff_le, BitVec.le_def, g.toNat_page_size, toNat_ofNat_of_lt hleft]
  split
  next h =>
    rw [Nat.min_eq_right (hge.mp h)]
    rfl
  next h =>
    have hlt : left < g.pageSize := by
      rw [hge] at h
      omega
    apply BitVec.eq_of_toNat_eq
    rw [BitVec.toNat_umod, g.toNat_page_size, ← hsize, Nat.mod_eq_of_lt hlt, Nat.min_eq_left hlt.le,
      toNat_ofNat_of_lt hleft]

theorem transferRound_page (hp : p < g.pages) (hleft : left < 2 ^ 32)
    (hgood : ¬ (g.pagesInBlock ∣ p ∧ g.bad (cells store) (p / g.pagesInBlock) = true))
    (hsize : left % g.pageSize = size.toNat % g.pageSize) {ret : Word} {store' : α}
    (hpage : page store (BitVec.ofNat 32 p) 0 (buf + BitVec.ofNat 32 off)
      (BitVec.ofNat 32 (min left g.pageSize)) = (ret, store')) :
    transferRound g.nand cells page size (g.cursor store buf p off left bytes) =
      ⟨store', g.pageAddr p + ret, buf + BitVec.ofNat 32 off + ret, BitVec.ofNat 32 left - ret, ret⟩ := by
  have hcond : ¬ (g.pageAddr p &&& (g.nand.block_size - 1) = 0 ∧
      isBadBlock g.nand (cells store) (g.pageAddr p) = true) := by
    rw [g.pageAddr_aligned_iff hp, g.isBadBlock_eq _ hp]
    exact hgood
  rw [transferRound, cursor, if_neg hcond]
  simp only [g.pageAddr_page_num hp, g.pageAddr_page_offset hp, nextSize_eq hleft hsize, hpage]

theorem cursor_next (h : g.pageSize ≤ left) (store : α) :
    (⟨store, g.pageAddr p + BitVec.ofNat 32 (min left g.pageSize),
      buf + BitVec.ofNat 32 off + BitVec.ofNat 32 (min left g.pageSize),
      BitVec.ofNat 32 left - BitVec.ofNat 32 (min left g.pageSize),
      BitVec.ofNat 32 (min left g.pageSize)⟩ : Transfer α) =
      g.cursor store buf (p + 1) (off + min left g.pageSize) (left - min left g.pageSize)
        (BitVec.ofNat 32 (min left g.pageSize)) := by
  have hmin : min left g.pageSize = g.pageSize := Nat.min_eq_right h
  have hsub : BitVec.ofNat 32 left - BitVec.ofNat 32 g.pageSize =
      BitVec.ofNat 32 (left - g.pageSize) := by
    rw [BitVec.sub_eq_iff_eq_add, ← BitVec.ofNat_add, Nat.sub_add_cancel h]
  rw [hmin, hsub, cursor, ← g.pageAddr_add_page, BitVec.ofNat_add, BitVec.add_assoc]
  rfl

/-- Where a walk stands at a page: it is to test the page's block, or it visits the page. -/
def Standing (g : Geometry) (flag : Nat → Bool) (start p : Nat) : Prop :=
  start ≤ p ∧ (g.pagesInBlock ∣ p ∨ visited flag g.pagesInBlock start p = true)

theorem standing_start (g : Geometry) (flag : Nat → Bool) (start : Nat) : Standing g flag start start := by
  refine ⟨le_rfl, ?_⟩
  rw [visited, Bool.or_eq_true, decide_eq_true_iff]
  by_cases hdvd : g.pagesInBlock ∣ start
  · exact .inl hdvd
  · refine .inr (.inl (Nat.lt_of_le_of_ne ?_ fun he => hdvd (he ▸ dvd_boundary _ _)))
    have := g.pagesInBlock_pos
    have hlt := Nat.lt_div_mul_add (a := start + (g.pagesInBlock - 1)) this
    rw [boundary]
    omega

theorem Standing.skip (h : Standing g flag start p) (hdvd : g.pagesInBlock ∣ p) :
    Standing g flag start (p + g.pagesInBlock) :=
  ⟨Nat.le_add_right_of_le h.1, .inl (Nat.dvd_add_self_right.mpr hdvd)⟩

theorem Standing.next (h : Standing g flag start p) (hv : visited flag g.pagesInBlock start p = true) :
    Standing g flag start (p + 1) := by
  refine ⟨Nat.le_succ_of_le h.1, ?_⟩
  by_cases hdvd : g.pagesInBlock ∣ p + 1
  · exact .inl hdvd
  · exact .inr (visited_succ hdvd hv)

theorem Standing.cases (h : Standing g flag start p) :
    (g.pagesInBlock ∣ p ∧ flag (p / g.pagesInBlock) = true) ∨
      (¬ (g.pagesInBlock ∣ p ∧ flag (p / g.pagesInBlock) = true) ∧
        visited flag g.pagesInBlock start p = true) := by
  by_cases hskip : g.pagesInBlock ∣ p ∧ flag (p / g.pagesInBlock) = true
  · exact .inl hskip
  · refine .inr ⟨hskip, ?_⟩
    rcases h.2 with hdvd | hv
    · rw [visited_aligned g.pagesInBlock_pos hdvd h.1]
      simpa [hdvd] using hskip
    · exact hv

end Geometry

/-- A page access that does its whole piece and leaves the markers as they are. -/
structure Sound (g : Geometry) (cells : α → Cells) (page : α → Word → Word → Word → Word → Word × α)
    (buf : Word) (flag : Nat → Bool) (good : α → Prop) (effect : α → Piece → α) : Prop where
  flags : ∀ store, good store → ∀ block < g.blocks, g.bad (cells store) block = flag block
  does : ∀ store piece, good store → piece.unit < g.pages → piece.len ≤ g.pageSize →
    page store (BitVec.ofNat 32 piece.unit) 0 (buf + BitVec.ofNat 32 piece.off)
      (BitVec.ofNat 32 piece.len) = (BitVec.ofNat 32 piece.len, effect store piece)
  keeps : ∀ store piece, good store → piece.unit < g.pages → piece.len ≤ g.pageSize →
    good (effect store piece)

namespace Geometry

variable {g : Geometry} {cells : α → Cells} {page : α → Word → Word → Word → Word → Word × α}
  {size buf bytes : Word} {store : α} {flag : Nat → Bool} {good : α → Prop} {effect : α → Piece → α}
  {start p off left : Nat}

theorem transferLoop_eq (bytes : Word) (off : Nat) (sound : Sound g cells page buf flag good effect) {n : Nat}
    (hn : g.pages - p ≤ n) (hgood : good store) (hst : Standing g flag start p)
    (hleft : left < 2 ^ 32) (hsize : left % g.pageSize = size.toNat % g.pageSize)
    (hroom : left ≤ (g.track flag start p).length * g.pageSize) :
    let s := whileLoop transferGoesOn (transferRound g.nand cells page size) n
      (g.cursor store buf p off left bytes)
    s.left = 0 ∧ s.store = (pieces g.pageSize (g.track flag start p) off left).foldl effect store := by
  induction n generalizing p off left bytes store with
  | zero =>
      have hnil : g.track flag start p = [] := walk_end (by omega)
      obtain rfl : left = 0 := by simpa [hnil] using hroom
      simp [cursor]
  | succ n ih =>
      rcases Nat.eq_zero_or_pos left with rfl | hpos
      · rw [whileLoop_done (by rw [transferGoesOn_cursor hleft]; rfl)]
        simp [cursor]
      · have hp : p < g.pages := by
          apply lt_pages_of_track flag start
          intro hnil
          rw [hnil] at hroom
          simp at hroom
          omega
        rw [whileLoop_enter (by rw [transferGoesOn_cursor hleft]; exact decide_eq_true hpos)]
        have hflag := sound.flags store hgood _ (g.div_lt_blocks hp)
        rcases hst.cases with ⟨hdvd, hbad⟩ | ⟨htest, hv⟩
        · rw [transferRound_skip hp hdvd (hflag.trans hbad), track_skip hp hdvd hst.1 hbad]
          rw [track_skip hp hdvd hst.1 hbad] at hroom
          have := g.pagesInBlock_pos
          exact ih bytes off (by omega) hgood (hst.skip hdvd) hleft hsize hroom
        · have hlen : min left g.pageSize ≤ g.pageSize := Nat.min_le_right _ _
          have hdoes := sound.does store ⟨p, off, min left g.pageSize⟩ hgood hp hlen
          have hkeep := sound.keeps store ⟨p, off, min left g.pageSize⟩ hgood hp hlen
          rw [← hflag] at htest
          rw [transferRound_page hp hleft htest hsize hdoes, track_cons hp hv, pieces_cons hpos,
            List.foldl_cons]
          rw [track_cons hp hv, List.length_cons, Nat.add_mul, Nat.one_mul] at hroom
          rcases Nat.lt_or_ge left g.pageSize with hlt | hge
          · -- the last piece leaves the loop in the middle of a page
            have hmin : min left g.pageSize = left := Nat.min_eq_left hlt.le
            rw [hmin, Nat.sub_self, pieces_zero, whileLoop_done (by simp [transferGoesOn])]
            simp
          · rw [cursor_next hge]
            have hmin : min left g.pageSize = g.pageSize := Nat.min_eq_right hge
            rw [hmin] at hkeep ⊢
            refine ih _ _ (by omega) hkeep (hst.next hv) (by omega) ?_ (by omega)
            rw [← hsize, Nat.mod_eq_sub_mod hge]

end Geometry

def Skips (nand : BootNand) (cells : Cells) (addr : Word) : Prop :=
  addr &&& (nand.block_size - 1) = 0 ∧ isBadBlock nand cells addr = true

instance (nand : BootNand) (cells : Cells) (addr : Word) : Decidable (Skips nand cells addr) :=
  inferInstanceAs (Decidable (_ ∧ _))

theorem transferGoesOn_of_left {s : Transfer α} (h : s.left ≠ 0) : transferGoesOn s = true := by
  rw [transferGoesOn, decide_eq_true_iff, gt_iff_lt, BitVec.lt_def]
  exact Nat.pos_of_ne_zero fun h0 => h (BitVec.eq_of_toNat_eq h0)

section Skipping

variable {g : Geometry} {cells : α → Cells} {page : α → Word → Word → Word → Word → Word × α} {size : Word}

theorem transferRound_skips (s : Transfer α) (h : Skips g.nand (cells s.store) s.addr) :
    transferRound g.nand cells page size s = { s with addr := s.addr + g.nand.block_size } := if_pos h

theorem transferLoop_skips {s : Transfer α} (hleft : s.left ≠ 0) {k : Nat}
    (hskips : ∀ i < k, Skips g.nand (cells s.store) (s.addr + BitVec.ofNat 32 (i * g.blockSize))) :
    whileLoop transferGoesOn (transferRound g.nand cells page size) k s =
      { s with addr := s.addr + BitVec.ofNat 32 (k * g.blockSize) } := by
  induction k with
  | zero => simp
  | succ k ih =>
      have hgo : transferGoesOn { s with addr := s.addr + BitVec.ofNat 32 (k * g.blockSize) } = true :=
        transferGoesOn_of_left hleft
      rw [whileLoop_succ, ih fun i hi => hskips i (Nat.lt_succ_of_lt hi), if_pos hgo,
        transferRound_skips _ (hskips k (Nat.lt_succ_self k)), BitVec.add_assoc, Geometry.nand, ← BitVec.ofNat_add,
        Nat.succ_mul]

end Skipping

end Fl2440.MyBoot
