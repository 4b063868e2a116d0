import Fl2440.Yaffs.K9f2g08Api

/-! Chunks that are written and read again. What is written for the ECC of the data is the
code of the spare area, and the code of the main area is locked whenever data goes by. -/
namespace Fl2440.Yaffs

open Fl2440.Lib Fl2440.MyBoot

def Erased (s : Controller) (chunk : Word) : Prop := ∀ c, s.chip.cells (chunkRow chunk) c = 0xff

def damaged (s : Controller) (chunk : Word) (data : List Byte) : Controller :=
  { s with chip := { s.chip with
      cells := fun r c => if r = chunkRow chunk ∧ c < data.length then data.getD c 0 else s.chip.cells r c } }

def Uncorrectable (dat data : List Byte) : Prop := data ≠ dat ∧ ∀ i j, data ≠ flipBit dat i j

/-- What a reader finds of a chunk that has been written. -/
structure Readable (unit : EccUnit) (wear : Wear) (s : Controller) (chunk : Word) (dat spare : List Byte) : Prop where
  same : ∀ e, k9f2g08Read unit wear s chunk true spare.length e = ⟨YAFFS_OK, 0, dat, spare⟩
  corrected : ∀ i < 2048, ∀ j < 8, ∀ e,
    k9f2g08Read unit wear (damaged s chunk (flipBit dat i j)) chunk true spare.length e = ⟨YAFFS_OK, 1, dat, spare⟩
  fails : ∀ data e, data.length = 2048 →
    (k9f2g08Read unit wear (damaged s chunk data) chunk true spare.length e).ret = YAFFS_FAIL → Uncorrectable dat data

def RoundTrips (unit : EccUnit) (wear : Wear) (s : Controller) (chunk : Word) (dat spare : List Byte) : Prop :=
  (k9f2g08Write unit wear s chunk (some dat) (some spare)).1 = YAFFS_OK →
    Readable unit wear (k9f2g08Write unit wear s chunk (some dat) (some spare)).2 chunk dat spare

variable {unit : EccUnit} {wear : Wear} {s : Controller} {chunk : Word} {cells : Cells} {row column n : Nat}
  {dat spare data : List Byte}

theorem rowBytes_programmed (herased : ∀ c, cells row c = 0xff) (h : column + n ≤ data.length) :
    rowBytes (cells.programmed row 0 data) row column n = (data.drop column).take n := by
  apply List.ext_getElem
  · simp [rowBytes]
    omega
  · intro i hi hi'
    have hlt : column + i < data.length := by
      simp [rowBytes] at hi
      omega
    have hones : ∀ b : Byte, 255#8 &&& b = b := by decide
    simp [rowBytes, Cells.programmed, herased, hlt, hones]

theorem rowBytes_written (unit : EccUnit) (spare : List Byte) (hdat : dat.length = 2048) (herased : Erased s chunk)
    (hpass : wear.program s.chip.log.length = none) :
    let cells := (k9f2g08Write unit wear s chunk (some dat) (some spare)).2.chip.cells
    rowBytes cells (chunkRow chunk) 0 2048 = dat ∧
      rowBytes cells (chunkRow chunk) 2048 4 = wordBytes (unit.spare dat &&& 0xffff) ∧
      rowBytes cells (chunkRow chunk) (2048 + 16) spare.length = spare := by
  have hcells : (k9f2g08Write unit wear s chunk (some dat) (some spare)).2.chip.cells =
      s.chip.cells.programmed (chunkRow chunk) 0 (chunkBytes unit dat spare) := by
    rw [(k9f2g08Write_spec unit wear s chunk dat spare).1, Chip.program, hpass]
    rfl
  have hlength : (chunkBytes unit dat spare).length = 2048 + 16 + spare.length := by
    simp [chunkBytes, wordBytes, hdat]
    omega
  dsimp only
  rw [hcells, rowBytes_programmed herased (by omega), rowBytes_programmed herased (by omega),
    rowBytes_programmed herased (by omega)]
  refine ⟨?_, ?_, ?_⟩
  · simp [chunkBytes, ← hdat]
  · rw [chunkBytes, ← hdat]
    simp [wordBytes]
  · rw [chunkBytes, List.drop_left' (by simp [wordBytes, hdat])]
    simp

/-- Data and tags come back from where they were written. -/
theorem read_written (hdat : dat.length = 2048) (herased : Erased s chunk)
    (hpass : wear.program s.chip.log.length = none) (e : Int) :
    k9f2g08Read unit wear (k9f2g08Write unit wear s chunk (some dat) (some spare)).2 chunk true spare.length e =
      readResult unit (unit.spare dat &&& 0xffff) dat spare := by
  obtain ⟨hmain, hword, htags⟩ := rowBytes_written unit spare hdat herased hpass
  rw [k9f2g08Read_eq, hmain, hword, htags, bytesWord_wordBytes]

theorem rowBytes_damaged_inside (s : Controller) (chunk : Word) (data : List Byte) :
    rowBytes (damaged s chunk data).chip.cells (chunkRow chunk) 0 data.length = data := by
  apply List.ext_getElem
  · simp [rowBytes]
  · intro i hi hi'
    simp [rowBytes, damaged, hi']

theorem rowBytes_damaged_behind (s : Controller) (chunk : Word) (h : data.length ≤ column) (n : Nat) :
    rowBytes (damaged s chunk data).chip.cells (chunkRow chunk) column n =
      rowBytes s.chip.cells (chunkRow chunk) column n := by
  apply List.map_congr_left
  intro i _
  have hnot : ¬ column + i < data.length := by omega
  simp [damaged, hnot]

/-- The check does not look at the data: whatever stands there, it says the same. -/
theorem read_damaged (hdat : dat.length = 2048) (hdata : data.length = 2048) (herased : Erased s chunk)
    (hpass : wear.program s.chip.log.length = none) (e : Int) :
    k9f2g08Read unit wear (damaged (k9f2g08Write unit wear s chunk (some dat) (some spare)).2 chunk data) chunk true
      spare.length e = readResult unit (unit.spare dat &&& 0xffff) data spare := by
  obtain ⟨-, hword, htags⟩ := rowBytes_written unit spare hdat herased hpass
  have hmain := rowBytes_damaged_inside (k9f2g08Write unit wear s chunk (some dat) (some spare)).2 chunk data
  rw [hdata] at hmain
  rw [k9f2g08Read_eq, hmain, rowBytes_damaged_behind _ _ (by omega), rowBytes_damaged_behind _ _ (by omega), hword,
    htags, bytesWord_wordBytes]

/-- A read of data never returns `YAFFS_OK` with a status of 0. -/
theorem readResult_ne (unit : EccUnit) (word : Word) (dat spare data tags : List Byte) :
    readResult unit word dat spare ≠ ⟨YAFFS_OK, 0, data, tags⟩ := by
  unfold readResult
  split <;> simp [YAFFS_OK]

theorem not_readable : ¬ Readable unit wear s chunk dat spare := by
  intro h
  have hsame := h.same 0
  rw [k9f2g08Read_eq] at hsame
  exact readResult_ne _ _ _ _ _ _ hsame

theorem not_roundTrips (unit : EccUnit) (wear : Wear) (s : Controller) (chunk : Word) (dat spare : List Byte)
    (hpass : wear.program s.chip.log.length = none) : ¬ RoundTrips unit wear s chunk dat spare := by
  intro h
  have hwritten := (k9f2g08Write_spec unit wear s chunk dat spare).2.mpr hpass
  exact not_readable (h hwritten)

/-- An ECC unit that names wrong bits by their position. -/
def positionUnit : EccUnit := ⟨positionCode 2048 (by decide), positionWord⟩

def fresh : Controller := ⟨⟨erased, []⟩, .idle, 3, 0, 0, [], []⟩

def unworn : Wear := ⟨fun _ => none, fun _ => none⟩

theorem not_roundTrips_zeros : ¬ RoundTrips positionUnit unworn fresh 0 (List.replicate 2048 0) [] :=
  not_roundTrips positionUnit unworn fresh 0 _ _ rfl

theorem zeros_not_readable :
    ¬ ∀ unit wear s chunk dat spare, dat.length = 2048 → spare.length ≤ 48 → Erased s chunk →
      RoundTrips unit wear s chunk dat spare := by
  intro h
  have hzeros := h positionUnit unworn fresh 0 (List.replicate 2048 0) [] List.length_replicate (by decide)
    (fun _ => rfl)
  have hwritten := (k9f2g08Write_spec positionUnit unworn fresh 0 (List.replicate 2048 0) []).2.mpr rfl
  exact not_readable (hzeros hwritten)

end Fl2440.Yaffs
