import Fl2440.Yaffs.Controller

/-! `k9f2g08_api.c`: chunks of the YAFFS port. A chunk is a page of 2048 bytes, the ECC word
and 12 bytes of padding, and the tags in the rest of the spare area. -/
namespace Fl2440.Yaffs

open Fl2440.Lib Fl2440.MyBoot Controller

def YAFFS_OK : Int := 1

def YAFFS_FAIL : Int := 0

/-- `wait_busy_status`; the chip is ready when it answers. -/
def waitBusyStatus (wear : Wear) (s : Controller) : Byte × Controller :=
  let s := s.bspNandSetCs 0
  let s := s.bspNandWriteCmd wear 0x70
  let (rc, s) := s.bspNandReadData8
  (rc, s.bspNandSetCs 1)

/-- What `k9f2g08_write` does until the program command. -/
def fill (unit : EccUnit) (wear : Wear) (s : Controller) (chunk : Word) (dat spare : Option (List Byte)) : Controller :=
  let col_addr : Word := if dat.isSome then 0 else 2048
  let s := s.bspNandSetCs 0
  let s := s.bspNandWriteCmd wear 0x80
  let s := s.writeAddrs (columnCycles col_addr ++ pageCycles chunk)
  let s := s.bspNandStartMainEcc
  let s := s.writeData8s (dat.getD [])
  let s := s.bspNandStopMainEcc
  let s := s.bspNandWriteData32 (s.bspNandReadSpareEcc0 unit)
  let s := s.bspNandWriteData32 0xffffffff
  let s := s.bspNandWriteData32 0xffffffff
  let s := s.bspNandWriteData32 0xffffffff
  s.writeData8s (spare.getD [])

def k9f2g08Write (unit : EccUnit) (wear : Wear) (s : Controller) (chunk : Word) (dat spare : Option (List Byte)) :
    Int × Controller :=
  let s := fill unit wear s chunk dat spare
  let s := s.bspNandWriteCmd wear 0x10
  let s := s.bspNandSetCs 1
  let (status, s) := waitBusyStatus wear s
  (if status &&& (1 <<< 0) ≠ 0 then YAFFS_FAIL else YAFFS_OK, s)

structure ReadResult where
  ret : Int
  eccStatus : Int
  dat : List Byte
  spare : List Byte
deriving DecidableEq

/-- From the read command to the ready chip. -/
def openPage (wear : Wear) (s : Controller) (col_addr chunk : Word) : Controller :=
  let s := s.bspNandSetCs 0
  let s := s.bspNandWriteCmd wear 0x00
  let s := s.writeAddrs (columnCycles col_addr ++ pageCycles chunk)
  s.bspNandWriteCmd wear 0x30

/-- `k9f2g08_read`, with a `dat` or without one. -/
def k9f2g08Read (unit : EccUnit) (wear : Wear) (s : Controller) (chunk : Word) (dat : Bool) (spare_size : Nat)
    (eccStatus : Int) : ReadResult :=
  let s := openPage wear s (if dat then 0 else 2048 + 16) chunk
  if dat then
    let s := s.bspNandStartMainEcc
    let (dat, s) := readData8s 2048 s
    let s := s.bspNandStopMainEcc
    let (ecc, s) := s.bspNandReadData32
    let (_, s) := s.bspNandReadData32
    let (_, s) := s.bspNandReadData32
    let (_, s) := s.bspNandReadData32
    let (spare, s) := readData8s spare_size s
    let s := s.bspNandSetCs 1
    let ((i, err_byte, err_bit), _) := s.bspNandMainCheckEcc unit ecc
    if i = 0 then ⟨0, 0, dat, spare⟩
    else if i < 0 then ⟨0, -1, dat, spare⟩
    else ⟨YAFFS_OK, 1, flipBit dat err_byte err_bit, spare⟩
  else
    let (spare, _) := readData8s spare_size s
    ⟨YAFFS_OK, eccStatus, [], spare⟩

def chunkBytes (unit : EccUnit) (dat spare : List Byte) : List Byte :=
  dat ++ wordBytes (unit.spare dat &&& 0xffff) ++ List.replicate 12 0xff ++ spare

variable {unit : EccUnit} {wear : Wear} {s t : Controller} {chunk : Word} {dat spare : List Byte}

@[simp] theorem bspNandSetCs_chip (s : Controller) (level : Nat) : (s.bspNandSetCs level).chip = s.chip := by
  unfold bspNandSetCs
  split <;> simp

@[simp] theorem bspNandSetCs_bus (s : Controller) (level : Nat) : (s.bspNandSetCs level).bus = s.bus := by
  unfold bspNandSetCs
  split <;> simp

theorem bspNandSetCs_main (level : Nat) (h : s.main = []) : (s.bspNandSetCs level).main = [] := by
  unfold bspNandSetCs setNFCONT
  split_ifs <;> simp [h]

theorem filling_of_cmd (wear : Wear) (s : Controller) (cycles : List Word) :
    Filling s.chip cycles [] [] (((s.bspNandSetCs 0).bspNandWriteCmd wear 0x80).writeAddrs cycles).bspNandStartMainEcc := by
  have hbus : ((s.bspNandSetCs 0).bspNandWriteCmd wear 0x80).bus = .input [] [] := by
    simp [bspNandWriteCmd]
  have haddrs := writeAddrs_input hbus cycles
  have hchip : (((s.bspNandSetCs 0).bspNandWriteCmd wear 0x80).writeAddrs cycles).chip = s.chip := by
    rw [haddrs]
    simp [bspNandWriteCmd]
  have hfilling := filling_start (((s.bspNandSetCs 0).bspNandWriteCmd wear 0x80).writeAddrs cycles) (by rw [haddrs])
  rwa [hchip] at hfilling

theorem fill_spec (unit : EccUnit) (wear : Wear) (s : Controller) (chunk : Word) (dat spare : List Byte) :
    Filling s.chip (columnCycles 0 ++ pageCycles chunk) (chunkBytes unit dat spare) (chunkBytes unit dat spare)
      (fill unit wear s chunk (some dat) (some spare)) := by
  have hdat := ((filling_of_cmd wear s (columnCycles 0 ++ pageCycles chunk)).writeData dat).stop
  have hword := hdat.writeData (wordBytes (unit.spare dat &&& 0xffff))
  have hpadding := ((hword.writeData (wordBytes 0xffffffff)).writeData (wordBytes 0xffffffff)).writeData (wordBytes 0xffffffff)
  have hspare := hpadding.writeData spare
  have hseen := hdat.spare
  have hlayout : [] ++ dat ++ wordBytes (unit.spare dat &&& 0xffff) ++ wordBytes 0xffffffff ++ wordBytes 0xffffffff ++
      wordBytes 0xffffffff ++ spare = chunkBytes unit dat spare := by
    have hones : wordBytes 0xffffffff ++ wordBytes 0xffffffff ++ wordBytes 0xffffffff = List.replicate 12 0xff := by
      decide
    rw [chunkBytes, ← hones]
    simp only [List.nil_append, List.append_assoc]
  rw [hlayout] at hspare
  simp only [fill, Option.getD_some, Option.isSome_some, if_true, writeData8s_eq, bspNandWriteData32,
    bspNandReadSpareEcc0, NFSECC]
  rw [hseen]
  exact hspare

theorem waitBusyStatus_spec (wear : Wear) {status : Byte} (h : s.bus = .done status) :
    (waitBusyStatus wear s).1 = status ∧ (waitBusyStatus wear s).2.chip = s.chip := by
  have hcmd : ((s.bspNandSetCs 0).bspNandWriteCmd wear 0x70).bus = .status status ∧
      ((s.bspNandSetCs 0).bspNandWriteCmd wear 0x70).chip = s.chip := by
    simp [bspNandWriteCmd, h]
  unfold waitBusyStatus
  dsimp only
  generalize (s.bspNandSetCs 0).bspNandWriteCmd wear 0x70 = answering at hcmd
  simp [bspNandReadData8, readData, transferred, hcmd]

theorem program_of_filling (wear : Wear) {cycles : List Word} {data seen : List Byte} (h : Filling s.chip cycles data seen t) :
    (t.bspNandWriteCmd wear 0x10).chip =
        (s.chip.program wear (address (cycles.drop 2)) (address (cycles.take 2)) data).2 ∧
      (t.bspNandWriteCmd wear 0x10).bus =
        .done (s.chip.program wear (address (cycles.drop 2)) (address (cycles.take 2)) data).1 := by
  simp [bspNandWriteCmd, h.bus, h.chip]

theorem k9f2g08Write_spec (unit : EccUnit) (wear : Wear) (s : Controller) (chunk : Word) (dat spare : List Byte) :
    (k9f2g08Write unit wear s chunk (some dat) (some spare)).2.chip =
        (s.chip.program wear (address (pageCycles chunk)) 0 (chunkBytes unit dat spare)).2 ∧
      ((k9f2g08Write unit wear s chunk (some dat) (some spare)).1 = YAFFS_OK ↔ wear.program s.chip.log.length = none) := by
  obtain ⟨hchip, hbus⟩ := program_of_filling wear (fill_spec unit wear s chunk dat spare)
  have hcycles : (columnCycles 0 ++ pageCycles chunk).drop 2 = pageCycles chunk ∧
      (columnCycles 0 ++ pageCycles chunk).take 2 = columnCycles 0 := by
    simp [columnCycles]
  have hcolumn : address (columnCycles 0) = 0 := by decide
  rw [hcycles.1, hcycles.2, hcolumn] at hchip hbus
  obtain ⟨hstatus, hwaited⟩ := waitBusyStatus_spec (s := ((fill unit wear s chunk (some dat) (some spare)).bspNandWriteCmd
    wear 0x10).bspNandSetCs 1) wear (by rw [bspNandSetCs_bus, hbus])
  unfold k9f2g08Write
  dsimp only
  constructor
  · rw [hwaited, bspNandSetCs_chip, hchip]
  · rw [hstatus]
    have hpassed := Chip.program_status wear s.chip (address (pageCycles chunk)) 0 (chunkBytes unit dat spare)
    have hbit : (1 <<< 0 : Byte) = 0x01 := by decide
    rw [← Option.not_isSome_iff_eq_none, ← hpassed, hbit]
    split_ifs with hfail
    · exact iff_of_false (by decide) (not_not.mpr hfail)
    · exact iff_of_true rfl hfail

theorem openPage_spec (wear : Wear) (s : Controller) (col_addr chunk : Word) :
    (openPage wear s col_addr chunk).chip = s.chip ∧
      (openPage wear s col_addr chunk).bus = .output (address (pageCycles chunk)) (address (columnCycles col_addr)) := by
  have hcycles : (columnCycles col_addr ++ pageCycles chunk).drop 2 = pageCycles chunk ∧
      (columnCycles col_addr ++ pageCycles chunk).take 2 = columnCycles col_addr := by
    simp [columnCycles]
  have hbus : ((s.bspNandSetCs 0).bspNandWriteCmd wear 0x00).bus = .setup [] := by
    simp [bspNandWriteCmd]
  have haddrs := writeAddrs_setup hbus (columnCycles col_addr ++ pageCycles chunk)
  unfold openPage
  dsimp only
  rw [haddrs]
  simp [bspNandWriteCmd, hcycles]

def readResult (unit : EccUnit) (word : Word) (dat spare : List Byte) : ReadResult :=
  match unit.main.diagnose word [] with
  | .clean => ⟨0, 0, dat, spare⟩
  | .single i j => ⟨YAFFS_OK, 1, flipBit dat i j, spare⟩
  | .broken => ⟨0, -1, dat, spare⟩

def chunkRow (chunk : Word) : Nat := address (pageCycles chunk)

/-- A read holds the word in the spare area against no data at all. -/
theorem k9f2g08Read_eq (unit : EccUnit) (wear : Wear) (s : Controller) (chunk : Word) (spare_size : Nat) (eccStatus : Int) :
    k9f2g08Read unit wear s chunk true spare_size eccStatus =
      readResult unit (bytesWord (rowBytes s.chip.cells (chunkRow chunk) 2048 4))
        (rowBytes s.chip.cells (chunkRow chunk) 0 2048)
        (rowBytes s.chip.cells (chunkRow chunk) (2048 + 16) spare_size) := by
  obtain ⟨hchip, hbus⟩ := openPage_spec wear s 0 chunk
  have hcolumn : address (columnCycles 0) = 0 := by decide
  rw [hcolumn] at hbus
  have hopen := emptying_start _ hbus
  rw [hchip] at hopen
  obtain ⟨hdat, hmoved⟩ := hopen.readData 2048
  obtain ⟨hword, hmoved⟩ := hmoved.stop.readData 4
  obtain ⟨hspare, hmoved⟩ := (((hmoved.readData 4).2.readData 4).2.readData 4).2.readData spare_size
  have hmain := bspNandSetCs_main 1 hmoved.main
  unfold k9f2g08Read readResult chunkRow
  simp only [if_true, readData8s_eq, bspNandReadData32, mainCheckEcc_eq, hmain, hdat, hword, hspare,
    Nat.zero_add, Nat.reduceAdd]
  cases unit.main.diagnose (bytesWord (rowBytes s.chip.cells (address (pageCycles chunk)) 2048 4)) [] <;> simp

end Fl2440.Yaffs
