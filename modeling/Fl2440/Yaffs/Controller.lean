import Mathlib.Tactic.IntervalCases
import Fl2440.Lib.Ecc
import Fl2440.MyBoot.Bitops

/-! `k9f2g08_s3c.h`: the NAND controller of the board with the chip on its bus. The ECC unit
takes in the bytes of every data access while the lock bit of its area is 0. -/
namespace Fl2440.Yaffs

open Fl2440.Lib Fl2440.MyBoot

inductive Bus where
  | idle
  | input (cycles : List Word) (data : List Byte)
  | setup (cycles : List Word)
  | output (row column : Nat)
  | done (status : Byte)
  | status (status : Byte)

structure EccUnit where
  main : Ecc 2048
  spare : List Byte → Word

structure Controller where
  chip : Chip
  bus : Bus
  NFCONT : Word
  NFMECCD0 : Word
  NFMECCD1 : Word
  /-- what the code of the main area has taken in since it was initialised -/
  main : List Byte
  spare : List Byte

def wordBytes (w : Word) : List Byte :=
  [w.setWidth 8, (w >>> 8).setWidth 8, (w >>> 16).setWidth 8, (w >>> 24).setWidth 8]

def bytesWord (bytes : List Byte) : Word := bytes.foldr (fun b w => w <<< 8 ||| b.setWidth 32) 0

theorem bytesWord_wordBytes (w : Word) : bytesWord (wordBytes w) = w := by
  apply BitVec.eq_of_getLsbD_eq
  intro i hi
  interval_cases i <;> simp [bytesWord, wordBytes]

def rowBytes (cells : Cells) (row column n : Nat) : List Byte := (List.range n).map fun i => cells row (column + i)

namespace Controller

def mainLocked (s : Controller) : Bool := s.NFCONT[5]

def spareLocked (s : Controller) : Bool := s.NFCONT[6]

/-- Bit 4 initialises the ECC and reads as 0. -/
def setNFCONT (s : Controller) (value : Word) : Controller :=
  if value[4] then { s with NFCONT := value &&& ~~~(1 <<< 4 : Word), main := [], spare := [] }
  else { s with NFCONT := value }

def bspNandSetCs (s : Controller) (level : Nat) : Controller :=
  if level = 0 then s.setNFCONT (s.NFCONT &&& ~~~(1 <<< 1 : Word)) else s.setNFCONT (s.NFCONT ||| (1 <<< 1 : Word))

def bspNandStartMainEcc (s : Controller) : Controller :=
  let s := s.setNFCONT (s.NFCONT ||| ((1 <<< 6 : Word) ||| (1 <<< 5 : Word)))
  let s := s.setNFCONT (s.NFCONT ||| (1 <<< 4 : Word))
  s.setNFCONT (s.NFCONT &&& ~~~(1 <<< 6 : Word))

def bspNandStopMainEcc (s : Controller) : Controller := s.setNFCONT (s.NFCONT ||| (1 <<< 5 : Word))

def NFSECC (unit : EccUnit) (s : Controller) : Word := unit.spare s.spare

def bspNandReadSpareEcc0 (unit : EccUnit) (s : Controller) : Word := s.NFSECC unit &&& 0xffff

/-- The word that was written back: two bytes of it stand in each register. -/
def writtenBack (s : Controller) : Word :=
  bytesWord [s.NFMECCD0.setWidth 8, (s.NFMECCD0 >>> 16).setWidth 8, s.NFMECCD1.setWidth 8, (s.NFMECCD1 >>> 16).setWidth 8]

/-- The report on the main area: bits 0 and 1 say how it is, and of a single wrong bit
bits 7 to 17 have the byte and bits 4 to 6 the bit. -/
def NFESTAT0 (unit : EccUnit) (s : Controller) : Word :=
  match unit.main.diagnose s.writtenBack s.main with
  | .clean => 0
  | .single i j => BitVec.ofNat 32 (128 * i + 16 * j + 1)
  | .broken => 2

/-- The value returned, and the byte and the bit where they are set. -/
def bspNandMainCheckEcc (unit : EccUnit) (s : Controller) (ecc : Word) : (Int × Nat × Nat) × Controller :=
  let s := { s with NFMECCD0 := (ecc &&& 0xff00) <<< 8 ||| ecc &&& 0xff }
  let s := { s with NFMECCD1 := (ecc &&& 0xff000000) >>> 8 ||| (ecc &&& 0x00ff0000) >>> 16 }
  let err := s.NFESTAT0 unit
  if err &&& 3 = 0 then ((0, 0, 0), s)
  else if err &&& 3 = 1 then ((1, ((err >>> 7) &&& 0x7ff).toNat, ((err >>> 4) &&& 0x07).toNat), s)
  else ((-1, 0, 0), s)

/-- The chip's part of a command. -/
def bspNandWriteCmd (wear : Wear) (s : Controller) (cmd : Byte) : Controller :=
  if cmd = 0x80 then { s with bus := .input [] [] }
  else if cmd = 0x00 then { s with bus := .setup [] }
  else
    match s.bus with
    | .input cycles data =>
        if cmd = 0x10 then
          let (status, chip) := s.chip.program wear (address (cycles.drop 2)) (address (cycles.take 2)) data
          { s with chip, bus := .done status }
        else { s with bus := .idle }
    | .setup cycles =>
        if cmd = 0x30 then { s with bus := .output (address (cycles.drop 2)) (address (cycles.take 2)) }
        else { s with bus := .idle }
    | .done status => if cmd = 0x70 then { s with bus := .status status } else { s with bus := .idle }
    | _ => if cmd = 0x70 then { s with bus := .status statusPass } else { s with bus := .idle }

def bspNandWriteAddr (s : Controller) (addr : Word) : Controller :=
  match s.bus with
  | .input cycles data => { s with bus := .input (cycles ++ [addr]) data }
  | .setup cycles => { s with bus := .setup (cycles ++ [addr]) }
  | _ => s

def transferred (s : Controller) (bytes : List Byte) : Controller :=
  { s with
    main := if s.mainLocked then s.main else s.main ++ bytes
    spare := if s.spareLocked then s.spare else s.spare ++ bytes }

def writeData (s : Controller) (bytes : List Byte) : Controller :=
  let s := s.transferred bytes
  match s.bus with
  | .input cycles data => { s with bus := .input cycles (data ++ bytes) }
  | _ => s

def bspNandWriteData8 (s : Controller) (dat : Byte) : Controller := s.writeData [dat]

def bspNandWriteData32 (s : Controller) (dat : Word) : Controller := s.writeData (wordBytes dat)

def readData (s : Controller) (n : Nat) : List Byte × Controller :=
  match s.bus with
  | .output row column =>
      let bytes := rowBytes s.chip.cells row column n
      (bytes, { s.transferred bytes with bus := .output row (column + n) })
  | .status status => (List.replicate n status, s.transferred (List.replicate n status))
  | _ => (List.replicate n 0xff, s.transferred (List.replicate n 0xff))

def bspNandReadData8 (s : Controller) : Byte × Controller :=
  let (bytes, s) := s.readData 1
  (bytes.headD 0, s)

def bspNandReadData32 (s : Controller) : Word × Controller :=
  let (bytes, s) := s.readData 4
  (bytesWord bytes, s)

/-- `for (i = 0; i < n; i++) bsp_nand_read_data8()` -/
def readData8s : Nat → Controller → List Byte × Controller
  | 0, s => ([], s)
  | n + 1, s =>
      let (b, s) := s.bspNandReadData8
      let (bytes, s) := readData8s n s
      (b :: bytes, s)

def writeAddrs (s : Controller) (cycles : List Word) : Controller := cycles.foldl bspNandWriteAddr s

def writeData8s (s : Controller) (bytes : List Byte) : Controller := bytes.foldl bspNandWriteData8 s

variable {s : Controller} {wear : Wear} {chip : Chip} {cycles : List Word} {data spare : List Byte} {value : Word} {row column : Nat}

@[simp] theorem setNFCONT_bus (s : Controller) (value : Word) : (s.setNFCONT value).bus = s.bus := by
  unfold setNFCONT
  split <;> rfl

@[simp] theorem setNFCONT_chip (s : Controller) (value : Word) : (s.setNFCONT value).chip = s.chip := by
  unfold setNFCONT
  split <;> rfl

@[simp] theorem mainLocked_setNFCONT (s : Controller) (value : Word) :
    (s.setNFCONT value).mainLocked = value[5] := by
  unfold setNFCONT mainLocked
  split <;> simp

@[simp] theorem spareLocked_setNFCONT (s : Controller) (value : Word) :
    (s.setNFCONT value).spareLocked = value[6] := by
  unfold setNFCONT spareLocked
  split <;> simp

theorem writeData_append (s : Controller) (first second : List Byte) :
    (s.writeData first).writeData second = s.writeData (first ++ second) := by
  unfold writeData transferred mainLocked spareLocked
  cases s.bus <;> simp <;> split_ifs <;> simp

theorem writeData_nil (s : Controller) : s.writeData [] = s := by
  obtain ⟨chip, bus, NFCONT, NFMECCD0, NFMECCD1, main, spare⟩ := s
  cases bus <;> simp [writeData, transferred]

theorem writeData8s_eq (s : Controller) (bytes : List Byte) : s.writeData8s bytes = s.writeData bytes := by
  induction bytes generalizing s with
  | nil => exact s.writeData_nil.symm
  | cons b bytes ih =>
      have hrest := ih (s.writeData [b])
      rw [writeData_append] at hrest
      exact hrest

theorem readData_zero (s : Controller) : s.readData 0 = ([], s) := by
  obtain ⟨chip, bus, NFCONT, NFMECCD0, NFMECCD1, main, spare⟩ := s
  cases bus <;> simp [readData, rowBytes, transferred]

theorem readData_succ (s : Controller) (n : Nat) :
    s.readData (n + 1) = ((s.readData 1).1 ++ ((s.readData 1).2.readData n).1, ((s.readData 1).2.readData n).2) := by
  unfold readData transferred mainLocked spareLocked
  cases s.bus with
  | output row column =>
      simp [rowBytes, List.range_succ_eq_map, Function.comp_def, Nat.add_assoc, Nat.add_comm 1]
      split_ifs <;> simp
  | _ =>
      simp [List.replicate_succ]
      split_ifs <;> simp

theorem readData8s_eq (n : Nat) (s : Controller) : readData8s n s = s.readData n := by
  induction n generalizing s with
  | zero => exact s.readData_zero.symm
  | succ n ih =>
      have hone : ∃ b, (s.readData 1).1 = [b] := by
        unfold readData rowBytes
        cases s.bus <;> simp
      obtain ⟨b, hb⟩ := hone
      rw [readData8s, readData_succ]
      simp [bspNandReadData8, hb, ih]

theorem writeAddrs_eq {f : List Word → Bus}
    (hf : ∀ (s : Controller) cycles addr, s.bus = f cycles → s.bspNandWriteAddr addr = { s with bus := f (cycles ++ [addr]) })
    (h : s.bus = f cycles) (more : List Word) : s.writeAddrs more = { s with bus := f (cycles ++ more) } := by
  induction more generalizing s cycles with
  | nil => simp [writeAddrs, ← h]
  | cons cycle more ih =>
      have hrest := ih (s := { s with bus := f (cycles ++ [cycle]) }) rfl
      rw [← hf s cycles cycle h] at hrest
      rw [writeAddrs, List.foldl_cons]
      refine hrest.trans ?_
      rw [hf s cycles cycle h]
      simp

theorem writeAddrs_input (h : s.bus = .input [] []) (cycles : List Word) :
    s.writeAddrs cycles = { s with bus := .input cycles [] } := by
  have hf : ∀ (s : Controller) cycles addr, s.bus = .input cycles [] →
      s.bspNandWriteAddr addr = { s with bus := .input (cycles ++ [addr]) [] } := by
    intro s cycles addr h
    simp [bspNandWriteAddr, h]
  exact writeAddrs_eq (f := fun cycles => .input cycles []) hf h cycles

theorem writeAddrs_setup (h : s.bus = .setup []) (cycles : List Word) :
    s.writeAddrs cycles = { s with bus := .setup cycles } := by
  have hf : ∀ (s : Controller) cycles addr, s.bus = .setup cycles →
      s.bspNandWriteAddr addr = { s with bus := .setup (cycles ++ [addr]) } := by
    intro s cycles addr h
    simp [bspNandWriteAddr, h]
  exact writeAddrs_eq hf h cycles

@[simp] theorem setNFCONT_nil (value : Word) (h : s.main = [] ∧ s.spare = []) :
    (s.setNFCONT value).main = [] ∧ (s.setNFCONT value).spare = [] := by
  unfold setNFCONT
  split <;> simp [h]

theorem startMainEcc_ecc (s : Controller) :
    s.bspNandStartMainEcc.mainLocked = true ∧ s.bspNandStartMainEcc.spareLocked = false ∧
      s.bspNandStartMainEcc.main = [] ∧ s.bspNandStartMainEcc.spare = [] := by
  have hinit : ∀ s : Controller, (s.setNFCONT (s.NFCONT ||| (1 <<< 4 : Word))).main = [] ∧
      (s.setNFCONT (s.NFCONT ||| (1 <<< 4 : Word))).spare = [] := by
    intro s
    simp [setNFCONT]
  have hlocked : ∀ s : Controller, s.mainLocked = s.NFCONT[5] := fun _ => rfl
  unfold bspNandStartMainEcc
  refine ⟨?_, ?_, setNFCONT_nil _ (hinit _)⟩
  · rw [mainLocked_setNFCONT, BitVec.getElem_and, ← hlocked, mainLocked_setNFCONT, BitVec.getElem_or, ← hlocked,
      mainLocked_setNFCONT]
    simp
  · rw [spareLocked_setNFCONT]
    simp

theorem setNFCONT_of_not (h : value[4] = false) : s.setNFCONT value = { s with NFCONT := value } := by
  simp [setNFCONT, h]

theorem startMainEcc_init (s : Controller) : s.bspNandStartMainEcc.NFCONT[4] = false := by
  have hcleared : ∀ s : Controller, (s.setNFCONT (s.NFCONT ||| 16#32)).NFCONT[4] = false := by
    intro s
    simp [setNFCONT]
  unfold bspNandStartMainEcc
  rw [setNFCONT_of_not] <;> simp [hcleared]

/-- Data goes into the chip, and past the code of the spare area. -/
structure Filling (chip : Chip) (cycles : List Word) (data spare : List Byte) (s : Controller) : Prop where
  chip : s.chip = chip
  bus : s.bus = .input cycles data
  init : s.NFCONT[4] = false
  unlocked : s.NFCONT[6] = false
  spare : s.spare = spare

theorem filling_start (s : Controller) (h : s.bus = .input cycles []) :
    Filling s.chip cycles [] [] s.bspNandStartMainEcc := by
  obtain ⟨-, hspare, -, hnil⟩ := s.startMainEcc_ecc
  constructor
  · simp [bspNandStartMainEcc]
  · simp [bspNandStartMainEcc, h]
  · exact s.startMainEcc_init
  · exact hspare
  · exact hnil

theorem Filling.writeData (h : Filling chip cycles data spare s) (bytes : List Byte) :
    Filling chip cycles (data ++ bytes) (spare ++ bytes) (s.writeData bytes) := by
  have hspare : s.spareLocked = false := h.unlocked
  constructor
  all_goals simp [Controller.writeData, transferred, h.bus, h.chip, h.init, h.unlocked, h.spare, hspare]

theorem Filling.stop (h : Filling chip cycles data spare s) : Filling chip cycles data spare s.bspNandStopMainEcc := by
  unfold bspNandStopMainEcc
  rw [setNFCONT_of_not (by simp [h.init])]
  constructor
  all_goals simp [h.bus, h.chip, h.init, h.unlocked, h.spare]

/-- Data comes out of a row of the chip, and the code of the main area takes none of it in. -/
structure Emptying (chip : Chip) (row column : Nat) (s : Controller) : Prop where
  chip : s.chip = chip
  bus : s.bus = .output row column
  locked : s.NFCONT[5] = true
  main : s.main = []

theorem emptying_start (s : Controller) (h : s.bus = .output row column) :
    Emptying s.chip row column s.bspNandStartMainEcc := by
  obtain ⟨hmain, -, hnil, -⟩ := s.startMainEcc_ecc
  constructor
  · simp [bspNandStartMainEcc]
  · simp [bspNandStartMainEcc, h]
  · exact hmain
  · exact hnil

theorem Emptying.stop (h : Emptying chip row column s) : Emptying chip row column s.bspNandStopMainEcc := by
  have hlocked : s.bspNandStopMainEcc.mainLocked = true := by
    simp [bspNandStopMainEcc]
  constructor
  · simp [bspNandStopMainEcc, h.chip]
  · simp [bspNandStopMainEcc, h.bus]
  · exact hlocked
  · unfold bspNandStopMainEcc setNFCONT
    split <;> simp [h.main]

theorem Emptying.readData (h : Emptying chip row column s) (n : Nat) :
    (s.readData n).1 = rowBytes chip.cells row column n ∧
      Emptying chip row (column + n) (s.readData n).2 := by
  have hmain : s.mainLocked = true := h.locked
  constructor
  · simp [Controller.readData, h.bus, h.chip]
  · constructor
    all_goals simp [Controller.readData, transferred, h.bus, h.chip, h.locked, h.main, hmain]

theorem writtenBack_eq (ecc : Word)
    (h0 : s.NFMECCD0 = ((ecc &&& 0xff00) <<< 8 ||| ecc &&& 0xff))
    (h1 : s.NFMECCD1 = ((ecc &&& 0xff000000) >>> 8 ||| (ecc &&& 0x00ff0000) >>> 16)) : s.writtenBack = ecc := by
  rw [writtenBack, h0, h1]
  apply BitVec.eq_of_getLsbD_eq
  intro i hi
  interval_cases i <;> simp [bytesWord]

theorem report_single {i j : Nat} (hi : i < 2048) (hj : j < 8) :
    BitVec.ofNat 32 (128 * i + 16 * j + 1) &&& 3 = 1 ∧
      ((BitVec.ofNat 32 (128 * i + 16 * j + 1) >>> 7) &&& 0x7ff).toNat = i ∧
      ((BitVec.ofNat 32 (128 * i + 16 * j + 1) >>> 4) &&& 0x07).toNat = j := by
  have hnat : (BitVec.ofNat 32 (128 * i + 16 * j + 1)).toNat = 128 * i + 16 * j + 1 := by
    rw [BitVec.toNat_ofNat]
    omega
  have h3 : (3 : Word) = BitVec.ofNat 32 (2 ^ 2) - 1 := by decide
  have h7 : (0x07 : Word) = BitVec.ofNat 32 (2 ^ 3) - 1 := by decide
  have h7ff : (0x7ff : Word) = BitVec.ofNat 32 (2 ^ 11) - 1 := by decide
  refine ⟨?_, ?_, ?_⟩
  · apply BitVec.eq_of_toNat_eq
    rw [h3, toNat_and_mask _ (by decide), hnat]
    change (128 * i + 16 * j + 1) % 4 = 1
    omega
  · rw [h7ff, toNat_and_mask _ (by decide), toNat_shift, hnat]
    omega
  · rw [h7, toNat_and_mask _ (by decide), toNat_shift, hnat]
    omega

theorem mainCheckEcc_eq (unit : EccUnit) (s : Controller) (ecc : Word) :
    (s.bspNandMainCheckEcc unit ecc).1 =
      match unit.main.diagnose ecc s.main with
      | .clean => (0, 0, 0)
      | .single i j => (1, i, j)
      | .broken => (-1, 0, 0) := by
  have hback := writtenBack_eq (s := { s with
    NFMECCD0 := (ecc &&& 0xff00) <<< 8 ||| ecc &&& 0xff
    NFMECCD1 := (ecc &&& 0xff000000) >>> 8 ||| (ecc &&& 0x00ff0000) >>> 16 }) ecc rfl rfl
  unfold bspNandMainCheckEcc NFESTAT0
  dsimp only
  rw [hback]
  cases h : unit.main.diagnose ecc s.main with
  | clean => simp
  | broken => simp
  | single i j =>
      obtain ⟨hi, hj⟩ := unit.main.inside h
      obtain ⟨hbits, hbyte, hbit⟩ := report_single hi hj
      dsimp only
      rw [hbits, hbyte, hbit, if_neg (by decide), if_pos rfl]

end Controller

end Fl2440.Yaffs
