import Mathlib.Logic.Basic
import Fl2440.Lib.Memory

/-! The NAND chip behind the controller: an array of bytes addressed by row
(page) and column, and a record of the commands that change it. How each such
command turns out is given from outside. -/
namespace Fl2440.MyBoot

open Fl2440.Lib

/-- `unsigned long` and `int` of the board. -/
abbrev Word := BitVec 32

/-- The byte at a row and a column. The spare area follows the main area. -/
abbrev Cells := Nat → Nat → Byte

inductive Command where
  | erase (row : Nat) (passed : Bool)
  | program (row column : Nat) (data : List Byte) (passed : Bool)
deriving DecidableEq

namespace Command

def passed : Command → Bool
  | erase _ passed => passed
  | program _ _ _ passed => passed

def row : Command → Nat
  | erase row _ => row
  | program row _ _ _ => row

def isErase : Command → Bool
  | erase _ _ => true
  | program .. => false

/-- The bytes a program command sends to the page register. -/
def sent : Command → List Byte
  | erase _ _ => []
  | program _ _ data _ => data

end Command

/-- A command together with the array as it was when the command came. -/
structure Issued where
  before : Cells
  command : Command

structure Chip where
  cells : Cells
  log : List Issued

/-- How commands turn out: `none` passes, a failure leaves any bytes behind. An
erase depends on the block, a program on how many commands came before it. -/
structure Wear where
  erase : Nat → Option Cells
  program : Nat → Option (Nat → Byte)

/-- Status register: I/O 0 is 0 for pass and 1 for fail. -/
def statusPass : Byte := 0xc0
def statusFail : Byte := 0xc1

/-- Rows that one erase command covers. -/
def pagesPerBlock : Nat := 64

/-- Programming can only clear bits. -/
def Cells.programmed (cells : Cells) (row column : Nat) (data : List Byte) : Cells :=
  fun r c => if r = row ∧ column ≤ c ∧ c < column + data.length
    then cells r c &&& data.getD (c - column) 0 else cells r c

def Cells.withRow (cells : Cells) (row : Nat) (junk : Nat → Byte) : Cells :=
  fun r c => if r = row then junk c else cells r c

def Cells.withBlock (cells : Cells) (block : Nat) (content : Cells) : Cells :=
  fun r c => if r / pagesPerBlock = block then content r c else cells r c

def erased : Cells := fun _ _ => 0xff

namespace Chip

/-- SEQIN … PAGEPROG, STATUS. -/
def program (wear : Wear) (chip : Chip) (row column : Nat) (data : List Byte) : Byte × Chip :=
  match wear.program chip.log.length with
  | none => (statusPass,
      { cells := chip.cells.programmed row column data
        log := chip.log ++ [⟨chip.cells, .program row column data true⟩] })
  | some junk => (statusFail,
      { cells := chip.cells.withRow row junk
        log := chip.log ++ [⟨chip.cells, .program row column data false⟩] })

/-- ERASE1 … ERASE2, STATUS. -/
def erase (wear : Wear) (chip : Chip) (row : Nat) : Byte × Chip :=
  match wear.erase (row / pagesPerBlock) with
  | none => (statusPass,
      { cells := chip.cells.withBlock (row / pagesPerBlock) erased
        log := chip.log ++ [⟨chip.cells, .erase row true⟩] })
  | some junk => (statusFail,
      { cells := chip.cells.withBlock (row / pagesPerBlock) junk
        log := chip.log ++ [⟨chip.cells, .erase row false⟩] })

def commands (chip : Chip) : List Command := chip.log.map Issued.command

theorem program_status (wear : Wear) (chip : Chip) (row column : Nat) (data : List Byte) :
    (chip.program wear row column data).1 &&& 0x01 ≠ 0 ↔
      (wear.program chip.log.length).isSome := by
  unfold program
  cases wear.program chip.log.length <;> simp [statusPass, statusFail]

theorem erase_status (wear : Wear) (chip : Chip) (row : Nat) :
    (chip.erase wear row).1 &&& 0x01 ≠ 0 ↔ (wear.erase (row / pagesPerBlock)).isSome := by
  unfold erase
  cases wear.erase (row / pagesPerBlock) <;> simp [statusPass, statusFail]

theorem commands_program (wear : Wear) (chip : Chip) (row column : Nat) (data : List Byte) :
    (chip.program wear row column data).2.commands =
      chip.commands ++ [.program row column data (wear.program chip.log.length).isNone] := by
  unfold program commands
  cases wear.program chip.log.length <;> simp

theorem commands_erase (wear : Wear) (chip : Chip) (row : Nat) :
    (chip.erase wear row).2.commands = chip.commands ++ [.erase row (wear.erase (row / pagesPerBlock)).isNone] := by
  unfold erase commands
  cases wear.erase (row / pagesPerBlock) <;> simp

theorem program_row_ne (wear : Wear) (chip : Chip) {row r : Nat} (column : Nat) (data : List Byte)
    (h : r ≠ row) (c : Nat) : (chip.program wear row column data).2.cells r c = chip.cells r c := by
  unfold program
  cases wear.program chip.log.length <;> simp [Cells.programmed, Cells.withRow, h]

theorem erase_block_ne (wear : Wear) (chip : Chip) {row r : Nat}
    (h : r / pagesPerBlock ≠ row / pagesPerBlock) (c : Nat) :
    (chip.erase wear row).2.cells r c = chip.cells r c := by
  unfold erase
  cases wear.erase (row / pagesPerBlock) <;> simp [Cells.withBlock, h]

end Chip

end Fl2440.MyBoot
