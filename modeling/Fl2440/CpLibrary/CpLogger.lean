import Fl2440.Lib.CharArray
import Fl2440.Lib.While

/-! The hex dumps: `cp_log_dump` of `cp_logger.c` and `cp_cstring_dump` of `cp_string.c`. Both
put sixteen bytes on a line; they count the bytes in different ways. -/
namespace Fl2440.CpLibrary

open Fl2440.Lib

def lineLen : Nat := 81

def charsPerLine : Nat := 16

def printChar : List Byte :=
  ascii "                " ++
  ascii "                " ++
  ascii " !\"#$%&'()*+,-./" ++
  ascii "0123456789:;<=>?" ++
  ascii "@ABCDEFGHIJKLMNO" ++
  ascii "PQRSTUVWXYZ[\\]^_" ++
  ascii "`abcdefghijklmno" ++
  ascii "pqrstuvwxyz\x7b|\x7d~ " ++
  ascii "                " ++
  ascii "                " ++
  ascii " ???????????????" ++
  ascii "????????????????" ++
  ascii "????????????????" ++
  ascii "????????????????" ++
  ascii "????????????????" ++
  ascii "????????????????"

theorem printChar_length : printChar.length = 256 := by decide +kernel

def image (c : Byte) : Byte := printChar.get ⟨c.toNat, printChar_length ▸ c.isLt⟩

theorem printChar_graphic : printChar.all (fun b => 32 ≤ b.toNat) = true := by decide +kernel

theorem image_graphic (c : Byte) : 32 ≤ (image c).toNat :=
  of_decide_eq_true (List.all_eq_true.mp printChar_graphic _ (List.get_mem _ _))

/-- `"%02X "`, printed into four bytes. -/
def hexText (c : Byte) : List Byte := (formatHex 2 (c.setWidth 32) ++ [chr ' ']).take 3

/-- The arrays `prn` and `lit`. -/
structure Line where
  prn : List Byte
  lit : List Byte

/-- `"%s  %s\n"` -/
def Line.text (line : Line) : Except Fault (List Byte) := do
  let prn ← cstr line.prn
  let lit ← cstr line.lit
  return prn ++ ascii "  " ++ lit ++ [newline]

/-- `"%08X: "` -/
def offsetText (idx : Nat) : List Byte := formatHex 8 (BitVec.ofNat 32 idx) ++ ascii ": "

/-- The byte at `idx`; a plain `char` is unsigned. `n` bounds what `strncat` takes. -/
def dumpByte (buf : List Byte) (n : Nat) (line : Line) (idx : Nat) : Except Fault Line :=
  match buf[idx]? with
  | none => .error .bounds
  | some c => do
      let prn ← strncat line.prn (hexText c) n
      return ⟨prn, line.lit.set (idx % charsPerLine) (image c)⟩

/-- `while ((++idx % CHARS_PER_LINE) != 0)`, for at most so many rounds. What `idx` is behind
the buffer is only asked modulo 16, so that it may be a number here. -/
def padLine : (rounds idx : Nat) → List Byte → Except Fault (List Byte)
  | 0, _, prn => .ok prn
  | rounds + 1, idx, prn =>
      if (idx + 1) % charsPerLine ≠ 0 then do
        let prn ← strncat prn (ascii "   ") lineLen
        padLine rounds (idx + 1) prn
      else .ok prn

structure Logger where
  level : Int
  /-- what is in the open file -/
  fp : Option (List Byte)
deriving DecidableEq

def logLine (line : Line) : Option (List Byte) → Except Fault (Option (List Byte))
  | none => .ok none
  | some file => do
      let text ← line.text
      return some (file ++ text)

/-- `do … while (--rc > 0 && (++idx % CHARS_PER_LINE != 0))`, with `rc` and `idx` behind it. -/
def logBytes (buf : List Byte) : (rc idx : Nat) → Line → Except Fault (Nat × Nat × Line)
  | 0, idx, line => .ok (0, idx, line)
  | rc + 1, idx, line => do
      let line ← dumpByte buf lineLen line idx
      if 0 < rc then
        if (idx + 1) % charsPerLine ≠ 0 then logBytes buf rc (idx + 1) line else return (rc, idx + 1, line)
      else return (rc, idx, line)

structure LogDump where
  rc : Nat
  idx : Nat
  line : Line
  line_done : Bool
  fp : Option (List Byte)

def logRound (buf : List Byte) (s : LogDump) : Except Fault LogDump := do
  let prn ← if s.line_done then sprintf s.line.prn (offsetText s.idx) else .ok s.line.prn
  let (rc, idx, line) ← logBytes buf s.rc s.idx { s.line with prn }
  if idx % charsPerLine = 0 then
    let fp ← logLine line s.fp
    return ⟨rc, idx, line, true, fp⟩
  else return ⟨rc, idx, line, false, s.fp⟩

/-- The end of a line that is not done: its last byte is stored a second time. -/
def logRest (buf : List Byte) (s : LogDump) : Except Fault (Option (List Byte)) :=
  if s.line_done then .ok s.fp
  else
    match buf[s.idx]? with
    | none => .error .bounds
    | some c => do
        let ldx := s.idx % charsPerLine
        let lit := (s.line.lit.set ldx (image c)).set (ldx + 1) 0
        let prn ← padLine charsPerLine s.idx s.line.prn
        logLine ⟨prn, lit⟩ s.fp

/-- `line` is what the arrays have in them before. Each round takes a byte, which bounds the rounds. -/
def cpLogDump (logger : Option Logger) (level : Int) (buf : List Byte) (len : Int) (line : Line) :
    Except Fault (Option Logger) :=
  match logger with
  | none => .ok none
  | some logger =>
      if level > logger.level then .ok (some logger)
      else do
        let lit := line.lit.set charsPerLine 0
        let s ← whileLoopE (fun s => 0 < s.rc) (logRound buf) len.toNat
          ⟨len.toNat, 0, { line with lit }, true, logger.fp⟩
        let fp ← logRest buf s
        return some { logger with fp }

/-- `do … while (--rc > 0 && (idx % CHARS_PER_LINE != 0))`, where `++idx` stands in the body. -/
def cstringBytes (buf : List Byte) : (rc idx : Nat) → Line → Except Fault (Nat × Nat × Line)
  | 0, idx, line => .ok (0, idx, line)
  | rc + 1, idx, line => do
      let line ← dumpByte buf 4 line idx
      if 0 < rc ∧ (idx + 1) % charsPerLine ≠ 0 then cstringBytes buf rc (idx + 1) line
      else return (rc, idx + 1, line)

structure CstringDump where
  rc : Nat
  idx : Nat
  line : Line
  line_done : Bool
  stdout : List Byte

def cstringRound (buf : List Byte) (s : CstringDump) : Except Fault CstringDump := do
  let prn ← if s.line_done then sprintf s.line.prn (offsetText s.idx) else .ok s.line.prn
  let (rc, idx, line) ← cstringBytes buf s.rc s.idx { s.line with prn }
  if idx % charsPerLine = 0 then
    let text ← line.text
    return ⟨rc, idx, line, true, s.stdout ++ text⟩
  else if rc = 0 then
    let prn ← strncat line.prn (ascii "   ") lineLen
    return ⟨rc, idx, { line with prn }, false, s.stdout⟩
  else return ⟨rc, idx, line, false, s.stdout⟩

def cstringRest (s : CstringDump) : Except Fault (List Byte) :=
  if s.line_done then .ok s.stdout
  else do
    let lit := s.line.lit.set (s.idx % charsPerLine) 0
    let prn ← padLine charsPerLine s.idx s.line.prn
    let text ← Line.text ⟨prn, lit⟩
    return s.stdout ++ text

def cpCstringDump (data : List Byte) (len : Int) (line : Line) : Except Fault (List Byte) := do
  let lit := line.lit.set charsPerLine 0
  let s ← whileLoopE (fun s => 0 < s.rc) (cstringRound data) len.toNat ⟨len.toNat, 0, { line with lit }, true, []⟩
  cstringRest s

end Fl2440.CpLibrary
