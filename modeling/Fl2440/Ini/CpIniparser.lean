import Fl2440.Lib.Stdio

/-! `cp_iniparser.c`: loading and saving. Strings are without their NUL. An access to what
was not written is a fault, and `dictionary_set` does not fail. -/
namespace Fl2440.Ini

open Fl2440.Lib

def asciilinesz : Nat := 1024

/-- The entries in the order of their slots. -/
abbrev Dictionary := List (List Byte × Option (List Byte))

def dictionarySet : Dictionary → List Byte → Option (List Byte) → Dictionary
  | [], key, val => [(key, val)]
  | entry :: d, key, val =>
      if entry.1 = key then (key, val) :: d else entry :: dictionarySet d key val

def dictionaryGet (d : Dictionary) (key : List Byte) : Option (Option (List Byte)) :=
  (d.find? (·.1 = key)).map (·.2)

def strlwc (s : List Byte) : List Byte :=
  s.map fun b => if chr 'A' ≤ b ∧ b ≤ chr 'Z' then b + 32 else b

def strstrip (s : List Byte) : List Byte := (s.dropWhile isSpace).rdropWhile isSpace

inductive LineStatus where
  | error
  | empty
  | comment
  | section
  | value (key value : List Byte)
deriving DecidableEq, Repr

/-- What `iniparser_line` leaves of its line: nothing, what stands from an offset on, or all
of it. -/
inductive Left where
  | cleared
  | from (offset : Nat)
  | kept
deriving DecidableEq, Repr

def sectionFormat : List Directive := [.lit (chr '['), .set (· ≠ chr ']')]

def quotedFormat (quote : Byte) : List Directive :=
  [.set (· ≠ chr '='), .space, .lit (chr '='), .space, .lit quote, .set (· ≠ quote), .lit quote]

def plainFormat : List Directive :=
  [.set (· ≠ chr '='), .space, .lit (chr '='), .space, .set fun b => b ≠ chr ';' && b ≠ chr '#']

def commentFormat : List Directive :=
  [.set (· ≠ chr '='), .space, .lit (chr '='), .space, .set fun b => b = chr ';' || b = chr '#']

def emptyFormat : List Directive := [.set (· ≠ chr '='), .space, .set (· = chr '=')]

/-- The first of the formats that assigns both. -/
def firstPair (formats : List (List Directive)) (line : List Byte) : Option (List Byte × List Byte) :=
  formats.findSome? fun format =>
    match sscanf format line with
    | [key, value] => some (key, value)
    | _ => none

/-- The body of `iniparser_line`, on the stripped line: the status, `section`, what is left. -/
def scanLine (line sect : List Byte) : LineStatus × List Byte × Left :=
  match line with
  | [] => (.empty, sect, .cleared)
  | b :: _ =>
      if b = chr '#' ∨ b = chr ';' then (.comment, sect, .cleared)
      else if b = chr '[' then
        let sect := strlwc (strstrip ((sscanf sectionFormat line).headD sect))
        (.section, sect, .from (sect.length + 2))
      else
        match firstPair [quotedFormat (chr '"'), quotedFormat (chr '\''), plainFormat] line with
        | some (key, value) =>
            let key := strlwc (strstrip key)
            let value := strstrip value
            let value := if value.take 2 = ascii "\"\"" ∨ value.take 2 = ascii "''" then [] else value
            let next := (line.dropWhile (· ≠ chr '='))[1]?
            let quotes := if next = some (chr '\'') ∨ next = some (chr '"') then 2 else 0
            (.value key value, sect, .from (key.length + value.length + 1 + quotes))
        | none =>
            match firstPair [commentFormat, emptyFormat] line with
            | some (key, _) => (.value (strlwc (strstrip key)) [], sect, .kept)
            | none => (.error, sect, .cleared)

/-- `left_line`: what the array has behind the NUL of the line is indeterminate. -/
def leftLine (line : List Byte) (offset : Nat) : Except Fault (List Byte) :=
  if offset ≤ line.length then .ok (strstrip (line.drop offset)) else .error .bounds

def iniparserLine (inputLine sect : List Byte) : Except Fault (LineStatus × List Byte × List Byte) :=
  let line := strstrip inputLine
  match scanLine line sect with
  | (sta, sect, .cleared) => .ok (sta, sect, if line = [] then inputLine else [])
  | (sta, sect, .kept) => .ok (sta, sect, inputLine)
  | (sta, sect, .from offset) => do
      let left ← leftLine line offset
      return (sta, sect, if left = [] then [] else left ++ [newline])

structure Loading where
  line : List Byte := []
  last : Nat := 0
  sect : List Byte := []
  errs : Nat := 0
  dict : Dictionary := []
deriving DecidableEq, Repr

/-- The switch over the status; `tmp` has to hold the section, a colon and the key. -/
def Loading.store (s : Loading) : LineStatus → Except Fault Loading
  | .empty | .comment => .ok s
  | .section => .ok { s with
      errs := 0
      dict := dictionarySet s.dict s.sect none }
  | .value key value =>
      if s.sect.length + 1 + key.length ≤ asciilinesz then
        .ok { s with
          errs := 0
          dict := dictionarySet s.dict (s.sect ++ chr ':' :: key) (some value) }
      else .error .bounds
  | .error => .ok { s with errs := s.errs + 1 }

/-- From the label `CONTINUE_PARSER` to the next `fgets`; `none` is `return NULL`. What is
left of a line is shorter than the line, which bounds the rounds. -/
def continueParser : Nat → Loading → Except Fault (Option Loading)
  | 0, s => .ok (some s)
  | rounds + 1, s =>
      match s.line with
      | [] => .error .bounds
      | [_] => .ok (some s)
      | _ :: _ :: _ =>
          if s.line.getLast? ≠ some newline then .ok none
          else
            let line := s.line.rdropWhile isSpace
            match line.getLast? with
            -- `line[-1]`
            | none => .error .bounds
            | some b =>
                if b = chr '\\' then
                  .ok (some { s with
                    line
                    last := line.length - 1 })
                else do
                  let (sta, sect, line) ← iniparserLine line s.sect
                  let s ← { s with
                    line
                    last := 0
                    sect }.store sta
                  if s.line ≠ [] then continueParser rounds s else return some s

/-- A NUL in the file ends the string in the array; an empty one is parsed as well. -/
def loadLoop : Nat → List Byte → Loading → Except Fault (Option Loading)
  | 0, _, s => .ok (some s)
  | rounds + 1, file, s =>
      match fgets (asciilinesz - s.last) file with
      | none => .ok (some s)
      | some (got, file) => do
          let line := s.line.take s.last ++ got.takeWhile (· ≠ 0)
          let some s ← continueParser (max 1 line.length) { s with line } | return none
          loadLoop rounds file s

/-- Every `fgets` takes a byte of the file. -/
def iniparserLoad (file : List Byte) : Except Fault (Option Dictionary) := do
  let some s ← loadLoop file.length file {} | return none
  return if s.errs ≠ 0 then none else some s.dict

/-- `%-30s`. -/
def padRight (s : List Byte) : List Byte := s ++ List.replicate (30 - s.length) (chr ' ')

def iniparserDumpsectionIni (d : Dictionary) (s : List Byte) : List Byte :=
  if (dictionaryGet d (strlwc s)).isNone then []
  else
    let keym := s ++ [chr ':']
    newline :: chr '[' :: (s ++ [chr ']', newline]) ++
      (d.filter fun entry => keym.isPrefixOf entry.1).flatMap (fun (key, val) =>
        padRight (key.drop (s.length + 1)) ++ ascii " = " ++ val.getD [] ++ [newline]) ++ [newline]

def iniparserGetsecnames (d : Dictionary) : List (List Byte) :=
  (d.filter fun entry => !entry.1.contains (chr ':')).map (·.1)

def iniparserDumpIni (d : Dictionary) : List Byte :=
  if (iniparserGetsecnames d).length < 1 then
    d.flatMap fun (key, val) => key ++ ascii " = " ++ val.getD (ascii "(null)") ++ [newline]
  else (iniparserGetsecnames d).flatMap (iniparserDumpsectionIni d) ++ [newline]

end Fl2440.Ini
