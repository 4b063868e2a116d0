import Fl2440.Lib.CString

/-! The conversions of `nmea_parse.c`: numbers, and `nmea_scanf` with its own idea of
formats. A field ends at the character that follows its conversion in the format. -/
namespace Fl2440.Gpsd

open Fl2440.Lib

def nmeaConvstrBuf : Nat := 256
def nmeaTimeparseBuf : Nat := 256

/-- What the program does with `double`s. -/
class CDouble (F : Type) where
  zero : F
  strtod : List Byte → F
  neg : F → F
  /-- The product with `NMEA_TUD_KNOTS`. -/
  knots : F → F

def nmeaAtoi (str : List Byte) (radix : Nat) : Int :=
  if str.length < nmeaConvstrBuf then strtol radix str else 0

def nmeaAtof {F : Type} [CDouble F] (str : List Byte) : F :=
  if str.length < nmeaConvstrBuf then CDouble.strtod str else CDouble.zero

/-- What a conversion that was counted stores: nothing for an empty field. -/
inductive Stored where
  | nothing
  | char (b : Byte)
  | str (s : List Byte)
  | float (s : List Byte)
  | int (n : Int)
deriving DecidableEq, Repr

/-- `tok_type`, with the digits of the width so far; there are none yet after `%`. -/
inductive TokType where
  | compare
  | width (digits : List Byte)

/-- The field of a conversion and the bytes behind it; `none` is the label `fail`. -/
def scanField (conv : Byte) (next : Option Byte) (digits buff : List Byte) :
    Option (List Byte × List Byte) :=
  let width := if digits = [] then 0 else (nmeaAtoi digits 10).toNat
  let width :=
    if width = 0 && (conv = chr 'c' || conv = chr 'C') && buff.head? ≠ some (next.getD 0) then 1
    else width
  if width ≠ 0 then
    if width ≤ buff.length then some (buff.take width, buff.drop width) else none
  else
    match next with
    | none => some (buff, [])
    | some next => some (buff.takeWhile (· ≠ next), buff.dropWhile (· ≠ next))

/-- `none` is a conversion that there is not. -/
def storeField (conv : Byte) (field : List Byte) : Option Stored :=
  if field = [] then some .nothing
  else if conv = chr 'c' || conv = chr 'C' then field.head?.map .char
  else if conv = chr 's' || conv = chr 'S' then some (.str field)
  else if [chr 'f', chr 'g', chr 'G', chr 'e', chr 'E'].contains conv then some (.float field)
  else if [chr 'd', chr 'i', chr 'u'].contains conv then some (.int (nmeaAtoi field 10))
  else if conv = chr 'x' || conv = chr 'X' then some (.int (nmeaAtoi field 16))
  else if conv = chr 'o' then some (.int (nmeaAtoi field 8))
  else none

/-- One entry for each conversion that is counted. -/
def nmeaScanf : TokType → (format buff : List Byte) → List Stored
  | _, [], _ => []
  | _, _ :: _, [] => []
  | .compare, f :: format, b :: buff =>
      if f = chr '%' then nmeaScanf (.width []) format (b :: buff)
      else if b = f then nmeaScanf .compare format buff
      else []
  | .width digits, f :: format, b :: buff =>
      if isDigit f then nmeaScanf (.width (digits ++ [f])) format (b :: buff)
      else
        match scanField f format.head? digits (b :: buff) with
        | none => []
        | some (field, rest) =>
            match storeField f field with
            | none => [.nothing]
            | some stored => stored :: nmeaScanf .compare format rest

def intAt (stored : List Stored) (i : Nat) : Int :=
  match stored[i]? with
  | some (.int n) => n
  | _ => 0

def charAt (stored : List Stored) (i : Nat) : Byte :=
  match stored[i]? with
  | some (.char b) => b
  | _ => 0

def floatAt {F : Type} [CDouble F] (stored : List Stored) (i : Nat) : F :=
  match stored[i]? with
  | some (.float s) => nmeaAtof s
  | _ => CDouble.zero

structure NmeaTime where
  year : Int := 0
  mon : Int := 0
  day : Int := 0
  hour : Int := 0
  min : Int := 0
  sec : Int := 0
  hsec : Int := 0
deriving DecidableEq, Repr

def nmeaParseTime (buff : List Byte) (res : NmeaTime) : Option NmeaTime :=
  match buff.length with
  | 6 =>
      let stored := nmeaScanf .compare (ascii "%2d%2d%2d") buff
      if stored.length = 3 then
        some { res with
          hour := intAt stored 0
          min := intAt stored 1
          sec := intAt stored 2 }
      else none
  | 8 | 9 | 10 =>
      let stored := nmeaScanf .compare (ascii "%2d%2d%2d.%d") buff
      if stored.length = 4 then
        some { res with
          hour := intAt stored 0
          min := intAt stored 1
          sec := intAt stored 2
          hsec := intAt stored 3 }
      else none
  | _ => none

example : nmeaParseTime (ascii "081803.25") {} = some ⟨0, 0, 0, 8, 18, 3, 25⟩ := by decide +kernel

end Fl2440.Gpsd
