import Fl2440.Gpsd.NmeaScanf
import Mathlib.Data.Vector.Basic

/-! `nmea_parse.c` and `nmea_info.c`: from the bytes of one read to `nmeaINFO`. What an
uninitialised buffer on the stack holds is an argument; `malloc` does not fail, and what
is logged is left out. -/
namespace Fl2440.Gpsd

open Fl2440.Lib

def nmeaSigBad : Int := 0
def nmeaSigMid : Int := 2
def nmeaFixBad : Int := 1
def nmeaFix2D : Int := 2
def nmeaMaxsat : Nat := 12
def nmeaSatinpack : Int := 4

inductive NmeaPackType where
  | non
  | gga
  | gsa
  | gsv
  | rmc
  | vtg
deriving DecidableEq, Repr

def NmeaPackType.mask : NmeaPackType → BitVec 32
  | .non => 0x0000
  | .gga => 0x0001
  | .gsa => 0x0002
  | .gsv => 0x0004
  | .rmc => 0x0008
  | .vtg => 0x0010

structure NmeaSatellite where
  id : Int := 0
  inUse : Int := 0
  elv : Int := 0
  azimuth : Int := 0
  sig : Int := 0
deriving DecidableEq, Repr

structure NmeaSatinfo where
  inuse : Int
  inview : Int
  sat : Vector NmeaSatellite nmeaMaxsat
deriving DecidableEq, Repr

structure NmeaInfo (F : Type) where
  smask : BitVec 32
  utc : NmeaTime
  sig : Int
  fix : Int
  PDOP : F
  HDOP : F
  VDOP : F
  lat : F
  lon : F
  elv : F
  speed : F
  direction : F
  declination : F
  satinfo : NmeaSatinfo
deriving DecidableEq, Repr

structure NmeaGPGGA (F : Type) where
  utc : NmeaTime
  lat : F
  ns : Byte
  lon : F
  ew : Byte
  sig : Int
  satinuse : Int
  HDOP : F
  elv : F
  elvUnits : Byte
  diff : F
  diffUnits : Byte
  dgpsAge : F
  dgpsSid : Int

structure NmeaGPGSA (F : Type) where
  fixMode : Byte
  fixType : Int
  satPrn : List Int
  PDOP : F
  HDOP : F
  VDOP : F

structure NmeaGPGSV where
  packCount : Int
  packIndex : Int
  satCount : Int
  satData : Vector NmeaSatellite 4

structure NmeaGPRMC (F : Type) where
  utc : NmeaTime
  status : Byte
  lat : F
  ns : Byte
  lon : F
  ew : Byte
  speed : F
  direction : F
  declination : F
  declinEw : Byte
  mode : Byte

structure NmeaGPVTG (F : Type) where
  dir : F
  dirT : Byte
  dec : F
  decM : Byte
  spn : F
  spnN : Byte
  spk : F
  spkK : Byte

def nmeaPackType (buff : List Byte) (buffSz : Nat) : NmeaPackType :=
  if buffSz < 5 then .non
  else if buff.take 5 = ascii "GPGGA" then .gga
  else if buff.take 5 = ascii "GPGSA" then .gsa
  else if buff.take 5 = ascii "GPGSV" then .gsv
  else if buff.take 5 = ascii "GPRMC" then .rmc
  else if buff.take 5 = ascii "GPVTG" then .vtg
  else .non

/-- `time_buff`, which a first field that is empty leaves as the stack had it. -/
def timeBuff (stack : List Byte) (stored : List Stored) : Except Fault (List Byte) :=
  match stored.head? with
  | some (.str s) =>
      if s.length < nmeaTimeparseBuf then .ok (s ++ 0 :: stack.drop (s.length + 1))
      else .error .bounds
  | _ => .ok stack

section Parse

variable {F : Type} [CDouble F]

def nmeaParseGPGGA (buff stack : List Byte) : Except Fault (Option (NmeaGPGGA F)) := do
  let stored := nmeaScanf .compare (ascii "$GPGGA,%s,%f,%C,%f,%C,%d,%d,%f,%f,%C,%f,%C,%f,%d*") buff
  let time ← timeBuff stack stored
  if stored.length ≠ 14 then return none
  else
    let time ← cstr time
    return (nmeaParseTime time {}).map fun utc =>
      { utc
        lat := floatAt stored 1
        ns := charAt stored 2
        lon := floatAt stored 3
        ew := charAt stored 4
        sig := intAt stored 5
        satinuse := intAt stored 6
        HDOP := floatAt stored 7
        elv := floatAt stored 8
        elvUnits := charAt stored 9
        diff := floatAt stored 10
        diffUnits := charAt stored 11
        dgpsAge := floatAt stored 12
        dgpsSid := intAt stored 13 }

def nmeaParseGPGSA (buff : List Byte) : Option (NmeaGPGSA F) :=
  let stored := nmeaScanf .compare
    (ascii "$GPGSA,%C,%d,%d,%d,%d,%d,%d,%d,%d,%d,%d,%d,%d,%d,%f,%f,%f*") buff
  if stored.length ≠ 17 then none
  else some
    { fixMode := charAt stored 0
      fixType := intAt stored 1
      satPrn := (List.range nmeaMaxsat).map fun i => intAt stored (2 + i)
      PDOP := floatAt stored 14
      HDOP := floatAt stored 15
      VDOP := floatAt stored 16 }

/-- How many satellites a GSV sentence describes, from its index and the total. -/
def gsvCount (packIndex satCount : Int) : Int :=
  let nsat := cint (cint (packIndex - 1) * nmeaSatinpack)
  if satCount < cint (nsat + nmeaSatinpack) then cint (satCount - nsat) else nmeaSatinpack

def nmeaParseGPGSV (buff : List Byte) : Option NmeaGPGSV :=
  let stored := nmeaScanf .compare (ascii ("$GPGSV,%d,%d,%d," ++ "%d,%d,%d,%d," ++
    "%d,%d,%d,%d," ++ "%d,%d,%d,%d," ++ "%d,%d,%d,%d*")) buff
  let nsen : Int := stored.length
  let nsat := cint (cint (gsvCount (intAt stored 1) (intAt stored 2) * 4) + 3)
  if nsen < nsat || nsen > nmeaSatinpack * 4 + 3 then none
  else some
    { packCount := intAt stored 0
      packIndex := intAt stored 1
      satCount := intAt stored 2
      satData := Vector.ofFn fun i : Fin 4 =>
        { id := intAt stored (3 + 4 * i)
          elv := intAt stored (4 + 4 * i)
          azimuth := intAt stored (5 + 4 * i)
          sig := intAt stored (6 + 4 * i) } }

def nmeaParseGPRMC (buff stack : List Byte) : Except Fault (Option (NmeaGPRMC F)) := do
  let stored := nmeaScanf .compare (ascii "$GPRMC,%s,%C,%f,%C,%f,%C,%f,%f,%2d%2d%2d,%f,%C,%C*") buff
  let time ← timeBuff stack stored
  if stored.length ≠ 13 ∧ stored.length ≠ 14 then return none
  else
    let time ← cstr time
    let date : NmeaTime :=
      { day := intAt stored 8
        mon := intAt stored 9
        year := intAt stored 10 }
    return (nmeaParseTime time date).map fun utc =>
      { utc := { utc with
          year := if utc.year < 90 then utc.year + 100 else utc.year
          mon := utc.mon - 1 }
        status := charAt stored 1
        lat := floatAt stored 2
        ns := charAt stored 3
        lon := floatAt stored 4
        ew := charAt stored 5
        speed := floatAt stored 6
        direction := floatAt stored 7
        declination := floatAt stored 11
        declinEw := charAt stored 12
        mode := charAt stored 13 }

def nmeaParseGPVTG (buff : List Byte) : Option (NmeaGPVTG F) :=
  let stored := nmeaScanf .compare (ascii "$GPVTG,%f,%C,%f,%C,%f,%C,%f,%C*") buff
  if stored.length ≠ 8 then none
  else
    let pack : NmeaGPVTG F :=
      { dir := floatAt stored 0
        dirT := charAt stored 1
        dec := floatAt stored 2
        decM := charAt stored 3
        spn := floatAt stored 4
        spnN := charAt stored 5
        spk := floatAt stored 6
        spkK := charAt stored 7 }
    if pack.dirT ≠ chr 'T' ∨ pack.decM ≠ chr 'M' ∨ pack.spnN ≠ chr 'N' ∨ pack.spkK ≠ chr 'K' then none
    else some pack

def signed (positive : Bool) (x : F) : F := if positive then x else CDouble.neg x

def nmeaGPGGA2info (pack : NmeaGPGGA F) (info : NmeaInfo F) : NmeaInfo F :=
  { info with
    utc := { info.utc with
      hour := pack.utc.hour
      min := pack.utc.min
      sec := pack.utc.sec
      hsec := pack.utc.hsec }
    sig := pack.sig
    HDOP := pack.HDOP
    elv := pack.elv
    lat := signed (pack.ns = chr 'N') pack.lat
    lon := signed (pack.ew = chr 'E') pack.lon
    smask := info.smask ||| NmeaPackType.gga.mask }

def markUsed (prn inview : Int) (marked : Vector NmeaSatellite nmeaMaxsat × Int) :
    Except Fault (Vector NmeaSatellite nmeaMaxsat × Int) :=
  -- `info->satinfo.sat[j]` is looked at only for a number that is not 0
  if prn = 0 then .ok marked
  else
    (List.range inview.toNat).foldlM (fun (sat, nuse) j =>
      if h : j < nmeaMaxsat then
        if prn = sat[j].id then .ok (sat.set j { sat[j] with inUse := 1 }, nuse + 1) else .ok (sat, nuse)
      else .error .bounds) marked

def nmeaGPGSA2info (pack : NmeaGPGSA F) (info : NmeaInfo F) : Except Fault (NmeaInfo F) := do
  let (sat, nuse) ← pack.satPrn.foldlM (fun marked prn => markUsed prn info.satinfo.inview marked)
    (info.satinfo.sat, 0)
  return { info with
    fix := pack.fixType
    PDOP := pack.PDOP
    HDOP := pack.HDOP
    VDOP := pack.VDOP
    satinfo := { info.satinfo with
      sat
      inuse := nuse }
    smask := info.smask ||| NmeaPackType.gsa.mask }

def nmeaGPGSV2info (pack : NmeaGPGSV) (info : NmeaInfo F) : Except Fault (NmeaInfo F) := do
  if pack.packIndex > pack.packCount || cint (pack.packIndex * nmeaSatinpack) > nmeaMaxsat then
    return info
  else
    let packIndex := if pack.packIndex < 1 then 1 else pack.packIndex
    let nsat := gsvCount packIndex pack.satCount
    let sat ← (List.range nsat.toNat).foldlM (fun sat (isat : Nat) =>
      let isi := cint (cint (packIndex - 1) * nmeaSatinpack) + isat
      if h : isat < 4 ∧ 0 ≤ isi ∧ isi.toNat < nmeaMaxsat then
        .ok (sat.set isi.toNat { sat[isi.toNat] with
          id := pack.satData[isat].id
          elv := pack.satData[isat].elv
          azimuth := pack.satData[isat].azimuth
          sig := pack.satData[isat].sig })
      else .error .bounds) info.satinfo.sat
    return { info with
      satinfo := { info.satinfo with
        sat
        inview := pack.satCount }
      smask := info.smask ||| NmeaPackType.gsv.mask }

def nmeaGPRMC2info (pack : NmeaGPRMC F) (info : NmeaInfo F) : NmeaInfo F :=
  let (sig, fix) :=
    if pack.status = chr 'A' then
      (if info.sig = nmeaSigBad then nmeaSigMid else info.sig,
        if info.fix = nmeaFixBad then nmeaFix2D else info.fix)
    else if pack.status = chr 'V' then (nmeaSigBad, nmeaFixBad)
    else (info.sig, info.fix)
  { info with
    sig
    fix
    utc := pack.utc
    lat := signed (pack.ns = chr 'N') pack.lat
    lon := signed (pack.ew = chr 'E') pack.lon
    speed := CDouble.knots pack.speed
    direction := pack.direction
    smask := info.smask ||| NmeaPackType.rmc.mask }

def nmeaGPVTG2info (pack : NmeaGPVTG F) (info : NmeaInfo F) : NmeaInfo F :=
  { info with
    direction := pack.dir
    declination := pack.dec
    speed := pack.spk
    smask := info.smask ||| NmeaPackType.vtg.mask }

/-- A pack that could not be parsed is forgotten. -/
def nmeaParseLine (buf stack : List Byte) (info : NmeaInfo F) : Except Fault (NmeaInfo F) :=
  match nmeaPackType (buf.drop 1) buf.length with
  | .gga => do
      let pack ← nmeaParseGPGGA buf stack
      return pack.elim info (nmeaGPGGA2info · info)
  | .gsa => (nmeaParseGPGSA buf).elim (.ok info) (nmeaGPGSA2info · info)
  | .gsv => (nmeaParseGPGSV buf).elim (.ok info) (nmeaGPGSV2info · info)
  | .rmc => do
      let pack ← nmeaParseGPRMC buf stack
      return pack.elim info (nmeaGPRMC2info · info)
  | .vtg => .ok ((nmeaParseGPVTG buf).elim info (nmeaGPVTG2info · info))
  | .non => .ok info

end Parse

def lineSize : Nat := 512

/-- The line, what `data` points to where it starts, and `nbytes`; `none` is a line length
of -1. -/
def nmeaGetItemLine (data : List Byte) (len : Nat) :
    Except Fault (Option (List Byte × List Byte × Nat)) := do
  let some start ← strchr (chr '$') data | return none
  let some star ← strchr (chr '*') start | return none
  let lineLen := start.length - star.length + 1
  if lineLen ≤ lineSize then
    return some (start.take lineLen, start, min (data.length - star.length + 5) len)
  else .error .bounds

/-- At most so many lines as there are bytes: each takes at least one of them. `stack` is
what the stack holds when the line that starts there is parsed. -/
def nmeaParseLoop {F : Type} [CDouble F] (stack : List Byte → List Byte) :
    Nat → List Byte → Nat → NmeaInfo F → Except Fault (NmeaInfo F)
  | 0, _, _, info => .ok info
  | fuel + 1, data, len, info =>
      if 0 < len then do
        let some (line, start, nbytes) ← nmeaGetItemLine data len | return info
        let info ← nmeaParseLine line (stack start) info
        nmeaParseLoop stack fuel (data.drop nbytes) (len - nbytes) info
      else .ok info

/-- `data` goes on up to the end of its array. -/
def nmeaParse {F : Type} [CDouble F] (stack : List Byte → List Byte) (data : List Byte) (len : Nat)
    (info : NmeaInfo F) : Except Fault (NmeaInfo F) := nmeaParseLoop stack len data len info

end Fl2440.Gpsd
