import Fl2440.Lib.Stdio
import Mathlib.Data.List.Forall2
import Mathlib.Data.List.Nodup

/-! `check_ppp_interface` and `check_ppp_stat` of `cp_ppp.c`: an interface and its counters in
`/proc/net/dev`. What was not written is not read without a fault. -/
namespace Fl2440.Gprs.ProcNetDev

open Fl2440.Lib

/-- The counters that are read, in their order in the file. -/
structure PppStat where
  rx_bytes : BitVec 64
  rx_packets : BitVec 64
  rx_errors : BitVec 32
  rx_dropped : BitVec 32
  rx_fifo_errors : BitVec 32
  rx_frame_errors : BitVec 32
  rx_compressed : BitVec 32
  rx_multicast : BitVec 32
  tx_bytes : BitVec 64
  tx_packets : BitVec 64
  tx_errors : BitVec 32
  tx_dropped : BitVec 32
  tx_fifo_errors : BitVec 32
  collisions : BitVec 32
  tx_carrier_errors : BitVec 32
  tx_compressed : BitVec 32
deriving DecidableEq

def statFormat : List Nat := [64, 64, 32, 32, 32, 32, 32, 32, 64, 64, 32, 32, 32, 32, 32, 32]

/-- One conversion to an unsigned number: its value, and what stands behind it. -/
def scanUnsigned (width : Nat) (s : List Byte) : Option (Nat × List Byte) :=
  let s := s.dropWhile isSpace
  let (negative, s) :=
    match s with
    | sign :: rest =>
        if sign = chr '-' then (true, rest) else if sign = chr '+' then (false, rest) else (false, s)
    | [] => (false, [])
  if s.takeWhile isDigit = [] then none
  else
    let value := digitsValue 10 0 s
    let value := if 2 ^ width ≤ value then 2 ^ width - 1 else if negative then 2 ^ width - value else value
    some (value, s.dropWhile isDigit)

/-- The conversions up to the first that does not match. -/
def scanUnsigneds : List Nat → List Byte → List Nat
  | [], _ => []
  | width :: format, s =>
      match scanUnsigned width s with
      | none => []
      | some (value, s) => value :: scanUnsigneds format s

def assigned {width : Nat} (old : BitVec width) (value : Option Nat) : BitVec width :=
  value.elim old (BitVec.ofNat width)

def PppStat.assign (stat : PppStat) (values : List Nat) : PppStat where
  rx_bytes := assigned stat.rx_bytes values[0]?
  rx_packets := assigned stat.rx_packets values[1]?
  rx_errors := assigned stat.rx_errors values[2]?
  rx_dropped := assigned stat.rx_dropped values[3]?
  rx_fifo_errors := assigned stat.rx_fifo_errors values[4]?
  rx_frame_errors := assigned stat.rx_frame_errors values[5]?
  rx_compressed := assigned stat.rx_compressed values[6]?
  rx_multicast := assigned stat.rx_multicast values[7]?
  tx_bytes := assigned stat.tx_bytes values[8]?
  tx_packets := assigned stat.tx_packets values[9]?
  tx_errors := assigned stat.tx_errors values[10]?
  tx_dropped := assigned stat.tx_dropped values[11]?
  tx_fifo_errors := assigned stat.tx_fifo_errors values[12]?
  collisions := assigned stat.collisions values[13]?
  tx_carrier_errors := assigned stat.tx_carrier_errors values[14]?
  tx_compressed := assigned stat.tx_compressed values[15]?

/-- The `read`s; they overwrite the beginning of `buf`. -/
def interfaceLoop (ppp_dev : List Byte) : Nat → (buf content : List Byte) → Except Fault Int
  | 0, _, _ => .ok (-1)
  | rounds + 1, buf, content =>
      let got := content.take 512
      if got = [] then .ok (-1)
      else do
        let buf := got ++ buf.drop got.length
        if (← strstr buf (ppp_dev ++ [0])).isSome then return 0
        else interfaceLoop ppp_dev rounds buf (content.drop 512)

/-- The file, where it can be opened, and what `buf` holds before. -/
def checkPppInterface (file : Option (List Byte)) (buf : Vector Byte 512) (ppp_dev : List Byte) : Except Fault Int :=
  match file with
  | none => .ok (-1)
  | some content => interfaceLoop ppp_dev content.length buf.toList content

def skipLine (file : List Byte) : List Byte := ((fgets 512 file).map (·.2)).getD []

/-- Each way through the loop ends it; without a line `retval` is not written. -/
def checkPppStat (file : Option (List Byte)) (ppp_stat : PppStat) (ppp_dev : List Byte) : Except Fault (Int × PppStat) :=
  match file with
  | none => .ok (-1, ppp_stat)
  | some content =>
      match fgets 512 (skipLine (skipLine content)) with
      | none => .error .bounds
      | some (got, _) => do
          match ← strstr (got ++ [0]) (ppp_dev ++ [0]) with
          | none => return (-1, ppp_stat)
          | some ptr =>
              match ← strchr (chr ':') (ptr ++ [0]) with
              | none => .error .null
              | some ptr => return (0, ppp_stat.assign (scanUnsigneds statFormat (← cstr (ptr.drop 1))))

structure IfName where
  bytes : List Byte
  ne_nil : bytes ≠ []
  plain : ∀ b ∈ bytes, isSpace b = false ∧ b ≠ chr ':' ∧ b ≠ 0

def PppStat.values (stat : PppStat) : List Nat :=
  [stat.rx_bytes.toNat, stat.rx_packets.toNat, stat.rx_errors.toNat, stat.rx_dropped.toNat, stat.rx_fifo_errors.toNat,
    stat.rx_frame_errors.toNat, stat.rx_compressed.toNat, stat.rx_multicast.toNat, stat.tx_bytes.toNat,
    stat.tx_packets.toNat, stat.tx_errors.toNat, stat.tx_dropped.toNat, stat.tx_fifo_errors.toNat,
    stat.collisions.toNat, stat.tx_carrier_errors.toNat, stat.tx_compressed.toNat]

def numbersText (numbers : List (Nat × Nat)) : List Byte :=
  numbers.flatMap fun (blanks, n) => List.replicate blanks (chr ' ') ++ numeral 10 n

structure Interface where
  name : IfName
  stat : PppStat
  indent : Nat
  blanks : List Nat
  blanks_length : blanks.length = 16
  blanks_pos : ∀ n ∈ blanks.tail, 0 < n

def Interface.counters (i : Interface) : List Byte := numbersText (i.blanks.zip i.stat.values)

def Interface.line (i : Interface) : List Byte :=
  List.replicate i.indent (chr ' ') ++ i.name.bytes ++ chr ':' :: i.counters

/-- With its newline it is shorter than `buf`. -/
structure HeaderLine where
  bytes : List Byte
  newline_not_mem : newline ∉ bytes
  nul_not_mem : (0 : Byte) ∉ bytes
  short : bytes.length + 1 < 512

structure NetDev where
  first : HeaderLine
  second : HeaderLine
  interfaces : List Interface
  short : ∀ i ∈ interfaces, i.line.length + 1 < 512
  names : (interfaces.map (·.name.bytes)).Nodup

def NetDev.content (net : NetDev) : List Byte :=
  net.first.bytes ++ newline :: (net.second.bytes ++ newline :: net.interfaces.flatMap fun i => i.line ++ [newline])

def NetDev.Has (net : NetDev) (dev : IfName) : Prop := ∃ i ∈ net.interfaces, i.name.bytes = dev.bytes

/-- Both functions find the interface, and its counters, if it is there. -/
structure LookedUp (net : NetDev) (dev : IfName) (interface : Except Fault Int) (counted : Except Fault (Int × PppStat)) :
    Prop where
  interface : ∃ retval, interface = .ok retval ∧ (retval = 0 ↔ net.Has dev)
  counted : ∃ retval stat, counted = .ok (retval, stat) ∧ (retval = 0 ↔ net.Has dev) ∧
    ∀ i ∈ net.interfaces, i.name.bytes = dev.bytes → stat = i.stat

/-- One `read` takes it all, a NUL happens to stand behind it in `buf`, and the name occurs
nowhere else before that. -/
structure InterfaceInPlace (net : NetDev) (dev : IfName) (buf : Vector Byte 512) : Prop where
  short : net.content.length < 512
  stops : (0 : Byte) ∈ buf.toList.drop net.content.length
  occurs : dev.bytes <:+: net.content ++ (buf.toList.drop net.content.length).takeWhile (· ≠ 0) ↔ net.Has dev

/-- The first interface is the one that is asked for, or one of a longer name whose counters
are the same; or there is none of the name, nor does it occur in the first line. -/
def CountersInPlace (net : NetDev) (dev : IfName) : Prop :=
  ∃ i ∈ net.interfaces.head?,
    if dev.bytes <:+: i.name.bytes then ∃ j ∈ net.interfaces, j.name.bytes = dev.bytes ∧ j.stat = i.stat
    else ¬ dev.bytes <:+: i.counters ∧ ¬ net.Has dev

section Scan

theorem isDigit_digitChar {d : Nat} (h : d < 10) : isDigit (digitChar d) = true := by
  have hall : ∀ d : Fin 10, isDigit (digitChar d) = true := by decide
  exact hall ⟨d, h⟩

theorem isDigit_numeral (n : Nat) : ∀ b ∈ numeral 10 n, isDigit b = true := by
  unfold numeral
  split
  next => simpa using isDigit_digitChar (by decide : 0 < 10)
  next =>
    intro b hb
    obtain ⟨d, hd, rfl⟩ := List.mem_map.mp hb
    exact isDigit_digitChar (Nat.digits_lt_base (by decide) (List.mem_reverse.mp hd))

theorem digitValue_of_not_isDigit {b : Byte} (h : isDigit b = false) : digitValue 10 b = none := by
  have hall : ∀ b : Byte, isDigit b = false → digitValue 10 b = none := by decide +kernel
  exact hall b h

theorem scanUnsigned_numeral {width n : Nat} {rest : List Byte} (blanks : Nat) (hn : n < 2 ^ width)
    (hrest : ∀ b ∈ rest.head?, isDigit b = false) :
    scanUnsigned width (List.replicate blanks (chr ' ') ++ numeral 10 n ++ rest) = some (n, rest) := by
  have hblank : ∀ b ∈ List.replicate blanks (chr ' '), isSpace b = true := by
    intro b hb
    rw [(List.mem_replicate.mp hb).2]
    decide
  have hall : ∀ d : Fin 10, isSpace (digitChar d) = false ∧ digitChar d ≠ chr '-' ∧ digitChar d ≠ chr '+' := by
    decide
  have hvalue : digitsValue 10 0 (numeral 10 n ++ rest) = n := digitsValue_numeral (by decide) (by decide)
    fun b hb => digitValue_of_not_isDigit (hrest b hb)
  have hleft : (numeral 10 n ++ rest).dropWhile isDigit = rest := by
    rw [List.dropWhile_append_of_pos (isDigit_numeral n)]
    cases rest with
    | nil => rfl
    | cons b rest => exact List.dropWhile_cons_of_neg (by simp [hrest b rfl])
  obtain ⟨d, digits, hd, heq⟩ := numeral_cons n (by decide : 1 < 10)
  obtain ⟨hsign, hminus, hplus⟩ := hall ⟨d, hd⟩
  have hdigits : (numeral 10 n ++ rest).takeWhile isDigit ≠ [] := by
    rw [heq, List.cons_append, List.takeWhile_cons_of_pos (isDigit_digitChar hd)]
    exact List.cons_ne_nil _ _
  rw [heq, List.cons_append] at hvalue hleft hdigits
  rw [scanUnsigned, List.append_assoc, List.dropWhile_append_of_pos hblank, heq, List.cons_append,
    List.dropWhile_cons_of_neg (by simp [hsign])]
  simp [hminus, hplus, hvalue, hleft, hdigits, Nat.not_le.mpr hn]

theorem numbersText_head {blanks values : List Nat} {rest : List Byte} (hlength : blanks.length = values.length)
    (hblanks : ∀ n ∈ blanks, 0 < n) (hrest : ∀ b ∈ rest.head?, isDigit b = false) :
    ∀ b ∈ (numbersText (blanks.zip values) ++ rest).head?, isDigit b = false := by
  match blanks, values with
  | [], [] => exact hrest
  | n :: blanks, value :: values =>
      obtain ⟨m, rfl⟩ := Nat.exists_eq_succ_of_ne_zero (hblanks n List.mem_cons_self).ne'
      rintro b ⟨rfl⟩
      decide

theorem scanUnsigneds_numbersText {format values : List Nat} (h : List.Forall₂ (fun width n => n < 2 ^ width) format values) :
    ∀ {blanks : List Nat} {rest : List Byte}, blanks.length = values.length → (∀ n ∈ blanks.tail, 0 < n) →
      (∀ b ∈ rest.head?, isDigit b = false) → scanUnsigneds format (numbersText (blanks.zip values) ++ rest) = values := by
  induction h with
  | nil => exact fun _ _ _ => rfl
  | @cons width value format values hvalue _ ih =>
      intro blanks rest hlength hblanks hrest
      match blanks, hlength with
      | n :: blanks, hlength =>
          have hlength' : blanks.length = values.length := Nat.succ.inj hlength
          have hhead := numbersText_head hlength' hblanks hrest
          have hscan := scanUnsigned_numeral n hvalue hhead
          have htext : numbersText ((n :: blanks).zip (value :: values)) ++ rest =
              List.replicate n (chr ' ') ++ numeral 10 value ++ (numbersText (blanks.zip values) ++ rest) := by
            simp [numbersText]
          have hlater := ih hlength' (fun m hm => hblanks m (List.mem_of_mem_tail hm)) hrest
          rw [htext, scanUnsigneds, hscan]
          exact congrArg (value :: ·) hlater

theorem PppStat.values_fit (stat : PppStat) : List.Forall₂ (fun width n => n < 2 ^ width) statFormat stat.values := by
  unfold statFormat PppStat.values
  repeat refine .cons (BitVec.isLt _) ?_
  exact .nil

theorem PppStat.assign_values (old stat : PppStat) : old.assign stat.values = stat := by
  simp [PppStat.assign, PppStat.values, assigned]

theorem Interface.scan_counters (i : Interface) : scanUnsigneds statFormat (i.counters ++ [newline]) = i.stat.values := by
  apply scanUnsigneds_numbersText i.stat.values_fit i.blanks_length i.blanks_pos
  rintro b ⟨rfl⟩
  decide

end Scan

section Line

variable {i : Interface} {dev : IfName} {stat : PppStat}

theorem numbersText_plain (numbers : List (Nat × Nat)) :
    ∀ b ∈ numbersText numbers, b ≠ chr ':' ∧ b ≠ 0 ∧ b ≠ newline := by
  have hblank : chr ' ' ≠ chr ':' ∧ chr ' ' ≠ 0 ∧ chr ' ' ≠ newline := by decide
  have hall : ∀ b : Byte, isDigit b = true → b ≠ chr ':' ∧ b ≠ 0 ∧ b ≠ newline := by decide +kernel
  intro b hb
  obtain ⟨⟨blanks, n⟩, -, hmem⟩ := List.mem_flatMap.mp hb
  rcases List.mem_append.mp hmem with hmem | hmem
  · rw [(List.mem_replicate.mp hmem).2]
    exact hblank
  · exact hall b (isDigit_numeral n b hmem)

theorem IfName.not_mem (dev : IfName) {b : Byte} (h : isSpace b = true ∨ b = chr ':' ∨ b = 0) : b ∉ dev.bytes := by
  intro hmem
  obtain ⟨hspace, hcolon, hnul⟩ := dev.plain b hmem
  rcases h with h | h | h
  · rw [hspace] at h
    cases h
  · exact hcolon h
  · exact hnul h

theorem infix_indent (dev : IfName) (indent : Nat) (rest : List Byte) :
    dev.bytes <:+: List.replicate indent (chr ' ') ++ rest ↔ dev.bytes <:+: rest := by
  induction indent with
  | zero => rfl
  | succ indent ih =>
      have hplain : chr ' ' ∉ dev.bytes := dev.not_mem (.inl (by decide))
      have hblank : dev.bytes <:+: [] ++ chr ' ' :: (List.replicate indent (chr ' ') ++ rest) ↔ _ :=
        infix_append_cons_iff hplain _
      rw [List.nil_append, List.infix_nil, or_iff_right dev.ne_nil, ih] at hblank
      rw [List.replicate_succ, List.cons_append, hblank]

theorem IfName.nul_notMem (dev : IfName) : (0 : Byte) ∉ dev.bytes := dev.not_mem (.inr (.inr rfl))

theorem Interface.before_colon (i : Interface) : ∀ b ∈ List.replicate i.indent (chr ' ') ++ i.name.bytes,
    b ≠ chr ':' ∧ b ≠ 0 := by
  have hblank : chr ' ' ≠ chr ':' ∧ chr ' ' ≠ 0 := by decide
  intro b hb
  rcases List.mem_append.mp hb with hb | hb
  · rw [(List.mem_replicate.mp hb).2]
    exact hblank
  · exact (i.name.plain b hb).2

theorem Interface.nul_notMem (i : Interface) : (0 : Byte) ∉ i.line := by
  rw [Interface.line, List.mem_append, List.mem_cons, not_or, not_or]
  exact ⟨fun h => (i.before_colon 0 h).2 rfl, by decide, fun h => (numbersText_plain _ 0 h).2.1 rfl⟩

theorem Interface.newline_notMem (i : Interface) : newline ∉ i.line := by
  have hblank : newline ≠ chr ' ' := by decide
  have hname := i.name.not_mem (b := newline) (.inl (by decide))
  have hcounters : newline ∉ i.counters := fun h => (numbersText_plain _ _ h).2.2 rfl
  have hcolon : newline ≠ chr ':' := by decide
  simp [Interface.line, hblank, hname, hcounters, hcolon]

theorem infix_line (i : Interface) (dev : IfName) : dev.bytes <:+: i.line ++ [newline] ↔
    dev.bytes <:+: i.name.bytes ∨ dev.bytes <:+: i.counters := by
  have hcolon := dev.not_mem (b := chr ':') (.inr (.inl rfl))
  have hnewline := dev.not_mem (b := newline) (.inl (by decide))
  have hend : dev.bytes <:+: i.line ++ newline :: [] ↔ _ := infix_append_cons_iff hnewline []
  rw [hend, List.infix_nil, or_iff_left dev.ne_nil, Interface.line, infix_append_cons_iff hcolon, infix_indent]

theorem find_name (h : dev.bytes <:+: i.name.bytes) :
    ∃ left, chr ':' ∉ left ∧ (0 : Byte) ∉ left ∧
      (i.line ++ [newline]).tails.find? (dev.bytes.isPrefixOf ·) = some (left ++ chr ':' :: (i.counters ++ [newline])) := by
  obtain ⟨before, after, hname⟩ := h
  have hsuffix : dev.bytes ++ after <:+ List.replicate i.indent (chr ' ') ++ i.name.bytes := by
    rw [← hname, List.append_assoc, ← List.append_assoc]
    exact List.suffix_append _ _
  have hfound : dev.bytes.isPrefixOf (dev.bytes ++ after ++ chr ':' :: (i.counters ++ [newline])) = true := by
    rw [List.append_assoc]
    exact List.isPrefixOf_iff_prefix.mpr (List.prefix_append _ _)
  obtain ⟨left, hleft, hfirst⟩ := find?_tails_append ⟨dev.bytes ++ after, hsuffix, hfound⟩
  refine ⟨left, fun hmem => (i.before_colon _ (hleft.mem hmem)).1 rfl,
    fun hmem => (i.before_colon _ (hleft.mem hmem)).2 rfl, ?_⟩
  rw [← hfirst, Interface.line, List.append_assoc, List.append_assoc, List.cons_append, List.append_assoc]

theorem find_counters (h : ¬ dev.bytes <:+: i.name.bytes) {left : List Byte}
    (hfind : (i.line ++ [newline]).tails.find? (dev.bytes.isPrefixOf ·) = some left) :
    chr ':' ∉ left ∧ (0 : Byte) ∉ left := by
  have hsuffix : left <:+ i.line ++ [newline] := (List.mem_tails _ _).mp (List.mem_of_find?_eq_some hfind)
  have hprefix : dev.bytes <+: left := List.isPrefixOf_iff_prefix.mp (List.find?_some hfind)
  have hcolon := dev.not_mem (b := chr ':') (.inr (.inl rfl))
  rw [Interface.line, List.append_assoc, List.cons_append] at hsuffix
  rcases suffix_append_cons hsuffix with ⟨part, hpart, rfl⟩ | hsuffix
  · have hstart := (prefix_append_cons_iff hcolon _).mp hprefix
    exact absurd ((infix_indent dev _ _).mp (hstart.isInfix.trans hpart.isInfix)) h
  · refine ⟨fun hmem => ?_, fun hmem => ?_⟩
    · rcases List.mem_append.mp (hsuffix.mem hmem) with hmem | hmem
      · exact (numbersText_plain _ _ hmem).1 rfl
      · exact absurd (List.mem_singleton.mp hmem) (by decide)
    · rcases List.mem_append.mp (hsuffix.mem hmem) with hmem | hmem
      · exact (numbersText_plain _ _ hmem).2.1 rfl
      · exact absurd (List.mem_singleton.mp hmem) (by decide)

end Line

section File

variable {net : NetDev} {dev : IfName} {stat : PppStat} {buf : Vector Byte 512}

theorem skipLine_header (header : HeaderLine) (rest : List Byte) : skipLine (header.bytes ++ newline :: rest) = rest := by
  rw [skipLine, fgets_line header.newline_not_mem header.short]
  rfl

theorem strstr_line (i : Interface) (dev : IfName) : strstr (i.line ++ [newline] ++ [0]) (dev.bytes ++ [0]) =
    .ok ((i.line ++ [newline]).tails.find? (dev.bytes.isPrefixOf ·)) := by
  have hnul : (0 : Byte) ∉ i.line ++ [newline] := by
    have hnewline : ¬ (0 : Byte) = newline := by decide
    rw [List.mem_append, List.mem_singleton, not_or]
    exact ⟨i.nul_notMem, hnewline⟩
  rw [strstr, cstr_terminated hnul, cstr_terminated dev.nul_notMem]
  rfl

theorem fgets_first {i : Interface} {later : List Interface} (h : net.interfaces = i :: later) :
    ∃ rest, fgets 512 (skipLine (skipLine net.content)) = some (i.line ++ [newline], rest) := by
  have hshort := net.short i (h ▸ List.mem_cons_self)
  rw [NetDev.content, skipLine_header, skipLine_header, h, List.flatMap_cons, List.append_assoc, List.singleton_append]
  exact ⟨_, fgets_line i.newline_notMem hshort⟩

theorem checkPppStat_cons {i : Interface} {later : List Interface} (h : net.interfaces = i :: later) :
    checkPppStat (some net.content) stat dev.bytes =
      if dev.bytes <:+: i.name.bytes then .ok (0, i.stat)
      else if dev.bytes <:+: i.counters then .error .null else .ok (-1, stat) := by
  obtain ⟨rest, hfirst⟩ := fgets_first h
  simp only [checkPppStat, hfirst, strstr_line, ok_bind]
  split_ifs with hname hcounters
  · obtain ⟨left, hcolon, hnul, hfind⟩ := find_name hname
    have hend : (0 : Byte) ∉ i.counters ++ [newline] := by
      have hnewline : ¬ (0 : Byte) = newline := by decide
      rw [List.mem_append, List.mem_singleton, not_or]
      exact ⟨fun hmem => (numbersText_plain _ _ hmem).2.1 rfl, hnewline⟩
    have hstrchr : strchr (chr ':') (left ++ chr ':' :: (i.counters ++ [newline]) ++ [0]) =
        .ok (some (chr ':' :: (i.counters ++ [newline] ++ [0]))) := by
      rw [List.append_assoc, List.cons_append]
      exact strchr_found hcolon hnul
    rw [hfind]
    simp only [hstrchr, ok_bind, List.drop_succ_cons, List.drop_zero]
    rw [cstr_terminated hend, ok_bind, i.scan_counters, PppStat.assign_values]
    rfl
  · have hsome := find?_tails_isSome.mpr ((infix_line i dev).mpr (.inr hcounters))
    obtain ⟨left, hfind⟩ := Option.isSome_iff_exists.mp hsome
    obtain ⟨hcolon, hnul⟩ := find_counters hname hfind
    have hstrchr : strchr (chr ':') (left ++ 0 :: []) = .ok none := strchr_absent (by decide) hcolon hnul
    rw [hfind]
    simp only [hstrchr, ok_bind]
  · have hnone := mt find?_tails_isSome.mp (mt (infix_line i dev).mp (not_or.mpr ⟨hname, hcounters⟩))
    rw [Option.not_isSome_iff_eq_none.mp hnone]
    rfl

theorem checkPppStat_nil (h : net.interfaces = []) : checkPppStat (some net.content) stat dev.bytes = .error .bounds := by
  rw [checkPppStat, NetDev.content, skipLine_header, skipLine_header, h]
  rfl

theorem NetDev.nul_notMem (net : NetDev) : (0 : Byte) ∉ net.content := by
  have hnewline : ¬ (0 : Byte) = newline := by decide
  have hlines : (0 : Byte) ∉ net.interfaces.flatMap fun i => i.line ++ [newline] := by
    intro h
    obtain ⟨i, -, hmem⟩ := List.mem_flatMap.mp h
    rcases List.mem_append.mp hmem with hmem | hmem
    · exact i.nul_notMem hmem
    · exact hnewline (List.mem_singleton.mp hmem)
  simp only [NetDev.content, List.mem_append, List.mem_cons, not_or]
  exact ⟨net.first.nul_not_mem, hnewline, net.second.nul_not_mem, hnewline, hlines⟩

theorem NetDev.content_ne_nil (net : NetDev) : net.content ≠ [] := by
  simp [NetDev.content]

theorem checkPppInterface_long (h : ¬ net.content.length < 512) :
    checkPppInterface (some net.content) buf dev.bytes = .error .bounds := by
  obtain ⟨rounds, hrounds⟩ := Nat.exists_eq_succ_of_ne_zero (List.length_pos_of_ne_nil net.content_ne_nil).ne'
  have hlength : (net.content.take 512).length = 512 := List.length_take_of_le (Nat.le_of_not_lt h)
  have hne : net.content.take 512 ≠ [] := fun hnil => by simp [hnil] at hlength
  have hdrop : buf.toList.drop 512 = [] := List.drop_eq_nil_of_le (by simp)
  have hpast : cstr (net.content.take 512) = .error .bounds :=
    cstr_past fun hmem => net.nul_notMem (List.mem_of_mem_take hmem)
  rw [checkPppInterface, hrounds, interfaceLoop]
  simp only [if_neg hne, hlength, hdrop, List.append_nil, strstr, hpast]
  rfl

theorem checkPppInterface_short (h : net.content.length < 512) :
    checkPppInterface (some net.content) buf dev.bytes =
      if (0 : Byte) ∈ buf.toList.drop net.content.length then
        .ok (if dev.bytes <:+: net.content ++ (buf.toList.drop net.content.length).takeWhile (· ≠ 0) then 0 else -1)
      else .error .bounds := by
  obtain ⟨rounds, hrounds⟩ := Nat.exists_eq_succ_of_ne_zero (List.length_pos_of_ne_nil net.content_ne_nil).ne'
  have htake : net.content.take 512 = net.content := List.take_of_length_le (Nat.le_of_lt h)
  have hdrop : net.content.drop 512 = [] := List.drop_eq_nil_of_le (Nat.le_of_lt h)
  have hrest : ∀ rounds buf, interfaceLoop dev.bytes rounds buf [] = .ok (-1) := fun rounds _ => by
    cases rounds <;> rfl
  generalize hbehind : buf.toList.drop net.content.length = behind
  rw [checkPppInterface, hrounds, interfaceLoop]
  simp only [htake, hdrop, if_neg net.content_ne_nil, hrest, hbehind]
  split
  next hmem =>
    obtain ⟨tail, htail⟩ := split_nul hmem
    have hnul : (0 : Byte) ∉ net.content ++ behind.takeWhile (· ≠ 0) := by
      rw [List.mem_append, not_or]
      exact ⟨net.nul_notMem, nul_notMem_takeWhile behind⟩
    obtain ⟨found, hfound, hoccurs⟩ := strstr_terminated hnul dev.nul_notMem tail []
    rw [List.append_assoc, ← htail] at hfound
    simp only [hfound, ok_bind, hoccurs]
    split <;> rfl
  next hnul =>
    have hpast : cstr (net.content ++ behind) = .error .bounds :=
      cstr_past fun hmem => (List.mem_append.mp hmem).elim net.nul_notMem hnul
    rw [strstr, hpast]
    rfl

theorem interface_iff : (∃ retval, checkPppInterface (some net.content) buf dev.bytes = .ok retval ∧
    (retval = 0 ↔ net.Has dev)) ↔ InterfaceInPlace net dev buf := by
  by_cases hshort : net.content.length < 512
  · rw [checkPppInterface_short hshort]
    by_cases hstops : (0 : Byte) ∈ buf.toList.drop net.content.length
    · have hretval : ∀ occurs : Prop, [Decidable occurs] → ((if occurs then (0 : Int) else -1) = 0 ↔ occurs) := by
        intro occurs _
        split_ifs with h <;> simp [h]
      rw [if_pos hstops]
      constructor
      · rintro ⟨retval, hok, hhas⟩
        cases hok
        exact ⟨hshort, hstops, (hretval _).symm.trans hhas⟩
      · exact fun h => ⟨_, rfl, (hretval _).trans h.occurs⟩
    · rw [if_neg hstops]
      exact iff_of_false (fun ⟨_, hok, _⟩ => nomatch hok) fun h => hstops h.stops
  · rw [checkPppInterface_long hshort]
    exact iff_of_false (fun ⟨_, hok, _⟩ => nomatch hok) fun h => hshort h.short

theorem NetDev.unique {i j : Interface} (hi : i ∈ net.interfaces) (hj : j ∈ net.interfaces)
    (h : i.name.bytes = j.name.bytes) : i = j :=
  List.inj_on_of_nodup_map net.names hi hj h

theorem counters_iff (stat : PppStat) : (∃ retval stat', checkPppStat (some net.content) stat dev.bytes = .ok (retval, stat') ∧
    (retval = 0 ↔ net.Has dev) ∧ ∀ i ∈ net.interfaces, i.name.bytes = dev.bytes → stat' = i.stat) ↔
      CountersInPlace net dev := by
  cases hinterfaces : net.interfaces with
  | nil =>
      rw [checkPppStat_nil hinterfaces, CountersInPlace, hinterfaces]
      refine iff_of_false ?_ ?_
      · rintro ⟨_, _, hok, -⟩
        cases hok
      · rintro ⟨_, hmem, -⟩
        cases hmem
  | cons i later =>
      have hplace : CountersInPlace net dev ↔
          if dev.bytes <:+: i.name.bytes then ∃ j ∈ net.interfaces, j.name.bytes = dev.bytes ∧ j.stat = i.stat
          else ¬ dev.bytes <:+: i.counters ∧ ¬ net.Has dev := by
        simp only [CountersInPlace, hinterfaces, List.head?_cons, Option.mem_some_iff, exists_eq_left']
      rw [checkPppStat_cons hinterfaces, hplace, ← hinterfaces]
      split_ifs with hname hcounters
      · constructor
        · rintro ⟨_, _, ⟨rfl, rfl⟩, hhas, hstat⟩
          obtain ⟨j, hj, hdev⟩ := hhas.mp rfl
          exact ⟨j, hj, hdev, (hstat j hj hdev).symm⟩
        · rintro ⟨j, hj, hdev, hstat⟩
          refine ⟨0, i.stat, rfl, iff_of_true rfl ⟨j, hj, hdev⟩, fun j' hj' hdev' => ?_⟩
          rw [net.unique hj' hj (hdev'.trans hdev.symm), hstat]
      · refine iff_of_false ?_ fun h => h.1 hcounters
        rintro ⟨_, _, hok, -⟩
        cases hok
      · constructor
        · rintro ⟨_, _, ⟨rfl, rfl⟩, hhas, -⟩
          exact ⟨hcounters, fun h => absurd (hhas.mpr h) (by decide)⟩
        · rintro ⟨-, hhas⟩
          refine ⟨-1, stat, rfl, iff_of_false (by decide) hhas, fun j hj hdev => absurd ⟨j, hj, hdev⟩ hhas⟩

/-- An interface and its counters are found if and only if these conditions are met. -/
theorem lookedUp_iff (net : NetDev) (dev : IfName) (buf : Vector Byte 512) (stat : PppStat) :
    LookedUp net dev (checkPppInterface (some net.content) buf dev.bytes)
      (checkPppStat (some net.content) stat dev.bytes) ↔ InterfaceInPlace net dev buf ∧ CountersInPlace net dev := by
  rw [← interface_iff, ← counters_iff stat]
  exact ⟨fun h => ⟨h.interface, h.counted⟩, fun h => ⟨h.1, h.2⟩⟩

def quiet (name : IfName) : Interface where
  name
  stat := ⟨0, 0, 0, 0, 0, 0, 0, 0, 0, 0, 0, 0, 0, 0, 0, 0⟩
  indent := 2
  blanks := List.replicate 16 1
  blanks_length := rfl
  blanks_pos := by decide

def lo : IfName := ⟨ascii "lo", by decide, by decide⟩

def ppp10 : IfName := ⟨ascii "ppp10", by decide, by decide⟩

def behindLo : NetDev where
  first := ⟨ascii "Inter-|   Receive  |  Transmit", by decide, by decide, by decide⟩
  second := ⟨ascii " face |bytes    packets", by decide, by decide, by decide⟩
  interfaces := [quiet lo, quiet ppp10]
  short := by decide +kernel
  names := by decide

/-- The search for the counters ends at the first interface. -/
theorem second_interface_missed : ¬ ∀ (net : NetDev) (dev : IfName) (buf : Vector Byte 512) (stat : PppStat),
    LookedUp net dev (checkPppInterface (some net.content) buf dev.bytes)
      (checkPppStat (some net.content) stat dev.bytes) := by
  intro h
  obtain ⟨retval, stat, hok, hhas, -⟩ := (h behindLo ppp10 (Vector.replicate 512 0) (quiet lo).stat).counted
  have hname : ¬ ppp10.bytes <:+: lo.bytes := by decide
  have hcounters : ¬ ppp10.bytes <:+: (quiet lo).counters := by decide +kernel
  have hfirst : checkPppStat (some behindLo.content) (quiet lo).stat ppp10.bytes = _ := checkPppStat_cons rfl
  rw [if_neg (show ¬ ppp10.bytes <:+: (quiet lo).name.bytes from hname), if_neg hcounters] at hfirst
  cases hok.symm.trans hfirst
  exact absurd (hhas.mpr ⟨quiet ppp10, List.mem_cons_of_mem _ List.mem_cons_self, rfl⟩) (by decide)

end File

end Fl2440.Gprs.ProcNetDev
