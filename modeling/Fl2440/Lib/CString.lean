import Mathlib.Data.List.Infix
import Mathlib.Data.List.DropRight
import Mathlib.Data.Nat.Digits.Defs
import Fl2440.Lib.Run
import Fl2440.Lib.Memory
import Fl2440.Lib.Search

/-! Characters and strings of C. Memory from a pointer on is the list of the bytes up to
the end of their array; a function that runs past it has no meaning. -/
namespace Fl2440.Lib

def chr (c : Char) : Byte := BitVec.ofNat 8 c.toNat

def ascii (s : String) : List Byte := s.toList.map chr

def isDigit (b : Byte) : Bool := chr '0' ≤ b && b ≤ chr '9'

/-- In the C locale. -/
def isSpace (b : Byte) : Bool := b = chr ' ' || (9#8 ≤ b && b ≤ 13#8)

/-- The pointer that is returned, as what lies behind it. -/
def strchr (c : Byte) : List Byte → Except Fault (Option (List Byte))
  | [] => .error .bounds
  | b :: mem => if b = c then .ok (some (b :: mem)) else if b = 0 then .ok none else strchr c mem

def cstr : List Byte → Except Fault (List Byte)
  | [] => .error .bounds
  | b :: mem => if b = 0 then .ok [] else (b :: ·) <$> cstr mem

def digitValue (radix : Nat) (b : Byte) : Option Nat :=
  let value :=
    if isDigit b then b.toNat - (chr '0').toNat
    else if chr 'a' ≤ b && b ≤ chr 'z' then b.toNat - (chr 'a').toNat + 10
    else if chr 'A' ≤ b && b ≤ chr 'Z' then b.toNat - (chr 'A').toNat + 10
    else radix
  if value < radix then some value else none

def digitsValue (radix : Nat) (acc : Nat) : List Byte → Nat
  | [] => acc
  | b :: s =>
      match digitValue radix b with
      | some value => digitsValue radix (acc * radix + value) s
      | none => acc

def afterHexPrefix : List Byte → List Byte
  | zero :: x :: digit :: s =>
      if zero = chr '0' && (x = chr 'x' || x = chr 'X') && (digitValue 16 digit).isSome then digit :: s
      else zero :: x :: digit :: s
  | s => s

/-- What a `scanf` format is made of: blanks, a character that has to be there, `%[...]`. -/
inductive Directive where
  | space
  | lit (b : Byte)
  | set (among : Byte → Bool)

/-- What is assigned, in order; it stops where a directive does not match. -/
def sscanf : List Directive → List Byte → List (List Byte)
  | [], _ => []
  | .space :: format, s => sscanf format (s.dropWhile isSpace)
  | .lit b :: format, s =>
      match s with
      | [] => []
      | c :: s => if c = b then sscanf format s else []
  | .set among :: format, s =>
      if s.takeWhile among = [] then [] else s.takeWhile among :: sscanf format (s.dropWhile among)

/-- With a `long` of 32 bits, which is also an `int`. -/
def strtol (radix : Nat) (s : List Byte) : Int :=
  let s := s.dropWhile isSpace
  let (negative, s) :=
    match s with
    | sign :: rest =>
        if sign = chr '-' then (true, rest) else if sign = chr '+' then (false, rest) else (false, s)
    | [] => (false, [])
  let value := digitsValue radix 0 (if radix = 16 then afterHexPrefix s else s)
  if negative then max (-2 ^ 31) (-value) else min (2 ^ 31 - 1) value

/-- The pointer that is returned, as what lies behind it in the string. -/
def strstr (hay needle : List Byte) : Except Fault (Option (List Byte)) := do
  let hay ← cstr hay
  let needle ← cstr needle
  return hay.tails.find? fun rest => needle.isPrefixOf rest

/-- The pointer that is returned, as the string that it points to. -/
def strrchr (c : Byte) (mem : List Byte) : Except Fault (Option (List Byte)) := do
  let s ← cstr mem
  return if c ∈ s then some (c :: s.rtakeWhile (· ≠ c)) else none

/-- The `n` bytes that `strncpy` writes: a string that is shorter is filled up with NUL. -/
def strncpy : List Byte → Nat → Except Fault (List Byte)
  | _, 0 => .ok []
  | [], _ + 1 => .error .bounds
  | b :: mem, n + 1 => if b = 0 then .ok (List.replicate (n + 1) 0) else (b :: ·) <$> strncpy mem n

def overwrite (mem : List Byte) (off : Nat) (bytes : List Byte) : Except Fault (List Byte) :=
  if off + bytes.length ≤ mem.length then .ok (mem.take off ++ bytes ++ mem.drop (off + bytes.length))
  else .error .bounds

def digitChar (d : Nat) : Byte := BitVec.ofNat 8 (if d < 10 then '0'.toNat + d else 'A'.toNat + (d - 10))

def numeral (radix n : Nat) : List Byte :=
  if n = 0 then [digitChar 0] else (Nat.digits radix n).reverse.map digitChar

def zeroPadded (width : Nat) (s : List Byte) : List Byte := List.replicate (width - s.length) (chr '0') ++ s

/-- `%0<width>X` -/
def formatHex (width : Nat) (n : BitVec 32) : List Byte := zeroPadded width (numeral 16 n.toNat)

/-- `%0<width>d` -/
def formatInt (width : Nat) (n : BitVec 32) : List Byte :=
  if n.toInt < 0 then chr '-' :: zeroPadded (width - 1) (numeral 10 n.toInt.natAbs)
  else zeroPadded width (numeral 10 n.toInt.natAbs)

/-- `snprintf(buf, size, …)` with the text it prints. -/
def snprintf (buf : Mem) (size : Nat) (text : List Byte) : Mem :=
  let text := text.take (size - 1)
  buf.copy 0 (Mem.ofBytes text) (text.length + 1)

/-- The value that the machine has for a sum or a product of `int`s. -/
def cint (n : Int) : Int := n.bmod (2 ^ 32)

variable {c : Byte} {mem before tail : List Byte}

theorem cint_eq (n : Int) : ∃ k, cint n = n - 2 ^ 32 * k ∧ -2 ^ 31 ≤ cint n ∧ cint n < 2 ^ 31 :=
  ⟨n.bdiv (2 ^ 32), Int.bmod_eq_self_sub_mul_bdiv n (2 ^ 32), Int.le_bmod (by decide), Int.bmod_lt (by decide)⟩

theorem strchr_found (hc : c ∉ before) (h0 : (0 : Byte) ∉ before) :
    strchr c (before ++ c :: tail) = .ok (some (c :: tail)) := by
  induction before with
  | nil => exact if_pos rfl
  | cons b before ih =>
      have hb : b ≠ c := fun h => hc (h ▸ List.mem_cons_self)
      have hb0 : b ≠ 0 := fun h => h0 (h ▸ List.mem_cons_self)
      rw [List.cons_append, strchr, if_neg hb, if_neg hb0]
      exact ih (fun h => hc (List.mem_cons_of_mem _ h)) (fun h => h0 (List.mem_cons_of_mem _ h))

theorem strchr_absent (hc0 : c ≠ 0) (hc : c ∉ before) (h0 : (0 : Byte) ∉ before) :
    strchr c (before ++ 0 :: tail) = .ok none := by
  induction before with
  | nil => exact (if_neg hc0.symm).trans (if_pos rfl)
  | cons b before ih =>
      have hb : b ≠ c := fun h => hc (h ▸ List.mem_cons_self)
      have hb0 : b ≠ 0 := fun h => h0 (h ▸ List.mem_cons_self)
      rw [List.cons_append, strchr, if_neg hb, if_neg hb0]
      exact ih (fun h => hc (List.mem_cons_of_mem _ h)) (fun h => h0 (List.mem_cons_of_mem _ h))

theorem strchr_past (hc : c ∉ mem) (h0 : (0 : Byte) ∉ mem) : strchr c mem = .error .bounds := by
  induction mem with
  | nil => rfl
  | cons b mem ih =>
      have hb : b ≠ c := fun h => hc (h ▸ List.mem_cons_self)
      have hb0 : b ≠ 0 := fun h => h0 (h ▸ List.mem_cons_self)
      rw [strchr, if_neg hb, if_neg hb0]
      exact ih (fun h => hc (List.mem_cons_of_mem _ h)) (fun h => h0 (List.mem_cons_of_mem _ h))

theorem strchr_cases (c : Byte) (mem : List Byte) :
    (∃ before tail, mem = before ++ c :: tail ∧ c ∉ before ∧ (0 : Byte) ∉ before) ∨
      (∃ before tail, mem = before ++ 0 :: tail ∧ c ≠ 0 ∧ c ∉ before ∧ (0 : Byte) ∉ before) ∨
      (c ∉ mem ∧ (0 : Byte) ∉ mem) := by
  induction mem with
  | nil => exact .inr (.inr ⟨List.not_mem_nil, List.not_mem_nil⟩)
  | cons b mem ih =>
      by_cases hc : b = c
      · exact .inl ⟨[], mem, by rw [hc]; rfl, List.not_mem_nil, List.not_mem_nil⟩
      by_cases h0 : b = 0
      · exact .inr (.inl ⟨[], mem, by rw [h0]; rfl, fun h => hc (h0.trans h.symm), List.not_mem_nil,
          List.not_mem_nil⟩)
      have hnot : ∀ {x : Byte} {l : List Byte}, b ≠ x → x ∉ l → x ∉ b :: l := fun hb hl h =>
        (List.mem_cons.mp h).elim (fun heq => hb heq.symm) hl
      rcases ih with ⟨before, tail, rfl, hcb, h0b⟩ | ⟨before, tail, rfl, hne, hcb, h0b⟩ | ⟨hcm, h0m⟩
      · exact .inl ⟨b :: before, tail, rfl, hnot hc hcb, hnot h0 h0b⟩
      · exact .inr (.inl ⟨b :: before, tail, rfl, hne, hnot hc hcb, hnot h0 h0b⟩)
      · exact .inr (.inr ⟨hnot hc hcm, hnot h0 h0m⟩)

theorem cstr_append_iff {b : Byte} (h0 : (0 : Byte) ∉ before) : cstr (before ++ b :: tail) = .ok before ↔ b = 0 := by
  induction before with
  | nil => by_cases hb : b = 0 <;> simp [cstr, map_eq_ok_iff]
  | cons a before ih =>
      have ha : a ≠ 0 := fun h => h0 (h ▸ List.mem_cons_self)
      rw [List.cons_append, cstr, if_neg ha, map_eq_ok_iff, ← ih fun h => h0 (List.mem_cons_of_mem a h)]
      simp

theorem cstr_eq_ok_iff {s : List Byte} : cstr mem = .ok s ↔ (0 : Byte) ∉ s ∧ ∃ tail, mem = s ++ 0 :: tail := by
  constructor
  · intro h
    induction mem generalizing s with
    | nil => cases h
    | cons b mem ih =>
        rw [cstr] at h
        split at h
        next hb =>
          cases h
          exact ⟨List.not_mem_nil, mem, by rw [hb]; rfl⟩
        next hb =>
          obtain ⟨rest, hrest, rfl⟩ := map_eq_ok_iff.mp h
          obtain ⟨hnul, tail, rfl⟩ := ih hrest
          exact ⟨fun hmem => (List.mem_cons.mp hmem).elim (fun heq => hb heq.symm) hnul, tail, rfl⟩
  · rintro ⟨hnul, tail, rfl⟩
    exact (cstr_append_iff hnul).mpr rfl

theorem cstr_terminated (h0 : (0 : Byte) ∉ before) : cstr (before ++ 0 :: tail) = .ok before :=
  (cstr_append_iff h0).mpr rfl

theorem cstr_past (h0 : (0 : Byte) ∉ mem) : cstr mem = .error .bounds := by
  induction mem with
  | nil => rfl
  | cons b mem ih =>
      have hb : b ≠ 0 := fun heq => h0 (heq ▸ List.mem_cons_self)
      rw [cstr, if_neg hb, ih fun hzero => h0 (List.mem_cons_of_mem b hzero)]
      rfl

theorem strstr_terminated {needle : List Byte} (h : (0 : Byte) ∉ before) (h' : (0 : Byte) ∉ needle) (tail tail' : List Byte) :
    ∃ found, strstr (before ++ 0 :: tail) (needle ++ 0 :: tail') = .ok found ∧ (found.isSome ↔ needle <:+: before) := by
  rw [strstr, cstr_terminated h, cstr_terminated h']
  exact ⟨_, rfl, find?_tails_isSome⟩

theorem strncpy_terminated (n : Nat) (h0 : (0 : Byte) ∉ before) :
    strncpy (before ++ 0 :: tail) n = .ok (before.take n ++ List.replicate (n - before.length) 0) := by
  induction before generalizing n with
  | nil => cases n <;> simp [strncpy]
  | cons b before ih =>
      have hb : b ≠ 0 := fun h => h0 (h ▸ List.mem_cons_self)
      cases n with
      | zero => simp [strncpy]
      | succ n =>
          rw [List.cons_append, strncpy, if_neg hb, ih n fun h => h0 (List.mem_cons_of_mem b h)]
          simp

theorem strchr_length {rest : List Byte} (h : strchr c mem = .ok (some rest)) : rest.length ≤ mem.length := by
  induction mem with
  | nil => cases h
  | cons b mem ih =>
      rw [strchr] at h
      split at h
      · cases h
        exact le_rfl
      · split at h
        · cases h
        · exact (ih h).trans (Nat.le_succ _)

theorem digitChar_ne_zero {d : Nat} (h : d < 16) : digitChar d ≠ 0 := by
  have hall : ∀ d : Fin 16, digitChar d ≠ 0 := by decide
  exact hall ⟨d, h⟩

theorem digitValue_digitChar {radix d : Nat} (hd : d < radix) (hhigh : radix ≤ 16) :
    digitValue radix (digitChar d) = some d := by
  have hall : ∀ radix : Fin 17, ∀ d : Fin 16, d.val < radix.val → digitValue radix (digitChar d) = some d.val := by
    decide +kernel
  exact hall ⟨radix, Nat.lt_succ_of_le hhigh⟩ ⟨d, lt_of_lt_of_le hd hhigh⟩ hd

theorem digitsValue_reverse {radix : Nat} (hhigh : radix ≤ 16) (acc : Nat) (rest : List Byte) :
    ∀ digits : List Nat, (∀ d ∈ digits, d < radix) →
      digitsValue radix acc (digits.reverse.map digitChar ++ rest) =
        digitsValue radix (acc * radix ^ digits.length + Nat.ofDigits radix digits) rest
  | [], _ => by simp
  | d :: digits, h => by
      have hd := digitValue_digitChar (h d List.mem_cons_self) hhigh
      have ih := digitsValue_reverse hhigh acc (digitChar d :: rest) digits fun e he => h e (List.mem_cons_of_mem d he)
      have hvalue : acc * radix ^ (digits.length + 1) + (d + radix * Nat.ofDigits radix digits) =
          (acc * radix ^ digits.length + Nat.ofDigits radix digits) * radix + d := by ring
      rw [List.reverse_cons, List.map_append, List.append_assoc, List.map_singleton, List.singleton_append, ih,
        digitsValue, hd, Nat.ofDigits_cons, List.length_cons, hvalue]

theorem digitsValue_numeral {radix n : Nat} {rest : List Byte} (hlow : 1 < radix) (hhigh : radix ≤ 16)
    (hstop : ∀ b ∈ rest.head?, digitValue radix b = none) : digitsValue radix 0 (numeral radix n ++ rest) = n := by
  have hend : ∀ acc, digitsValue radix acc rest = acc := by
    intro acc
    cases rest with
    | nil => rfl
    | cons b rest => rw [digitsValue, hstop b rfl]
  unfold numeral
  split
  next hzero =>
    have hdigit := digitValue_digitChar (show 0 < radix by omega) hhigh
    simp only [List.singleton_append, digitsValue, hdigit, hend, hzero]
    simp
  next =>
    rw [digitsValue_reverse hhigh _ _ _ fun d hd => Nat.digits_lt_base hlow hd, hend, Nat.ofDigits_digits]
    simp

theorem numeral_cons {radix : Nat} (n : Nat) (hlow : 1 < radix) :
    ∃ d digits, d < radix ∧ numeral radix n = digitChar d :: digits := by
  unfold numeral
  split
  next => exact ⟨0, [], by omega, rfl⟩
  next hne =>
    have hsome : (Nat.digits radix n).reverse ≠ [] := by simpa using Nat.digits_ne_nil_iff_ne_zero.mpr hne
    obtain ⟨d, digits, heq⟩ := List.exists_cons_of_ne_nil hsome
    have hmem : d ∈ Nat.digits radix n := List.mem_reverse.mp (heq ▸ List.mem_cons_self)
    exact ⟨d, digits.map digitChar, Nat.digits_lt_base hlow hmem, by rw [heq, List.map_cons]⟩

theorem strtol_numeral (n : Nat) {rest : List Byte} (plus : Bool) (hstop : ∀ b ∈ rest.head?, digitValue 10 b = none) :
    strtol 10 (chr ' ' :: ((if plus then [chr '+'] else []) ++ (numeral 10 n ++ rest))) = min (2 ^ 31 - 1) n := by
  have hvalue := digitsValue_numeral (n := n) (by decide : 1 < 10) (by decide) hstop
  have hspace : isSpace (chr ' ') = true := by decide
  cases plus with
  | true =>
      have hsign : isSpace (chr '+') = false := by decide
      have hminus : ¬ chr '+' = chr '-' := by decide
      rw [if_pos rfl, strtol, List.dropWhile_cons_of_pos hspace, List.singleton_append,
        List.dropWhile_cons_of_neg (by simp [hsign])]
      simp [hminus, hvalue]
  | false =>
      obtain ⟨d, digits, hd, heq⟩ := numeral_cons n (by decide : 1 < 10)
      have hall : ∀ d : Fin 10, isSpace (digitChar d) = false ∧ digitChar d ≠ chr '-' ∧ digitChar d ≠ chr '+' := by
        decide
      obtain ⟨hsign, hminus, hplus⟩ := hall ⟨d, hd⟩
      rw [heq, List.cons_append] at hvalue
      rw [heq]
      rw [if_neg (by decide), strtol, List.dropWhile_cons_of_pos hspace, List.nil_append, List.cons_append,
        List.dropWhile_cons_of_neg (by simp [hsign])]
      simp [hminus, hplus, hvalue]

theorem zero_notMem_numeral {radix : Nat} (n : Nat) (hlow : 1 < radix) (hhigh : radix ≤ 16) :
    (0 : Byte) ∉ numeral radix n := by
  unfold numeral
  split
  · simpa using (digitChar_ne_zero (by decide : 0 < 16)).symm
  · intro h
    obtain ⟨d, hd, hzero⟩ := List.mem_map.mp h
    have := Nat.digits_lt_base hlow (List.mem_reverse.mp hd)
    exact digitChar_ne_zero (by omega) hzero

theorem zero_notMem_zeroPadded {width : Nat} {s : List Byte} (h : (0 : Byte) ∉ s) : (0 : Byte) ∉ zeroPadded width s := by
  have hchar : ¬ (0 : Byte) = chr '0' := by decide
  rw [zeroPadded, List.mem_append, List.mem_replicate]
  exact fun hmem => hmem.elim (fun hzero => hchar hzero.2) h

theorem zero_notMem_formatHex (width : Nat) (n : BitVec 32) : (0 : Byte) ∉ formatHex width n :=
  zero_notMem_zeroPadded (zero_notMem_numeral _ (by decide) (by decide))

theorem zero_notMem_formatInt (width : Nat) (n : BitVec 32) : (0 : Byte) ∉ formatInt width n := by
  have hdigits := zero_notMem_numeral n.toInt.natAbs (by decide : 1 < 10) (by decide)
  have hminus : ¬ (0 : Byte) = chr '-' := by decide
  unfold formatInt
  split
  · rw [List.mem_cons]
    exact fun hmem => hmem.elim hminus (zero_notMem_zeroPadded hdigits)
  · exact zero_notMem_zeroPadded hdigits

theorem le_length_zeroPadded (width : Nat) (s : List Byte) : width ≤ (zeroPadded width s).length := by
  simp [zeroPadded]
  omega

theorem le_length_formatInt (width : Nat) (n : BitVec 32) : width ≤ (formatInt width n).length := by
  unfold formatInt
  split
  · have := le_length_zeroPadded (width - 1) (numeral 10 n.toInt.natAbs)
    simp
    omega
  · exact le_length_zeroPadded _ _

theorem bytes_snprintf (buf : Mem) {size : Nat} {text : List Byte} (h : size ≤ text.length) :
    (snprintf buf (size + 1) text).bytes 0 (size + 1) = text.take size ++ [0] := by
  have hlen : (text.take size).length = size := List.length_take_of_le h
  have htext : (Mem.ofBytes (text.take size)).bytes 0 size = text.take size := by
    have := Mem.bytes_ofBytes (text.take size)
    rwa [hlen] at this
  rw [snprintf, Nat.add_sub_cancel, hlen, Mem.bytes_copy_same, Mem.bytes_add, htext]
  simp [Mem.bytes, Mem.ofBytes, hlen]

def leading (radix width n : Nat) : Nat := n / radix ^ ((Nat.digits radix n).length - width)

theorem digits_div_pow {radix : Nat} (hlow : 1 < radix) (n k : Nat) :
    Nat.digits radix (n / radix ^ k) = (Nat.digits radix n).drop k := by
  induction k generalizing n with
  | zero => simp
  | succ k ih =>
      rw [pow_succ', ← Nat.div_div_eq_div_mul, ih]
      rcases n.eq_zero_or_pos with rfl | hpos
      · simp
      · rw [Nat.digits_def' hlow hpos, List.drop_succ_cons]

theorem length_numeral {radix n : Nat} (h : n ≠ 0) : (numeral radix n).length = (Nat.digits radix n).length := by
  simp [numeral, h]

theorem zeroPadded_of_length_le {width : Nat} {s : List Byte} (h : width ≤ s.length) : zeroPadded width s = s := by
  simp [zeroPadded, h]

theorem take_zeroPadded {radix width : Nat} (hlow : 1 < radix) (hwidth : 0 < width) (n : Nat) :
    (zeroPadded width (numeral radix n)).take width = zeroPadded width (numeral radix (leading radix width n)) := by
  by_cases hshort : (Nat.digits radix n).length ≤ width
  · have hlength : (numeral radix n).length ≤ width := by
      unfold numeral
      split
      · exact hwidth
      · simpa using hshort
    rw [leading, Nat.sub_eq_zero_of_le hshort, pow_zero, Nat.div_one, List.take_of_length_le]
    simp [zeroPadded]
    omega
  · have hne : n ≠ 0 := by
      rintro rfl
      simp at hshort
    have hdigits := digits_div_pow hlow n ((Nat.digits radix n).length - width)
    have hleading : leading radix width n ≠ 0 := by
      intro hzero
      rw [← leading, hzero] at hdigits
      have := congrArg List.length hdigits
      simp at this
      omega
    have hlength : (numeral radix (leading radix width n)).length = width := by
      rw [length_numeral hleading, leading, hdigits]
      simp
      omega
    rw [zeroPadded_of_length_le (by rw [length_numeral hne]; omega), zeroPadded_of_length_le hlength.ge]
    rw [numeral, if_neg hne, numeral, if_neg hleading, leading, hdigits, ← List.map_take, List.take_reverse]

theorem digitsValue_zeros {radix : Nat} (hpos : 0 < radix) (hhigh : radix ≤ 16) (k : Nat) (s : List Byte) :
    digitsValue radix 0 (List.replicate k (chr '0') ++ s) = digitsValue radix 0 s := by
  have hzero : digitValue radix (chr '0') = some 0 := digitValue_digitChar hpos hhigh
  induction k with
  | zero => simp
  | succ k ih =>
      rw [List.replicate_succ, List.cons_append, digitsValue, hzero]
      simpa using ih

theorem digitsValue_zeroPadded {radix : Nat} (hlow : 1 < radix) (hhigh : radix ≤ 16) (width n : Nat) :
    digitsValue radix 0 (zeroPadded width (numeral radix n)) = n := by
  rw [zeroPadded, digitsValue_zeros (by omega) hhigh]
  have hstop : ∀ b ∈ ([] : List Byte).head?, digitValue radix b = none := nofun
  simpa using digitsValue_numeral (n := n) hlow hhigh hstop

theorem take_zeroPadded_eq_iff {radix width : Nat} (hlow : 1 < radix) (hhigh : radix ≤ 16) (hwidth : 0 < width)
    (m n : Nat) : (zeroPadded width (numeral radix m)).take width = (zeroPadded width (numeral radix n)).take width ↔
      leading radix width m = leading radix width n := by
  rw [take_zeroPadded hlow hwidth, take_zeroPadded hlow hwidth]
  constructor
  · intro h
    have hvalue := congrArg (digitsValue radix 0) h
    rwa [digitsValue_zeroPadded hlow hhigh, digitsValue_zeroPadded hlow hhigh] at hvalue
  · intro h
    rw [h]

end Fl2440.Lib
