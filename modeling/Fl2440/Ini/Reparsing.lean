import Fl2440.Ini.Errors
import Fl2440.Ini.ScanLine

/-! The passes of `iniparser_load` through the label `CONTINUE_PARSER`: each is on a shorter
text than the one before, and whether it stays inside of its line depends on how the line ends. -/
namespace Fl2440.Ini

open Fl2440.Lib

/-- Where a pass leads to: the next `fgets`, the label again, or out of the function. -/
inductive Pass where
  | read (s : Loading)
  | again (s : Loading)
  | giveUp
deriving DecidableEq, Repr

def pass (s : Loading) : Except Fault Pass :=
  match s.line with
  | [] => .error .bounds
  | [_] => .ok (.read s)
  | _ :: _ :: _ =>
      if s.line.getLast? ≠ some newline then .ok .giveUp
      else
        let line := s.line.rdropWhile isSpace
        match line.getLast? with
        | none => .error .bounds
        | some b =>
            if b = chr '\\' then
              .ok (.read { s with
                line
                last := line.length - 1 })
            else do
              let (sta, sect, line) ← iniparserLine line s.sect
              let s ← { s with
                line
                last := 0
                sect }.store sta
              return if s.line ≠ [] then .again s else .read s

inductive Config where
  | reading (s : Loading) (file : List Byte)
  | parsing (s : Loading) (file : List Byte)
deriving DecidableEq, Repr

def next : Config → Except Fault (Config ⊕ Option Loading)
  | .reading s file =>
      match fgets (asciilinesz - s.last) file with
      | none => .ok (.inr (some s))
      | some (got, file) => .ok (.inl (.parsing { s with line := s.line.take s.last ++ got.takeWhile (· ≠ 0) } file))
  | .parsing s file => do
      match ← pass s with
      | .read s => return .inl (.reading s file)
      | .again s => return .inl (.parsing s file)
      | .giveUp => return .inr none

inductive Reached (file : List Byte) : Config → Prop
  | start : Reached file (.reading {} file)
  | next {c c' : Config} (h : Reached file c) (hnext : next c = .ok (.inl c')) : Reached file c'

inductive Ends : Config → Except Fault (Option Loading) → Prop
  | done {c : Config} {result : Option Loading} (h : next c = .ok (.inr result)) : Ends c (.ok result)
  | fault {c : Config} {e : Fault} (h : next c = .error e) : Ends c (.error e)
  | step {c c' : Config} {result : Except Fault (Option Loading)} (h : next c = .ok (.inl c')) (hlater : Ends c' result) :
      Ends c result

/-- No pass looks outside of its line, each is on a shorter text than the one before, and the
load ends. -/
structure Reparses (file : List Byte) : Prop where
  inside : ∀ c, Reached file c → FaultsOnly (fun _ => False) (next c)
  shorter : ∀ s s' rest rest', Reached file (.parsing s rest) → next (.parsing s rest) = .ok (.inl (.parsing s' rest')) →
    s'.line ≠ [] ∧ s'.line.length < s.line.length
  ends : ∃ result, Ends (.reading {} file) result

/-- The blanks that are stripped make up for a quote that is not there. -/
def MadeUp (k rest : List Byte) : Prop :=
  if rest = [] then (strstrip k).length + 2 ≤ k.length
  else (strstrip k).length + (valueKept (strstrip rest)).length + 1 ≤ k.length + rest.length

/-- A section without its bracket has to have a blank behind the other one; without a name
the section before has to fit. A quote right behind the `=` is closed, or as many blanks
are stripped. The names fit into `tmp`. -/
structure PartInside (text sect : List Byte) : Prop where
  bracket : ∀ name, text = chr '[' :: name → name ≠ [] → name.head? ≠ some (chr ']') → chr ']' ∉ name →
    ∃ b ∈ name.head?, isSpace b = true
  nameless : ∀ name, text = chr '[' :: name → name = [] ∨ name.head? = some (chr ']') →
    (strstrip sect).length + 2 ≤ text.length
  quoted : ∀ k q rest, KeyText k → IsQuote q → q ∉ rest → text = k ++ chr '=' :: q :: rest → MadeUp k rest
  name : ∀ k rest, KeyText k → text = k ++ chr '=' :: rest → sect.length + 1 + (strstrip k).length ≤ asciilinesz

/-- What is parsed of a line: it is more than its newline, has one, and is not continued. -/
def Parsed (s : Loading) (text : List Byte) : Prop :=
  2 ≤ s.line.length ∧ s.line.getLast? = some newline ∧ (s.line.rdropWhile isSpace).getLast? ≠ some (chr '\\') ∧
    text = strstrip (s.line.rdropWhile isSpace)

structure Inside (s : Loading) : Prop where
  something : s.line ≠ []
  visible : 2 ≤ s.line.length → s.line.getLast? = some newline → s.line.rdropWhile isSpace ≠ []
  part : ∀ text, Parsed s text → PartInside text s.sect

section Part

variable {text sect k rest name : List Byte} {q : Byte}

def ScanInside (text sect : List Byte) : Prop :=
  leftOutside text (scanLine text sect).2.2 = false ∧ tmpOverflows (scanLine text sect).2.1 (scanLine text sect).1 = false

theorem keyText_unique {k' rest' : List Byte} (hk : KeyText k) (hk' : KeyText k')
    (h : k ++ chr '=' :: rest = k' ++ chr '=' :: rest') : k = k' ∧ rest = rest' := by
  have hkey := congrArg (List.takeWhile (· ≠ chr '=')) h
  rw [takeWhile_append_cons hk.plain, takeWhile_append_cons hk'.plain] at hkey
  subst hkey
  exact ⟨rfl, (List.cons.inj (List.append_cancel_left h)).2⟩

theorem keyText_head {b : Byte} (hb : b = chr '[' ∨ b = chr ';' ∨ b = chr '#') {rest' : List Byte} (hk : KeyText k) :
    b :: rest' ≠ k ++ chr '=' :: rest := by
  intro heq
  obtain ⟨first, later, rfl⟩ := List.exists_cons_of_ne_nil hk.ne_nil
  obtain ⟨hbracket, hsemi, hhash⟩ := hk.head first rfl
  obtain ⟨rfl, -⟩ := List.cons.inj heq
  rcases hb with rfl | rfl | rfl
  · exact hbracket rfl
  · exact hsemi rfl
  · exact hhash rfl

theorem scanInside_comment {b : Byte} (hb : b = chr ';' ∨ b = chr '#') (rest sect : List Byte) :
    ScanInside (b :: rest) sect ↔ PartInside (b :: rest) sect := by
  have hnot : b ≠ chr '[' := by rcases hb with rfl | rfl <;> decide
  have hscan : scanLine (b :: rest) sect = (.comment, sect, .cleared) := by
    rw [scanLine, if_pos hb.symm]
  rw [ScanInside, hscan]
  refine iff_of_true ⟨rfl, rfl⟩ ⟨?_, ?_, ?_, ?_⟩
  · exact fun name heq => absurd (List.cons.inj heq).1 hnot
  · exact fun name heq => absurd (List.cons.inj heq).1 hnot
  · exact fun k q rest hk _ _ heq => absurd heq (keyText_head (.inr hb) hk)
  · exact fun k rest hk heq => absurd heq (keyText_head (.inr hb) hk)

theorem strstrip_shorter_iff {b : Byte} (hlast : name.getLast? = some b) (hb : isSpace b = false) :
    (strstrip name).length < name.length ↔ ∃ b ∈ name.head?, isSpace b = true := by
  obtain ⟨first, rest, rfl⟩ := List.exists_cons_of_ne_nil (List.ne_nil_of_mem (List.mem_of_getLast? hlast))
  by_cases hfirst : isSpace first = true
  · refine iff_of_true ?_ ⟨first, rfl, hfirst⟩
    rw [strstrip, List.dropWhile_cons_of_pos hfirst, List.length_cons]
    exact Nat.lt_succ_of_le ((rdropWhile_length_le _).trans (rest.dropWhile_suffix isSpace).length_le)
  · have hsolid : Solid (first :: rest) := ⟨⟨first, rfl, by simpa using hfirst⟩, b, hlast, hb⟩
    rw [strstrip_solid hsolid]
    refine iff_of_false (Nat.lt_irrefl _) ?_
    rintro ⟨b, hmem, hspace⟩
    exact hfirst (Option.mem_some_iff.mp hmem ▸ hspace)

theorem takeWhile_of_notMem {c : Byte} (h : c ∉ text) : text.takeWhile (· ≠ c) = text :=
  List.takeWhile_eq_self_iff.mpr fun b hb => decide_eq_true fun heq : b = c => h (heq ▸ hb)

theorem takeWhile_length_lt {c : Byte} (h : c ∈ text) : (text.takeWhile (· ≠ c)).length < text.length := by
  refine lt_of_le_of_ne (text.takeWhile_prefix _).length_le fun hlength => ?_
  have hself := (text.takeWhile_prefix (· ≠ c)).eq_of_length hlength
  have hmem := List.mem_takeWhile_imp (hself.symm ▸ h)
  simp at hmem

theorem scanLine_bracket (name sect : List Byte) : ∃ sect', scanLine (chr '[' :: name) sect =
    (.section, sect', .from ((strstrip (if name.takeWhile (· ≠ chr ']') = [] then sect
      else name.takeWhile (· ≠ chr ']'))).length + 2)) := by
  have hscan : sscanf sectionFormat (chr '[' :: name) =
      if name.takeWhile (· ≠ chr ']') = [] then [] else [name.takeWhile (· ≠ chr ']')] := by
    show (if chr '[' = chr '[' then sscanf [.set (· ≠ chr ']')] name else []) = _
    rw [if_pos rfl, sscanf, sscanf]
  have hlength : ∀ text, (strlwc text).length = text.length := fun text => List.length_map _
  have hsigns : ¬ (chr '[' = chr '#' ∨ chr '[' = chr ';') := by decide
  rw [scanLine, if_neg hsigns, if_pos rfl, hscan]
  by_cases hname : name.takeWhile (· ≠ chr ']') = []
  · rw [if_pos hname, if_pos hname]
    exact ⟨strlwc (strstrip sect), by rw [← hlength (strstrip sect)]; rfl⟩
  · rw [if_neg hname, if_neg hname]
    exact ⟨strlwc (strstrip (name.takeWhile (· ≠ chr ']'))), by rw [← hlength (strstrip _)]; rfl⟩

theorem scanInside_bracket {b : Byte} (hlast : (chr '[' :: name).getLast? = some b) (hb : isSpace b = false)
    (sect : List Byte) : ScanInside (chr '[' :: name) sect ↔ PartInside (chr '[' :: name) sect := by
  obtain ⟨sect', hscan⟩ := scanLine_bracket name sect
  have hoffset : ScanInside (chr '[' :: name) sect ↔ (strstrip (if name.takeWhile (· ≠ chr ']') = [] then sect
      else name.takeWhile (· ≠ chr ']'))).length + 2 ≤ name.length + 1 := by
    rw [ScanInside, hscan]
    show decide _ = false ∧ false = false ↔ _
    rw [decide_eq_false_iff_not, Nat.not_lt, List.length_cons]
    exact and_iff_left rfl
  have hpart : PartInside (chr '[' :: name) sect ↔
      (name ≠ [] → name.head? ≠ some (chr ']') → chr ']' ∉ name → ∃ b ∈ name.head?, isSpace b = true) ∧
        (name = [] ∨ name.head? = some (chr ']') → (strstrip sect).length + 2 ≤ name.length + 1) := by
    constructor
    · exact fun h => ⟨h.bracket name rfl, h.nameless name rfl⟩
    · refine fun h => ⟨?_, ?_, ?_, ?_⟩
      · intro name' heq
        cases heq
        exact h.1
      · intro name' heq
        cases heq
        exact h.2
      · exact fun k q rest hk _ _ heq => absurd heq (keyText_head (.inl rfl) hk)
      · exact fun k rest hk heq => absurd heq (keyText_head (.inl rfl) hk)
  rw [hoffset, hpart]
  cases name with
  | nil => simp
  | cons first later =>
      by_cases hclose : first = chr ']'
      · subst hclose
        simp
      · have htake : (first :: later).takeWhile (· ≠ chr ']') ≠ [] := by
          rw [List.takeWhile_cons_of_pos (by simpa using hclose)]
          exact List.cons_ne_nil _ _
        have hhead : (first :: later).head? ≠ some (chr ']') := fun heq => hclose (Option.some.inj heq)
        have hopen : (first :: later ≠ [] → (first :: later).head? ≠ some (chr ']') → chr ']' ∉ first :: later →
            ∃ b ∈ (first :: later).head?, isSpace b = true) ↔
              (chr ']' ∉ first :: later → ∃ b ∈ (first :: later).head?, isSpace b = true) :=
          ⟨fun h => h (List.cons_ne_nil _ _) hhead, fun h _ _ => h⟩
        rw [if_neg htake, and_iff_left fun h => (h.elim (fun h => List.cons_ne_nil _ _ h) hhead).elim, hopen]
        by_cases hmem : chr ']' ∈ first :: later
        · have hless := takeWhile_length_lt hmem
          have hstrip := strstrip_length_le ((first :: later).takeWhile (· ≠ chr ']'))
          exact iff_of_true (by omega) fun h => absurd hmem h
        · rw [List.getLast?_cons_cons] at hlast
          rw [takeWhile_of_notMem hmem, ← strstrip_shorter_iff hlast hb, imp_iff_right hmem]
          omega

theorem quoted_iff (k : List Byte) (hq : IsQuote q) (rest : List Byte) {found : List Byte}
    (hfound : found = if rest.takeWhile (· ≠ q) = [] then q :: rest.takeWhile (fun b => b ≠ chr ';' && b ≠ chr '#')
      else rest.takeWhile (· ≠ q)) :
    (strstrip k).length + (valueKept (strstrip found)).length + 1 + 2 ≤ (k ++ chr '=' :: q :: rest).length ↔
      (q ∉ rest → MadeUp k rest) := by
  have hkey := strstrip_length_le k
  have hkept := (valueKept_length (strstrip found)).trans (strstrip_length_le found)
  rw [List.length_append, List.length_cons, List.length_cons]
  by_cases hmem : q ∈ rest
  · refine iff_of_true ?_ fun h => absurd hmem h
    by_cases htaken : rest.takeWhile (· ≠ q) = []
    · obtain ⟨first, later, rfl⟩ := List.exists_cons_of_ne_nil (List.ne_nil_of_mem hmem)
      have hfirst : first = q := by
        by_contra hne
        rw [List.takeWhile_cons_of_pos (by simpa using hne)] at htaken
        cases htaken
      subst hfirst
      have hplain : (first ≠ chr ';' && first ≠ chr '#') = true := by rcases hq with rfl | rfl <;> decide
      have hquotes : (first :: later).takeWhile (fun b => b ≠ chr ';' && b ≠ chr '#') =
          first :: later.takeWhile fun b => b ≠ chr ';' && b ≠ chr '#' := List.takeWhile_cons_of_pos hplain
      have hempty : valueKept (strstrip found) = [] := by
        rw [hfound, if_pos htaken, hquotes]
        exact valueKept_quotes hq _
      rw [hempty, List.length_cons, List.length_nil]
      omega
    · rw [if_neg htaken] at hfound
      have hless := takeWhile_length_lt hmem
      rw [← hfound] at hless
      omega
  · rw [takeWhile_of_notMem hmem] at hfound
    rw [imp_iff_right hmem, MadeUp]
    by_cases hnil : rest = []
    · subst hnil
      have hone : found = [q] := hfound
      have hself : valueKept (strstrip found) = [q] := by
        rw [hone, strstrip_solid ⟨⟨q, rfl, hq.not_space⟩, q, rfl, hq.not_space⟩]
        rcases hq with rfl | rfl <;> rfl
      rw [hself, if_pos rfl, List.length_singleton, List.length_nil]
      omega
    · rw [if_neg hnil] at hfound
      rw [if_neg hnil, hfound]
      omega

theorem partInside_entry (hk : KeyText k) (rest sect : List Byte) : PartInside (k ++ chr '=' :: rest) sect ↔
    (∀ q later, IsQuote q → q ∉ later → rest = q :: later → MadeUp k later) ∧
      sect.length + 1 + (strstrip k).length ≤ asciilinesz := by
  constructor
  · refine fun h => ⟨fun q later hq hopen heq => ?_, h.name k rest hk rfl⟩
    exact h.quoted k q later hk hq hopen (by rw [heq])
  · refine fun h => ⟨fun name heq => ?_, fun name heq => ?_, fun k' q later hk' hq hopen heq => ?_,
      fun k' later hk' heq => ?_⟩
    · exact absurd heq.symm (keyText_head (.inl rfl) hk)
    · exact absurd heq.symm (keyText_head (.inl rfl) hk)
    · obtain ⟨rfl, hrest⟩ := keyText_unique hk hk' heq
      exact h.1 q later hq hopen hrest
    · obtain ⟨rfl, -⟩ := keyText_unique hk hk' heq
      exact h.2

theorem leftOutside_from (text : List Byte) (offset : Nat) :
    leftOutside text (.from offset) = false ↔ offset ≤ text.length := by
  rw [leftOutside, decide_eq_false_iff_not, Nat.not_lt]

theorem scanInside_entry (hk : KeyText k) (rest sect : List Byte) :
    ScanInside (k ++ chr '=' :: rest) sect ↔ PartInside (k ++ chr '=' :: rest) sect := by
  have hlength : (strlwc (strstrip k)).length = (strstrip k).length := List.length_map _
  have hname : ∀ value, tmpOverflows sect (.value (strlwc (strstrip k)) value) = false ↔
      sect.length + 1 + (strstrip k).length ≤ asciilinesz := by
    intro value
    rw [tmpOverflows, decide_eq_false_iff_not, Nat.not_lt, hlength]
  rw [partInside_entry hk]
  by_cases hquote : ∃ q later, IsQuote q ∧ rest = q :: later
  · obtain ⟨q, later, hq, rfl⟩ := hquote
    have hscan := scanLine_pair hk (firstPair_quote hk hq later) sect
    have hhead : (q :: later).head? = some (chr '\'') ∨ (q :: later).head? = some (chr '"') := by
      rcases hq with rfl | rfl
      · exact .inl rfl
      · exact .inr rfl
    rw [if_pos hhead] at hscan
    rw [ScanInside, hscan, hname, leftOutside_from, quoted_iff k hq later rfl]
    refine and_congr_left fun _ => ⟨fun h q' later' _ hopen heq => ?_, fun h hopen => h q later hq hopen rfl⟩
    obtain ⟨rfl, rfl⟩ := List.cons.inj heq
    exact h hopen
  · have hvacuous : ∀ q later, IsQuote q → q ∉ later → rest = q :: later → MadeUp k later :=
      fun q later hq _ heq => absurd ⟨q, later, hq, heq⟩ hquote
    rw [and_iff_right hvacuous]
    cases hpair : firstPair valueFormats (k ++ chr '=' :: rest) with
    | none =>
        rw [ScanInside, scanLine_noPair hk hpair, hname]
        exact and_iff_right rfl
    | some found =>
        obtain ⟨key, value⟩ := found
        obtain ⟨rfl, hvalue⟩ := firstPair_key hk hpair
        have hhead : ¬ (rest.head? = some (chr '\'') ∨ rest.head? = some (chr '"')) := by
          intro h
          cases rest with
          | nil => simp at h
          | cons q later =>
              refine hquote ⟨q, later, ?_, rfl⟩
              exact h.imp Option.some.inj Option.some.inj
        have hkey := strstrip_length_le key
        have hkept := (valueKept_length (strstrip value)).trans (strstrip_length_le value)
        rw [ScanInside, scanLine_pair hk hpair, hname, leftOutside_from, if_neg hhead, List.length_append,
          List.length_cons, and_iff_right (by omega)]

theorem scanInside_other {b : Byte} (hb : b ≠ chr '[' ∧ b ≠ chr ';' ∧ b ≠ chr '#')
    (hnone : ¬ ∃ k later, KeyText k ∧ b :: rest = k ++ chr '=' :: later) (sect : List Byte) :
    ScanInside (b :: rest) sect ↔ PartInside (b :: rest) sect := by
  have hkey : b = chr '=' ∨ chr '=' ∉ b :: rest := by
    by_contra h
    obtain ⟨hne, hmem⟩ := not_or.mp h
    obtain ⟨k, later, heq, hplain⟩ := List.eq_append_cons_of_mem (not_not.mp hmem)
    cases k with
    | nil => exact hne (List.cons.inj heq).1
    | cons first k =>
        obtain ⟨rfl, -⟩ := List.cons.inj heq
        refine hnone ⟨b :: k, later, ⟨List.cons_ne_nil _ _, hplain, fun c hc => ?_⟩, heq⟩
        cases hc
        exact hb
  have hplain : PlainError (b :: rest) :=
    ⟨fun heq => hb.1 (Option.some.inj heq), hkey.imp_left fun heq => congrArg some heq⟩
  have hsigns : ∀ c ∈ (b :: rest).head?, c ≠ chr ';' ∧ c ≠ chr '#' := by
    rintro c ⟨rfl⟩
    exact hb.2
  have hscan := scanLine_plainError hplain (List.cons_ne_nil _ _) hsigns sect
  rw [ScanInside, hscan]
  refine iff_of_true ⟨rfl, rfl⟩ ⟨?_, ?_, ?_, ?_⟩
  · exact fun name heq => absurd (List.cons.inj heq).1 hb.1
  · exact fun name heq => absurd (List.cons.inj heq).1 hb.1
  · exact fun k q later hk _ _ heq => absurd ⟨k, q :: later, hk, heq⟩ hnone
  · exact fun k later hk heq => absurd ⟨k, later, hk, heq⟩ hnone

theorem scanInside_iff (hsolid : Solid text) (sect : List Byte) : ScanInside text sect ↔ PartInside text sect := by
  obtain ⟨⟨b, hhead, -⟩, last, hlast, hspace⟩ := hsolid
  obtain ⟨rest, rfl⟩ := List.head?_eq_some_iff.mp hhead
  by_cases hcomment : b = chr ';' ∨ b = chr '#'
  · exact scanInside_comment hcomment rest sect
  by_cases hbracket : b = chr '['
  · subst hbracket
    exact scanInside_bracket hlast hspace sect
  by_cases hentry : ∃ k later, KeyText k ∧ b :: rest = k ++ chr '=' :: later
  · obtain ⟨k, later, hk, heq⟩ := hentry
    rw [heq]
    exact scanInside_entry hk later sect
  · obtain ⟨hsemi, hhash⟩ := not_or.mp hcomment
    exact scanInside_other ⟨hbracket, hsemi, hhash⟩ hentry sect

end Part

section Passes

variable {s s' : Loading} {line : List Byte}

def parsePart (s : Loading) (line : List Byte) : Except Fault Pass := do
  let (sta, sect, line) ← iniparserLine line s.sect
  let s ← { s with
    line
    last := 0
    sect }.store sta
  return if s.line ≠ [] then .again s else .read s

inductive PassCase (s : Loading) : Except Fault Pass → Prop
  | empty (h : s.line = []) : PassCase s (.error .bounds)
  | one (h : s.line.length = 1) : PassCase s (.ok (.read s))
  | long (hlength : 2 ≤ s.line.length) (h : s.line.getLast? ≠ some newline) : PassCase s (.ok .giveUp)
  | blank (hlength : 2 ≤ s.line.length) (hnewline : s.line.getLast? = some newline)
      (h : s.line.rdropWhile isSpace = []) : PassCase s (.error .bounds)
  | continued (hlength : 2 ≤ s.line.length) (hnewline : s.line.getLast? = some newline)
      (h : (s.line.rdropWhile isSpace).getLast? = some (chr '\\')) : PassCase s (.ok (.read { s with
        line := s.line.rdropWhile isSpace
        last := (s.line.rdropWhile isSpace).length - 1 }))
  | part (hlength : 2 ≤ s.line.length) (hnewline : s.line.getLast? = some newline)
      (hne : s.line.rdropWhile isSpace ≠ []) (h : (s.line.rdropWhile isSpace).getLast? ≠ some (chr '\\')) :
      PassCase s (parsePart s (s.line.rdropWhile isSpace))

theorem pass_cases (s : Loading) : PassCase s (pass s) := by
  rw [pass]
  split
  next hnil => exact .empty hnil
  next hone => exact .one (by rw [hone]; rfl)
  next hmore =>
    have hlength : 2 ≤ s.line.length := by
      rw [hmore]
      simp
    split
    next hend => exact .long hlength hend
    next hend =>
      have hnewline := not_not.mp hend
      dsimp only
      split
      next hblank => exact .blank hlength hnewline (List.getLast?_eq_none_iff.mp hblank)
      next b hlast =>
        split
        next hback => exact .continued hlength hnewline (hback ▸ hlast)
        next hback =>
          refine .part hlength hnewline (fun hnil => ?_) fun heq => hback (Option.some.inj (hlast.symm.trans heq))
          rw [hnil] at hlast
          cases hlast

theorem continueParser_pass (rounds : Nat) (s : Loading) : continueParser (rounds + 1) s = (do
    match ← pass s with
    | .read s => return some s
    | .again s => continueParser rounds s
    | .giveUp => return none) := by
  obtain ⟨line, last, sect, errs, dict⟩ := s
  rw [continueParser, pass]
  dsimp only
  split
  next => rfl
  next => rfl
  next first second rest =>
    split
    next => rfl
    next =>
      cases ((first :: second :: rest).rdropWhile isSpace).getLast? with
      | none => rfl
      | some b =>
          dsimp only
          split
          next => rfl
          next =>
            simp only [bind_assoc]
            congr 1
            funext result
            obtain ⟨sta, sect, line⟩ := result
            congr 1
            funext s'
            by_cases hne : s'.line ≠ []
            · rw [if_pos hne, if_pos hne]
              rfl
            · rw [if_neg hne, if_neg hne]
              rfl

theorem store_inside (s : Loading) (sta : LineStatus) :
    (tmpOverflows s.sect sta = true ∧ s.store sta = .error .bounds) ∨
      (tmpOverflows s.sect sta = false ∧ ∃ s', s.store sta = .ok s' ∧ s'.line = s.line ∧ s'.last = s.last) := by
  rcases store_cases s sta .cleared (fun heq => nomatch heq) with hover | ⟨hfits, s', hstore, -, hline, hlast, -⟩
  · exact .inl hover
  · exact .inr ⟨hfits, s', hstore, hline, hlast⟩

theorem parsePart_cases (s : Loading) (hself : line.rdropWhile isSpace = line) (hne : line ≠ []) :
    (¬ ScanInside (strstrip line) s.sect ∧ parsePart s line = .error .bounds) ∨
      (ScanInside (strstrip line) s.sect ∧ ∃ s', parsePart s line = .ok (if s'.line ≠ [] then .again s' else .read s') ∧
        s'.last = 0 ∧ s'.line.length ≤ line.length) := by
  have htext := strstrip_ne_nil hself hne
  have hlength := strstrip_length_le line
  obtain ⟨sta, sect, left, hscan⟩ : ∃ sta sect left, scanLine (strstrip line) s.sect = (sta, sect, left) :=
    ⟨_, _, _, rfl⟩
  have hstore : ∀ kept : List Byte, kept.length ≤ line.length → iniparserLine line s.sect = .ok (sta, sect, kept) →
      (tmpOverflows sect sta = true ∧ parsePart s line = .error .bounds) ∨
        (tmpOverflows sect sta = false ∧ ∃ s', parsePart s line = .ok (if s'.line ≠ [] then .again s' else .read s') ∧
          s'.last = 0 ∧ s'.line.length ≤ line.length) := by
    intro kept hkept hline
    rw [parsePart, hline]
    rcases store_inside { s with
        line := kept
        last := 0
        sect } sta with ⟨hover, hstore⟩ | ⟨hfits, s', hstore, hsame, hzero⟩
    · refine .inl ⟨hover, ?_⟩
      simp only [ok_bind, hstore]
      rfl
    · refine .inr ⟨hfits, s', ?_, hzero, hsame ▸ hkept⟩
      simp only [ok_bind, hstore]
      rfl
  have hinside : ScanInside (strstrip line) s.sect ↔
      leftOutside (strstrip line) left = false ∧ tmpOverflows sect sta = false := by
    rw [ScanInside, hscan]
  rw [hinside]
  cases left with
  | cleared =>
      have hline : iniparserLine line s.sect = .ok (sta, sect, []) := by
        simp only [iniparserLine, hscan, if_neg htext]
      rcases hstore [] (Nat.zero_le _) hline with ⟨hover, hfault⟩ | ⟨hfits, hok⟩
      · exact .inl ⟨fun h => by simp [hover] at h, hfault⟩
      · exact .inr ⟨⟨rfl, hfits⟩, hok⟩
  | kept =>
      have hline : iniparserLine line s.sect = .ok (sta, sect, line) := by
        simp only [iniparserLine, hscan]
      rcases hstore line (Nat.le_refl _) hline with ⟨hover, hfault⟩ | ⟨hfits, hok⟩
      · exact .inl ⟨fun h => by simp [hover] at h, hfault⟩
      · exact .inr ⟨⟨rfl, hfits⟩, hok⟩
  | «from» offset =>
      have hpos := scanLine_from hscan
      rw [leftOutside_from]
      by_cases hoffset : offset ≤ (strstrip line).length
      · have hleft := strstrip_length_le ((strstrip line).drop offset)
        rw [List.length_drop] at hleft
        have hline : iniparserLine line s.sect = .ok (sta, sect, if strstrip ((strstrip line).drop offset) = [] then []
            else strstrip ((strstrip line).drop offset) ++ [newline]) := by
          simp only [iniparserLine, hscan, leftLine, if_pos hoffset]
          rfl
        have hkept : (if strstrip ((strstrip line).drop offset) = [] then []
            else strstrip ((strstrip line).drop offset) ++ [newline]).length ≤ line.length := by
          split
          · exact Nat.zero_le _
          · rw [List.length_append, List.length_singleton]
            omega
        rcases hstore _ hkept hline with ⟨hover, hfault⟩ | ⟨hfits, hok⟩
        · exact .inl ⟨fun h => by simp [hover] at h, hfault⟩
        · exact .inr ⟨⟨hoffset, hfits⟩, hok⟩
      · refine .inl ⟨fun h => hoffset h.1, ?_⟩
        simp only [parsePart, iniparserLine, hscan, leftLine, if_neg hoffset]
        rfl

theorem rdropWhile_self (text : List Byte) : (text.rdropWhile isSpace).rdropWhile isSpace = text.rdropWhile isSpace :=
  List.rdropWhile_idempotent ..

theorem rdropWhile_length_lt {text : List Byte} (h : text.getLast? = some newline) :
    (text.rdropWhile isSpace).length < text.length := by
  obtain ⟨before, rfl⟩ := List.getLast?_eq_some_iff.mp h
  rw [rdropWhile_newline, List.length_append, List.length_singleton]
  exact Nat.lt_succ_of_le (rdropWhile_length_le before)

theorem solid_stripped {text : List Byte} (h : text.rdropWhile isSpace ≠ []) : Solid (strstrip (text.rdropWhile isSpace)) := by
  have hlast := List.getLast?_eq_some_getLast h
  have hspace := List.rdropWhile_eq_self_iff.mp (rdropWhile_self text) h
  exact (solid_strstrip hlast (by simpa using hspace)).1

theorem pass_ok_iff (s : Loading) : (∃ p, pass s = .ok p) ↔ Inside s := by
  have hcases := pass_cases s
  generalize pass s = result at hcases
  cases hcases with
  | empty h => exact iff_of_false (fun ⟨_, heq⟩ => nomatch heq) fun hin => hin.something h
  | one h =>
      refine iff_of_true ⟨_, rfl⟩ ⟨fun hnil => ?_, fun hlength => ?_, fun text hparsed => ?_⟩
      · rw [hnil] at h
        cases h
      · omega
      · have hlength := hparsed.1
        omega
  | long hlength h =>
      refine iff_of_true ⟨_, rfl⟩ ⟨fun hnil => ?_, fun _ hnewline => absurd hnewline h, fun text hparsed => ?_⟩
      · rw [hnil] at hlength
        exact absurd hlength (by decide)
      · exact absurd hparsed.2.1 h
  | blank hlength hnewline h =>
      exact iff_of_false (fun ⟨_, heq⟩ => nomatch heq) fun hin => hin.visible hlength hnewline h
  | continued hlength hnewline h =>
      refine iff_of_true ⟨_, rfl⟩ ⟨fun hnil => ?_, fun _ _ hnil => ?_, fun text hparsed => ?_⟩
      · rw [hnil] at hlength
        exact absurd hlength (by decide)
      · rw [hnil] at h
        cases h
      · exact absurd h hparsed.2.2.1
  | part hlength hnewline hne h =>
      have hscan := scanInside_iff (solid_stripped hne) s.sect
      rcases parsePart_cases s (rdropWhile_self s.line) hne with ⟨hout, hfault⟩ | ⟨hin, s', hok, -, -⟩
      · rw [hfault]
        refine iff_of_false (fun ⟨_, heq⟩ => nomatch heq) fun hinside => hout (hscan.mpr ?_)
        exact hinside.part _ ⟨hlength, hnewline, h, rfl⟩
      · rw [hok]
        refine iff_of_true ⟨_, rfl⟩ ⟨fun hnil => ?_, fun _ _ => hne, fun text hparsed => ?_⟩
        · rw [hnil] at hlength
          exact absurd hlength (by decide)
        · rw [hparsed.2.2.2]
          exact hscan.mp hin

theorem pass_again (h : pass s = .ok (.again s')) : s'.line ≠ [] ∧ s'.line.length < s.line.length ∧ s'.last = 0 := by
  have hcases := pass_cases s
  generalize pass s = result at h hcases
  cases hcases with
  | empty _ | one _ | long _ _ | blank _ _ _ | continued _ _ _ => cases h
  | part hlength hnewline hne _ =>
      have hshort := rdropWhile_length_lt hnewline
      rcases parsePart_cases s (rdropWhile_self s.line) hne with ⟨-, hfault⟩ | ⟨-, s₁, hok, hzero, hkept⟩
      · rw [hfault] at h
        cases h
      · rw [hok] at h
        split at h
        next hsome =>
          cases h
          exact ⟨hsome, by omega, hzero⟩
        next => cases h

theorem pass_read (h : pass s = .ok (.read s')) (hline : s.line.length < asciilinesz) (hlast : s.last + 2 < asciilinesz) :
    s'.last + 2 < asciilinesz := by
  have hcases := pass_cases s
  generalize pass s = result at h hcases
  cases hcases with
  | empty _ | long _ _ | blank _ _ _ => cases h
  | one _ =>
      cases h
      exact hlast
  | continued hlength hnewline hback =>
      cases h
      have hshort := rdropWhile_length_lt hnewline
      show (s.line.rdropWhile isSpace).length - 1 + 2 < asciilinesz
      omega
  | part hlength hnewline hne _ =>
      rcases parsePart_cases s (rdropWhile_self s.line) hne with ⟨-, hfault⟩ | ⟨-, s₁, hok, hzero, -⟩
      · rw [hfault] at h
        cases h
      · rw [hok] at h
        split at h
        next => cases h
        next =>
          cases h
          rw [hzero]
          decide

end Passes

section Runs

variable {file got rest : List Byte} {s s' : Loading}

theorem fgets_bounds {size : Nat} (hsize : 2 ≤ size) (h : fgets size file = some (got, rest)) :
    rest.length < file.length ∧ got.length < size := by
  rw [fgets] at h
  split at h
  next => cases h
  next hne =>
    have hpos := List.length_pos_iff.mpr hne
    cases h
    rw [List.length_drop, List.length_take]
    omega

theorem ends_continueParser {after : Loading → Except Fault (Option Loading)} (rest : List Byte)
    (hlater : ∀ s, s.last + 2 < asciilinesz → Ends (.reading s rest) (after s)) :
    ∀ (rounds : Nat) (s : Loading), max 1 s.line.length ≤ rounds → s.line.length < asciilinesz → s.last + 2 < asciilinesz →
      Ends (.parsing s rest) (do
        let some s ← continueParser rounds s | return none
        after s)
  | 0, s, hrounds, _, _ => absurd hrounds (by omega)
  | rounds + 1, s, hrounds, hline, hlast => by
      rw [continueParser_pass]
      have hnext : next (.parsing s rest) = (do
          match ← pass s with
          | .read s => return .inl (.reading s rest)
          | .again s => return .inl (.parsing s rest)
          | .giveUp => return .inr none) := rfl
      cases hpass : pass s with
      | error e =>
          rw [hpass] at hnext
          exact .fault hnext
      | ok p =>
          rw [hpass] at hnext
          cases p with
          | read s' => exact .step hnext (hlater s' (pass_read hpass hline hlast))
          | again s' =>
              obtain ⟨hne, hshort, hzero⟩ := pass_again hpass
              have hpos := List.length_pos_iff.mpr hne
              refine .step hnext (ends_continueParser rest hlater rounds s' (by omega) (by omega) ?_)
              rw [hzero]
              decide
          | giveUp => exact .done hnext

theorem ends_loadLoop : ∀ (rounds : Nat) (file : List Byte) (s : Loading), file.length ≤ rounds → s.last + 2 < asciilinesz →
    Ends (.reading s file) (loadLoop rounds file s)
  | 0, file, s, hrounds, _ => by
      cases List.length_eq_zero_iff.mp (Nat.le_zero.mp hrounds)
      exact .done rfl
  | rounds + 1, file, s, hrounds, hlast => by
      have hnext : next (.reading s file) = match fgets (asciilinesz - s.last) file with
        | none => .ok (.inr (some s))
        | some (got, file) =>
            .ok (.inl (.parsing { s with line := s.line.take s.last ++ got.takeWhile (· ≠ 0) } file)) := rfl
      rw [loadLoop]
      cases hgot : fgets (asciilinesz - s.last) file with
      | none =>
          rw [hgot] at hnext
          exact .done hnext
      | some taken =>
          obtain ⟨got, rest⟩ := taken
          rw [hgot] at hnext
          obtain ⟨hrest, hfits⟩ := fgets_bounds (by omega) hgot
          have hstring := (got.takeWhile_prefix (· ≠ 0)).length_le
          have hjoined : (s.line.take s.last ++ got.takeWhile (· ≠ 0)).length < asciilinesz := by
            rw [List.length_append, List.length_take]
            omega
          refine .step hnext (ends_continueParser rest (fun s' hlast' => ?_) _ _ (Nat.le_refl _) hjoined hlast)
          exact ends_loadLoop rounds rest s' (by omega) hlast'

theorem next_parsing (s : Loading) (rest : List Byte) :
    FaultsOnly (fun _ => False) (next (.parsing s rest)) ↔ Inside s := by
  rw [← pass_ok_iff, next]
  cases pass s with
  | error e => exact iff_of_false (fun h => h e rfl) fun ⟨_, heq⟩ => nomatch heq
  | ok p =>
      refine iff_of_true ?_ ⟨p, rfl⟩
      cases p <;> exact FaultsOnly.ok _ _

theorem next_reading (s : Loading) (rest : List Byte) : FaultsOnly (fun _ => False) (next (.reading s rest)) := by
  rw [next]
  split <;> exact FaultsOnly.ok _ _

end Runs

/-- The parser stays inside of its line if and only if each text that it comes to is as it should be. -/
theorem reparses_iff (file : List Byte) : Reparses file ↔ ∀ s rest, Reached file (.parsing s rest) → Inside s := by
  constructor
  · exact fun h s rest hreached => (next_parsing s rest).mp (h.inside _ hreached)
  · intro h
    refine ⟨fun c hreached => ?_, fun s s' rest rest' _ hnext => ?_, ?_⟩
    · cases c with
      | reading s rest => exact next_reading s rest
      | parsing s rest => exact (next_parsing s rest).mpr (h s rest hreached)
    · rw [next] at hnext
      cases hpass : pass s with
      | error e =>
          rw [hpass] at hnext
          cases hnext
      | ok p =>
          rw [hpass] at hnext
          cases p with
          | read _ | giveUp => cases hnext
          | again s₁ =>
              cases hnext
              obtain ⟨hne, hshort, -⟩ := pass_again hpass
              exact ⟨hne, hshort⟩
    · exact ⟨_, ends_loadLoop _ file {} (Nat.le_refl _) (by decide)⟩

/-- A bracket that is not closed: the offset is behind the end of the line. -/
theorem open_bracket_not_reparsed : ¬ ∀ file : List Byte, Reparses file := by
  intro h
  have hreached : Reached (ascii "[abc\n") (.parsing { line := ascii "[abc\n" } []) := .next .start (by decide +kernel)
  exact (h _).inside _ hreached .bounds (by decide +kernel)

end Fl2440.Ini
