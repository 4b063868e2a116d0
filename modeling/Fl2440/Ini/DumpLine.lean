import Fl2440.Ini.Lines

/-! A line of the dump and what the parser makes of it. The dump pads the keys and puts blanks
around `=`; the parser measures what it has read without either, and parses the end of each
line a second time. -/
namespace Fl2440.Ini

open Fl2440.Lib

structure IsSection (s : List Byte) : Prop where
  ne_nil : s ≠ []
  plain : ∀ b ∈ s, isSpace b = false ∧ b ≠ chr ':' ∧ b ≠ chr '[' ∧ b ≠ chr ']' ∧ b ≠ 0
  lower : strlwc s = s
  short : s.length + 2 < 1000

structure IsKey (k : List Byte) : Prop where
  ne_nil : k ≠ []
  plain : ∀ b ∈ k, isSpace b = false ∧ b ≠ chr '=' ∧ b ≠ chr ';' ∧ b ≠ chr '#' ∧ b ≠ chr '[' ∧ b ≠ 0
  lower : strlwc k = k

structure IsValue (v : List Byte) : Prop where
  plain : ∀ b ∈ v, b ≠ chr ';' ∧ b ≠ chr '#' ∧ b ≠ chr '"' ∧ b ≠ chr '\'' ∧ b ≠ chr '\\' ∧ b ≠ newline ∧ b ≠ 0
  head : ∃ b, v.head? = some b ∧ isSpace b = false
  last : ∃ b, v.getLast? = some b ∧ isSpace b = false

def entryLine (k v : List Byte) : List Byte := padRight k ++ ascii " = " ++ v

/-- The end of the line that is parsed again. -/
def leftover (k v : List Byte) : List Byte := strstrip ((entryLine k v).drop (k.length + v.length + 1))

/-- Parsed again, it is a syntax error: it neither opens a section nor has a key before a `=`. -/
def PlainError (left : List Byte) : Prop :=
  left.head? ≠ some (chr '[') ∧ (left.head? = some (chr '=') ∨ chr '=' ∉ left)

variable {s k v line left : List Byte} {b : Byte}

def Solid (text : List Byte) : Prop :=
  (∃ b, text.head? = some b ∧ isSpace b = false) ∧ ∃ b, text.getLast? = some b ∧ isSpace b = false

theorem Solid.ne_nil {text : List Byte} (h : Solid text) : text ≠ [] := by
  rintro rfl
  obtain ⟨⟨b, hb, -⟩, -⟩ := h
  cases hb

theorem dropWhile_of_head (h : line.head? = some b) (hb : isSpace b = false) :
    line.dropWhile isSpace = line := by
  cases line with
  | nil => rfl
  | cons b' line =>
      cases h
      exact List.dropWhile_cons_of_neg (by simp [hb])

theorem rdropWhile_of_last (h : line.getLast? = some b) (hb : isSpace b = false) :
    line.rdropWhile isSpace = line := by
  refine List.rdropWhile_eq_self_iff.mpr fun hne => ?_
  rw [List.getLast?_eq_some_getLast hne] at h
  rw [Option.some.inj h, hb]
  exact Bool.false_ne_true

theorem rdropWhile_append_blank {blank : List Byte} (h : ∀ b ∈ blank, isSpace b = true) :
    (line ++ blank).rdropWhile isSpace = line.rdropWhile isSpace := by
  induction blank using List.reverseRecOn with
  | nil => rw [List.append_nil]
  | append_singleton blank b ih =>
      rw [← List.append_assoc, List.rdropWhile_concat_pos _ _ _ (h b (by simp))]
      exact ih fun b' hb' => h b' (List.mem_append_left _ hb')

theorem strstrip_solid {text : List Byte} (h : Solid text) : strstrip text = text := by
  obtain ⟨⟨b, hhead, hb⟩, ⟨b', hlast, hb'⟩⟩ := h
  rw [strstrip, dropWhile_of_head hhead hb, rdropWhile_of_last hlast hb']

theorem solid_strstrip (h : line.getLast? = some b) (hb : isSpace b = false) :
    Solid (strstrip line) ∧ (strstrip line).getLast? = some b ∧ strstrip line <:+ line := by
  have hdrop : line.dropWhile isSpace ≠ [] := fun hnil => by
    have hblank := List.dropWhile_eq_nil_iff.mp hnil b (List.mem_of_getLast? h)
    rw [hb] at hblank
    cases hblank
  have hsuffix := line.dropWhile_suffix isSpace
  have hlast : (line.dropWhile isSpace).getLast? = some b := by
    obtain ⟨before, hbefore⟩ := hsuffix
    rw [← hbefore, List.getLast?_append_of_ne_nil _ hdrop] at h
    exact h
  have hself : strstrip line = line.dropWhile isSpace := rdropWhile_of_last hlast hb
  rw [hself]
  refine ⟨⟨?_, b, hlast, hb⟩, hlast, hsuffix⟩
  obtain ⟨first, rest, heq⟩ := List.exists_cons_of_ne_nil hdrop
  refine ⟨first, by rw [heq]; rfl, ?_⟩
  have hfirst := List.head_dropWhile_not isSpace hdrop
  simpa [heq] using hfirst

theorem IsKey.solid (h : IsKey k) : Solid k := by
  obtain ⟨first, rest, rfl⟩ := List.exists_cons_of_ne_nil h.ne_nil
  refine ⟨⟨first, rfl, (h.plain first List.mem_cons_self).1⟩, _, List.getLast?_eq_some_getLast h.ne_nil,
    (h.plain _ (List.getLast_mem h.ne_nil)).1⟩

theorem IsValue.solid (h : IsValue v) : Solid v := ⟨h.head, h.last⟩

theorem IsSection.solid (h : IsSection s) : Solid s := by
  obtain ⟨first, rest, rfl⟩ := List.exists_cons_of_ne_nil h.ne_nil
  refine ⟨⟨first, rfl, (h.plain first List.mem_cons_self).1⟩, _, List.getLast?_eq_some_getLast h.ne_nil,
    (h.plain _ (List.getLast_mem h.ne_nil)).1⟩

theorem scanLine_section (h : IsSection s) (sect : List Byte) :
    scanLine (chr '[' :: (s ++ [chr ']'])) sect = (.section, s, .from (s.length + 2)) := by
  have htake : (s ++ [chr ']']).takeWhile (· ≠ chr ']') = s := by
    rw [List.takeWhile_append_of_pos fun b hb => decide_eq_true (h.plain b hb).2.2.2.1,
      List.takeWhile_cons_of_neg (by decide), List.append_nil]
  have hscan : sscanf sectionFormat (chr '[' :: (s ++ [chr ']'])) = [s] := by
    show (if chr '[' = chr '[' then sscanf [.set (· ≠ chr ']')] (s ++ [chr ']']) else []) = [s]
    rw [if_pos rfl, sscanf, htake, if_neg h.ne_nil, sscanf]
  simp only [scanLine, hscan, List.headD_cons, strstrip_solid h.solid, h.lower]
  rfl

theorem entryLine_eq (k v : List Byte) :
    entryLine k v = (padRight k ++ [chr ' ']) ++ chr '=' :: chr ' ' :: v := by
  have hsign : ascii " = " = [chr ' ', chr '=', chr ' '] := rfl
  simp [entryLine, hsign]

theorem entryLine_length (k v : List Byte) :
    (entryLine k v).length = (k.length + (30 - k.length)) + 3 + v.length := by
  have hsign : (ascii " = ").length = 3 := rfl
  simp only [entryLine, padRight, List.length_append, List.length_replicate, hsign]

theorem mem_entryLine (h : b ∈ entryLine k v) : b ∈ k ∨ b = chr ' ' ∨ b = chr '=' ∨ b ∈ v := by
  have hsign : ascii " = " = [chr ' ', chr '=', chr ' '] := rfl
  simp only [entryLine, padRight, hsign, List.mem_append, List.mem_replicate, List.mem_cons, List.not_mem_nil,
    or_false] at h
  tauto

theorem newline_not_mem_entryLine (hk : IsKey k) (hv : IsValue v) : newline ∉ entryLine k v := by
  intro hmem
  rcases mem_entryLine hmem with hkey | hblank | hsign | hvalue
  · have hspace := (hk.plain _ hkey).1
    rw [isSpace_newline] at hspace
    cases hspace
  · exact absurd hblank (by decide)
  · exact absurd hsign (by decide)
  · exact (hv.plain _ hvalue).2.2.2.2.2.1 rfl

theorem newline_not_mem_section (h : IsSection s) : newline ∉ chr '[' :: (s ++ [chr ']']) := by
  intro hmem
  rcases List.mem_cons.mp hmem with hopen | hmem
  · exact absurd hopen (by decide)
  rcases List.mem_append.mp hmem with hname | hclose
  · have hspace := (h.plain _ hname).1
    rw [isSpace_newline] at hspace
    cases hspace
  · exact absurd (List.mem_singleton.mp hclose) (by decide)

theorem nul_notMem_entryLine (hk : IsKey k) (hv : IsValue v) : (0 : Byte) ∉ entryLine k v := by
  intro hmem
  rcases mem_entryLine hmem with hkey | hblank | hsign | hvalue
  · exact (hk.plain _ hkey).2.2.2.2.2 rfl
  · exact absurd hblank (by decide)
  · exact absurd hsign (by decide)
  · exact (hv.plain _ hvalue).2.2.2.2.2.2 rfl

theorem nul_notMem_section (h : IsSection s) : (0 : Byte) ∉ chr '[' :: (s ++ [chr ']']) := by
  have hsigns : ¬ (0 : Byte) = chr '[' ∧ ¬ (0 : Byte) = chr ']' := by decide
  have hname : (0 : Byte) ∉ s := fun hmem => (h.plain _ hmem).2.2.2.2 rfl
  rw [List.mem_cons, List.mem_append, List.mem_singleton, not_or, not_or]
  exact ⟨hsigns.1, hname, hsigns.2⟩

theorem padRight_plain (h : IsKey k) : ∀ b ∈ padRight k ++ [chr ' '], decide (b ≠ chr '=') = true := by
  intro b hb
  refine decide_eq_true ?_
  rcases List.mem_append.mp hb with hpad | hblank
  · rcases List.mem_append.mp hpad with hkey | hblank
    · exact (h.plain b hkey).2.1
    · rw [List.eq_of_mem_replicate hblank]
      decide
  · rw [List.mem_singleton.mp hblank]
    decide

theorem strstrip_padRight (h : IsKey k) : strstrip (padRight k ++ [chr ' ']) = k := by
  have hall : ∀ b ∈ List.replicate (30 - k.length) (chr ' ') ++ [chr ' '], isSpace b = true := by
    intro b hb
    rcases List.mem_append.mp hb with hpad | hblank
    · rw [List.eq_of_mem_replicate hpad]
      decide
    · rw [List.mem_singleton.mp hblank]
      decide
  obtain ⟨⟨b, hhead, hb⟩, b', hlast, hb'⟩ := h.solid
  have hsplit : padRight k ++ [chr ' '] = k ++ (List.replicate (30 - k.length) (chr ' ') ++ [chr ' ']) := by
    rw [padRight, List.append_assoc]
  have hfront : (padRight k ++ [chr ' ']).head? = some b := by
    rw [hsplit, List.head?_append, hhead]
    rfl
  rw [strstrip, dropWhile_of_head hfront hb, hsplit, rdropWhile_append_blank hall]
  exact rdropWhile_of_last hlast hb'

theorem sscanf_entry (hk : IsKey k) (hv : IsValue v) (format : List Directive) :
    sscanf (.set (· ≠ chr '=') :: .space :: .lit (chr '=') :: .space :: format) (entryLine k v) =
      (padRight k ++ [chr ' ']) :: sscanf format v := by
  obtain ⟨b, hhead, hb⟩ := hv.head
  have htake : (padRight k ++ [chr ' '] ++ chr '=' :: chr ' ' :: v).takeWhile (· ≠ chr '=') =
      padRight k ++ [chr ' '] := by
    rw [List.takeWhile_append_of_pos (padRight_plain hk), List.takeWhile_cons_of_neg (by decide), List.append_nil]
  have hdrop : (padRight k ++ [chr ' '] ++ chr '=' :: chr ' ' :: v).dropWhile (· ≠ chr '=') =
      chr '=' :: chr ' ' :: v := by
    rw [List.dropWhile_append_of_pos (padRight_plain hk), List.dropWhile_cons_of_neg (by decide)]
  have hsign : (chr '=' :: chr ' ' :: v).dropWhile isSpace = chr '=' :: chr ' ' :: v :=
    List.dropWhile_cons_of_neg (by decide)
  have hblank : (chr ' ' :: v).dropWhile isSpace = v := by
    rw [List.dropWhile_cons_of_pos (by decide), dropWhile_of_head hhead hb]
  rw [entryLine_eq, sscanf, htake, hdrop, if_neg (by simp), sscanf, hsign, sscanf, if_pos rfl, sscanf, hblank]

theorem sscanf_quoted (hk : IsKey k) (hv : IsValue v) {quote : Byte} (h : quote ∉ v) :
    sscanf (quotedFormat quote) (entryLine k v) = [padRight k ++ [chr ' ']] := by
  have hnone : sscanf [.lit quote, .set (· ≠ quote), .lit quote] v = [] := by
    cases v with
    | nil => rfl
    | cons first v =>
        exact if_neg fun heq : first = quote => h (heq ▸ List.mem_cons_self)
  rw [quotedFormat, sscanf_entry hk hv, hnone]

theorem sscanf_plain (hk : IsKey k) (hv : IsValue v) :
    sscanf plainFormat (entryLine k v) = [padRight k ++ [chr ' '], v] := by
  have hall : v.takeWhile (fun b => b ≠ chr ';' && b ≠ chr '#') = v :=
    List.takeWhile_eq_self_iff.mpr fun b hb => by
      simp [(hv.plain b hb).1, (hv.plain b hb).2.1]
  rw [plainFormat, sscanf_entry hk hv, sscanf, hall, if_neg hv.solid.ne_nil, sscanf]

theorem entryLine_solid (hk : IsKey k) (hv : IsValue v) : Solid (entryLine k v) := by
  obtain ⟨⟨b, hhead, hb⟩, -⟩ := hk.solid
  obtain ⟨-, b', hlast, hb'⟩ := hv.solid
  refine ⟨⟨b, ?_, hb⟩, b', ?_, hb'⟩
  · rw [entryLine, padRight, List.append_assoc, List.append_assoc, List.head?_append, hhead]
    rfl
  · rw [entryLine, List.getLast?_append_of_ne_nil _ hv.solid.ne_nil, hlast]

theorem scanLine_entry (hk : IsKey k) (hv : IsValue v) (sect : List Byte) :
    scanLine (entryLine k v) sect = (.value k v, sect, .from (k.length + v.length + 1)) := by
  obtain ⟨first, rest, hkey⟩ := List.exists_cons_of_ne_nil hk.ne_nil
  have hline : entryLine k v = first :: (rest ++ List.replicate (30 - k.length) (chr ' ') ++ ascii " = " ++ v) := by
    rw [entryLine, padRight]
    conv => lhs; rw [hkey]
    simp [hkey]
  obtain ⟨-, hequal, hsemi, hhash, hbracket, -⟩ := hk.plain first (hkey ▸ List.mem_cons_self)
  have hpair : firstPair [quotedFormat (chr '"'), quotedFormat (chr '\''), plainFormat] (entryLine k v) =
      some (padRight k ++ [chr ' '], v) := by
    have hdouble := sscanf_quoted hk hv fun hmem => (hv.plain _ hmem).2.2.1 rfl
    have hsingle := sscanf_quoted hk hv fun hmem => (hv.plain _ hmem).2.2.2.1 rfl
    simp only [firstPair, List.findSome?_cons, hdouble, hsingle, sscanf_plain hk hv]
  have hempty : ¬ (v.take 2 = ascii "\"\"" ∨ v.take 2 = ascii "''") := by
    rintro (hquotes | hquotes)
    · have hmem : chr '"' ∈ v.take 2 := hquotes ▸ List.mem_cons_self
      exact (hv.plain _ (List.mem_of_mem_take hmem)).2.2.1 rfl
    · have hmem : chr '\'' ∈ v.take 2 := hquotes ▸ List.mem_cons_self
      exact (hv.plain _ (List.mem_of_mem_take hmem)).2.2.2.1 rfl
  have hnext : ((entryLine k v).dropWhile (· ≠ chr '='))[1]? = some (chr ' ') := by
    rw [entryLine_eq, List.dropWhile_append_of_pos (padRight_plain hk), List.dropWhile_cons_of_neg (by decide)]
    rfl
  rw [hline, scanLine, if_neg (not_or.mpr ⟨hhash, hsemi⟩), if_neg hbracket, ← hline, hpair]
  simp only [strstrip_padRight hk, hk.lower, strstrip_solid hv.solid, if_neg hempty, hnext]
  rfl

theorem sscanf_plainError (h : PlainError left) {tail : List Directive} (htail : sscanf tail [] = []) :
    (sscanf (.set (· ≠ chr '=') :: tail) left).length ≤ 1 := by
  rw [sscanf]
  split
  · exact Nat.zero_le 1
  next hkey =>
    have habsent : chr '=' ∉ left := by
      refine h.2.resolve_left fun hhead => hkey ?_
      obtain ⟨rest, rfl⟩ := List.head?_eq_some_iff.mp hhead
      exact List.takeWhile_cons_of_neg (by simp)
    have hall : left.dropWhile (· ≠ chr '=') = [] :=
      List.dropWhile_eq_nil_iff.mpr fun b hb => decide_eq_true fun heq => habsent (heq ▸ hb)
    rw [hall, htail]
    rfl

theorem scanLine_plainError (h : PlainError left) (hne : left ≠ [])
    (hplain : ∀ b ∈ left.head?, b ≠ chr ';' ∧ b ≠ chr '#') (sect : List Byte) :
    scanLine left sect = (.error, sect, .cleared) := by
  obtain ⟨first, rest, rfl⟩ := List.exists_cons_of_ne_nil hne
  obtain ⟨hsemi, hhash⟩ := hplain first rfl
  have hbracket : first ≠ chr '[' := fun heq => h.1 (heq ▸ rfl)
  have hpair : firstPair [quotedFormat (chr '"'), quotedFormat (chr '\''), plainFormat] (first :: rest) = none := by
    refine firstPair_eq_none fun format hmem => ?_
    simp only [List.mem_cons, List.not_mem_nil, or_false] at hmem
    rcases hmem with rfl | rfl | rfl <;> exact sscanf_plainError h rfl
  have hempty : firstPair [commentFormat, emptyFormat] (first :: rest) = none := by
    refine firstPair_eq_none fun format hmem => ?_
    simp only [List.mem_cons, List.not_mem_nil, or_false] at hmem
    rcases hmem with rfl | rfl <;> exact sscanf_plainError h rfl
  simp only [scanLine, if_neg (not_or.mpr ⟨hhash, hsemi⟩), if_neg hbracket, hpair, hempty]

theorem leftover_spec (hk : IsKey k) (hv : IsValue v) : Solid (leftover k v) ∧
    (leftover k v).getLast? = v.getLast? ∧ ∀ b ∈ leftover k v, b ≠ chr ';' ∧ b ≠ chr '#' := by
  obtain ⟨-, b, hlast, hb⟩ := hv.solid
  have hlen := entryLine_length k v
  have hdrop : ((entryLine k v).drop (k.length + v.length + 1)).getLast? = some b := by
    rw [List.getLast?_drop, if_neg (by omega), entryLine, List.getLast?_append_of_ne_nil _ hv.solid.ne_nil, hlast]
  obtain ⟨hsolid, hend, hsuffix⟩ := solid_strstrip hdrop hb
  refine ⟨hsolid, hend.trans hlast.symm, fun b hmem => ?_⟩
  rcases mem_entryLine (List.mem_of_mem_drop (hsuffix.mem hmem)) with hkey | rfl | rfl | hvalue
  · exact ⟨(hk.plain b hkey).2.2.1, (hk.plain b hkey).2.2.2.1⟩
  · decide
  · decide
  · exact ⟨(hv.plain b hvalue).1, (hv.plain b hvalue).2.1⟩

theorem iniparserLine_section (h : IsSection s) (sect : List Byte) :
    iniparserLine (chr '[' :: (s ++ [chr ']'])) sect = .ok (.section, s, []) := by
  have hsolid : Solid (chr '[' :: (s ++ [chr ']'])) :=
    ⟨⟨_, rfl, by decide⟩, _, by rw [← List.cons_append, List.getLast?_concat], by decide⟩
  have hnone : leftLine (chr '[' :: (s ++ [chr ']'])) (s.length + 2) = .ok [] := by
    rw [leftLine, if_pos (by simp), List.drop_eq_nil_of_le (by simp)]
    rfl
  simp only [iniparserLine, strstrip_solid hsolid, scanLine_section h]
  rw [hnone]
  rfl

theorem iniparserLine_entry (hk : IsKey k) (hv : IsValue v) (sect : List Byte) :
    iniparserLine (entryLine k v) sect = .ok (.value k v, sect, leftover k v ++ [newline]) := by
  have hlen : k.length + v.length + 1 ≤ (entryLine k v).length := by
    rw [entryLine_length]
    omega
  simp only [iniparserLine, strstrip_solid (entryLine_solid hk hv), scanLine_entry hk hv, leftLine, if_pos hlen]
  show Except.ok (_, _, if leftover k v = [] then [] else leftover k v ++ [newline]) = _
  rw [if_neg (leftover_spec hk hv).1.ne_nil]

theorem iniparserLine_leftover (hk : IsKey k) (hv : IsValue v) (h : PlainError (leftover k v)) (sect : List Byte) :
    iniparserLine (leftover k v) sect = .ok (.error, sect, []) := by
  obtain ⟨hsolid, -, hplain⟩ := leftover_spec hk hv
  have hhead : ∀ b ∈ (leftover k v).head?, b ≠ chr ';' ∧ b ≠ chr '#' := fun b hb => hplain b (List.mem_of_head? hb)
  simp only [iniparserLine, strstrip_solid hsolid, scanLine_plainError h hsolid.ne_nil hhead,
    if_neg hsolid.ne_nil]

theorem continueParser_round {s : Loading} {rounds : Nat} {text sect : List Byte} {sta : LineStatus}
    (hsolid : Solid text) (hback : text.getLast? ≠ some (chr '\\'))
    (hline : iniparserLine text s.sect = .ok (sta, sect, line)) :
    continueParser (rounds + 1) { s with line := text ++ [newline] } = (do
      let s ← { s with
        line
        last := 0
        sect }.store sta
      if s.line ≠ [] then continueParser rounds s else return some s) := by
  obtain ⟨-, b, hlast, hb⟩ := hsolid
  have hself := rdropWhile_of_last hlast hb
  have hb' : b ≠ chr '\\' := fun heq => hback (heq ▸ hlast)
  rw [continueParser_text (hself.symm ▸ hlast), if_neg hb', hself, hline]
  rfl

section Step

variable {state : Loading}

theorem joined_of_last (hlast : state.last = 0) (line : List Byte) : state.joined line = line := by
  rw [Loading.joined, hlast]
  rfl

theorem lineStep_blank (hlast : state.last = 0) :
    lineStep state [] = .ok (some { state with line := [newline] }) := by
  rw [lineStep, joined_of_last hlast]
  rfl

theorem lineStep_section (hlast : state.last = 0) (h : IsSection s) :
    lineStep state (chr '[' :: (s ++ [chr ']'])) = .ok (some { state with
      line := []
      sect := s
      errs := 0
      dict := dictionarySet state.dict s none }) := by
  have hsolid : Solid (chr '[' :: (s ++ [chr ']'])) :=
    ⟨⟨_, rfl, by decide⟩, _, by rw [← List.cons_append, List.getLast?_concat], by decide⟩
  have hback : (chr '[' :: (s ++ [chr ']'])).getLast? ≠ some (chr '\\') := by
    rw [← List.cons_append, List.getLast?_concat]
    decide
  rw [lineStep, joined_of_last hlast, List.length_append, List.length_singleton,
    continueParser_round hsolid hback (iniparserLine_section h state.sect)]
  simp only [Loading.store, hlast]
  rfl

theorem lineStep_entry (hlast : state.last = 0) (hk : IsKey k) (hv : IsValue v) (h : PlainError (leftover k v)) :
    lineStep state (entryLine k v) =
      if state.sect.length + 1 + k.length ≤ asciilinesz then
        .ok (some { state with
          line := []
          errs := 1
          dict := dictionarySet state.dict (state.sect ++ chr ':' :: k) (some v) })
      else .error .bounds := by
  obtain ⟨-, b, hend, -⟩ := hv.solid
  have hvalue : v.getLast? ≠ some (chr '\\') := fun heq =>
    (hv.plain _ (List.mem_of_getLast? heq)).2.2.2.2.1 rfl
  have hsolid := entryLine_solid hk hv
  have hback : (entryLine k v).getLast? ≠ some (chr '\\') := by
    rwa [entryLine, List.getLast?_append_of_ne_nil _ hv.solid.ne_nil]
  obtain ⟨hsolidLeft, hlastLeft, -⟩ := leftover_spec hk hv
  obtain ⟨rounds, hrounds⟩ := Nat.exists_eq_add_one_of_ne_zero (mt List.length_eq_zero_iff.mp hsolid.ne_nil)
  rw [lineStep, joined_of_last hlast, List.length_append, List.length_singleton,
    continueParser_round hsolid hback (iniparserLine_entry hk hv state.sect), hrounds]
  by_cases hfits : state.sect.length + 1 + k.length ≤ asciilinesz
  · simp only [Loading.store, if_pos hfits]
    have hagain : continueParser (rounds + 1)
        { line := leftover k v ++ [newline]
          sect := state.sect
          dict := dictionarySet state.dict (state.sect ++ chr ':' :: k) (some v) } = .ok (some
        { sect := state.sect
          errs := 1
          dict := dictionarySet state.dict (state.sect ++ chr ':' :: k) (some v) }) :=
      (continueParser_round (s := { line := [], sect := state.sect, dict := _ }) hsolidLeft (hlastLeft ▸ hvalue)
        (iniparserLine_leftover hk hv h state.sect)).trans rfl
    rw [hlast]
    show (if leftover k v ++ [newline] ≠ [] then continueParser (rounds + 1) _ else _) = _
    rw [if_pos (List.append_ne_nil_of_right_ne_nil _ (List.cons_ne_nil _ _))]
    exact hagain
  · simp only [Loading.store, if_neg hfits]
    rfl

end Step

end Fl2440.Ini
