import Fl2440.Ini.DumpLine

/-! What `iniparser_line` finds in a line with a `=`, and where it goes on. -/
namespace Fl2440.Ini

open Fl2440.Lib

structure KeyText (k : List Byte) : Prop where
  ne_nil : k ≠ []
  plain : chr '=' ∉ k
  head : ∀ b ∈ k.head?, b ≠ chr '[' ∧ b ≠ chr ';' ∧ b ≠ chr '#'

def IsQuote (q : Byte) : Prop := q = chr '\'' ∨ q = chr '"'

instance (q : Byte) : Decidable (IsQuote q) := inferInstanceAs (Decidable (_ ∨ _))

/-- The rule for empty values. -/
def valueKept (value : List Byte) : List Byte :=
  if value.take 2 = ascii "\"\"" ∨ value.take 2 = ascii "''" then [] else value

def valueFormats : List (List Directive) := [quotedFormat (chr '"'), quotedFormat (chr '\''), plainFormat]

variable {k v rest sect : List Byte} {b q : Byte}

theorem sscanf_key (hk : KeyText k) (format : List Directive) (rest : List Byte) :
    sscanf (.set (· ≠ chr '=') :: .space :: .lit (chr '=') :: .space :: format) (k ++ chr '=' :: rest) =
      k :: sscanf format (rest.dropWhile isSpace) := by
  have htake := takeWhile_append_cons hk.plain rest
  have hdrop := dropWhile_append_cons hk.plain rest
  have hsign : (chr '=' :: rest).dropWhile isSpace = chr '=' :: rest := List.dropWhile_cons_of_neg (by decide)
  rw [sscanf, htake, hdrop, if_neg hk.ne_nil, sscanf, hsign, sscanf, if_pos rfl, sscanf]

theorem sscanf_lit (b : Byte) (s : List Byte) : sscanf [.lit b] s = [] := by
  cases s with
  | nil => rfl
  | cons c s =>
      rw [sscanf]
      split <;> rfl

theorem IsQuote.not_space (h : IsQuote q) : isSpace q = false := by
  rcases h with rfl | rfl <;> decide

theorem IsQuote.dropWhile (h : IsQuote q) (rest : List Byte) : (q :: rest).dropWhile isSpace = q :: rest :=
  List.dropWhile_cons_of_neg (by simp [h.not_space])

theorem sscanf_quote (hk : KeyText k) (hq : IsQuote q) (q' : Byte) (rest : List Byte) :
    sscanf (quotedFormat q') (k ++ chr '=' :: q :: rest) =
      if q = q' ∧ rest.takeWhile (· ≠ q) ≠ [] then [k, rest.takeWhile (· ≠ q)] else [k] := by
  rw [quotedFormat, sscanf_key hk, hq.dropWhile, sscanf]
  by_cases hsame : q = q'
  · subst hsame
    rw [if_pos rfl, sscanf, sscanf_lit]
    by_cases htaken : rest.takeWhile (· ≠ q) = []
    · rw [if_pos htaken, if_neg fun h => h.2 htaken]
    · rw [if_neg htaken, if_pos ⟨rfl, htaken⟩]
  · rw [if_neg hsame, if_neg fun h => hsame h.1]

theorem sscanf_plain_quote (hk : KeyText k) (hq : IsQuote q) (rest : List Byte) :
    sscanf plainFormat (k ++ chr '=' :: q :: rest) = [k, q :: rest.takeWhile fun b => b ≠ chr ';' && b ≠ chr '#'] := by
  have hplain : (q ≠ chr ';' && q ≠ chr '#') = true := by rcases hq with rfl | rfl <;> decide
  have htake : (q :: rest).takeWhile (fun b => b ≠ chr ';' && b ≠ chr '#') =
      q :: rest.takeWhile fun b => b ≠ chr ';' && b ≠ chr '#' := List.takeWhile_cons_of_pos (p := fun b => _) hplain
  rw [plainFormat, sscanf_key hk, hq.dropWhile, sscanf, htake, if_neg (List.cons_ne_nil _ _), sscanf]

theorem firstPair_quote (hk : KeyText k) (hq : IsQuote q) (rest : List Byte) :
    firstPair valueFormats (k ++ chr '=' :: q :: rest) = some (k, if rest.takeWhile (· ≠ q) = [] then
      q :: rest.takeWhile fun b => b ≠ chr ';' && b ≠ chr '#' else rest.takeWhile (· ≠ q)) := by
  have hdouble := sscanf_quote hk hq (chr '"') rest
  have hsingle := sscanf_quote hk hq (chr '\'') rest
  have hplain := sscanf_plain_quote hk hq rest
  by_cases htaken : rest.takeWhile (· ≠ q) = []
  · rw [if_neg fun h => h.2 htaken] at hdouble hsingle
    rw [if_pos htaken]
    simp only [firstPair, valueFormats, List.findSome?_cons, hdouble, hsingle, hplain]
  · rw [if_neg htaken]
    rcases hq with rfl | rfl
    · rw [if_neg fun h => absurd h.1 (by decide)] at hdouble
      rw [if_pos ⟨rfl, htaken⟩] at hsingle
      simp only [firstPair, valueFormats, List.findSome?_cons, hdouble, hsingle]
    · rw [if_pos ⟨rfl, htaken⟩] at hdouble
      simp only [firstPair, valueFormats, List.findSome?_cons, hdouble]

theorem rdropWhile_append_of_last {text : List Byte} (h : text.getLast? = some b) (hb : isSpace b = false)
    (rest : List Byte) : (text ++ rest).rdropWhile isSpace = text ++ rest.rdropWhile isSpace := by
  induction rest using List.reverseRecOn with
  | nil => rw [List.append_nil, List.rdropWhile_nil, List.append_nil, rdropWhile_of_last h hb]
  | append_singleton rest c ih =>
      rw [← List.append_assoc]
      by_cases hc : isSpace c
      · rw [List.rdropWhile_concat_pos _ _ _ hc, List.rdropWhile_concat_pos _ _ _ hc, ih]
      · rw [List.rdropWhile_concat_neg _ _ _ hc, List.rdropWhile_concat_neg _ _ _ hc, List.append_assoc]

theorem valueKept_quotes (hq : IsQuote q) (more : List Byte) : valueKept (strstrip (q :: q :: more)) = [] := by
  have hstrip : strstrip (q :: q :: more) = q :: q :: more.rdropWhile isSpace := by
    rw [strstrip, hq.dropWhile]
    have hlast : [q, q].getLast? = some q := rfl
    exact rdropWhile_append_of_last hlast hq.not_space more
  rw [hstrip]
  refine if_pos ?_
  rcases hq with rfl | rfl
  · exact .inr rfl
  · exact .inl rfl

theorem valueKept_length (value : List Byte) : (valueKept value).length ≤ value.length := by
  unfold valueKept
  split
  · exact Nat.zero_le _
  · exact Nat.le_refl _

theorem sscanf_length : ∀ (format : List Directive) (s : List Byte), ∀ found ∈ sscanf format s, found.length ≤ s.length
  | [], _, _, h => nomatch h
  | .space :: format, s, found, h => by
      rw [sscanf] at h
      exact (sscanf_length format _ found h).trans (s.dropWhile_suffix isSpace).length_le
  | .lit b :: format, [], found, h => nomatch h
  | .lit b :: format, c :: s, found, h => by
      rw [sscanf] at h
      split at h
      · exact (sscanf_length format s found h).trans (Nat.le_succ _)
      · cases h
  | .set among :: format, s, found, h => by
      rw [sscanf] at h
      split at h
      · cases h
      · rcases List.mem_cons.mp h with rfl | h
        · exact (s.takeWhile_prefix among).length_le
        · exact (sscanf_length format _ found h).trans (s.dropWhile_suffix among).length_le

theorem firstPair_key (hk : KeyText k) {key value : List Byte}
    (h : firstPair valueFormats (k ++ chr '=' :: rest) = some (key, value)) : key = k ∧ value.length ≤ rest.length := by
  obtain ⟨format, hmem, hpair⟩ := firstPair_length h
  have hstart : ∃ tail, format = .set (· ≠ chr '=') :: .space :: .lit (chr '=') :: .space :: tail := by
    simp only [valueFormats, List.mem_cons, List.not_mem_nil, or_false] at hmem
    rcases hmem with rfl | rfl | rfl <;> exact ⟨_, rfl⟩
  obtain ⟨tail, rfl⟩ := hstart
  rw [sscanf_key hk] at hpair
  obtain ⟨rfl, htail⟩ := List.cons.inj hpair
  have hvalue := sscanf_length tail (rest.dropWhile isSpace) value (htail ▸ List.mem_singleton_self value)
  exact ⟨rfl, hvalue.trans (rest.dropWhile_suffix isSpace).length_le⟩

theorem scanLine_pair (hk : KeyText k) {found : List Byte}
    (hpair : firstPair valueFormats (k ++ chr '=' :: rest) = some (k, found)) (sect : List Byte) :
    scanLine (k ++ chr '=' :: rest) sect = (.value (strlwc (strstrip k)) (valueKept (strstrip found)), sect,
      .from ((strstrip k).length + (valueKept (strstrip found)).length + 1 +
        if rest.head? = some (chr '\'') ∨ rest.head? = some (chr '"') then 2 else 0)) := by
  obtain ⟨first, later, rfl⟩ := List.exists_cons_of_ne_nil hk.ne_nil
  obtain ⟨hbracket, hsemi, hhash⟩ := hk.head first rfl
  have hnext : ((first :: later ++ chr '=' :: rest).dropWhile (· ≠ chr '='))[1]? = rest.head? := by
    rw [dropWhile_append_cons hk.plain, List.getElem?_cons_succ, List.head?_eq_getElem?]
  have hlength : (strlwc (strstrip (first :: later))).length = (strstrip (first :: later)).length := List.length_map _
  rw [valueFormats, List.cons_append] at hpair
  rw [List.cons_append] at hnext ⊢
  simp only [scanLine, if_neg (not_or.mpr ⟨hhash, hsemi⟩), if_neg hbracket, hpair, hnext, hlength]
  rfl

theorem scanLine_noPair (hk : KeyText k) (hpair : firstPair valueFormats (k ++ chr '=' :: rest) = none) (sect : List Byte) :
    scanLine (k ++ chr '=' :: rest) sect = (.value (strlwc (strstrip k)) [], sect, .kept) := by
  obtain ⟨first, later, rfl⟩ := List.exists_cons_of_ne_nil hk.ne_nil
  obtain ⟨hbracket, hsemi, hhash⟩ := hk.head first rfl
  have htake := takeWhile_append_cons hk.plain rest
  have hdrop := dropWhile_append_cons hk.plain rest
  have hsign : (chr '=' :: rest).dropWhile isSpace = chr '=' :: rest := List.dropWhile_cons_of_neg (by decide)
  have hequal : (chr '=' :: rest).takeWhile (· = chr '=') ≠ [] := by
    rw [List.takeWhile_cons_of_pos (by decide)]
    exact List.cons_ne_nil _ _
  have hempty : sscanf emptyFormat (first :: later ++ chr '=' :: rest) =
      [first :: later, (chr '=' :: rest).takeWhile (· = chr '=')] := by
    rw [emptyFormat, sscanf, htake, hdrop, if_neg hk.ne_nil, sscanf, hsign, sscanf, if_neg hequal, sscanf]
  have hcomment := sscanf_key hk [.set fun b => b = chr ';' || b = chr '#'] rest
  change sscanf commentFormat _ = _ at hcomment
  rw [sscanf, sscanf] at hcomment
  have hkey : ∃ value, firstPair [commentFormat, emptyFormat] (first :: later ++ chr '=' :: rest) =
      some (first :: later, value) := by
    split at hcomment
    · exact ⟨(chr '=' :: rest).takeWhile (· = chr '='), by simp only [firstPair, List.findSome?_cons, hcomment, hempty]⟩
    · exact ⟨(rest.dropWhile isSpace).takeWhile fun b => b = chr ';' || b = chr '#',
        by simp only [firstPair, List.findSome?_cons, hcomment]⟩
  obtain ⟨value, hkey⟩ := hkey
  rw [valueFormats, List.cons_append] at hpair
  rw [List.cons_append] at hkey ⊢
  simp only [scanLine, if_neg (not_or.mpr ⟨hhash, hsemi⟩), if_neg hbracket, hpair, hkey]

end Fl2440.Ini
