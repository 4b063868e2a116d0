import Fl2440.Ini.ScanLine
import Fl2440.Ini.Entries

/-! Files with a section and its values on one line, `[sec] k1='v1' k2='v2' ... kn='vn'`. After
each value the parser goes on behind as many characters as it has kept of the key and the value. -/
namespace Fl2440.Ini

open Fl2440.Lib

def quote : Byte := chr '\''

structure SectName where
  bytes : List Byte
  plain : ∀ b ∈ bytes, b ≠ chr ']' ∧ b ≠ chr ':' ∧ b ≠ newline ∧ b ≠ 0
  solid : Solid bytes

structure Item where
  blanks : List Byte
  key : List Byte
  value : List Byte
  blanks_ne_nil : blanks ≠ []
  blank : ∀ b ∈ blanks, isSpace b = true ∧ b ≠ newline
  key_ne_nil : key ≠ []
  key_plain : ∀ b ∈ key, isSpace b = false ∧ b ≠ chr '=' ∧ b ≠ chr ';' ∧ b ≠ chr '#' ∧ b ≠ chr '[' ∧ b ≠ quote ∧
    b ≠ chr '"' ∧ b ≠ 0
  value_plain : ∀ b ∈ value, b ≠ quote ∧ b ≠ chr '"' ∧ b ≠ newline ∧ b ≠ 0

def Item.text (i : Item) : List Byte := i.blanks ++ (i.key ++ chr '=' :: quote :: (i.value ++ [quote]))

def lineText (sect : SectName) (items : List Item) : List Byte :=
  chr '[' :: (sect.bytes ++ chr ']' :: items.flatMap Item.text)

structure OneLine where
  sect : SectName
  items : List Item
  trailing : List Byte
  blank : ∀ b ∈ trailing, isSpace b = true ∧ b ≠ newline
  short : (lineText sect items ++ trailing).length < 1000

def OneLine.text (l : OneLine) : List Byte := lineText l.sect l.items ++ l.trailing

def confFile (lines : List OneLine) : List Byte := lines.flatMap fun l => l.text ++ [newline]

/-- The end of a value that the parser has not passed, with its quote: nothing, unless the
value has blanks at its ends. -/
def Item.junk (i : Item) : List Byte := (i.value ++ [quote]).drop ((strstrip i.value).length + 1)

/-- In front of a key or alone on the line it opens neither a value, a section nor a comment. -/
structure Harmless (junk : List Byte) : Prop where
  plain : chr '=' ∉ junk
  head : ∀ b ∈ (junk.dropWhile isSpace).head?, b ≠ chr '[' ∧ b ≠ chr ';' ∧ b ≠ chr '#'
  last : junk = [] ∨ junk.getLast? = some quote

def keyRead (junk : List Byte) (i : Item) : List Byte := (junk ++ i.blanks ++ i.key).dropWhile isSpace

def itemEntries (sect : List Byte) : List Byte → List Item → Dictionary
  | _, [] => []
  | junk, i :: items =>
      (sect ++ chr ':' :: strlwc (keyRead junk i), some (strstrip i.value)) :: itemEntries sect i.junk items

/-- A syntax error, if something stands behind the last item; each item resets the count. -/
def itemErrs : Nat → List Byte → List Item → Nat
  | errs, junk, [] => if junk = [] then errs else errs + 1
  | _, _, i :: items => itemErrs 0 i.junk items

section Scan

variable {k v rest : List Byte} {b : Byte}

theorem isQuote_quote : IsQuote quote := .inl rfl

theorem strstrip_subset (v : List Byte) : strstrip v ⊆ v := fun _ hb =>
  (v.dropWhile_suffix isSpace).mem ((List.rdropWhile_prefix isSpace _).mem hb)

theorem valueKept_plain (hsingle : quote ∉ v) (hdouble : chr '"' ∉ v) : valueKept (strstrip v) = strstrip v := by
  refine if_neg ?_
  rintro (hquotes | hquotes)
  · have hmem : chr '"' ∈ (strstrip v).take 2 := hquotes ▸ List.mem_cons_self
    exact hdouble (strstrip_subset v (List.mem_of_mem_take hmem))
  · have hmem : quote ∈ (strstrip v).take 2 := hquotes ▸ List.mem_cons_self
    exact hsingle (strstrip_subset v (List.mem_of_mem_take hmem))

theorem firstPair_value (hk : KeyText k) (hsingle : quote ∉ v) (hdouble : chr '"' ∉ v) (rest : List Byte) :
    ∃ found, firstPair valueFormats (k ++ chr '=' :: quote :: (v ++ quote :: rest)) = some (k, found) ∧
      valueKept (strstrip found) = strstrip v := by
  have hpair := firstPair_quote hk isQuote_quote (v ++ quote :: rest)
  rw [takeWhile_append_cons hsingle] at hpair
  refine ⟨_, hpair, ?_⟩
  by_cases hempty : v = []
  · subst hempty
    rw [if_pos rfl, List.nil_append]
    exact valueKept_quotes isQuote_quote _
  · rw [if_neg hempty]
    exact valueKept_plain hsingle hdouble

theorem scanLine_quoted (hk : KeyText k) (hsolid : Solid k) (hsingle : quote ∉ v) (hdouble : chr '"' ∉ v)
    (rest sect : List Byte) : scanLine (k ++ chr '=' :: quote :: (v ++ quote :: rest)) sect =
      (.value (strlwc k) (strstrip v), sect, .from (k.length + (strstrip v).length + 3)) := by
  obtain ⟨found, hpair, hkept⟩ := firstPair_value hk hsingle hdouble rest
  have hscan := scanLine_pair hk hpair sect
  have hquote : (quote :: (v ++ quote :: rest)).head? = some (chr '\'') ∨
      (quote :: (v ++ quote :: rest)).head? = some (chr '"') := .inl rfl
  rwa [strstrip_solid hsolid, hkept, if_pos hquote] at hscan

end Scan

section Items

variable {junk : List Byte} {i : Item} {items : List Item} {s : Loading} {rounds : Nat}

def itemsText (junk : List Byte) (items : List Item) : List Byte := strstrip (junk ++ items.flatMap Item.text)

theorem Item.quote_notMem (i : Item) : quote ∉ i.value := fun h => (i.value_plain _ h).1 rfl

theorem Item.double_notMem (i : Item) : chr '"' ∉ i.value := fun h => (i.value_plain _ h).2.1 rfl

theorem Item.key_solid (i : Item) : Solid i.key := by
  obtain ⟨first, rest, heq⟩ := List.exists_cons_of_ne_nil i.key_ne_nil
  refine ⟨⟨first, by rw [heq]; rfl, (i.key_plain first (heq ▸ List.mem_cons_self)).1⟩, _,
    List.getLast?_eq_some_getLast i.key_ne_nil, (i.key_plain _ (List.getLast_mem i.key_ne_nil)).1⟩

theorem getLast?_items (items : List Item) : (quote :: items.flatMap Item.text).getLast? = some quote := by
  induction items with
  | nil => rfl
  | cons i items ih =>
      have htext : quote :: (i :: items).flatMap Item.text =
          (quote :: (i.blanks ++ (i.key ++ chr '=' :: quote :: i.value))) ++ (quote :: items.flatMap Item.text) := by
        simp [Item.text]
      rw [htext, List.getLast?_append_of_ne_nil _ (List.cons_ne_nil _ _), ih]

theorem dropWhile_blanks (i : Item) : (i.blanks ++ i.key).dropWhile isSpace = i.key := by
  obtain ⟨⟨b, hhead, hb⟩, -⟩ := i.key_solid
  rw [List.dropWhile_append_of_pos fun b hb => (i.blank b hb).1, dropWhile_of_head hhead hb]

theorem keyRead_nil (i : Item) : keyRead [] i = i.key := dropWhile_blanks i

theorem keyRead_eq (junk : List Byte) (i : Item) : keyRead junk i =
    if junk.dropWhile isSpace = [] then i.key else junk.dropWhile isSpace ++ (i.blanks ++ i.key) := by
  rw [keyRead, List.append_assoc, List.dropWhile_append, dropWhile_blanks]
  simp only [List.isEmpty_iff]

theorem solid_keyRead (junk : List Byte) (i : Item) : Solid (keyRead junk i) := by
  obtain ⟨-, last, hlast, hend⟩ := i.key_solid
  rw [keyRead_eq]
  split
  next => exact i.key_solid
  next hne =>
    obtain ⟨first, rest, heq⟩ := List.exists_cons_of_ne_nil hne
    have hfirst : isSpace first = false := by
      have := List.head_dropWhile_not isSpace hne
      simpa [heq] using this
    refine ⟨⟨first, by rw [heq]; rfl, hfirst⟩, last, ?_, hend⟩
    rw [← List.append_assoc, List.getLast?_append_of_ne_nil _ i.key_ne_nil, hlast]

theorem keyText_keyRead (h : Harmless junk) (i : Item) : KeyText (keyRead junk i) := by
  have hkey : chr '=' ∉ i.key := fun hmem => (i.key_plain _ hmem).2.1 rfl
  refine ⟨(solid_keyRead junk i).ne_nil, ?_, ?_⟩
  · rw [keyRead]
    intro hmem
    rcases List.mem_append.mp ((List.dropWhile_suffix _).mem hmem) with hmem | hmem
    · rcases List.mem_append.mp hmem with hmem | hmem
      · exact h.plain hmem
      · exact absurd (i.blank _ hmem).1 (by decide)
    · exact hkey hmem
  · rw [keyRead_eq]
    split
    next =>
      intro b hb
      obtain ⟨-, -, hsemi, hhash, hbracket, -⟩ := i.key_plain b (List.mem_of_head? hb)
      exact ⟨hbracket, hsemi, hhash⟩
    next hne =>
      rw [List.head?_append_of_ne_nil _ hne]
      exact h.head

theorem itemsText_cons (junk : List Byte) (i : Item) (items : List Item) : itemsText junk (i :: items) =
    keyRead junk i ++ chr '=' :: quote :: (i.value ++ quote :: items.flatMap Item.text) := by
  have hsplit : junk ++ (i :: items).flatMap Item.text = (junk ++ i.blanks ++ i.key) ++
      chr '=' :: quote :: (i.value ++ quote :: items.flatMap Item.text) := by
    simp [Item.text]
  have hkey : (junk ++ i.blanks ++ i.key).dropWhile isSpace ≠ [] := by
    intro hnil
    have hall := List.dropWhile_eq_nil_iff.mp hnil
    obtain ⟨⟨b, hhead, hb⟩, -⟩ := i.key_solid
    have hspace := hall b (List.mem_append_right _ (List.mem_of_head? hhead))
    rw [hb] at hspace
    cases hspace
  have hlast : (keyRead junk i ++ chr '=' :: quote :: (i.value ++ quote :: items.flatMap Item.text)).getLast? = some quote := by
    have hend : keyRead junk i ++ chr '=' :: quote :: (i.value ++ quote :: items.flatMap Item.text) =
        (keyRead junk i ++ chr '=' :: quote :: i.value) ++ (quote :: items.flatMap Item.text) := by simp
    rw [hend, List.getLast?_append_of_ne_nil _ (List.cons_ne_nil _ _), getLast?_items]
  rw [itemsText, strstrip, hsplit, List.dropWhile_append, if_neg (by simpa using hkey)]
  exact rdropWhile_of_last hlast isQuote_quote.not_space

theorem drop_item (k : List Byte) (i : Item) (rest : List Byte) :
    (k ++ chr '=' :: quote :: (i.value ++ quote :: rest)).drop (k.length + (strstrip i.value).length + 3) =
      i.junk ++ rest := by
  have hlen := strstrip_length_le i.value
  have hoffset : k.length + (strstrip i.value).length + 3 = k.length + (((strstrip i.value).length + 1) + 1 + 1) := by
    omega
  have hvalue : i.value ++ quote :: rest = (i.value ++ [quote]) ++ rest := by simp
  rw [hoffset, List.drop_append, List.drop_eq_nil_of_le (Nat.le_add_right _ _), Nat.add_sub_cancel_left,
    List.nil_append, List.drop_succ_cons, List.drop_succ_cons, hvalue, List.drop_append_of_le_length, Item.junk]
  rw [List.length_append, List.length_singleton]
  omega

theorem solid_of_quote {text : List Byte} (h : text.getLast? = some quote) :
    Solid (strstrip text) ∧ (strstrip text).getLast? ≠ some (chr '\\') := by
  obtain ⟨hsolid, hlast, -⟩ := solid_strstrip h isQuote_quote.not_space
  exact ⟨hsolid, by rw [hlast]; decide⟩

theorem itemsText_last (hjunk : junk = [] ∨ junk.getLast? = some quote) (hne : junk ++ items.flatMap Item.text ≠ []) :
    (junk ++ items.flatMap Item.text).getLast? = some quote := by
  cases items with
  | nil =>
      rw [List.flatMap_nil, List.append_nil] at hne ⊢
      exact hjunk.resolve_left hne
  | cons i items =>
      have hend : junk ++ (i :: items).flatMap Item.text =
          (junk ++ i.blanks ++ i.key ++ chr '=' :: quote :: i.value) ++ (quote :: items.flatMap Item.text) := by
        simp [Item.text]
      rw [hend, List.getLast?_append_of_ne_nil _ (List.cons_ne_nil _ _), getLast?_items]

theorem itemsText_solid (hjunk : junk = [] ∨ junk.getLast? = some quote)
    (hne : junk ++ items.flatMap Item.text ≠ []) :
    Solid (itemsText junk items) ∧ (itemsText junk items).getLast? ≠ some (chr '\\') :=
  solid_of_quote (itemsText_last hjunk hne)

def leftBack (left : List Byte) : List Byte := if left = [] then [] else left ++ [newline]

theorem iniparserLine_item (hjunk : Harmless junk) (i : Item) (items : List Item) (sect : List Byte) :
    iniparserLine (itemsText junk (i :: items)) sect = .ok (.value (strlwc (keyRead junk i)) (strstrip i.value), sect,
      leftBack (itemsText i.junk items)) := by
  have hne : junk ++ (i :: items).flatMap Item.text ≠ [] := by simp [Item.text]
  have hsolid := (itemsText_solid hjunk.last hne).1
  have hscan := scanLine_quoted (keyText_keyRead hjunk i) (solid_keyRead junk i) i.quote_notMem i.double_notMem
    (items.flatMap Item.text) sect
  have hdrop := drop_item (keyRead junk i) i (items.flatMap Item.text)
  have hlen := strstrip_length_le i.value
  have hinside : (keyRead junk i).length + (strstrip i.value).length + 3 ≤
      (keyRead junk i ++ chr '=' :: quote :: (i.value ++ quote :: items.flatMap Item.text)).length := by
    simp only [List.length_append, List.length_cons]
    omega
  rw [iniparserLine, strstrip_solid hsolid, itemsText_cons, hscan]
  simp only [leftLine, if_pos hinside, hdrop, ok_bind]
  rfl

def resume (rounds : Nat) (s : Loading) (left : List Byte) : Except Fault (Option Loading) :=
  if left = [] then .ok (some { s with line := [] }) else continueParser rounds { s with line := left ++ [newline] }

theorem resume_eq (rounds : Nat) (s : Loading) (left : List Byte) :
    (if leftBack left ≠ [] then continueParser rounds { s with line := leftBack left }
      else pure (some { s with line := leftBack left })) = resume rounds s left := by
  unfold leftBack resume
  by_cases hleft : left = []
  · rw [if_pos hleft, if_pos hleft]
    rfl
  · rw [if_neg hleft, if_neg hleft, if_pos (by simp)]

def afterItems (s : Loading) (junk : List Byte) (items : List Item) : Loading where
  line := []
  last := 0
  sect := s.sect
  errs := itemErrs s.errs junk items
  dict := setAll s.dict (itemEntries s.sect junk items)

theorem iniparserLine_junk (h : Harmless junk) (hne : junk ≠ []) (sect : List Byte) :
    iniparserLine (strstrip junk) sect = .ok (.error, sect, []) := by
  have hsolid := (solid_of_quote (h.last.resolve_left hne)).1
  have hplain : chr '=' ∉ strstrip junk := fun hmem => h.plain (strstrip_subset junk hmem)
  have hstart : ∀ b ∈ (strstrip junk).head?, b ∈ (junk.dropWhile isSpace).head? := by
    intro b hb
    obtain ⟨rest, hrest⟩ := List.rdropWhile_prefix isSpace (junk.dropWhile isSpace)
    have hsplit : strstrip junk ++ rest = junk.dropWhile isSpace := hrest
    rw [← hsplit, List.head?_append_of_ne_nil _ hsolid.ne_nil]
    exact hb
  have herror : PlainError (strstrip junk) := ⟨fun hhead => (h.head _ (hstart _ hhead)).1 rfl, .inr hplain⟩
  simp only [iniparserLine, strstrip_solid hsolid, scanLine_plainError herror hsolid.ne_nil
    (fun b hb => (h.head b (hstart b hb)).2), if_neg hsolid.ne_nil]

theorem itemsText_length (junk : List Byte) (i : Item) (items : List Item) :
    (i.junk ++ items.flatMap Item.text).length < (itemsText junk (i :: items)).length := by
  have hdrop := congrArg List.length (drop_item (keyRead junk i) i (items.flatMap Item.text))
  rw [List.length_drop] at hdrop
  have hpos : 0 < (i.value ++ quote :: items.flatMap Item.text).length := by simp
  rw [itemsText_cons, ← hdrop, List.length_append, List.length_cons, List.length_cons]
  omega

theorem keyRead_length (junk : List Byte) (i : Item) (items : List Item) :
    (strlwc (keyRead junk i)).length ≤ (itemsText junk (i :: items)).length := by
  rw [itemsText_cons, strlwc, List.length_map, List.length_append]
  exact Nat.le_add_right _ _

theorem resume_items : ∀ (items : List Item) (junk : List Byte) (s : Loading) (rounds : Nat),
    Harmless junk → (∀ i ∈ items, Harmless i.junk) → s.last = 0 → (itemsText junk items).length < rounds →
      s.sect.length + 1 + (junk ++ items.flatMap Item.text).length ≤ asciilinesz →
        resume rounds s (itemsText junk items) = .ok (some (afterItems s junk items))
  | [], junk, s, rounds, hjunk, _, hlast, hrounds, _ => by
      have htext : itemsText junk [] = strstrip junk := by rw [itemsText, List.flatMap_nil, List.append_nil]
      rw [htext] at hrounds ⊢
      by_cases hnil : junk = []
      · subst hnil
        simp [resume, afterItems, itemErrs, itemEntries, setAll, strstrip, hlast]
      · obtain ⟨hsolid, hback⟩ := solid_of_quote (hjunk.last.resolve_left hnil)
        obtain ⟨rounds, rfl⟩ : ∃ n, rounds = n + 1 := ⟨rounds - 1, by omega⟩
        rw [resume, if_neg hsolid.ne_nil, continueParser_round hsolid hback (iniparserLine_junk hjunk hnil s.sect)]
        simp [Loading.store, afterItems, itemErrs, itemEntries, setAll, hnil]
        rfl
  | i :: items, junk, s, rounds, hjunk, hitems, hlast, hrounds, hfits => by
      have hne : junk ++ (i :: items).flatMap Item.text ≠ [] := by simp [Item.text]
      obtain ⟨hsolid, hback⟩ := itemsText_solid hjunk.last hne
      have hless := itemsText_length junk i items
      have hkey := keyRead_length junk i items
      have hwhole := strstrip_length_le (junk ++ (i :: items).flatMap Item.text)
      have hleft := strstrip_length_le (i.junk ++ items.flatMap Item.text)
      change (itemsText junk (i :: items)).length ≤ _ at hwhole
      change (itemsText i.junk items).length ≤ _ at hleft
      obtain ⟨rounds, rfl⟩ : ∃ n, rounds = n + 1 := ⟨rounds - 1, by omega⟩
      have hstored : s.sect.length + 1 + (strlwc (keyRead junk i)).length ≤ asciilinesz := by omega
      have hlater := resume_items items i.junk
        { s with
          errs := 0
          dict := dictionarySet s.dict (s.sect ++ chr ':' :: strlwc (keyRead junk i)) (some (strstrip i.value)) }
        rounds (hitems i List.mem_cons_self) (fun i hi => hitems i (List.mem_cons_of_mem _ hi)) hlast (by omega)
        (by show s.sect.length + 1 + _ ≤ _; omega)
      rw [resume, if_neg hsolid.ne_nil, continueParser_round hsolid hback (iniparserLine_item hjunk i items s.sect)]
      simp only [Loading.store, if_pos hstored, ok_bind]
      have hresume := resume_eq rounds
        { s with
          last := 0
          errs := 0
          dict := dictionarySet s.dict (s.sect ++ chr ':' :: strlwc (keyRead junk i)) (some (strstrip i.value)) }
        (itemsText i.junk items)
      rw [hlast] at hlater
      exact hresume.trans hlater

end Items

section Line

variable {l : OneLine} {lines : List OneLine} {s : Loading} {rounds : Nat}

theorem lineText_solid (sect : SectName) (items : List Item) :
    Solid (lineText sect items) ∧ (lineText sect items).getLast? ≠ some (chr '\\') := by
  have hend : ∃ b, (chr ']' :: items.flatMap Item.text).getLast? = some b ∧ isSpace b = false ∧ b ≠ chr '\\' := by
    by_cases hnil : items.flatMap Item.text = []
    · exact ⟨chr ']', by rw [hnil]; rfl, by decide, by decide⟩
    · have hlast := getLast?_items items
      rw [List.getLast?_cons_of_ne_nil hnil] at hlast
      exact ⟨quote, by rw [List.getLast?_cons_of_ne_nil hnil, hlast], by decide, by decide⟩
  obtain ⟨b, hlast, hb, hback⟩ := hend
  have htext : (lineText sect items).getLast? = some b := by
    rw [lineText, ← List.cons_append, List.getLast?_append_of_ne_nil _ (List.cons_ne_nil _ _), hlast]
  refine ⟨⟨⟨chr '[', rfl, by decide⟩, b, htext, hb⟩, ?_⟩
  rw [htext]
  exact fun heq => hback (Option.some.inj heq)

theorem scanLine_open (sect : SectName) (rest old : List Byte) : scanLine (chr '[' :: (sect.bytes ++ chr ']' :: rest)) old =
    (.section, strlwc sect.bytes, .from (sect.bytes.length + 2)) := by
  have hplain : chr ']' ∉ sect.bytes := fun hmem => (sect.plain _ hmem).1 rfl
  have htake := takeWhile_append_cons hplain rest
  have hscan : sscanf sectionFormat (chr '[' :: (sect.bytes ++ chr ']' :: rest)) = [sect.bytes] := by
    show (if chr '[' = chr '[' then sscanf [.set (· ≠ chr ']')] (sect.bytes ++ chr ']' :: rest) else []) = _
    rw [if_pos rfl, sscanf, htake, if_neg sect.solid.ne_nil, sscanf]
  have hlength : (strlwc sect.bytes).length = sect.bytes.length := List.length_map _
  simp only [scanLine, hscan, List.headD_cons, strstrip_solid sect.solid, hlength]
  rfl

theorem iniparserLine_open (sect : SectName) (items : List Item) (old : List Byte) :
    iniparserLine (lineText sect items) old = .ok (.section, strlwc sect.bytes, leftBack (itemsText [] items)) := by
  have hdrop : (lineText sect items).drop (sect.bytes.length + 2) = [] ++ items.flatMap Item.text := by
    rw [lineText, List.drop_succ_cons, List.drop_append, List.drop_eq_nil_of_le (Nat.le_succ _),
      Nat.add_sub_cancel_left]
    rfl
  have hinside : sect.bytes.length + 2 ≤ (lineText sect items).length := by
    simp only [lineText, List.length_append, List.length_cons]
    omega
  have hscan := scanLine_open sect (items.flatMap Item.text) old
  change scanLine (lineText sect items) old = _ at hscan
  rw [iniparserLine, strstrip_solid (lineText_solid sect items).1, hscan]
  simp only [leftLine, if_pos hinside, hdrop, ok_bind]
  rfl

def OneLine.entries (l : OneLine) : Dictionary :=
  (strlwc l.sect.bytes, none) :: itemEntries (strlwc l.sect.bytes) [] l.items

def afterLine (s : Loading) (l : OneLine) : Loading where
  line := []
  last := 0
  sect := strlwc l.sect.bytes
  errs := itemErrs 0 [] l.items
  dict := setAll s.dict l.entries

theorem harmless_nil : Harmless [] where
  plain := List.not_mem_nil
  head := fun _ h => nomatch h
  last := .inl rfl

theorem continueParser_trailing {text blank : List Byte} (hsolid : Solid text) (hblank : ∀ b ∈ blank, isSpace b = true) :
    continueParser (rounds + 1) { s with line := text ++ blank ++ [newline] } =
      continueParser (rounds + 1) { s with line := text ++ [newline] } := by
  obtain ⟨-, b, hlast, hb⟩ := hsolid
  have hself := rdropWhile_of_last hlast hb
  have hsame : (text ++ blank).rdropWhile isSpace = text.rdropWhile isSpace := rdropWhile_append_blank hblank
  have hend : (text.rdropWhile isSpace).getLast? = some b := by rw [hself, hlast]
  rw [continueParser_text hend, continueParser_text (by rw [hsame, hend]), hsame]

theorem lineStep_oneLine (hlast : s.last = 0) (h : ∀ i ∈ l.items, Harmless i.junk) :
    lineStep s l.text = .ok (some (afterLine s l)) := by
  obtain ⟨hsolid, hback⟩ := lineText_solid l.sect l.items
  have hshort := l.short
  rw [List.length_append] at hshort
  have htext : (lineText l.sect l.items).length = l.sect.bytes.length + 2 + (l.items.flatMap Item.text).length := by
    simp only [lineText, List.length_append, List.length_cons]
    omega
  have hleft := strstrip_length_le ([] ++ l.items.flatMap Item.text)
  have hlength : (strlwc l.sect.bytes).length = l.sect.bytes.length := List.length_map _
  let opened : Loading := { s with
    last := 0
    sect := strlwc l.sect.bytes
    errs := 0
    dict := dictionarySet s.dict (strlwc l.sect.bytes) none }
  have hitems : resume (lineText l.sect l.items ++ l.trailing).length opened (itemsText [] l.items) =
      .ok (some (afterItems opened [] l.items)) := by
    refine resume_items l.items [] opened _ harmless_nil h rfl ?_ ?_
    · rw [itemsText, List.length_append]
      rw [List.nil_append] at hleft ⊢
      omega
    · rw [List.nil_append]
      show (strlwc l.sect.bytes).length + 1 + _ ≤ 1024
      omega
  rw [lineStep, joined_of_last hlast, OneLine.text, List.length_append, List.length_singleton,
    continueParser_trailing hsolid fun b hb => (l.blank b hb).1,
    continueParser_round hsolid hback (iniparserLine_open l.sect l.items s.sect)]
  simp only [Loading.store, ok_bind]
  exact (resume_eq _ opened _).trans hitems

theorem notMem_oneLine (l : OneLine) {b : Byte} (hsigns : b ≠ chr '[' ∧ b ≠ chr ']' ∧ b ≠ chr '=' ∧ b ≠ quote)
    (hsect : b ∉ l.sect.bytes) (htrailing : b ∉ l.trailing)
    (hitems : ∀ i ∈ l.items, b ∉ i.blanks ∧ b ∉ i.key ∧ b ∉ i.value) : b ∉ l.text := by
  have htexts : b ∉ l.items.flatMap Item.text := by
    intro hmem
    obtain ⟨i, hi, hitem⟩ := List.mem_flatMap.mp hmem
    obtain ⟨hblanks, hkey, hvalue⟩ := hitems i hi
    simp [Item.text, hblanks, hkey, hvalue, hsigns] at hitem
  simp only [OneLine.text, lineText, List.mem_append, List.mem_cons, not_or]
  exact ⟨⟨hsigns.1, hsect, hsigns.2.1, htexts⟩, htrailing⟩

theorem newline_notMem_oneLine (l : OneLine) : newline ∉ l.text :=
  notMem_oneLine l (by decide) (fun h => (l.sect.plain _ h).2.2.1 rfl) (fun h => (l.blank _ h).2 rfl) fun i _ =>
    ⟨fun h => (i.blank _ h).2 rfl, fun h => absurd (i.key_plain _ h).1 (by decide),
      fun h => (i.value_plain _ h).2.2.1 rfl⟩

theorem nul_notMem_oneLine (l : OneLine) : (0 : Byte) ∉ l.text :=
  notMem_oneLine l (by decide) (fun h => (l.sect.plain _ h).2.2.2 rfl) (fun h => absurd (l.blank _ h).1 (by decide))
    fun i _ => ⟨fun h => absurd (i.blank _ h).1 (by decide), fun h => (i.key_plain _ h).2.2.2.2.2.2.2 rfl,
      fun h => (i.value_plain _ h).2.2.2 rfl⟩

theorem loadLoop_oneLine : ∀ (lines : List OneLine) (s : Loading) (rounds : Nat), s.last = 0 →
    (∀ l ∈ lines, ∀ i ∈ l.items, Harmless i.junk) →
      loadLoop (rounds + lines.length) (confFile lines) s = .ok (some (lines.foldl afterLine s))
  | [], s, rounds, _, _ => by cases rounds <;> rfl
  | l :: lines, s, rounds, hlast, h => by
      have hfile : confFile (l :: lines) = l.text ++ newline :: confFile lines := by simp [confFile]
      have hstep := lineStep_oneLine hlast (h l List.mem_cons_self)
      rw [hfile, List.length_cons, ← Nat.add_assoc, loadLoop_short (newline_notMem_oneLine l) (nul_notMem_oneLine l) hlast l.short, hstep]
      exact loadLoop_oneLine lines (afterLine s l) rounds rfl fun l hl => h l (List.mem_cons_of_mem _ hl)

def lastErrs (lines : List OneLine) : Nat := (lines.getLast?.map fun l => itemErrs 0 [] l.items).getD 0

theorem foldl_afterLine_dict (lines : List OneLine) (s : Loading) :
    (lines.foldl afterLine s).dict = setAll s.dict (lines.flatMap OneLine.entries) := by
  induction lines generalizing s with
  | nil => rfl
  | cons l lines ih =>
      rw [List.foldl_cons, ih, List.flatMap_cons, setAll, setAll, List.foldl_append]
      rfl

theorem foldl_afterLine_errs (lines : List OneLine) (h : s.errs = 0) :
    (lines.foldl afterLine s).errs = lastErrs lines := by
  cases lines using List.reverseRecOn with
  | nil => exact h
  | append_singleton lines l =>
      rw [List.foldl_append, lastErrs, List.getLast?_concat]
      rfl

theorem length_le_confFile (lines : List OneLine) : lines.length ≤ (confFile lines).length := by
  induction lines with
  | nil => exact Nat.zero_le _
  | cons l lines ih =>
      rw [confFile] at ih ⊢
      rw [List.flatMap_cons, List.length_append, List.length_append, List.length_singleton, List.length_cons]
      omega

/-- The load gives NULL just for a file that ends in a syntax error. -/
theorem iniparserLoad_oneLine (h : ∀ l ∈ lines, ∀ i ∈ l.items, Harmless i.junk) : iniparserLoad (confFile lines) =
    .ok (if lastErrs lines ≠ 0 then none else some (setAll [] (lines.flatMap OneLine.entries))) := by
  obtain ⟨rounds, hrounds⟩ := Nat.exists_eq_add_of_le' (length_le_confFile lines)
  have hload := loadLoop_oneLine lines {} rounds rfl h
  have herrs := foldl_afterLine_errs (s := {}) lines rfl
  rw [iniparserLoad, hrounds, hload, ok_bind]
  simp only [herrs, foldl_afterLine_dict]
  rfl

end Line

/-- Its values have no blanks at their ends. -/
structure CleanLine extends OneLine where
  clean : ∀ i ∈ items, i.value = [] ∨ Solid i.value

def CleanLine.given (l : CleanLine) : Dictionary :=
  (strlwc l.sect.bytes, none) :: l.items.map fun i => (strlwc l.sect.bytes ++ chr ':' :: strlwc i.key, some i.value)

section Clean

theorem junk_of_clean {i : Item} (h : i.value = [] ∨ Solid i.value) : strstrip i.value = i.value ∧ i.junk = [] := by
  have hself : strstrip i.value = i.value := by
    rcases h with hnil | hsolid
    · rw [hnil]
      rfl
    · exact strstrip_solid hsolid
  refine ⟨hself, List.drop_eq_nil_of_le ?_⟩
  rw [hself, List.length_append, List.length_singleton]

theorem itemEntries_clean (sect : List Byte) : ∀ items : List Item, (∀ i ∈ items, i.value = [] ∨ Solid i.value) →
    itemEntries sect [] items = items.map (fun i => (sect ++ chr ':' :: strlwc i.key, some i.value)) ∧
      itemErrs 0 [] items = 0
  | [], _ => ⟨rfl, rfl⟩
  | i :: items, h => by
      obtain ⟨hself, hjunk⟩ := junk_of_clean (h i List.mem_cons_self)
      have hlater := itemEntries_clean sect items fun i hi => h i (List.mem_cons_of_mem _ hi)
      rw [itemEntries, itemErrs, hjunk, keyRead_nil, hself, hlater.1, List.map_cons]
      exact ⟨rfl, hlater.2⟩

/-- Files of such lines are loaded as they are meant. -/
theorem oneLine_loads (lines : List CleanLine) : ∃ d, iniparserLoad (confFile (lines.map (·.toOneLine))) = .ok (some d) ∧
    ∀ name, dictionaryGet d name = lastGiven (lines.flatMap CleanLine.given) name := by
  have hharmless : ∀ l ∈ lines.map (·.toOneLine), ∀ i ∈ l.items, Harmless i.junk := by
    intro l hl i hi
    obtain ⟨clean, -, rfl⟩ := List.mem_map.mp hl
    rw [(junk_of_clean (clean.clean i hi)).2]
    exact harmless_nil
  have hentries : (lines.map (·.toOneLine)).flatMap OneLine.entries = lines.flatMap CleanLine.given := by
    rw [List.flatMap_map]
    exact List.flatMap_congr fun l _ => congrArg _ (itemEntries_clean _ l.items l.clean).1
  have herrs : lastErrs (lines.map (·.toOneLine)) = 0 := by
    rw [lastErrs, List.getLast?_map]
    cases lines.getLast? with
    | none => rfl
    | some l => exact (itemEntries_clean [] l.items l.clean).2
  refine ⟨setAll [] (lines.flatMap CleanLine.given), ?_, fun name => ?_⟩
  · rw [iniparserLoad_oneLine hharmless, herrs, hentries]
    rfl
  · rw [dictionaryGet_setAll_eq]
    exact Option.or_none

end Clean

end Fl2440.Ini
