import Fl2440.Ini.DumpLine
import Fl2440.Ini.Entries

/-! Saving a dictionary and loading the file again. -/
namespace Fl2440.Ini

open Fl2440.Lib

/-- What can be saved: sections without values, and keys of theirs. -/
structure Savable (d : Dictionary) : Prop where
  nodup : (d.map (·.1)).Nodup
  entry : ∀ e ∈ d, (IsSection e.1 ∧ e.2 = none) ∨ ∃ s k v, e = (s ++ chr ':' :: k, some v) ∧ IsSection s ∧
    (s, none) ∈ d ∧ IsKey k ∧ IsValue v ∧ (entryLine k v).length < 1000

/-- The file loads, with the same sections, keys and values. -/
def RoundTrips (d : Dictionary) : Prop :=
  ∃ d', iniparserLoad (iniparserDumpIni d) = .ok (some d') ∧ ∀ name, dictionaryGet d' name = dictionaryGet d name

/-- No end of a line is more than a syntax error. -/
def Tame (d : Dictionary) : Prop :=
  ∀ s k v, (s ++ chr ':' :: k, some v) ∈ d → IsSection s → PlainError (leftover k v)

def entriesOf (d : Dictionary) (s : List Byte) : Dictionary :=
  d.filter fun entry => (s ++ [chr ':']).isPrefixOf entry.1

def NamesFit (d : Dictionary) : Prop := ∀ entry ∈ d, entry.1.length ≤ asciilinesz

instance (d : Dictionary) : Decidable (NamesFit d) := List.decidableBAll _ d

def LastEmpty (d : Dictionary) : Prop :=
  ∀ s, (iniparserGetsecnames d).getLast? = some s → entriesOf d s = []

section Dump

variable {d entries : Dictionary} {s : List Byte} {state : Loading} {rest : List Byte}

def IsEntry (s : List Byte) (entry : List Byte × Option (List Byte)) : Prop :=
  ∃ k v, entry = (s ++ chr ':' :: k, some v) ∧ IsKey k ∧ IsValue v ∧ (entryLine k v).length < 1000 ∧
    PlainError (leftover k v)

theorem namesFit_cons {entry : List Byte × Option (List Byte)} :
    NamesFit (entry :: d) ↔ entry.1.length ≤ asciilinesz ∧ NamesFit d := List.forall_mem_cons

def dumpEntries (s : List Byte) (entries : Dictionary) : List Byte :=
  entries.flatMap fun (key, val) =>
    padRight (key.drop (s.length + 1)) ++ ascii " = " ++ val.getD [] ++ [newline]

theorem dumpEntries_cons (k v : List Byte) (entries : Dictionary) :
    dumpEntries s ((s ++ chr ':' :: k, some v) :: entries) ++ rest =
      entryLine k v ++ newline :: (dumpEntries s entries ++ rest) := by
  have hkey : (s ++ chr ':' :: k).drop (s.length + 1) = k := by
    rw [List.drop_append, List.drop_eq_nil_of_le (Nat.le_succ _), Nat.add_sub_cancel_left]
    rfl
  simp [dumpEntries, hkey, entryLine]

theorem loadLoop_entries (rest : List Byte) : ∀ (entries : Dictionary) (dict : Dictionary) (errs rounds : Nat),
    (∀ entry ∈ entries, IsEntry s entry) →
      loadLoop (rounds + entries.length) (dumpEntries s entries ++ rest) { sect := s, errs, dict } =
        if NamesFit entries then
          loadLoop rounds rest
            { sect := s
              errs := if entries = [] then errs else 1
              dict := setAll dict entries }
        else .error .bounds
  | [], dict, errs, rounds, _ => by
      exact (if_pos fun _ hmem => nomatch hmem).symm
  | entry :: entries, dict, errs, rounds, h => by
      obtain ⟨k, v, rfl, hk, hv, hshort, hplain⟩ := h _ List.mem_cons_self
      have hlater := loadLoop_entries rest entries (dictionarySet dict (s ++ chr ':' :: k) (some v)) 1 rounds
        fun entry hmem => h entry (List.mem_cons_of_mem _ hmem)
      rw [dumpEntries_cons, List.length_cons, ← Nat.add_assoc,
        loadLoop_short (newline_not_mem_entryLine hk hv) (nul_notMem_entryLine hk hv) rfl hshort, lineStep_entry rfl hk hv hplain]
      have hname : (s ++ chr ':' :: k).length = s.length + 1 + k.length := by
        rw [List.length_append, List.length_cons]
        omega
      by_cases hfits : s.length + 1 + k.length ≤ asciilinesz
      · have hrest : NamesFit ((s ++ chr ':' :: k, some v) :: entries) ↔ NamesFit entries :=
          namesFit_cons.trans (and_iff_right (hname ▸ hfits))
        rw [if_pos hfits, if_congr hrest rfl rfl]
        refine hlater.trans ?_
        rw [ite_self]
        rfl
      · rw [if_neg hfits, if_neg fun hall => hfits (hname ▸ (namesFit_cons.mp hall).1)]
        rfl

theorem dumpsection_eq (rest : List Byte) (hs : strlwc s = s) (hmem : (dictionaryGet d s).isSome) :
    iniparserDumpsectionIni d s ++ rest = [] ++ newline ::
      ((chr '[' :: (s ++ [chr ']'])) ++ newline ::
        (dumpEntries s (entriesOf d s) ++ ([] ++ newline :: rest))) := by
  rw [iniparserDumpsectionIni, hs, if_neg (by rw [Option.isNone_iff_eq_none]; exact Option.isSome_iff_ne_none.mp hmem)]
  simp [dumpEntries, entriesOf]

theorem loadLoop_section (hs : IsSection s) (hmem : (dictionaryGet d s).isSome)
    (hentries : ∀ entry ∈ entriesOf d s, IsEntry s entry) (hlast : state.last = 0) (rounds : Nat) :
    loadLoop (rounds + ((entriesOf d s).length + 3)) (iniparserDumpsectionIni d s ++ rest) state =
      if NamesFit (entriesOf d s) then
        loadLoop rounds rest
          { line := [newline]
            sect := s
            errs := if entriesOf d s = [] then 0 else 1
            dict := setAll state.dict ((s, none) :: entriesOf d s) }
      else .error .bounds := by
  have hrounds : rounds + ((entriesOf d s).length + 3) = rounds + 1 + (entriesOf d s).length + 1 + 1 := by omega
  have hline : (chr '[' :: (s ++ [chr ']'])).length < 1000 := by
    rw [List.length_cons, List.length_append]
    exact hs.short
  rw [dumpsection_eq _ hs.lower hmem, hrounds, loadLoop_short List.not_mem_nil List.not_mem_nil hlast (by decide), lineStep_blank hlast]
  have hblank : ({ state with line := [newline] } : Loading).last = 0 := hlast
  show loadLoop _ _ { state with line := [newline] } = _
  rw [loadLoop_short (newline_not_mem_section hs) (nul_notMem_section hs) hblank hline, lineStep_section hblank hs]
  have hkeys := loadLoop_entries ([] ++ newline :: rest) (entriesOf d s) (dictionarySet state.dict s none) 0
    (rounds + 1) hentries
  rw [hlast]
  refine hkeys.trans ?_
  split
  · rw [loadLoop_short List.not_mem_nil List.not_mem_nil rfl (by decide), lineStep_blank rfl]
    rfl
  · rfl

theorem namesFit_append {first second : Dictionary} : NamesFit (first ++ second) ↔ NamesFit first ∧ NamesFit second :=
  List.forall_mem_append

def written (d : Dictionary) (names : List (List Byte)) : Dictionary :=
  names.flatMap fun s => (s, none) :: entriesOf d s

def Sections (d : Dictionary) (names : List (List Byte)) : Prop :=
  ∀ s ∈ names, IsSection s ∧ (dictionaryGet d s).isSome ∧ ∀ entry ∈ entriesOf d s, IsEntry s entry

def dumpLines (d : Dictionary) (names : List (List Byte)) : Nat :=
  (names.map fun s => (entriesOf d s).length + 3).sum

theorem loadLoop_sections : ∀ (names : List (List Byte)) (state : Loading) (rounds : Nat),
    Sections d names → state.last = 0 →
      loadLoop (rounds + 1 + dumpLines d names) (names.flatMap (iniparserDumpsectionIni d) ++ [newline]) state =
        if NamesFit (written d names) then
          .ok (some
            { line := [newline]
              sect := names.foldl (fun _ s => s) state.sect
              errs := names.foldl (fun _ s => if entriesOf d s = [] then 0 else 1) state.errs
              dict := setAll state.dict (written d names) })
        else .error .bounds
  | [], state, rounds, _, hlast => by
      have hnone : NamesFit (written d []) := fun _ hmem => nomatch hmem
      rw [if_pos hnone]
      show loadLoop (rounds + 1) ([] ++ newline :: []) state = _
      rw [loadLoop_short List.not_mem_nil List.not_mem_nil hlast (by decide), lineStep_blank hlast, hlast]
      cases rounds <;> rfl
  | s :: names, state, rounds, hnames, hlast => by
      obtain ⟨hs, hmem, hentries⟩ := hnames s List.mem_cons_self
      have hlines : rounds + 1 + dumpLines d (s :: names) =
          rounds + 1 + dumpLines d names + ((entriesOf d s).length + 3) := by
        simp only [dumpLines, List.map_cons, List.sum_cons]
        omega
      have hfits : NamesFit (written d (s :: names)) ↔ NamesFit (entriesOf d s) ∧ NamesFit (written d names) := by
        have hname : s.length ≤ asciilinesz := by
          have hshort := hs.short
          show s.length ≤ 1024
          omega
        exact namesFit_cons.trans ((and_iff_right hname).trans namesFit_append)
      rw [hlines, List.flatMap_cons, List.append_assoc, loadLoop_section hs hmem hentries hlast, if_congr hfits rfl rfl]
      by_cases hkeys : NamesFit (entriesOf d s)
      · rw [if_pos hkeys, loadLoop_sections names _ rounds (fun s h => hnames s (List.mem_cons_of_mem _ h)) rfl,
          if_congr (and_iff_right hkeys) rfl rfl]
        have hwritten : setAll state.dict (written d (s :: names)) =
            setAll (setAll state.dict ((s, none) :: entriesOf d s)) (written d names) := List.foldl_append
        rw [hwritten]
        rfl
      · rw [if_neg hkeys, if_neg fun hall => hkeys hall.1]

end Dump

section Saved

variable {d : Dictionary} {s name : List Byte} {entry : List Byte × Option (List Byte)}

theorem IsSection.colon_not_mem (h : IsSection s) : chr ':' ∉ s := fun hmem => (h.plain _ hmem).2.1 rfl

theorem IsSection.takeWhile_colon (h : IsSection s) (k : List Byte) :
    (s ++ chr ':' :: k).takeWhile (· ≠ chr ':') = s := by
  rw [List.takeWhile_append_of_pos fun b hb => decide_eq_true (h.plain b hb).2.1,
    List.takeWhile_cons_of_neg (by simp), List.append_nil]

theorem Savable.mem_getsecnames (h : Savable d) : s ∈ iniparserGetsecnames d ↔ IsSection s ∧ (s, none) ∈ d := by
  simp only [iniparserGetsecnames, List.mem_map, List.mem_filter]
  constructor
  · rintro ⟨entry, ⟨hmem, hcolon⟩, rfl⟩
    rcases h.entry entry hmem with ⟨hs, hval⟩ | ⟨s, k, v, rfl, -⟩
    · exact ⟨hs, by rw [← hval]; exact hmem⟩
    · simp at hcolon
  · rintro ⟨hs, hmem⟩
    exact ⟨(s, none), ⟨hmem, by simpa using hs.colon_not_mem⟩, rfl⟩

theorem Savable.mem_entriesOf (h : Savable d) (hs : IsSection s) : entry ∈ entriesOf d s ↔
    ∃ k v, entry = (s ++ chr ':' :: k, some v) ∧ entry ∈ d ∧ IsKey k ∧ IsValue v ∧ (entryLine k v).length < 1000 := by
  simp only [entriesOf, List.mem_filter, List.isPrefixOf_iff_prefix]
  constructor
  · rintro ⟨hmem, hstarts⟩
    rcases h.entry entry hmem with ⟨hsect, -⟩ | ⟨s', k, v, rfl, hs', -, hk, hv, hshort⟩
    · exact absurd (hstarts.mem (by simp)) hsect.colon_not_mem
    · have hsame : s = s' := by
        obtain ⟨k', hk'⟩ := hstarts
        rw [List.append_assoc] at hk'
        rw [← hs.takeWhile_colon k', ← hs'.takeWhile_colon k]
        exact congrArg _ hk'
      subst hsame
      exact ⟨k, v, rfl, hmem, hk, hv, hshort⟩
  · rintro ⟨k, v, rfl, hmem, -⟩
    exact ⟨hmem, k, by simp⟩

theorem Savable.mem_written (h : Savable d) : entry ∈ written d (iniparserGetsecnames d) ↔ entry ∈ d := by
  simp only [written, List.mem_flatMap, List.mem_cons, h.mem_getsecnames]
  constructor
  · rintro ⟨s, ⟨hs, hmem⟩, rfl | hkey⟩
    · exact hmem
    · exact List.mem_of_mem_filter hkey
  · intro hmem
    rcases h.entry entry hmem with ⟨hs, hval⟩ | ⟨s, k, v, rfl, hs, hsect, hk, hv, hshort⟩
    · have heq : entry = (entry.1, none) := Prod.ext rfl hval
      exact ⟨entry.1, ⟨hs, heq ▸ hmem⟩, .inl heq⟩
    · exact ⟨s, ⟨hs, hsect⟩, .inr ((h.mem_entriesOf hs).mpr ⟨k, v, rfl, hmem, hk, hv, hshort⟩)⟩

theorem Savable.sections (h : Savable d) (htame : Tame d) : Sections d (iniparserGetsecnames d) := by
  intro s hname
  obtain ⟨hs, hmem⟩ := h.mem_getsecnames.mp hname
  refine ⟨hs, by rw [dictionaryGet_of_mem h.nodup hmem]; rfl, fun entry hentry => ?_⟩
  obtain ⟨k, v, rfl, hkey, hk, hv, hshort⟩ := (h.mem_entriesOf hs).mp hentry
  exact ⟨k, v, rfl, hk, hv, hshort, htame s k v hkey hs⟩

theorem tame_of_values (h : ∀ entry ∈ d, ∀ v ∈ entry.2,
    PlainError (leftover ((entry.1.dropWhile (· ≠ chr ':')).drop 1) v)) : Tame d := by
  intro s k v hmem hs
  have hkey : ((s ++ chr ':' :: k).dropWhile (· ≠ chr ':')).drop 1 = k := by
    rw [List.dropWhile_append_of_pos fun b hb => decide_eq_true (hs.plain b hb).2.1,
      List.dropWhile_cons_of_neg (by simp)]
    rfl
  rw [← hkey]
  exact h _ hmem v rfl

theorem dumpIni_eq (h : Savable d) :
    iniparserDumpIni d = if d = [] then []
      else (iniparserGetsecnames d).flatMap (iniparserDumpsectionIni d) ++ [newline] := by
  by_cases hd : d = []
  · rw [if_pos hd, hd]
    rfl
  · have hnames : iniparserGetsecnames d ≠ [] := by
      obtain ⟨entry, d', hcons⟩ := List.exists_cons_of_ne_nil hd
      have hmem := h.mem_written.mpr (hcons ▸ List.mem_cons_self : entry ∈ d)
      intro hnil
      rw [hnil] at hmem
      cases hmem
    rw [if_neg hd, iniparserDumpIni, if_neg (by
      have hpos := List.length_pos_iff.mpr hnames
      omega)]

theorem foldl_last {α β : Type} (f : α → β) (init : β) (l : List α) :
    l.foldl (fun _ a => f a) init = (l.getLast?.map f).getD init := by
  cases l using List.reverseRecOn with
  | nil => rfl
  | append_singleton l a => simp

theorem errs_eq_zero_iff :
    (iniparserGetsecnames d).foldl (fun _ s => if entriesOf d s = [] then 0 else 1) 0 = 0 ↔ LastEmpty d := by
  rw [foldl_last]
  unfold LastEmpty
  cases (iniparserGetsecnames d).getLast? with
  | none => simp
  | some s => simp

theorem length_le_dumpEntries : ∀ entries : Dictionary, entries.length ≤ (dumpEntries s entries).length
  | [] => Nat.zero_le _
  | (key, val) :: entries => by
      have hlater := length_le_dumpEntries entries
      rw [dumpEntries, List.flatMap_cons, List.length_append, List.length_append, List.length_singleton]
      exact (Nat.add_le_add_right hlater 1).trans (by rw [dumpEntries]; omega)

theorem dumpLines_le : ∀ names : List (List Byte), Sections d names →
    dumpLines d names ≤ (names.flatMap (iniparserDumpsectionIni d)).length
  | [], _ => Nat.zero_le _
  | s :: names, h => by
      obtain ⟨hsect, hmem, -⟩ := h s List.mem_cons_self
      have hlater := dumpLines_le names fun s hs => h s (List.mem_cons_of_mem _ hs)
      have hentries := length_le_dumpEntries (s := s) (entriesOf d s)
      have heq := congrArg List.length (dumpsection_eq [] hsect.lower hmem)
      simp only [List.length_append, List.length_cons, List.length_nil] at heq
      rw [List.flatMap_cons, List.length_append]
      simp only [dumpLines, List.map_cons, List.sum_cons] at hlater ⊢
      omega

theorem load_dump (h : Savable d) (htame : Tame d) :
    iniparserLoad (iniparserDumpIni d) =
      if NamesFit (written d (iniparserGetsecnames d)) then
        .ok (if (iniparserGetsecnames d).foldl (fun _ s => if entriesOf d s = [] then 0 else 1) 0 ≠ 0 then none
          else some (setAll [] (written d (iniparserGetsecnames d))))
      else .error .bounds := by
  have hsections := h.sections htame
  rw [dumpIni_eq h]
  by_cases hd : d = []
  · subst hd
    rfl
  · rw [if_neg hd]
    have hlines := dumpLines_le _ hsections
    obtain ⟨rounds, hrounds⟩ := Nat.exists_eq_add_of_le hlines
    have hlength : ((iniparserGetsecnames d).flatMap (iniparserDumpsectionIni d) ++ [newline]).length =
        rounds + 1 + dumpLines d (iniparserGetsecnames d) := by
      rw [List.length_append, hrounds, List.length_singleton]
      omega
    rw [iniparserLoad, hlength, loadLoop_sections _ {} rounds hsections rfl]
    split <;> rfl

end Saved

/-- Where no end of a line is more than a syntax error, a dictionary is the same after it
has been saved and loaded just if its names fit and no keys follow the last section. -/
theorem roundTrips_iff {d : Dictionary} (h : Savable d) (htame : Tame d) :
    RoundTrips d ↔ NamesFit d ∧ LastEmpty d := by
  have hsame : NamesFit (written d (iniparserGetsecnames d)) ↔ NamesFit d :=
    forall_congr' fun _ => imp_congr_left h.mem_written
  rw [RoundTrips, load_dump h htame, if_congr hsame rfl rfl]
  by_cases hfits : NamesFit d
  · rw [if_pos hfits, and_iff_right hfits, ← errs_eq_zero_iff]
    split
    next herrs => exact iff_of_false (fun ⟨_, hresult, _⟩ => nomatch hresult) herrs
    next herrs =>
      exact iff_of_true ⟨_, rfl, dictionaryGet_of_entries h.nodup fun _ => h.mem_written⟩ (not_not.mp herrs)
  · rw [if_neg hfits]
    exact iff_of_false (fun ⟨_, hresult, _⟩ => nomatch hresult) fun hboth => hfits hboth.1

theorem roundTrips_iff_two_sections :
    RoundTrips [(ascii "a", none), (ascii "a:k", some (ascii "v")), (ascii "b", none)] := by
  have ha : IsSection (ascii "a") := ⟨by decide, by decide, by decide, by decide⟩
  have hb : IsSection (ascii "b") := ⟨by decide, by decide, by decide, by decide⟩
  have hk : IsKey (ascii "k") := ⟨by decide, by decide, by decide⟩
  have hv : IsValue (ascii "v") := ⟨by decide, ⟨_, rfl, by decide⟩, _, rfl, by decide⟩
  refine (roundTrips_iff ⟨by decide, ?_⟩ (tame_of_values ?_)).mpr ⟨by decide, errs_eq_zero_iff.mp (by decide)⟩
  · intro entry hmem
    simp only [List.mem_cons, List.not_mem_nil, or_false] at hmem
    rcases hmem with rfl | rfl | rfl
    · exact .inl ⟨ha, rfl⟩
    · exact .inr ⟨ascii "a", ascii "k", ascii "v", rfl, ha, List.mem_cons_self, hk, hv, by decide⟩
    · exact .inl ⟨hb, rfl⟩
  · intro entry hmem v hvalue
    simp only [List.mem_cons, List.not_mem_nil, or_false] at hmem
    rcases hmem with rfl | rfl | rfl
    · cases hvalue
    · cases hvalue
      exact ⟨by decide, .inl (by decide)⟩
    · cases hvalue

/-- One key in the only section: `= v` is left of its line, and NULL comes back. -/
theorem saved_dictionary_not_preserved : ¬ ∀ d : Dictionary, Savable d → RoundTrips d := by
  intro h
  have ha : IsSection (ascii "a") := ⟨by decide, by decide, by decide, by decide⟩
  have hk : IsKey (ascii "k") := ⟨by decide, by decide, by decide⟩
  have hv : IsValue (ascii "v") := ⟨by decide, ⟨_, rfl, by decide⟩, _, rfl, by decide⟩
  obtain ⟨d', hload, -⟩ := h [(ascii "a", none), (ascii "a:k", some (ascii "v"))] ⟨by decide, by
    intro entry hmem
    simp only [List.mem_cons, List.not_mem_nil, or_false] at hmem
    rcases hmem with rfl | rfl
    · exact .inl ⟨ha, rfl⟩
    · exact .inr ⟨ascii "a", ascii "k", ascii "v", rfl, ha, List.mem_cons_self, hk, hv, by decide⟩⟩
  have hnull : iniparserLoad (iniparserDumpIni [(ascii "a", none), (ascii "a:k", some (ascii "v"))]) = .ok none := by
    decide +kernel
  rw [hnull] at hload
  cases hload

end Fl2440.Ini
