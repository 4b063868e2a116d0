import Fl2440.Ini.CpIniparser

/-! The dictionary as a map in which the last entry written for a name counts. -/
namespace Fl2440.Ini

open Fl2440.Lib

variable {d : Dictionary} {key name : List Byte} {val : Option (List Byte)}

theorem dictionaryGet_set_self (key : List Byte) (val : Option (List Byte)) :
    ∀ d : Dictionary, dictionaryGet (dictionarySet d key val) key = some val
  | [] => by simp [dictionarySet, dictionaryGet]
  | entry :: d => by
      rw [dictionarySet]
      split
      · simp [dictionaryGet]
      next hne =>
        have hlater := dictionaryGet_set_self key val d
        rw [dictionaryGet, List.find?_cons_of_neg (by simpa using hne)]
        exact hlater

theorem dictionaryGet_set_of_ne (val : Option (List Byte)) (hname : name ≠ key) :
    ∀ d : Dictionary, dictionaryGet (dictionarySet d key val) name = dictionaryGet d name
  | [] => by simp [dictionarySet, dictionaryGet, Ne.symm hname]
  | entry :: d => by
      have hlater := dictionaryGet_set_of_ne val hname d
      rw [dictionarySet]
      split
      next heq =>
        have hskip : ¬ entry.1 = name := fun h => hname (h.symm.trans heq)
        simp [dictionaryGet, Ne.symm hname, hskip]
      next hne =>
        unfold dictionaryGet at hlater ⊢
        rw [List.find?_cons, List.find?_cons]
        split
        · rfl
        · exact hlater

theorem mem_of_dictionaryGet (h : dictionaryGet d name = some val) : (name, val) ∈ d := by
  obtain ⟨entry, hfind, rfl⟩ := Option.map_eq_some_iff.mp h
  have hname : entry.1 = name := by simpa using List.find?_some hfind
  exact hname ▸ List.mem_of_find?_eq_some hfind

theorem dictionaryGet_of_mem (hnodup : (d.map (·.1)).Nodup) (h : (name, val) ∈ d) :
    dictionaryGet d name = some val := by
  induction d with
  | nil => cases h
  | cons entry d ih =>
      obtain ⟨hnew, hrest⟩ := List.nodup_cons.mp hnodup
      rcases List.mem_cons.mp h with rfl | hmem
      · simp [dictionaryGet]
      · have hne : entry.1 ≠ name := fun heq =>
          hnew (List.mem_map.mpr ⟨(name, val), hmem, heq.symm⟩)
        rw [dictionaryGet, List.find?_cons_of_neg (by simpa using hne)]
        exact ih hrest hmem

def setAll (d : Dictionary) (entries : Dictionary) : Dictionary :=
  entries.foldl (fun d entry => dictionarySet d entry.1 entry.2) d

theorem dictionaryGet_setAll (name : List Byte) (entries : Dictionary) : ∀ d : Dictionary,
    (∀ val, dictionaryGet (setAll d entries) name = some val →
      (name, val) ∈ entries ∨ dictionaryGet d name = some val) ∧
    ((∃ val, (name, val) ∈ entries) ∨ (dictionaryGet d name).isSome →
      (dictionaryGet (setAll d entries) name).isSome) := by
  induction entries with
  | nil => exact fun d => ⟨fun _ => .inr, fun h => h.resolve_left fun ⟨_, hmem⟩ => nomatch hmem⟩
  | cons entry entries ih =>
      intro d
      obtain ⟨hfrom, hstays⟩ := ih (dictionarySet d entry.1 entry.2)
      constructor
      · intro val h
        rcases hfrom val h with hmem | hget
        · exact .inl (List.mem_cons_of_mem _ hmem)
        · by_cases hname : name = entry.1
          · rw [hname, dictionaryGet_set_self] at hget
            refine .inl (List.mem_cons.mpr (.inl ?_))
            rw [hname, ← Option.some.inj hget]
          · rw [dictionaryGet_set_of_ne _ hname] at hget
            exact .inr hget
      · rintro (⟨val, hmem⟩ | hsome)
        · rcases List.mem_cons.mp hmem with rfl | hmem
          · exact hstays (.inr (by rw [dictionaryGet_set_self]; rfl))
          · exact hstays (.inl ⟨val, hmem⟩)
        · refine hstays (.inr ?_)
          by_cases hname : name = entry.1
          · rw [hname, dictionaryGet_set_self]
            rfl
          · rwa [dictionaryGet_set_of_ne _ hname]

def lastGiven (given : Dictionary) (name : List Byte) : Option (Option (List Byte)) :=
  (given.reverse.find? (·.1 = name)).map (·.2)

theorem dictionaryGet_setAll_eq (name : List Byte) (entries : Dictionary) : ∀ d : Dictionary,
    dictionaryGet (setAll d entries) name = (lastGiven entries name).or (dictionaryGet d name) := by
  induction entries with
  | nil => exact fun _ => rfl
  | cons entry entries ih =>
      intro d
      have hset : dictionaryGet (dictionarySet d entry.1 entry.2) name =
          if entry.1 = name then some entry.2 else dictionaryGet d name := by
        split
        next heq => rw [← heq, dictionaryGet_set_self]
        next hne => exact dictionaryGet_set_of_ne _ (Ne.symm hne) d
      have hlast : lastGiven (entry :: entries) name =
          (lastGiven entries name).or (if entry.1 = name then some entry.2 else none) := by
        rw [lastGiven, lastGiven, List.reverse_cons, List.find?_append, List.find?_singleton, Option.map_or]
        congr 1
        by_cases heq : entry.1 = name <;> simp [heq]
      show dictionaryGet (setAll (dictionarySet d entry.1 entry.2) entries) name = _
      rw [ih, hset, hlast, Option.or_assoc]
      congr 1
      split <;> rfl

theorem dictionaryGet_of_entries {entries : Dictionary} (hnodup : (d.map (·.1)).Nodup)
    (hmem : ∀ entry, entry ∈ entries ↔ entry ∈ d) (name : List Byte) :
    dictionaryGet (setAll [] entries) name = dictionaryGet d name := by
  cases hget : dictionaryGet (setAll [] entries) name with
  | some val =>
      have hentry := ((dictionaryGet_setAll name entries []).1 val hget).resolve_right fun h => nomatch h
      exact (dictionaryGet_of_mem hnodup ((hmem _).mp hentry)).symm
  | none =>
      cases hd : dictionaryGet d name with
      | none => rfl
      | some val =>
          have hsome := (dictionaryGet_setAll name entries []).2
            (.inl ⟨val, (hmem _).mpr (mem_of_dictionaryGet hd)⟩)
          rw [hget] at hsome
          cases hsome

end Fl2440.Ini
