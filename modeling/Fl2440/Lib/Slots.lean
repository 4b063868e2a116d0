import Mathlib.Data.List.Perm.Basic
import Mathlib.Data.List.Nodup
import Mathlib.Logic.Function.Basic

/-! Tables of slots that hold an entry or none: what is in a table after one slot has been
filled, emptied or replaced, and the search for a free slot round the end of the table. -/
namespace Fl2440.Lib.Slots

variable {σ ε : Type} {entry : σ → Option ε} {slots : List σ} {i : Nat} {s new : σ} {e e' : ε}

def entries (entry : σ → Option ε) (slots : List σ) : List ε := slots.filterMap entry

theorem exists_append (h : slots[i]? = some s) : ∃ a b, slots = a ++ s :: b ∧ a.length = i ∧
    ∀ new, slots.set i new = a ++ new :: b := by
  obtain ⟨hi, hget⟩ := List.getElem?_eq_some_iff.mp h
  refine ⟨slots.take i, slots.drop (i + 1), ?_, List.length_take_of_le (Nat.le_of_lt hi),
    fun new => List.set_eq_take_append_cons_drop.trans (if_pos hi)⟩
  rw [← hget, List.getElem_cons_drop, List.take_append_drop]

theorem entries_fill (h : slots[i]? = some s) (hs : entry s = none) (hnew : entry new = some e) :
    (entries entry (slots.set i new)).Perm (e :: entries entry slots) := by
  obtain ⟨a, b, rfl, -, hset⟩ := exists_append h
  rw [hset, entries, entries, List.filterMap_append, List.filterMap_append, List.filterMap_cons_some hnew,
    List.filterMap_cons_none hs]
  exact List.perm_middle

theorem entries_clear (h : slots[i]? = some s) (hs : entry s = some e) (hnew : entry new = none) :
    (entries entry slots).Perm (e :: entries entry (slots.set i new)) := by
  obtain ⟨a, b, rfl, -, hset⟩ := exists_append h
  rw [hset, entries, entries, List.filterMap_append, List.filterMap_append, List.filterMap_cons_some hs,
    List.filterMap_cons_none hnew]
  exact List.perm_middle

theorem entries_replace (h : slots[i]? = some s) (hs : entry s = some e) (hnew : entry new = some e') :
    ∃ a b, entries entry slots = a ++ e :: b ∧ entries entry (slots.set i new) = a ++ e' :: b := by
  obtain ⟨a, b, rfl, -, hset⟩ := exists_append h
  refine ⟨a.filterMap entry, b.filterMap entry, ?_, ?_⟩
  · rw [entries, List.filterMap_append, List.filterMap_cons_some hs]
  · rw [hset, entries, List.filterMap_append, List.filterMap_cons_some hnew]

theorem entries_append_empty (hs : entry s = none) (n : Nat) :
    entries entry (slots ++ List.replicate n s) = entries entry slots := by
  rw [entries, List.filterMap_append, List.filterMap_replicate_of_none hs, List.append_nil, entries]

theorem mem_entries : e ∈ entries entry slots ↔ ∃ s ∈ slots, entry s = some e := List.mem_filterMap

theorem length_entries_le : (entries entry slots).length ≤ slots.length := List.length_filterMap_le ..

theorem exists_free (h : (entries entry slots).length < slots.length) :
    ∃ (j : Nat) (s : σ), slots[j]? = some s ∧ entry s = none := by
  by_contra hnone
  have hall : ∀ s ∈ slots, (entry s).isSome := by
    intro s hs
    obtain ⟨i, hi⟩ := List.mem_iff_getElem?.mp hs
    by_contra hempty
    exact hnone ⟨i, s, hi, Option.not_isSome_iff_eq_none.mp hempty⟩
  have hlength : (entries entry slots).length = slots.length := by
    rw [entries, List.filterMap_length_eq_length]
    exact hall
  omega

/-- The first free slot from `i` on, and from the first slot on behind the last one; `none` where the
search does not end. -/
def probe (entry : σ → Option ε) (slots : List σ) : Nat → Nat → Option Nat
  | 0, _ => none
  | fuel + 1, i =>
      (slots[i]?).bind fun s =>
        if (entry s).isSome then probe entry slots fuel (if i + 1 = slots.length then 0 else i + 1) else some i

theorem probe_some {fuel j : Nat} (h : probe entry slots fuel i = some j) :
    ∃ s, slots[j]? = some s ∧ entry s = none := by
  induction fuel generalizing i with
  | zero => cases h
  | succ fuel ih =>
      obtain ⟨s, hs, h⟩ := Option.bind_eq_some_iff.mp h
      by_cases hfull : (entry s).isSome
      · rw [if_pos hfull] at h
        exact ih h
      · rw [if_neg hfull] at h
        obtain rfl := Option.some.inj h
        exact ⟨s, hs, Option.not_isSome_iff_eq_none.mp hfull⟩

theorem probe_here (h : slots[i]? = some s) (hs : entry s = none) (fuel : Nat) :
    probe entry slots (fuel + 1) i = some i := by
  rw [probe, h, Option.bind_some, hs]
  rfl

theorem full_of_probe {fuel : Nat} (hi : i < slots.length) (h : probe entry slots fuel i = none) :
    ∀ k < fuel, ∃ s, slots[(i + k) % slots.length]? = some s ∧ (entry s).isSome := by
  induction fuel generalizing i with
  | zero => intro k hk; cases hk
  | succ fuel ih =>
      rw [probe, List.getElem?_eq_getElem hi, Option.bind_some] at h
      split_ifs at h with hfull hend
      · intro k hk
        cases k with
        | zero => exact ⟨_, by rw [Nat.add_zero, Nat.mod_eq_of_lt hi, List.getElem?_eq_getElem hi], hfull⟩
        | succ k =>
            have hnext := ih (i := 0) (by omega) h k (by omega)
            have hwrap : (i + (k + 1)) % slots.length = (0 + k) % slots.length := by
              rw [show i + (k + 1) = slots.length + k by omega, Nat.add_mod_left, Nat.zero_add]
            rwa [hwrap]
      · intro k hk
        cases k with
        | zero => exact ⟨_, by rw [Nat.add_zero, Nat.mod_eq_of_lt hi, List.getElem?_eq_getElem hi], hfull⟩
        | succ k =>
            have hnext := ih (i := i + 1) (by omega) h k (by omega)
            rwa [Nat.add_assoc, Nat.add_comm 1 k] at hnext

theorem probe_length (hi : i < slots.length) {j : Nat} (h : slots[j]? = some s) (hs : entry s = none) :
    ∃ k, probe entry slots slots.length i = some k := by
  by_contra hnot
  have hnone := Option.eq_none_iff_forall_ne_some.mpr fun k hk => hnot ⟨k, hk⟩
  obtain ⟨hj, -⟩ := List.getElem?_eq_some_iff.mp h
  obtain ⟨t, ht, hfull⟩ := full_of_probe hi hnone ((j + slots.length - i) % slots.length) (Nat.mod_lt _ (by omega))
  have hat : (i + (j + slots.length - i) % slots.length) % slots.length = j := by
    rw [Nat.add_mod_mod, show i + (j + slots.length - i) = j + slots.length by omega, Nat.add_mod_right,
      Nat.mod_eq_of_lt hj]
  rw [hat, h] at ht
  cases ht
  rw [hs] at hfull
  cases hfull

section Keyed

variable {κ ν : Type} {l l' : List (κ × ν)} {m : κ → Option ν} {key : κ} {val old : ν}

/-- The pairs are those of a map, each of them once. -/
structure Represents (l : List (κ × ν)) (m : κ → Option ν) : Prop where
  nodup : (l.map Prod.fst).Nodup
  mem : ∀ k v, (k, v) ∈ l ↔ m k = some v

theorem represents_nil : Represents ([] : List (κ × ν)) fun _ => none :=
  ⟨List.nodup_nil, fun _ _ => iff_of_false List.not_mem_nil nofun⟩

namespace Represents

theorem perm (h : Represents l m) (hperm : l'.Perm l) : Represents l' m :=
  ⟨(hperm.map Prod.fst).nodup_iff.mpr h.nodup, fun k v => hperm.mem_iff.trans (h.mem k v)⟩

theorem eq_none (h : Represents l m) (hkey : ∀ p ∈ l, p.1 ≠ key) : m key = none :=
  Option.eq_none_iff_forall_ne_some.mpr fun v hv => hkey _ ((h.mem key v).mpr hv) rfl

variable [DecidableEq κ]

theorem insert (h : Represents l m) (hkey : m key = none) (val : ν) :
    Represents ((key, val) :: l) (Function.update m key (some val)) := by
  have hnew : ∀ v, (key, v) ∉ l := by
    intro v hv
    rw [h.mem, hkey] at hv
    cases hv
  refine ⟨List.nodup_cons.mpr ⟨fun hmem => ?_, h.nodup⟩, fun k v => ?_⟩
  · obtain ⟨⟨k, v⟩, hv, rfl⟩ := List.mem_map.mp hmem
    exact hnew v hv
  · by_cases hk : k = key
    · subst hk
      rw [Function.update_self, List.mem_cons, or_iff_left (hnew v), Prod.mk.injEq, Option.some.injEq]
      exact ⟨fun h => h.2.symm, fun h => ⟨rfl, h.symm⟩⟩
    · rw [Function.update_of_ne hk, List.mem_cons, ← h.mem]
      exact or_iff_right fun heq => hk (Prod.mk.inj heq).1

theorem erase (h : Represents ((key, old) :: l) m) : Represents l (Function.update m key none) := by
  obtain ⟨hnew, hnodup⟩ := List.nodup_cons.mp h.nodup
  refine ⟨hnodup, fun k v => ?_⟩
  by_cases hk : k = key
  · subst hk
    rw [Function.update_self]
    exact iff_of_false (fun hv => hnew (List.mem_map.mpr ⟨_, hv, rfl⟩)) nofun
  · rw [Function.update_of_ne hk, ← h.mem, List.mem_cons]
    exact (or_iff_right fun heq => hk (Prod.mk.inj heq).1).symm

theorem replace {a b : List (κ × ν)} (h : Represents (a ++ (key, old) :: b) m) (val : ν) :
    Represents (a ++ (key, val) :: b) (Function.update m key (some val)) := by
  have hrest := (h.perm List.perm_middle.symm).erase
  have hnew := hrest.insert (Function.update_self ..) val
  rw [Function.update_idem] at hnew
  exact hnew.perm List.perm_middle

end Represents

end Keyed

end Fl2440.Lib.Slots
