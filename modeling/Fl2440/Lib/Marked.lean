import Mathlib.Data.Finset.Card

/-! A list that keeps track of the objects carrying some mark. The mark stands
in the object and the list elsewhere, so the two can drift apart; `Marked` is the
half that keeps the list free of strangers, `Holds` adds that nothing is missing. -/
namespace Fl2440.Lib

/-- The list has only marked objects, each once. -/
structure Marked (list : List α) (mark : α → Prop) : Prop where
  nodup : list.Nodup
  marked : ∀ a ∈ list, mark a

/-- The list has exactly the marked objects, each once. -/
structure Holds (list : List α) (mark : α → Prop) : Prop extends Marked list mark where
  complete : ∀ a, mark a → a ∈ list

namespace Marked

theorem nil (mark : α → Prop) : Marked [] mark := ⟨List.nodup_nil, by simp⟩

theorem mono {list : List α} {mark mark' : α → Prop} (h : Marked list mark)
    (hsub : ∀ a ∈ list, mark a → mark' a) : Marked list mark' :=
  ⟨h.nodup, fun a ha => hsub a ha (h.marked a ha)⟩

theorem append {list : List α} {mark mark' : α → Prop} {a : α} (h : Marked list mark)
    (hnew : a ∉ list) (ha : mark' a) (hsub : ∀ b ∈ list, mark b → mark' b) :
    Marked (list ++ [a]) mark' := by
  refine ⟨?_, fun b hb => ?_⟩
  · rw [List.nodup_append_comm]
    exact List.nodup_cons.mpr ⟨by simpa using hnew, h.nodup⟩
  · rcases List.mem_append.mp hb with hb | hb
    · exact hsub b hb (h.marked b hb)
    · rwa [List.mem_singleton.mp hb]

theorem erase [DecidableEq α] {list : List α} {mark mark' : α → Prop} {a : α}
    (h : Marked list mark) (hsub : ∀ b, b ≠ a → mark b → mark' b) :
    Marked (list.erase a) mark' := by
  refine ⟨h.nodup.erase a, fun b hb => ?_⟩
  obtain ⟨hne, hmem⟩ := h.nodup.mem_erase_iff.mp hb
  exact hsub b hne (h.marked b hmem)

theorem tail {a : α} {list : List α} {mark mark' : α → Prop} (h : Marked (a :: list) mark)
    (hsub : ∀ b, b ≠ a → mark b → mark' b) : Marked list mark' := by
  obtain ⟨hnew, hnodup⟩ := List.nodup_cons.mp h.nodup
  refine ⟨hnodup, fun b hb => hsub b ?_ (h.marked b (List.mem_cons_of_mem a hb))⟩
  rintro rfl
  exact hnew hb

theorem length_le_card [DecidableEq α] {list : List α} {mark : α → Prop} (h : Marked list mark)
    {s : Finset α} (hsub : ∀ a, mark a → a ∈ s) : list.length ≤ s.card := by
  rw [← List.toFinset_card_of_nodup h.nodup]
  exact Finset.card_le_card fun a ha => hsub a (h.marked a (List.mem_toFinset.mp ha))

theorem length_lt_card [DecidableEq α] {list : List α} {mark : α → Prop} (h : Marked list mark)
    {s : Finset α} (hsub : ∀ a, mark a → a ∈ s) {a : α} (ha : a ∈ s) (hfree : ¬ mark a) :
    list.length < s.card := by
  have hle := h.length_le_card (s := s.erase a) fun b hb =>
    Finset.mem_erase.mpr ⟨fun heq => hfree (heq ▸ hb), hsub b hb⟩
  rw [Finset.card_erase_of_mem ha] at hle
  have hpos := Finset.card_pos.mpr ⟨a, ha⟩
  omega

end Marked

namespace Holds

theorem congr {list : List α} {mark mark' : α → Prop} (h : Holds list mark)
    (hmark : ∀ a, mark' a ↔ mark a) : Holds list mark' :=
  ⟨h.toMarked.mono fun a _ => (hmark a).mpr, fun a ha => h.complete a ((hmark a).mp ha)⟩

theorem append {list : List α} {mark mark' : α → Prop} {a : α} (h : Holds list mark)
    (hnew : ¬ mark a) (hmark : ∀ b, mark' b ↔ b = a ∨ mark b) : Holds (list ++ [a]) mark' := by
  refine ⟨h.toMarked.append (fun hmem => hnew (h.marked a hmem)) ((hmark a).mpr (Or.inl rfl))
    fun b _ hb => (hmark b).mpr (Or.inr hb), fun b hb => ?_⟩
  rcases (hmark b).mp hb with rfl | hold
  · exact List.mem_append_right list (List.mem_singleton_self b)
  · exact List.mem_append_left [a] (h.complete b hold)

theorem erase [DecidableEq α] {list : List α} {mark mark' : α → Prop} {a : α}
    (h : Holds list mark) (hmark : ∀ b, mark' b ↔ b ≠ a ∧ mark b) :
    Holds (list.erase a) mark' := by
  refine ⟨h.toMarked.erase fun b hne hb => (hmark b).mpr ⟨hne, hb⟩, fun b hb => ?_⟩
  obtain ⟨hne, hold⟩ := (hmark b).mp hb
  exact (h.nodup.mem_erase_iff).mpr ⟨hne, h.complete b hold⟩

end Holds

end Fl2440.Lib
