import Mathlib.Data.List.Infix

/-! Where a word occurs in a text. -/
namespace Fl2440.Lib

variable {α : Type} {word before : List α} {sep : α}

theorem prefix_append_cons_iff (h : sep ∉ word) (rest : List α) : word <+: before ++ sep :: rest ↔ word <+: before := by
  induction before generalizing word with
  | nil =>
      cases word with
      | nil => simp
      | cons a word =>
          have hne : a ≠ sep := fun heq => h (heq ▸ List.mem_cons_self)
          simp [List.cons_prefix_cons, hne]
  | cons b before ih =>
      cases word with
      | nil => simp
      | cons a word =>
          rw [List.cons_append, List.cons_prefix_cons, List.cons_prefix_cons, ih fun hmem => h (List.mem_cons_of_mem a hmem)]

theorem infix_append_cons_iff (h : sep ∉ word) (rest : List α) :
    word <:+: before ++ sep :: rest ↔ word <:+: before ∨ word <:+: rest := by
  induction before with
  | nil =>
      have hstart : word <+: [] ++ sep :: rest ↔ word <+: [] := prefix_append_cons_iff h rest
      rw [List.nil_append, List.infix_cons_iff, List.infix_nil]
      rw [List.nil_append, List.prefix_nil] at hstart
      rw [hstart]
  | cons b before ih =>
      have hstart : word <+: b :: before ++ sep :: rest ↔ word <+: b :: before := prefix_append_cons_iff h rest
      rw [List.cons_append, List.infix_cons_iff, List.infix_cons_iff, ih, ← or_assoc]
      rw [List.cons_append] at hstart
      rw [hstart]

theorem suffix_append_cons {left rest : List α} (h : left <:+ before ++ sep :: rest) :
    (∃ part, part <:+ before ∧ left = part ++ sep :: rest) ∨ left <:+ rest := by
  induction before with
  | nil =>
      rcases List.suffix_cons_iff.mp h with rfl | h
      · exact .inl ⟨[], List.suffix_rfl, rfl⟩
      · exact .inr h
  | cons b before ih =>
      rcases List.suffix_cons_iff.mp h with rfl | h
      · exact .inl ⟨b :: before, List.suffix_rfl, rfl⟩
      · rcases ih h with ⟨part, hpart, rfl⟩ | h
        · exact .inl ⟨part, hpart.trans (List.suffix_cons b before), rfl⟩
        · exact .inr h

theorem find?_tails_isSome [BEq α] [LawfulBEq α] {text : List α} :
    (text.tails.find? (word.isPrefixOf ·)).isSome ↔ word <:+: text := by
  rw [List.find?_isSome, List.infix_iff_prefix_suffix]
  simp only [List.mem_tails, List.isPrefixOf_iff_prefix]
  exact ⟨fun ⟨rest, hsuffix, hstart⟩ => ⟨rest, hstart, hsuffix⟩, fun ⟨rest, hstart, hsuffix⟩ => ⟨rest, hsuffix, hstart⟩⟩

theorem find?_tails_append {found : List α → Bool} {rest : List α}
    (h : ∃ left, left <:+ before ∧ found (left ++ rest)) :
    ∃ left, left <:+ before ∧ (before ++ rest).tails.find? found = some (left ++ rest) := by
  induction before with
  | nil =>
      obtain ⟨left, hleft, hfound⟩ := h
      cases List.suffix_nil.mp hleft
      refine ⟨[], List.suffix_rfl, ?_⟩
      cases rest with
      | nil => simpa using hfound
      | cons b rest => exact List.find?_cons_of_pos hfound
  | cons b before ih =>
      rw [List.cons_append, List.tails_cons]
      by_cases hhere : found (b :: (before ++ rest))
      · exact ⟨b :: before, List.suffix_rfl, List.find?_cons_of_pos hhere⟩
      · obtain ⟨left, hleft, hfound⟩ := h
        have hlater : left <:+ before := by
          rcases List.suffix_cons_iff.mp hleft with rfl | hlater
          · exact absurd hfound hhere
          · exact hlater
        obtain ⟨left', hleft', hfirst⟩ := ih ⟨left, hlater, hfound⟩
        refine ⟨left', hleft'.trans (List.suffix_cons b before), ?_⟩
        rw [List.find?_cons_of_neg hhere, hfirst]

section Separator

variable [DecidableEq α]

theorem takeWhile_append_cons (h : sep ∉ before) (rest : List α) :
    (before ++ sep :: rest).takeWhile (· ≠ sep) = before := by
  have hall : ∀ b ∈ before, decide (b ≠ sep) = true := fun b hb =>
    decide_eq_true fun heq => h (heq ▸ hb)
  rw [List.takeWhile_append_of_pos hall, List.takeWhile_cons_of_neg (by simp), List.append_nil]

theorem dropWhile_append_cons (h : sep ∉ before) (rest : List α) :
    (before ++ sep :: rest).dropWhile (· ≠ sep) = sep :: rest := by
  have hall : ∀ b ∈ before, decide (b ≠ sep) = true := fun b hb =>
    decide_eq_true fun heq => h (heq ▸ hb)
  rw [List.dropWhile_append_of_pos hall, List.dropWhile_cons_of_neg (by simp)]

end Separator

end Fl2440.Lib
