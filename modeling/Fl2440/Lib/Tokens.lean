import Mathlib.Data.List.TakeWhile

/-! The tokens of a text: what stands between separators, where anything stands there. -/
namespace Fl2440.Lib

variable {α : Type}

/-- The first token, and what stands behind the separator that ends it. -/
def nextToken (sep : α → Bool) (text : List α) : Option (List α × List α) :=
  match text.dropWhile sep with
  | [] => none
  | a :: rest => some ((a :: rest).takeWhile (!sep ·), ((a :: rest).dropWhile (!sep ·)).tail)

def tokens (sep : α → Bool) (text : List α) : List (List α) := (text.splitOnP sep).filter (!·.isEmpty)

variable {sep : α → Bool} {text token rest : List α} {a : α}

theorem tokens_nil (sep : α → Bool) : tokens sep [] = [] := by simp [tokens]

theorem tokens_append_cons (text rest : List α) (h : sep a) :
    tokens sep (text ++ a :: rest) = tokens sep text ++ tokens sep rest := by
  simp [tokens, List.splitOnP_append_cons _ _ h]

theorem tokens_cons (rest : List α) (h : sep a) : tokens sep (a :: rest) = tokens sep rest := by
  have := tokens_append_cons [] rest h
  rwa [tokens_nil, List.nil_append, List.nil_append] at this

theorem tokens_dropWhile (sep : α → Bool) (text : List α) : tokens sep (text.dropWhile sep) = tokens sep text := by
  induction text with
  | nil => rfl
  | cons a text ih =>
      by_cases h : sep a
      · rw [List.dropWhile_cons_of_pos h, tokens_cons text h, ih]
      · rw [List.dropWhile_cons_of_neg h]

theorem tokens_single (hne : token ≠ []) (h : ∀ b ∈ token, sep b = false) : tokens sep token = [token] := by
  simp [tokens, List.splitOnP_eq_singleton h, hne]

theorem tokens_of_nextToken_none (h : nextToken sep text = none) : tokens sep text = [] := by
  unfold nextToken at h
  split at h
  next hnil => rw [← tokens_dropWhile, hnil, tokens_nil]
  next => cases h

theorem tokens_of_nextToken (h : nextToken sep text = some (token, rest)) :
    tokens sep text = token :: tokens sep rest := by
  unfold nextToken at h
  split at h
  next => cases h
  next a left hleft =>
    cases h
    have ha : sep a = false := by
      have := List.head_dropWhile_not sep (l := text) (by simp [hleft])
      simpa [hleft] using this
    have hplain : ∀ b ∈ (a :: left).takeWhile (!sep ·), sep b = false := by
      intro b hb
      simpa using List.mem_takeWhile_imp hb
    have hne : (a :: left).takeWhile (!sep ·) ≠ [] := by
      rw [List.takeWhile_cons_of_pos (by simp [ha])]
      exact List.cons_ne_nil _ _
    have hsplit := List.takeWhile_append_dropWhile (p := (!sep ·)) (l := a :: left)
    rw [← tokens_dropWhile, hleft]
    conv => lhs; rw [← hsplit]
    cases hend : (a :: left).dropWhile (!sep ·) with
    | nil => rw [List.append_nil, tokens_single hne hplain, List.tail_nil, tokens_nil]
    | cons b later =>
        have hb : sep b := by
          have := List.head_dropWhile_not (!sep ·) (l := a :: left) (by simp [hend])
          simpa [hend] using this
        rw [tokens_append_cons _ _ hb, tokens_single hne hplain, List.tail_cons, List.singleton_append]

theorem tokens_append (rest : List α) (hne : token ≠ []) (h : ∀ b ∈ token, sep b = false) :
    tokens sep (token ++ rest) =
      (token ++ rest.takeWhile (!sep ·)) :: tokens sep (rest.dropWhile (!sep ·)).tail := by
  obtain ⟨a, token, rfl⟩ := List.exists_cons_of_ne_nil hne
  have ha : sep a = false := h a List.mem_cons_self
  have hinside : ∀ b ∈ a :: token, (!sep b) = true := by simpa using h
  apply tokens_of_nextToken
  rw [nextToken, List.cons_append, List.dropWhile_cons_of_neg (by simp [ha])]
  simp only
  rw [← List.cons_append, List.takeWhile_append_of_pos hinside, List.dropWhile_append_of_pos hinside]

theorem tokens_getElem? {i : Nat} (h : [] ∉ (text.splitOnP sep).take (i + 1)) :
    (tokens sep text)[i]? = (text.splitOnP sep)[i]? := by
  unfold tokens
  generalize text.splitOnP sep = fields at h ⊢
  induction fields generalizing i with
  | nil => rfl
  | cons field fields ih =>
      rw [List.take_succ_cons, List.mem_cons, not_or] at h
      have hne : field ≠ [] := fun heq => h.1 heq.symm
      rw [List.filter_cons_of_pos (by simp [hne])]
      cases i with
      | zero => rfl
      | succ i => exact ih h.2

theorem length_tokens_le (sep : α → Bool) (text : List α) : (tokens sep text).length ≤ (text.splitOnP sep).length :=
  List.length_filter_le _ _

end Fl2440.Lib
