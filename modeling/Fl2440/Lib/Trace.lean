import Mathlib.Data.List.Basic
import Fl2440.Lib.Run

/-! The trace of a run: what can be seen of its steps, in order. What an event needs to
have before it is stated of every place of the trace, and is kept as the trace grows. -/
namespace Fl2440.Lib

/-- What is seen of the steps, as far as they can be taken. -/
def trace (step : σ → α → Except ε σ) (observe : σ → α → Option β) : σ → List α → List β
  | _, [] => []
  | s, a :: labels =>
      match step s a with
      | .ok t => (observe s a).toList ++ trace step observe t labels
      | .error _ => []

theorem trace_along {step : σ → α → Except ε σ} {observe : σ → α → Option β} {ok : σ → α → Prop}
    {Inv : σ → List β → Prop}
    (hstep : ∀ s past a t, ok s a → Inv s past → step s a = .ok t → Inv t (past ++ (observe s a).toList)) :
    ∀ (labels : List α) {s : σ} {past : List β}, Along step ok s labels → Inv s past →
      ∃ t, Inv t (past ++ trace step observe s labels)
  | [], s, past, _, h => ⟨s, by rwa [trace, List.append_nil]⟩
  | a :: labels, s, past, along, h => by
      rw [trace]
      split
      next t ht =>
        rw [← List.append_assoc]
        exact trace_along hstep labels (along.2 t ht) (hstep s past a t along.1 h ht)
      next => exact ⟨s, by rwa [List.append_nil]⟩

theorem trace_preserves {step : σ → α → Except ε σ} {observe : σ → α → Option β}
    {Inv : σ → List β → Prop}
    (hstep : ∀ s past a t, Inv s past → step s a = .ok t → Inv t (past ++ (observe s a).toList))
    (labels : List α) {s : σ} {past : List β} (h : Inv s past) :
    ∃ t, Inv t (past ++ trace step observe s labels) :=
  trace_along (fun s past a t (_ : True) => hstep s past a t) labels
    (Along.of_forall (fun _ _ => trivial) labels s) h

/-- Each event of the trace fits what comes before it. -/
def Follows (Q : List β → β → Prop) (trace : List β) : Prop :=
  ∀ past b future, trace = past ++ b :: future → Q past b

theorem follows_nil (Q : List β → β → Prop) : Follows Q [] := by
  intro past b future h
  cases past <;> cases h

theorem split_snoc {trace past future : List β} {a b : β} (h : trace ++ [a] = past ++ b :: future) :
    (∃ between, future = between ++ [a] ∧ trace = past ++ b :: between) ∨ a = b ∧ future = [] ∧ past = trace := by
  rcases List.eq_nil_or_concat future with rfl | ⟨between, c, rfl⟩
  · obtain ⟨rfl, hlast⟩ := List.append_inj' h rfl
    cases hlast
    exact .inr ⟨rfl, rfl, rfl⟩
  · rw [List.concat_eq_append, ← List.cons_append, ← List.append_assoc] at h
    obtain ⟨hinit, hlast⟩ := List.append_inj' h rfl
    cases hlast
    exact .inl ⟨between, List.concat_eq_append, hinit⟩

theorem Follows.snoc {Q : List β → β → Prop} {trace : List β} {b : β} (h : Follows Q trace) (hb : Q trace b) :
    Follows Q (trace ++ [b]) := by
  intro past c future heq
  rcases split_snoc heq with ⟨between, -, hinit⟩ | ⟨rfl, -, rfl⟩
  · exact h past c between hinit
  · exact hb

theorem split_earlier {past past' future future' : List β} {a b : β}
    (h : past ++ a :: future = past' ++ b :: future') (hne : a ≠ b) (hnot : a ∉ future') :
    ∃ between, past' = past ++ a :: between ∧ future = between ++ b :: future' := by
  rcases List.append_eq_append_iff.mp h with ⟨between, rfl, hfuture⟩ | ⟨between, rfl, hfuture⟩
  · cases between with
    | nil => exact absurd (List.cons.inj hfuture).1 hne
    | cons c between =>
        obtain ⟨rfl, rfl⟩ := List.cons.inj hfuture
        exact ⟨between, rfl, rfl⟩
  · have hmem : a ∈ b :: future' := hfuture ▸ List.mem_append_right _ List.mem_cons_self
    rcases List.mem_cons.mp hmem with rfl | hlater
    · exact absurd rfl hne
    · exact absurd hlater hnot

theorem exists_last {P : β → Prop} {trace : List β} (h : ∃ b ∈ trace, P b) :
    ∃ past b future, trace = past ++ b :: future ∧ P b ∧ ∀ c ∈ future, ¬ P c := by
  induction trace with
  | nil => simp at h
  | cons a trace ih =>
      by_cases hlater : ∃ b ∈ trace, P b
      · obtain ⟨past, b, future, rfl, hb, hfuture⟩ := ih hlater
        exact ⟨a :: past, b, future, rfl, hb, hfuture⟩
      · obtain ⟨b, hb, hPb⟩ := h
        rcases List.mem_cons.mp hb with rfl | hmem
        · exact ⟨[], b, trace, rfl, hPb, fun c hc hPc => hlater ⟨c, hc, hPc⟩⟩
        · exact absurd ⟨b, hmem, hPb⟩ hlater

end Fl2440.Lib
