import Mathlib.Logic.Basic

/-! Programs that can go wrong, and runs of a step function made of them. Two
kinds of statement are kept apart: what holds when a program returns
(`x = .ok a → …`), and which faults it can end in (`FaultsOnly`). -/
namespace Fl2440.Lib

/-- The accesses that a C program has no meaning for. -/
inductive Fault where
  | null
  | freed
  | bounds
deriving DecidableEq, Repr

@[simp] theorem ok_bind (a : α) (f : α → Except ε β) : (Except.ok a >>= f) = f a := rfl

theorem bind_eq_ok_iff {x : Except ε α} {f : α → Except ε β} {b : β} :
    (x >>= f) = .ok b ↔ ∃ a, x = .ok a ∧ f a = .ok b := by
  cases x <;> simp [bind, Except.bind]

theorem map_eq_ok_iff {x : Except ε α} {f : α → β} {b : β} :
    f <$> x = .ok b ↔ ∃ a, x = .ok a ∧ f a = b := by
  cases x <;> simp [Functor.map, Except.map]

theorem exists_bind_ok_iff {x : Except ε α} {f : α → Except ε β} (h : ∀ a, ∃ b, f a = .ok b) :
    (∃ b, (x >>= f) = .ok b) ↔ ∃ a, x = .ok a := by
  constructor
  · rintro ⟨b, hb⟩
    obtain ⟨a, ha, -⟩ := bind_eq_ok_iff.mp hb
    exact ⟨a, ha⟩
  · rintro ⟨a, ha⟩
    obtain ⟨b, hb⟩ := h a
    exact ⟨b, bind_eq_ok_iff.mpr ⟨a, ha, hb⟩⟩

/-- The program returns, or stops with one of these faults. -/
def FaultsOnly (allowed : ε → Prop) (x : Except ε α) : Prop := ∀ e, x = .error e → allowed e

namespace FaultsOnly

theorem ok (allowed : ε → Prop) (a : α) : FaultsOnly allowed (.ok a : Except ε α) :=
  fun _ h => nomatch h

theorem pure (allowed : ε → Prop) (a : α) : FaultsOnly allowed (Pure.pure a : Except ε α) :=
  FaultsOnly.ok allowed a

theorem error {allowed : ε → Prop} {e : ε} (h : allowed e) :
    FaultsOnly allowed (.error e : Except ε α) := by
  intro e' he'
  cases he'
  exact h

theorem bind {allowed : ε → Prop} {x : Except ε α} {f : α → Except ε β}
    (hx : FaultsOnly allowed x) (hf : ∀ a, x = .ok a → FaultsOnly allowed (f a)) :
    FaultsOnly allowed (x >>= f) := by
  cases x with
  | error e => exact .error (hx e rfl)
  | ok a => exact hf a rfl

theorem map {allowed : ε → Prop} {x : Except ε α} (h : FaultsOnly allowed x) (f : α → β) :
    FaultsOnly allowed (f <$> x) := by
  cases x with
  | error e => exact .error (h e rfl)
  | ok a => exact .ok allowed (f a)

theorem exists_ok {x : Except ε α} (h : FaultsOnly (fun _ => False) x) : ∃ a, x = .ok a := by
  cases x with
  | error e => exact absurd (h e rfl) id
  | ok a => exact ⟨a, rfl⟩

end FaultsOnly

theorem foldlM_preserves {f : σ → α → Except ε σ} {P : σ → Prop} :
    ∀ {list : List α} {s t : σ}, (∀ s a t, a ∈ list → P s → f s a = .ok t → P t) → P s →
      list.foldlM f s = .ok t → P t
  | [], s, t, _, hs, h => by cases h; exact hs
  | a :: list, s, u, hbody, hs, h => by
      obtain ⟨t, ht, hu⟩ := bind_eq_ok_iff.mp h
      exact foldlM_preserves (fun s b t hb => hbody s b t (List.mem_cons_of_mem a hb))
        (hbody s a t List.mem_cons_self hs ht) hu

theorem foldlM_faultsOnly {f : σ → α → Except ε σ} {P : σ → Prop} {allowed : ε → Prop} :
    ∀ {list : List α} {s : σ}, (∀ s a t, a ∈ list → P s → f s a = .ok t → P t) →
      (∀ s a, a ∈ list → P s → FaultsOnly allowed (f s a)) → P s →
      FaultsOnly allowed (list.foldlM f s)
  | [], s, _, _, _ => .pure allowed s
  | a :: list, s, hbody, hfault, hs => by
      refine (hfault s a List.mem_cons_self hs).bind fun t ht => ?_
      exact foldlM_faultsOnly (fun s b t hb => hbody s b t (List.mem_cons_of_mem a hb))
        (fun s b hb => hfault s b (List.mem_cons_of_mem a hb))
        (hbody s a t List.mem_cons_self hs ht)

theorem foldlM_congr {f g : σ → α → Except ε σ} :
    ∀ {list : List α} {s : σ}, (∀ a ∈ list, ∀ s, f s a = g s a) → list.foldlM f s = list.foldlM g s
  | [], _, _ => rfl
  | a :: list, s, h => by
      rw [List.foldlM_cons, List.foldlM_cons, h a List.mem_cons_self]
      exact congrArg _ (funext fun t => foldlM_congr fun b hb => h b (List.mem_cons_of_mem a hb))

theorem foldlM_ok_iff {f : σ → α → Except ε σ} {ok : α → Prop} (h : ∀ s a, (∃ t, f s a = .ok t) ↔ ok a) :
    ∀ {list : List α} {s : σ}, (∃ t, list.foldlM f s = .ok t) ↔ ∀ a ∈ list, ok a
  | [], s => iff_of_true ⟨s, rfl⟩ fun _ hmem => nomatch hmem
  | a :: list, s => by
      rw [List.foldlM_cons, List.forall_mem_cons]
      constructor
      · rintro ⟨u, hu⟩
        obtain ⟨t, ht, hu⟩ := bind_eq_ok_iff.mp hu
        exact ⟨(h s a).mp ⟨t, ht⟩, (foldlM_ok_iff h).mp ⟨u, hu⟩⟩
      · rintro ⟨hfirst, hlater⟩
        obtain ⟨t, ht⟩ := (h s a).mpr hfirst
        rw [ht]
        exact (foldlM_ok_iff h).mpr hlater

theorem foldlM_const {f : σ → α → Except ε σ} {s : σ} :
    ∀ {list : List α}, (∀ a ∈ list, f s a = .ok s) → list.foldlM f s = .ok s
  | [], _ => rfl
  | a :: list, h => by
      rw [List.foldlM_cons, h a List.mem_cons_self, ok_bind]
      exact foldlM_const fun b hb => h b (List.mem_cons_of_mem a hb)

theorem foldlM_filter_of_skip {f : σ → α → Except ε σ} {keep : α → Bool} {list : List α}
    (h : ∀ a ∈ list, keep a = false → ∀ s, f s a = .ok s) (s : σ) :
    (list.filter keep).foldlM f s = list.foldlM f s := by
  induction list generalizing s with
  | nil => rfl
  | cons a list ih =>
      have hlist := ih fun b hb => h b (List.mem_cons_of_mem a hb)
      cases hkeep : keep a with
      | true =>
          rw [List.filter_cons_of_pos hkeep, List.foldlM_cons, List.foldlM_cons]
          exact congrArg _ (funext hlist)
      | false =>
          rw [List.filter_cons_of_neg (by simp [hkeep]), List.foldlM_cons,
            h a List.mem_cons_self hkeep, ok_bind, hlist]

def exec (step : σ → α → Except ε σ) : σ → List α → Except ε σ
  | s, [] => .ok s
  | s, a :: labels => step s a >>= fun t => exec step t labels

/-- Every step of the run meets `ok` in the state it is taken from. -/
def Along (step : σ → α → Except ε σ) (ok : σ → α → Prop) : σ → List α → Prop
  | _, [] => True
  | s, a :: labels => ok s a ∧ ∀ t, step s a = .ok t → Along step ok t labels

instance Along.decidable (step : σ → α → Except ε σ) (ok : σ → α → Prop) [∀ s a, Decidable (ok s a)] :
    ∀ (labels : List α) (s : σ), Decidable (Along step ok s labels)
  | [], _ => .isTrue trivial
  | a :: labels, s =>
      match h : step s a with
      | .ok t =>
          have := Along.decidable step ok labels t
          decidable_of_iff (ok s a ∧ Along step ok t labels)
            (and_congr_right fun _ => ⟨fun along _ ht' => Except.ok.inj (h.symm.trans ht') ▸ along,
              fun along => along t h⟩)
      | .error _ =>
          decidable_of_iff (ok s a) ⟨fun hok => ⟨hok, fun _ ht' => nomatch h.symm.trans ht'⟩, And.left⟩

@[simp] theorem along_nil (step : σ → α → Except ε σ) (ok : σ → α → Prop) (s : σ) :
    Along step ok s [] := trivial

theorem foldlM_eq_exec (step : σ → α → Except ε σ) (s : σ) (labels : List α) :
    labels.foldlM step s = exec step s labels := by
  induction labels generalizing s with
  | nil => rfl
  | cons a labels ih => exact congrArg (step s a >>= ·) (funext ih)

theorem exec_cons_iff {step : σ → α → Except ε σ} {s u : σ} {a : α} {labels : List α} :
    exec step s (a :: labels) = .ok u ↔ ∃ t, step s a = .ok t ∧ exec step t labels = .ok u :=
  bind_eq_ok_iff

theorem exec_append {step : σ → α → Except ε σ} {t : σ} {second : List α} :
    ∀ {first : List α} {s : σ}, exec step s first = .ok t → exec step s (first ++ second) = exec step t second
  | [], _, h => by cases h; rfl
  | _ :: _, _, h => by
      obtain ⟨t', ht', h'⟩ := exec_cons_iff.mp h
      rw [List.cons_append, exec, ht']
      exact exec_append h'

theorem Along.of_forall {step : σ → α → Except ε σ} {ok : σ → α → Prop} (h : ∀ s a, ok s a) :
    ∀ (labels : List α) (s : σ), Along step ok s labels
  | [], _ => trivial
  | a :: labels, s => ⟨h s a, fun t _ => Along.of_forall h labels t⟩

theorem Along.and {step : σ → α → Except ε σ} {ok ok' : σ → α → Prop} :
    ∀ {labels : List α} {s : σ}, Along step ok s labels → Along step ok' s labels →
      Along step (fun s a => ok s a ∧ ok' s a) s labels
  | [], _, _, _ => trivial
  | _ :: _, _, along, along' =>
      ⟨⟨along.1, along'.1⟩, fun t ht => (along.2 t ht).and (along'.2 t ht)⟩

theorem Along.later {step : σ → α → Except ε σ} {ok : σ → α → Prop} {t : σ} {second : List α} :
    ∀ {first : List α} {s : σ}, Along step ok s (first ++ second) → exec step s first = .ok t →
      Along step ok t second
  | [], _, along, h => by cases h; exact along
  | _ :: _, _, along, h => by
      obtain ⟨t', ht', h'⟩ := exec_cons_iff.mp h
      exact (along.2 t' ht').later h'

theorem along_iff_along {step : σ → α → Except ε σ} {ok ok' : σ → α → Prop} {Inv : σ → Prop}
    (keeps : ∀ s a t, Inv s → step s a = .ok t → Inv t) (agree : ∀ s a, Inv s → (ok s a ↔ ok' s a)) :
    ∀ {labels : List α} {s : σ}, Inv s → (Along step ok s labels ↔ Along step ok' s labels)
  | [], _, _ => Iff.rfl
  | a :: _, s, hs => and_congr (agree s a hs) <| forall_congr' fun t =>
      imp_congr_right fun ht => along_iff_along keeps agree (keeps s a t hs ht)

/-- A property that each admissible step preserves holds wherever the run gets. -/
theorem exec_preserves {step : σ → α → Except ε σ} {ok : σ → α → Prop} {P : σ → Prop}
    (hstep : ∀ s a t, ok s a → P s → step s a = .ok t → P t) :
    ∀ {labels : List α} {s u : σ}, P s → Along step ok s labels →
      exec step s labels = .ok u → P u
  | [], s, u, hs, _, h => by cases h; exact hs
  | a :: labels, s, u, hs, along, h => by
      obtain ⟨t, ht, hu⟩ := exec_cons_iff.mp h
      exact exec_preserves hstep (hstep s a t along.1 hs ht) (along.2 t ht) hu

/-- Where the steps of one machine follow those of another, its runs follow the other's runs. -/
theorem exec_simulates {step : σ → α → Except ε σ} {spec : τ → α → Except ε' τ} {ok : τ → α → Prop}
    {R : σ → τ → Prop} (hstep : ∀ s q a, R s q → ok q a →
      ∃ s' q', step s a = .ok s' ∧ spec q a = .ok q' ∧ R s' q') :
    ∀ {labels : List α} {s : σ} {q : τ}, R s q → Along spec ok q labels →
      ∃ s' q', exec step s labels = .ok s' ∧ exec spec q labels = .ok q' ∧ R s' q'
  | [], s, q, h, _ => ⟨s, q, rfl, rfl, h⟩
  | a :: labels, s, q, h, along => by
      obtain ⟨s', q', hs, hq, h'⟩ := hstep s q a h along.1
      obtain ⟨s'', q'', hs', hq', h''⟩ := exec_simulates hstep h' (along.2 q' hq)
      exact ⟨s'', q'', exec_cons_iff.mpr ⟨s', hs, hs'⟩, exec_cons_iff.mpr ⟨q', hq, hq'⟩, h''⟩

theorem exec_faultsOnly {step : σ → α → Except ε σ} {ok : σ → α → Prop} {P : σ → Prop}
    {allowed : ε → Prop} (hstep : ∀ s a t, ok s a → P s → step s a = .ok t → P t)
    (hfault : ∀ s a, ok s a → P s → FaultsOnly allowed (step s a)) :
    ∀ {labels : List α} {s : σ}, P s → Along step ok s labels →
      FaultsOnly allowed (exec step s labels)
  | [], s, _, _ => .ok allowed s
  | a :: labels, s, hs, along => by
      refine (hfault s a along.1 hs).bind fun t ht => ?_
      exact exec_faultsOnly hstep hfault (hstep s a t along.1 hs ht) (along.2 t ht)

theorem exec_total {step : σ → α → Except ε σ} {P : σ → Prop}
    (hstep : ∀ s a, P s → ∃ t, step s a = .ok t ∧ P t) :
    ∀ {s : σ}, P s → ∀ labels : List α, ∃ u, exec step s labels = .ok u ∧ P u
  | s, hs, [] => ⟨s, rfl, hs⟩
  | s, hs, a :: labels => by
      obtain ⟨t, ht, hPt⟩ := hstep s a hs
      obtain ⟨u, hu, hPu⟩ := exec_total hstep hPt labels
      exact ⟨u, exec_cons_iff.mpr ⟨t, ht, hu⟩, hPu⟩

/-- A mark that stays, and that exactly the steps without the condition set. -/
theorem marked_iff_along {step : σ → α → Except ε σ} {ok : σ → α → Prop} {Inv Mark : σ → Prop}
    (keeps : ∀ s a t, Inv s → step s a = .ok t → Inv t)
    (marks : ∀ s a t, Inv s → step s a = .ok t → (Mark t ↔ Mark s ∨ ¬ ok s a)) :
    ∀ {labels : List α} {s u : σ}, Inv s → exec step s labels = .ok u →
      (Mark u ↔ Mark s ∨ ¬ Along step ok s labels)
  | [], s, u, _, h => by
      cases h
      exact ⟨Or.inl, fun hmark => hmark.resolve_right fun hnot => hnot trivial⟩
  | a :: labels, s, u, hs, h => by
      obtain ⟨t, ht, hu⟩ := exec_cons_iff.mp h
      have hlater := marked_iff_along keeps marks (keeps s a t hs ht) hu
      have halong : Along step ok s (a :: labels) ↔ ok s a ∧ Along step ok t labels :=
        and_congr_right fun _ => ⟨fun along => along t ht, fun along t' ht' =>
          Except.ok.inj (ht.symm.trans ht') ▸ along⟩
      rw [hlater, marks s a t hs ht, halong, Classical.not_and_iff_not_or_not, or_assoc]

def Always (step : σ → α → Except ε σ) (P : σ → Prop) : σ → List α → Prop
  | s, [] => P s
  | s, a :: labels => P s ∧ ∀ t, step s a = .ok t → Always step P t labels

instance Always.decidable (step : σ → α → Except ε σ) (P : σ → Prop) [∀ s, Decidable (P s)] :
    ∀ (labels : List α) (s : σ), Decidable (Always step P s labels)
  | [], s => inferInstanceAs (Decidable (P s))
  | a :: labels, s =>
      match h : step s a with
      | .ok t =>
          have := Always.decidable step P labels t
          decidable_of_iff (P s ∧ Always step P t labels)
            (and_congr_right fun _ => ⟨fun always _ ht' => Except.ok.inj (h.symm.trans ht') ▸ always,
              fun always => always t h⟩)
      | .error _ =>
          decidable_of_iff (P s) ⟨fun hs => ⟨hs, fun _ ht' => nomatch h.symm.trans ht'⟩, And.left⟩

theorem Always.start {step : σ → α → Except ε σ} {P : σ → Prop} {s : σ} {labels : List α}
    (h : Always step P s labels) : P s := by
  cases labels with
  | nil => exact h
  | cons a labels => exact h.1

theorem Always.last {step : σ → α → Except ε σ} {P : σ → Prop} {u : σ} :
    ∀ {labels : List α} {s : σ}, Always step P s labels → exec step s labels = .ok u → P u
  | [], _, always, h => by cases h; exact always
  | _ :: _, _, always, h => by
      obtain ⟨t, ht, hu⟩ := exec_cons_iff.mp h
      exact (always.2 t ht).last hu

theorem Always.of_along {step : σ → α → Except ε σ} {ok : σ → α → Prop} {P Inv : σ → Prop}
    (holds : ∀ s, Inv s → P s) (keeps : ∀ s a t, ok s a → Inv s → step s a = .ok t → Inv t) :
    ∀ {labels : List α} {s : σ}, Inv s → Along step ok s labels → Always step P s labels
  | [], s, hs, _ => holds s hs
  | a :: _, s, hs, along => ⟨holds s hs, fun t ht =>
      Always.of_along holds keeps (keeps s a t along.1 hs ht) (along.2 t ht)⟩

/-- Steps that meet the condition keep the invariant and do not go wrong; every other step
goes wrong or breaks the property at once. Then the condition is exact. -/
theorem safe_iff_along {step : σ → α → Except ε σ} {ok : σ → α → Prop} {P Inv : σ → Prop}
    {allowed : ε → Prop} (holds : ∀ s, Inv s → P s)
    (keeps : ∀ s a t, Inv s → ok s a → step s a = .ok t → Inv t)
    (faults : ∀ s a, Inv s → ok s a → FaultsOnly allowed (step s a))
    (breaks : ∀ s a, Inv s → ¬ ok s a →
      (∃ t, step s a = .ok t ∧ ¬ P t) ∨ ∃ e, step s a = .error e ∧ ¬ allowed e) :
    ∀ {labels : List α} {s : σ}, Inv s →
      (Always step P s labels ∧ FaultsOnly allowed (exec step s labels) ↔ Along step ok s labels)
  | [], s, hs => iff_of_true ⟨holds s hs, .ok allowed s⟩ trivial
  | a :: labels, s, hs => by
      have hlater : ∀ t, ok s a → step s a = .ok t → (Always step P t labels ∧
          FaultsOnly allowed (exec step t labels) ↔ Along step ok t labels) := fun t hok ht =>
        safe_iff_along holds keeps faults breaks (keeps s a t hs hok ht)
      constructor
      · rintro ⟨always, safe⟩
        have hok : ok s a := Classical.byContradiction fun hbad => by
          rcases breaks s a hs hbad with ⟨t, ht, hP⟩ | ⟨e, he, hallowed⟩
          · exact hP (always.2 t ht).start
          · exact hallowed (safe e (by rw [exec, he]; rfl))
        refine ⟨hok, fun t ht => (hlater t hok ht).mp ⟨always.2 t ht, fun e he => safe e ?_⟩⟩
        rw [exec, ht]
        exact he
      · rintro ⟨hok, along⟩
        refine ⟨⟨holds s hs, fun t ht => ((hlater t hok ht).mpr (along t ht)).1⟩, ?_⟩
        exact (faults s a hs hok).bind fun t ht => ((hlater t hok ht).mpr (along t ht)).2

theorem always_iff_along {step : σ → α → Except ε σ} {ok : σ → α → Prop} {P Inv : σ → Prop}
    (holds : ∀ s, Inv s → P s) (keeps : ∀ s a t, Inv s → ok s a → step s a = .ok t → Inv t)
    (breaks : ∀ s a, Inv s → ¬ ok s a → ∃ t, step s a = .ok t ∧ ¬ P t)
    {labels : List α} {s : σ} (hs : Inv s) : Always step P s labels ↔ Along step ok s labels := by
  have hsafe : Always step P s labels ∧ FaultsOnly (fun _ => True) (exec step s labels) ↔
      Along step ok s labels :=
    safe_iff_along holds keeps (fun _ _ _ _ _ _ => trivial) (fun s a hs hok => .inl (breaks s a hs hok)) hs
  rw [← hsafe]
  exact (and_iff_left fun _ _ => trivial).symm

end Fl2440.Lib
