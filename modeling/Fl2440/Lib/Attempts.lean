import Mathlib.Data.List.Nodup

/-! Trying the members of a list one after another until so many of the tries
have succeeded. -/
namespace Fl2440.Lib

/-- The members tried, up to the `want`-th success. -/
def attempts (ok : α → Bool) : Nat → List α → List α
  | 0, _ => []
  | _ + 1, [] => []
  | want + 1, a :: list => a :: attempts ok (if ok a then want else want + 1) list

variable {ok : α → Bool}

@[simp] theorem attempts_zero (list : List α) : attempts ok 0 list = [] := by
  cases list <;> rfl

theorem attempts_initial (want : Nat) (list : List α) : attempts ok want list <+: list := by
  induction list generalizing want with
  | nil => cases want <;> exact List.prefix_rfl
  | cons a list ih =>
      cases want with
      | zero => exact List.nil_prefix
      | succ want => exact List.prefix_cons_inj a |>.mpr (ih _)

theorem attempts_filter (want : Nat) (list : List α) :
    (attempts ok want list).filter ok = (list.filter ok).take want := by
  induction list generalizing want with
  | nil => cases want <;> rfl
  | cons a list ih =>
      cases want with
      | zero => simp
      | succ want =>
          rw [attempts, List.filter_cons, List.filter_cons]
          cases h : ok a <;> simp [ih]

theorem attempts_range' (ok : Nat → Bool) (want a n : Nat) :
    ∃ m ≤ n, attempts ok want (List.range' a n) = List.range' a m := by
  have hprefix : attempts ok want (List.range' a n) <+: List.range' a n := attempts_initial _ _
  have hm := hprefix.length_le
  rw [List.length_range'] at hm
  refine ⟨_, hm, (List.prefix_iff_eq_take.mp hprefix).trans ?_⟩
  generalize (attempts ok want (List.range' a n)).length = m at hm ⊢
  rw [show n = m + (n - m) by omega, ← List.range'_append_1, List.take_left' List.length_range']

theorem attempts_nodup {want : Nat} {list : List α} (h : list.Nodup) : (attempts ok want list).Nodup :=
  h.sublist (attempts_initial want list).sublist

theorem getElem_mem_attempts {want j : Nat} {list : List α} (hnodup : list.Nodup) (hj : j < list.length) :
    list[j] ∈ attempts ok want list ↔ ((list.take j).filter ok).length < want := by
  induction list generalizing want j with
  | nil => simp at hj
  | cons a list ih =>
      rw [List.nodup_cons] at hnodup
      cases want with
      | zero => simp
      | succ want =>
          cases j with
          | zero => simp [attempts]
          | succ j =>
              have hj : j < list.length := Nat.lt_of_succ_lt_succ hj
              have hne : list[j] ≠ a := fun he => hnodup.1 (he ▸ List.getElem_mem hj)
              rw [List.getElem_cons_succ, attempts, List.mem_cons, or_iff_right hne, ih hnodup.2 hj,
                List.take_succ_cons, List.filter_cons]
              cases ok a <;> simp

end Fl2440.Lib
