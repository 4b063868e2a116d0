import Mathlib.Logic.Basic

/-! `while` loops. A number of rounds bounds the run, and the state that the
last round left is the result: what a loop has done so far can be stated even
where it never ends. A round of the second kind can go wrong. -/
namespace Fl2440.Lib

/-- `while (cond) body`, for at most so many rounds. -/
def whileLoop (cond : σ → Bool) (body : σ → σ) : Nat → σ → σ
  | 0, s => s
  | n + 1, s => if cond s then whileLoop cond body n (body s) else s

variable {cond : σ → Bool} {body : σ → σ} {s : σ}

@[simp] theorem whileLoop_zero : whileLoop cond body 0 s = s := rfl

theorem whileLoop_enter (h : cond s = true) (n : Nat) :
    whileLoop cond body (n + 1) s = whileLoop cond body n (body s) := by
  rw [whileLoop, if_pos h]

theorem whileLoop_done (h : cond s = false) (n : Nat) : whileLoop cond body n s = s := by
  cases n with
  | zero => rfl
  | succ n => rw [whileLoop, h]; rfl

theorem whileLoop_add (m n : Nat) :
    whileLoop cond body (m + n) s = whileLoop cond body n (whileLoop cond body m s) := by
  induction m generalizing s with
  | zero => rw [Nat.zero_add, whileLoop_zero]
  | succ m ih =>
      cases h : cond s with
      | true => rw [Nat.succ_add, whileLoop_enter h, whileLoop_enter h, ih]
      | false => rw [whileLoop_done h, whileLoop_done h, whileLoop_done h]

theorem whileLoop_succ (n : Nat) :
    whileLoop cond body (n + 1) s =
      if cond (whileLoop cond body n s) then body (whileLoop cond body n s)
      else whileLoop cond body n s := by
  rw [whileLoop_add, whileLoop, whileLoop_zero]

theorem whileLoop_map {cond' : τ → Bool} {body' : τ → τ} (f : σ → τ) (hcond : ∀ s, cond' (f s) = cond s)
    (hbody : ∀ s, f (body s) = body' (f s)) (n : Nat) (s : σ) :
    f (whileLoop cond body n s) = whileLoop cond' body' n (f s) := by
  induction n generalizing s with
  | zero => rfl
  | succ n ih =>
      cases h : cond s with
      | true => rw [whileLoop_enter h, whileLoop_enter ((hcond s).trans h), ih, hbody]
      | false => rw [whileLoop_done h, whileLoop_done ((hcond s).trans h)]

theorem whileLoop_preserves {P : σ → Prop} (hbody : ∀ s, cond s = true → P s → P (body s))
    (hs : P s) (n : Nat) : P (whileLoop cond body n s) := by
  induction n with
  | zero => exact hs
  | succ n ih =>
      rw [whileLoop_succ]
      split
      next h => exact hbody _ h ih
      next => exact ih

/-- `while (cond) body`, where the body can end the program. -/
def whileLoopE (cond : σ → Bool) (body : σ → Except ε σ) : Nat → σ → Except ε σ
  | 0, s => .ok s
  | n + 1, s => if cond s then body s >>= whileLoopE cond body n else .ok s

section Except

variable {body : σ → Except ε σ} {t : σ}

theorem whileLoopE_done (h : cond s = false) (n : Nat) : whileLoopE cond body n s = .ok s := by
  cases n with
  | zero => rfl
  | succ n => rw [whileLoopE, h]; rfl

theorem whileLoopE_enter (h : cond s = true) (hbody : body s = .ok t) (n : Nat) :
    whileLoopE cond body (n + 1) s = whileLoopE cond body n t := by
  rw [whileLoopE, if_pos h, hbody]
  rfl

theorem whileLoopE_last (h : cond s = true) (hbody : body s = .ok t) (hdone : cond t = false) (n : Nat) :
    whileLoopE cond body (n + 1) s = .ok t := by
  rw [whileLoopE_enter h hbody, whileLoopE_done hdone]

theorem whileLoopE_stages {Stage : Nat → σ → Prop} {k : Nat}
    (hstep : ∀ i s, i < k → Stage i s → cond s = true ∧ ∃ t, body s = .ok t ∧ Stage (i + 1) t)
    (hs : Stage 0 s) (n : Nat) :
    ∃ t, whileLoopE cond body (n + k) s = whileLoopE cond body n t ∧ Stage k t := by
  induction k generalizing n with
  | zero => exact ⟨s, rfl, hs⟩
  | succ k ih =>
      obtain ⟨t, hloop, ht⟩ := ih (fun i s hi => hstep i s (Nat.lt_succ_of_lt hi)) (n + 1)
      obtain ⟨hcond, u, hbody, hu⟩ := hstep k t (Nat.lt_succ_self k) ht
      refine ⟨u, ?_, hu⟩
      rw [← Nat.succ_add_eq_add_succ, hloop, whileLoopE_enter hcond hbody]

end Except

end Fl2440.Lib
