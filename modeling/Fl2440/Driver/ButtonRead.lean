import Fl2440.Driver.PlatButton

/-! The word that `button_read` returns. It ORs the status of each button into the
button's bit, and a status has three values. -/
namespace Fl2440.Driver

open Fl2440.Lib

namespace ButtonDevice

variable {n : Nat}

def readWord (s : ButtonDevice n) : BitVec 32 :=
  (List.finRange n).foldl (fun word i => word ||| ((s.status i).code <<< i.val)) 0

/-- `button_read` when a signal ends the wait: nobody looks at what the wait returns. -/
def buttonReadSignalled (s : ButtonDevice n) : BitVec 32 × ButtonDevice n :=
  (readWord s, { s with ev_press := false })

def Shows (s : ButtonDevice n) (word : BitVec 32) : Prop :=
  ∀ i : Fin n, word.getLsbD i.val = true ↔ s.status i = .down

/-- What is read in this state, with a press or after a signal, has the bits of the
buttons that are down. -/
def ReadsDown (s : ButtonDevice n) : Prop :=
  (∀ nonblock word t, s.buttonRead nonblock = .ok (some word, t) → s.Shows word) ∧
    s.Shows s.buttonReadSignalled.1

/-- A button that is undecided has the next one down. -/
def NoSpill (s : ButtonDevice n) : Prop :=
  ∀ i j : Fin n, j.val = i.val + 1 → s.status i = .uncertain → s.status j = .down

instance (s : ButtonDevice n) : Decidable s.NoSpill :=
  inferInstanceAs (Decidable (∀ i j : Fin n, j.val = i.val + 1 → s.status i = .uncertain → s.status j = .down))

variable {s : ButtonDevice n}

theorem buttonRead_word {nonblock : Bool} {word : BitVec 32} {t : ButtonDevice n}
    (h : s.buttonRead nonblock = .ok (some word, t)) : word = s.readWord := by
  unfold buttonRead at h
  split_ifs at h
  · cases h
  · cases h
    rfl

theorem readsDown_iff_shows : s.ReadsDown ↔ s.Shows s.readWord := by
  constructor
  · intro h
    exact h.2
  · intro h
    refine ⟨fun nonblock word t hread => ?_, h⟩
    rwa [buttonRead_word hread]

theorem getLsbD_foldl_or (code : Fin n → BitVec 32) (list : List (Fin n)) (word : BitVec 32) (k : Nat) :
    (list.foldl (fun word i => word ||| (code i <<< i.val)) word).getLsbD k = true ↔
      word.getLsbD k = true ∨ ∃ i ∈ list, (code i <<< i.val).getLsbD k = true := by
  induction list generalizing word with
  | nil => simp
  | cons i list ih =>
      rw [List.foldl_cons, ih, BitVec.getLsbD_or, Bool.or_eq_true, or_assoc]
      simp

theorem getLsbD_code (status : ButtonStatus) (i : Nat) {k : Nat} (hk : k < 32) :
    (status.code <<< i).getLsbD k = true ↔ status = .down ∧ k = i ∨ status = .uncertain ∧ k = i + 1 := by
  have htwo : ∀ m < 32, (2 : BitVec 32).getLsbD m = decide (m = 1) := by decide
  have hone : ∀ m < 32, (1 : BitVec 32).getLsbD m = decide (m = 0) := by decide
  rw [BitVec.getLsbD_shiftLeft]
  cases status with
  | up => simp [ButtonStatus.code]
  | down =>
      rw [ButtonStatus.code, hone _ (by omega)]
      simp only [Bool.and_eq_true, decide_eq_true_eq, Bool.not_eq_true', decide_eq_false_iff_not]
      simp
      omega
  | uncertain =>
      rw [ButtonStatus.code, htwo _ (by omega)]
      simp only [Bool.and_eq_true, decide_eq_true_eq, Bool.not_eq_true', decide_eq_false_iff_not]
      simp
      omega

theorem getLsbD_readWord (hn : n ≤ 32) (j : Fin n) :
    s.readWord.getLsbD j.val = true ↔
      s.status j = .down ∨ ∃ i : Fin n, j.val = i.val + 1 ∧ s.status i = .uncertain := by
  have hj : j.val < 32 := Nat.lt_of_lt_of_le j.isLt hn
  rw [readWord, getLsbD_foldl_or]
  simp only [List.mem_finRange, true_and, getLsbD_code _ _ hj]
  constructor
  · rintro (hzero | ⟨i, ⟨hdown, hval⟩ | ⟨huncertain, hval⟩⟩)
    · simp at hzero
    · exact .inl (Fin.ext hval ▸ hdown)
    · exact .inr ⟨i, hval, huncertain⟩
  · rintro (hdown | ⟨i, hval, huncertain⟩)
    · exact .inr ⟨j, .inl ⟨hdown, rfl⟩⟩
    · exact .inr ⟨i, .inr ⟨huncertain, hval⟩⟩

theorem readsDown_iff_noSpill (hn : n ≤ 32) : s.ReadsDown ↔ s.NoSpill := by
  rw [readsDown_iff_shows]
  constructor
  · intro h i j hval huncertain
    exact (h j).mp ((getLsbD_readWord hn j).mpr (.inr ⟨i, hval, huncertain⟩))
  · intro h j
    rw [getLsbD_readWord hn j]
    constructor
    · rintro (hdown | ⟨i, hval, huncertain⟩)
      · exact hdown
      · exact h i j hval huncertain
    · exact .inl

/-- Reads are right in every state of a session just where no undecided button stands
before one that is not down. -/
theorem reads_down_iff (hn : n ≤ 32) (pdata : Platform n) (ev_press : Bool) (acts : List (ButtonAct n)) :
    Always (step pdata) ReadsDown (opened ev_press) acts ↔ Always (step pdata) NoSpill (opened ev_press) acts := by
  have hsame : (ReadsDown : ButtonDevice n → Prop) = NoSpill := by
    funext s
    exact propext (readsDown_iff_noSpill hn)
  rw [hsame]

theorem reads_down_iff_last_button :
    Always (step ⟨fun i : Fin 3 => i.val, 100⟩) ReadsDown (opened false)
      [.intterupt 2 0, .timer 2 true 2, .read true, .timer 2 false 12] :=
  (reads_down_iff (by decide) _ _ _).mpr (by decide)

/-- While the last button is held the first one is caught, and the second one shows up. -/
theorem undecided_button_spills :
    ¬ ∀ n ≤ 32, ∀ (pdata : Platform n) ev_press acts, Always (step pdata) ReadsDown (opened ev_press) acts := by
  intro h
  have hrun := h 3 (by decide) ⟨fun i => i.val, 100⟩ false [.intterupt 2 0, .timer 2 true 2, .intterupt 0 3]
  have hspill := (hrun.last rfl).1 true _ _ rfl 1
  exact absurd hspill (by decide)

end ButtonDevice

end Fl2440.Driver
