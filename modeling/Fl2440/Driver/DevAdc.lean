import Mathlib.Data.Fintype.Basic
import Fl2440.Lib.Trace

/-! The ADC driver `dev_adc.c`. The interrupt handler stores a sample, and any number of
callers of `adc_read` take it under `ADC_LOCK`. -/
namespace Fl2440.Driver

open Fl2440.Lib

inductive AdcPoint where
  /-- `mutex_lock(&ADC_LOCK)` -/
  | lock (nonblock : Bool)
  /-- `if (!ev_adc)` -/
  | test (nonblock : Bool)
  /-- `wait_event_interruptible` -/
  | wait
  /-- `ev_adc = 0` -/
  | clear
  /-- `copy_to_user` -/
  | copy
  /-- `mutex_unlock(&ADC_LOCK)` -/
  | unlock
deriving DecidableEq

/-- `none` for a caller that is not inside `adc_read`. -/
structure AdcDevice (ρ : Type) where
  adc_lock : Option ρ
  ev_adc : Bool
  adc_data : BitVec 32
  callers : ρ → Option AdcPoint

inductive AdcAct (ρ : Type) where
  /-- with what the data register holds -/
  | irq (adcdat0 : BitVec 32)
  | read (r : ρ) (nonblock : Bool)
  | next (r : ρ)
  /-- a signal arrives in the wait -/
  | signal (r : ρ)

inductive AdcSeen where
  | stored (sample : BitVec 32)
  | handed (sample : BitVec 32)
deriving DecidableEq

def AdcPoint.locked : AdcPoint → Bool
  | .lock _ => false
  | _ => true

namespace AdcDevice

variable {ρ : Type} [DecidableEq ρ]

def idle : AdcDevice ρ := ⟨none, false, 0, fun _ => none⟩

def goTo (s : AdcDevice ρ) (r : ρ) (point : Option AdcPoint) : AdcDevice ρ :=
  { s with callers := Function.update s.callers r point }

def adcIrq (s : AdcDevice ρ) (adcdat0 : BitVec 32) : AdcDevice ρ :=
  if !s.ev_adc then { s with adc_data := adcdat0 &&& 0x3ff, ev_adc := true } else s

/-- One step of `adc_read`; an error is a caller that has to wait. -/
def adcRead (s : AdcDevice ρ) (r : ρ) : AdcPoint → Except Unit (AdcDevice ρ)
  | .lock nonblock =>
      if s.adc_lock = none then .ok ({ s with adc_lock := some r }.goTo r (some (.test nonblock))) else .error ()
  | .test nonblock =>
      if !s.ev_adc then
        -- `return -EAGAIN`
        if nonblock then .ok (s.goTo r none)
        else .ok (s.goTo r (some .wait))
      else .ok (s.goTo r (some .clear))
  | .wait => if s.ev_adc then .ok (s.goTo r (some .clear)) else .error ()
  | .clear => .ok ({ s with ev_adc := false }.goTo r (some .copy))
  | .copy => .ok (s.goTo r (some .unlock))
  | .unlock => .ok ({ s with adc_lock := none }.goTo r none)

def step (s : AdcDevice ρ) : AdcAct ρ → Except Unit (AdcDevice ρ)
  | .irq adcdat0 => .ok (s.adcIrq adcdat0)
  | .read r nonblock => if s.callers r = none then .ok (s.goTo r (some (.lock nonblock))) else .error ()
  | .next r =>
      match s.callers r with
      | none => .error ()
      | some point => s.adcRead r point
  -- the result of the wait is not looked at
  | .signal r => if s.callers r = some .wait ∧ !s.ev_adc then .ok (s.goTo r (some .clear)) else .error ()

def observe (s : AdcDevice ρ) : AdcAct ρ → Option AdcSeen
  | .irq adcdat0 => if !s.ev_adc then some (.stored (adcdat0 &&& 0x3ff)) else none
  | .next r => if s.callers r = some .copy then some (.handed s.adc_data) else none
  | _ => none

/-- `ADC_LOCK` is held only by a caller inside `adc_read`. -/
def LockInside (s : AdcDevice ρ) : Prop :=
  ∀ r, s.adc_lock = some r → ∃ point, s.callers r = some point ∧ point.locked

/-- Before a sample is handed out it is stored, with nothing in between. -/
def FreshReads (seen : List AdcSeen) : Prop :=
  Follows (fun past one => ∀ sample, one = .handed sample → past.getLast? = some (.stored sample)) seen

/-- No read with `O_NONBLOCK` finds the converter idle. -/
def Waits (s : AdcDevice ρ) : AdcAct ρ → Prop
  | .next r => s.callers r = some (.test true) → s.ev_adc = true
  | _ => True

/-- No signal ends a wait, and no interrupt comes between `ev_adc = 0` and `copy_to_user`. -/
def Undisturbed (s : AdcDevice ρ) : AdcAct ρ → Prop
  | .signal r => s.callers r ≠ some .wait
  | .irq _ => ∀ r, s.callers r ≠ some .copy
  | _ => True

instance [Fintype ρ] (s : AdcDevice ρ) : ∀ a, Decidable (Undisturbed s a)
  | .signal r => inferInstanceAs (Decidable (s.callers r ≠ some .wait))
  | .irq _ => inferInstanceAs (Decidable (∀ r, s.callers r ≠ some .copy))
  | .read _ _ | .next _ => .isTrue trivial

def Guarded (s : AdcDevice ρ) : Prop :=
  ∀ r point, s.callers r = some point → point.locked → s.adc_lock = some r

variable {s t : AdcDevice ρ} {r : ρ}

inductive Moves (s : AdcDevice ρ) : AdcAct ρ → Option AdcSeen → AdcDevice ρ → Prop
  | ignored (adcdat0 : BitVec 32) (hready : s.ev_adc = true) : Moves s (.irq adcdat0) none s
  | stored (adcdat0 : BitVec 32) (hidle : s.ev_adc = false) :
      Moves s (.irq adcdat0) (some (.stored (adcdat0 &&& 0x3ff)))
        { s with adc_data := adcdat0 &&& 0x3ff, ev_adc := true }
  | called {r : ρ} (nonblock : Bool) (hout : s.callers r = none) :
      Moves s (.read r nonblock) none (s.goTo r (some (.lock nonblock)))
  | locked {r : ρ} {nonblock : Bool} (hat : s.callers r = some (.lock nonblock)) (hfree : s.adc_lock = none) :
      Moves s (.next r) none ({ s with adc_lock := some r }.goTo r (some (.test nonblock)))
  | again {r : ρ} (hat : s.callers r = some (.test true)) (hidle : s.ev_adc = false) :
      Moves s (.next r) none (s.goTo r none)
  | asleep {r : ρ} (hat : s.callers r = some (.test false)) :
      Moves s (.next r) none (s.goTo r (some .wait))
  | ready {r : ρ} {point : AdcPoint} (hat : s.callers r = some point) (hlocked : point.locked)
      (hcopy : point ≠ .copy) (hready : s.ev_adc = true) : Moves s (.next r) none (s.goTo r (some .clear))
  | interrupted {r : ρ} (hat : s.callers r = some .wait) : Moves s (.signal r) none (s.goTo r (some .clear))
  | cleared {r : ρ} (hat : s.callers r = some .clear) :
      Moves s (.next r) none ({ s with ev_adc := false }.goTo r (some .copy))
  | copied {r : ρ} (hat : s.callers r = some .copy) :
      Moves s (.next r) (some (.handed s.adc_data)) (s.goTo r (some .unlock))
  | unlocked {r : ρ} (hat : s.callers r = some .unlock) :
      Moves s (.next r) none ({ s with adc_lock := none }.goTo r none)

theorem step_moves {a : AdcAct ρ} (h : s.step a = .ok t) : s.Moves a (s.observe a) t := by
  cases a with
  | irq adcdat0 =>
      cases h
      cases hev : s.ev_adc with
      | true => simpa [adcIrq, observe, hev] using Moves.ignored adcdat0 hev
      | false => simpa [adcIrq, observe, hev] using Moves.stored adcdat0 hev
  | read r nonblock =>
      simp only [step] at h
      split_ifs at h with hout
      cases h
      exact .called nonblock hout
  | signal r =>
      simp only [step] at h
      split_ifs at h with hwait
      cases h
      exact .interrupted hwait.1
  | next r =>
      simp only [step] at h
      split at h
      · cases h
      next point hat =>
        cases point with
        | lock nonblock =>
            simp only [adcRead] at h
            split_ifs at h with hfree
            cases h
            simpa [observe, hat] using Moves.locked hat hfree
        | test nonblock =>
            simp only [adcRead] at h
            cases hev : s.ev_adc with
            | true =>
                simp only [hev, Bool.not_true, Bool.false_eq_true, if_false] at h
                cases h
                simpa [observe, hat] using Moves.ready hat rfl nofun hev
            | false =>
                simp only [hev, Bool.not_false, if_true] at h
                cases nonblock with
                | true =>
                    cases h
                    simpa [observe, hat] using Moves.again hat hev
                | false =>
                    cases h
                    simpa [observe, hat] using Moves.asleep hat
        | wait =>
            simp only [adcRead] at h
            split_ifs at h with hev
            cases h
            simpa [observe, hat] using Moves.ready hat rfl nofun hev
        | clear =>
            cases h
            simpa [observe, hat] using Moves.cleared hat
        | copy =>
            cases h
            simpa [observe, hat] using Moves.copied hat
        | unlock =>
            cases h
            simpa [observe, hat] using Moves.unlocked hat

omit [DecidableEq ρ] in
theorem guarded_idle : Guarded (idle : AdcDevice ρ) := nofun

theorem goTo_self (s : AdcDevice ρ) (r : ρ) (point : Option AdcPoint) : (s.goTo r point).callers r = point :=
  Function.update_self ..

theorem goTo_of_ne (s : AdcDevice ρ) {q r : ρ} (h : q ≠ r) (point : Option AdcPoint) :
    (s.goTo r point).callers q = s.callers q := Function.update_of_ne h ..

theorem guarded_goTo {point : Option AdcPoint}
    (hothers : ∀ q p, q ≠ r → s.callers q = some p → p.locked → s.adc_lock = some q)
    (hself : ∀ p, point = some p → p.locked → s.adc_lock = some r) : Guarded (s.goTo r point) := by
  intro q p hat hp
  by_cases hq : q = r
  · subst hq
    rw [goTo_self] at hat
    exact hself p hat hp
  · rw [goTo_of_ne s hq] at hat
    exact hothers q p hq hat hp

theorem Guarded.goTo (h : Guarded s) {point : Option AdcPoint}
    (hself : ∀ p, point = some p → p.locked → s.adc_lock = some r) : Guarded (s.goTo r point) :=
  guarded_goTo (fun q p _ => h q p) hself

variable {a : AdcAct ρ} {one : Option AdcSeen}

theorem Moves.guarded (h : s.Moves a one t) (hs : Guarded s) : Guarded t := by
  cases h with
  | ignored => exact hs
  | stored => exact hs
  | called => exact hs.goTo (by rintro _ ⟨⟩ ⟨⟩)
  | locked hat hfree =>
      apply guarded_goTo
      · intro q p _ hq hp
        have hheld := hs q p hq hp
        rw [hfree] at hheld
        cases hheld
      · exact fun _ _ _ => rfl
  | again => exact hs.goTo nofun
  | asleep hat => exact hs.goTo fun _ _ _ => hs _ _ hat rfl
  | ready hat hlocked => exact hs.goTo fun _ _ _ => hs _ _ hat hlocked
  | interrupted hat => exact hs.goTo fun _ _ _ => hs _ _ hat rfl
  | cleared hat =>
      have hcleared : Guarded { s with ev_adc := false } := hs
      exact hcleared.goTo fun _ _ _ => hs _ _ hat rfl
  | copied hat => exact hs.goTo fun _ _ _ => hs _ _ hat rfl
  | unlocked hat =>
      apply guarded_goTo
      · intro q p hne hq hp
        have hheld := hs q p hq hp
        rw [hs _ _ hat rfl] at hheld
        exact absurd (Option.some.inj hheld).symm hne
      · exact nofun

theorem LockInside.goTo (h : LockInside s) {point : Option AdcPoint}
    (hself : s.adc_lock = some r → ∃ p, point = some p ∧ p.locked) : LockInside (s.goTo r point) := by
  intro q hq
  by_cases hqr : q = r
  · subst hqr
    rw [goTo_self]
    exact hself hq
  · rw [goTo_of_ne s hqr]
    exact h q hq

theorem Moves.lockInside (h : s.Moves a one t) (hs : LockInside s) (ha : Waits s a) : LockInside t := by
  cases h with
  | ignored => exact hs
  | stored => exact hs
  | called nonblock hout =>
      apply hs.goTo
      intro hheld
      obtain ⟨p, hp, -⟩ := hs _ hheld
      rw [hout] at hp
      cases hp
  | @locked r nonblock hat hfree =>
      intro q hq
      cases hq
      exact ⟨.test nonblock, goTo_self .., rfl⟩
  | again hat hidle =>
      rw [ha hat] at hidle
      cases hidle
  | asleep => exact hs.goTo fun _ => ⟨_, rfl, rfl⟩
  | ready => exact hs.goTo fun _ => ⟨_, rfl, rfl⟩
  | interrupted => exact hs.goTo fun _ => ⟨_, rfl, rfl⟩
  | cleared =>
      have hcleared : LockInside { s with ev_adc := false } := hs
      exact hcleared.goTo fun _ => ⟨_, rfl, rfl⟩
  | copied => exact hs.goTo fun _ => ⟨_, rfl, rfl⟩
  | unlocked => exact nofun

theorem leaks_of_not_waits (hs : Guarded s) (ha : ¬ Waits s a) : ∃ t, s.step a = .ok t ∧ ¬ LockInside t := by
  cases a with
  | irq | read | signal => exact absurd trivial ha
  | next r =>
      obtain ⟨hat, hev⟩ := Classical.not_imp.mp ha
      refine ⟨s.goTo r none, by simp [step, hat, adcRead, hev], fun hinside => ?_⟩
      obtain ⟨p, hp, -⟩ := hinside r (hs r _ hat rfl)
      rw [goTo_self] at hp
      cases hp

structure Traced (s : AdcDevice ρ) (seen : List AdcSeen) : Prop where
  guarded : Guarded s
  ready : s.ev_adc = true → seen.getLast? = some (.stored s.adc_data)
  clear : ∀ r, s.callers r = some .clear → s.ev_adc = true
  copy : ∀ r, s.callers r = some .copy → s.ev_adc = false ∧ seen.getLast? = some (.stored s.adc_data)
  fresh : FreshReads seen

omit [DecidableEq ρ] in
theorem traced_idle : Traced (idle : AdcDevice ρ) [] where
  guarded := guarded_idle
  ready := nofun
  clear := nofun
  copy := nofun
  fresh := follows_nil _

omit [DecidableEq ρ] in
theorem Guarded.unique (hs : Guarded s) {q r : ρ} {p p' : AdcPoint} (hq : s.callers q = some p) (hp : p.locked)
    (hr : s.callers r = some p') (hp' : p'.locked) : q = r :=
  Option.some.inj ((hs q p hq hp).symm.trans (hs r p' hr hp'))

variable {seen : List AdcSeen}

theorem Traced.goTo (hs : Traced s seen) {lock : Option ρ} {point : Option AdcPoint}
    (hguarded : Guarded ({ s with adc_lock := lock }.goTo r point)) (hclear : point = some .clear → s.ev_adc = true)
    (hcopy : point ≠ some .copy) : Traced ({ s with adc_lock := lock }.goTo r point) seen where
  guarded := hguarded
  ready := hs.ready
  clear := by
    intro q hq
    by_cases hqr : q = r
    · subst hqr
      rw [goTo_self] at hq
      exact hclear hq
    · rw [goTo_of_ne _ hqr] at hq
      exact hs.clear q hq
  copy := by
    intro q hq
    by_cases hqr : q = r
    · subst hqr
      rw [goTo_self] at hq
      exact absurd hq hcopy
    · rw [goTo_of_ne _ hqr] at hq
      exact hs.copy q hq
  fresh := hs.fresh

omit [DecidableEq ρ] in
theorem Traced.stored (hs : Traced s seen) (hnone : ∀ r, s.callers r ≠ some .copy) (sample : BitVec 32) :
    Traced { s with adc_data := sample, ev_adc := true } (seen ++ [.stored sample]) where
  guarded := hs.guarded
  ready := fun _ => List.getLast?_concat
  clear := fun _ _ => rfl
  copy := fun r hr => absurd hr (hnone r)
  fresh := hs.fresh.snoc nofun

theorem Traced.cleared (hs : Traced s seen) (hat : s.callers r = some .clear)
    (hguarded : Guarded ({ s with ev_adc := false }.goTo r (some .copy))) :
    Traced ({ s with ev_adc := false }.goTo r (some .copy)) seen where
  guarded := hguarded
  ready := nofun
  clear := by
    intro q hq
    by_cases hqr : q = r
    · subst hqr
      rw [goTo_self] at hq
      cases hq
    · rw [goTo_of_ne _ hqr] at hq
      exact absurd (hs.guarded.unique hq rfl hat rfl) hqr
  copy := fun _ _ => ⟨rfl, hs.ready (hs.clear r hat)⟩
  fresh := hs.fresh

theorem Traced.copied (hs : Traced s seen) (hat : s.callers r = some .copy)
    (hguarded : Guarded (s.goTo r (some .unlock))) :
    Traced (s.goTo r (some .unlock)) (seen ++ [.handed s.adc_data]) where
  guarded := hguarded
  ready := fun hev => by
    rw [AdcDevice.goTo, (hs.copy r hat).1] at hev
    cases hev
  clear := by
    intro q hq
    by_cases hqr : q = r
    · subst hqr
      rw [goTo_self] at hq
      cases hq
    · rw [goTo_of_ne _ hqr] at hq
      exact absurd (hs.guarded.unique hq rfl hat rfl) hqr
  copy := by
    intro q hq
    by_cases hqr : q = r
    · subst hqr
      rw [goTo_self] at hq
      cases hq
    · rw [goTo_of_ne _ hqr] at hq
      exact absurd (hs.guarded.unique hq rfl hat rfl) hqr
  fresh := hs.fresh.snoc fun sample hsample => by
    cases hsample
    exact (hs.copy r hat).2

theorem Traced.moves (hs : Traced s seen) (ha : Undisturbed s a) (h : s.Moves a one t) :
    Traced t (seen ++ one.toList) := by
  have hguarded := h.guarded hs.guarded
  cases h with
  | stored adcdat0 => exact hs.stored ha _
  | copied hat => exact hs.copied hat hguarded
  | ignored => simpa using hs
  | called => simpa using hs.goTo hguarded nofun nofun
  | locked => simpa using hs.goTo hguarded nofun nofun
  | again => simpa using hs.goTo hguarded nofun nofun
  | asleep => simpa using hs.goTo hguarded nofun nofun
  | ready _ _ _ hready => simpa using hs.goTo hguarded (fun _ => hready) nofun
  | interrupted hat => exact absurd hat ha
  | cleared hat => simpa using hs.cleared hat hguarded
  | unlocked => simpa using hs.goTo hguarded nofun nofun

/-- The lock is held only inside `adc_read` just if no `O_NONBLOCK` read finds the converter
idle; and every read hands out a sample of its own if nothing disturbs the readers. -/
theorem locked_iff_and_fresh (acts : List (AdcAct ρ)) :
    (Always step LockInside (idle : AdcDevice ρ) acts ↔ Along step Waits idle acts) ∧
      (Along step Undisturbed (idle : AdcDevice ρ) acts → FreshReads (trace step observe idle acts)) := by
  constructor
  · exact always_iff_along (fun s (hs : Guarded s ∧ LockInside s) => hs.2)
      (fun s a t hs ha hstep => ⟨(step_moves hstep).guarded hs.1, (step_moves hstep).lockInside hs.2 ha⟩)
      (fun s a hs ha => leaks_of_not_waits hs.1 ha) ⟨guarded_idle, nofun⟩
  · intro along
    obtain ⟨t, ht⟩ := trace_along (fun s past a t ha hs hstep => hs.moves ha (step_moves hstep)) acts along traced_idle
    simpa using ht.fresh

theorem locked_iff_and_fresh_one_read :
    FreshReads (trace step observe (idle : AdcDevice Unit)
      [.read () false, .next (), .next (), .irq 512, .next (), .next (), .next (), .next ()]) :=
  (locked_iff_and_fresh _).2 (by decide)

/-- A read with `O_NONBLOCK` of the idle converter keeps the lock. A wait that a signal ends hands
out what nobody has stored. An interrupt before `copy_to_user` has its sample handed out twice. -/
theorem leaky_read_not_preserved :
    (¬ ∀ acts : List (AdcAct Unit), Always step LockInside idle acts) ∧
      ¬ ∀ acts : List (AdcAct Unit), FreshReads (trace step observe idle acts) := by
  constructor
  · intro h
    obtain ⟨point, hpoint, -⟩ := (h [.read () true, .next (), .next ()]).last rfl () rfl
    cases hpoint
  · intro h
    have hsignal := h [.read () false, .next (), .next (), .signal (), .next (), .next ()]
    exact absurd (hsignal [] (.handed 0) [] rfl 0 rfl) nofun

example : trace step observe (idle : AdcDevice Unit)
    [.irq 1, .read () true, .next (), .next (), .next (), .irq 2, .next (), .next (),
      .read () true, .next (), .next (), .next (), .next ()] =
    [.stored 1, .stored 2, .handed 2, .handed 2] := by decide

end AdcDevice

end Fl2440.Driver
