import Mathlib.Data.List.FinRange
import Mathlib.Logic.Function.Basic
import Fl2440.Lib.Run
import Fl2440.Lib.Trace

/-! The button driver `plat_button.c`. An interrupt arms the timer of its button, and the
timer samples the pin until the button is up again. -/
namespace Fl2440.Driver

open Fl2440.Lib

inductive ButtonStatus where
  | up
  | down
  | uncertain
deriving DecidableEq

def ButtonStatus.code : ButtonStatus → BitVec 32
  | up => 0
  | down => 1
  | uncertain => 2

/-- What `s3c_button_platform_data` says of a board with `n` buttons: the interrupt of
each. `hz` is the `HZ` of the kernel. -/
structure Platform (n : Nat) where
  nIRQ : Fin n → Int
  hz : Nat

structure ButtonDevice (n : Nat) where
  status : Fin n → ButtonStatus
  /-- when the timer expires, if it is pending -/
  timers : Fin n → Option Nat
  ev_press : Bool

inductive IrqReturn where
  | none
  | handled
deriving DecidableEq

inductive Blocked where
  /-- the timer is not pending -/
  | idle
  /-- `read` waits for a button to be pressed -/
  | asleep
deriving DecidableEq

inductive ButtonAct (n : Nat) where
  | intterupt (irq : Int) (jiffies : Nat)
  /-- the timer of button `num` expires; `low` is the level of its pin -/
  | timer (num : Fin n) (low : Bool) (jiffies : Nat)
  | read (nonblock : Bool)

namespace ButtonDevice

variable {n : Nat}

/-- After the loop of `button_open`; a press of an earlier session may be left. -/
def opened (ev_press : Bool) : ButtonDevice n := ⟨fun _ => .up, fun _ => none, ev_press⟩

def setStatus (s : ButtonDevice n) (i : Fin n) (status : ButtonStatus) : ButtonDevice n :=
  { s with status := Function.update s.status i status }

def modTimer (s : ButtonDevice n) (i : Fin n) (expires : Nat) : ButtonDevice n :=
  { s with timers := Function.update s.timers i (some expires) }

def findIrq (pdata : Platform n) (irq : Int) : Option (Fin n) :=
  (List.finRange n).find? fun i => irq = pdata.nIRQ i

def s3cButtonIntterupt (pdata : Platform n) (s : ButtonDevice n) (irq : Int) (jiffies : Nat) :
    IrqReturn × ButtonDevice n :=
  match findIrq pdata irq with
  | none => (.none, s)
  | some i =>
      if s.status i = .up then (.handled, (s.setStatus i .uncertain).modTimer i (jiffies + pdata.hz / 50))
      else (.handled, s)

/-- Runs with the timer no longer pending. -/
def buttonTimerHandler (pdata : Platform n) (s : ButtonDevice n) (num : Fin n) (low : Bool) (jiffies : Nat) :
    ButtonDevice n :=
  if low then
    let s := if s.status num = .uncertain then { s.setStatus num .down with ev_press := true } else s
    s.modTimer num (jiffies + pdata.hz / 10)
  else s.setStatus num .up

def expire (pdata : Platform n) (s : ButtonDevice n) (num : Fin n) (low : Bool) (jiffies : Nat) :
    Except Blocked (ButtonDevice n) :=
  if (s.timers num).isSome then
    .ok (buttonTimerHandler pdata { s with timers := Function.update s.timers num none } num low jiffies)
  else .error .idle

/-- The word that goes to the user; `none` is `-EAGAIN`. -/
def buttonRead (s : ButtonDevice n) (nonblock : Bool) : Except Blocked (Option (BitVec 32) × ButtonDevice n) :=
  if !s.ev_press then
    if nonblock then .ok (none, s) else .error .asleep
  else
    let status := (List.finRange n).foldl (fun word i => word ||| ((s.status i).code <<< i.val)) 0
    .ok (some status, { s with ev_press := false })

def step (pdata : Platform n) (s : ButtonDevice n) : ButtonAct n → Except Blocked (ButtonDevice n)
  | .intterupt irq jiffies => .ok (s3cButtonIntterupt pdata s irq jiffies).2
  | .timer num low jiffies => s.expire pdata num low jiffies
  | .read nonblock => Prod.snd <$> s.buttonRead nonblock

/-- What can be seen of the buttons. `press` is whether `ev_press` is set for the button. -/
inductive Seen (n : Nat) where
  | intterupt (i : Fin n)
  | low (i : Fin n) (press : Bool)
  | high (i : Fin n)
deriving DecidableEq

def observe (pdata : Platform n) (s : ButtonDevice n) : ButtonAct n → Option (Seen n)
  | .intterupt irq _ => (findIrq pdata irq).map .intterupt
  | .timer num true _ => some (.low num (s.status num = .uncertain))
  | .timer num false _ => some (.high num)
  | .read _ => none

/-- A button is not up if and only if its timer is pending. -/
def Armed (s : ButtonDevice n) : Prop := ∀ i, s.status i ≠ .up ↔ (s.timers i).isSome

/-- The pin was sampled high, and an interrupt came after that. -/
def Renewed (i : Fin n) (between : List (Seen n)) : Prop :=
  ∃ first second third, between = first ++ .high i :: (second ++ .intterupt i :: third)

/-- Between two presses of a button it was sampled high and interrupted again. -/
def PressedOnce (seen : List (Seen n)) : Prop :=
  ∀ i past between future, seen = past ++ .low i true :: (between ++ .low i true :: future) → Renewed i between

variable {pdata : Platform n} {s t : ButtonDevice n} {seen : List (Seen n)} {one : Option (Seen n)}

inductive Moves (s : ButtonDevice n) : Option (Seen n) → ButtonDevice n → Prop
  | quiet (ev_press : Bool) : Moves s none { s with ev_press := ev_press }
  | filtered {i} (hup : s.status i ≠ .up) : Moves s (some (.intterupt i)) s
  | caught {i} (hup : s.status i = .up) (expires : Nat) :
      Moves s (some (.intterupt i)) ((s.setStatus i .uncertain).modTimer i expires)
  | press {i} (huncertain : s.status i = .uncertain) (expires : Nat) :
      Moves s (some (.low i true)) ⟨Function.update s.status i .down, Function.update s.timers i (some expires), true⟩
  | hold {i} (htimer : (s.timers i).isSome) (expires : Nat) :
      Moves s (some (.low i false)) (s.modTimer i expires)
  | release {i} : Moves s (some (.high i))
      { s with status := Function.update s.status i .up, timers := Function.update s.timers i none }

theorem step_moves {a : ButtonAct n} (h : s.step pdata a = .ok t) : s.Moves (observe pdata s a) t := by
  cases a with
  | intterupt irq jiffies =>
      cases h
      unfold s3cButtonIntterupt observe
      dsimp only
      cases findIrq pdata irq with
      | none => exact .quiet s.ev_press
      | some i =>
          dsimp only
          split_ifs with hup
          · exact .caught hup _
          · exact .filtered hup
  | timer num low jiffies =>
      change s.expire pdata num low jiffies = .ok t at h
      unfold expire at h
      split_ifs at h with htimer
      cases h
      cases low with
      | false => exact .release
      | true =>
          unfold buttonTimerHandler observe
          dsimp only
          rw [if_pos rfl]
          by_cases huncertain : s.status num = .uncertain
          · rw [if_pos huncertain, decide_eq_true huncertain]
            unfold setStatus modTimer
            rw [Function.update_idem]
            exact .press huncertain _
          · rw [if_neg huncertain, decide_eq_false huncertain]
            unfold modTimer
            rw [Function.update_idem]
            exact .hold htimer _
  | read nonblock =>
      obtain ⟨⟨word, t'⟩, hread, rfl⟩ := map_eq_ok_iff.mp h
      unfold buttonRead at hread
      split_ifs at hread
      · cases hread
        exact .quiet s.ev_press
      · cases hread
        exact .quiet false

theorem Armed.update (h : Armed s) (i : Fin n) {status : ButtonStatus} {timer : Option Nat}
    (hi : status ≠ .up ↔ timer.isSome) (j : Fin n) :
    Function.update s.status i status j ≠ .up ↔ (Function.update s.timers i timer j).isSome := by
  by_cases hj : j = i
  · subst hj
    rwa [Function.update_self, Function.update_self]
  · rw [Function.update_of_ne hj, Function.update_of_ne hj]
    exact h j

theorem Moves.armed (h : s.Moves one t) (hs : Armed s) : Armed t := by
  cases h with
  | quiet => exact hs
  | filtered => exact hs
  | caught => exact hs.update _ (by simp)
  | press => exact hs.update _ (by simp)
  | @hold i htimer expires =>
      have hdown : s.status i ≠ .up ↔ (some expires).isSome := iff_of_true ((hs i).mpr htimer) rfl
      intro j
      have hj := hs.update i hdown j
      rwa [Function.update_eq_self] at hj
  | release => exact hs.update _ (by simp)

def Since (i : Fin n) (between : List (Seen n)) : ButtonStatus → Prop
  | .up => .high i ∈ between
  | .uncertain => Renewed i between
  | .down => True

structure Traced (s : ButtonDevice n) (seen : List (Seen n)) : Prop where
  armed : Armed s
  since : ∀ i past between, seen = past ++ .low i true :: between → Since i between (s.status i)
  once : Follows (fun past one => ∀ i, one = .low i true → ∀ before between,
    past = before ++ .low i true :: between → Renewed i between) seen

theorem Since.snoc {i : Fin n} {between : List (Seen n)} {status : ButtonStatus} (h : Since i between status)
    (one : Seen n) : Since i (between ++ [one]) status := by
  cases status with
  | up => exact List.mem_append_left _ h
  | uncertain =>
      obtain ⟨first, second, third, rfl⟩ := h
      refine ⟨first, second, third ++ [one], ?_⟩
      rw [List.append_assoc, List.cons_append, List.append_assoc, List.cons_append]
  | down => trivial

theorem Traced.shown {seen : List (Seen n)} {one : Seen n} (h : Traced s seen) (harmed : Armed t)
    (hpress : ∀ i, one ≠ .low i true)
    (hsince : ∀ i between, Since i between (s.status i) → Since i (between ++ [one]) (t.status i)) :
    Traced t (seen ++ [one]) where
  armed := harmed
  since := by
    intro i past between heq
    rcases split_snoc heq with ⟨between', rfl, hseen⟩ | ⟨rfl, -, -⟩
    · exact hsince i between' (h.since i past between' hseen)
    · exact absurd rfl (hpress i)
  once := h.once.snoc fun i hone => absurd hone (hpress i)

theorem Traced.press {seen : List (Seen n)} {i : Fin n} (h : Traced s seen) (huncertain : s.status i = .uncertain)
    (harmed : Armed t) (hstatus : t.status = Function.update s.status i .down) :
    Traced t (seen ++ [.low i true]) where
  armed := harmed
  since := by
    intro j past between heq
    rw [hstatus]
    by_cases hj : j = i
    · subst hj
      rw [Function.update_self]
      trivial
    · rw [Function.update_of_ne hj]
      rcases split_snoc heq with ⟨between', rfl, hseen⟩ | ⟨hone, -, -⟩
      · exact (h.since j past between' hseen).snoc _
      · cases hone
        exact absurd rfl hj
  once := by
    refine h.once.snoc fun j hone before between hseen => ?_
    cases hone
    have hsince := h.since i before between hseen
    rwa [huncertain] at hsince

theorem renewed_caught {i : Fin n} {between : List (Seen n)} (h : .high i ∈ between) :
    Renewed i (between ++ [.intterupt i]) := by
  obtain ⟨first, second, rfl⟩ := List.append_of_mem h
  exact ⟨first, second, [], by rw [List.append_assoc, List.cons_append]⟩

theorem Traced.moves (h : Traced s seen) (hmoves : s.Moves one t) : Traced t (seen ++ one.toList) := by
  have harmed := hmoves.armed h.armed
  cases hmoves with
  | quiet =>
      rw [Option.toList_none, List.append_nil]
      exact ⟨harmed, h.since, h.once⟩
  | filtered => exact h.shown harmed nofun fun j between hsince => hsince.snoc _
  | @caught i hup =>
      refine h.shown harmed nofun fun j between hsince => ?_
      show Since j _ (Function.update s.status i .uncertain j)
      by_cases hj : j = i
      · subst hj
        rw [hup] at hsince
        rw [Function.update_self]
        exact renewed_caught hsince
      · rw [Function.update_of_ne hj]
        exact hsince.snoc _
  | press huncertain => exact h.press huncertain harmed rfl
  | hold => exact h.shown harmed nofun fun j between hsince => hsince.snoc _
  | @release i =>
      refine h.shown harmed nofun fun j between hsince => ?_
      show Since j _ (Function.update s.status i .up j)
      by_cases hj : j = i
      · subst hj
        rw [Function.update_self]
        exact List.mem_append_right _ (List.mem_singleton_self _)
      · rw [Function.update_of_ne hj]
        exact hsince.snoc _

theorem armed_opened (ev_press : Bool) : Armed (opened ev_press : ButtonDevice n) :=
  fun _ => iff_of_false (not_not.mpr rfl) nofun

theorem traced_opened (ev_press : Bool) : Traced (opened ev_press : ButtonDevice n) [] where
  armed := armed_opened ev_press
  since := by
    intro i past between heq
    cases past <;> cases heq
  once := follows_nil _

/-- In every state of a session a button is off `BUTTON_UP` just while its timer is pending,
and one press is not reported twice. -/
theorem debounced (pdata : Platform n) (ev_press : Bool) (acts : List (ButtonAct n)) :
    Always (step pdata) Armed (opened ev_press) acts ∧
      PressedOnce (trace (step pdata) (observe pdata) (opened ev_press) acts) := by
  constructor
  · refine (always_iff_along (fun _ hs => hs) (fun s a t hs _ hstep => (step_moves hstep).armed hs)
      (fun _ _ _ hok => absurd trivial hok) (armed_opened ev_press)).mpr ?_
    exact Along.of_forall (fun _ _ => trivial) acts _
  · obtain ⟨t, ht⟩ := trace_preserves (fun _ _ _ _ h hstep => h.moves (step_moves hstep)) acts
      (traced_opened (n := n) ev_press)
    intro i past between future hseen
    refine ht.once (past ++ .low i true :: between) _ future ?_ i rfl past between rfl
    rw [List.nil_append, hseen, List.append_assoc, List.cons_append]

end ButtonDevice

end Fl2440.Driver
