import Mathlib.Data.List.FinRange
import Mathlib.Logic.Function.Basic
import Fl2440.Lib.Run

/-! The keyboard driver `kbd_driver.c`: `s3c_kbd_probe` and `s3c_kbd_remove` step by step, and
between the steps the interrupts of the keys and their timers. -/
namespace Fl2440.Driver

open Fl2440.Lib

/-- `s3c_kbd_info_t`, as far as the handlers look at it. -/
structure KbdKey where
  code : Int
  nIRQ : Int

structure KbdPlatform (n : Nat) where
  keys : Fin n → KbdKey

/-- `s3c_kbd_t`. Of `input_dev` and `pdata` only whether they are NULL counts. -/
structure Kbd where
  timers : Option Nat
  input_dev : Bool
  pdata : Bool
deriving DecidableEq

inductive KbdPoint where
  | unbound
  | allocTimers
  | allocInput
  /-- the head of the loop over the keys, and `request_irq` -/
  | request (i : Nat)
  | setupTimer (i : Nat)
  | register
  | setInput
  | setPdata
  | setDrvdata
  | bound
  /-- `while(i--)`, and `disable_irq` -/
  | undo (i : Nat)
  | undoIrq (i : Nat)
  | undoTimer (i : Nat)
  | freeTimers
  | freeKbd
  /-- the head of the loop of `s3c_kbd_remove`, and `del_timer` -/
  | stop (i : Nat)
  | stopIrq (i : Nat)
  | stopFree (i : Nat)
  | unregister
  | dropTimers
  | dropKbd
deriving DecidableEq

/-- The function the process is in; `fail` is the end of `s3c_kbd_probe` behind that label. -/
inductive KbdPart where
  | outside
  | probe
  | fail
  | remove
deriving DecidableEq

def KbdPoint.part : KbdPoint → KbdPart
  | .unbound | .bound => .outside
  | .undo _ | .undoIrq _ | .undoTimer _ | .freeTimers | .freeKbd => .fail
  | .stop _ | .stopIrq _ | .stopFree _ | .unregister | .dropTimers | .dropKbd => .remove
  | _ => .probe

inductive KbdStop where
  | blocked
  | null
  | freed
  /-- `mod_timer` without `setup_timer` -/
  | unset
  /-- `free_irq` without `request_irq` -/
  | unrequested
deriving DecidableEq

structure KbdDriver (n : Nat) where
  point : KbdPoint
  s3c_kbd : Option Nat
  /-- what `platform_get_drvdata` gives -/
  drvdata : Option Nat
  /-- the memory of `s3c_kbd_t`s, `none` when it is freed -/
  mem : Nat → Option Kbd
  /-- the arrays of timers, with which of them are set up -/
  arrays : Nat → Option (Fin n → Bool)
  /-- the timers that the kernel has in its list -/
  pending : Nat → Fin n → Bool
  /-- the requested interrupts, with whether they are enabled -/
  lines : Int → Option Bool

inductive KbdAct (n : Nat) where
  /-- with an address for `s3c_kbd`, or without one -/
  | probe (addr : Option Nat)
  | remove
  /-- the next step; what it asks for is given, at this address if it is memory -/
  | next (ok : Bool) (addr : Nat)
  | irq (line : Int)
  | timer (a : Nat) (i : Fin n) (pinval : Bool)

namespace KbdDriver

variable {n : Nat}

def start : KbdDriver n := ⟨.unbound, none, none, fun _ => none, fun _ => none, fun _ _ => false, fun _ => none⟩

def load (s : KbdDriver n) : Option Nat → Except KbdStop Kbd
  | none => .error .null
  | some p =>
      match s.mem p with
      | none => .error .freed
      | some kbd => .ok kbd

def setPending (s : KbdDriver n) (a : Nat) (i : Fin n) (armed : Bool) : KbdDriver n :=
  { s with pending := Function.update s.pending a (Function.update (s.pending a) i armed) }

def findKey (pdata : KbdPlatform n) (irq : Int) : Option (Fin n) :=
  (List.finRange n).find? fun i => irq = (pdata.keys i).nIRQ

def s3cKbdIntterupt (pdata : KbdPlatform n) (s : KbdDriver n) (irq : Int) : Except KbdStop (KbdDriver n) := do
  let kbd ← s.load s.drvdata
  if !kbd.pdata then throw .null
  match findKey pdata irq with
  | none => return s
  | some i =>
      match kbd.timers with
      | none => throw .null
      | some a =>
          match s.arrays a with
          | none => throw .freed
          | some isSet => if isSet i then return s.setPending a i true else throw .unset

/-- What is reported: the code of the key, and whether it is pressed. -/
def cancelDitheringTimerHandler (pdata : KbdPlatform n) (s : KbdDriver n) (which : Fin n) (pinval : Bool) :
    Except KbdStop (Int × Bool) := do
  let kbd ← s.load s.s3c_kbd
  if !kbd.pdata || !kbd.input_dev then throw .null
  return ((pdata.keys which).code, !pinval)

/-- The kernel takes the timer off its list and calls the handler. -/
def expire (pdata : KbdPlatform n) (s : KbdDriver n) (a : Nat) (i : Fin n) (pinval : Bool) :
    Except KbdStop (KbdDriver n) := do
  if !s.pending a i then throw .blocked
  if (s.arrays a).isNone then throw .freed
  let s := s.setPending a i false
  let _ ← cancelDitheringTimerHandler pdata s i pinval
  return s

def disableIrq (s : KbdDriver n) (irq : Int) : KbdDriver n :=
  { s with lines := Function.update s.lines irq ((s.lines irq).map fun _ => false) }

def freeIrq (s : KbdDriver n) (irq : Int) : Except KbdStop (KbdDriver n) :=
  if (s.lines irq).isSome then .ok { s with lines := Function.update s.lines irq none } else .error .unrequested

def delTimer (s : KbdDriver n) (kbd : Kbd) (i : Fin n) : Except KbdStop (KbdDriver n) :=
  match kbd.timers with
  | none => .error .null
  | some a => if (s.arrays a).isSome then .ok (s.setPending a i false) else .error .freed

def setupTimer (s : KbdDriver n) (kbd : Kbd) (i : Fin n) : Except KbdStop (KbdDriver n) :=
  match kbd.timers with
  | none => .error .null
  | some a =>
      match s.arrays a with
      | none => .error .freed
      | some isSet => .ok { s with arrays := Function.update s.arrays a (some (Function.update isSet i true)) }

def store (s : KbdDriver n) (ptr : Option Nat) (f : Kbd → Kbd) : Except KbdStop (KbdDriver n) := do
  let kbd ← s.load ptr
  return { s with mem := fun p => if some p = ptr then some (f kbd) else s.mem p }

def kfreeTimers (s : KbdDriver n) (kbd : Kbd) : Except KbdStop (KbdDriver n) :=
  match kbd.timers with
  | none => .ok s
  | some a =>
      if (s.arrays a).isSome then .ok { s with arrays := Function.update s.arrays a none } else .error .freed

def kfreeKbd (s : KbdDriver n) (ptr : Option Nat) : Except KbdStop (KbdDriver n) :=
  match ptr with
  | none => .ok s
  | some p => if (s.mem p).isSome then .ok { s with mem := Function.update s.mem p none } else .error .freed

def goTo (s : KbdDriver n) (point : KbdPoint) : KbdDriver n := { s with point }

/-- `kmalloc` of `s3c_kbd` and `memset`; memory in use is not given again. -/
def s3cKbdProbe (s : KbdDriver n) : Option Nat → Except KbdStop (KbdDriver n)
  | none => .ok { s with s3c_kbd := none, point := .undo 0 }
  | some p =>
      if (s.mem p).isNone then
        .ok { s with
          s3c_kbd := some p
          mem := Function.update s.mem p (some ⟨none, false, false⟩)
          point := .allocTimers }
      else .error .blocked

def probeStep (pdata : KbdPlatform n) (s : KbdDriver n) (ok : Bool) (addr : Nat) :
    KbdPoint → Except KbdStop (KbdDriver n)
  | .allocTimers =>
      if !ok then .ok (s.goTo (.undo 0))
      else if (s.arrays addr).isNone then do
        let s ← s.store s.s3c_kbd fun kbd => { kbd with timers := some addr }
        return { s with arrays := Function.update s.arrays addr (some fun _ => false), point := .allocInput }
      else .error .blocked
  | .allocInput => .ok (s.goTo (if ok then .request 0 else .undo 0))
  | .request i =>
      if h : i < n then
        let irq := (pdata.keys ⟨i, h⟩).nIRQ
        -- no `IRQF_SHARED`
        if ok && (s.lines irq).isNone then
          .ok { s with lines := Function.update s.lines irq (some true), point := .setupTimer i }
        else .ok (s.goTo (.undo i))
      else .ok (s.goTo .register)
  | .setupTimer i =>
      if h : i < n then do
        let kbd ← s.load s.s3c_kbd
        let s ← s.setupTimer kbd ⟨i, h⟩
        return s.goTo (.request (i + 1))
      else .error .blocked
  | .register => .ok (s.goTo (if ok then .setInput else .undo n))
  | .setInput => do
      let s ← s.store s.s3c_kbd fun kbd => { kbd with input_dev := true }
      return s.goTo .setPdata
  | .setPdata => do
      let s ← s.store s.s3c_kbd fun kbd => { kbd with pdata := true }
      return s.goTo .setDrvdata
  | .setDrvdata => .ok { s with drvdata := s.s3c_kbd, point := .bound }
  | _ => .error .blocked

/-- The label `fail` of `s3c_kbd_probe`; `input_free_device` is left out. -/
def failStep (pdata : KbdPlatform n) (s : KbdDriver n) : KbdPoint → Except KbdStop (KbdDriver n)
  | .undo 0 => .ok (s.goTo .freeTimers)
  | .undo (i + 1) =>
      if h : i < n then .ok ((s.disableIrq (pdata.keys ⟨i, h⟩).nIRQ).goTo (.undoIrq i)) else .error .blocked
  | .undoIrq i =>
      if h : i < n then do
        let s ← s.freeIrq (pdata.keys ⟨i, h⟩).nIRQ
        return s.goTo (.undoTimer i)
      else .error .blocked
  | .undoTimer i =>
      if h : i < n then do
        let kbd ← s.load s.s3c_kbd
        let s ← s.delTimer kbd ⟨i, h⟩
        return s.goTo (.undo i)
      else .error .blocked
  | .freeTimers =>
      match s.s3c_kbd with
      | none => .ok (s.goTo .freeKbd)
      | some p => do
          let kbd ← s.load (some p)
          let s ← s.kfreeTimers kbd
          return s.goTo .freeKbd
  | .freeKbd => do
      let s ← s.kfreeKbd s.s3c_kbd
      return s.goTo .unbound
  | _ => .error .blocked

def removeStep (pdata : KbdPlatform n) (s : KbdDriver n) : KbdPoint → Except KbdStop (KbdDriver n)
  | .stop i => do
      let kbd ← s.load s.drvdata
      if !kbd.pdata then throw .null
      if h : i < n then
        let s ← s.delTimer kbd ⟨i, h⟩
        return s.goTo (.stopIrq i)
      else return s.goTo .unregister
  | .stopIrq i =>
      if h : i < n then .ok ((s.disableIrq (pdata.keys ⟨i, h⟩).nIRQ).goTo (.stopFree i)) else .error .blocked
  | .stopFree i =>
      if h : i < n then do
        let s ← s.freeIrq (pdata.keys ⟨i, h⟩).nIRQ
        return s.goTo (.stop (i + 1))
      else .error .blocked
  | .unregister => do
      let _ ← s.load s.drvdata
      return s.goTo .dropTimers
  | .dropTimers => do
      let kbd ← s.load s.drvdata
      let s ← s.kfreeTimers kbd
      return s.goTo .dropKbd
  | .dropKbd => do
      let s ← s.kfreeKbd s.drvdata
      return s.goTo .unbound
  | _ => .error .blocked

def step (pdata : KbdPlatform n) (s : KbdDriver n) : KbdAct n → Except KbdStop (KbdDriver n)
  | .probe addr => if s.point = .unbound then s.s3cKbdProbe addr else .error .blocked
  | .remove => if s.point = .bound then .ok (s.goTo (.stop 0)) else .error .blocked
  | .next ok addr =>
      match s.point.part with
      | .outside => .error .blocked
      | .probe => s.probeStep pdata ok addr s.point
      | .fail => s.failStep pdata s.point
      | .remove => s.removeStep pdata s.point
  | .irq line => if s.lines line = some true then s.s3cKbdIntterupt pdata line else .error .blocked
  | .timer a i pinval => s.expire pdata a i pinval

variable {pdata : KbdPlatform n} {s t : KbdDriver n} {a : Nat} {isSet : Fin n → Bool}

def Requested (pdata : KbdPlatform n) (s : KbdDriver n) (P : Fin n → Prop) : Prop :=
  ∀ line, (s.lines line).isSome ↔ ∃ i, P i ∧ (pdata.keys i).nIRQ = line

def Quiet (s : KbdDriver n) : Prop := ∀ a i, s.pending a i = false

/-- When `s3c_kbd_probe` has failed at a key, the driver has the interrupts of the keys before
it; when it is not bound, it has none and no timer is armed. -/
def Released (pdata : KbdPlatform n) (s : KbdDriver n) : Prop :=
  match s.point with
  | .undo i => Requested pdata s fun j => j < i
  | .unbound => Requested pdata s (fun _ => False) ∧ Quiet s
  | _ => True

/-- No key bounces while `s3c_kbd_probe` has interrupts and has not returned, nor between
`del_timer` and `disable_irq` of its own in `s3c_kbd_remove`. -/
def Calm (pdata : KbdPlatform n) (s : KbdDriver n) : KbdAct n → Prop
  | .irq line => s.lines line = some true → s.point.part ≠ .probe ∧ s.point.part ≠ .fail ∧
      ∀ i : Fin n, s.point = .stopIrq i → (pdata.keys i).nIRQ ≠ line
  | _ => True

instance (pdata : KbdPlatform n) (s : KbdDriver n) : ∀ act, Decidable (Calm pdata s act)
  | .irq line => inferInstanceAs (Decidable (s.lines line = some true → s.point.part ≠ .probe ∧
      s.point.part ≠ .fail ∧ ∀ i : Fin n, s.point = .stopIrq i → (pdata.keys i).nIRQ ≠ line))
  | .probe _ | .remove | .next _ _ | .timer _ _ _ => .isTrue trivial

def Apart (pdata : KbdPlatform n) (P : Fin n → Prop) : Prop :=
  ∀ i j, P i → P j → (pdata.keys i).nIRQ = (pdata.keys j).nIRQ → i = j

def Points (s : KbdDriver n) (ptr : Option Nat) (a : Nat) (input_dev pdata : Bool) (isSet : Fin n → Bool) : Prop :=
  ∃ p, ptr = some p ∧ s.mem p = some ⟨some a, input_dev, pdata⟩ ∧ s.arrays a = some isSet

/-- Inside `s3c_kbd_probe`: so many timers are set up, and so many interrupts requested. -/
structure Building (pdata : KbdPlatform n) (s : KbdDriver n) (input_dev has_pdata : Bool) (setUp requested : Nat) :
    Prop where
  points : ∃ a isSet, Points s s.s3c_kbd a input_dev has_pdata isSet ∧ ∀ i : Fin n, i < setUp → isSet i
  lines : Requested pdata s fun i => i < requested
  apart : Apart pdata fun i => i < requested
  quiet : Quiet s

/-- Behind `fail`: so many keys were set up, and so many interrupts are left. -/
structure Undoing (pdata : KbdPlatform n) (s : KbdDriver n) (setUp requested : Nat) : Prop where
  memory : setUp = 0 ∧ s.s3c_kbd = none ∨ ∃ p kbd, s.s3c_kbd = some p ∧ s.mem p = some kbd ∧
    (setUp = 0 ∧ kbd.timers = none ∨ ∃ a, kbd.timers = some a ∧ (s.arrays a).isSome)
  lines : Requested pdata s fun i => i < requested
  apart : Apart pdata fun i => i < requested
  quiet : Quiet s

/-- Bound, or inside `s3c_kbd_remove`: of so many keys the timers are deleted, of so many the
interrupts are freed. -/
structure Tearing (pdata : KbdPlatform n) (s : KbdDriver n) (deleted freed : Nat) : Prop where
  points : ∃ a, Points s s.drvdata a true true (fun _ => true) ∧
    ∀ b (i : Fin n), s.pending b i → b = a ∧ deleted ≤ i
  same : s.s3c_kbd = s.drvdata
  lines : Requested pdata s fun i => freed ≤ i
  apart : Apart pdata fun _ => True

def Inv (pdata : KbdPlatform n) (s : KbdDriver n) : Prop :=
  match s.point with
  | .unbound => Requested pdata s (fun _ => False) ∧ Quiet s
  | .allocTimers => (∃ p, s.s3c_kbd = some p ∧ s.mem p = some ⟨none, false, false⟩) ∧
      Requested pdata s (fun _ => False) ∧ Quiet s
  | .allocInput => Building pdata s false false 0 0
  | .request i => Building pdata s false false i i ∧ i ≤ n
  | .setupTimer i => Building pdata s false false i (i + 1) ∧ i < n
  | .register | .setInput => Building pdata s false false n n
  | .setPdata => Building pdata s true false n n
  | .setDrvdata => Building pdata s true true n n
  | .bound => Tearing pdata s 0 0
  | .undo i => Undoing pdata s i i ∧ i ≤ n
  | .undoIrq i => Undoing pdata s (i + 1) (i + 1) ∧ i < n
  | .undoTimer i => Undoing pdata s (i + 1) i ∧ i < n
  | .freeTimers => Undoing pdata s 0 0
  | .freeKbd => (s.s3c_kbd = none ∨ ∃ p, s.s3c_kbd = some p ∧ (s.mem p).isSome) ∧
      Requested pdata s (fun _ => False) ∧ Quiet s
  | .stop i => Tearing pdata s i i ∧ i ≤ n
  | .stopIrq i => Tearing pdata s (i + 1) i ∧ i < n
  | .stopFree i => Tearing pdata s (i + 1) i ∧ ∃ h : i < n, s.lines (pdata.keys ⟨i, h⟩).nIRQ = some false
  | .unregister | .dropTimers => Tearing pdata s n n
  | .dropKbd => (∃ p, s.drvdata = some p ∧ (s.mem p).isSome) ∧ Requested pdata s (fun _ => False) ∧ Quiet s

def Fine (pdata : KbdPlatform n) (x : Except KbdStop (KbdDriver n)) : Prop :=
  x = .error .blocked ∨ ∃ t, x = .ok t ∧ Inv pdata t

theorem Fine.ok (h : Inv pdata t) : Fine pdata (.ok t) := .inr ⟨t, rfl, h⟩

theorem Fine.blocked : Fine pdata (.error .blocked) := .inl rfl

section Lines

variable {P Q : Fin n → Prop}

theorem Requested.congr (h : Requested pdata s P) (hPQ : ∀ i, P i ↔ Q i) : Requested pdata s Q :=
  fun line => (h line).trans (exists_congr fun i => and_congr_left fun _ => hPQ i)

theorem Requested.none_iff (h : Requested pdata s P) (hnot : ∀ i, ¬ P i) : Requested pdata s fun _ => False :=
  h.congr fun i => iff_false_intro (hnot i)

theorem Requested.request (h : Requested pdata s P) (i : Fin n) (enabled : Bool) :
    Requested pdata { s with lines := Function.update s.lines (pdata.keys i).nIRQ (some enabled) }
      fun j => P j ∨ j = i := by
  intro line
  by_cases hline : line = (pdata.keys i).nIRQ
  · subst hline
    simp only [Function.update_self, Option.isSome_some, true_iff]
    exact ⟨i, .inr rfl, rfl⟩
  · simp only [Function.update_of_ne hline, h line]
    constructor
    · rintro ⟨j, hj, rfl⟩
      exact ⟨j, .inl hj, rfl⟩
    · rintro ⟨j, hj | rfl, rfl⟩
      · exact ⟨j, hj, rfl⟩
      · exact absurd rfl hline

theorem Requested.disable (h : Requested pdata s P) (irq : Int) : Requested pdata (s.disableIrq irq) P := by
  intro line
  rw [← h line, disableIrq]
  by_cases hline : line = irq
  · subst hline
    simp
  · simp [Function.update_of_ne hline]

theorem Requested.free (h : Requested pdata s P) {i : Fin n} (hi : P i) (hapart : Apart pdata P) :
    s.freeIrq (pdata.keys i).nIRQ =
        .ok { s with lines := Function.update s.lines (pdata.keys i).nIRQ none } ∧
      Requested pdata { s with lines := Function.update s.lines (pdata.keys i).nIRQ none } fun j => P j ∧ j ≠ i := by
  constructor
  · exact if_pos ((h _).mpr ⟨i, hi, rfl⟩)
  · intro line
    by_cases hline : line = (pdata.keys i).nIRQ
    · subst hline
      simp only [Function.update_self, Option.isSome_none, Bool.false_eq_true, false_iff]
      rintro ⟨j, ⟨hj, hne⟩, hsame⟩
      exact hne (hapart j i hj hi hsame)
    · simp only [Function.update_of_ne hline, h line]
      constructor
      · rintro ⟨j, hj, rfl⟩
        exact ⟨j, ⟨hj, fun heq => hline (by rw [heq])⟩, rfl⟩
      · rintro ⟨j, ⟨hj, -⟩, rfl⟩
        exact ⟨j, hj, rfl⟩

end Lines

section Probe

variable {input_dev has_pdata : Bool} {setUp requested : Nat} {ptr : Option Nat}

theorem Points.load (h : Points s ptr a input_dev has_pdata isSet) :
    s.load ptr = .ok ⟨some a, input_dev, has_pdata⟩ := by
  obtain ⟨p, rfl, hmem, -⟩ := h
  simp [KbdDriver.load, hmem]

theorem Points.store (h : Points s ptr a input_dev has_pdata isSet) (f : Kbd → Kbd) {input_dev' has_pdata' : Bool}
    (hf : f ⟨some a, input_dev, has_pdata⟩ = ⟨some a, input_dev', has_pdata'⟩) :
    ∃ t, s.store ptr f = .ok t ∧ t.s3c_kbd = s.s3c_kbd ∧ t.lines = s.lines ∧ t.pending = s.pending ∧
      Points t ptr a input_dev' has_pdata' isSet := by
  refine ⟨{ s with mem := fun p => if some p = ptr then some (f ⟨some a, input_dev, has_pdata⟩) else s.mem p },
    by rw [KbdDriver.store, h.load]; rfl, rfl, rfl, rfl, ?_⟩
  obtain ⟨p, rfl, -, harrays⟩ := h
  exact ⟨p, rfl, by simp [hf], harrays⟩

theorem Building.undo (h : Building pdata s input_dev has_pdata setUp setUp) :
    Undoing pdata (s.goTo (.undo setUp)) setUp setUp := by
  obtain ⟨a, isSet, ⟨p, hptr, hmem, harrays⟩, -⟩ := h.points
  refine ⟨.inr ⟨p, _, hptr, hmem, .inr ⟨a, rfl, ?_⟩⟩, h.lines, h.apart, h.quiet⟩
  show (s.arrays a).isSome
  rw [harrays]
  rfl

theorem Building.request {i : Fin n} (h : Building pdata s false false i i)
    (hfree : s.lines (pdata.keys i).nIRQ = none) (point : KbdPoint) :
    Building pdata { s with lines := Function.update s.lines (pdata.keys i).nIRQ (some true), point } false false
      i (i + 1) where
  points := h.points
  lines := (h.lines.request i true).congr fun j => by
    rw [Nat.lt_succ_iff_lt_or_eq, Fin.ext_iff]
  apart := by
    have hnot : ∀ j : Fin n, j < i.val → (pdata.keys j).nIRQ ≠ (pdata.keys i).nIRQ := fun j hj hsame => by
      have hsome := (h.lines _).mpr ⟨j, hj, hsame⟩
      rw [hfree] at hsome
      cases hsome
    intro j k hj hk hsame
    rcases Nat.lt_succ_iff_lt_or_eq.mp hj with hj | hj <;> rcases Nat.lt_succ_iff_lt_or_eq.mp hk with hk | hk
    · exact h.apart j k hj hk hsame
    · exact absurd (hsame.trans (by rw [Fin.ext hk])) (hnot j hj)
    · exact absurd (hsame.symm.trans (by rw [Fin.ext hj])) (hnot k hk)
    · exact Fin.ext (hj.trans hk.symm)
  quiet := h.quiet

theorem Building.setupTimer {i : Fin n} (h : Building pdata s false false i (i + 1)) :
    ∃ kbd t, s.load s.s3c_kbd = .ok kbd ∧ s.setupTimer kbd i = .ok t ∧
      Building pdata (t.goTo (.request (i + 1))) false false (i + 1) (i + 1) := by
  obtain ⟨a, isSet, hpoints, hset⟩ := h.points
  obtain ⟨p, hptr, hmem, harrays⟩ := hpoints
  refine ⟨_, { s with arrays := Function.update s.arrays a (some (Function.update isSet i true)) },
    Points.load ⟨p, hptr, hmem, harrays⟩, by simp only [KbdDriver.setupTimer, harrays],
    ⟨a, Function.update isSet i true, ⟨p, hptr, hmem, Function.update_self ..⟩, fun j hj => ?_⟩, h.lines, h.apart,
    h.quiet⟩
  by_cases hji : j = i
  · rw [hji, Function.update_self]
  · rw [Function.update_of_ne hji]
    exact hset j (by have hne := Fin.val_ne_of_ne hji; omega)

theorem Building.store (h : Building pdata s input_dev has_pdata setUp requested) (f : Kbd → Kbd)
    {input_dev' has_pdata' : Bool} (hf : ∀ a, f ⟨some a, input_dev, has_pdata⟩ = ⟨some a, input_dev', has_pdata'⟩)
    (point : KbdPoint) : ∃ t, s.store s.s3c_kbd f = .ok t ∧
      Building pdata (t.goTo point) input_dev' has_pdata' setUp requested := by
  obtain ⟨a, isSet, hpoints, hset⟩ := h.points
  obtain ⟨t, ht, hptr, hlines, hpending, hpoints'⟩ := hpoints.store f (hf a)
  refine ⟨t, ht, ⟨a, isSet, ?_, hset⟩, ?_, h.apart, ?_⟩
  · rw [← hptr] at hpoints'
    exact hpoints'
  · intro line
    rw [KbdDriver.goTo, hlines]
    exact h.lines line
  · intro b i
    rw [KbdDriver.goTo, hpending]
    exact h.quiet b i

theorem Building.bound (h : Building pdata s true true n n) :
    Tearing pdata { s with drvdata := s.s3c_kbd, point := .bound } 0 0 := by
  obtain ⟨a, isSet, hpoints, hset⟩ := h.points
  have hall : isSet = fun _ => true := funext fun i => hset i i.isLt
  refine ⟨⟨a, hall ▸ hpoints, fun b i hpending => ?_⟩, rfl, ?_, ?_⟩
  · rw [h.quiet b i] at hpending
    cases hpending
  · exact h.lines.congr fun i => iff_of_true i.isLt (Nat.zero_le _)
  · exact fun i j _ _ => h.apart i j i.isLt j.isLt

theorem undoing_start (hptr : s.s3c_kbd = none ∨ ∃ p kbd, s.s3c_kbd = some p ∧ s.mem p = some kbd ∧ kbd.timers = none)
    (hlines : Requested pdata s fun _ => False) (hquiet : Quiet s) : Undoing pdata (s.goTo (.undo 0)) 0 0 where
  memory := hptr.imp (⟨rfl, ·⟩) fun ⟨p, kbd, hptr, hmem, htimers⟩ => ⟨p, kbd, hptr, hmem, .inl ⟨rfl, htimers⟩⟩
  lines := hlines.congr fun i => (iff_false_intro (Nat.not_lt_zero i)).symm
  apart := fun i _ hi => absurd hi (Nat.not_lt_zero i)
  quiet := hquiet

theorem building_start {p addr : Nat} (hptr : s.s3c_kbd = some p) (hmem : s.mem p = some ⟨none, false, false⟩)
    (hlines : Requested pdata s fun _ => False) (hquiet : Quiet s) :
    ∃ t, s.store s.s3c_kbd (fun kbd => { kbd with timers := some addr }) = .ok t ∧
      Building pdata
        { t with
          arrays := Function.update t.arrays addr (some fun _ => false)
          point := .allocInput } false false 0 0 := by
  have hload : s.load s.s3c_kbd = .ok ⟨none, false, false⟩ := by simp [KbdDriver.load, hptr, hmem]
  refine ⟨{ s with mem := fun q => if some q = s.s3c_kbd then some ⟨some addr, false, false⟩ else s.mem q },
    by rw [KbdDriver.store, hload]; rfl, ⟨addr, fun _ => false, ⟨p, hptr, by simp [hptr], by simp⟩, ?_⟩, ?_, ?_, hquiet⟩
  · exact fun i hi => absurd hi (Nat.not_lt_zero i)
  · exact hlines.congr fun i => (iff_false_intro (Nat.not_lt_zero i)).symm
  · exact fun i _ hi => absurd hi (Nat.not_lt_zero i)

theorem probeStep_fine (h : Inv pdata s) (ok : Bool) (addr : Nat) :
    Fine pdata (s.probeStep pdata ok addr s.point) := by
  cases hpoint : s.point with
  | allocTimers =>
      simp only [Inv, hpoint] at h
      obtain ⟨⟨p, hptr, hmem⟩, hlines, hquiet⟩ := h
      simp only [probeStep]
      split_ifs with hok hfree
      · exact .ok ⟨undoing_start (.inr ⟨p, _, hptr, hmem, rfl⟩) hlines hquiet, Nat.zero_le n⟩
      · obtain ⟨t, ht, hbuilding⟩ := @building_start _ _ _ p addr hptr hmem hlines hquiet
        rw [ht, ok_bind]
        exact .ok hbuilding
      · exact .blocked
  | allocInput =>
      simp only [Inv, hpoint] at h
      cases ok with
      | true => exact .ok ⟨⟨h.points, h.lines, h.apart, h.quiet⟩, Nat.zero_le n⟩
      | false => exact .ok ⟨h.undo, Nat.zero_le n⟩
  | request i =>
      simp only [Inv, hpoint] at h
      obtain ⟨hbuilding, hle⟩ := h
      simp only [probeStep]
      split_ifs with hi hgiven
      · have hfree := Option.isNone_iff_eq_none.mp (Bool.and_eq_true_iff.mp hgiven).2
        exact .ok ⟨hbuilding.request (i := ⟨i, hi⟩) hfree _, hi⟩
      · exact .ok ⟨hbuilding.undo, hle⟩
      · obtain rfl : i = n := Nat.le_antisymm hle (Nat.not_lt.mp hi)
        exact .ok ⟨hbuilding.points, hbuilding.lines, hbuilding.apart, hbuilding.quiet⟩
  | setupTimer i =>
      simp only [Inv, hpoint] at h
      obtain ⟨hbuilding, hi⟩ := h
      obtain ⟨kbd, t, hload, ht, hset⟩ := Building.setupTimer (i := ⟨i, hi⟩) hbuilding
      simp only [probeStep]
      rw [dif_pos hi, hload, ok_bind, ht]
      exact .ok ⟨hset, hi⟩
  | register =>
      simp only [Inv, hpoint] at h
      cases ok with
      | true => exact .ok ⟨h.points, h.lines, h.apart, h.quiet⟩
      | false => exact .ok ⟨h.undo, Nat.le_refl n⟩
  | setInput =>
      simp only [Inv, hpoint] at h
      obtain ⟨t, ht, hbuilding⟩ := h.store (fun kbd => { kbd with input_dev := true }) (fun _ => rfl) .setPdata
      simp only [probeStep]
      rw [ht]
      exact .ok hbuilding
  | setPdata =>
      simp only [Inv, hpoint] at h
      obtain ⟨t, ht, hbuilding⟩ := h.store (fun kbd => { kbd with pdata := true }) (fun _ => rfl) .setDrvdata
      simp only [probeStep]
      rw [ht]
      exact .ok hbuilding
  | setDrvdata =>
      simp only [Inv, hpoint] at h
      exact .ok h.bound
  | _ => exact .blocked

end Probe

section Fail

theorem setPending_pending (s : KbdDriver n) (a : Nat) (i : Fin n) (armed : Bool) (b : Nat) (j : Fin n) :
    (s.setPending a i armed).pending b j = if b = a ∧ j = i then armed else s.pending b j := by
  simp only [setPending, Function.update_apply]
  by_cases hb : b = a
  · subst hb
    simp [Function.update_apply]
  · simp [hb]

theorem setPending_quiet (h : Quiet s) (a : Nat) (i : Fin n) : Quiet (s.setPending a i false) := by
  intro b j
  rw [setPending_pending, h b j, ite_self]

theorem Undoing.disable {i : Fin n} (h : Undoing pdata s (i + 1) (i + 1)) :
    Undoing pdata ((s.disableIrq (pdata.keys i).nIRQ).goTo (.undoIrq i)) (i + 1) (i + 1) :=
  ⟨h.memory, h.lines.disable _, h.apart, h.quiet⟩

theorem Undoing.free {i : Fin n} (h : Undoing pdata s (i + 1) (i + 1)) :
    ∃ t, s.freeIrq (pdata.keys i).nIRQ = .ok t ∧ Undoing pdata (t.goTo (.undoTimer i)) (i + 1) i := by
  obtain ⟨hfree, hlines⟩ := h.lines.free (i := i) (Nat.lt_succ_self i) h.apart
  refine ⟨_, hfree, h.memory, hlines.congr fun j => ?_, ?_, h.quiet⟩
  · rw [Ne, Fin.ext_iff]
    omega
  · exact fun j k hj hk => h.apart j k (Nat.lt_succ_of_lt hj) (Nat.lt_succ_of_lt hk)

theorem Undoing.delTimer {i : Fin n} (h : Undoing pdata s (i + 1) i) :
    ∃ kbd t, s.load s.s3c_kbd = .ok kbd ∧ s.delTimer kbd i = .ok t ∧ Undoing pdata (t.goTo (.undo i)) i i := by
  obtain ⟨hzero, -⟩ | ⟨p, kbd, hptr, hmem, ⟨hzero, -⟩ | ⟨a, htimers, harrays⟩⟩ := h.memory
  · cases hzero
  · cases hzero
  · refine ⟨kbd, s.setPending a i false, by simp [load, hptr, hmem],
      by simp only [KbdDriver.delTimer, htimers, harrays, if_true], ?_⟩
    exact ⟨.inr ⟨p, kbd, hptr, hmem, .inr ⟨a, htimers, harrays⟩⟩, h.lines, h.apart, setPending_quiet h.quiet a i⟩

theorem Undoing.freeTimers {p : Nat} (h : Undoing pdata s 0 0) (hptr : s.s3c_kbd = some p) :
    ∃ kbd t, s.load (some p) = .ok kbd ∧ s.kfreeTimers kbd = .ok t ∧ Inv pdata (t.goTo .freeKbd) := by
  have hlines := h.lines.none_iff fun i => Nat.not_lt_zero i
  obtain ⟨-, hnone⟩ | ⟨q, kbd, hq, hmem, htimers⟩ := h.memory
  · rw [hptr] at hnone
    cases hnone
  obtain rfl : q = p := Option.some.inj (hq.symm.trans hptr)
  have hmemory : s.s3c_kbd = none ∨ ∃ p, s.s3c_kbd = some p ∧ (s.mem p).isSome :=
    .inr ⟨q, hptr, by rw [hmem]; rfl⟩
  obtain ⟨-, htimers⟩ | ⟨a, htimers, harrays⟩ := htimers
  · exact ⟨kbd, s, by simp [load, hmem], by simp only [kfreeTimers, htimers], hmemory, hlines, h.quiet⟩
  · exact ⟨kbd, { s with arrays := Function.update s.arrays a none }, by simp [load, hmem],
      by simp only [kfreeTimers, htimers, harrays, if_true], hmemory, hlines, h.quiet⟩

theorem failStep_fine (h : Inv pdata s) : Fine pdata (s.failStep pdata s.point) := by
  cases hpoint : s.point with
  | undo i =>
      simp only [Inv, hpoint] at h
      obtain ⟨hundoing, hle⟩ := h
      cases i with
      | zero => exact .ok ⟨hundoing.memory, hundoing.lines, hundoing.apart, hundoing.quiet⟩
      | succ i =>
          simp only [failStep]
          rw [dif_pos (show i < n from hle)]
          exact .ok ⟨Undoing.disable (i := ⟨i, hle⟩) hundoing, hle⟩
  | undoIrq i =>
      simp only [Inv, hpoint] at h
      obtain ⟨hundoing, hi⟩ := h
      obtain ⟨t, ht, hfreed⟩ := Undoing.free (i := ⟨i, hi⟩) hundoing
      simp only [failStep]
      rw [dif_pos hi, ht]
      exact .ok ⟨hfreed, hi⟩
  | undoTimer i =>
      simp only [Inv, hpoint] at h
      obtain ⟨hundoing, hi⟩ := h
      obtain ⟨kbd, t, hload, ht, hdeleted⟩ := Undoing.delTimer (i := ⟨i, hi⟩) hundoing
      simp only [failStep]
      rw [dif_pos hi, hload, ok_bind, ht]
      exact .ok ⟨hdeleted, hi.le⟩
  | freeTimers =>
      simp only [Inv, hpoint] at h
      simp only [failStep]
      split
      next hptr => exact .ok ⟨.inl hptr, h.lines.none_iff fun i => Nat.not_lt_zero i, h.quiet⟩
      next p hptr =>
        obtain ⟨kbd, t, hload, ht, hfreed⟩ := h.freeTimers hptr
        rw [hload, ok_bind, ht]
        exact .ok hfreed
  | freeKbd =>
      simp only [Inv, hpoint] at h
      obtain ⟨hnone | ⟨p, hptr, hmem⟩, hlines, hquiet⟩ := h
      · simp only [failStep, hnone, kfreeKbd]
        exact .ok ⟨hlines, hquiet⟩
      · simp only [failStep, hptr, kfreeKbd, if_pos hmem]
        exact .ok ⟨hlines, hquiet⟩
  | _ => exact .blocked

end Fail

section Remove

variable {deleted freed : Nat}

theorem Tearing.load (h : Tearing pdata s deleted freed) : ∃ a, s.load s.drvdata = .ok ⟨some a, true, true⟩ ∧
    s.arrays a = some fun _ => true := by
  obtain ⟨a, hpoints, -⟩ := h.points
  exact ⟨a, hpoints.load, by obtain ⟨p, -, -, harrays⟩ := hpoints; exact harrays⟩

theorem Tearing.goTo (h : Tearing pdata s deleted freed) (point : KbdPoint) :
    Tearing pdata (s.goTo point) deleted freed := ⟨h.points, h.same, h.lines, h.apart⟩

theorem Tearing.delTimer {i : Fin n} (h : Tearing pdata s i i) {kbd : Kbd} (hload : s.load s.drvdata = .ok kbd) :
    ∃ t, s.delTimer kbd i = .ok t ∧ Tearing pdata t (i + 1) i := by
  obtain ⟨a, hpoints, hpending⟩ := h.points
  obtain rfl : ⟨some a, true, true⟩ = kbd := Except.ok.inj (hpoints.load.symm.trans hload)
  have harrays : s.arrays a = some fun _ => true := by obtain ⟨p, -, -, harrays⟩ := hpoints; exact harrays
  refine ⟨s.setPending a i false, by simp [KbdDriver.delTimer, harrays], ⟨a, hpoints, fun b j hj => ?_⟩, h.same,
    h.lines, h.apart⟩
  rw [setPending_pending] at hj
  split_ifs at hj with hself
  obtain ⟨rfl, hle⟩ := hpending b j hj
  refine ⟨rfl, Nat.lt_of_le_of_ne hle fun heq => hself ⟨rfl, Fin.ext heq.symm⟩⟩

theorem Tearing.disable {i : Fin n} (h : Tearing pdata s (i + 1) i) :
    Inv pdata ((s.disableIrq (pdata.keys i).nIRQ).goTo (.stopFree i)) := by
  obtain ⟨enabled, hline⟩ := Option.isSome_iff_exists.mp ((h.lines (pdata.keys i).nIRQ).mpr ⟨i, Nat.le_refl _, rfl⟩)
  refine ⟨⟨h.points, h.same, h.lines.disable _, h.apart⟩, i.isLt, ?_⟩
  simp [KbdDriver.goTo, disableIrq, hline]

theorem Tearing.free {i : Fin n} (h : Tearing pdata s (i + 1) i) :
    ∃ t, s.freeIrq (pdata.keys i).nIRQ = .ok t ∧ Tearing pdata (t.goTo (.stop (i + 1))) (i + 1) (i + 1) := by
  obtain ⟨hfree, hlines⟩ := h.lines.free (i := i) (Nat.le_refl _) fun j k _ _ => h.apart j k trivial trivial
  refine ⟨_, hfree, h.points, h.same, hlines.congr fun j => ?_, h.apart⟩
  rw [Ne, Fin.ext_iff]
  omega

theorem Tearing.done (h : Tearing pdata s n n) : Requested pdata s (fun _ => False) ∧ Quiet s := by
  refine ⟨h.lines.none_iff fun i => Nat.not_le.mpr i.isLt, fun b i => ?_⟩
  obtain ⟨a, -, hpending⟩ := h.points
  by_contra hnot
  exact absurd (hpending b i (Bool.eq_true_of_not_eq_false hnot)).2 (Nat.not_le.mpr i.isLt)

theorem removeStep_fine (h : Inv pdata s) : Fine pdata (s.removeStep pdata s.point) := by
  cases hpoint : s.point with
  | stop i =>
      simp only [Inv, hpoint] at h
      obtain ⟨htearing, hle⟩ := h
      obtain ⟨a, hload, -⟩ := htearing.load
      simp only [removeStep, hload, ok_bind]
      by_cases hi : i < n
      · obtain ⟨t, ht, hdeleted⟩ := Tearing.delTimer (i := ⟨i, hi⟩) htearing hload
        rw [dif_pos hi, ht]
        exact .ok ⟨hdeleted.goTo _, hi⟩
      · obtain rfl : i = n := Nat.le_antisymm hle (Nat.not_lt.mp hi)
        rw [dif_neg hi]
        exact .ok (htearing.goTo _)
  | stopIrq i =>
      simp only [Inv, hpoint] at h
      obtain ⟨htearing, hi⟩ := h
      simp only [removeStep]
      rw [dif_pos hi]
      exact .ok (Tearing.disable (i := ⟨i, hi⟩) htearing)
  | stopFree i =>
      simp only [Inv, hpoint] at h
      obtain ⟨htearing, hi, -⟩ := h
      obtain ⟨t, ht, hfreed⟩ := Tearing.free (i := ⟨i, hi⟩) htearing
      simp only [removeStep]
      rw [dif_pos hi, ht]
      exact .ok ⟨hfreed, hi⟩
  | unregister =>
      simp only [Inv, hpoint] at h
      obtain ⟨a, hload, -⟩ := h.load
      simp only [removeStep, hload]
      exact .ok (h.goTo _)
  | dropTimers =>
      simp only [Inv, hpoint] at h
      obtain ⟨a, hload, harrays⟩ := h.load
      obtain ⟨_, ⟨p, hptr, hmem, -⟩, -⟩ := h.points
      obtain ⟨hlines, hquiet⟩ := h.done
      simp only [removeStep, hload, ok_bind, kfreeTimers, harrays, Option.isSome_some, if_true]
      exact .ok ⟨⟨p, hptr, by show (s.mem p).isSome; rw [hmem]; rfl⟩, hlines, hquiet⟩
  | dropKbd =>
      simp only [Inv, hpoint] at h
      obtain ⟨⟨p, hptr, hmem⟩, hlines, hquiet⟩ := h
      simp only [removeStep, hptr, kfreeKbd, if_pos hmem]
      exact .ok ⟨hlines, hquiet⟩
  | _ => exact .blocked

end Remove

section Handlers

variable {deleted freed : Nat}

theorem findKey_eq (h : Apart pdata fun _ => True) (i : Fin n) : findKey pdata (pdata.keys i).nIRQ = some i := by
  cases hfind : findKey pdata (pdata.keys i).nIRQ with
  | none =>
      have hnone := List.find?_eq_none.mp hfind i (List.mem_finRange i)
      simp at hnone
  | some j =>
      have hsame : (pdata.keys i).nIRQ = (pdata.keys j).nIRQ := by simpa using List.find?_some hfind
      rw [h i j trivial trivial hsame]

theorem Tearing.interrupt (h : Tearing pdata s deleted freed) {i : Fin n} (hi : deleted ≤ i) :
    ∃ t, s.s3cKbdIntterupt pdata (pdata.keys i).nIRQ = .ok t ∧ Tearing pdata t deleted freed ∧ t.point = s.point ∧
      t.lines = s.lines := by
  obtain ⟨a, hpoints, hpending⟩ := h.points
  have harrays : s.arrays a = some fun _ => true := by obtain ⟨p, -, -, harrays⟩ := hpoints; exact harrays
  refine ⟨s.setPending a i true, ?_, ⟨⟨a, hpoints, fun b j hj => ?_⟩, h.same, h.lines, h.apart⟩, rfl, rfl⟩
  · simp only [s3cKbdIntterupt, hpoints.load, ok_bind, findKey_eq h.apart, harrays]
    rfl
  · rw [setPending_pending] at hj
    split_ifs at hj with hself
    · obtain ⟨rfl, rfl⟩ := hself
      exact ⟨rfl, hi⟩
    · exact hpending b j hj

theorem Tearing.expire (h : Tearing pdata s deleted freed) {b : Nat} {i : Fin n} (hb : s.pending b i) (pinval : Bool) :
    ∃ t, s.expire pdata b i pinval = .ok t ∧ Tearing pdata t deleted freed ∧ t.point = s.point ∧ t.lines = s.lines := by
  obtain ⟨a, hpoints, hpending⟩ := h.points
  obtain ⟨rfl, hi⟩ := hpending b i hb
  have harrays : s.arrays b = some fun _ => true := by obtain ⟨p, -, -, harrays⟩ := hpoints; exact harrays
  have hload : (s.setPending b i false).load (s.setPending b i false).s3c_kbd = .ok ⟨some b, true, true⟩ := by
    show s.load s.s3c_kbd = _
    rw [h.same]
    exact hpoints.load
  refine ⟨s.setPending b i false, ?_, ⟨⟨b, hpoints, fun b' j hj => ?_⟩, h.same, h.lines, h.apart⟩, rfl, rfl⟩
  · simp only [KbdDriver.expire, hb, harrays, cancelDitheringTimerHandler, hload]
    rfl
  · rw [setPending_pending] at hj
    split_ifs at hj
    exact hpending b' j hj

theorem inv_cases (h : Inv pdata s) :
    (Quiet s ∧ (s.point.part = .probe ∨ s.point.part = .fail ∨ Requested pdata s fun _ => False)) ∨
      ∃ deleted freed, Tearing pdata s deleted freed ∧
        (∀ t, Tearing pdata t deleted freed → t.point = s.point → t.lines = s.lines → Inv pdata t) ∧
        ∀ i : Fin n, freed ≤ i → i < deleted → s.point = .stopIrq i ∨ s.lines (pdata.keys i).nIRQ = some false := by
  cases hpoint : s.point with
  | unbound =>
      simp only [Inv, hpoint] at h
      exact .inl ⟨h.2, .inr (.inr h.1)⟩
  | dropKbd =>
      simp only [Inv, hpoint] at h
      exact .inl ⟨h.2.2, .inr (.inr h.2.1)⟩
  | allocTimers =>
      simp only [Inv, hpoint] at h
      exact .inl ⟨h.2.2, .inl rfl⟩
  | freeKbd =>
      simp only [Inv, hpoint] at h
      exact .inl ⟨h.2.2, .inr (.inl rfl)⟩
  | allocInput | register | setInput | setPdata | setDrvdata =>
      simp only [Inv, hpoint] at h
      exact .inl ⟨h.quiet, .inl rfl⟩
  | request | setupTimer =>
      simp only [Inv, hpoint] at h
      exact .inl ⟨h.1.quiet, .inl rfl⟩
  | freeTimers =>
      simp only [Inv, hpoint] at h
      exact .inl ⟨h.quiet, .inr (.inl rfl)⟩
  | undo | undoIrq | undoTimer =>
      simp only [Inv, hpoint] at h
      exact .inl ⟨h.1.quiet, .inr (.inl rfl)⟩
  | bound | unregister | dropTimers =>
      simp only [Inv, hpoint] at h
      refine .inr ⟨_, _, h, fun t ht hpoint' _ => ?_, fun i hle hlt => absurd hlt (Nat.not_lt.mpr hle)⟩
      simpa only [Inv, hpoint'] using ht
  | stop k =>
      simp only [Inv, hpoint] at h
      refine .inr ⟨_, _, h.1, fun t ht hpoint' _ => ?_, fun i hle hlt => absurd hlt (Nat.not_lt.mpr hle)⟩
      simpa only [Inv, hpoint'] using ⟨ht, h.2⟩
  | stopIrq k =>
      simp only [Inv, hpoint] at h
      refine .inr ⟨_, _, h.1, fun t ht hpoint' _ => ?_, fun i hle hlt => .inl ?_⟩
      · simpa only [Inv, hpoint'] using ⟨ht, h.2⟩
      · rw [Nat.le_antisymm hle (Nat.lt_succ_iff.mp hlt)]
  | stopFree k =>
      simp only [Inv, hpoint] at h
      obtain ⟨htearing, hk, hline⟩ := h
      refine .inr ⟨_, _, htearing, fun t ht hpoint' hlines => ?_, fun i hle hlt => .inr ?_⟩
      · simpa only [Inv, hpoint', hlines] using ⟨ht, hk, hline⟩
      · obtain rfl : i = ⟨k, hk⟩ := Fin.ext (Nat.le_antisymm (Nat.lt_succ_iff.mp hlt) hle)
        exact hline

theorem irq_fine (h : Inv pdata s) {line : Int} (hcalm : Calm pdata s (.irq line)) :
    Fine pdata (s.step pdata (.irq line)) := by
  simp only [step]
  split_ifs with hline
  · obtain ⟨hprobe, hfail, hstop⟩ := hcalm hline
    rcases inv_cases h with ⟨-, hpart | hpart | hnone⟩ | ⟨deleted, freed, htearing, hback, hgap⟩
    · exact absurd hpart hprobe
    · exact absurd hpart hfail
    · obtain ⟨i, hfalse, -⟩ := (hnone line).mp (by rw [hline]; rfl)
      exact hfalse.elim
    · obtain ⟨i, hi, rfl⟩ := (htearing.lines line).mp (by rw [hline]; rfl)
      have hdeleted : deleted ≤ i := by
        by_contra hlt
        rcases hgap i hi (Nat.lt_of_not_le hlt) with hpoint | hdisabled
        · exact hstop i hpoint rfl
        · rw [hline] at hdisabled
          cases hdisabled
      obtain ⟨t, ht, htearing', hpoint, hlines⟩ := htearing.interrupt hdeleted
      rw [ht]
      exact .ok (hback t htearing' hpoint hlines)
  · exact .blocked

theorem timer_fine (h : Inv pdata s) (b : Nat) (i : Fin n) (pinval : Bool) :
    Fine pdata (s.step pdata (.timer b i pinval)) := by
  simp only [step]
  cases hb : s.pending b i with
  | false =>
      simp only [KbdDriver.expire, hb]
      exact .blocked
  | true =>
      rcases inv_cases h with ⟨hquiet, -⟩ | ⟨deleted, freed, htearing, hback, -⟩
      · rw [hquiet b i] at hb
        cases hb
      · obtain ⟨t, ht, htearing', hpoint, hlines⟩ := htearing.expire hb pinval
        rw [ht]
        exact .ok (hback t htearing' hpoint hlines)

end Handlers

theorem step_fine (h : Inv pdata s) {act : KbdAct n} (hcalm : Calm pdata s act) : Fine pdata (s.step pdata act) := by
  cases act with
  | probe addr =>
      simp only [step]
      split_ifs with hpoint
      · simp only [Inv, hpoint] at h
        cases addr with
        | none => exact .ok ⟨undoing_start (s := { s with s3c_kbd := none }) (.inl rfl) h.1 h.2, Nat.zero_le n⟩
        | some p =>
            simp only [s3cKbdProbe]
            split_ifs with hfree
            · exact .ok ⟨⟨p, rfl, Function.update_self ..⟩, h⟩
            · exact .blocked
      · exact .blocked
  | remove =>
      simp only [step]
      split_ifs with hpoint
      · simp only [Inv, hpoint] at h
        exact .ok ⟨h.goTo _, Nat.zero_le n⟩
      · exact .blocked
  | next ok addr =>
      simp only [step]
      split
      · exact .blocked
      · exact probeStep_fine h ok addr
      · exact failStep_fine h
      · exact removeStep_fine h
  | irq line => exact irq_fine h hcalm
  | timer b i pinval => exact timer_fine h b i pinval

theorem inv_released (h : Inv pdata s) : Released pdata s := by
  unfold Released
  split
  next hpoint =>
    simp only [Inv, hpoint] at h
    exact h.1.lines
  next hpoint =>
    simp only [Inv, hpoint] at h
    exact h
  next => trivial

theorem inv_start (pdata : KbdPlatform n) : Inv pdata start :=
  ⟨fun _ => iff_of_false Bool.false_ne_true fun ⟨_, hfalse, _⟩ => hfalse, fun _ _ => rfl⟩

/-- While no key bounces in the middle, no handler goes wrong, and a probe that fails gives
back what it has. -/
theorem calm_safe (pdata : KbdPlatform n) (acts : List (KbdAct n)) (hcalm : Along (step pdata) (Calm pdata) start acts) :
    FaultsOnly (fun e => e = .blocked) (exec (step pdata) start acts) ∧
      Always (step pdata) (Released pdata) start acts := by
  have hkeeps : ∀ s act t, Calm pdata s act → Inv pdata s → s.step pdata act = .ok t → Inv pdata t := by
    intro s act t hcalm h hstep
    obtain hblocked | ⟨t', ht', hinv⟩ := step_fine h hcalm
    · rw [hblocked] at hstep
      cases hstep
    · rw [ht'] at hstep
      exact Except.ok.inj hstep ▸ hinv
  have hfaults : ∀ s act, Calm pdata s act → Inv pdata s →
      FaultsOnly (fun e => e = .blocked) (s.step pdata act) := by
    intro s act hcalm h e he
    obtain hblocked | ⟨t', ht', -⟩ := step_fine h hcalm
    · rw [hblocked] at he
      exact (Except.error.inj he).symm
    · rw [ht'] at he
      cases he
  exact ⟨exec_faultsOnly hkeeps hfaults (inv_start pdata) hcalm,
    Always.of_along (fun _ => inv_released) hkeeps (inv_start pdata) hcalm⟩

def oneKey : KbdPlatform 1 := ⟨fun _ => ⟨30, 16⟩⟩

theorem calm_safe_one_key :
    let acts : List (KbdAct 1) := [.probe (some 0)] ++ List.replicate 9 (.next true 0) ++
      [.irq 16, .timer 0 0 false, .irq 16, .remove] ++ List.replicate 7 (.next true 0) ++
      [.probe (some 0), .next true 0, .next true 0, .next false 0, .next true 0]
    FaultsOnly (fun e => e = .blocked) (exec (step oneKey) start acts) ∧
      Always (step oneKey) (Released oneKey) start acts :=
  calm_safe oneKey _ (by decide +kernel)

/-- The key bounces right behind its `request_irq`. -/
theorem early_interrupt_not_preserved :
    ¬ ∀ acts : List (KbdAct 1), FaultsOnly (fun e => e = .blocked) (exec (step oneKey) start acts) := by
  intro h
  have hnull : exec (step oneKey) start
      [.probe (some 0), .next true 0, .next true 0, .next true 0, .irq 16] = .error .null := rfl
  cases h _ .null hnull

/-- The key bounces between `del_timer` and `disable_irq`, and its timer outlives the driver. -/
example : exec (step oneKey) start ([.probe (some 0)] ++ List.replicate 9 (.next true 0) ++
    [.remove, .next true 0, .irq 16] ++ List.replicate 6 (.next true 0) ++ [.timer 0 0 true]) = .error .freed := rfl

end KbdDriver

end Fl2440.Driver
