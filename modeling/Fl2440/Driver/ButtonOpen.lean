import Mathlib.Data.Finset.Lattice.Fold
import Mathlib.Data.List.Perm.Basic
import Mathlib.Order.Lattice.Nat
import Fl2440.Driver.PlatButton

/-! `button_open` and `button_release`: the two buffers of the device and its interrupts.
All openers share them. -/
namespace Fl2440.Driver

open Fl2440.Lib

/-- What the driver has from the kernel. The pointers are those of `button_device`. -/
structure Held where
  /-- buffers that have been given out and not been freed -/
  live : Finset Nat
  timers : Option Nat
  status : Option Nat
  /-- the actions on interrupt lines, each with its `dev_id` -/
  irqs : List (Int × Nat)

structure OpenCalls (n : Nat) where
  timersFails : Bool
  statusFails : Bool
  refuses : Fin n → Bool

def ENOMEM : Int := 12

def EBUSY : Int := 16

namespace Held

def kmalloc (s : Held) (fails : Bool) : Option Nat × Held :=
  if fails then (none, s)
  else
    let p := s.live.sup id + 1
    (some p, { s with live := insert p s.live })

def kfree (s : Held) : Option Nat → Except Fault Held
  | none => .ok s
  | some p => if p ∈ s.live then .ok { s with live := s.live.erase p } else .error .freed

/-- A line without `IRQF_SHARED` has one action. -/
def requestIrq (s : Held) (refuses : Bool) (line : Int) (dev_id : Nat) : Option Held :=
  if refuses ∨ line ∈ s.irqs.map Prod.fst then none else some { s with irqs := s.irqs ++ [(line, dev_id)] }

def freeIrq (s : Held) (line : Int) (dev_id : Nat) : Held := { s with irqs := s.irqs.erase (line, dev_id) }

variable {n : Nat}

/-- The loop over the buttons: the states it passes, the one it leaves, and the button
whose interrupt is refused. -/
def requestAll (pdata : Platform n) (calls : OpenCalls n) (s : Held) : List (Fin n) → List Held × Held × Option (Fin n)
  | [] => ([], s, none)
  | i :: rest =>
      match s.requestIrq (calls.refuses i) (pdata.nIRQ i) i with
      | none => ([], s, some i)
      | some t =>
          let (passed, u, refused) := requestAll pdata calls t rest
          (t :: passed, u, refused)

/-- `while (--i)`; from 0 it goes to the button before the first one. -/
def unwind (pdata : Platform n) (s : Held) : (i : Nat) → i < n → List Held × Except Fault Held
  | 0, _ => ([], .error .bounds)
  | 1, _ => ([], .ok s)
  | i + 2, h =>
      let t := s.freeIrq (pdata.nIRQ ⟨i + 1, Nat.lt_of_succ_lt h⟩) (i + 1)
      let (passed, u) := unwind pdata t (i + 1) (Nat.lt_of_succ_lt h)
      (t :: passed, u)

/-- From `ERROR1` on. -/
def undo (pdata : Platform n) (s : Held) (i : Fin n) : List Held × Except Fault Held :=
  match s.kfree s.status with
  | .error e => ([], .error e)
  | .ok t =>
      let (passed, u) := unwind pdata t i i.isLt
      match u with
      | .error e => (t :: passed, .error e)
      | .ok u =>
          match u.kfree u.timers with
          | .error e => (t :: passed, .error e)
          | .ok v => (t :: passed ++ [v], .ok v)

/-- `button_open`: the states in which an interrupt could come, and the end. -/
def buttonOpen (pdata : Platform n) (calls : OpenCalls n) (s : Held) : List Held × Except Fault (Held × Int) :=
  let (timers, s₁) := s.kmalloc calls.timersFails
  let s₁ := { s₁ with timers := timers }
  if timers = none then ([s₁], .ok (s₁, -ENOMEM))
  else
    let (status, s₂) := s₁.kmalloc calls.statusFails
    let s₂ := { s₂ with status := status }
    if status = none then
      match s₂.kfree s₂.timers with
      | .error e => ([s₁, s₂], .error e)
      | .ok s₃ => ([s₁, s₂, s₃], .ok (s₃, -ENOMEM))
    else
      let (passed, t, refused) := requestAll pdata calls s₂ (List.finRange n)
      match refused with
      | none => (s₁ :: s₂ :: passed, .ok (t, 0))
      | some i =>
          let (later, u) := undo pdata t i
          (s₁ :: s₂ :: passed ++ later, (fun u => (u, -EBUSY)) <$> u)

def buttonRelease (pdata : Platform n) (s : Held) : Except Fault Held := do
  let s := (List.finRange n).foldl (fun s i => s.freeIrq (pdata.nIRQ i) i) s
  let s ← s.kfree s.timers
  s.kfree s.status

/-- An interrupt that comes finds the buffers it uses. -/
def InterruptSafe (s : Held) : Prop :=
  s.irqs ≠ [] → (∃ p ∈ s.live, s.timers = some p) ∧ ∃ p ∈ s.live, s.status = some p

/-- A `button_open` that returns an error has given back what it got, and nothing else, at
no time left an interrupt with a freed buffer, and left another opener's buffers in place. -/
def AllOrNothing (pdata : Platform n) (calls : OpenCalls n) (s : Held) : Prop :=
  ∃ t ret, (buttonOpen pdata calls s).2 = .ok (t, ret) ∧
    (ret ≠ 0 → t.live = s.live ∧ t.irqs = s.irqs ∧ (∀ u ∈ (buttonOpen pdata calls s).1, InterruptSafe u) ∧
      (s.irqs ≠ [] → t.timers = s.timers ∧ t.status = s.status))

structure Opened (pdata : Platform n) (s : Held) : Prop where
  irqs : s.irqs = (List.finRange n).map fun i => (pdata.nIRQ i, i.val)
  timers : ∃ p ∈ s.live, s.timers = some p
  status : ∃ p ∈ s.live, s.status = some p
  apart : s.timers ≠ s.status

/-- The kernel grants every interrupt, and no two buttons share a line. -/
def Granted (pdata : Platform n) (calls : OpenCalls n) : Prop :=
  (∀ i, calls.refuses i = false) ∧ Function.Injective pdata.nIRQ

variable {pdata : Platform n} {calls : OpenCalls n} {s : Held}

def next (s : Held) : Nat := s.live.sup id + 1

theorem next_notMem (s : Held) : s.next ∉ s.live := by
  intro h
  have hle : id s.next ≤ s.live.sup id := Finset.le_sup h
  exact absurd hle (Nat.not_succ_le_self _)

def timed (s : Held) : Held := { s with live := insert s.next s.live, timers := some s.next }

def buffered (s : Held) : Held :=
  { s.timed with live := insert s.timed.next s.timed.live, status := some s.timed.next }

theorem buttonOpen_timers (h : calls.timersFails = true) :
    buttonOpen pdata calls s = ([{ s with timers := none }], .ok ({ s with timers := none }, -ENOMEM)) := by
  simp [buttonOpen, kmalloc, h]

theorem buttonOpen_status (h : calls.timersFails = false) (h' : calls.statusFails = true) :
    buttonOpen pdata calls s =
      ([s.timed, { s.timed with status := none }, { s.timed with live := s.live, status := none }],
        .ok ({ s.timed with live := s.live, status := none }, -ENOMEM)) := by
  have herase : (insert s.next s.live).erase s.next = s.live := Finset.erase_insert s.next_notMem
  simp only [next] at herase
  simp [buttonOpen, kmalloc, kfree, timed, next, h, h', herase]

theorem buttonOpen_irqs (h : calls.timersFails = false) (h' : calls.statusFails = false) :
    buttonOpen pdata calls s =
      let (passed, t, refused) := requestAll pdata calls s.buffered (List.finRange n)
      match refused with
      | none => (s.timed :: s.buffered :: passed, .ok (t, 0))
      | some i =>
          let (later, u) := undo pdata t i
          (s.timed :: s.buffered :: passed ++ later, (fun u => (u, -EBUSY)) <$> u) := by
  simp [buttonOpen, kmalloc, timed, buffered, next, h, h']

theorem requestIrq_eq_some {t : Held} {refuses : Bool} {line : Int} {dev_id : Nat} :
    s.requestIrq refuses line dev_id = some t ↔ refuses = false ∧ line ∉ s.irqs.map Prod.fst ∧
      t = { s with irqs := s.irqs ++ [(line, dev_id)] } := by
  unfold requestIrq
  split_ifs with h
  · constructor
    · intro hnone
      cases hnone
    · rintro ⟨hgrants, hfree, -⟩
      rcases h with h | h
      · exact absurd (hgrants.symm.trans h) Bool.false_ne_true
      · exact absurd h hfree
  · rw [not_or] at h
    constructor
    · intro ht
      exact ⟨Bool.eq_false_iff.mpr h.1, h.2, (Option.some.inj ht).symm⟩
    · rintro ⟨-, -, rfl⟩
      rfl

theorem requestAll_granted (list : List (Fin n)) :
    (requestAll pdata calls s list).2.2 = none ↔ (∀ i ∈ list, calls.refuses i = false) ∧
      (list.map pdata.nIRQ).Nodup ∧ ∀ i ∈ list, pdata.nIRQ i ∉ s.irqs.map Prod.fst := by
  induction list generalizing s with
  | nil => simp [requestAll]
  | cons i list ih =>
      rw [requestAll]
      cases hrequest : s.requestIrq (calls.refuses i) (pdata.nIRQ i) i with
      | none =>
          refine iff_of_false nofun ?_
          rintro ⟨hgrants, -, hfree⟩
          have hsome : s.requestIrq (calls.refuses i) (pdata.nIRQ i) i = some _ :=
            requestIrq_eq_some.mpr ⟨hgrants i List.mem_cons_self, hfree i List.mem_cons_self, rfl⟩
          exact absurd (hrequest.symm.trans hsome) nofun
      | some t =>
          obtain ⟨hgrants, hfree, rfl⟩ := requestIrq_eq_some.mp hrequest
          have hrest : ∀ j ∈ list, pdata.nIRQ j ∉ (s.irqs ++ [(pdata.nIRQ i, i.val)]).map Prod.fst ↔
              pdata.nIRQ j ∉ s.irqs.map Prod.fst ∧ pdata.nIRQ j ≠ pdata.nIRQ i := by
            intro j hj
            simp
          simp only [ih, List.forall_mem_cons, List.map_cons, List.nodup_cons, List.mem_map]
          grind

theorem requestAll_taken (pdata : Platform n) (calls : OpenCalls n) (s : Held) (list : List (Fin n)) :
    ∃ taken rest, list = taken ++ rest ∧ (requestAll pdata calls s list).2.2 = rest.head? ∧
      (requestAll pdata calls s list).2.1 =
        { s with irqs := s.irqs ++ taken.map fun j => (pdata.nIRQ j, j.val) } := by
  induction list generalizing s with
  | nil => exact ⟨[], [], rfl, rfl, by simp [requestAll]⟩
  | cons j list ih =>
      rw [requestAll]
      cases hrequest : s.requestIrq (calls.refuses j) (pdata.nIRQ j) j with
      | none => exact ⟨[], j :: list, rfl, rfl, by simp⟩
      | some t =>
          obtain ⟨-, -, rfl⟩ := requestIrq_eq_some.mp hrequest
          obtain ⟨taken, rest, rfl, hrefused, hend⟩ := ih { s with irqs := s.irqs ++ [(pdata.nIRQ j, j.val)] }
          refine ⟨j :: taken, rest, rfl, hrefused, hend.trans ?_⟩
          simp

theorem length_taken {i : Fin n} {taken rest : List (Fin n)} (h : List.finRange n = taken ++ i :: rest) :
    taken.length = i.val := by
  have hlt : taken.length < (List.finRange n).length := by
    rw [h]
    simp
  have hget : (List.finRange n)[taken.length] = i := by
    simp [h]
  rw [List.getElem_finRange] at hget
  simpa using congrArg Fin.val hget

theorem requestAll_finRange_granted (h : s.irqs = []) :
    (requestAll pdata calls s (List.finRange n)).2.2 = none ↔ Granted pdata calls := by
  rw [requestAll_granted, h, ← List.ofFn_eq_map, List.nodup_ofFn]
  simp [Granted]

theorem buttonOpen_granted (h : calls.timersFails = false) (h' : calls.statusFails = false)
    (hall : (requestAll pdata calls s.buffered (List.finRange n)).2.2 = none) :
    (buttonOpen pdata calls s).2 = .ok ((requestAll pdata calls s.buffered (List.finRange n)).2.1, 0) := by
  simp only [buttonOpen_irqs h h', hall]

theorem buttonOpen_refused (h : calls.timersFails = false) (h' : calls.statusFails = false) {i : Fin n}
    (hrefused : (requestAll pdata calls s.buffered (List.finRange n)).2.2 = some i) :
    ∃ passed t, t.live = s.buffered.live ∧ t.status = s.buffered.status ∧ (0 < i.val → t.irqs ≠ []) ∧
      buttonOpen pdata calls s =
        (passed ++ (undo pdata t i).1, (fun u => (u, -EBUSY)) <$> (undo pdata t i).2) := by
  obtain ⟨taken, rest, hlist, hhead, hend⟩ := requestAll_taken pdata calls s.buffered (List.finRange n)
  obtain ⟨later, rfl⟩ := List.head?_eq_some_iff.mp (hhead.symm.trans hrefused)
  have hlength := length_taken hlist
  refine ⟨s.timed :: s.buffered :: (requestAll pdata calls s.buffered (List.finRange n)).1,
    (requestAll pdata calls s.buffered (List.finRange n)).2.1, ?_, ?_, ?_, ?_⟩
  · simp [hend]
  · simp [hend]
  · intro hpos
    have htaken : taken ≠ [] := List.ne_nil_of_length_pos (hlength ▸ hpos)
    simp [hend, htaken]
  · rw [buttonOpen_irqs h h']
    simp only [hrefused]

@[simp]
theorem kfree_some {p : Nat} (h : p ∈ s.live) : s.kfree (some p) = .ok { s with live := s.live.erase p } :=
  if_pos h

theorem not_allOrNothing_of_refused (h : calls.timersFails = false) (h' : calls.statusFails = false) {i : Fin n}
    (hrefused : (requestAll pdata calls s.buffered (List.finRange n)).2.2 = some i) : ¬ AllOrNothing pdata calls s := by
  obtain ⟨passed, t, hlive, hstatus, hirqs, hopen⟩ := buttonOpen_refused h h' hrefused
  have hmem : s.timed.next ∈ t.live := by
    simp [hlive, buffered]
  have hfree : t.kfree t.status = .ok { t with live := t.live.erase s.timed.next } := by
    have hsome : t.status = some s.timed.next := hstatus
    exact (congrArg t.kfree hsome).trans (kfree_some hmem)
  rintro ⟨u, ret, hend, hgiven⟩
  rw [hopen] at hend hgiven
  by_cases hpos : 0 < i.val
  · have hret : ret ≠ 0 := by
      cases hundo : (undo pdata t i).2 with
      | error e => simp [hundo] at hend
      | ok v =>
          rw [hundo] at hend
          cases hend
          decide
    have hstate : { t with live := t.live.erase s.timed.next } ∈ (undo pdata t i).1 := by
      unfold undo
      simp only [hfree]
      split
      · simp
      · split <;> simp
    obtain ⟨-, p, hp, hsome⟩ := (hgiven hret).2.2.1 _ (List.mem_append_right _ hstate) (hirqs hpos)
    have hsame : p = s.timed.next := Option.some.inj (hsome.symm.trans hstatus)
    simp [hsame] at hp
  · -- the loop runs off before the first button
    have hzero : i = ⟨0, i.pos⟩ := Fin.ext (Nat.eq_zero_of_not_pos hpos)
    rw [hzero] at hend
    simp [undo, hfree, unwind] at hend

theorem irqs_ne_nil_of_opened (hn : 0 < n) (h : Opened pdata s) : s.irqs ≠ [] := by
  have : List.finRange n ≠ [] := by
    simpa [List.finRange_eq_nil_iff] using hn.ne'
  simpa [h.irqs] using this

theorem requestAll_opened (hn : 0 < n) (h : Opened pdata s) :
    (requestAll pdata calls s.buffered (List.finRange n)).2.2 ≠ none := by
  intro hall
  have hfree := (requestAll_granted _).mp hall |>.2.2 ⟨0, hn⟩ (List.mem_finRange _)
  apply hfree
  simp [buffered, timed, h.irqs]

theorem not_allOrNothing_of_opened (hn : 0 < n) (h : Opened pdata s) : ¬ AllOrNothing pdata calls s := by
  obtain ⟨p, hp, htimers⟩ := h.timers
  have hirqs := irqs_ne_nil_of_opened hn h
  cases htimersFails : calls.timersFails with
  | true =>
      rintro ⟨u, ret, hend, hgiven⟩
      rw [buttonOpen_timers htimersFails] at hend hgiven
      cases hend
      have hkept := ((hgiven (by decide)).2.2.2 hirqs).1
      simp [htimers] at hkept
  | false =>
      cases hstatusFails : calls.statusFails with
      | true =>
          rintro ⟨u, ret, hend, hgiven⟩
          rw [buttonOpen_status htimersFails hstatusFails] at hend hgiven
          cases hend
          have hkept : some s.next = s.timers := ((hgiven (by decide)).2.2.2 hirqs).1
          rw [htimers] at hkept
          exact s.next_notMem (Option.some.inj hkept ▸ hp)
      | false =>
          cases hrefused : (requestAll pdata calls s.buffered (List.finRange n)).2.2 with
          | none => exact absurd hrefused (requestAll_opened hn h)
          | some i => exact not_allOrNothing_of_refused htimersFails hstatusFails hrefused

theorem allOrNothing_of_closed (h : s.irqs = []) :
    AllOrNothing pdata calls s ↔ calls.timersFails = true ∨ calls.statusFails = true ∨ Granted pdata calls := by
  cases htimersFails : calls.timersFails with
  | true =>
      simp [AllOrNothing, buttonOpen_timers htimersFails, InterruptSafe, h]
  | false =>
      cases hstatusFails : calls.statusFails with
      | true =>
          simp [AllOrNothing, buttonOpen_status htimersFails hstatusFails, InterruptSafe, h, timed]
      | false =>
          have hbuffered : s.buffered.irqs = [] := h
          cases hrefused : (requestAll pdata calls s.buffered (List.finRange n)).2.2 with
          | none =>
              have hgranted := (requestAll_finRange_granted hbuffered).mp hrefused
              refine iff_of_true ⟨_, 0, buttonOpen_granted htimersFails hstatusFails hrefused, ?_⟩ (.inr (.inr hgranted))
              intro hne
              exact absurd rfl hne
          | some i =>
              have hrefusal : ¬ Granted pdata calls := by
                rw [← requestAll_finRange_granted hbuffered, hrefused]
                nofun
              have hnot := not_allOrNothing_of_refused htimersFails hstatusFails hrefused
              simp [hnot, hrefusal]

theorem buttonOpen_opens (h : calls.timersFails = false) (h' : calls.statusFails = false) (hclosed : s.irqs = [])
    (hgranted : Granted pdata calls) :
    ∃ t, (buttonOpen pdata calls s).2 = .ok (t, 0) ∧ Opened pdata t ∧
      t.timers = some s.next ∧ t.status = some s.timed.next ∧ t.live = s.buffered.live := by
  have hall := (requestAll_finRange_granted (s := s.buffered) hclosed).mpr hgranted
  refine ⟨_, buttonOpen_granted h h' hall, ?_⟩
  obtain ⟨taken, rest, hlist, hhead, hend⟩ := requestAll_taken pdata calls s.buffered (List.finRange n)
  have hnone : rest = [] := List.head?_eq_none_iff.mp (hhead.symm.trans hall)
  rw [hnone, List.append_nil] at hlist
  rw [hend, ← hlist]
  have hapart : s.next ≠ s.timed.next := by
    intro heq
    apply s.timed.next_notMem
    rw [← heq]
    exact Finset.mem_insert_self _ _
  refine ⟨?_, rfl, rfl, rfl⟩
  constructor
  · simp [buffered, timed, hclosed]
  · simp [buffered, timed]
  · simp [buffered]
  · simpa [buffered, timed] using hapart

theorem foldl_freeIrq (list : List (Fin n)) (h : s.irqs = list.map fun i => (pdata.nIRQ i, i.val)) :
    list.foldl (fun s i => s.freeIrq (pdata.nIRQ i) i) s = { s with irqs := [] } := by
  induction list generalizing s with
  | nil =>
      simp only [List.map_nil] at h
      simp [← h]
  | cons i list ih =>
      have hrest : (s.freeIrq (pdata.nIRQ i) i).irqs = list.map fun i => (pdata.nIRQ i, i.val) := by
        simp [freeIrq, h]
      rw [List.foldl_cons, ih hrest]
      rfl

theorem buttonRelease_opened (h : Opened pdata s) :
    ∃ p q, s.timers = some p ∧ s.status = some q ∧
      buttonRelease pdata s = .ok { s with live := (s.live.erase p).erase q, irqs := [] } := by
  obtain ⟨p, hp, htimers⟩ := h.timers
  obtain ⟨q, hq, hstatus⟩ := h.status
  have hne : q ≠ p := by
    rintro rfl
    exact h.apart (htimers.trans hstatus.symm)
  refine ⟨p, q, htimers, hstatus, ?_⟩
  have hmem : q ∈ s.live.erase p := Finset.mem_erase.mpr ⟨hne, hq⟩
  unfold buttonRelease
  rw [foldl_freeIrq _ h.irqs]
  simp [htimers, hstatus, kfree, hp, hmem, bind, Except.bind]

/-- After the first opener's release there is what there was before. -/
theorem buttonRelease_buttonOpen (h : calls.timersFails = false) (h' : calls.statusFails = false) (hclosed : s.irqs = [])
    (hgranted : Granted pdata calls) :
    ∃ t u, (buttonOpen pdata calls s).2 = .ok (t, 0) ∧ buttonRelease pdata t = .ok u ∧ u.live = s.live ∧ u.irqs = [] := by
  obtain ⟨t, hopen, hopened, htimers, hstatus, hlive⟩ := buttonOpen_opens h h' hclosed hgranted
  obtain ⟨p, q, hp, hq, hrelease⟩ := buttonRelease_opened hopened
  cases hp.symm.trans htimers
  cases hq.symm.trans hstatus
  refine ⟨t, _, hopen, hrelease, ?_, rfl⟩
  calc (t.live.erase s.next).erase s.timed.next
      = (s.buffered.live.erase s.timed.next).erase s.next := by rw [hlive, Finset.erase_right_comm]
    _ = s.timed.live.erase s.next := congrArg (·.erase s.next) (Finset.erase_insert s.timed.next_notMem)
    _ = s.live := Finset.erase_insert s.next_notMem

/-- An open is all or nothing just when the device is closed and no interrupt is refused,
or a buffer was refused before. -/
theorem allOrNothing_iff (hn : 0 < n) (hstart : s.irqs = [] ∨ Opened pdata s) :
    AllOrNothing pdata calls s ↔
      s.irqs = [] ∧ (calls.timersFails = true ∨ calls.statusFails = true ∨ Granted pdata calls) := by
  rcases hstart with hclosed | hopened
  · rw [allOrNothing_of_closed hclosed]
    simp [hclosed]
  · refine iff_of_false (not_allOrNothing_of_opened hn hopened) ?_
    rintro ⟨hclosed, -⟩
    exact irqs_ne_nil_of_opened hn hopened hclosed

theorem allOrNothing_no_status :
    AllOrNothing ⟨fun i : Fin 4 => i.val, 100⟩ ⟨false, true, fun _ => false⟩ ⟨∅, none, none, []⟩ :=
  (allOrNothing_iff (by decide) (.inl rfl)).mpr ⟨rfl, .inr (.inl rfl)⟩

/-- The second of four interrupts is refused: the first one stays, without its status buffer. -/
theorem second_interrupt_refused :
    ¬ ∀ n, 0 < n → ∀ (pdata : Platform n) calls (s : Held), s.irqs = [] ∨ Opened pdata s →
      AllOrNothing pdata calls s := by
  intro h
  have hopen := h 4 (by decide) ⟨fun i => i.val, 100⟩ ⟨false, false, fun i => i = 1⟩ ⟨∅, none, none, []⟩ (.inl rfl)
  rw [allOrNothing_of_closed rfl] at hopen
  revert hopen
  simp [Granted]

end Held

end Fl2440.Driver
