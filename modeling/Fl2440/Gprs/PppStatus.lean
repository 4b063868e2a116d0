import Fl2440.Gprs.PppContext

/-! When a dialed connection falls back to DISCONNECT. `start_time` is never set, and
an inspection that goes well ends in `set_ppp_disconnect`. -/
namespace Fl2440.Gprs

open Fl2440.Lib

structure Dialing where
  thread : Ppp
  dialed : Nat

namespace Dialing

def init : Dialing := ⟨Ppp.init, 0⟩

def dialTime (dialed : Nat) : PppAct → Nat
  | .dial clock => clock
  | _ => dialed

def step (s : Dialing) (a : PppAct) : Except Halt Dialing := do
  let thread ← s.thread.step a
  .ok ⟨thread, dialTime s.dialed a⟩

def beforePing (ctx : PppCtx) (o : Inspection) : PppCtx :=
  if ctx.status ≠ .connected then inspectDialing ctx o else ctx

def PingDue (ctx : PppCtx) (o : Inspection) : Prop :=
  (beforePing ctx o).ping_interval * 1000 ≤
    timeElapsed (timeNow o.ping_clock) (beforePing ctx o).ping_time

def counters (ctx : PppCtx) (o : Inspection) : BitVec 64 × BitVec 64 :=
  let ctx := checkPppStat (beforePing ctx o) o.stat
  (ctx.ullTx_Bytes, ctx.ullRx_Bytes)

/-- A ping test is made, the loss is at most 80 percent, and neither counter is as before. -/
def Passes (ctx : PppCtx) (o : Inspection) : Prop :=
  PingDue ctx o ∧ ¬ maxPppFailCnt ≤ ctx.fail_cnt ∧ o.lost_percent ≤ 80 ∧
    ctx.ullTx_Bytes ≠ (counters ctx o).1 ∧ ctx.ullRx_Bytes ≠ (counters ctx o).2

def Grown (ctx : PppCtx) (o : Inspection) : Prop :=
  ∃ tx rx, o.stat = some (tx, rx) ∧ ctx.ullTx_Bytes < tx ∧ ctx.ullRx_Bytes < rx

/-- What a connection may fall for. -/
def Reason (s : Dialing) (o : Inspection) : Prop :=
  o.pid ≤ 0 ∧ pppdDialTimeout.toNat ≤ o.dial_clock - s.dialed ∨ maxPppFailCnt ≤ s.thread.ctx.fail_cnt

/-- A step in which a dialed connection falls inspects it and has a reason. -/
def FallsForReason (s : Dialing) (a : PppAct) : Prop :=
  ∀ t, step s a = .ok t → t.thread.point ≠ .exited → s.thread.ctx.status.Dialed →
    ¬ t.thread.ctx.status.Dialed → ∃ o, a = .inspect o ∧ Reason s o

/-- An inspection with little loss and traffic both ways leaves the status CONNECTED. -/
def SuccessConnects (s : Dialing) (a : PppAct) : Prop :=
  ∀ t o, step s a = .ok t → a = .inspect o → Passes s.thread.ctx o → Grown s.thread.ctx o →
    t.thread.ctx.status = .connected ∧ t.thread.ctx.fail_cnt = 0

/-- The inspections that go right: a pppd that is gone is given up after the timeout, and
a test that passes is no success. -/
def InspectsRight (s : Dialing) (a : PppAct) : Prop :=
  match s.thread.point, a with
  | .inspect, .inspect o => s.thread.ctx.comport ≠ none →
      (o.pid ≤ 0 → pppdDialTimeout ≤ timeNow o.dial_clock → Reason s o) ∧
        (Passes s.thread.ctx o → Reason s o ∧ ¬ Grown s.thread.ctx o)
  | _, _ => True

theorem timeElapsed_zero (current : ULong) : timeElapsed current 0 = current := by
  have hlt : ¬ current < 0 := BitVec.not_lt_zero
  rw [timeElapsed, if_neg hlt]
  exact BitVec.sub_zero current

variable {ctx : PppCtx} {o : Inspection}

theorem inspectPing_status (ctx : PppCtx) (tx rx : BitVec 64) (o : Inspection) :
    (inspectPing ctx tx rx o).status =
      if ctx.ping_interval * 1000 ≤ timeElapsed (timeNow o.ping_clock) ctx.ping_time ∧
        (maxPppFailCnt ≤ ctx.fail_cnt ∨ o.lost_percent ≤ 80 ∧
          tx ≠ (checkPppStat ctx o.stat).ullTx_Bytes ∧ rx ≠ (checkPppStat ctx o.stat).ullRx_Bytes)
      then .disconnect else ctx.status := by
  have hstat : ∀ network, checkPppStat { ctx with network := network } o.stat =
      { checkPppStat ctx o.stat with network := network } := by
    intro network
    cases o.stat <;> rfl
  have hstatus : (checkPppStat ctx o.stat).status = ctx.status := by cases o.stat <;> rfl
  unfold inspectPing
  dsimp only
  generalize (if o.lost_percent ≤ 60 then Network.good else Network.bad) = network
  by_cases hdue : ctx.ping_interval * 1000 ≤ timeElapsed (timeNow o.ping_clock) ctx.ping_time
  · rw [if_pos hdue]
    by_cases hfail : maxPppFailCnt ≤ ctx.fail_cnt
    · rw [if_pos hfail, if_pos ⟨hdue, .inl hfail⟩]
      rfl
    · rw [if_neg hfail, hstat]
      dsimp only
      by_cases hlost : o.lost_percent ≤ 80
      · rw [if_pos hlost]
        by_cases hsame : tx = (checkPppStat ctx o.stat).ullTx_Bytes ∨
            rx = (checkPppStat ctx o.stat).ullRx_Bytes
        · rw [if_pos hsame, if_neg]
          · exact hstatus
          · rintro ⟨-, h | ⟨-, htx, hrx⟩⟩
            · exact hfail h
            · exact hsame.elim htx hrx
        · rw [if_neg hsame, if_pos ⟨hdue, .inr ⟨hlost, not_or.mp hsame⟩⟩]
          rfl
      · rw [if_neg hlost, if_neg]
        rintro ⟨-, h | ⟨h, -⟩⟩
        · exact hfail h
        · exact hlost h
  · rw [if_neg hdue, if_neg fun h => hdue h.1]

/-- What `inspect_network_status` may count on in the thread: the timer of the dial is
never started, and the status never gets to CONNECTED. -/
structure Idle (ctx : PppCtx) : Prop where
  start_time : ctx.start_time = 0
  status : ctx.status ≠ .connected
  ping_interval : ctx.ping_interval = pingIntervalTime

theorem inspectDialing_status (h : Idle ctx) (o : Inspection) :
    (inspectDialing ctx o).status =
      if o.pid ≤ 0 ∧ pppdDialTimeout ≤ timeNow o.dial_clock then .disconnect else ctx.status := by
  unfold inspectDialing
  dsimp only
  rw [h.start_time, timeElapsed_zero]
  by_cases hpid : o.pid ≤ 0
  · rw [if_pos hpid]
    by_cases htime : pppdDialTimeout ≤ timeNow o.dial_clock
    · rw [if_pos htime, if_pos ⟨hpid, htime⟩]
      rfl
    · rw [if_neg htime, if_neg fun h => htime h.2]
  · have hgone : ¬ (o.pid ≤ 0 ∧ pppdDialTimeout ≤ timeNow o.dial_clock) := fun h => hpid h.1
    rw [if_neg hpid, if_neg hgone]
    split_ifs <;> rfl

theorem inspectDialing_fail_cnt (ctx : PppCtx) (o : Inspection) :
    (inspectDialing ctx o).fail_cnt = ctx.fail_cnt := by
  unfold inspectDialing
  dsimp only
  split_ifs <;> rfl

theorem inspectDialing_timers (h : Idle ctx) (o : Inspection) :
    (inspectDialing ctx o).start_time = 0 ∧ (inspectDialing ctx o).ping_interval = pingIntervalTime := by
  unfold inspectDialing
  dsimp only
  split_ifs
  · exact ⟨rfl, h.ping_interval⟩
  · exact ⟨h.start_time, h.ping_interval⟩
  · exact ⟨h.start_time, h.ping_interval⟩
  · exact ⟨h.start_time, h.ping_interval⟩

theorem inspectPing_timers (tx rx : BitVec 64) (h : ctx.start_time = 0 ∧ ctx.ping_interval = pingIntervalTime) :
    (inspectPing ctx tx rx o).start_time = 0 ∧ (inspectPing ctx tx rx o).ping_interval = pingIntervalTime := by
  have hstat : ∀ ctx : PppCtx, ctx.start_time = 0 ∧ ctx.ping_interval = pingIntervalTime →
      (checkPppStat ctx o.stat).start_time = 0 ∧ (checkPppStat ctx o.stat).ping_interval = pingIntervalTime := by
    intro ctx h
    cases o.stat <;> exact h
  unfold inspectPing
  dsimp only
  generalize (if o.lost_percent ≤ 60 then Network.good else Network.bad) = network
  split_ifs
  · exact ⟨rfl, h.2⟩
  · exact hstat { ctx with network := network } h
  · exact ⟨rfl, (hstat { ctx with network := network } h).2⟩
  · exact h
  · exact h

theorem inspectNetworkStatus_eq (h : Idle ctx) (hport : ctx.comport ≠ none) (o : Inspection) :
    inspectNetworkStatus ctx o =
      .ok (inspectPing (inspectDialing ctx o) ctx.ullTx_Bytes ctx.ullRx_Bytes o) := by
  unfold inspectNetworkStatus
  dsimp only
  rw [if_pos h.status]
  cases hcomport : ctx.comport with
  | none => exact absurd hcomport hport
  | some i => rfl

theorem inspectNetworkStatus_ok (h : Idle ctx) {ctx' : PppCtx} (hinspect : inspectNetworkStatus ctx o = .ok ctx') :
    ctx.comport ≠ none ∧
      ctx' = inspectPing (inspectDialing ctx o) ctx.ullTx_Bytes ctx.ullRx_Bytes o := by
  have hport : ctx.comport ≠ none := by
    intro hnone
    unfold inspectNetworkStatus at hinspect
    dsimp only at hinspect
    rw [if_pos h.status, hnone] at hinspect
    cases hinspect
  rw [inspectNetworkStatus_eq h hport, Except.ok.injEq] at hinspect
  exact ⟨hport, hinspect.symm⟩

def Falls (ctx : PppCtx) (o : Inspection) : Prop :=
  (o.pid ≤ 0 ∧ pppdDialTimeout ≤ timeNow o.dial_clock) ∨
    (PingDue ctx o ∧ maxPppFailCnt ≤ ctx.fail_cnt) ∨ Passes ctx o

theorem inspect_status (h : Idle ctx) (o : Inspection) :
    (inspectPing (inspectDialing ctx o) ctx.ullTx_Bytes ctx.ullRx_Bytes o).status = .disconnect ∧
        Falls ctx o ∨
      (inspectPing (inspectDialing ctx o) ctx.ullTx_Bytes ctx.ullRx_Bytes o).status = ctx.status ∧
        ¬ Falls ctx o := by
  have hbefore : beforePing ctx o = inspectDialing ctx o := if_pos h.status
  rw [inspectPing_status, inspectDialing_status h, inspectDialing_fail_cnt]
  unfold Falls Passes PingDue counters
  rw [hbefore]
  dsimp only
  by_cases hgone : o.pid ≤ 0 ∧ pppdDialTimeout ≤ timeNow o.dial_clock
  · rw [if_pos hgone, ite_self]
    exact .inl ⟨rfl, .inl hgone⟩
  · rw [if_neg hgone]
    split_ifs with hping
    · refine .inl ⟨rfl, .inr ?_⟩
      by_cases hfail : maxPppFailCnt ≤ ctx.fail_cnt
      · exact .inl ⟨hping.1, hfail⟩
      · exact .inr ⟨hping.1, hfail, hping.2.resolve_left hfail⟩
    · refine .inr ⟨rfl, ?_⟩
      rintro (hgone' | ⟨hdue, hfail⟩ | ⟨hdue, -, hpass⟩)
      · exact hgone hgone'
      · exact hping ⟨hdue, .inl hfail⟩
      · exact hping ⟨hdue, .inr hpass⟩

structure Running (s : Ppp) : Prop where
  idle : Idle s.ctx
  placed : s.Placed

theorem idle_disconnect (h : Idle ctx) : Idle (setPppDisconnect ctx) := ⟨rfl, nofun, h.ping_interval⟩

theorem idle_stopped {s : Ppp} (h : Idle s.ctx) (term : Bool) : Idle (s.stopped term).ctx := by
  cases term with
  | false => exact h
  | true => exact idle_disconnect h

theorem idle_started {s : Ppp} (h : Idle s.ctx) : Idle s.started.ctx := by
  rwa [Ppp.started_ctx]

theorem Idle.inspect (h : Idle ctx) {ctx' : PppCtx} (hinspect : inspectNetworkStatus ctx o = .ok ctx') :
    Idle ctx' := by
  obtain ⟨-, rfl⟩ := inspectNetworkStatus_ok h hinspect
  obtain ⟨hstart, hinterval⟩ := inspectPing_timers (o := o) ctx.ullTx_Bytes ctx.ullRx_Bytes (inspectDialing_timers h o)
  refine ⟨hstart, ?_, hinterval⟩
  rcases inspect_status h o with ⟨hstatus, -⟩ | ⟨hstatus, -⟩
  · rw [hstatus]
    exact nofun
  · rw [hstatus]
    exact h.status

theorem Running.step {s t : Ppp} {a : PppAct} (hs : Running s) (h : s.step a = .ok t) : Running t := by
  have hmoves := Ppp.step_moves h
  refine ⟨?_, hmoves.placed hs.placed⟩
  have hidle := hs.idle
  cases hmoves with
  | absent => exact idle_stopped hidle _
  | free =>
      apply idle_stopped
      exact ⟨hidle.start_time, hidle.status, hidle.ping_interval⟩
  | keep => exact idle_started hidle
  | alloc =>
      apply idle_started
      exact ⟨hidle.start_time, hidle.status, hidle.ping_interval⟩
  | found => exact ⟨rfl, nofun, hidle.ping_interval⟩
  | missing => exact ⟨rfl, nofun, hidle.ping_interval⟩
  | dial => exact ⟨hidle.start_time, nofun, hidle.ping_interval⟩
  | inspect hinspect => exact hidle.inspect hinspect
  | _ => exact hidle

theorem falls_inspect {s t : Ppp} {a : PppAct} (hs : s.Placed) (h : s.Moves a t)
    (hdialed : s.ctx.status.Dialed) (hfallen : ¬ t.ctx.status.Dialed) (hexited : t.point ≠ .exited) :
    ∃ o, a = .inspect o := by
  cases h with
  | @absent _ term =>
      cases term with
      | false => exact absurd hdialed hfallen
      | true => exact absurd rfl hexited
  | @free _ term =>
      cases term with
      | false => exact absurd hdialed hfallen
      | true => exact absurd rfl hexited
  | keep => exact absurd hdialed hs
  | alloc => exact absurd hdialed hs
  | found =>
      rw [hs.1] at hdialed
      exact hdialed.elim
  | missing =>
      rw [hs.1] at hdialed
      exact hdialed.elim
  | dial => exact absurd trivial hfallen
  | @inspect _ _ o => exact ⟨o, rfl⟩
  | _ => exact absurd hdialed hfallen

variable {s : Dialing} {a : PppAct}

theorem step_inspect {t : Dialing} (hs : Running s.thread) (h : step s (.inspect o) = .ok t) :
    s.thread.point = .inspect ∧ s.thread.ctx.comport ≠ none ∧ t.thread.point = .head ∧
      t.thread.ctx = inspectPing (inspectDialing s.thread.ctx o) s.thread.ctx.ullTx_Bytes
        s.thread.ctx.ullRx_Bytes o := by
  obtain ⟨thread, dialed⟩ := s
  obtain ⟨thread', hthread, hok⟩ := bind_eq_ok_iff.mp h
  cases hok
  cases Ppp.step_moves hthread with
  | inspect hinspect =>
      obtain ⟨hport, hctx⟩ := inspectNetworkStatus_ok hs.idle hinspect
      exact ⟨rfl, hport, rfl, hctx⟩

theorem inspectsRight_iff (hs : Running s.thread) :
    FallsForReason s a ∧ SuccessConnects s a ↔ InspectsRight s a := by
  obtain ⟨⟨point, ctx⟩, dialed⟩ := s
  unfold InspectsRight
  split
  case h_1 o hpoint =>
    obtain rfl : point = .inspect := hpoint
    have hstep : ∀ hport : ctx.comport ≠ none, step ⟨⟨.inspect, ctx⟩, dialed⟩ (.inspect o) =
        .ok ⟨⟨.head, inspectPing (inspectDialing ctx o) ctx.ullTx_Bytes ctx.ullRx_Bytes o⟩, dialed⟩ := by
      intro hport
      unfold step Ppp.step
      dsimp only
      rw [inspectNetworkStatus_eq hs.idle hport]
      rfl
    constructor
    · rintro ⟨hfalls, hconnects⟩ hport
      have hreason : Falls ctx o → Reason ⟨⟨.inspect, ctx⟩, dialed⟩ o := by
        intro hfall
        rcases inspect_status hs.idle o with ⟨hstatus, -⟩ | ⟨-, hnot⟩
        · obtain ⟨o', ho', hreason⟩ := hfalls _ (hstep hport) nofun hs.placed
            (fun hdialed => by rw [hstatus] at hdialed; exact hdialed)
          cases ho'
          exact hreason
        · exact absurd hfall hnot
      refine ⟨fun hpid htime => hreason (.inl ⟨hpid, htime⟩), fun hpasses => ⟨hreason (.inr (.inr hpasses)), ?_⟩⟩
      intro hgrown
      obtain ⟨hconnected, -⟩ := hconnects _ o (hstep hport) rfl hpasses hgrown
      rcases inspect_status hs.idle o with ⟨hstatus, -⟩ | ⟨hstatus, -⟩
      · exact nomatch hstatus.symm.trans hconnected
      · exact hs.idle.status (hstatus.symm.trans hconnected)
    · intro hright
      refine ⟨fun t ht _ _ hfallen => ⟨o, rfl, ?_⟩, ?_⟩
      · obtain ⟨-, hport, -, hctx⟩ := step_inspect hs ht
        rcases inspect_status hs.idle o with ⟨-, hfall⟩ | ⟨hstatus, -⟩
        · rcases hfall with ⟨hpid, htime⟩ | ⟨-, hfail⟩ | hpasses
          · exact (hright hport).1 hpid htime
          · exact .inr hfail
          · exact ((hright hport).2 hpasses).1
        · rw [hctx, hstatus] at hfallen
          exact absurd hs.placed hfallen
      · rintro t o' ht ho' hpasses hgrown
        cases ho'
        exact absurd hgrown ((hright (step_inspect hs ht).2.1).2 hpasses).2
  case h_2 hother =>
    refine iff_of_true ⟨?_, ?_⟩ trivial
    · intro t ht hexited hdialed hfallen
      obtain ⟨thread', hthread, hok⟩ := bind_eq_ok_iff.mp ht
      cases hok
      obtain ⟨o, rfl⟩ := falls_inspect hs.placed (Ppp.step_moves hthread) hdialed hfallen hexited
      exact absurd rfl (hother o (step_inspect hs ht).1)
    · rintro t o ht rfl
      exact absurd rfl (hother o (step_inspect hs ht).1)

theorem running_init : Running init.thread := ⟨⟨rfl, nofun, rfl⟩, trivial⟩

theorem running_step {t : Dialing} (hs : Running s.thread) (h : step s a = .ok t) : Running t.thread := by
  obtain ⟨thread, hthread, hok⟩ := bind_eq_ok_iff.mp h
  cases hok
  exact hs.step hthread

/-- The connection falls only for a reason, and success connects it, in every step of a
run if and only if each inspection of the run is right. -/
theorem status_iff_inspectsRight (acts : List PppAct) :
    Along step (fun s a => FallsForReason s a ∧ SuccessConnects s a) init acts ↔
      Along step InspectsRight init acts :=
  along_iff_along (fun _ _ _ hs h => running_step hs h)
    (fun _ _ hs => inspectsRight_iff hs) running_init

def dialing : List PppAct :=
  [.signal false, .ready .allReady, .alloc (some 0), .select true, .dial 1700000000000,
    .signal false, .ready .allReady]

/-- After 30 seconds pppd runs, no ping is lost, and there is traffic both ways. -/
def healthy : Inspection :=
  ⟨100, 1700000030000, some "10.0.0.2", 1700000030000, 0, some (1000, 1000), 1700000035000⟩

theorem healthy_disconnects :
    ¬ Along step (fun s a => FallsForReason s a ∧ SuccessConnects s a) init (dialing ++ [.inspect healthy]) := by
  intro h
  have hlast := (h.later rfl).1
  have hconnected := (hlast.2 _ healthy rfl rfl (by unfold Passes PingDue; decide)
    ⟨1000, 1000, rfl, by decide, by decide⟩).1
  exact nomatch hconnected

end Dialing

end Fl2440.Gprs
