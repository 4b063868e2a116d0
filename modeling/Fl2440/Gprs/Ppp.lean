import Fl2440.Lib.Run
import Fl2440.Gprs.Module

/-! The PPP thread, `cp_ppp.c`. The thread is a machine: a step is what it does up to
its next access to data of other threads, or to its next question to the system. -/
namespace Fl2440.Gprs

open Fl2440.Lib

abbrev ULong := BitVec 32

def timeNow (millis : Nat) : ULong := BitVec.ofNat 32 millis

/-- `time_elapsed`, where `time_now` gives `current`. -/
def timeElapsed (current start : ULong) : ULong :=
  if current < start then (0xFFFFFFFF - start) + current else current - start

def pppdDialTimeout : ULong := 20000
def pingIntervalTime : ULong := 10000
def maxPppFailCnt : UChar := 3

inductive Status where
  | disconnect
  | selectedApn
  | connecting
  | connected
deriving DecidableEq

def Status.Dialed : Status → Prop
  | disconnect => False
  | selectedApn => False
  | connecting => True
  | connected => True

instance : (status : Status) → Decidable status.Dialed
  | .disconnect => .isFalse id
  | .selectedApn => .isFalse id
  | .connecting => .isTrue trivial
  | .connected => .isTrue trivial

inductive Network where
  | stop
  | conn
  | bad
  | good
deriving DecidableEq

structure PppCtx where
  status : Status
  network : Network
  netaddr : String
  start_time : ULong
  ping_time : ULong
  pid : Int
  ullTx_Bytes : BitVec 64
  ullRx_Bytes : BitVec 64
  fail_cnt : UChar
  ping_interval : ULong
  comport : Option Nat
deriving DecidableEq

def setPppDisconnect (ctx : PppCtx) : PppCtx :=
  { ctx with
    status := .disconnect
    start_time := 0
    ping_time := 0
    netaddr := ""
    pid := 0
    ullTx_Bytes := 0
    ullRx_Bytes := 0
    network := .stop }

def pppContextInit : PppCtx where
  status := .disconnect
  network := .stop
  netaddr := ""
  start_time := 0
  ping_time := 0
  pid := 0
  ullTx_Bytes := 0
  ullRx_Bytes := 0
  fail_cnt := 0
  ping_interval := pingIntervalTime
  comport := none

/-- What one call of `inspect_network_status` finds. Times are in milliseconds, each
taken where the clock is read. -/
structure Inspection where
  pid : Int
  dial_clock : Nat
  /-- the local address, if `check_ppp_ipaddr` gets one -/
  netaddr : Option String
  ping_clock : Nat
  lost_percent : Int
  /-- the bytes sent and received, if `check_ppp_stat` finds the interface -/
  stat : Option (BitVec 64 × BitVec 64)
  end_clock : Nat

/-- The part for a context that is not CONNECTED. -/
def inspectDialing (ctx : PppCtx) (o : Inspection) : PppCtx :=
  let ctx := { ctx with ping_time := 0, ullTx_Bytes := 0, ullRx_Bytes := 0, pid := o.pid }
  if o.pid ≤ 0 then
    if pppdDialTimeout ≤ timeElapsed (timeNow o.dial_clock) ctx.start_time then setPppDisconnect ctx
    else ctx
  else if ctx.netaddr = "" then { ctx with netaddr := o.netaddr.getD ctx.netaddr }
  else ctx

def checkPppStat (ctx : PppCtx) (stat : Option (BitVec 64 × BitVec 64)) : PppCtx :=
  match stat with
  | some (tx, rx) => { ctx with ullTx_Bytes := tx, ullRx_Bytes := rx }
  | none => ctx

def inspectPing (ctx : PppCtx) (last_tx_bytes last_rx_bytes : BitVec 64) (o : Inspection) : PppCtx :=
  if ctx.ping_interval * 1000 ≤ timeElapsed (timeNow o.ping_clock) ctx.ping_time then
    if maxPppFailCnt ≤ ctx.fail_cnt then setPppDisconnect ctx
    else
      let ctx := { ctx with network := if o.lost_percent ≤ 60 then .good else .bad }
      let ctx :=
        if o.lost_percent ≤ 80 then
          let ctx := checkPppStat ctx o.stat
          if last_tx_bytes = ctx.ullTx_Bytes ∨ last_rx_bytes = ctx.ullRx_Bytes then
            { ctx with fail_cnt := ctx.fail_cnt + 1 }
          else { setPppDisconnect ctx with fail_cnt := 0 }
        else { ctx with fail_cnt := ctx.fail_cnt + 1 }
      { ctx with ping_time := timeNow o.end_clock }
  else ctx

inductive Halt where
  /-- what is asked for is not what it is about to do -/
  | disabled
  | fault (f : Fault)
deriving DecidableEq

def inspectNetworkStatus (ctx : PppCtx) (o : Inspection) : Except Halt PppCtx :=
  let last_tx_bytes := ctx.ullTx_Bytes
  let last_rx_bytes := ctx.ullRx_Bytes
  if ctx.status ≠ .connected then
    match ctx.comport with
    | none => .error (.fault .null)
    | some _ => .ok (inspectPing (inspectDialing ctx o) last_tx_bytes last_rx_bytes o)
  else .ok (inspectPing ctx last_tx_bytes last_rx_bytes o)

/-- Where the thread stands. `stop_ppp_connect` is called from the loop and, with
`term`, from `ppp_context_term`. -/
inductive PppPoint where
  | head
  | ready
  | stop (term : Bool)
  | kill (term : Bool)
  | free (term : Bool)
  | start
  | select
  | request
  | dial
  | inspect
  | exited
deriving DecidableEq

structure Ppp where
  point : PppPoint
  ctx : PppCtx
deriving DecidableEq

inductive PppAct where
  /-- it looks at `g_cp_signal.stop` -/
  | signal (stop : Bool)
  /-- it looks at `module->ready` -/
  | ready (ready : Ready)
  /-- `check_ppp_interface` -/
  | interface (present : Bool)
  /-- one round of `kill_pppd_process` -/
  | kill (pid : Int)
  | free
  /-- `alloc_gsm_dataport`, if it has no port -/
  | alloc (comport : Option Nat)
  /-- `select_apn` -/
  | select (found : Bool)
  | request
  /-- `start_ppp_dial_cmd` -/
  | dial (clock : Nat)
  | inspect (o : Inspection)

namespace Ppp

def init : Ppp := ⟨.head, pppContextInit⟩

def stopped (s : Ppp) : Bool → Ppp
  | false => { s with point := .head }
  | true => ⟨.exited, setPppDisconnect s.ctx⟩

def started (s : Ppp) : Ppp :=
  match s.ctx.status with
  | .disconnect => { s with point := .select }
  | .selectedApn => { s with point := .dial }
  | _ => { s with point := .head }

def step (s : Ppp) (a : PppAct) : Except Halt Ppp :=
  match s.point, a with
  | .head, .signal stop => .ok { s with point := if stop then .stop true else .ready }
  | .ready, .ready ready =>
      if ready ≠ .allReady then
        .ok { s with point := if s.ctx.status.Dialed then .stop false else .head }
      else .ok { s with point := if s.ctx.status.Dialed then .inspect else .start }
  | .stop term, .interface present =>
      if !present then .ok (s.stopped term)
      -- `kill_pppd_process` goes to `comport->dev_name` first
      else if s.ctx.comport = none then .error (.fault .null)
      else .ok { s with point := .kill term }
  | .kill term, .kill pid =>
      if s.ctx.comport = none then .error (.fault .null)
      else if pid > 0 then .ok s
      else .ok { s with point := .free term }
  | .free term, .free => .ok (stopped { s with ctx := { s.ctx with comport := none } } term)
  | .start, .alloc comport =>
      match s.ctx.comport, comport with
      | some _, none => .ok s.started
      | some _, some _ => .error .disabled
      | none, none => .ok { s with point := .head }
      | none, some i => .ok (started { s with ctx := { s.ctx with comport := some i } })
  | .select, .select found =>
      let ctx := setPppDisconnect s.ctx
      if found then .ok ⟨.dial, { ctx with fail_cnt := 0, status := .selectedApn }⟩
      else .ok ⟨.request, { ctx with fail_cnt := ctx.fail_cnt + 1 }⟩
  | .request, .request => .ok { s with point := .head }
  | .dial, .dial _ => .ok ⟨.head, { s.ctx with network := .conn, status := .connecting }⟩
  | .inspect, .inspect o => do
      let ctx ← inspectNetworkStatus s.ctx o
      .ok ⟨.head, ctx⟩
  | _, _ => .error .disabled

inductive Moves : Ppp → PppAct → Ppp → Prop
  | leave {ctx} : Moves ⟨.head, ctx⟩ (.signal true) ⟨.stop true, ctx⟩
  | enter {ctx} : Moves ⟨.head, ctx⟩ (.signal false) ⟨.ready, ctx⟩
  | withdraw {ctx ready} (hready : ready ≠ .allReady) (hdialed : ctx.status.Dialed) :
      Moves ⟨.ready, ctx⟩ (.ready ready) ⟨.stop false, ctx⟩
  | idle {ctx ready} (hready : ready ≠ .allReady) (hdialed : ¬ ctx.status.Dialed) :
      Moves ⟨.ready, ctx⟩ (.ready ready) ⟨.head, ctx⟩
  | look {ctx} (hdialed : ctx.status.Dialed) : Moves ⟨.ready, ctx⟩ (.ready .allReady) ⟨.inspect, ctx⟩
  | connect {ctx} (hdialed : ¬ ctx.status.Dialed) : Moves ⟨.ready, ctx⟩ (.ready .allReady) ⟨.start, ctx⟩
  | absent {ctx term} : Moves ⟨.stop term, ctx⟩ (.interface false) (stopped ⟨.stop term, ctx⟩ term)
  | present {ctx term} (hport : ctx.comport ≠ none) :
      Moves ⟨.stop term, ctx⟩ (.interface true) ⟨.kill term, ctx⟩
  | alive {ctx term pid} (hport : ctx.comport ≠ none) (hpid : pid > 0) :
      Moves ⟨.kill term, ctx⟩ (.kill pid) ⟨.kill term, ctx⟩
  | killed {ctx term pid} (hport : ctx.comport ≠ none) (hpid : ¬ pid > 0) :
      Moves ⟨.kill term, ctx⟩ (.kill pid) ⟨.free term, ctx⟩
  | free {ctx term} :
      Moves ⟨.free term, ctx⟩ .free (stopped ⟨.free term, { ctx with comport := none }⟩ term)
  | keep {ctx} (hport : ctx.comport ≠ none) : Moves ⟨.start, ctx⟩ (.alloc none) (started ⟨.start, ctx⟩)
  | full {ctx} (hport : ctx.comport = none) : Moves ⟨.start, ctx⟩ (.alloc none) ⟨.head, ctx⟩
  | alloc {ctx i} (hport : ctx.comport = none) :
      Moves ⟨.start, ctx⟩ (.alloc (some i)) (started ⟨.start, { ctx with comport := some i }⟩)
  | found {ctx} : Moves ⟨.select, ctx⟩ (.select true)
      ⟨.dial, { setPppDisconnect ctx with fail_cnt := 0, status := .selectedApn }⟩
  | missing {ctx} : Moves ⟨.select, ctx⟩ (.select false)
      ⟨.request, { setPppDisconnect ctx with fail_cnt := ctx.fail_cnt + 1 }⟩
  | request {ctx} : Moves ⟨.request, ctx⟩ .request ⟨.head, ctx⟩
  | dial {ctx clock} : Moves ⟨.dial, ctx⟩ (.dial clock)
      ⟨.head, { ctx with network := .conn, status := .connecting }⟩
  | inspect {ctx ctx' o} (hinspect : inspectNetworkStatus ctx o = .ok ctx') :
      Moves ⟨.inspect, ctx⟩ (.inspect o) ⟨.head, ctx'⟩

theorem step_moves {s t : Ppp} {a : PppAct} (h : step s a = .ok t) : Moves s a t := by
  obtain ⟨point, ctx⟩ := s
  unfold step at h
  split at h
  case h_1 stop hpoint =>
    obtain rfl : point = .head := hpoint
    cases h
    cases stop with
    | true => exact .leave
    | false => exact .enter
  case h_2 ready hpoint =>
    obtain rfl : point = .ready := hpoint
    by_cases hready : ready = .allReady
    · subst hready
      rw [if_neg (not_not.mpr rfl)] at h
      cases h
      by_cases hdialed : ctx.status.Dialed
      · rw [if_pos hdialed]
        exact .look hdialed
      · rw [if_neg hdialed]
        exact .connect hdialed
    · rw [if_pos hready] at h
      cases h
      by_cases hdialed : ctx.status.Dialed
      · rw [if_pos hdialed]
        exact .withdraw hready hdialed
      · rw [if_neg hdialed]
        exact .idle hready hdialed
  case h_3 term present hpoint =>
    obtain rfl : point = .stop term := hpoint
    cases present with
    | false =>
        cases h
        exact .absent
    | true =>
        by_cases hport : ctx.comport = none
        · rw [if_neg (by decide), if_pos hport] at h
          cases h
        · rw [if_neg (by decide), if_neg hport] at h
          cases h
          exact .present hport
  case h_4 term pid hpoint =>
    obtain rfl : point = .kill term := hpoint
    split_ifs at h with hport hpid
    · cases h
      exact .alive hport hpid
    · cases h
      exact .killed hport hpid
  case h_5 term hpoint =>
    obtain rfl : point = .free term := hpoint
    cases h
    exact .free
  case h_6 comport hpoint =>
    obtain rfl : point = .start := hpoint
    split at h
    next i hport =>
      cases h
      refine .keep fun hnone => ?_
      rw [hnone] at hport
      cases hport
    next => cases h
    next hport =>
      cases h
      exact .full hport
    next hport =>
      cases h
      exact .alloc hport
  case h_7 found hpoint =>
    obtain rfl : point = .select := hpoint
    cases found with
    | true =>
        cases h
        exact .found
    | false =>
        cases h
        exact .missing
  case h_8 hpoint =>
    obtain rfl : point = .request := hpoint
    cases h
    exact .request
  case h_9 clock hpoint =>
    obtain rfl : point = .dial := hpoint
    cases h
    exact .dial
  case h_10 o hpoint =>
    obtain rfl : point = .inspect := hpoint
    obtain ⟨ctx', hinspect, hok⟩ := bind_eq_ok_iff.mp h
    cases hok
    exact .inspect hinspect
  case h_11 => cases h

def Placed (s : Ppp) : Prop :=
  match s.point with
  | .stop false => s.ctx.status.Dialed
  | .kill false => s.ctx.status.Dialed ∧ s.ctx.comport ≠ none
  | .free false => s.ctx.status.Dialed ∧ s.ctx.comport ≠ none
  | .kill true => s.ctx.comport ≠ none
  | .free true => s.ctx.comport ≠ none
  | .start => ¬ s.ctx.status.Dialed
  | .select => s.ctx.status = .disconnect ∧ s.ctx.comport ≠ none
  | .request => s.ctx.status = .disconnect ∧ s.ctx.comport ≠ none
  | .dial => s.ctx.status = .selectedApn ∧ s.ctx.comport ≠ none
  | .inspect => s.ctx.status.Dialed
  | .exited => s.ctx.status = .disconnect
  | _ => True

theorem placed_started {ctx : PppCtx} (hdialed : ¬ ctx.status.Dialed) (hport : ctx.comport ≠ none) :
    Placed (started ⟨.start, ctx⟩) := by
  rw [started]
  cases hstatus : ctx.status with
  | disconnect => exact ⟨hstatus, hport⟩
  | selectedApn => exact ⟨hstatus, hport⟩
  | connecting => exact absurd (by rw [hstatus]; trivial) hdialed
  | connected => exact absurd (by rw [hstatus]; trivial) hdialed

@[simp] theorem started_ctx (s : Ppp) : s.started.ctx = s.ctx := by
  rw [started]
  split <;> rfl

@[simp] theorem stopped_comport (s : Ppp) (term : Bool) : (s.stopped term).ctx.comport = s.ctx.comport := by
  cases term <;> rfl

theorem placed_stopped (s : Ppp) (term : Bool) : Placed (s.stopped term) := by
  cases term with
  | false => trivial
  | true => exact rfl

theorem Moves.placed {s t : Ppp} {a : PppAct} (h : Moves s a t) (hs : Placed s) : Placed t := by
  cases h with
  | leave => trivial
  | enter => trivial
  | withdraw _ hdialed => exact hdialed
  | idle => trivial
  | look hdialed => exact hdialed
  | connect hdialed => exact hdialed
  | absent => exact placed_stopped _ _
  | @present _ term hport =>
      cases term with
      | false => exact ⟨hs, hport⟩
      | true => exact hport
  | alive => exact hs
  | @killed _ term =>
      cases term with
      | false => exact hs
      | true => exact hs
  | free => exact placed_stopped _ _
  | keep hport => exact placed_started hs hport
  | full => trivial
  | alloc => exact placed_started hs (Option.some_ne_none _)
  | found => exact ⟨rfl, hs.2⟩
  | missing => exact ⟨rfl, hs.2⟩
  | request => trivial
  | dial => trivial
  | inspect => trivial

end Ppp

end Fl2440.Gprs
