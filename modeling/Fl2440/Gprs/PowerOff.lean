import Fl2440.Gprs.Gsmd
import Fl2440.Gprs.PppStatus

/-! The wait of `power_off_module` for the data ports. The PPP thread gives its port back
only when it sees the module unready, and `power_off_module` makes it so after the wait. -/
namespace Fl2440.Gprs

open Fl2440.Lib

open Dialing (Running Falls)

namespace Ppp

/-- The thread comes to `stop_ppp_connect`: it is told to stop, or it has dialed, or is about
to, and the module is not ready. -/
def OnItsWay (stop : Bool) (ready : Ready) (s : Ppp) : Prop :=
  match s.point with
  | .stop _ => True
  | .kill _ => True
  | .free _ => True
  | .exited => False
  | .head => stop = true ∨ ready ≠ .allReady ∧ s.ctx.status.Dialed
  | .ready => stop = true ∨ ready ≠ .allReady ∧ s.ctx.status.Dialed
  | .request => stop = true
  | _ => stop = true ∨ ready ≠ .allReady

theorem onItsWay_told {s : Ppp} {stop : Bool} {ready : Ready} (h : OnItsWay stop ready s) :
    OnItsWay true ready s := by
  obtain ⟨point, ctx⟩ := s
  cases point with
  | stop => trivial
  | kill => trivial
  | free => trivial
  | exited => exact h
  | request => exact rfl
  | _ => exact .inl rfl

/-- The steps that do not take the thread off its way: it gets no port and loses no
connection while the module is ready or will be for it, and it finds the interface. -/
def StaysOnWay (stop : Bool) (ready : Ready) (s : Ppp) (a : PppAct) : Prop :=
  match s.point, a with
  | .start, .alloc (some _) => stop = true ∨ ready ≠ .allReady
  | .select, .select false => stop = true
  | .inspect, .inspect o => stop = true ∨ ¬ Falls s.ctx o
  | .stop false, .interface false => s.ctx.comport ≠ none → stop = true ∨ ready ≠ .allReady
  | .stop true, .interface false => s.ctx.comport = none
  | _, _ => True

def Sees (stop : Bool) (ready : Ready) : PppAct → Prop
  | .signal stop' => stop' = stop
  | .ready ready' => ready' = ready
  | _ => True

variable {s t : Ppp} {a : PppAct} {stop : Bool} {ready : Ready}

theorem onItsWay_started {ctx : PppCtx} (hdialed : ¬ ctx.status.Dialed) :
    OnItsWay stop ready (started ⟨.start, ctx⟩) ↔ stop = true ∨ ready ≠ .allReady := by
  rw [started]
  cases hstatus : ctx.status with
  | disconnect => exact Iff.rfl
  | selectedApn => exact Iff.rfl
  | connecting => exact absurd (by rw [hstatus]; trivial) hdialed
  | connected => exact absurd (by rw [hstatus]; trivial) hdialed

theorem inspect_port {ctx ctx' : PppCtx} {o : Inspection} (hidle : Dialing.Idle ctx)
    (h : inspectNetworkStatus ctx o = .ok ctx') : ctx'.comport ≠ none := by
  rw [inspectNetworkStatus_comport h]
  exact (Dialing.inspectNetworkStatus_ok hidle h).1

theorem Moves.way (h : Moves s a t) (hsees : Sees stop ready a) (hs : Running s)
    (hway : s.ctx.comport ≠ none → OnItsWay stop ready s) (hstays : StaysOnWay stop ready s a)
    (hport : t.ctx.comport ≠ none) : OnItsWay stop ready t := by
  have hplaced := hs.placed
  cases h with
  | leave => trivial
  | enter => exact hway hport
  | withdraw => trivial
  | idle => exact hway hport
  | look => exact .inl ((hway hport).resolve_right fun h => h.1 hsees.symm)
  | connect => exact .inl ((hway hport).resolve_right fun h => h.1 hsees.symm)
  | @absent _ term =>
      rw [stopped_comport] at hport
      cases term with
      | false => exact (hstays hport).imp_right fun hready => ⟨hready, hplaced⟩
      | true => exact absurd hstays hport
  | present => trivial
  | alive => trivial
  | killed => trivial
  | free =>
      rw [stopped_comport] at hport
      exact absurd rfl hport
  | keep =>
      rw [started_ctx] at hport
      exact (onItsWay_started hplaced).mpr (hway hport)
  | full hnone => exact absurd hnone hport
  | alloc =>
      apply (onItsWay_started _).mpr hstays
      exact hplaced
  | found => exact hway hport
  | missing => exact hstays
  | request => exact .inl (hway hport)
  | dial => exact (hway hport).imp_right fun hready => ⟨hready, trivial⟩
  | inspect hinspect =>
      obtain ⟨hheld, rfl⟩ := Dialing.inspectNetworkStatus_ok hs.idle hinspect
      by_cases hstop : stop = true
      · exact .inl hstop
      · refine .inr ⟨(hway hheld).resolve_left hstop, ?_⟩
        have hstatus := ((Dialing.inspect_status hs.idle _).resolve_left
          fun h => hstays.resolve_left hstop h.2).1
        show Status.Dialed _
        rw [hstatus]
        exact hplaced

theorem Moves.stuck (h : Moves s a t) (hsees : Sees stop ready a) (hs : Running s)
    (hport : s.ctx.comport ≠ none) (hway : ¬ OnItsWay stop ready s) :
    t.ctx.comport ≠ none ∧ ¬ OnItsWay stop ready t := by
  have hplaced := hs.placed
  cases h with
  | leave => exact absurd (.inl hsees.symm) hway
  | enter => exact ⟨hport, hway⟩
  | withdraw hready hdialed => exact absurd (.inr ⟨hsees ▸ hready, hdialed⟩) hway
  | idle => exact ⟨hport, hway⟩
  | look => exact ⟨hport, fun h => hway (.inl (h.resolve_right fun hne => hne hsees.symm))⟩
  | connect => exact ⟨hport, fun h => hway (.inl (h.resolve_right fun hne => hne hsees.symm))⟩
  | absent => exact absurd trivial hway
  | present => exact absurd trivial hway
  | alive => exact absurd trivial hway
  | killed => exact absurd trivial hway
  | free => exact absurd trivial hway
  | keep =>
      rw [started_ctx, onItsWay_started hplaced]
      exact ⟨hport, hway⟩
  | full hnone => exact absurd hnone hport
  | alloc hnone => exact absurd hnone hport
  | found => exact ⟨hport, hway⟩
  | missing => exact ⟨hport, fun hstop => hway (.inl hstop)⟩
  | request =>
      refine ⟨hport, ?_⟩
      rintro (hstop | ⟨-, hdialed⟩)
      · exact hway hstop
      · rw [hplaced.1] at hdialed
        exact hdialed.elim
  | dial => exact ⟨hport, fun h => hway (h.imp_right And.left)⟩
  | inspect hinspect =>
      exact ⟨inspect_port hs.idle hinspect, fun h => hway (h.imp_right And.left)⟩

theorem Moves.astray (h : Moves s a t) (hs : Running s) (hstrays : ¬ StaysOnWay stop ready s a) :
    t.ctx.comport ≠ none ∧ ¬ OnItsWay stop ready t := by
  have hplaced := hs.placed
  cases h with
  | @absent _ term =>
      rw [stopped_comport]
      cases term with
      | false =>
          obtain ⟨hport, hready⟩ := Classical.not_imp.mp hstrays
          exact ⟨hport, fun h => hready (h.imp_right And.left)⟩
      | true => exact ⟨hstrays, id⟩
  | alloc =>
      rw [started_ctx]
      refine ⟨Option.some_ne_none _, fun h => hstrays ((onItsWay_started ?_).mp h)⟩
      exact hplaced
  | missing => exact ⟨hplaced.2, hstrays⟩
  | inspect hinspect =>
      refine ⟨inspect_port hs.idle hinspect, ?_⟩
      obtain ⟨-, rfl⟩ := Dialing.inspectNetworkStatus_ok hs.idle hinspect
      obtain ⟨hstop, hfalls⟩ := not_or.mp hstrays
      have hstatus := ((Dialing.inspect_status hs.idle _).resolve_right fun h => h.2 (not_not.mp hfalls)).1
      rintro (hstop' | ⟨-, hdialed⟩)
      · exact hstop hstop'
      · change Status.Dialed _ at hdialed
        rw [hstatus] at hdialed
        exact hdialed.elim
  | @present _ term => cases term <;> exact absurd trivial hstrays
  | _ => exact absurd trivial hstrays

end Ppp

namespace Gsmd

def Waiting (s : Gsmd) : Prop := ∃ why, s.ctrl = .wait why

def Holding (s : Gsmd) : Prop := s.ppp.ctx.comport ≠ none

/-- The PPP thread, run alone, can give its port back. -/
def CanFree (s : Gsmd) : Prop := ∃ acts t, exec pppStep s acts = .ok t ∧ ¬ Holding t

def Deadlocked (s : Gsmd) : Prop := Waiting s ∧ Holding s ∧ ¬ CanFree s

def OnItsWay (s : Gsmd) : Prop := s.ppp.OnItsWay s.stop s.module.ready

structure Orderly (s : Gsmd) : Prop where
  running : Running s.ppp
  port : ∀ i, s.ppp.ctx.comport = some i → i < s.module.comport.length

variable {s t : Gsmd}

theorem openPorts_length (ports : List ComPort) (calls : Nat → OpenCalls) :
    (openPorts ports calls).1.length = ports.length := by
  induction ports generalizing calls with
  | nil => rfl
  | cons comport rest ih =>
      unfold openPorts
      dsimp only
      split
      · rfl
      · exact congrArg (· + 1) (ih _)

theorem openGsmDataport_length (module : ModuleInfo) (calls : Nat → OpenCalls) :
    (openGsmDataport module calls).1.comport.length = module.comport.length := by
  unfold openGsmDataport
  dsimp only
  split
  · exact (List.length_map _).trans (openPorts_length _ _)
  · exact openPorts_length _ _

theorem powerOnModule_length (module : ModuleInfo) (calls : PowerOnCalls) :
    (powerOnModule module calls).1.comport.length = module.comport.length := by
  unfold powerOnModule
  dsimp only
  split_ifs
  · rfl
  · rfl
  · rfl
  · rfl
  · exact openGsmDataport_length _ _
  · exact openGsmDataport_length _ _

theorem Controls.shared {a : CtrlAct} (h : s.Controls a t) :
    t.ppp = s.ppp ∧ t.stop = s.stop ∧ t.module.comport.length = s.module.comport.length := by
  cases h with
  | off => exact ⟨rfl, rfl, List.length_map _⟩
  | @on calls _ _ _ _ hon =>
      have hlen := powerOnModule_length s.module calls
      rw [hon] at hlen
      exact ⟨rfl, rfl, hlen⟩
  | signal _ halloc => exact ⟨rfl, rfl, (samePorts_alloc halloc).length⟩
  | check _ halloc => exact ⟨rfl, rfl, (samePorts_alloc halloc).length⟩
  | @free comport => exact ⟨rfl, rfl, (samePorts_free s.module comport).length⟩
  | _ => exact ⟨rfl, rfl, rfl⟩

theorem Shares.same_ready {a : PppAct} {module : ModuleInfo} (h : s.Shares a module) :
    module.ready = s.module.ready := by
  rcases h.samePorts with ⟨-, rfl⟩ | ⟨-, hsame⟩
  · rfl
  · exact hsame.ready

theorem Shares.same_length {a : PppAct} {module : ModuleInfo} (h : s.Shares a module) :
    module.comport.length = s.module.comport.length := by
  rcases h.samePorts with ⟨-, rfl⟩ | ⟨-, hsame⟩
  · rfl
  · exact hsame.length

theorem moves_port {p q : Ppp} {a : PppAct} {i : Nat} (h : p.Moves a q) (hport : q.ctx.comport = some i) :
    p.ctx.comport = some i ∨ a = .alloc (some i) := by
  cases h with
  | absent =>
      rw [Ppp.stopped_comport] at hport
      exact .inl hport
  | free =>
      rw [Ppp.stopped_comport] at hport
      cases hport
  | keep =>
      rw [Ppp.started_ctx] at hport
      exact .inl hport
  | alloc =>
      rw [Ppp.started_ctx] at hport
      cases hport
      exact .inr rfl
  | inspect hinspect => exact .inl ((Ppp.inspectNetworkStatus_comport hinspect).symm.trans hport)
  | _ => exact .inl hport

theorem Orderly.step {a : GsmdAct} (h : Orderly s) (hstep : s.step a = .ok t) : Orderly t := by
  cases a with
  | signal =>
      cases hstep
      exact ⟨h.running, h.port⟩
  | request request =>
      cases hstep
      exact ⟨h.running, h.port⟩
  | ctrl a =>
      obtain ⟨hppp, -, hlen⟩ := (ctrlStep_controls hstep).shared
      refine ⟨hppp ▸ h.running, fun i hi => ?_⟩
      rw [hppp] at hi
      exact hlen ▸ h.port i hi
  | ppp a =>
      obtain ⟨module, ppp, hshares, hppp, rfl⟩ := pppStep_shares hstep
      refine ⟨h.running.step hppp, fun i hi => ?_⟩
      rcases moves_port (Ppp.step_moves hppp) hi with hold | rfl
      · exact hshares.same_length ▸ h.port i hold
      · cases hshares with
        | alloc halloc => exact allocGsmDataport_lt halloc
        | own hown => exact hown.elim

/-! The way to `stop_ppp_connect`, from its end -/

def goto (s : Gsmd) (ppp : Ppp) : Gsmd := { s with ppp := ppp }

theorem CanFree.go {p q : Ppp} (a : PppAct) {module : ModuleInfo}
    (hshared : (s.goto p).pppShared a = .ok module) (hstep : p.step a = .ok q) :
    CanFree (goto { s with module := module } q) → CanFree (s.goto p) := by
  rintro ⟨acts, u, hu, hfree⟩
  refine ⟨a :: acts, u, exec_cons_iff.mpr ⟨goto { s with module := module } q, ?_, hu⟩, hfree⟩
  rw [pppStep, hshared]
  show (do
    let ppp ← p.step a
    Except.ok ({ s with module := module, ppp := ppp } : Gsmd)) = _
  rw [hstep]
  rfl

section Way

variable {ctx : PppCtx} {i : Nat} (hport : ctx.comport = some i) (hi : i < s.module.comport.length)

include hport in
theorem port_ne_none : ctx.comport ≠ none := by
  rw [hport]
  exact Option.some_ne_none i

include hport hi

theorem canFree_free (term : Bool) : CanFree (s.goto ⟨.free term, ctx⟩) := by
  have hfree : freeGsmDataport s.module i =
      ({ s.module with comport := s.module.comport.modify i (setUsed false), users := s.module.users - 1 }, none) :=
    if_pos hi
  have hshared : (s.goto ⟨.free term, ctx⟩).pppShared .free = .ok (freeGsmDataport s.module i).1 := by
    unfold pppShared goto
    dsimp only
    rw [hport]
    dsimp only
    rw [hfree]
  refine CanFree.go .free hshared rfl ⟨[], _, rfl, ?_⟩
  show ¬ (Ppp.stopped _ term).ctx.comport ≠ none
  rw [Ppp.stopped_comport]
  exact not_not.mpr rfl

theorem canFree_kill (term : Bool) : CanFree (s.goto ⟨.kill term, ctx⟩) :=
  CanFree.go (.kill 0) rfl (if_neg (port_ne_none hport)) (canFree_free hport hi term)

theorem canFree_stop (term : Bool) : CanFree (s.goto ⟨.stop term, ctx⟩) :=
  CanFree.go (.interface true) rfl (if_neg (port_ne_none hport)) (canFree_kill hport hi term)

theorem canFree_signal (hstop : s.stop = true) : CanFree (s.goto ⟨.head, ctx⟩) :=
  CanFree.go (.signal true) (if_pos hstop.symm) rfl (canFree_stop hport hi true)

theorem canFree_withdraw (hready : s.module.ready ≠ .allReady) (hdialed : ctx.status.Dialed) :
    CanFree (s.goto ⟨.ready, ctx⟩) := by
  have hstep : Ppp.step ⟨.ready, ctx⟩ (.ready s.module.ready) = .ok ⟨.stop false, ctx⟩ := by
    unfold Ppp.step
    dsimp only
    rw [if_pos hready, if_pos hdialed]
  exact CanFree.go (.ready s.module.ready) (if_pos rfl) hstep (canFree_stop hport hi false)

theorem canFree_head (h : s.stop = true ∨ s.module.ready ≠ .allReady ∧ ctx.status.Dialed) :
    CanFree (s.goto ⟨.head, ctx⟩) := by
  by_cases hstop : s.stop = true
  · exact canFree_signal hport hi hstop
  · obtain ⟨hready, hdialed⟩ := h.resolve_left hstop
    exact CanFree.go (.signal false) (if_pos (Bool.eq_false_iff.mpr hstop).symm) rfl
      (canFree_withdraw hport hi hready hdialed)

theorem canFree_dial (h : s.stop = true ∨ s.module.ready ≠ .allReady) : CanFree (s.goto ⟨.dial, ctx⟩) := by
  refine CanFree.go (.dial 0) rfl rfl (canFree_head ?_ hi (h.imp_right fun hready => ⟨hready, trivial⟩))
  exact hport

theorem canFree_select (h : s.stop = true ∨ s.module.ready ≠ .allReady) : CanFree (s.goto ⟨.select, ctx⟩) := by
  refine CanFree.go (.select true) rfl rfl (canFree_dial ?_ hi h)
  exact hport

theorem canFree_start (hdialed : ¬ ctx.status.Dialed) (h : s.stop = true ∨ s.module.ready ≠ .allReady) :
    CanFree (s.goto ⟨.start, ctx⟩) := by
  have hstep : Ppp.step ⟨.start, ctx⟩ (.alloc none) = .ok (Ppp.started ⟨.start, ctx⟩) := by
    unfold Ppp.step
    dsimp only
    rw [hport]
  refine CanFree.go (.alloc none) rfl hstep ?_
  rw [Ppp.started]
  cases hstatus : ctx.status with
  | disconnect => exact canFree_select hport hi h
  | selectedApn => exact canFree_dial hport hi h
  | connecting => exact absurd (by rw [hstatus]; trivial) hdialed
  | connected => exact absurd (by rw [hstatus]; trivial) hdialed

def quietInspection : Inspection := ⟨1, 0, none, 0, 100, none, 0⟩

omit hport hi in
theorem quiet_not_falls (hidle : Dialing.Idle ctx) : ¬ Falls ctx quietInspection := by
  have hdue : ¬ Dialing.PingDue ctx quietInspection := by
    have htime : (inspectDialing ctx quietInspection).ping_time = 0 := by
      unfold inspectDialing quietInspection
      dsimp only
      rw [if_neg (by decide)]
      split <;> rfl
    unfold Dialing.PingDue Dialing.beforePing
    rw [if_pos hidle.status, htime, (Dialing.inspectDialing_timers hidle quietInspection).2]
    decide
  rintro (⟨hpid, -⟩ | ⟨h, -⟩ | ⟨h, -⟩)
  · exact absurd hpid (by decide)
  · exact hdue h
  · exact hdue h

theorem canFree_inspect (hidle : Dialing.Idle ctx) (hdialed : ctx.status.Dialed)
    (h : s.stop = true ∨ s.module.ready ≠ .allReady) : CanFree (s.goto ⟨.inspect, ctx⟩) := by
  have hinspect := Dialing.inspectNetworkStatus_eq hidle (port_ne_none hport) quietInspection
  have hstatus : _ = ctx.status :=
    ((Dialing.inspect_status hidle quietInspection).resolve_left fun h => quiet_not_falls hidle h.2).1
  generalize hctx' : inspectPing (inspectDialing ctx quietInspection) ctx.ullTx_Bytes ctx.ullRx_Bytes
    quietInspection = ctx' at hinspect hstatus
  have hstep : Ppp.step ⟨.inspect, ctx⟩ (.inspect quietInspection) = .ok ⟨.head, ctx'⟩ := by
    unfold Ppp.step
    dsimp only
    rw [hinspect]
    rfl
  have hport' : ctx'.comport = some i := (Ppp.inspectNetworkStatus_comport hinspect).trans hport
  exact CanFree.go (.inspect quietInspection) rfl hstep
    (canFree_head hport' hi (h.imp_right fun hready => ⟨hready, hstatus ▸ hdialed⟩))

theorem canFree_ready (hidle : Dialing.Idle ctx)
    (h : s.stop = true ∨ s.module.ready ≠ .allReady ∧ ctx.status.Dialed) : CanFree (s.goto ⟨.ready, ctx⟩) := by
  have hshared : (s.goto ⟨.ready, ctx⟩).pppShared (.ready s.module.ready) = .ok s.module := if_pos rfl
  by_cases hready : s.module.ready = .allReady
  · have hstop : s.stop = true := h.resolve_right fun h => h.1 hready
    by_cases hdialed : ctx.status.Dialed
    · refine CanFree.go (.ready s.module.ready) hshared ?_ (canFree_inspect hport hi hidle hdialed (.inl hstop))
      unfold Ppp.step
      dsimp only
      rw [if_neg (not_not.mpr hready), if_pos hdialed]
    · refine CanFree.go (.ready s.module.ready) hshared ?_ (canFree_start hport hi hdialed (.inl hstop))
      unfold Ppp.step
      dsimp only
      rw [if_neg (not_not.mpr hready), if_neg hdialed]
  · by_cases hdialed : ctx.status.Dialed
    · exact canFree_withdraw hport hi hready hdialed
    · have hstop : s.stop = true := h.resolve_right fun h => hdialed h.2
      refine CanFree.go (.ready s.module.ready) hshared ?_ (canFree_signal hport hi hstop)
      unfold Ppp.step
      dsimp only
      rw [if_pos hready, if_neg hdialed]

theorem canFree_request (hstop : s.stop = true) : CanFree (s.goto ⟨.request, ctx⟩) := by
  have hsignal : CanFree (goto { s with module := setModuleEvent s.module (some .powerReset) } ⟨.head, ctx⟩) :=
    canFree_signal hport hi hstop
  exact CanFree.go .request rfl rfl hsignal

end Way

theorem canFree_of_onItsWay (h : Orderly s) (hholding : Holding s) (hway : OnItsWay s) : CanFree s := by
  obtain ⟨i, hport⟩ := Option.ne_none_iff_exists'.mp hholding
  have hi := h.port i hport
  have hidle := h.running.idle
  have hplaced := h.running.placed
  obtain ⟨module, stop, ctrl, start_time, fail_cnt, ⟨point, ctx⟩, log⟩ := s
  cases point with
  | head => exact canFree_head hport hi hway
  | ready => exact canFree_ready hport hi hidle hway
  | stop term => exact canFree_stop hport hi term
  | kill term => exact canFree_kill hport hi term
  | free term => exact canFree_free hport hi term
  | start => exact canFree_start hport hi hplaced hway
  | select => exact canFree_select hport hi hway
  | request => exact canFree_request hport hi hway
  | dial => exact canFree_dial hport hi hway
  | inspect => exact canFree_inspect hport hi hidle hplaced hway
  | exited => exact hway.elim

theorem Shares.sees {a : PppAct} {module : ModuleInfo} (h : s.Shares a module) :
    Ppp.Sees s.stop s.module.ready a := by
  cases h with
  | signal => exact rfl
  | ready => exact rfl
  | own hown => cases a <;> trivial
  | _ => trivial

theorem stuck_step {a : PppAct} (h : Orderly s) (hholding : Holding s) (hway : ¬ OnItsWay s)
    (hstep : s.pppStep a = .ok t) : Holding t ∧ ¬ OnItsWay t := by
  obtain ⟨module, ppp, hshares, hppp, rfl⟩ := pppStep_shares hstep
  unfold OnItsWay
  rw [show ({ s with module := module, ppp := ppp } : Gsmd).module.ready = s.module.ready from hshares.same_ready]
  exact (Ppp.step_moves hppp).stuck hshares.sees h.running hholding hway

theorem not_canFree (h : Orderly s) (hholding : Holding s) (hway : ¬ OnItsWay s) : ¬ CanFree s := by
  rintro ⟨acts, t, hrun, hfree⟩
  have hstuck : ∀ s : Gsmd, Orderly s ∧ Holding s ∧ ¬ OnItsWay s → ∀ a t, s.pppStep a = .ok t →
      Orderly t ∧ Holding t ∧ ¬ OnItsWay t := fun s hs a t hstep =>
    ⟨Orderly.step (a := .ppp a) hs.1 hstep, stuck_step hs.1 hs.2.1 hs.2.2 hstep⟩
  have hend := exec_preserves (fun s a t _ hs hstep => hstuck s hs a t hstep) ⟨h, hholding, hway⟩
    (Along.of_forall (fun _ _ => trivial) acts s) hrun
  exact hfree hend.2.1

/-- The steps that do not lead to a deadlock. -/
def LetsFree (s : Gsmd) : GsmdAct → Prop
  | .ctrl (.powerOff hal_get) => BitVec.ofInt 8 hal_get ≠ OFF → Holding s → OnItsWay s
  | .ppp a => Waiting s → s.ppp.StaysOnWay s.stop s.module.ready a
  | _ => True

/-- While the control thread waits for a port, the PPP thread is about to give it back. -/
structure Clear (s : Gsmd) : Prop where
  orderly : Orderly s
  way : Waiting s → Holding s → OnItsWay s

theorem Clear.not_deadlocked (h : Clear s) : ¬ Deadlocked s := by
  rintro ⟨hwaiting, hholding, hstuck⟩
  exact hstuck (canFree_of_onItsWay h.orderly hholding (h.way hwaiting hholding))

theorem Controls.waiting {a : CtrlAct} (h : s.Controls a t) (hwaiting : Waiting t) :
    Waiting s ∧ t = s ∨
      ∃ hal_get, a = .powerOff hal_get ∧ BitVec.ofInt 8 hal_get ≠ OFF ∧ (OnItsWay s → OnItsWay t) := by
  obtain ⟨why, hctrl⟩ := hwaiting
  cases h with
  | serve =>
      rename_i request _ _
      cases request <;> cases hctrl
  | already =>
      rename_i why' _ _ _
      cases why' <;> cases hctrl
  | wait _ hoff => exact .inr ⟨_, rfl, hoff, id⟩
  | busy => exact .inl ⟨⟨why, hctrl⟩, rfl⟩
  | off =>
      rename_i why' _ _ _
      cases why' <;> cases hctrl
  | on =>
      dsimp only at hctrl
      split_ifs at hctrl
  | test _ hpoint =>
      obtain rfl | rfl | rfl := hpoint <;> cases hctrl
  | @signal _ _ comport => cases comport <;> cases hctrl
  | @check _ _ comport => cases comport <;> cases hctrl
  | missed _ hpoint =>
      obtain rfl | rfl := hpoint <;> cases hctrl
  | _ => cases hctrl

theorem Clear.step {a : GsmdAct} (h : Clear s) (hlets : LetsFree s a) (hstep : s.step a = .ok t) : Clear t := by
  refine ⟨h.orderly.step hstep, fun hwaiting hholding => ?_⟩
  cases a with
  | signal =>
      cases hstep
      exact Ppp.onItsWay_told (h.way hwaiting hholding)
  | request request =>
      cases hstep
      exact h.way hwaiting hholding
  | ctrl a =>
      have hcontrols := ctrlStep_controls hstep
      obtain ⟨hwait, rfl⟩ | ⟨hal_get, rfl, hoff, hway⟩ := hcontrols.waiting hwaiting
      · exact h.way hwait hholding
      · refine hway (hlets hoff ?_)
        rwa [Holding, ← hcontrols.shared.1]
  | ppp a =>
      obtain ⟨module, ppp, hshares, hppp, rfl⟩ := pppStep_shares hstep
      unfold OnItsWay
      rw [show ({ s with module := module, ppp := ppp } : Gsmd).module.ready = s.module.ready from
        hshares.same_ready]
      exact (Ppp.step_moves hppp).way hshares.sees h.orderly.running (h.way hwaiting) (hlets hwaiting) hholding

theorem deadlocked_of_step {a : GsmdAct} (h : Clear s) (hlets : ¬ LetsFree s a) (hstep : s.step a = .ok t) :
    Deadlocked t := by
  have horderly := h.orderly.step hstep
  cases a with
  | ppp a =>
      obtain ⟨hwaiting, hstrays⟩ := Classical.not_imp.mp hlets
      obtain ⟨module, ppp, hshares, hppp, rfl⟩ := pppStep_shares hstep
      obtain ⟨hholding, hway⟩ := (Ppp.step_moves hppp).astray h.orderly.running hstrays
      refine ⟨hwaiting, hholding, not_canFree horderly hholding fun hway' => hway ?_⟩
      exact hshares.same_ready ▸ hway'
  | ctrl a =>
      cases a with
      | powerOff hal_get =>
          obtain ⟨hoff, hlets⟩ := Classical.not_imp.mp hlets
          obtain ⟨hholding, hway⟩ := Classical.not_imp.mp hlets
          cases ctrlStep_controls hstep with
          | already _ hoff' => exact absurd hoff' hoff
          | wait => exact ⟨⟨_, rfl⟩, hholding, not_canFree horderly hholding hway⟩
      | _ => exact absurd trivial hlets
  | _ => exact absurd trivial hlets

theorem clear_init : Clear init where
  orderly := ⟨Dialing.running_init, nofun⟩
  way := nofun

theorem not_deadlocked_iff (acts : List GsmdAct) :
    Always step (fun s => ¬ Deadlocked s) init acts ↔
      Along step (fun s a => (∃ t, s.step a = .ok t) → LetsFree s a) init acts :=
  always_iff_along (fun _ h => h.not_deadlocked) (fun _ _ t h hlets hstep => h.step (hlets ⟨t, hstep⟩) hstep)
    (fun s a h hlets => by
      obtain ⟨⟨t, ht⟩, hbad⟩ := Classical.not_imp.mp hlets
      exact ⟨t, ht, not_not.mpr (deadlocked_of_step h hbad ht)⟩) clear_init

theorem orderly_of_exec {acts : List GsmdAct} (h : exec step init acts = .ok s) : Orderly s :=
  exec_preserves (fun _ _ _ _ hs hstep => hs.step hstep) clear_init.orderly
    (Along.of_forall (fun _ _ => trivial) acts init) h

def openedAt (fd : Int) : OpenCalls := ⟨fd, true, true, true, true⟩

def turnedOn : List GsmdAct :=
  [.ctrl .next, .ctrl .next, .ctrl .next, .ctrl (.powerOff 0),
    .ctrl (.powerOn ⟨0, 0, 1, openedAt 3, fun _ => 0, fun _ => openedAt 4, 1⟩), .ctrl .next]

def passed : List GsmdAct :=
  [.ctrl .next, .ctrl (.alloc false), .ctrl (.query ⟨0, 0, 0, 0, 0, 20, 1, 0, 0⟩), .ctrl .next,
    .ctrl .next, .ctrl .next]

def apnMissing : List GsmdAct :=
  turnedOn ++ passed ++ passed ++ passed ++
    [.ppp (.signal false), .ppp (.ready .allReady), .ppp (.alloc (some 0)), .ppp (.select false), .ppp .request,
      .ctrl .next, .ctrl (.inspect 0 0), .ctrl (.alloc false), .ctrl .next,
      .ctrl .next, .ctrl .next, .ctrl .next, .ctrl (.powerOff 1)]

theorem apnMissing_deadlocks : ¬ Always step (fun s => ¬ Deadlocked s) init apnMissing := by
  intro h
  have hrun : exec step init apnMissing = .ok _ := rfl
  refine h.last hrun ⟨⟨.reset, rfl⟩, Option.some_ne_none 0, ?_⟩
  apply not_canFree (orderly_of_exec hrun) (Option.some_ne_none 0)
  rintro (hstop | ⟨-, hdialed⟩)
  · cases hstop
  · exact hdialed

end Gsmd

end Fl2440.Gprs
