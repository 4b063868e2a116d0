import Fl2440.CpLibrary.Registration
import Fl2440.CpLibrary.Relay
import Fl2440.CpLibrary.SweTpdud

/-! Whose context a client of the tunnel works on. An accepted socket inherits the private
data of its server, so the first event of any client is served with the context of the
server, and ends in a `t_free` of it. -/
namespace Fl2440.CpLibrary

open Fl2440.Lib

variable {σ σ' τ : Sys} {p serv : SockId} {head : ListHead} {list : List SockId}

structure Roles (σ : Sys) : Prop where
  rbuf : ∀ p ∈ σ.live, (σ.mem p).rbuf.isSome
  server : ∀ p ∈ σ.live, (σ.mem p).cbfunc = some .acceptRegist →
    (σ.mem p).clientFunc = some serviceRoute ∧ (σ.mem p).privt = some servTpdu
  client : ∀ p ∈ σ.live, (σ.mem p).cbfunc = some serviceRoute → (σ.mem p).privt = some servTpdu ∧
    ∃ serv ∈ σ.live, (σ.mem p).servSock = some serv ∧ (σ.mem serv).cbfunc = some .acceptRegist
  uplink : ∀ p ∈ σ.live, (σ.mem p).cbfunc ≠ some uplinkEvent

theorem route_eq_iff {s s' : Sock} : s'.route = s.route ↔
    s'.cbfunc = s.cbfunc ∧ s'.clientFunc = s.clientFunc ∧ s'.privt = s.privt ∧ s'.servSock = s.servSock ∧
      s'.rbuf.isSome = s.rbuf.isSome := by
  simp only [Sock.route, Prod.mk.injEq]

theorem Roles.congr (h : Roles σ) (hlive : τ.live = σ.live)
    (hroute : ∀ p ∈ σ.live, (τ.mem p).route = (σ.mem p).route) : Roles τ := by
  refine ⟨fun p hp => ?_, fun p hp hfunc => ?_, fun p hp hfunc => ?_, fun p hp => ?_⟩
  all_goals
    rw [hlive] at hp
    obtain ⟨hcbfunc, hclient, hprivt, hserv, hrbuf⟩ := route_eq_iff.mp (hroute p hp)
  · rw [hrbuf]
    exact h.rbuf p hp
  · rw [hclient, hprivt]
    exact h.server p hp (hcbfunc ▸ hfunc)
  · rw [hprivt, hserv]
    obtain ⟨hcontext, serv, hlive', hservSock, hserver⟩ := h.client p hp (hcbfunc ▸ hfunc)
    exact ⟨hcontext, serv, hlive ▸ hlive', hservSock, (route_eq_iff.mp (hroute serv hlive')).1.trans hserver⟩
  · rw [hcbfunc]
    exact h.uplink p hp

theorem Roles.congr_view (h : Roles σ)
    (hview : τ.view (fun _ => ()) Sock.route = σ.view (fun _ => ()) Sock.route) : Roles τ := by
  obtain ⟨-, hlive, hroute⟩ := Sys.view_eq_iff.mp hview
  exact h.congr hlive fun p _ => hroute p

theorem Undone.live (h : Undone σ τ) : τ.live = σ.live := by
  cases h with
  | unlisted h => exact h.live
  | listed p head list fresh hlist h => exact h.live.trans (Sys.setRegistry_live σ head _)

theorem Undone.route (h : Undone σ τ) (hp : p ∈ σ.live) : (τ.mem p).route = (σ.mem p).route := by
  cases h with
  | unlisted h => exact congrArg Sock.route (h.mem p hp)
  | listed q head list fresh hlist h =>
      rw [h.mem p (by rwa [Sys.setRegistry_live])]
      exact Sys.setRegistry_field σ head _ Sock.route (fun _ _ => rfl) p

theorem Joined.route (h : Joined σ σ' p head list) {q : SockId} (hq : q ∈ σ.live) :
    (σ'.mem q).route = (σ.mem q).route := by
  rw [h.mem q hq, Sys.listed]
  refine (countAccept_field _ head 1 Sock.route (fun _ _ => rfl) q).trans ?_
  exact Sys.setRegistry_field σ head _ Sock.route (fun _ _ => rfl) q

theorem Roles.joined (h : Roles σ) (hjoined : Joined σ σ' p head list) {cbfunc clientFunc : Option Callback} {servSock : Ptr}
    (hroute : (σ'.mem p).route = (cbfunc, clientFunc, some servTpdu, servSock, true))
    (hrole : cbfunc = some .acceptRegist ∧ clientFunc = some serviceRoute ∨
      cbfunc = some serviceRoute ∧ ∃ serv ∈ σ.live, servSock = some serv ∧ (σ.mem serv).cbfunc = some .acceptRegist) :
    Roles σ' := by
  simp only [Sock.route, Prod.mk.injEq] at hroute
  obtain ⟨hcbfunc, hclient, hprivt, hserv, hrbuf⟩ := hroute
  have hold := fun {q} (hq : q ∈ σ.live) => route_eq_iff.mp (hjoined.route hq)
  have hmem : ∀ q, q ∈ σ'.live → q = p ∨ q ∈ σ.live := fun q hq =>
    Finset.mem_insert.mp (hjoined.live ▸ hq)
  have hlive : ∀ q ∈ σ.live, q ∈ σ'.live := fun q hq => hjoined.live ▸ Finset.mem_insert_of_mem hq
  refine ⟨fun q hq => ?_, fun q hq hfunc => ?_, fun q hq hfunc => ?_, fun q hq hfunc => ?_⟩
  all_goals rcases hmem q hq with rfl | hq'
  · exact hrbuf
  · exact (hold hq').2.2.2.2 ▸ h.rbuf q hq'
  · rcases hrole with ⟨-, hclientFunc⟩ | ⟨hservice, -⟩
    · exact ⟨hclient.trans hclientFunc, hprivt⟩
    · rw [hcbfunc, hservice] at hfunc
      cases hfunc
  · obtain ⟨hcbfunc', hclient', hprivt', -⟩ := hold hq'
    rw [hclient', hprivt']
    exact h.server q hq' (hcbfunc' ▸ hfunc)
  · rcases hrole with ⟨haccept, -⟩ | ⟨-, serv, hserv', hservSock, hserver⟩
    · rw [hcbfunc, haccept] at hfunc
      cases hfunc
    · exact ⟨hprivt, serv, hlive serv hserv', hserv.trans hservSock, (hold hserv').1.trans hserver⟩
  · obtain ⟨hcbfunc', -, hprivt', hserv', -⟩ := hold hq'
    obtain ⟨hcontext, serv, hlive', hservSock, hserver⟩ := h.client q hq' (hcbfunc' ▸ hfunc)
    rw [hprivt', hserv']
    exact ⟨hcontext, serv, hlive serv hlive', hservSock, (hold hlive').1.trans hserver⟩
  · rw [hcbfunc] at hfunc
    rcases hrole with ⟨haccept, -⟩ | ⟨hservice, -⟩
    · rw [haccept] at hfunc
      cases hfunc
    · rw [hservice] at hfunc
      exact absurd hfunc (by decide)
  · exact h.uplink q hq' ((hold hq').1 ▸ hfunc)

theorem Roles.acceptRegist (h : Roles σ) {os : AcceptRegistOs} {rv : Int} (hserver : (σ.mem serv).cbfunc = some .acceptRegist)
    (hcall : cpSockAcceptRegist σ (some serv) os = .ok (rv, σ')) : Roles σ' ∧ ∀ q ∈ σ.live, q ∈ σ'.live := by
  obtain ⟨hserv, ⟨τ, hundone, hdel, -⟩ | ⟨-, -, -, p, list, hjoined, -, -, hroute, -⟩⟩ :=
    cpSockAcceptRegist_cases hcall
  · have hview : σ'.view (fun _ => ()) Sock.route = τ.view (fun _ => ()) Sock.route :=
      (cpFdsDelSockTask_view hdel (fun _ _ => rfl) fun _ _ _ _ => rfl).1
    refine ⟨(h.congr hundone.live fun q hq => hundone.route hq).congr_view hview, fun q hq => ?_⟩
    rw [Sys.live_of_view hview, hundone.live]
    exact hq
  · obtain ⟨hclientFunc, hprivt⟩ := h.server serv hserv hserver
    rw [hclientFunc, hprivt] at hroute
    exact ⟨h.joined hjoined hroute (.inr ⟨rfl, serv, hserv, rfl, hserver⟩),
      fun q hq => hjoined.live ▸ Finset.mem_insert_of_mem hq⟩

theorem Roles.serverRegist (h : Roles σ) {port maxClient : Int} {os : ServerRegistOs} {sock : Ptr}
    (hcall : cpSockServerRegist σ port maxClient (some serviceRoute) (some servTpdu) os = .ok (sock, σ')) :
    Roles σ' := by
  rcases cpSockServerRegist_cases hcall with ⟨-, hundone⟩ | ⟨p, list, -, -, hjoined, -, -, hroute, -⟩
  · exact h.congr hundone.live fun q hq => hundone.route hq
  · exact h.joined hjoined hroute (.inl ⟨rfl, rfl⟩)

def Control.Loops : Control → Prop
  | .outside | .taskLoop _ | .taskCallback _ _ | .queueLoop _ _ | .queueCallback _ _ _ => True
  | _ => False

namespace Tunnel

/-- Each client that was served has a context of its own, and an uplink of its own. The
context of the server is none of these and is not given back. -/
structure Isolated (t : Tunnel) : Prop where
  own : ∀ p tpdu, t.worksOn p = some tpdu → (t.tpdu tpdu).dlink = some p
  context : ∀ p q tpdu, t.worksOn p = some tpdu → t.worksOn q = some tpdu → p = q
  uplink : ∀ p q tpdu tpdu' ulink, t.worksOn p = some tpdu → t.worksOn q = some tpdu' →
    (t.tpdu tpdu).ulink = some ulink → (t.tpdu tpdu').ulink = some ulink → p = q
  server : ∀ p, t.worksOn p ≠ some servTpdu
  freed : servTpdu ∉ t.freed

def ServesNone (t : Tunnel) : TunnelAct → Prop
  | .next _ => ∀ p, t.control.running = some p → (t.sys.mem p).cbfunc ≠ some serviceRoute
  | _ => True

structure Untouched (t : Tunnel) : Prop where
  roles : Roles t.sys
  loops : t.control.Loops
  running : ∀ p, t.control.running = some p → p ∈ t.sys.live
  dlink : (t.tpdu servTpdu).dlink = none
  ulink : (t.tpdu servTpdu).ulink = none
  heap : servTpdu ∈ t.heap
  idle : ∀ p, t.worksOn p = none
  freed : t.freed = []

variable {t u : Tunnel} {os : CallbackOs}

theorem Untouched.isolated (h : t.Untouched) : t.Isolated := by
  have hidle : ∀ p tpdu, t.worksOn p ≠ some tpdu := fun p tpdu hp => by
    rw [h.idle p] at hp
    cases hp
  refine ⟨fun p tpdu hp => absurd hp (hidle p tpdu), fun p q tpdu hp _ => absurd hp (hidle p tpdu),
    fun p q tpdu tpdu' ulink hp _ _ _ => absurd hp (hidle p tpdu), fun p => hidle p servTpdu, ?_⟩
  rw [h.freed]
  exact List.not_mem_nil

theorem Untouched.move (h : t.Untouched) {process : Process} (hroles : Roles process.sys)
    (hloops : process.control.Loops) (hrunning : ∀ p, process.control.running = some p → p ∈ process.sys.live) :
    Untouched { t with toProcess := process } :=
  ⟨hroles, hloops, hrunning, h.dlink, h.ulink, h.heap, h.idle, h.freed⟩

theorem next_roles {s s' : Process} (hroles : Roles s.sys) (hloops : s.control.Loops) (hnext : s.next = .ok s') :
    Roles s'.sys ∧ s'.control.Loops ∧ ∀ p, s'.control.running = some p → p ∈ s'.sys.live := by
  have hnobody : ∀ {control : Control} {σ : Sys}, control.running = none →
      ∀ p, control.running = some p → p ∈ σ.live := fun hnone p hp => by
    rw [hnone] at hp
    cases hp
  unfold Process.next at hnext
  split at hnext
  next hcontrol =>
    cases hnext
    rw [hcontrol]
    exact ⟨hroles, trivial, hnobody rfl⟩
  next i _ =>
    split at hnext
    · split at hnext
      · cases hnext
        exact ⟨hroles, trivial, hnobody rfl⟩
      · obtain ⟨sock, hload, hnext⟩ := bind_eq_ok_iff.mp hnext
        split at hnext
        · cases hnext
          refine ⟨hroles, trivial, fun q hq => ?_⟩
          cases hq
          exact (load_eq_ok hload).1
        · obtain ⟨σ, hdel, hnext⟩ := bind_eq_ok_iff.mp hnext
          cases hnext
          exact ⟨hroles.congr_view (cpFdsDelSockTask_view hdel (fun _ _ => rfl) fun _ _ _ _ => rfl).1, trivial,
            hnobody rfl⟩
    · cases hnext
      exact ⟨hroles, trivial, hnobody rfl⟩
  next i _ _ =>
    cases hnext
    exact ⟨hroles, trivial, hnobody rfl⟩
  next queued rounds _ =>
    split at hnext
    · cases hnext
      exact ⟨hroles, trivial, hnobody rfl⟩
    · obtain ⟨⟨sock, σ⟩, hdequeue, hnext⟩ := bind_eq_ok_iff.mp hnext
      have hroles' : Roles σ := hroles.congr_view
        (cpFdsSockDequeue_view hdequeue (fun _ _ => rfl) fun _ _ => rfl).1
      cases sock with
      | none =>
          cases hnext
          exact ⟨hroles', trivial, hnobody rfl⟩
      | some p =>
          obtain ⟨sock, hload, hnext⟩ := bind_eq_ok_iff.mp hnext
          split at hnext
          · cases hnext
            refine ⟨hroles', trivial, fun q hq => ?_⟩
            cases hq
            exact (load_eq_ok hload).1
          · cases hnext
            exact ⟨hroles', trivial, hnobody rfl⟩
  next queued rounds _ _ =>
    cases hnext
    exact ⟨hroles, trivial, hnobody rfl⟩
  all_goals
    rename_i hcontrol
    rw [hcontrol] at hloops
    exact absurd hloops id

theorem Untouched.callback {p : SockId} (h : t.Untouched) (hcbfunc : (t.sys.mem p).cbfunc ≠ some serviceRoute)
    (hcall : t.callback p os = .ok u) : ∃ sys, u = { t with sys } ∧ Roles sys := by
  obtain ⟨s, hload, hcall⟩ := bind_eq_ok_iff.mp hcall
  obtain ⟨hlive, rfl⟩ := load_eq_ok hload
  split at hcall
  next haccept =>
    obtain ⟨⟨rv, sys⟩, hregist, hret⟩ := bind_eq_ok_iff.mp hcall
    cases hret
    exact ⟨sys, rfl, (h.roles.acceptRegist haccept hregist).1⟩
  next =>
    rw [if_neg (h.roles.uplink p hlive)] at hcall
    cases hcall

theorem step_next_eq (t : Tunnel) (os : CallbackOs) :
    t.step (.next os) = (match t.control.running with
      | some p => t.callback p os
      | none => .ok t) >>= fun t => (fun process => { t with toProcess := process }) <$> t.toProcess.next := rfl

theorem Untouched.step {act : TunnelAct} (h : t.Untouched) (hok : t.ServesNone act) (hstep : t.step act = .ok u) :
    u.Untouched := by
  have hstays : ∀ {sys : Sys}, Roles sys → t.control = .outside →
      Untouched { t with toProcess := ⟨sys, t.control⟩ } := fun hroles hout =>
    h.move hroles h.loops fun p hp => by
      rw [show Control.running _ = _ from congrArg Control.running hout] at hp
      cases hp
  cases act with
  | serverRegist os =>
      rw [Tunnel.step] at hstep
      split at hstep
      next hout =>
        obtain ⟨⟨sock, sys⟩, hcall, hret⟩ := bind_eq_ok_iff.mp hstep
        cases hret
        have hmoved := hstays (h.roles.serverRegist hcall) hout.1
        exact ⟨hmoved.roles, hmoved.loops, hmoved.running, h.dlink, h.ulink, h.heap, h.idle, h.freed⟩
      next =>
        cases hstep
        exact h
  | detectEvent wait =>
      rw [Tunnel.step] at hstep
      split at hstep
      next hout =>
        obtain ⟨⟨rv, sys⟩, hcall, hret⟩ := bind_eq_ok_iff.mp hstep
        cases hret
        exact hstays (h.roles.congr_view
          (cpFdsDetectEvent_view hcall (fun _ _ => rfl) fun _ _ _ _ => rfl).1) hout
      next =>
        cases hstep
        exact h
  | detectTimeout now =>
      rw [Tunnel.step] at hstep
      split at hstep
      next hout =>
        obtain ⟨sys, hcall, hret⟩ := bind_eq_ok_iff.mp hstep
        cases hret
        exact hstays (h.roles.congr_view
          (cpSockDetectTimeout_view hcall (fun _ _ => rfl) fun _ _ _ _ => rfl).1) hout
      next =>
        cases hstep
        exact h
  | procEvent =>
      rw [Tunnel.step] at hstep
      cases hstep
      split
      next => exact h.move h.roles trivial fun p hp => nomatch hp
      next => exact h
  | next os =>
      rw [step_next_eq] at hstep
      obtain ⟨v, hcallback, hstep⟩ := bind_eq_ok_iff.mp hstep
      obtain ⟨process, hnext, rfl⟩ := map_eq_ok_iff.mp hstep
      have hcalled : ∃ sys, v = { t with sys } ∧ Roles sys := by
        cases hrunning : t.control.running with
        | none =>
            rw [hrunning] at hcallback
            cases hcallback
            exact ⟨t.sys, rfl, h.roles⟩
        | some p =>
            rw [hrunning] at hcallback
            exact h.callback (hok p hrunning) hcallback
      obtain ⟨sys, rfl, hroles⟩ := hcalled
      obtain ⟨hroles', hloops, hrunning⟩ := next_roles (s := ⟨sys, t.control⟩) hroles h.loops hnext
      exact h.move hroles' hloops hrunning

/-! A client is served -/

def FreesServer (t : Tunnel) (x : Except Fault Tunnel) : Prop :=
  ∃ u, x = .ok u ∧ u.control = t.control ∧ servTpdu ∈ u.freed

structure Bare (t : Tunnel) : Prop where
  dlink : (t.tpdu servTpdu).dlink = none
  ulink : (t.tpdu servTpdu).ulink = none
  heap : servTpdu ∈ t.heap

theorem Bare.load (h : t.Bare) : t.loadTpdu (some servTpdu) = .ok (servTpdu, t.tpdu servTpdu) := if_pos h.heap

theorem Bare.stop (h : t.Bare) : t.FreesServer (t.stopTpduService (some servTpdu)) := by
  rw [stopTpduService, h.load, ok_bind]
  dsimp only
  rw [h.dlink, h.ulink]
  exact ⟨_, rfl, rfl, List.mem_append_right _ List.mem_cons_self⟩

theorem Bare.setTpdu (h : t.Bare) (raddr : String) (rport : Int) :
    (t.setTpdu servTpdu fun ctx => { ctx with rport, raddr }).Bare := by
  refine ⟨?_, ?_, h.heap⟩
  all_goals
    rw [Tunnel.setTpdu]
    dsimp only
    rw [Function.update_self]
  · exact h.dlink
  · exact h.ulink

theorem Bare.connectUplink (h : t.Bare) (os : ConnectRegistOs) :
    t.tpduConnectUplink servTpdu os = .ok (-1, t) := by
  rw [tpduConnectUplink, h.load, ok_bind]
  dsimp only
  rw [h.dlink]
  rfl

theorem Bare.sends (h : t.Bare) (dlink : SockId) : t.FreesServer (do
    let (_, ctx) ← t.loadTpdu (some servTpdu)
    if ← t.needsUplink ctx then
      let (rv, t) ← t.tpduConnectUplink servTpdu os.connect
      if rv < 0 then t.stopTpduService (some servTpdu) else t.sendUplink dlink servTpdu os
    else t.sendUplink dlink servTpdu os) := by
  rw [h.load, ok_bind]
  dsimp only
  rw [needsUplink, h.ulink, ok_bind, if_pos rfl, h.connectUplink, ok_bind]
  exact h.stop

theorem Bare.route (h : t.Bare) {dlink : SockId} (serv : SockId) (hlive : dlink ∈ t.sys.live) (hserv : serv ∈ t.sys.live)
    (hrbuf : (t.sys.mem dlink).rbuf.isSome) (hservSock : (t.sys.mem dlink).servSock = some serv)
    (hprivt : (t.sys.mem serv).privt = some servTpdu) :
    t.FreesServer (t.routeUplink dlink servTpdu os) := by
  obtain ⟨rbuf, hrbuf⟩ := Option.isSome_iff_exists.mp hrbuf
  rw [routeUplink, Sys.load_of_mem hlive, ok_bind, hrbuf]
  dsimp only
  by_cases hlen : 0 < rbuf.len
  · have harg : t.servContext dlink = .ok (t.tpdu servTpdu) := by
      rw [servContext, Sys.load_of_mem hlive, ok_bind, hservSock]
      dsimp only
      rw [Sys.load_of_mem hserv, ok_bind, hprivt, h.load]
      rfl
    rw [if_pos hlen, harg, ok_bind]
    exact (h.setTpdu _ _).sends dlink
  · rw [if_neg hlen]
    exact h.sends dlink

theorem cpSockRecv_route {s : Sock} (hrbuf : s.rbuf.isSome) (recv : Recv) (now : ULong) :
    (cpSockRecv s recv now).2.1.route = s.route := by
  obtain ⟨rbuf, hsome⟩ := Option.isSome_iff_exists.mp hrbuf
  rcases cpSockRecv_cases hsome recv now with ⟨rv, heq⟩ | ⟨rv, got, -, heq⟩
  · rw [heq]
  · rw [heq]
    simp only [Sock.route, hsome]
    rfl

theorem recv_eq {p : SockId} (hlive : p ∈ t.sys.live) (os : CallbackOs) :
    t.recv p os = .ok ((cpSockRecv (t.sys.mem p) os.recv os.now).1,
      { t with sys := t.sys.modify p fun _ => (cpSockRecv (t.sys.mem p) os.recv os.now).2.1 }) := by
  rw [recv, Sys.load_of_mem hlive, ok_bind]
  rfl

theorem Untouched.serveDownlink {p : SockId} (h : t.Untouched) (hlive : p ∈ t.sys.live)
    (hclient : (t.sys.mem p).cbfunc = some serviceRoute) (os : CallbackOs) :
    t.FreesServer (t.serveDownlink p servTpdu os) := by
  obtain ⟨-, serv, hserv, hservSock, hserver⟩ := h.roles.client p hlive hclient
  have hprivt := (h.roles.server serv hserv hserver).2
  have hrbuf := h.roles.rbuf p hlive
  have hbare : ∀ sys, Bare { t with
      sys
      worksOn := Function.update t.worksOn p (some servTpdu) } := fun _ => ⟨h.dlink, h.ulink, h.heap⟩
  -- the event changes fields of the client that its route does not depend on
  have hroute : ∀ f : Sock → Sock, (f (t.sys.mem p)).route = (t.sys.mem p).route →
      ∀ q, ((t.sys.modify p f).mem q).route = (t.sys.mem q).route := fun f hf q =>
    t.sys.modify_field p f Sock.route hf q
  rw [Tunnel.serveDownlink, Sys.load_of_mem hlive, ok_bind]
  dsimp only
  split
  next =>
    have hrecv := hroute (fun _ => (cpSockRecv (t.sys.mem p) os.recv os.now).2.1)
      (cpSockRecv_route hrbuf os.recv os.now)
    rw [recv_eq (t := { t with worksOn := Function.update t.worksOn p (some servTpdu) }) hlive os, ok_bind]
    dsimp only
    split
    next => exact (hbare _).stop
    next =>
      obtain ⟨-, -, -, hservSock', hrbuf'⟩ := route_eq_iff.mp (hrecv p)
      exact (hbare _).route serv hlive hserv (hrbuf'.trans hrbuf) (hservSock'.trans hservSock)
        ((route_eq_iff.mp (hrecv serv)).2.2.1.trans hprivt)
  next =>
    split
    next => exact (hbare _).stop
    next => exact (hbare t.sys).route _ hlive hserv hrbuf hservSock hprivt

theorem Untouched.lost {act : TunnelAct} (h : t.Untouched) (hbad : ¬ t.ServesNone act) :
    ∃ u, t.step act = .ok u ∧ ¬ u.Isolated := by
  cases act with
  | serverRegist | detectEvent | detectTimeout | procEvent => exact absurd trivial hbad
  | next os =>
      simp only [ServesNone, not_forall, not_not] at hbad
      obtain ⟨p, hrunning, hclient⟩ := hbad
      have hlive := h.running p hrunning
      have hprivt := (h.roles.client p hlive hclient).1
      obtain ⟨u, hserve, hcontrol, hfreed⟩ := h.serveDownlink hlive hclient os
      have hcallback : t.callback p os = .ok u := by
        rw [Tunnel.callback, Sys.load_of_mem hlive, ok_bind, if_neg (by rw [hclient]; decide), if_pos hclient,
          tpduServiceRoute, Sys.load_of_mem hlive, ok_bind, hprivt]
        exact hserve
      have hnext : ∃ process, u.toProcess.next = .ok process := by
        have hsome : ∃ q, u.control.running = some q := ⟨p, by rw [hcontrol]; exact hrunning⟩
        obtain ⟨q, hq⟩ := hsome
        unfold Process.next
        cases hwhere : u.control with
        | taskCallback | queueCallback => exact ⟨_, rfl⟩
        | _ => rw [hwhere] at hq; cases hq
      obtain ⟨process, hnext⟩ := hnext
      refine ⟨{ u with toProcess := process }, ?_, fun hisolated => hisolated.freed hfreed⟩
      rw [step_next_eq, hrunning]
      dsimp only
      rw [hcallback, ok_bind, hnext]
      rfl

theorem start_untouched (kern : Kernel) (epfd : Nat) (timeout : Int) (raddr : String) (lport rport : Int) :
    (start kern epfd timeout raddr lport rport).Untouched where
  roles := by
    refine ⟨?_, ?_, ?_, ?_⟩
    all_goals exact fun p hp => absurd hp (Finset.notMem_empty p)
  loops := trivial
  running _ hp := nomatch hp
  dlink := rfl
  ulink := rfl
  heap := Finset.mem_singleton_self _
  idle _ := rfl
  freed := rfl

/-- The tunnel keeps its clients apart as long as it does not serve one. -/
theorem isolated_iff (kern : Kernel) (epfd : Nat) (timeout : Int) (raddr : String) (lport rport : Int)
    (acts : List TunnelAct) :
    Always step Isolated (start kern epfd timeout raddr lport rport) acts ↔
      Along step ServesNone (start kern epfd timeout raddr lport rport) acts :=
  always_iff_along (fun _ => Untouched.isolated) (fun _ _ _ h hok hstep => h.step hok hstep)
    (fun _ _ h hbad => h.lost hbad) (start_untouched kern epfd timeout raddr lport rport)

/-! A run that serves a client: a connection comes in, and then its first bytes. -/

theorem skip_tasks (t : Tunnel) (os : CallbackOs) (hempty : ∀ i, t.sys.task i = none) (n : Nat) :
    ∀ i : Nat, ((i + n : Nat) : Int) ≤ t.sys.fds.taskArray.size →
      exec step { t with control := .taskLoop i } (List.replicate n (.next os)) =
        .ok { t with control := .taskLoop (i + n) } := by
  induction n with
  | zero => exact fun i _ => rfl
  | succ n ih =>
      intro i hsize
      have hlt : (i : Int) < t.sys.fds.taskArray.size := by omega
      have hstep : step { t with control := .taskLoop i } (.next os) = .ok { t with control := .taskLoop (i + 1) } := by
        rw [step_next_eq]
        show (fun process => { t with toProcess := process }) <$> Process.next ⟨t.sys, .taskLoop i⟩ = _
        rw [Process.next]
        dsimp only
        rw [if_pos hlt, hempty i]
        rfl
      rw [List.replicate_succ, exec, hstep, ok_bind, ih (i + 1) (by omega), Nat.add_right_comm]
      rfl

def callbackOs : CallbackOs where
  accept := ⟨⟨some 2, 0⟩, ⟨some 5, 0⟩, true⟩
  malloc := some 1
  recv := .data [0x41]
  now := 0
  connect := ⟨⟨some 3, 0⟩, ⟨true, none, .failed, 0⟩, true⟩
  send := ⟨1, .sent 1, 0⟩

def after (t : Tunnel) (acts : List TunnelAct) : Tunnel :=
  match exec step t acts with
  | .ok u => u
  | .error _ => t

def bareStart : Tunnel := start .bare 3 10 hostsimIp 8000 hostsimPort

/-- The server listens on descriptor 4, and a connection comes in there. -/
def incoming : List TunnelAct :=
  [.serverRegist ⟨⟨some 1, 0⟩, ⟨true, some [.socket 4 true], true, 0⟩, true⟩,
    .detectEvent (some [⟨4, epollin, 0, true⟩]), .procEvent]

def toQueue : List TunnelAct := [.next callbackOs, .next callbackOs, .next callbackOs]

def firstBytes : List TunnelAct :=
  toQueue ++ [.next callbackOs, .detectEvent (some [⟨5, epollin, 0, true⟩]), .procEvent]

theorem exec_tasks {t : Tunnel} (hcontrol : t.control = .taskLoop 0) (harray : t.sys.fds.taskArray = cpArrayInit cpDefMaxEvents)
    (os : CallbackOs) :
    exec step t (List.replicate cpDefMaxEvents.toNat (.next os)) =
      .ok { t with control := .taskLoop cpDefMaxEvents.toNat } := by
  have hempty : ∀ i, t.sys.task i = none := fun i => by
    rw [Sys.task, harray, cpArrayInit, List.getElem?_replicate]
    split <;> rfl
  have hwalk := skip_tasks t os hempty cpDefMaxEvents.toNat 0 (by rw [harray]; decide)
  rw [← hcontrol, Nat.zero_add] at hwalk
  exact hwalk

theorem exec_after {t : Tunnel} {acts : List TunnelAct} (h : (exec step t acts).isOk = true) :
    exec step t acts = .ok (after t acts) := by
  rw [after]
  cases hrun : exec step t acts with
  | ok u => rfl
  | error e => rw [hrun] at h; cases h

def tasks : List TunnelAct := List.replicate cpDefMaxEvents.toNat (.next callbackOs)

def walked (t : Tunnel) : Tunnel := { t with control := .taskLoop cpDefMaxEvents.toNat }

def accepted : Tunnel := walked (after bareStart incoming)

def served : Tunnel := walked (after accepted firstBytes)

/-- The server's context goes back with the first bytes of the first client. -/
theorem first_client_frees_server : ¬ ∀ (kern : Kernel) (epfd : Nat) (timeout : Int) (raddr : String) (lport rport : Int)
    (acts : List TunnelAct), Always step Isolated (start kern epfd timeout raddr lport rport) acts := by
  intro h
  have haccepted : exec step (after bareStart incoming) tasks = .ok accepted := exec_tasks rfl rfl callbackOs
  have hserved : exec step (after accepted firstBytes) tasks = .ok served := exec_tasks rfl rfl callbackOs
  have hrun : exec step bareStart (incoming ++ (tasks ++ (firstBytes ++ (tasks ++ toQueue)))) =
      .ok (after served toQueue) := by
    rw [exec_append (exec_after (by decide +kernel)), exec_append haccepted,
      exec_append (exec_after (by decide +kernel)), exec_append hserved]
    exact exec_after (by decide +kernel)
  have hisolated := (h .bare 3 10 hostsimIp 8000 hostsimPort _).last hrun
  exact hisolated.freed (show servTpdu ∈ (after served toQueue).freed by decide +kernel)

end Tunnel

end Fl2440.CpLibrary
