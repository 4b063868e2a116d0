import Fl2440.CpLibrary.Dispatch

/-! `swe_tpdud.c`, the tunnel: what comes in on the socket of an accepted client, the
downlink, goes out on a socket of its own, the uplink. A context ties the two together. -/
namespace Fl2440.CpLibrary

open Fl2440.Lib

def cpSockEventRead : UInt32 := epollin
def cpSockEventHup : UInt32 := 0x10

/-- `tpdu_service_route` and `proc_uplink_event`, as a socket keeps them. -/
def serviceRoute : Callback := .service 0
def uplinkEvent : Callback := .service 1

structure SweTpdu where
  raddr : String
  lport : Int
  rport : Int
  dlink : Ptr
  ulink : Ptr

/-- The context on the stack of `main`. -/
def servTpdu : Nat := 0

def hostsimIp : String := "192.168.3.6"
def hostsimPort : Int := 9002

/-- The context of the server, and those of the clients. `freed` is what `t_free` got, and
`worksOn` the context that a downlink has last been served with. -/
structure Tunnel extends Process where
  sock : Ptr
  tpdu : Nat → SweTpdu
  heap : Finset Nat
  freed : List Nat
  worksOn : SockId → Option Nat

structure CallbackOs where
  accept : AcceptRegistOs
  malloc : Option Nat
  recv : Recv
  now : ULong
  connect : ConnectRegistOs
  send : SendOs

namespace Tunnel

def loadTpdu (t : Tunnel) : Option Nat → Except Fault (Nat × SweTpdu)
  | none => .error .null
  | some tpdu => if tpdu ∈ t.heap then .ok (tpdu, t.tpdu tpdu) else .error .freed

def setTpdu (t : Tunnel) (tpdu : Nat) (f : SweTpdu → SweTpdu) : Tunnel :=
  { t with tpdu := Function.update t.tpdu tpdu (f (t.tpdu tpdu)) }

def freshTpdu (t : Tunnel) (hint : Nat) : Nat := if hint ∉ t.heap then hint else t.heap.sup id + 1 + hint

/-- `cp_fds_destroy_sock_clear`, for a pointer that may be NULL. -/
def destroySock (t : Tunnel) (sock : Ptr) : Except Fault Tunnel :=
  match sock with
  | none => .ok t
  | some p => do
      let sys ← cpFdsDestroySock t.sys (some p)
      return { t with sys, worksOn := Function.update t.worksOn p none }

def stopTpduService (t : Tunnel) : Option Nat → Except Fault Tunnel
  | none => .ok t
  | some tpdu => do
      let (_, ctx) ← t.loadTpdu (some tpdu)
      let t ← t.destroySock ctx.dlink
      let t ← t.destroySock ctx.ulink
      let t := t.setTpdu tpdu fun ctx => { ctx with dlink := none, ulink := none }
      return { t with heap := t.heap.erase tpdu, freed := t.freed ++ [tpdu] }

/-- `cp_string_move` from one socket to another, then `cp_sock_send`. -/
def forward (t : Tunnel) (src dst : SockId) (send : SendOs) : Except Fault Tunnel := do
  let s ← t.sys.load src
  let d ← t.sys.load dst
  let (_, sbuf, rbuf) ← cpStringMove d.sbuf s.rbuf
  let sys := (t.sys.modify src fun s => { s with rbuf }).modify dst fun d => { d with sbuf }
  let (_, d, _) ← cpSockSend (sys.mem dst) send
  return { t with sys := sys.modify dst fun _ => d }

def recv (t : Tunnel) (sock : SockId) (os : CallbackOs) : Except Fault (Int × Tunnel) := do
  let s ← t.sys.load sock
  let (rv, s, _) := cpSockRecv s os.recv os.now
  return (rv, { t with sys := t.sys.modify sock fun _ => s })

def procUplinkEvent (t : Tunnel) (ulink : SockId) (os : CallbackOs) : Except Fault Tunnel := do
  let s ← t.sys.load ulink
  match s.privt with
  | none => return t
  | some tpdu =>
      let (_, ctx) ← t.loadTpdu (some tpdu)
      match ctx.dlink with
      | none => return t
      | some dlink =>
          if s.status = .disconnect then t.stopTpduService (some tpdu)
          else if s.event.events &&& cpSockEventRead ≠ 0 then
            let (rv, t) ← t.recv ulink os
            if rv = 0 then t.stopTpduService (some tpdu)
            else if 0 < rv then
              match (t.sys.mem ulink).rbuf with
              | none => throw .null
              | some rbuf => if 0 < rbuf.len then t.forward ulink dlink os.send else return t
            else return t
          -- the time outs are only logged
          else return t

def tpduConnectUplink (t : Tunnel) (tpdu : Nat) (os : ConnectRegistOs) : Except Fault (Int × Tunnel) := do
  let (_, ctx) ← t.loadTpdu (some tpdu)
  match ctx.dlink with
  | none => return (-1, t)
  | some dlink =>
      let _ ← t.sys.load dlink
      let (ulink, sys) ← cpSockConnectRegist t.sys ctx.ulink true ctx.rport 0 (some uplinkEvent) os
      match ulink with
      | none => return (-1, { t with sys }.setTpdu tpdu fun ctx => { ctx with ulink := none })
      | some p =>
          let sys := sys.modify p fun s => { s with privt := some tpdu }
          let (_, sys) ← cpFdsAddSockTask sys (some dlink)
          let sys := sys.modify dlink fun s => { s with event.events := 0 }
          return (0, { t with sys }.setTpdu tpdu fun ctx => { ctx with ulink := some p })

/-- `dlink->serv_sock->privt`. -/
def servContext (t : Tunnel) (dlink : SockId) : Except Fault SweTpdu := do
  let s ← t.sys.load dlink
  match s.servSock with
  | none => throw .null
  | some serv => do
      let serv ← t.sys.load serv
      let (_, ctx) ← t.loadTpdu serv.privt
      return ctx

def needsUplink (t : Tunnel) (ctx : SweTpdu) : Except Fault Bool :=
  match ctx.ulink with
  | none => .ok true
  | some ulink => do
      let s ← t.sys.load ulink
      return s.status = .connecting

def sendUplink (t : Tunnel) (dlink : SockId) (tpdu : Nat) (os : CallbackOs) : Except Fault Tunnel := do
  let (_, ctx) ← t.loadTpdu (some tpdu)
  match ctx.ulink with
  | none => throw .null
  | some ulink =>
      let s ← t.sys.load ulink
      if s.status = .already then
        let sys ← cpFdsDelSockTask t.sys (some dlink)
        let t := { t with sys }
        match (t.sys.mem dlink).rbuf with
        | none => throw .null
        | some rbuf => if 0 < rbuf.len then t.forward dlink ulink os.send else return t
      else return t

/-- `tpdu_service_route` once the event has been looked at. -/
def routeUplink (t : Tunnel) (dlink : SockId) (tpdu : Nat) (os : CallbackOs) : Except Fault Tunnel := do
  let s ← t.sys.load dlink
  match s.rbuf with
  | none => throw .null
  | some rbuf =>
      let t ←
        (if 0 < rbuf.len then do
          let arg ← t.servContext dlink
          return t.setTpdu tpdu fun ctx => { ctx with rport := arg.rport, raddr := arg.raddr }
        else return t)
      let (_, ctx) ← t.loadTpdu (some tpdu)
      if ← t.needsUplink ctx then
        let (rv, t) ← t.tpduConnectUplink tpdu os.connect
        if rv < 0 then t.stopTpduService (some tpdu) else t.sendUplink dlink tpdu os
      else t.sendUplink dlink tpdu os

def serveDownlink (t : Tunnel) (dlink : SockId) (tpdu : Nat) (os : CallbackOs) : Except Fault Tunnel := do
  let t := { t with worksOn := Function.update t.worksOn dlink (some tpdu) }
  let s ← t.sys.load dlink
  if s.event.events &&& cpSockEventRead ≠ 0 then
    let (rv, t) ← t.recv dlink os
    if rv ≤ 0 then t.stopTpduService (some tpdu) else t.routeUplink dlink tpdu os
  else if s.event.events &&& cpSockEventHup ≠ 0 then
    let t := { t with sys := t.sys.modify dlink fun s => { s with status := .disconnect } }
    t.stopTpduService (some tpdu)
  else t.routeUplink dlink tpdu os

def tpduServiceRoute (t : Tunnel) (dlink : SockId) (os : CallbackOs) : Except Fault Tunnel := do
  let s ← t.sys.load dlink
  match s.privt with
  | some tpdu => t.serveDownlink dlink tpdu os
  | none =>
      match os.malloc with
      | none => t.stopTpduService none
      | some hint =>
          let serv ← t.servContext dlink
          let tpdu := t.freshTpdu hint
          let t := { t with
            sys := t.sys.modify dlink fun s => { s with privt := some tpdu }
            tpdu := Function.update t.tpdu tpdu ⟨serv.raddr, 0, serv.rport, some dlink, none⟩
            heap := insert tpdu t.heap }
          t.serveDownlink dlink tpdu os

/-- `sock->cbfunc(sock)`. -/
def callback (t : Tunnel) (p : SockId) (os : CallbackOs) : Except Fault Tunnel := do
  let s ← t.sys.load p
  if s.cbfunc = some .acceptRegist then
    let (_, sys) ← cpSockAcceptRegist t.sys (some p) os.accept
    return { t with sys }
  else if s.cbfunc = some serviceRoute then t.tpduServiceRoute p os
  else if s.cbfunc = some uplinkEvent then t.procUplinkEvent p os
  else throw .null

end Tunnel

def Control.running : Control → Ptr
  | .taskCallback _ sock | .queueCallback _ _ sock => some sock
  | _ => none

/-- The calls of `main`; `next` takes the loops of `cp_fds_proc_event` on. -/
inductive TunnelAct where
  | serverRegist (os : ServerRegistOs)
  | detectEvent (wait : Option (List Ready))
  | detectTimeout (now : SockId → Clock)
  | procEvent
  | next (os : CallbackOs)

namespace Tunnel

/-- An act of `main` has its place between the loops only. -/
def step (t : Tunnel) : TunnelAct → Except Fault Tunnel
  | .serverRegist os =>
      if t.control = .outside ∧ t.sock = none then do
        let (sock, sys) ← cpSockServerRegist t.sys (t.tpdu servTpdu).lport 0 (some serviceRoute) (some servTpdu) os
        return { t with
          sys
          sock }
      else .ok t
  | .detectEvent wait =>
      if t.control = .outside then do
        let (_, sys) ← cpFdsDetectEvent t.sys wait
        return { t with sys }
      else .ok t
  | .detectTimeout now =>
      if t.control = .outside then do
        let sys ← cpSockDetectTimeout t.sys now
        return { t with sys }
      else .ok t
  | .procEvent => .ok (if t.control = .outside then { t with control := .taskLoop 0 } else t)
  | .next os => do
      let t ←
        (match t.control.running with
        | some p => t.callback p os
        | none => .ok t)
      let process ← t.toProcess.next
      return { t with toProcess := process }

/-- `main` after `cp_fds_init`, with the port and the remote side that were asked for. -/
def start (kern : Kernel) (epfd : Nat) (timeout : Int) (raddr : String) (lport rport : Int) : Tunnel where
  sys :=
    { fds :=
        { malloced := true
          epfd := kern.freshFd epfd
          timeout := if timeout < 0 then -1 else timeout
          maxEvent := cpDefMaxEvents
          eventCnt := 0
          serverList := []
          clientList := []
          eventQueue := cpQueueInit cpDefMaxEvents
          taskArray := cpArrayInit cpDefMaxEvents }
      mem := fun _ => {}
      live := ∅
      kern := kern.openFd epfd }
  control := .outside
  sock := none
  tpdu := Function.update (fun _ => ⟨"", 0, 0, none, none⟩) servTpdu ⟨raddr, lport, rport, none, none⟩
  heap := {servTpdu}
  freed := []
  worksOn := fun _ => none

end Tunnel

end Fl2440.CpLibrary
