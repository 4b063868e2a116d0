import Fl2440.CpLibrary.CpFds

/-! `cp_network.c`: sockets that are set up, entered into the registry and put
under epoll in one call, and taken back when a part of that fails. -/
namespace Fl2440.CpLibrary

open Fl2440.Lib

def cpDefMaxClients : Int := 1024

structure ServerRegistOs where
  init : SockInitOs
  listen : ListenOs
  ctlAdd : Bool

/-- The failures of `cp_sock_server_regist` behind `term_sock`. -/
def serverTermSock (σ : Sys) (p : SockId) : Except Fault (Ptr × Sys) := do
  let σ ← cpFdsDelSockTask σ (some p)
  let σ ← cpSockTerm σ (some p)
  return (none, σ)

def serverDelRegist (σ : Sys) (p : SockId) : Except Fault (Ptr × Sys) := do
  let σ ← cpFdsDelSockRegistry σ (some p)
  serverTermSock σ p

def cpSockServerRegist (σ : Sys) (port maxClient : Int) (serviceRoute : Option Callback)
    (data : Option Nat) (os : ServerRegistOs) : Except Fault (Ptr × Sys) :=
  if port < 0 then .ok (none, σ)
  else match cpSockInit σ true os.init with
    | (none, σ) => .ok (none, σ)
    | (some p, σ) => do
        let σ := σ.modify p fun s => { s with
          acceptList := some []
          fds := true
          cbfunc := some .acceptRegist
          clientFunc := serviceRoute
          privt := data
          mode := .listen }
        let (rv, σ) ← cpFdsAddSockRegistry σ (some p)
        if rv ≠ 0 then serverTermSock σ p
        else
          let clients := if maxClient ≤ 0 then cpDefMaxClients else maxClient
          let clients := if maxClient < σ.fds.maxEvent then clients else cpDefMaxClients
          let σ := σ.modify p fun s => { s with maxClient := clients }
          let (rv, σ) ← cpSockListen σ (some p) port clients os.listen
          if rv ≠ 0 then serverDelRegist σ p
          else
            let (rv, σ) ← cpAddEpollEvent σ (some p) os.ctlAdd
            if rv ≠ 0 then serverDelRegist σ p
            else return (some p, σ)

structure AcceptRegistOs where
  init : SockInitOs
  accept : AcceptOs
  ctlAdd : Bool

/-- The label `exit_out` of `cp_sock_accept_regist`. -/
def acceptExitOut (σ : Sys) (serv : SockId) (rv : Int) : Except Fault (Int × Sys) := do
  let σ ← cpFdsDelSockTask σ (some serv)
  return (rv, σ)

def acceptTermSock (σ : Sys) (serv p : SockId) (rv : Int) : Except Fault (Int × Sys) := do
  let σ ← cpSockTerm σ (some p)
  acceptExitOut σ serv rv

def acceptDelRegist (σ : Sys) (serv p : SockId) (rv : Int) : Except Fault (Int × Sys) := do
  let σ ← cpFdsDelSockRegistry σ (some p)
  acceptTermSock σ serv p rv

/-- A full server and a failed allocation return 0 like a success. -/
def cpSockAcceptRegist (σ : Sys) (servSock : Ptr) (os : AcceptRegistOs) : Except Fault (Int × Sys) :=
  match servSock with
  | none => .ok (-1, σ)
  | some serv => do
      let s ← σ.load serv
      if s.acceptCnt ≥ s.maxClient then acceptExitOut σ serv 0
      else match cpSockInit σ true os.init with
        | (none, σ) => acceptExitOut σ serv 0
        | (some p, σ) => do
            let σ := σ.modify p fun new => { new with
              servSock := some serv
              fds := s.fds
              privt := s.privt
              cbfunc := s.clientFunc
              mode := .accept }
            let (rv, σ) ← cpFdsAddSockRegistry σ (some p)
            if rv ≠ 0 then acceptTermSock σ serv p (-2)
            else
              let (rv, σ) ← cpSockAccept σ (some serv) (some p) os.accept
              if rv ≠ 0 then acceptDelRegist σ serv p (-3)
              else
                let (rv, σ) ← cpAddEpollEvent σ (some p) os.ctlAdd
                if rv ≠ 0 then acceptDelRegist σ serv p (-4)
                else return (0, σ)

structure ConnectRegistOs where
  init : SockInitOs
  connect : ConnectOs
  ctlAdd : Bool

/-- The label `term_sock` of `cp_sock_connect_regist`. -/
def connectTermSock (σ : Sys) (p : SockId) : Except Fault (Ptr × Sys) := do
  let σ ← cpFdsDelSockTask σ (some p)
  let σ ← cpSockTerm σ (some p)
  return (none, σ)

def connectDelRegist (σ : Sys) (p : SockId) : Except Fault (Ptr × Sys) := do
  let σ ← cpFdsDelSockRegistry σ (some p)
  connectTermSock σ p

def connectEntered (σ : Sys) (p : SockId) (rport lport : Int) (os : ConnectRegistOs) :
    Except Fault (Ptr × Sys) := do
  let (rv, σ) ← cpSockConnect σ (some p) true rport lport os.connect
  if rv ≠ 0 then connectDelRegist σ p
  else
    let (rv, σ) ← cpAddEpollEvent σ (some p) os.ctlAdd
    if rv ≠ 0 then connectDelRegist σ p
    else return (some p, σ)

def connectSock (σ : Sys) (p : SockId) (rport lport : Int) (serviceRoute : Option Callback)
    (os : ConnectRegistOs) : Except Fault (Ptr × Sys) := do
  let s ← σ.load p
  if s.status = .already then return (some p, σ)
  else if s.flag.registry then connectEntered σ p rport lport os
  else
    let σ := σ.modify p fun s => { s with fds := true, cbfunc := serviceRoute, mode := .connect }
    let (rv, σ) ← cpFdsAddSockRegistry σ (some p)
    if rv ≠ 0 then connectTermSock σ p
    else connectEntered σ p rport lport os

/-- `raddr` is whether the address is not NULL. -/
def cpSockConnectRegist (σ : Sys) (sock : Ptr) (raddr : Bool) (rport lport : Int)
    (serviceRoute : Option Callback) (os : ConnectRegistOs) : Except Fault (Ptr × Sys) :=
  if !raddr || rport < 0 then .ok (none, σ)
  else match sock with
    | some p => connectSock σ p rport lport serviceRoute os
    | none =>
        match cpSockInit σ true os.init with
        | (none, σ) => .ok (none, σ)
        | (some p, σ) => connectSock σ p rport lport serviceRoute os

inductive Call where
  | sockInit (malloced : Bool) (os : SockInitOs)
  | serverRegist (port maxClient : Int) (serviceRoute : Option Callback) (data : Option Nat)
      (os : ServerRegistOs)
  | acceptRegist (servSock : Ptr) (os : AcceptRegistOs)
  | connectRegist (sock : Ptr) (raddr : Bool) (rport lport : Int) (serviceRoute : Option Callback)
      (os : ConnectRegistOs)
  | addEpollEvent (sock : Ptr) (accept : Bool)
  | modEpollEvent (sock : Ptr) (event : UInt32) (accept : Bool)
  | delEpollEvent (sock : Ptr)
  | addSockRegistry (sock : Ptr)
  | delSockRegistry (sock : Ptr)
  | addSockTask (sock : Ptr)
  | delSockTask (sock : Ptr)
  | sockEnqueue (sock : Ptr) (node : Bool)
  | sockDequeue
  | sockRmqueue (sock : Ptr)
  | destroySock (sock : Ptr)
  | detectEvent (wait : Option (List Ready))
  | detectTimeout (now : SockId → Clock)
  | termAllTask

def Sys.call (σ : Sys) : Call → Except Fault Sys
  | .sockInit malloced os => .ok (cpSockInit σ malloced os).2
  | .serverRegist port maxClient serviceRoute data os =>
      Prod.snd <$> cpSockServerRegist σ port maxClient serviceRoute data os
  | .acceptRegist servSock os => Prod.snd <$> cpSockAcceptRegist σ servSock os
  | .connectRegist sock raddr rport lport serviceRoute os =>
      Prod.snd <$> cpSockConnectRegist σ sock raddr rport lport serviceRoute os
  | .addEpollEvent sock accept => Prod.snd <$> cpAddEpollEvent σ sock accept
  | .modEpollEvent sock event accept => Prod.snd <$> cpModEpollEvent σ sock event accept
  | .delEpollEvent sock => cpDelEpollEvent σ sock
  | .addSockRegistry sock => Prod.snd <$> cpFdsAddSockRegistry σ sock
  | .delSockRegistry sock => cpFdsDelSockRegistry σ sock
  | .addSockTask sock => Prod.snd <$> cpFdsAddSockTask σ sock
  | .delSockTask sock => cpFdsDelSockTask σ sock
  | .sockEnqueue sock node => Prod.snd <$> cpFdsSockEnqueue σ sock node
  | .sockDequeue => Prod.snd <$> cpFdsSockDequeue σ
  | .sockRmqueue sock => Prod.snd <$> cpFdsSockRmqueue σ sock
  | .destroySock sock => cpFdsDestroySock σ sock
  | .detectEvent wait => Prod.snd <$> cpFdsDetectEvent σ wait
  | .detectTimeout now => cpSockDetectTimeout σ now
  | .termAllTask => cpSockTermAllTask σ

end Fl2440.CpLibrary
