import Fl2440.CpLibrary.State

/-! `cp_sock.c`: the life of one socket. Outcomes of system calls are arguments;
what a call does to the descriptors is `Kernel`'s. -/
namespace Fl2440.CpLibrary

open Fl2440.Lib

def cpDefRcvbufSize : Int := 2048
def cpDefSndbufSize : Int := 2048
def cpSockDefIdleTimeout : ULong := 120 * 1000
def cpSockDefMsgTimeout : ULong := 120 * 1000

/-- `addr` is missing when one of the three allocations fails. -/
structure SockInitOs where
  addr : Option Nat
  now : ULong

def sockBlank (malloced : Bool) (now : ULong) : Sock where
  rbuf := some (cpStringCreateEmpty cpDefRcvbufSize)
  sbuf := some (cpStringCreateEmpty cpDefSndbufSize)
  idleTimeout := cpSockDefIdleTimeout
  msgTimeout := cpSockDefMsgTimeout
  fd := -1
  index := -1
  actvTime := now
  flag := { init := true, malloc := malloced }

/-- With `malloced` for a NULL argument, else on storage of the caller's. -/
def cpSockInit (σ : Sys) (malloced : Bool) (os : SockInitOs) : Ptr × Sys :=
  match os.addr with
  | none => (none, σ)
  | some hint =>
      let p := σ.freshAddr hint
      (some p, { σ with
        live := insert p σ.live
        mem := Function.update σ.mem p (sockBlank malloced os.now) })

/-- `closed` is whether `close()` reports success; it releases the descriptor
in any case. -/
def cpSockClose (σ : Sys) (sock : Ptr) (closed : Bool) : Except Fault (Int × Sys) :=
  match sock with
  | none => .ok (-1, σ)
  | some p => do
      let s ← σ.load p
      if 0 < s.fd then
        if closed && s.fd ∈ σ.kern.opened then
          return (0, { σ with kern := σ.kern.close s.fd }.modify p fun s => { s with fd := -1 })
        else
          return (-2, { σ with kern := σ.kern.close s.fd })
      else
        return (0, σ.modify p fun s => { s with fd := -1 })

def cpSockTerm (σ : Sys) (sock : Ptr) : Except Fault Sys :=
  match sock with
  | none => .ok σ
  | some p => do
      let s ← σ.load p
      let (_, σ) ← (if s.flag.init then cpSockClose σ (some p) true else .ok (0, σ))
      -- with `FLAG_SOCK_MALLOC` the memory goes back, without it the caller may reuse it
      return σ.free p

inductive BindAddr where
  | refused
  | socket (hint : Nat) (bind : Bool)

structure ListenOs where
  closed : Bool
  addrs : Option (List BindAddr)
  listen : Bool
  now : ULong

/-- The loop over the addresses: `rv`, the local `fd`, whether it was bound. -/
def bindAddrs (kern : Kernel) (rv fd : Int) : List BindAddr → Int × Int × Bool × Kernel
  | [] => (rv, fd, false, kern)
  | .refused :: rest => bindAddrs kern (-3) (-1) rest
  | .socket hint true :: _ => (0, kern.freshFd hint, true, kern.openFd hint)
  | .socket hint false :: rest =>
      bindAddrs ((kern.openFd hint).close (kern.freshFd hint)) (-4) (kern.freshFd hint) rest

def listenCleanup (σ : Sys) (p : SockId) (rv : Int) (now : ULong) : Int × Sys :=
  if rv ≠ 0 then
    (rv, if 0 < (σ.mem p).fd then { σ with kern := σ.kern.close (σ.mem p).fd } else σ)
  else (rv, σ.modify p fun s => { s with actvTime := now, status := .already })

def cpSockListen (σ : Sys) (sock : Ptr) (lport backlog : Int) (os : ListenOs) :
    Except Fault (Int × Sys) :=
  match sock with
  | none => .error .null
  | some p => do
      let s ← σ.load p
      if !s.flag.init || lport ≤ 0 || backlog ≤ 0 then
        return listenCleanup σ p (-1) os.now
      else
        let (_, σ) ← cpSockClose σ (some p) os.closed
        match os.addrs with
        | none => return listenCleanup σ p (-2) os.now
        | some addrs =>
            let (rv, fd, bound, kern) := bindAddrs σ.kern 0 (-1) addrs
            if !bound then
              return listenCleanup ({ σ with kern := kern.close fd }.modify p fun s =>
                { s with fd := -1 }) p rv os.now
            else
              let σ := { σ with kern }.modify p fun s => { s with fd }
              if !os.listen then return listenCleanup σ p (-6) os.now
              else return listenCleanup (σ.modify p fun s => { s with mode := .listen }) p rv os.now

structure AcceptOs where
  accept : Option Nat
  now : ULong

def cpSockAccept (σ : Sys) (servSock newSock : Ptr) (os : AcceptOs) : Except Fault (Int × Sys) :=
  match servSock with
  -- the cleanup after the check looks at the server for its message
  | none => .error .null
  | some serv => do
      let s ← σ.load serv
      match newSock with
      | none => return (-1, { σ with kern := σ.kern.close (-1) })
      | some p =>
          if s.fd < 0 then
            return (-1, { σ with kern := σ.kern.close (-1) })
          else match os.accept with
            | none => return (-2, { σ with kern := σ.kern.close (-1) })
            | some hint => do
                let _ ← σ.load p
                return (0, { σ with kern := σ.kern.openFd hint }.modify p fun s =>
                  { s with fd := σ.kern.freshFd hint, mode := .accept, status := .already, actvTime := os.now })

/-- What `connect()` comes to: done is 0, in progress EINPROGRESS; at the label
`connecting` also EISCONN and EALREADY. -/
inductive Connect where
  | done
  | inProgress
  | failed
deriving DecidableEq, Repr

inductive ConnectAddr where
  | refused
  | socket (hint : Nat) (bind : Bool) (connect : Connect)

structure ConnectOs where
  closed : Bool
  addrs : Option (List ConnectAddr)
  /-- The call at the label `connecting`. -/
  again : Connect
  now : ULong

inductive ConnectLoop where
  | exhausted (rv fd : Int) (kern : Kernel)
  | connected (fd : Int) (kern : Kernel)
  | connecting (fd : Int) (kern : Kernel)
  | failed (kern : Kernel)

def connectAddrs (lport : Int) (kern : Kernel) (rv fd : Int) : List ConnectAddr → ConnectLoop
  | [] => .exhausted rv fd kern
  | .refused :: rest => connectAddrs lport kern (-3) (-1) rest
  | .socket hint bind connect :: rest =>
      let fd := kern.freshFd hint
      if 0 < lport && !bind then connectAddrs lport ((kern.openFd hint).close fd) (-4) fd rest
      else match connect with
        | .done => .connected fd (kern.openFd hint)
        | .inProgress => .connecting fd (kern.openFd hint)
        | .failed => .failed ((kern.openFd hint).close fd)

/-- The label `failed` of `cp_sock_connect`; `sock->fd` keeps the number. -/
def connectFailed (σ : Sys) (p : SockId) (rv : Int) : Int × Sys :=
  (rv, if 0 ≤ (σ.mem p).fd then { σ with kern := σ.kern.close (σ.mem p).fd } else σ)

def connectConnected (σ : Sys) (p : SockId) (rv : Int) (now : ULong) : Int × Sys :=
  if (σ.mem p).status = .already then (0, σ.modify p fun s => { s with actvTime := now })
  else connectFailed σ p rv

def connectConnecting (σ : Sys) (p : SockId) (rv : Int) (again : Connect) (now : ULong) :
    Int × Sys :=
  if (σ.mem p).status = .connecting then
    match again with
    | .done => connectConnected (σ.modify p fun s => { s with status := .already }) p 0 now
    | .inProgress => (0, σ)
    | .failed => connectConnected (σ.modify p fun s => { s with status := .disconnect }) p (-7) now
  else connectConnected σ p rv now

/-- `raddr` is whether the address is not NULL. -/
def cpSockConnect (σ : Sys) (sock : Ptr) (raddr : Bool) (rport lport : Int) (os : ConnectOs) :
    Except Fault (Int × Sys) :=
  match sock with
  | none => .ok (-1, σ)
  | some p => do
      let s ← σ.load p
      if !s.flag.init || !raddr || rport ≤ 0 then
        return connectFailed σ p (-1)
      else if s.status = .already then
        return (0, σ)
      else if s.status = .connecting then
        return connectConnecting σ p 0 os.again os.now
      else match os.addrs with
        | none => return connectFailed σ p (-2)
        | some addrs =>
            let (_, σ) ← cpSockClose σ (some p) os.closed
            let σ := σ.modify p fun s => { s with fd := -1 }
            match connectAddrs lport σ.kern 0 (-1) addrs with
            | .exhausted rv fd kern => return connectFailed { σ with kern := kern.close fd } p rv
            | .failed kern => return connectFailed { σ with kern } p (-5)
            | .connected fd kern =>
                return connectConnected ({ σ with kern }.modify p fun s =>
                  { s with fd, status := .connecting }) p 0 os.now
            | .connecting fd kern =>
                return connectConnecting ({ σ with kern }.modify p fun s =>
                  { s with fd, status := .connecting }) p 0 os.again os.now

/-- What `recv()` comes to; of the bytes offered it takes as many as fit. -/
inductive Recv where
  | data (bytes : List Byte)
  | again
  | failed

/-- The third component is what was taken from the connection. -/
def cpSockRecv (s : Sock) (recv : Recv) (now : ULong) : Int × Sock × List Byte :=
  match s.rbuf with
  | none => (-1, s, [])
  | some rbuf =>
      let left := rbuf.size - rbuf.len
      if s.fd < 0 then (-1, s, [])
      else if left ≤ 0 then (0, s, [])
      else match recv with
        | .again => (0, s, [])
        | .failed => (-2, s, [])
        | .data bytes =>
            let got := bytes.take left.toNat
            if got.length = 0 then (0, s, [])
            else (got.length,
              { s with rbuf := some (rbuf.append got), actvTime := now, msgTime := now }, got)

/-- What `send()` comes to; it accepts at most what it is given. -/
inductive Send where
  | sent (n : Nat)
  | again
  | failed

structure SendOs where
  poll : Int
  send : Send
  now : ULong

/-- The third component is what the connection has accepted. -/
def cpSockSend (s : Sock) (os : SendOs) : Except Fault (Int × Sock × List Byte) :=
  if s.fd < 0 then .ok (-1, s, [])
  else match s.sbuf with
    | none => .error .null
    | some sbuf =>
        if sbuf.len ≤ 0 then .ok (-1, s, [])
        else if 0 < os.poll then
          match os.send with
          | .again => .ok (0, s, [])
          | .failed => .ok (-4, s, [])
          | .sent n =>
              let rv := min n sbuf.len.toNat
              .ok (rv, { s with sbuf := some (sbuf.drop rv), actvTime := os.now },
                sbuf.contents.take rv)
        else .ok (0, s, [])

end Fl2440.CpLibrary
