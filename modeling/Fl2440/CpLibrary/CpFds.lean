import Fl2440.CpLibrary.CpSock

/-! `cp_fds.c`: one epoll context with its registry lists, its task array and
its event queue. -/
namespace Fl2440.CpLibrary

open Fl2440.Lib

def cpMaxEventOnce : Nat := 128

/-- `accept` is whether the kernel has room for a registration it may accept. -/
def cpAddEpollEvent (σ : Sys) (sock : Ptr) (accept : Bool) : Except Fault (Int × Sys) :=
  match sock with
  | none => .ok (-1, σ)
  | some p => do
      let s ← σ.load p
      if !s.fds then return (-1, σ)
      else if s.flag.epolled then return (0, σ)
      else if σ.fds.eventCnt > σ.fds.maxEvent then return (-2, σ)
      else
        let σ := σ.modify p fun s => { s with event := { events := epollin, data := some p } }
        match σ.kern.ctlAdd s.fd (some p) accept with
        | .exist => return (0, σ)
        | .failed => return (-3, σ)
        | .ok kern =>
            return (0, { σ with kern, fds.eventCnt := σ.fds.eventCnt + 1 }.modify p fun s =>
              { s with flag.epolled := true })

def cpModEpollEvent (σ : Sys) (sock : Ptr) (event : UInt32) (accept : Bool) :
    Except Fault (Int × Sys) :=
  match sock with
  | none => .ok (-1, σ)
  | some p => do
      let s ← σ.load p
      if !s.fds then return (-1, σ)
      else if !s.flag.epolled then return (-2, σ)
      else
        let σ := σ.modify p fun s => { s with event.events := event }
        match σ.kern.ctlMod s.fd s.event.data accept with
        | none => return (-3, σ)
        | some kern => return (0, { σ with kern })

def cpDelEpollEvent (σ : Sys) (sock : Ptr) : Except Fault Sys :=
  match sock with
  | none => .ok σ
  | some p => do
      let s ← σ.load p
      if !s.fds then return σ
      else if !s.flag.epolled then return σ
      else
        return { σ with kern := σ.kern.ctlDel s.fd, fds.eventCnt := σ.fds.eventCnt - 1 }.modify p
          fun s => { s with flag.epolled := false }

def Sock.home (s : Sock) : Option ListHead :=
  match s.mode, s.servSock with
  | .connect, _ => some .client
  | .listen, _ => some .server
  | .accept, some serv => some (.accept serv)
  | _, _ => none

def Sys.countAccept (σ : Sys) (head : ListHead) (n : Int) : Sys :=
  match head with
  | .accept serv => σ.modify serv fun s => { s with acceptCnt := s.acceptCnt + n }
  | _ => σ

def cpFdsAddSockRegistry (σ : Sys) (sock : Ptr) : Except Fault (Int × Sys) :=
  match sock with
  | none => .ok (-1, σ)
  | some p => do
      let s ← σ.load p
      if !s.fds then return (-1, σ)
      else if s.flag.registry then return (0, σ)
      else match s.home with
        | none => return (-2, σ)
        | some head => do
            let list ← σ.registry head
            let σ := (σ.setRegistry head (list ++ [p])).countAccept head 1
            return (0, σ.modify p fun s => { s with rlist := some head, flag.registry := true })

/-- `list_del` poisons the links of the entry. -/
def listDel (σ : Sys) (p : SockId) : Except Fault Sys :=
  match (σ.mem p).rlist with
  | none => .error .null
  | some head => do
      let list ← σ.registry head
      return (σ.setRegistry head (list.erase p)).modify p fun s => { s with rlist := none }

def uncountAccept (σ : Sys) (s : Sock) : Except Fault Sys :=
  match s.mode, s.servSock with
  | .accept, some serv => do
      let _ ← σ.load serv
      return σ.countAccept (.accept serv) (-1)
  | _, _ => .ok σ

def cpFdsDelSockRegistry (σ : Sys) (sock : Ptr) : Except Fault Sys :=
  match sock with
  | none => .ok σ
  | some p => do
      let s ← σ.load p
      if !s.flag.registry then return σ
      else
        let σ ← uncountAccept σ s
        let σ ← listDel σ p
        return σ.modify p fun s => { s with flag.registry := false }

def cpFdsAddSockTask (σ : Sys) (sock : Ptr) : Except Fault (Int × Sys) :=
  match sock with
  | none => .ok (-1, σ)
  | some p => do
      let s ← σ.load p
      if !s.fds then return (-1, σ)
      else if s.flag.tasked then return (0, σ)
      else
        let (rv, taskArray) := cpArrayAdd σ.fds.taskArray p
        if rv ≥ 0 then
          return (0, { σ with fds.taskArray := taskArray }.modify p fun s =>
            { s with index := rv, flag.tasked := true })
        else return (-2, σ)

def cpFdsDelSockTask (σ : Sys) (sock : Ptr) : Except Fault Sys :=
  match sock with
  | none => .ok σ
  | some p => do
      let s ← σ.load p
      if !s.flag.tasked then return σ
      else if !s.fds then throw .null
      else
        let taskArray ←
          (if s.index ≥ 0 then cpArrayRmByindex σ.fds.taskArray s.index
          else .ok (cpArrayRmBydata σ.fds.taskArray p).2)
        return { σ with fds.taskArray := taskArray }.modify p fun s =>
          { s with flag.tasked := false, index := -1, event := {} }

/-- The flag is set before the queue is asked. -/
def cpFdsSockEnqueue (σ : Sys) (sock : Ptr) (node : Bool) : Except Fault (Ptr × Sys) :=
  match sock with
  | none => .ok (none, σ)
  | some p => do
      let s ← σ.load p
      if s.flag.inqueue || s.flag.tasked || !s.fds then return (none, σ)
      else
        let σ := σ.modify p fun s => { s with flag.inqueue := true }
        let (data, eventQueue) := cpEnqueue σ.fds.eventQueue p node
        return (data, { σ with fds.eventQueue := eventQueue })

/-- The item is followed without a test for NULL. -/
def cpFdsSockDequeue (σ : Sys) : Except Fault (Ptr × Sys) :=
  match cpDequeue σ.fds.eventQueue with
  | (none, _) => .error .null
  | (some p, eventQueue) => do
      let _ ← σ.load p
      return (some p, { σ with fds.eventQueue := eventQueue }.modify p fun s =>
        { s with flag.inqueue := false })

def cpFdsSockRmqueue (σ : Sys) (sock : Ptr) : Except Fault (Ptr × Sys) :=
  match sock with
  | none => .ok (none, σ)
  | some p => do
      let s ← σ.load p
      if !s.flag.inqueue || !s.fds then return (none, σ)
      else
        let σ := σ.modify p fun s => { s with flag.inqueue := false }
        let (data, eventQueue) ← cpRmqueue σ.fds.eventQueue p
        return (data, { σ with fds.eventQueue := eventQueue })

def cpFdsDestroySock (σ : Sys) (sock : Ptr) : Except Fault Sys := do
  let σ ← cpFdsDelSockTask σ sock
  let (_, σ) ← cpFdsSockRmqueue σ sock
  let σ ← cpDelEpollEvent σ sock
  let σ ← cpFdsDelSockRegistry σ sock
  cpSockTerm σ sock

/-- A descriptor that `epoll_wait` reports, with the clock and the allocator as
they are when it is handled. -/
structure Ready where
  fd : Int
  events : UInt32
  now : ULong
  node : Bool

def detectOne (σ : Sys) (evt : EpollEvent) (now : ULong) (node : Bool) : Except Fault Sys :=
  match evt.data with
  | none => .error .null
  | some p => do
      let _ ← σ.load p
      let σ := σ.modify p fun s => { s with event := evt, actvTime := now }
      if (σ.mem p).status = .already then
        let (_, σ) ← cpFdsSockEnqueue σ (some p) node
        return σ
      else return σ

/-- `epoll_wait` returns the user data of registered descriptors, at most
`CP_MAX_EVENT_ONCE` of them. -/
def epollWait (kern : Kernel) (ready : List Ready) : List (EpollEvent × ULong × Bool) :=
  (ready.filterMap fun r =>
    (kern.epoll r.fd).map fun data => ({ events := r.events, data }, r.now, r.node)).take
    cpMaxEventOnce

/-- `wait` is missing when `epoll_wait` fails. -/
def cpFdsDetectEvent (σ : Sys) (wait : Option (List Ready)) : Except Fault (Int × Sys) :=
  match wait with
  | none => .ok (-2, σ)
  | some ready => do
      let σ ← (epollWait σ.kern ready).foldlM (fun σ e => detectOne σ e.1 e.2.1 e.2.2) σ
      return (0, σ)

def timeElapsed (start current : ULong) : ULong :=
  if current < start then (0xFFFFFFFF - start) + current else current - start

/-- The clock at the first and at the second test of a socket. -/
structure Clock where
  idle : ULong
  msg : ULong

/-- The body of both loops of `cp_sock_detect_timeout`. -/
def detectTimeoutOne (σ : Sys) (p : SockId) (now : Clock) : Except Fault Sys := do
  let s ← σ.load p
  if s.idleTimeout > 0 && timeElapsed s.actvTime now.idle > s.idleTimeout then
    let σ := σ.modify p fun s => { s with event.events := cpSockEventIdleTimeout }
    let (_, σ) ← cpFdsAddSockTask σ (some p)
    return σ
  else if s.msgTimeout > 0 && s.msgTime > 0 && timeElapsed s.msgTime now.msg > s.msgTimeout then
    let σ := σ.modify p fun s => { s with event.events := cpSockEventMsgTimeout }
    let (_, σ) ← cpFdsAddSockTask σ (some p)
    return σ
  else return σ

/-- Neither loop changes the list it walks. -/
def cpSockDetectTimeout (σ : Sys) (now : SockId → Clock) : Except Fault Sys := do
  let σ ← σ.fds.clientList.foldlM (fun σ p => detectTimeoutOne σ p (now p)) σ
  σ.fds.serverList.foldlM (fun σ serv => do
    let list ← σ.registry (.accept serv)
    list.foldlM (fun σ p => detectTimeoutOne σ p (now p)) σ) σ

def Sys.task (σ : Sys) (i : Nat) : Ptr := (σ.fds.taskArray.data[i]?).join

def cpSockTermAllTask (σ : Sys) : Except Fault Sys := do
  let σ ← (List.range σ.fds.taskArray.size.toNat).foldlM (fun σ i => cpFdsDelSockTask σ (σ.task i)) σ
  return { σ with fds.eventQueue := cpQueueDrain σ.fds.eventQueue }

/-- Closing the epoll descriptor also ends its set. -/
def cpFdsTerm (σ : Sys) : Sys :=
  if 0 ≤ σ.fds.epfd then
    { σ with kern := { σ.kern.close σ.fds.epfd with epoll := fun _ => none, registered := fun _ _ => rfl } }
  else σ

end Fl2440.CpLibrary
