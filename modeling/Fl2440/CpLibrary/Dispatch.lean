import Fl2440.CpLibrary.CpNetwork

/-! The loops of `cp_fds.c` that run callbacks or take sockets apart, as a machine
that goes from one test to the next: `cp_fds_proc_event`, and the walks of
`cp_sock_term_all_service`. The application calls the library in between and in
the callbacks. -/
namespace Fl2440.CpLibrary

open Fl2440.Lib

inductive Control where
  | outside
  /-- At the test of the loop over the task array. -/
  | taskLoop (i : Nat)
  | taskCallback (i : Nat) (sock : SockId)
  /-- At the test of the loop over the queue, which had `queued` sockets in it
  when the loop began and has gone through `rounds` of them since. -/
  | queueLoop (queued rounds : Nat)
  | queueCallback (queued rounds : Nat) (sock : SockId)
  /-- At the test of the walk of `cp_sock_term_all_server`, with its two cursors. -/
  | serverWalk (sock tsock : Ptr)
  /-- At that of `cp_sock_term_server`; `next` is the cursor of the outer walk. -/
  | acceptWalk (servSock : SockId) (next sock tsock : Ptr)
  /-- At that of `cp_sock_term_all_client`. -/
  | clientWalk (sock tsock : Ptr)
  | stopped
deriving DecidableEq, Repr

def Control.yields : Control → Bool
  | .outside | .taskCallback _ _ | .queueCallback _ _ _ => true
  | _ => false

structure Process where
  sys : Sys
  control : Control

/-- `list_entry(head->next)`; `none` stands for the list head itself. -/
def Sys.firstEntry (σ : Sys) (head : ListHead) : Except Fault Ptr := do
  let list ← σ.registry head
  return list.head?

/-- `list_entry(sock->rlist.next)`, which follows the links of `sock`. At the list
head the macro reads on as well, but the walk is over then. -/
def Sys.nextEntry (σ : Sys) : Ptr → Except Fault Ptr
  | none => .ok none
  | some p => do
      let s ← σ.load p
      match s.rlist with
      | none => .error .null
      | some head => do
          let list ← σ.registry head
          return (list.dropWhile (· ≠ p)).tail.head?

def Sys.walkStart (σ : Sys) (head : ListHead) : Except Fault (Ptr × Ptr) := do
  let sock ← σ.firstEntry head
  let tsock ← σ.nextEntry sock
  return (sock, tsock)

def Sys.walkOn (σ : Sys) (sock : SockId) (tsock : Ptr) : Except Fault (Sys × Ptr) := do
  let σ ← cpFdsDestroySock σ (some sock)
  let tsock ← σ.nextEntry tsock
  return (σ, tsock)

def Process.next (s : Process) : Except Fault Process :=
  match s.control with
  | .outside => .ok s
  | .taskLoop i =>
      if (i : Int) < s.sys.fds.taskArray.size then
        match s.sys.task i with
        | none => return { s with control := .taskLoop (i + 1) }
        | some p => do
            let sock ← s.sys.load p
            if sock.cbfunc.isSome then return { s with control := .taskCallback i p }
            else
              let σ ← cpFdsDelSockTask s.sys (some p)
              return ⟨σ, .taskLoop (i + 1)⟩
      else return { s with control := .queueLoop s.sys.fds.eventQueue.nodes.length 0 }
  | .taskCallback i _ => .ok { s with control := .taskLoop (i + 1) }
  | .queueLoop queued rounds =>
      if cpQueueIsEmpty s.sys.fds.eventQueue then return { s with control := .outside }
      else do
        let (sock, σ) ← cpFdsSockDequeue s.sys
        match sock with
        | none => return ⟨σ, .queueLoop queued (rounds + 1)⟩
        | some p => do
            let sock ← σ.load p
            if sock.cbfunc.isSome then return ⟨σ, .queueCallback queued (rounds + 1) p⟩
            else return ⟨σ, .queueLoop queued (rounds + 1)⟩
  | .queueCallback queued rounds _ => .ok { s with control := .queueLoop queued rounds }
  | .serverWalk none _ => do
      let (sock, tsock) ← s.sys.walkStart .client
      return { s with control := .clientWalk sock tsock }
  | .serverWalk (some servSock) next => do
      let (sock, tsock) ← s.sys.walkStart (.accept servSock)
      return { s with control := .acceptWalk servSock next sock tsock }
  | .acceptWalk servSock next none _ => do
      let (σ, tsock) ← s.sys.walkOn servSock next
      return ⟨σ, .serverWalk next tsock⟩
  | .acceptWalk servSock next (some p) tsock => do
      let (σ, tsock') ← s.sys.walkOn p tsock
      return ⟨σ, .acceptWalk servSock next tsock tsock'⟩
  | .clientWalk none _ => return ⟨cpFdsTerm s.sys, .stopped⟩
  | .clientWalk (some p) tsock => do
      let (σ, tsock') ← s.sys.walkOn p tsock
      return ⟨σ, .clientWalk tsock tsock'⟩
  | .stopped => .ok s

inductive Act where
  | call (c : Call)
  | procEvent
  | termAllService
  | next

/-- An act that has no place where the thread stands changes nothing. -/
def Process.step (s : Process) : Act → Except Fault Process
  | .call c =>
      if s.control.yields then do
        let σ ← s.sys.call c
        return { s with sys := σ }
      else .ok s
  | .procEvent =>
      if s.control = .outside then .ok { s with control := .taskLoop 0 } else .ok s
  | .termAllService =>
      if s.control = .outside then do
        let σ ← cpSockTermAllTask s.sys
        let (sock, tsock) ← σ.walkStart .server
        return ⟨σ, .serverWalk sock tsock⟩
      else .ok s
  | .next => s.next

end Fl2440.CpLibrary
