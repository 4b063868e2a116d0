import Fl2440.CpLibrary.Kernel
import Fl2440.CpLibrary.CpQueue
import Fl2440.CpLibrary.CpArray
import Fl2440.CpLibrary.CpString

/-! The state the event library works on: one `CP_FDS` context, the sockets by
address, which of them are alive, and the kernel. -/
namespace Fl2440.CpLibrary

open Fl2440.Lib

/-- `unsigned long` on the ARM target. -/
abbrev ULong := UInt32

inductive SockMode where
  | none
  | accept
  | connect
  | listen
deriving DecidableEq, Repr

/-- `SOCK_STAT_CONNECTED`, `_LISTENED`, `_ACCEPTED` and `_ALREADY` are one number. -/
inductive SockStat where
  | init
  | connecting
  | already
  | disconnect
deriving DecidableEq, Repr

structure SockFlag where
  init : Bool := false
  malloc : Bool := false
  epolled : Bool := false
  registry : Bool := false
  inqueue : Bool := false
  tasked : Bool := false
deriving DecidableEq, Repr

structure EpollEvent where
  events : UInt32 := 0
  data : Ptr := none
deriving DecidableEq, Repr

def epollin : UInt32 := 1
def cpSockEventIdleTimeout : UInt32 := 0x10000
def cpSockEventMsgTimeout : UInt32 := 0x20000

/-- A `CP_SOCK_EVENT_CALLBACK`: `cp_sock_accept_regist` or a function of the
application. -/
inductive Callback where
  | acceptRegist
  | service (address : Nat)
deriving DecidableEq, Repr

/-- The list head that a linked `rlist` member hangs on. -/
inductive ListHead where
  | client
  | server
  | accept (serv : SockId)
deriving DecidableEq, Repr

structure Sock where
  fd : Int := 0
  mode : SockMode := .none
  flag : SockFlag := {}
  status : SockStat := .init
  actvTime : ULong := 0
  msgTime : ULong := 0
  idleTimeout : ULong := 0
  msgTimeout : ULong := 0
  event : EpollEvent := {}
  sbuf : Option CpString := none
  rbuf : Option CpString := none
  /-- Whether the member points at the context; the alternative is NULL. -/
  fds : Bool := false
  cbfunc : Option Callback := none
  clientFunc : Option Callback := none
  servSock : Ptr := none
  maxClient : Int := 0
  acceptCnt : Int := 0
  /-- `none` until `INIT_LIST_HEAD`. -/
  acceptList : Option (List SockId) := none
  privt : Option Nat := none
  index : Int := 0
  rlist : Option ListHead := none

structure Fds where
  malloced : Bool
  epfd : Int
  timeout : Int
  maxEvent : Int
  eventCnt : Int
  serverList : List SockId
  clientList : List SockId
  eventQueue : CpQueue SockId
  taskArray : CpArray SockId

structure Sys where
  fds : Fds
  mem : SockId → Sock
  /-- Initialised and not terminated yet. -/
  live : Finset SockId
  kern : Kernel

namespace Sys

variable {β γ : Type}

def load (σ : Sys) (p : SockId) : Except Fault Sock :=
  if p ∈ σ.live then .ok (σ.mem p) else .error .freed

def modify (σ : Sys) (p : SockId) (f : Sock → Sock) : Sys :=
  { σ with mem := Function.update σ.mem p (f (σ.mem p)) }

/-- The memory of a terminated socket is not looked at any more. -/
def free (σ : Sys) (p : SockId) : Sys := { σ with live := σ.live.erase p }

/-- `malloc` returns any address that is not in use: the hinted one if it is
free, else one above all that are. -/
def freshAddr (σ : Sys) (hint : Nat) : SockId :=
  if hint ∉ σ.live then hint else σ.live.sup id + 1 + hint

/-- The list behind a list head; the third kind stands in a listen socket. -/
def registry (σ : Sys) : ListHead → Except Fault (List SockId)
  | .client => .ok σ.fds.clientList
  | .server => .ok σ.fds.serverList
  | .accept serv => do
      let s ← σ.load serv
      match s.acceptList with
      | none => .error .null
      | some list => .ok list

def setRegistry (σ : Sys) (head : ListHead) (list : List SockId) : Sys :=
  match head with
  | .client => { σ with fds := { σ.fds with clientList := list } }
  | .server => { σ with fds := { σ.fds with serverList := list } }
  | .accept serv => σ.modify serv fun s => { s with acceptList := some list }

def view (σ : Sys) (g : Fds → γ) (field : Sock → β) : γ × Finset SockId × (SockId → β) :=
  (g σ.fds, σ.live, fun p => field (σ.mem p))

theorem view_eq_iff {σ τ : Sys} {g : Fds → γ} {field : Sock → β} :
    τ.view g field = σ.view g field ↔
      g τ.fds = g σ.fds ∧ τ.live = σ.live ∧ ∀ p, field (τ.mem p) = field (σ.mem p) := by
  simp only [view, Prod.mk.injEq, funext_iff]

theorem live_of_view {σ τ : Sys} {g : Fds → γ} {field : Sock → β}
    (h : τ.view g field = σ.view g field) : τ.live = σ.live :=
  (view_eq_iff.mp h).2.1

@[simp] theorem load_of_mem {σ : Sys} {p : SockId} (h : p ∈ σ.live) : σ.load p = .ok (σ.mem p) :=
  if_pos h

theorem load_eq_ok_iff {σ : Sys} {p : SockId} {s : Sock} :
    σ.load p = .ok s ↔ p ∈ σ.live ∧ σ.mem p = s := by
  unfold load
  split <;> simp_all

@[simp] theorem modify_same (σ : Sys) (p : SockId) (f : Sock → Sock) :
    (σ.modify p f).mem p = f (σ.mem p) := Function.update_self ..

theorem modify_ne (σ : Sys) {p q : SockId} (f : Sock → Sock) (h : q ≠ p) :
    (σ.modify p f).mem q = σ.mem q := Function.update_of_ne h ..

@[simp] theorem modify_fds (σ : Sys) (p : SockId) (f : Sock → Sock) :
    (σ.modify p f).fds = σ.fds := rfl

@[simp] theorem modify_live (σ : Sys) (p : SockId) (f : Sock → Sock) :
    (σ.modify p f).live = σ.live := rfl

@[simp] theorem modify_kern (σ : Sys) (p : SockId) (f : Sock → Sock) :
    (σ.modify p f).kern = σ.kern := rfl

theorem modify_field (σ : Sys) (p : SockId) (f : Sock → Sock) (field : Sock → β)
    (h : field (f (σ.mem p)) = field (σ.mem p)) (q : SockId) :
    field ((σ.modify p f).mem q) = field (σ.mem q) := by
  by_cases hq : q = p
  · rw [hq, modify_same, h]
  · rw [modify_ne σ f hq]

theorem modify_view (σ : Sys) (p : SockId) (f : Sock → Sock) (g : Fds → γ) (field : Sock → β)
    (h : field (f (σ.mem p)) = field (σ.mem p)) :
    (σ.modify p f).view g field = σ.view g field :=
  view_eq_iff.mpr ⟨rfl, rfl, σ.modify_field p f field h⟩

theorem modify_modify (σ : Sys) (p : SockId) (f f' : Sock → Sock) :
    (σ.modify p f).modify p f' = σ.modify p fun s => f' (f s) := by
  simp only [modify, Function.update_self, Function.update_idem]

theorem modify_eq_self {σ : Sys} {p : SockId} {f : Sock → Sock} (h : f (σ.mem p) = σ.mem p) :
    σ.modify p f = σ := by
  simp only [modify, h, Function.update_eq_self]

@[simp] theorem free_fds (σ : Sys) (p : SockId) : (σ.free p).fds = σ.fds := rfl

@[simp] theorem free_mem (σ : Sys) (p : SockId) : (σ.free p).mem = σ.mem := rfl

@[simp] theorem free_kern (σ : Sys) (p : SockId) : (σ.free p).kern = σ.kern := rfl

@[simp] theorem free_live (σ : Sys) (p : SockId) : (σ.free p).live = σ.live.erase p := rfl

@[simp] theorem setRegistry_live (σ : Sys) (head : ListHead) (list : List SockId) :
    (σ.setRegistry head list).live = σ.live := by
  cases head <;> rfl

@[simp] theorem setRegistry_kern (σ : Sys) (head : ListHead) (list : List SockId) :
    (σ.setRegistry head list).kern = σ.kern := by
  cases head <;> rfl

theorem setRegistry_field (σ : Sys) (head : ListHead) (list : List SockId) (field : Sock → β)
    (h : ∀ s acceptList, field { s with acceptList } = field s) (q : SockId) :
    field ((σ.setRegistry head list).mem q) = field (σ.mem q) := by
  cases head with
  | client => rfl
  | server => rfl
  | accept serv =>
      exact σ.modify_field serv (fun s => { s with acceptList := some list }) field (h _ _) q

theorem setRegistry_view (σ : Sys) (head : ListHead) (list : List SockId) (g : Fds → γ)
    (field : Sock → β) (hg : ∀ fds clientList serverList, g { fds with clientList, serverList } = g fds)
    (hfield : ∀ s acceptList, field { s with acceptList } = field s) :
    (σ.setRegistry head list).view g field = σ.view g field := by
  refine view_eq_iff.mpr ⟨?_, σ.setRegistry_live head list, σ.setRegistry_field head list field hfield⟩
  cases head with
  | client => exact hg σ.fds list σ.fds.serverList
  | server => exact hg σ.fds σ.fds.clientList list
  | accept serv => rfl

theorem registry_accept_ok_iff {σ : Sys} {serv : SockId} {list : List SockId} :
    σ.registry (.accept serv) = .ok list ↔
      serv ∈ σ.live ∧ (σ.mem serv).acceptList = some list := by
  by_cases h : serv ∈ σ.live
  · simp only [registry, load_of_mem h, h, true_and, bind, Except.bind]
    split <;> simp_all
  · simp [registry, load, h, bind, Except.bind]

theorem freshAddr_not_mem (σ : Sys) (hint : Nat) : σ.freshAddr hint ∉ σ.live := by
  unfold freshAddr
  split
  · assumption
  · intro hmem
    have hle : σ.live.sup id + 1 + hint ≤ σ.live.sup id := Finset.le_sup (f := id) hmem
    exact absurd hle (Nat.not_le.mpr (Nat.lt_of_lt_of_le (Nat.lt_succ_self _) (Nat.le_add_right _ _)))

end Sys

/-- Results of the system calls in `cp_fds_init`; allocations other than that of
the context itself are taken to succeed. -/
structure InitOs where
  context : Bool
  setrlimit : Bool
  epollCreate : Option Nat

def cpDefMaxEvents : Int := 1024

/-- `epoll_create` refuses a size that is not positive. -/
def cpFdsInit (kern : Kernel) (malloced : Bool) (maxevents timeout : Int) (os : InitOs) :
    Option (Fds × Kernel) :=
  if malloced && !os.context then none
  else
    let maxevents := if maxevents < cpDefMaxEvents then maxevents else cpDefMaxEvents
    if !os.setrlimit || maxevents ≤ 0 then none
    else match os.epollCreate with
      | none => none
      | some hint => some (
          { malloced
            epfd := kern.freshFd hint
            timeout := if timeout < 0 then -1 else timeout
            maxEvent := maxevents
            eventCnt := 0
            serverList := []
            clientList := []
            eventQueue := cpQueueInit maxevents
            taskArray := cpArrayInit maxevents },
          kern.openFd hint)

theorem cpFdsInit_spec {kern kern' : Kernel} {malloced : Bool} {maxevents timeout : Int}
    {os : InitOs} {fds : Fds} (h : cpFdsInit kern malloced maxevents timeout os = some (fds, kern')) :
    0 < fds.maxEvent ∧ fds.eventCnt = 0 ∧ fds.serverList = [] ∧ fds.clientList = [] ∧
      fds.eventQueue = cpQueueInit fds.maxEvent ∧ fds.taskArray = cpArrayInit fds.maxEvent ∧
      ∃ hint, kern' = kern.openFd hint := by
  unfold cpFdsInit at h
  generalize (if maxevents < cpDefMaxEvents then maxevents else cpDefMaxEvents) = size at h
  split at h
  · contradiction
  · simp only at h
    split at h
    · contradiction
    · rename_i hsize
      split at h
      · contradiction
      · rename_i hint _
        cases h
        simp only [Bool.or_eq_true, Bool.not_eq_eq_eq_not, Bool.not_true, decide_eq_true_eq,
          not_or, not_le] at hsize
        exact ⟨hsize.2, rfl, rfl, rfl, rfl, rfl, hint, rfl⟩

end Fl2440.CpLibrary
