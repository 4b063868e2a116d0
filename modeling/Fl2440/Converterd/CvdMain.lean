import Fl2440.Lib.Run
import Fl2440.Lib.Memory
import Fl2440.Gprs.ComPort
import Fl2440.CpLibrary.CpSock

/-! `cvd_main.c` and the `cp_socket.c` beside it: the loop that ties a serial port to a
connection. What the system calls come to is an argument of each function. -/
namespace Fl2440.Converterd

open Fl2440.Lib Fl2440.Gprs
open Fl2440.CpLibrary (Kernel Connect)

inductive SockStat where
  | init
  | connecting
  | connected
  | disconnect
deriving DecidableEq

structure CpSock where
  fd : Int
  status : SockStat
deriving DecidableEq

/-- The two sides and the descriptors behind them; `ours` is what the loop has opened and
not closed. -/
structure Link where
  kern : Kernel
  ours : Finset Int
  comport : ComPort
  sock : CpSock

namespace Link

def openFd (s : Link) (hint : Nat) : Link :=
  { s with
    kern := s.kern.openFd hint
    ours := insert (s.kern.freshFd hint) s.ours }

def closeFd (s : Link) (fd : Int) : Link :=
  { s with
    kern := s.kern.close fd
    ours := s.ours.erase fd }

end Link

/-- The calls of `epoll_add_comport`; `fd` is missing where `open` fails. -/
structure ComportCalls where
  fd : Option Nat
  fcntl : Bool
  tcflush : Bool
  tcgetattr : Bool
  tcsetattr : Bool
  add : Bool

/-- `close` in `comport_close`, which takes 0 for a port that was never open. -/
def closeComport (s : Link) : Link :=
  if s.comport.fd ≠ 0 then s.closeFd s.comport.fd else s

def openComport (s : Link) : Option Nat → Link × Int
  | none => (s, -1)
  | some hint => (s.openFd hint, s.kern.freshFd hint)

def addComport (s : Link) (opened : ComPort × Int) (add : Bool) : Link :=
  let (comport, retval) := opened
  let failed := { s with comport := { comport with fd := -1 } }
  if retval < 0 then failed
  else
    -- `ev.data.fd` is the descriptor itself, so the set holds no data for it
    match s.kern.ctlAdd comport.fd none add with
    | .ok kern => { s with
        kern
        comport }
    | _ => failed

def ComportCalls.openCalls (calls : ComportCalls) (fd : Int) : OpenCalls :=
  ⟨fd, calls.fcntl, calls.tcflush, calls.tcgetattr, calls.tcsetattr⟩

def epollAddComport (s : Link) (calls : ComportCalls) : Link :=
  let (s, fd) := openComport (closeComport s) calls.fd
  addComport s (comportOpen s.comport (calls.openCalls fd)) calls.add

inductive ConnectAddr where
  | refused
  | socket (hint : Nat) (connect : Connect)

/-- The calls of `epoll_add_socket`; `again` is the `connect` at the label `connecting`. -/
structure ConnectCalls where
  addrs : Option (List ConnectAddr)
  again : Connect
  add : Bool

def connectFailed (s : Link) : Link := { s with sock := ⟨-1, .disconnect⟩ }

/-- The label `connecting`; a refusal keeps the descriptor. -/
def connecting (s : Link) : Connect → Link
  | .done => { s with sock := ⟨s.sock.fd, .connected⟩ }
  | .inProgress => s
  | .failed => { s with sock := ⟨s.sock.fd, .disconnect⟩ }

def connectAddrs (s : Link) (again : Connect) : List ConnectAddr → Link
  | [] => connectFailed s
  | .refused :: rest => connectAddrs s again rest
  | .socket hint .done :: _ => { s.openFd hint with sock := ⟨s.kern.freshFd hint, .connected⟩ }
  | .socket hint .inProgress :: _ =>
      connecting { s.openFd hint with sock := ⟨s.kern.freshFd hint, .connecting⟩ } again
  | .socket hint .failed :: _ => connectFailed ((s.openFd hint).closeFd (s.kern.freshFd hint))

def cpSockConnect (s : Link) (calls : ConnectCalls) : Link :=
  match s.sock.status with
  | .connected => s
  | .connecting => connecting s calls.again
  | .init | .disconnect =>
      match calls.addrs with
      | none => connectFailed s
      | some addrs => connectAddrs s calls.again addrs

def cpSockClose (s : Link) : Link := { s.closeFd s.sock.fd with sock := ⟨0, .init⟩ }

def addSocket (s : Link) (add : Bool) : Link :=
  match s.kern.ctlAdd s.sock.fd none add with
  | .ok kern => { s with kern }
  | _ => s

def epollAddSocket (s : Link) (calls : ConnectCalls) : Link :=
  if s.sock.status = .connected then s
  else
    let s := cpSockConnect s calls
    if s.sock.status ≠ .connected then s else addSocket s calls.add

/-- The head of the main loop, up to `epoll_wait`. -/
def prepare (s : Link) (comport : ComportCalls) (sock : ConnectCalls) : Link :=
  let s := if ¬ s.comport.is_connted then epollAddComport s comport else s
  if s.sock.status ≠ .connected then epollAddSocket s sock else s

inductive Read where
  | data (bytes : List Byte)
  | failed

/-- An event of `epoll_wait`. `select` is whether it finds the port readable, `del` is how
`epoll_del_fd` ends; a `write` that fails is missing. -/
structure Event where
  fd : Int
  select : Bool
  read : Read
  write : Option Nat
  del : Bool

inductive Way where
  | toSock
  | toComport
deriving DecidableEq

structure Moved where
  way : Way
  nbytes : Nat
  written : Nat

def bufSize : Nat := 4096

structure Cvd extends Link where
  buf : List Byte

def readBuf (buf : List Byte) : Read → List Byte × Int
  | .data bytes =>
      let got := bytes.take bufSize
      (got ++ buf.drop got.length, got.length)
  | .failed => (buf, -1)

def Read.Ends : Read → Prop
  | .data bytes => bytes = []
  | .failed => True

instance : DecidablePred Read.Ends
  | .data bytes => inferInstanceAs (Decidable (bytes = []))
  | .failed => .isTrue trivial

theorem readBuf_ends (buf : List Byte) (read : Read) : (readBuf buf read).2 ≤ 0 ↔ read.Ends := by
  cases read with
  | failed => exact iff_of_true (show (-1 : Int) ≤ 0 by decide) trivial
  | data bytes =>
      simp only [readBuf, Read.Ends, List.length_take, bufSize]
      rw [← List.length_eq_zero_iff]
      omega

def comportRecv (s : Cvd) (select : Bool) (read : Read) : List Byte × Int :=
  if ¬ s.comport.is_connted then (s.buf, -2)
  else if !select then (s.buf, 0)
  else
    let (buf, nbytes) := readBuf s.buf read
    (buf, if nbytes < 0 then -3 else nbytes)

/-- `write` takes at most what it is given; its result is not looked at. -/
def written (write : Option Nat) (nbytes : Nat) : Nat := min (write.getD 0) nbytes

def epollDelFd (s : Link) (fd : Int) (del : Bool) : Link :=
  { s with kern := if del then s.kern.ctlDel fd else s.kern }

def handleEvent (s : Cvd) (e : Event) : Cvd × Option Moved :=
  if e.fd = s.comport.fd then
    let (buf, nbytes) := comportRecv s e.select e.read
    let s := { s with buf }
    if 0 < nbytes ∧ s.sock.status = .connected then
      (s, some ⟨.toSock, nbytes.toNat, written e.write nbytes.toNat⟩)
    else (s, none)
  else if e.fd = s.sock.fd then
    let (buf, nbytes) := readBuf s.buf e.read
    let s := { s with buf }
    if nbytes ≤ 0 then ({ s with toLink := cpSockClose (epollDelFd s.toLink e.fd e.del) }, none)
    else if s.comport.is_connted then
      (s, some ⟨.toComport, nbytes.toNat, written e.write nbytes.toNat⟩)
    else (s, none)
  else (s, none)

theorem close_ctlDel (kern : Kernel) (fd : Int) : (kern.ctlDel fd).close fd = kern.close fd := by
  simp only [Kernel.close, Kernel.ctlDel, Function.update_idem]

theorem cpSockClose_epollDelFd (s : Link) (del : Bool) :
    cpSockClose (epollDelFd s s.sock.fd del) = cpSockClose s := by
  cases del with
  | false => rfl
  | true => simp only [cpSockClose, epollDelFd, Link.closeFd, if_pos, close_ctlDel]

theorem handleEvent_port (s : Cvd) {e : Event} (h : e.fd = s.comport.fd) : (handleEvent s e).1.toLink = s.toLink := by
  unfold handleEvent
  rw [if_pos h]
  dsimp only
  split <;> rfl

theorem handleEvent_sock (s : Cvd) {e : Event} (hport : e.fd ≠ s.comport.fd) (hsock : e.fd = s.sock.fd) :
    (handleEvent s e).1.toLink = if e.read.Ends then cpSockClose s.toLink else s.toLink := by
  unfold handleEvent
  rw [if_neg hport, if_pos hsock]
  dsimp only
  by_cases hends : e.read.Ends
  · rw [if_pos ((readBuf_ends s.buf e.read).mpr hends), if_pos hends, hsock]
    exact cpSockClose_epollDelFd s.toLink e.del
  · rw [if_neg (mt (readBuf_ends s.buf e.read).mp hends), if_neg hends]
    split <;> rfl

theorem handleEvent_other (s : Cvd) {e : Event} (hport : e.fd ≠ s.comport.fd) (hsock : e.fd ≠ s.sock.fd) :
    handleEvent s e = (s, none) := by
  unfold handleEvent
  rw [if_neg hport, if_neg hsock]

/-- One round of the loop, from `epoll_wait` to `epoll_wait`. A wait that fails or times out
gives no events. -/
structure Round where
  events : List Event
  comport : ComportCalls
  sock : ConnectCalls

def maxEpollSize : Nat := 2

inductive NoEvent where
  | noEvent
deriving DecidableEq

def Round.Possible (round : Round) (s : Cvd) : Prop :=
  round.events.length ≤ maxEpollSize ∧ (round.events.map Event.fd).Nodup ∧
    ∀ e ∈ round.events, (s.kern.epoll e.fd).isSome

instance (round : Round) (s : Cvd) : Decidable (round.Possible s) :=
  inferInstanceAs (Decidable (_ ∧ _ ∧ _))

def dispatch (s : Cvd) (events : List Event) : Cvd :=
  events.foldl (fun s e => (handleEvent s e).1) s

def step (s : Cvd) (round : Round) : Except NoEvent Cvd :=
  if round.Possible s then
    let s := dispatch s round.events
    .ok { s with toLink := prepare s.toLink round.comport round.sock }
  else .error .noEvent

def start (opened : Finset Nat) (comport_dev : String) : Cvd where
  kern :=
    { opened := opened.map ⟨Nat.cast, Nat.cast_injective⟩
      epoll := fun _ => none
      nonneg := by simp
      registered := fun _ _ => rfl }
  ours := ∅
  comport := comportInit comport_dev
  sock := ⟨0, .init⟩
  buf := List.replicate bufSize 0

end Fl2440.Converterd
