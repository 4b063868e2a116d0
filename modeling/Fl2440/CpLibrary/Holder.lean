import Fl2440.CpLibrary.Descriptors

/-! The calls of `cp_sock.c` again, for one socket and its descriptors: which numbers it
got from the system and has not closed, and whether it ever closed another. -/
namespace Fl2440.CpLibrary

open Fl2440.Lib

/-- `owned` is what was obtained for the socket and not closed yet; `stray` is set by a
`close` of any other number than -1. -/
structure Holder where
  kern : Kernel
  fd : Int
  status : SockStat
  owned : Finset Int
  stray : Bool
  terminated : Bool

namespace Holder

def openFd (d : Holder) (hint : Nat) : Holder :=
  { d with
    kern := d.kern.openFd hint
    owned := insert (d.kern.freshFd hint) d.owned }

def closeFd (d : Holder) (fd : Int) : Holder :=
  { d with
    kern := d.kern.close fd
    owned := d.owned.erase fd
    stray := d.stray || (fd ≠ -1 && fd ∉ d.owned) }

def close (d : Holder) (closed : Bool) : Holder :=
  if 0 < d.fd then
    if closed && d.fd ∈ d.kern.opened then { d.closeFd d.fd with fd := -1 } else d.closeFd d.fd
  else { d with fd := -1 }

def term (d : Holder) : Holder := { d.close true with terminated := true }

def bindAddrs (d : Holder) (rv fd : Int) : List BindAddr → Int × Int × Bool × Holder
  | [] => (rv, fd, false, d)
  | .refused :: rest => bindAddrs d (-3) (-1) rest
  | .socket hint true :: _ => (0, d.kern.freshFd hint, true, d.openFd hint)
  | .socket hint false :: rest =>
      bindAddrs ((d.openFd hint).closeFd (d.kern.freshFd hint)) (-4) (d.kern.freshFd hint) rest

def listenCleanup (d : Holder) (rv : Int) : Holder :=
  if rv ≠ 0 then
    if 0 < d.fd then d.closeFd d.fd else d
  else { d with status := .already }

def listen (d : Holder) (lport backlog : Int) (os : ListenOs) : Holder :=
  if lport ≤ 0 || backlog ≤ 0 then d.listenCleanup (-1)
  else
    let d := d.close os.closed
    match os.addrs with
    | none => d.listenCleanup (-2)
    | some addrs =>
        let (rv, fd, bound, d) := d.bindAddrs 0 (-1) addrs
        if !bound then { d.closeFd fd with fd := -1 }.listenCleanup rv
        else
          let d := { d with fd }
          if !os.listen then d.listenCleanup (-6) else d.listenCleanup rv

/-- As the socket that gets the connection; `listens` is whether `serv_sock` has a descriptor. -/
def accept (d : Holder) (listens : Bool) (accept : Option Nat) : Holder :=
  if !listens then d.closeFd (-1)
  else
    match accept with
    | none => d.closeFd (-1)
    | some hint => { d.openFd hint with
        fd := d.kern.freshFd hint
        status := .already }

inductive DialLoop where
  | exhausted (fd : Int) (d : Holder)
  | connected (fd : Int) (d : Holder)
  | connecting (fd : Int) (d : Holder)
  | failed (d : Holder)

def connectAddrs (lport : Int) (d : Holder) (fd : Int) : List ConnectAddr → DialLoop
  | [] => .exhausted fd d
  | .refused :: rest => connectAddrs lport d (-1) rest
  | .socket hint bind connect :: rest =>
      let fd := d.kern.freshFd hint
      if 0 < lport && !bind then connectAddrs lport ((d.openFd hint).closeFd fd) fd rest
      else
        match connect with
        | .done => .connected fd (d.openFd hint)
        | .inProgress => .connecting fd (d.openFd hint)
        | .failed => .failed ((d.openFd hint).closeFd fd)

def connectFailed (d : Holder) : Holder := if 0 ≤ d.fd then d.closeFd d.fd else d

def connectConnected (d : Holder) : Holder := if d.status = .already then d else d.connectFailed

def connectConnecting (d : Holder) (again : Connect) : Holder :=
  if d.status = .connecting then
    match again with
    | .done => { d with status := .already }.connectConnected
    | .inProgress => d
    | .failed => { d with status := .disconnect }.connectConnected
  else d.connectConnected

def connect (d : Holder) (raddr : Bool) (rport lport : Int) (os : ConnectOs) : Holder :=
  if !raddr || rport ≤ 0 then d.connectFailed
  else if d.status = .already then d
  else if d.status = .connecting then d.connectConnecting os.again
  else
    match os.addrs with
    | none => d.connectFailed
    | some addrs =>
        let d := { d.close os.closed with fd := -1 }
        match connectAddrs lport d (-1) addrs with
        | .exhausted fd d => (d.closeFd fd).connectFailed
        | .failed d => d.connectFailed
        | .connected fd d => { d with
            fd
            status := .connecting }.connectConnected
        | .connecting fd d => { d with
            fd
            status := .connecting }.connectConnecting os.again

/-- The socket at this address, whatever its holder has done so far. -/
def Holds (d : Holder) (σ : Sys) (p : SockId) : Prop :=
  p ∈ σ.live ∧ (σ.mem p).flag.init = true ∧ d.kern = σ.kern ∧ d.fd = (σ.mem p).fd ∧ d.status = (σ.mem p).status

variable {d : Holder} {σ σ' : Sys} {p : SockId} {rv : Int}

theorem Holds.returned {result : Int × Sys} (h : d.Holds result.2 p)
    (hcall : (.ok result : Except Fault (Int × Sys)) = .ok (rv, σ')) : d.Holds σ' p := by
  cases hcall
  exact h

theorem Holds.load (h : d.Holds σ p) : σ.load p = .ok (σ.mem p) := Sys.load_of_mem h.1

theorem Holds.close {closed : Bool} (h : d.Holds σ p) (hcall : cpSockClose σ (some p) closed = .ok (rv, σ')) :
    (d.close closed).Holds σ' p := by
  obtain ⟨hlive, hinit, hkern, hfd, hstatus⟩ := h
  simp only [cpSockClose, Sys.load_of_mem hlive, ok_bind] at hcall
  unfold Holder.close
  rw [hkern, hfd]
  split
  next hpos =>
    rw [if_pos hpos] at hcall
    split at hcall
    next hopen =>
      cases hcall
      rw [if_pos hopen]
      simp [Holds, hlive, hinit, hkern, hstatus, Holder.closeFd]
    next hopen =>
      cases hcall
      rw [if_neg hopen]
      simp [Holds, hlive, hinit, hkern, hstatus, Holder.closeFd, hfd]
  next hpos =>
    rw [if_neg hpos] at hcall
    cases hcall
    simp [Holds, hlive, hinit, hstatus]

theorem Holds.listenCleanup (h : d.Holds σ p) (rv : Int) (now : ULong) :
    (d.listenCleanup rv).Holds (CpLibrary.listenCleanup σ p rv now).2 p := by
  obtain ⟨hlive, hinit, hkern, hfd, hstatus⟩ := h
  unfold Holder.listenCleanup CpLibrary.listenCleanup
  rw [hfd]
  split
  · split
    · exact ⟨hlive, hinit, congrArg (Kernel.close · (σ.mem p).fd) hkern, hfd, hstatus⟩
    · exact ⟨hlive, hinit, hkern, hfd, hstatus⟩
  · simp [Holds, hlive, hinit, hkern]

theorem bindAddrs_refines :
    ∀ (addrs : List BindAddr) (d : Holder) (rv fd : Int), ∃ rv' fd' bound d',
      d.bindAddrs rv fd addrs = (rv', fd', bound, d') ∧
        CpLibrary.bindAddrs d.kern rv fd addrs = (rv', fd', bound, d'.kern) ∧
        d'.fd = d.fd ∧ d'.status = d.status
  | [], d, rv, fd => ⟨rv, fd, false, d, rfl, rfl, rfl, rfl⟩
  | .refused :: rest, d, _, _ => bindAddrs_refines rest d (-3) (-1)
  | .socket hint true :: _, d, _, _ =>
      ⟨0, d.kern.freshFd hint, true, d.openFd hint, rfl, rfl, rfl, rfl⟩
  | .socket hint false :: rest, d, _, _ =>
      bindAddrs_refines rest ((d.openFd hint).closeFd (d.kern.freshFd hint)) (-4) (d.kern.freshFd hint)

theorem Holds.withFd (h : d.Holds σ p) (fd : Int) :
    { d with fd }.Holds (σ.modify p fun s => { s with fd }) p := by
  obtain ⟨hlive, hinit, hkern, -, hstatus⟩ := h
  simp [Holds, hlive, hinit, hkern, hstatus]

theorem Holds.withMode (h : d.Holds σ p) (mode : SockMode) :
    d.Holds (σ.modify p fun s => { s with mode }) p := by
  obtain ⟨hlive, hinit, hkern, hfd, hstatus⟩ := h
  simp [Holds, hlive, hinit, hkern, hfd, hstatus]

theorem Holds.withKern {d₁ : Holder} (h : d.Holds σ p) (hfd : d₁.fd = d.fd) (hstatus : d₁.status = d.status) :
    d₁.Holds { σ with kern := d₁.kern } p :=
  ⟨h.1, h.2.1, rfl, hfd.trans h.2.2.2.1, hstatus.trans h.2.2.2.2⟩

theorem Holds.listen {lport backlog : Int} {os : ListenOs} (h : d.Holds σ p)
    (hcall : cpSockListen σ (some p) lport backlog os = .ok (rv, σ')) :
    (d.listen lport backlog os).Holds σ' p := by
  simp only [cpSockListen, h.load, ok_bind, h.2.1, Bool.not_true, Bool.false_or] at hcall
  unfold Holder.listen
  split
  next hargs =>
    rw [if_pos hargs] at hcall
    cases hcall
    exact h.listenCleanup (-1) os.now
  next hargs =>
    rw [if_neg hargs] at hcall
    obtain ⟨⟨rv₁, σ₁⟩, hclose, hcall⟩ := bind_eq_ok_iff.mp hcall
    have hclosed := h.close hclose
    cases haddrs : os.addrs with
    | none =>
        rw [haddrs] at hcall
        cases hcall
        exact hclosed.listenCleanup (-2) os.now
    | some addrs =>
        obtain ⟨rv₂, fd, bound, d₂, heq, hkern, hfd, hstatus⟩ :=
          bindAddrs_refines addrs (d.close os.closed) 0 (-1)
        rw [hclosed.2.2.1] at hkern
        simp only [haddrs, hkern] at hcall
        simp only [heq]
        have hlooped : d₂.Holds { σ₁ with kern := d₂.kern } p := hclosed.withKern hfd hstatus
        cases bound with
        | false =>
            have hgiven : (d₂.closeFd fd).Holds { σ₁ with kern := d₂.kern.close fd } p :=
              hclosed.withKern hfd hstatus
            exact ((hgiven.withFd (-1)).listenCleanup rv₂ os.now).returned hcall
        | true =>
            have hset := hlooped.withFd fd
            cases hlisten : os.listen with
            | false =>
                rw [hlisten] at hcall
                exact (hset.listenCleanup (-6) os.now).returned hcall
            | true =>
                rw [hlisten] at hcall
                exact ((hset.withMode .listen).listenCleanup rv₂ os.now).returned hcall

theorem Holds.accept {serv : SockId} {os : AcceptOs} (h : d.Holds σ p)
    (hcall : cpSockAccept σ (some serv) (some p) os = .ok (rv, σ')) :
    (d.accept (decide (0 ≤ (σ.mem serv).fd)) os.accept).Holds σ' p := by
  obtain ⟨s, hload, hcall⟩ := bind_eq_ok_iff.mp hcall
  obtain ⟨-, rfl⟩ := load_eq_ok hload
  dsimp only at hcall
  unfold Holder.accept
  have hnothing : (d.closeFd (-1)).Holds { σ with kern := σ.kern.close (-1) } p :=
    ⟨h.1, h.2.1, congrArg (Kernel.close · (-1)) h.2.2.1, h.2.2.2⟩
  split at hcall
  next hneg =>
    cases hcall
    rw [if_pos (by simpa using hneg)]
    exact hnothing
  next hnonneg =>
    rw [if_neg (by simpa using hnonneg)]
    cases haccept : os.accept with
    | none =>
        rw [haccept] at hcall
        cases hcall
        exact hnothing
    | some hint =>
        rw [haccept] at hcall
        dsimp only at hcall
        rw [h.load, ok_bind] at hcall
        cases hcall
        simp [Holds, h.1, h.2.1, h.2.2.1, Holder.openFd]

theorem Holds.withStatus (h : d.Holds σ p) (status : SockStat) :
    { d with status }.Holds (σ.modify p fun s => { s with status }) p := by
  obtain ⟨hlive, hinit, hkern, hfd, -⟩ := h
  simp [Holds, hlive, hinit, hkern, hfd]

theorem Holds.connectFailed (h : d.Holds σ p) (rv : Int) :
    d.connectFailed.Holds (CpLibrary.connectFailed σ p rv).2 p := by
  obtain ⟨hlive, hinit, hkern, hfd, hstatus⟩ := h
  unfold Holder.connectFailed CpLibrary.connectFailed
  rw [hfd]
  split
  · exact ⟨hlive, hinit, congrArg (Kernel.close · (σ.mem p).fd) hkern, hfd, hstatus⟩
  · exact ⟨hlive, hinit, hkern, hfd, hstatus⟩

theorem Holds.connectConnected (h : d.Holds σ p) (rv : Int) (now : ULong) :
    d.connectConnected.Holds (CpLibrary.connectConnected σ p rv now).2 p := by
  unfold Holder.connectConnected CpLibrary.connectConnected
  rw [h.2.2.2.2]
  split
  · obtain ⟨hlive, hinit, hkern, hfd, hstatus⟩ := h
    simp [Holds, hlive, hinit, hkern, hfd, hstatus]
  · exact h.connectFailed rv

theorem Holds.connectConnecting (h : d.Holds σ p) (rv : Int) (again : Connect) (now : ULong) :
    (d.connectConnecting again).Holds (CpLibrary.connectConnecting σ p rv again now).2 p := by
  unfold Holder.connectConnecting CpLibrary.connectConnecting
  rw [h.2.2.2.2]
  split
  · cases again with
    | done => exact (h.withStatus .already).connectConnected 0 now
    | inProgress => exact h
    | failed => exact (h.withStatus .disconnect).connectConnected (-7) now
  · exact h.connectConnected rv now

inductive SameEnd (d : Holder) : ConnectLoop → DialLoop → Prop
  | exhausted (rv : Int) (fd : Int) {e : Holder} (hfd : e.fd = d.fd) (hstatus : e.status = d.status) :
      SameEnd d (.exhausted rv fd e.kern) (.exhausted fd e)
  | connected (fd : Int) {e : Holder} (hfd : e.fd = d.fd) (hstatus : e.status = d.status) :
      SameEnd d (.connected fd e.kern) (.connected fd e)
  | connecting (fd : Int) {e : Holder} (hfd : e.fd = d.fd) (hstatus : e.status = d.status) :
      SameEnd d (.connecting fd e.kern) (.connecting fd e)
  | failed {e : Holder} (hfd : e.fd = d.fd) (hstatus : e.status = d.status) :
      SameEnd d (.failed e.kern) (.failed e)

theorem connectAddrs_refines (lport : Int) (d₀ : Holder) :
    ∀ (addrs : List ConnectAddr) (d : Holder) (rv fd : Int), d.fd = d₀.fd → d.status = d₀.status →
      SameEnd d₀ (CpLibrary.connectAddrs lport d.kern rv fd addrs) (connectAddrs lport d fd addrs)
  | [], _, rv, fd, hfd, hstatus => .exhausted rv fd hfd hstatus
  | .refused :: rest, d, _, _, hfd, hstatus => connectAddrs_refines lport d₀ rest d (-3) (-1) hfd hstatus
  | .socket hint bind connect :: rest, d, _, _, hfd, hstatus => by
      simp only [CpLibrary.connectAddrs, connectAddrs]
      split
      · exact connectAddrs_refines lport d₀ rest ((d.openFd hint).closeFd (d.kern.freshFd hint)) (-4)
          (d.kern.freshFd hint) hfd hstatus
      · cases connect with
        | done => exact .connected (e := d.openFd hint) _ hfd hstatus
        | inProgress => exact .connecting (e := d.openFd hint) _ hfd hstatus
        | failed =>
            exact .failed (e := (d.openFd hint).closeFd (d.kern.freshFd hint)) hfd hstatus

theorem Holds.withDialed (h : d.Holds σ p) (fd : Int) :
    { d with
      fd
      status := .connecting }.Holds (σ.modify p fun s => { s with
        fd
        status := .connecting }) p := by
  obtain ⟨hlive, hinit, hkern, -, -⟩ := h
  simp [Holds, hlive, hinit, hkern]

theorem Holds.connect {raddr : Bool} {rport lport : Int} {os : ConnectOs} (h : d.Holds σ p)
    (hcall : cpSockConnect σ (some p) raddr rport lport os = .ok (rv, σ')) :
    (d.connect raddr rport lport os).Holds σ' p := by
  simp only [cpSockConnect, h.load, ok_bind, h.2.1, Bool.not_true, Bool.false_or] at hcall
  unfold Holder.connect
  rw [← h.2.2.2.2] at hcall
  split
  next hargs =>
    rw [if_pos hargs] at hcall
    exact (h.connectFailed (-1)).returned hcall
  next hargs =>
    rw [if_neg hargs] at hcall
    split
    next hready =>
      rw [if_pos hready] at hcall
      cases hcall
      exact h
    next hnot =>
      rw [if_neg hnot] at hcall
      split
      next hconnecting =>
        rw [if_pos hconnecting] at hcall
        exact (h.connectConnecting 0 os.again os.now).returned hcall
      next hidle =>
        rw [if_neg hidle] at hcall
        cases haddrs : os.addrs with
        | none =>
            rw [haddrs] at hcall
            exact (h.connectFailed (-2)).returned hcall
        | some addrs =>
            rw [haddrs] at hcall
            obtain ⟨⟨rv₁, σ₁⟩, hclose, hcall⟩ := bind_eq_ok_iff.mp hcall
            have hnone := (h.close hclose).withFd (-1)
            have hends := connectAddrs_refines lport { d.close os.closed with fd := -1 } addrs
              { d.close os.closed with fd := -1 } 0 (-1) rfl rfl
            rw [hnone.2.2.1] at hends
            simp only at hcall ⊢
            generalize CpLibrary.connectAddrs lport
              (σ₁.modify p fun s => { s with fd := -1 }).kern 0 (-1) addrs = loop at hends hcall
            generalize connectAddrs lport { d.close os.closed with fd := -1 } (-1) addrs = dialed at hends ⊢
            cases hends with
            | @exhausted rv₂ fd d' hfd hstatus =>
                have hgiven : (d'.closeFd fd).Holds { (σ₁.modify p fun s => { s with fd := -1 }) with
                    kern := d'.kern.close fd } p := hnone.withKern hfd hstatus
                exact (hgiven.connectFailed rv₂).returned hcall
            | failed hfd hstatus => exact ((hnone.withKern hfd hstatus).connectFailed (-5)).returned hcall
            | connected fd hfd hstatus =>
                exact (((hnone.withKern hfd hstatus).withDialed fd).connectConnected 0 os.now).returned hcall
            | connecting fd hfd hstatus =>
                exact (((hnone.withKern hfd hstatus).withDialed fd).connectConnecting 0 os.again os.now).returned
                  hcall

end Holder

end Fl2440.CpLibrary
