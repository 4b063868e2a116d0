import Fl2440.CpLibrary.Descriptors

/-! What the values that `cp_sock_connect` and `cp_sock_recv` return say about the socket. -/
namespace Fl2440.CpLibrary

open Fl2440.Lib

inductive ConnectRet where
  | success
  | einprogress
  | ealready
  | eisconn
  | error
deriving DecidableEq, Repr

/-- In the loop over the addresses only EINPROGRESS is looked for. -/
def ConnectRet.first : ConnectRet → Connect
  | .success => .done
  | .einprogress => .inProgress
  | .ealready | .eisconn | .error => .failed

def ConnectRet.again : ConnectRet → Connect
  | .success | .eisconn => .done
  | .ealready | .einprogress => .inProgress
  | .error => .failed

structure DialAddr where
  socket : Option Nat
  bind : Bool
  connect : ConnectRet

structure DialOs where
  closed : Bool
  addrs : Option (List DialAddr)
  again : ConnectRet
  now : ULong

def DialAddr.toConnectAddr (addr : DialAddr) : ConnectAddr :=
  match addr.socket with
  | none => .refused
  | some hint => .socket hint addr.bind addr.connect.first

def DialOs.toConnectOs (os : DialOs) : ConnectOs :=
  ⟨os.closed, os.addrs.map fun addrs => addrs.map DialAddr.toConnectAddr, os.again.again, os.now⟩

/-- The local port is bound only where one is asked for. -/
def DialAddr.usable (lport : Int) (addr : DialAddr) : Bool := addr.socket.isSome && !(0 < lport && !addr.bind)

structure ConnectContract (σ : Sys) (p : SockId) (rv : Int) : Prop where
  returned : rv = 0 →
    (σ.mem p).fd ∈ σ.kern.opened ∧ ((σ.mem p).status = .connecting ∨ (σ.mem p).status = .already)
  failed : rv ≠ 0 → (σ.mem p).fd ∉ σ.kern.opened ∧ (σ.mem p).fd = -1 ∧
    (σ.mem p).status ≠ .connecting ∧ (σ.mem p).status ≠ .already

/-- When the contract is met: on a failure before the loop the descriptor must be gone
already, and `connect()` at the first usable address must not succeed at once, nor be
refused behind EINPROGRESS. -/
def ConnectHonest (σ : Sys) (p : SockId) (raddr : Bool) (rport lport : Int) (os : DialOs) : Prop :=
  let s := σ.mem p
  if !s.flag.init || !raddr || rport ≤ 0 then s.fd = -1 ∧ s.status ≠ .connecting ∧ s.status ≠ .already
  else if s.status = .already then s.fd ∈ σ.kern.opened
  else if s.status = .connecting then
    if os.again = .error then s.fd = -1 else s.fd ∈ σ.kern.opened
  else
    match os.addrs with
    | none => s.fd = -1
    | some addrs =>
        match addrs.find? (DialAddr.usable lport) with
        | none => addrs ≠ []
        | some addr => addr.connect ≠ .success ∧ (addr.connect = .einprogress → os.again ≠ .error)

variable {σ : Sys} {p : SockId} {rv : Int}

theorem connectContract_zero_iff : ConnectContract σ p 0 ↔
    (σ.mem p).fd ∈ σ.kern.opened ∧ ((σ.mem p).status = .connecting ∨ (σ.mem p).status = .already) :=
  ⟨fun h => h.returned rfl, fun h => ⟨fun _ => h, fun hne => absurd rfl hne⟩⟩

theorem connectContract_failed_iff (h : rv ≠ 0) : ConnectContract σ p rv ↔
    (σ.mem p).fd = -1 ∧ (σ.mem p).status ≠ .connecting ∧ (σ.mem p).status ≠ .already := by
  constructor
  · exact fun hcontract => (hcontract.failed h).2
  · intro hgone
    exact ⟨fun hzero => absurd hzero h, fun _ => ⟨σ.kern.not_mem_of_neg (by omega), hgone⟩⟩

@[simp] theorem connectFailed_fst (σ : Sys) (p : SockId) (rv : Int) : (connectFailed σ p rv).1 = rv := rfl

@[simp] theorem connectFailed_mem (σ : Sys) (p : SockId) (rv : Int) :
    (connectFailed σ p rv).2.mem = σ.mem := by
  unfold connectFailed
  dsimp only
  split <;> rfl

theorem connectFailed_closed (σ : Sys) (p : SockId) (rv : Int) :
    (σ.mem p).fd ∉ (connectFailed σ p rv).2.kern.opened := by
  unfold connectFailed
  dsimp only
  split
  · exact Finset.notMem_erase _ _
  · exact σ.kern.not_mem_of_neg (by omega)

theorem connectFailed_contract_iff (h : rv ≠ 0) :
    ConnectContract (connectFailed σ p rv).2 p (connectFailed σ p rv).1 ↔
      (σ.mem p).fd = -1 ∧ (σ.mem p).status ≠ .connecting ∧ (σ.mem p).status ≠ .already := by
  rw [connectFailed_fst, connectContract_failed_iff h, connectFailed_mem]

theorem connectFailed_breaks : ¬ ConnectContract (connectFailed σ p 0).2 p (connectFailed σ p 0).1 := by
  intro h
  have hopened := (h.returned rfl).1
  rw [connectFailed_mem] at hopened
  exact connectFailed_closed σ p 0 hopened

theorem connectConnecting_contract_iff {again : Connect} {now : ULong} (h : (σ.mem p).status = .connecting) :
    ConnectContract (connectConnecting σ p 0 again now).2 p (connectConnecting σ p 0 again now).1 ↔
      if again = .failed then (σ.mem p).fd = -1 else (σ.mem p).fd ∈ σ.kern.opened := by
  unfold connectConnecting
  rw [if_pos h]
  cases again with
  | done => simp [connectConnected, connectContract_zero_iff]
  | inProgress => simp [connectContract_zero_iff, h]
  | failed =>
      have hconnected : connectConnected (σ.modify p fun s => { s with status := .disconnect }) p (-7) now =
          connectFailed (σ.modify p fun s => { s with status := .disconnect }) p (-7) := by
        simp [connectConnected]
      dsimp only
      rw [hconnected, connectFailed_contract_iff (by omega)]
      simp

theorem connectAddrs_unusable {lport : Int} (kern : Kernel) {addrs : List DialAddr} {rv fd : Int}
    (h : addrs.find? (DialAddr.usable lport) = none) :
    ∃ rv' fd', connectAddrs lport kern rv fd (addrs.map DialAddr.toConnectAddr) = .exhausted rv' fd' kern ∧
      (rv' = 0 ↔ rv = 0 ∧ addrs = []) := by
  induction addrs generalizing rv fd with
  | nil => exact ⟨rv, fd, rfl, by simp⟩
  | cons addr rest ih =>
      obtain ⟨hunusable, hrest⟩ : addr.usable lport = false ∧ rest.find? (DialAddr.usable lport) = none := by
        rw [List.find?_cons] at h
        cases hone : addr.usable lport with
        | true => rw [hone] at h; cases h
        | false => rw [hone] at h; exact ⟨rfl, h⟩
      obtain ⟨socket, bind, connect⟩ := addr
      cases socket with
      | none =>
          obtain ⟨rv', fd', heq, hrv⟩ := @ih (-3) (-1) hrest
          exact ⟨rv', fd', heq, by simp [hrv]⟩
      | some hint =>
          have hbind : (0 < lport && !bind) = true := by simpa [DialAddr.usable] using hunusable
          obtain ⟨rv', fd', heq, hrv⟩ := @ih (-4) (kern.freshFd hint) hrest
          refine ⟨rv', fd', ?_, by simp [hrv]⟩
          rw [← heq, List.map_cons]
          simp only [DialAddr.toConnectAddr, connectAddrs, hbind, if_true, Kernel.close_openFd]

theorem connectAddrs_usable {lport : Int} (kern : Kernel) {addrs : List DialAddr} {addr : DialAddr} {rv fd : Int}
    (h : addrs.find? (DialAddr.usable lport) = some addr) :
    ∃ hint, connectAddrs lport kern rv fd (addrs.map DialAddr.toConnectAddr) =
      match addr.connect.first with
      | .done => .connected (kern.freshFd hint) (kern.openFd hint)
      | .inProgress => .connecting (kern.freshFd hint) (kern.openFd hint)
      | .failed => .failed kern := by
  induction addrs generalizing rv fd with
  | nil => cases h
  | cons one rest ih =>
      rw [List.find?_cons] at h
      obtain ⟨socket, bind, connect⟩ := one
      cases socket with
      | none => exact ih h
      | some hint =>
          cases hbind : (0 < lport && !bind) with
          | true =>
              obtain ⟨hint', heq⟩ := @ih (-4) (kern.freshFd hint) (by simpa [DialAddr.usable, hbind] using h)
              refine ⟨hint', ?_⟩
              rw [← heq, List.map_cons]
              simp only [DialAddr.toConnectAddr, connectAddrs, hbind, if_true, Kernel.close_openFd]
          | false =>
              have hfound : addr = ⟨some hint, bind, connect⟩ := by simpa [DialAddr.usable, hbind, eq_comm] using h
              refine ⟨hint, ?_⟩
              rw [hfound, List.map_cons]
              cases connect <;>
                simp only [DialAddr.toConnectAddr, ConnectRet.first, connectAddrs, hbind, Bool.false_eq_true, if_false,
                  Kernel.close_openFd]

def connectDial (σ : Sys) (p : SockId) (lport : Int) (again : Connect) (now : ULong)
    (addrs : List ConnectAddr) : Int × Sys :=
  match connectAddrs lport σ.kern 0 (-1) addrs with
  | .exhausted rv fd kern => connectFailed { σ with kern := kern.close fd } p rv
  | .failed kern => connectFailed { σ with kern } p (-5)
  | .connected fd kern =>
      connectConnected ({ σ with kern }.modify p fun s => { s with fd, status := .connecting }) p 0 now
  | .connecting fd kern =>
      connectConnecting ({ σ with kern }.modify p fun s => { s with fd, status := .connecting }) p 0 again now

theorem connectDial_contract_iff {lport : Int} {now : ULong} {again : ConnectRet} {addrs : List DialAddr}
    (hfd : (σ.mem p).fd = -1) (halready : (σ.mem p).status ≠ .already) (hconnecting : (σ.mem p).status ≠ .connecting) :
    ConnectContract (connectDial σ p lport again.again now (addrs.map DialAddr.toConnectAddr)).2 p
        (connectDial σ p lport again.again now (addrs.map DialAddr.toConnectAddr)).1 ↔
      match addrs.find? (DialAddr.usable lport) with
      | none => addrs ≠ []
      | some addr => addr.connect ≠ .success ∧ (addr.connect = .einprogress → again ≠ .error) := by
  unfold connectDial
  cases hfind : addrs.find? (DialAddr.usable lport) with
  | none =>
      obtain ⟨rv, fd, heq, hrv⟩ := @connectAddrs_unusable lport σ.kern addrs 0 (-1) hfind
      rw [heq]
      by_cases hnil : addrs = []
      · rw [hrv.mpr ⟨rfl, hnil⟩]
        exact iff_of_false connectFailed_breaks fun h => h hnil
      · have hne : rv ≠ 0 := fun h => hnil (hrv.mp h).2
        rw [connectFailed_contract_iff hne]
        exact iff_of_true ⟨hfd, hconnecting, halready⟩ hnil
  | some addr =>
      obtain ⟨hint, heq⟩ := @connectAddrs_usable lport σ.kern addrs addr 0 (-1) hfind
      rw [heq]
      have hrefused : addr.connect.first = .failed →
          (ConnectContract (connectFailed σ p (-5)).2 p (connectFailed σ p (-5)).1 ↔
            addr.connect ≠ .success ∧ (addr.connect = .einprogress → again ≠ .error)) := by
        intro hfirst
        rw [connectFailed_contract_iff (by omega)]
        refine iff_of_true ⟨hfd, hconnecting, halready⟩ ⟨?_, ?_⟩
        · intro h
          rw [h] at hfirst
          cases hfirst
        · intro h
          rw [h] at hfirst
          cases hfirst
      cases hconnect : addr.connect with
      | success =>
          simp only [ConnectRet.first]
          refine iff_of_false ?_ fun h => h.1 hconnect
          simp only [connectConnected, Sys.modify_same, reduceCtorEq, if_false]
          exact connectFailed_breaks
      | einprogress =>
          have hopened : σ.kern.freshFd hint ∈ (σ.kern.openFd hint).opened := Finset.mem_insert_self _ _
          have hne : σ.kern.freshFd hint ≠ -1 := by
            have := σ.kern.freshFd_nonneg hint
            omega
          simp only [ConnectRet.first]
          rw [connectConnecting_contract_iff (by simp)]
          cases again <;> simp [ConnectRet.again, hconnect, hopened, hne]
      | ealready => exact hrefused (by rw [hconnect]; rfl)
      | eisconn => exact hrefused (by rw [hconnect]; rfl)
      | error => exact hrefused (by rw [hconnect]; rfl)

/-- Of a live socket the contract is met on the inputs named above and on no others. -/
theorem connect_contract_iff (hp : p ∈ σ.live) (raddr : Bool) (rport lport : Int) (os : DialOs) :
    ∃ rv σ', cpSockConnect σ (some p) raddr rport lport os.toConnectOs = .ok (rv, σ') ∧
      (ConnectContract σ' p rv ↔ ConnectHonest σ p raddr rport lport os) := by
  have hagain : os.again.again = .failed ↔ os.again = .error := by cases os.again <;> simp [ConnectRet.again]
  simp only [cpSockConnect, Sys.load_of_mem hp, ok_bind, ConnectHonest]
  split
  · exact ⟨_, _, rfl, connectFailed_contract_iff (by omega)⟩
  split
  next hstat => exact ⟨_, _, rfl, by simp [connectContract_zero_iff, hstat]⟩
  next halready =>
    split
    next hstat =>
      have hcontract := @connectConnecting_contract_iff σ p os.again.again os.now hstat
      simp only [hagain] at hcontract
      exact ⟨_, _, rfl, hcontract⟩
    next hconnecting =>
      cases haddrs : os.addrs with
      | none =>
          simp only [DialOs.toConnectOs, haddrs, Option.map_none]
          have hcontract := @connectFailed_contract_iff σ p (-2) (by omega)
          exact ⟨_, _, rfl, hcontract.trans (and_iff_left ⟨hconnecting, halready⟩)⟩
      | some addrs =>
          obtain ⟨⟨_, σ₁⟩, hclose⟩ := (@cpSockClose_faultsOnly σ p _ os.closed hp).exists_ok
          obtain ⟨-, fd, rfl⟩ := cpSockClose_spec hclose
          simp only [DialOs.toConnectOs, haddrs, Option.map_some, hclose, ok_bind]
          generalize hkern : (if 0 < (σ.mem p).fd then σ.kern.close (σ.mem p).fd else σ.kern) = kern
          have hdial := @connectDial_contract_iff ({ σ with kern }.modify p fun s => { s with fd := -1 }) p lport
            os.now os.again addrs (by simp) (by simpa using halready) (by simpa using hconnecting)
          refine ⟨_, _, ?_, hdial⟩
          unfold connectDial
          simp only [Sys.modify_modify, Sys.modify_kern]
          cases connectAddrs lport kern 0 (-1) (addrs.map DialAddr.toConnectAddr) <;> rfl

private def freshSock : Sys :=
  ⟨⟨false, 3, 0, 8, 0, [], [], cpQueueInit 8, cpArrayInit 8⟩,
    fun _ => { fd := -1, flag := { init := true } }, {1}, Kernel.bare⟩

/-- No socket for the first address, and the second one takes its time. -/
private def inProgress : DialOs :=
  ⟨true, some [⟨none, true, .error⟩, ⟨some 3, true, .einprogress⟩], .eisconn, 0⟩

/-- The peer accepts at once, as a peer on the same machine does. -/
private def atOnce : DialOs := ⟨true, some [⟨some 3, true, .success⟩], .eisconn, 0⟩

theorem connect_contract_iff_in_progress :
    ∃ rv σ', cpSockConnect freshSock (some 1) true 80 0 inProgress.toConnectOs = .ok (rv, σ') ∧
      ConnectContract σ' 1 rv := by
  obtain ⟨rv, σ', hcall, hiff⟩ := @connect_contract_iff freshSock 1 (by decide) true 80 0 inProgress
  refine ⟨rv, σ', hcall, hiff.mpr ?_⟩
  simp [ConnectHonest, freshSock, inProgress, DialAddr.usable]

theorem connect_at_once_closed :
    ¬ ∀ (σ : Sys) (p : SockId) (raddr : Bool) (rport lport : Int) (os : DialOs) (rv : Int) (σ' : Sys),
      p ∈ σ.live → cpSockConnect σ (some p) raddr rport lport os.toConnectOs = .ok (rv, σ') →
        ConnectContract σ' p rv := by
  intro h
  have hcontract := h freshSock 1 true 80 0 atOnce 0 _ (by decide) rfl
  exact absurd (hcontract.returned rfl).1 (by decide)

/-! What is received. -/

def Sock.received (s : Sock) : List Byte := (s.rbuf.map CpString.contents).getD []

/-- 0 is the end of the stream, which is data of length 0; what is taken from the connection
stands in the buffer. -/
def RecvContract (s : Sock) (recv : Recv) (now : ULong) : Prop :=
  let (rv, s', got) := cpSockRecv s recv now
  (rv = 0 ↔ recv = .data []) ∧ s'.received = s.received ++ got

/-- When the contract is met: there is room and something to report, or the stream has ended. -/
def RecvHonest (s : Sock) (recv : Recv) : Prop :=
  match s.rbuf with
  | none => recv ≠ .data []
  | some rbuf => if s.fd < 0 then recv ≠ .data [] else recv = .data [] ∨ rbuf.len < rbuf.size ∧ recv ≠ .again

theorem recv_contract_iff {s : Sock} (h : ∀ rbuf, s.rbuf = some rbuf → rbuf.Bounded) (recv : Recv) (now : ULong) :
    RecvContract s recv now ↔ RecvHonest s recv := by
  unfold RecvContract RecvHonest cpSockRecv
  cases hrbuf : s.rbuf with
  | none => simp
  | some rbuf =>
      obtain ⟨hlow, hhigh⟩ := h rbuf hrbuf
      by_cases hfd : s.fd < 0
      · simp [hfd]
      by_cases hfull : rbuf.size - rbuf.len ≤ 0
      · have hroom : ¬ rbuf.len < rbuf.size := by omega
        simp [hfd, hfull, hroom]
      have hroom : rbuf.len < rbuf.size := by omega
      cases recv with
      | again => simp [hfd, hfull]
      | failed => simp [hfd, hfull, hroom]
      | data bytes =>
          by_cases hend : bytes = []
          · simp [hfd, hend]
          have hgot : bytes.take (rbuf.size - rbuf.len).toNat ≠ [] := by
            simp only [ne_eq, List.take_eq_nil_iff, hend, or_false]
            omega
          have hreceived : ({ s with
              rbuf := some (rbuf.append (bytes.take (rbuf.size - rbuf.len).toNat))
              actvTime := now
              msgTime := now } : Sock).received =
                s.received ++ bytes.take (rbuf.size - rbuf.len).toNat := by
            simp [Sock.received, hrbuf, CpString.contents_append rbuf hlow]
          have hcount : ((bytes.take (rbuf.size - rbuf.len).toNat).length : Int) ≠ 0 := fun h =>
            hgot (List.length_eq_zero_iff.mp (Int.natCast_eq_zero.mp h))
          simp only [hfd, hfull, List.length_eq_zero_iff, hgot, if_false, hreceived, and_true, hcount, false_iff]
          simp [hend, hroom]

private def receiving (len : Int) : Sock := { fd := 4, rbuf := some ⟨2, len, fun _ => 0⟩ }

theorem recv_contract_iff_one_byte : RecvContract (receiving 1) (.data [0x41, 0x42]) 0 :=
  (recv_contract_iff (by intro rbuf h; cases h; exact ⟨by decide, by decide⟩) _ _).mpr
    (.inr ⟨by decide, nofun⟩)

/-- With a full buffer, and on a wake-up without data, 0 is returned on a live connection. -/
theorem recv_zero_on_live_stream : ¬ RecvContract (receiving 2) (.data [0x41]) 0 ∧ ¬ RecvContract (receiving 1) .again 0 :=
  ⟨fun h => absurd (h.1.mp rfl) nofun, fun h => absurd (h.1.mp rfl) nofun⟩

end Fl2440.CpLibrary
