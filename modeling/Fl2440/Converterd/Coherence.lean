import Fl2440.Converterd.CvdMain

/-! What the converter knows of its two descriptors, at every `epoll_wait`. It is right as
long as a port that opens is also configured and registered, a connection that is made is
registered, and none that was refused while in progress is dialled again. -/
namespace Fl2440.Converterd

open Fl2440.Lib Fl2440.Gprs
open Fl2440.CpLibrary (Kernel Connect)

namespace Link

/-- An open descriptor that is in the epoll set. -/
def Watched (s : Link) (fd : Int) : Prop := fd ∈ s.kern.opened ∧ (s.kern.epoll fd).isSome

structure Coherent (s : Link) : Prop where
  comport : s.comport.is_connted = true → s.Watched s.comport.fd
  sock : s.sock.status = .connected → s.Watched s.sock.fd
  rest : ∀ fd ∈ s.ours, fd = s.comport.fd ∨ fd = s.sock.fd

structure Kept (s : Link) : Prop where
  opened : ∀ fd ∈ s.ours, fd ∈ s.kern.opened
  registered : ∀ fd, (s.kern.epoll fd).isSome →
    fd ∈ s.ours ∧ (fd = s.comport.fd ∨ s.sock.status = .connected ∧ fd = s.sock.fd)
  rest : ∀ fd ∈ s.ours, fd = s.comport.fd ∨ fd = s.sock.fd
  apart : s.comport.fd = s.sock.fd → s.sock.fd ∈ s.ours → s.sock.status = .init
  comport : s.comport.is_connted = true → s.comport.fd ∈ s.ours ∧ (s.kern.epoll s.comport.fd).isSome
  connected : s.sock.status = .connected → s.sock.fd ∈ s.ours ∧ (s.kern.epoll s.sock.fd).isSome
  connecting : s.sock.status = .connecting → s.sock.fd ∈ s.ours
  disconnect : s.sock.status = .disconnect → s.sock.fd ≠ -1 → s.sock.fd ∈ s.ours
  init : s.sock.status = .init → s.sock.fd ∈ s.ours → s.sock.fd = s.comport.fd

structure Ready (s : Link) : Prop where
  kept : s.Kept
  port : s.comport.fd ∈ s.ours ∨ s.comport.fd = -1

/-- A descriptor that nobody will close. -/
def Leaks (s : Link) : Prop :=
  ∃ fd ∈ s.ours, fd ≠ s.comport.fd ∧ (fd = s.sock.fd → s.sock.status = .init)

variable {s : Link}

theorem Kept.coherent (h : s.Kept) : s.Coherent :=
  ⟨fun hconnted => ⟨h.opened _ (h.comport hconnted).1, (h.comport hconnted).2⟩,
   fun hconnected => ⟨h.opened _ (h.connected hconnected).1, (h.connected hconnected).2⟩, h.rest⟩

theorem Leaks.not_coherent (h : s.Leaks) (hstatus : s.sock.status ≠ .init) : ¬ s.Coherent := by
  rintro ⟨-, -, hrest⟩
  obtain ⟨fd, hfd, hcomport, hsock⟩ := h
  rcases hrest fd hfd with heq | heq
  · exact hcomport heq
  · exact hstatus (hsock heq)

end Link

/-- A port that opens is configured and registered, and no port of number 0 is replaced. -/
structure PortOk (s : Link) (calls : ComportCalls) : Prop where
  closed : s.comport.fd = 0 → 0 ∉ s.ours
  opened : calls.fd ≠ none → calls.add = true ∧
    (s.comport.Tty → calls.fcntl = true ∧ calls.tcflush = true ∧ calls.tcgetattr = true ∧ calls.tcsetattr = true)

def firstAnswer : List ConnectAddr → Option Connect
  | [] => none
  | .refused :: rest => firstAnswer rest
  | .socket _ connect :: _ => some connect

def Answered (calls : ConnectCalls) : Prop :=
  calls.addrs.bind firstAnswer = some .done ∨
    calls.addrs.bind firstAnswer = some .inProgress ∧ calls.again = .done

/-- The connection that the round makes is registered, and replaces none. -/
def SockOk (status : SockStat) (fd : Int) (calls : ConnectCalls) : Prop :=
  match status with
  | .connected => True
  | .connecting => calls.again = .done → calls.add = true
  | .init => Answered calls → calls.add = true
  | .disconnect => fd = -1 ∧ (Answered calls → calls.add = true)

def HangsUp (s : Link) (events : List Event) : Prop :=
  ∃ e ∈ events, e.fd ≠ s.comport.fd ∧ e.fd = s.sock.fd ∧ e.read.Ends

instance (s : Link) (events : List Event) : Decidable (HangsUp s events) :=
  inferInstanceAs (Decidable (∃ e ∈ events, _))

/-- The status that the head of the loop finds. -/
def statusAfter (s : Link) (events : List Event) : SockStat :=
  if HangsUp s events then .init else s.sock.status

structure RoundOk (s : Cvd) (round : Round) : Prop where
  port : s.comport.is_connted = false → PortOk s.toLink round.comport
  sock : SockOk (statusAfter s.toLink round.events) s.sock.fd round.sock

/-! The port -/

def Configured (comport : ComPort) (calls : OpenCalls) : Prop :=
  comport.Tty → calls.fcntl = true ∧ calls.tcflush = true ∧ calls.tcgetattr = true ∧ calls.tcsetattr = true

theorem comportOpen_configured {comport : ComPort} {calls : OpenCalls} (hfd : 0 ≤ calls.fd)
    (hset : Configured comport calls) :
    comportOpen comport calls =
      ({ comport with
          is_connted := decide comport.Tty
          fd := calls.fd }, calls.fd) := by
  have hopen : ¬ calls.fd < 0 := not_lt.mpr hfd
  unfold comportOpen
  by_cases htty : comport.Tty
  · obtain ⟨hfcntl, htcflush, htcgetattr, htcsetattr⟩ := hset htty
    have htty' : (ComPort.mk comport.dev_name false comport.used calls.fd).Tty := htty
    simp [htty, htty', hopen, hfcntl, htcflush, htcgetattr, htcsetattr, comportClose]
  · have htty' : ¬ (ComPort.mk comport.dev_name false comport.used calls.fd).Tty := htty
    simp [htty, htty', hopen, comportClose]

theorem comportOpen_unset {comport : ComPort} {calls : OpenCalls} (h : ¬ Configured comport calls) :
    (comportOpen comport calls).2 < 0 := by
  obtain ⟨htty, hset⟩ := Classical.not_imp.mp h
  have htty' : ({ comportClose comport with fd := calls.fd } : ComPort).Tty := htty
  unfold comportOpen
  dsimp only
  rw [if_neg (not_not.mpr htty')]
  split_ifs with hopen hfcntl htcflush htcgetattr htcsetattr
  case neg => exact absurd (by simp_all) hset
  all_goals exact Int.negSucc_lt_zero _

theorem comportOpen_failed (comport : ComPort) {calls : OpenCalls} (hfd : calls.fd < 0) :
    (comportOpen comport calls).2 < 0 ∧ (comportOpen comport calls).1.is_connted = false := by
  unfold comportOpen
  dsimp only
  split_ifs <;> exact ⟨Int.negSucc_lt_zero _, rfl⟩

namespace Link

structure PortClosed (s : Link) : Prop where
  opened : ∀ fd ∈ s.ours, fd ∈ s.kern.opened
  registered : ∀ fd, (s.kern.epoll fd).isSome → fd ∈ s.ours ∧ s.sock.status = .connected ∧ fd = s.sock.fd
  rest : ∀ fd ∈ s.ours, fd = s.sock.fd
  connected : s.sock.status = .connected → s.sock.fd ∈ s.ours ∧ (s.kern.epoll s.sock.fd).isSome
  connecting : s.sock.status = .connecting → s.sock.fd ∈ s.ours
  disconnect : s.sock.status = .disconnect → s.sock.fd ≠ -1 → s.sock.fd ∈ s.ours
  init : s.sock.status = .init → s.sock.fd ∉ s.ours

variable {s : Link} {comport : ComPort} {hint : Nat}

theorem mem_closeComport (hzero : s.comport.fd = 0 → 0 ∉ s.ours) {fd : Int} :
    fd ∈ (closeComport s).ours ↔ fd ∈ s.ours ∧ fd ≠ s.comport.fd := by
  unfold closeComport
  split
  next => exact Finset.mem_erase.trans and_comm
  next hfd =>
    have hfd' : s.comport.fd = 0 := not_not.mp hfd
    exact ⟨fun hmem => ⟨hmem, fun heq => hzero hfd' (hfd' ▸ heq ▸ hmem)⟩, And.left⟩

theorem closeComport_sock (s : Link) : (closeComport s).sock = s.sock := by
  unfold closeComport
  split <;> rfl

theorem closeComport_comport (s : Link) : (closeComport s).comport = s.comport := by
  unfold closeComport
  split <;> rfl

theorem mem_opened_closeComport {fd : Int} (hne : fd ≠ s.comport.fd) :
    fd ∈ (closeComport s).kern.opened ↔ fd ∈ s.kern.opened := by
  unfold closeComport
  split
  next => exact Finset.mem_erase.trans (and_iff_right hne)
  next => exact Iff.rfl

theorem epoll_closeComport {fd : Int} (hne : fd ≠ s.comport.fd) :
    (closeComport s).kern.epoll fd = s.kern.epoll fd := by
  unfold closeComport
  split
  next => exact Function.update_of_ne hne _ _
  next => rfl

theorem epoll_closeComport_self (h : s.Kept) (hzero : s.comport.fd = 0 → 0 ∉ s.ours) :
    (closeComport s).kern.epoll s.comport.fd = none := by
  unfold closeComport
  split
  next => exact Function.update_self _ _ _
  next hfd =>
    have hfd' : s.comport.fd = 0 := not_not.mp hfd
    refine Option.not_isSome_iff_eq_none.mp fun hsome => hzero hfd' ?_
    exact hfd' ▸ (h.registered _ hsome).1

theorem Kept.sock_ne (h : s.Kept) (hmem : s.sock.fd ∈ s.ours) (hstatus : s.sock.status ≠ .init) :
    s.sock.fd ≠ s.comport.fd := fun heq => hstatus (h.apart heq.symm hmem)

theorem Kept.portClosed (h : s.Kept) (hzero : s.comport.fd = 0 → 0 ∉ s.ours) :
    (closeComport s).PortClosed := by
  have hsock := closeComport_sock s
  have hmem : ∀ {fd : Int}, fd ∈ (closeComport s).ours ↔ fd ∈ s.ours ∧ fd ≠ s.comport.fd := mem_closeComport hzero
  constructor
  · intro fd hfd
    obtain ⟨hours, hne⟩ := hmem.mp hfd
    exact (mem_opened_closeComport hne).mpr (h.opened fd hours)
  · intro fd hfd
    by_cases hne : fd = s.comport.fd
    · rw [hne, epoll_closeComport_self h hzero] at hfd
      cases hfd
    · rw [epoll_closeComport hne] at hfd
      obtain ⟨hours, hwho⟩ := h.registered fd hfd
      rw [hsock]
      exact ⟨hmem.mpr ⟨hours, hne⟩, hwho.resolve_left hne⟩
  · intro fd hfd
    obtain ⟨hours, hne⟩ := hmem.mp hfd
    rw [hsock]
    exact (h.rest fd hours).resolve_left hne
  · rw [hsock]
    intro hstatus
    obtain ⟨hours, hsome⟩ := h.connected hstatus
    have hne := h.sock_ne hours (by rw [hstatus]; decide)
    exact ⟨hmem.mpr ⟨hours, hne⟩, (epoll_closeComport hne).symm ▸ hsome⟩
  · rw [hsock]
    intro hstatus
    have hours := h.connecting hstatus
    exact hmem.mpr ⟨hours, h.sock_ne hours (by rw [hstatus]; decide)⟩
  · rw [hsock]
    intro hstatus hfd
    have hours := h.disconnect hstatus hfd
    exact hmem.mpr ⟨hours, h.sock_ne hours (by rw [hstatus]; decide)⟩
  · rw [hsock]
    intro hstatus hfd
    obtain ⟨hours, hne⟩ := hmem.mp hfd
    exact hne (h.init hstatus hours)

theorem PortClosed.neg_not_mem (h : s.PortClosed) : (-1 : Int) ∉ s.ours :=
  fun hmem => s.kern.not_mem_of_neg (by decide) (h.opened _ hmem)

theorem PortClosed.noPort (h : s.PortClosed) (hconnted : comport.is_connted = false) (hfd : comport.fd = -1) :
    Ready { s with comport } := by
  have hneg : comport.fd ∉ s.ours := hfd ▸ h.neg_not_mem
  refine ⟨?_, .inr hfd⟩
  exact
    { opened := h.opened
      registered := fun fd hsome => ⟨(h.registered fd hsome).1, .inr (h.registered fd hsome).2⟩
      rest := fun fd hours => .inr (h.rest fd hours)
      apart := fun heq hours => absurd (heq ▸ hours) hneg
      comport := fun htrue => nomatch hconnted.symm.trans htrue
      connected := h.connected
      connecting := h.connecting
      disconnect := h.disconnect
      init := fun hstatus hours => absurd hours (h.init hstatus) }

theorem PortClosed.fresh_ne (h : s.PortClosed) (hours : s.sock.fd ∈ s.ours) : s.kern.freshFd hint ≠ s.sock.fd :=
  fun heq => s.kern.freshFd_not_mem hint (heq ▸ h.opened _ hours)

theorem PortClosed.newPort (h : s.PortClosed) {kern : Kernel}
    (hopened : kern.opened = insert (s.kern.freshFd hint) s.kern.opened)
    (hepoll : kern.epoll = Function.update s.kern.epoll (s.kern.freshFd hint) (some none))
    (hfd : comport.fd = s.kern.freshFd hint) :
    Ready { s.openFd hint with
      kern
      comport } := by
  have hother : ∀ fd, fd ≠ comport.fd → kern.epoll fd = s.kern.epoll fd := fun fd hne => by
    rw [hepoll, Function.update_of_ne (hfd ▸ hne)]
  have hself : (kern.epoll comport.fd).isSome := by
    rw [hepoll, hfd, Function.update_self]
    rfl
  have hmem : ∀ fd, fd ∈ insert (s.kern.freshFd hint) s.ours ↔ fd = comport.fd ∨ fd ∈ s.ours :=
    fun fd => hfd ▸ Finset.mem_insert
  have hne : s.sock.fd ∈ s.ours → s.sock.fd ≠ comport.fd := fun hours heq => h.fresh_ne hours (hfd ▸ heq).symm
  refine Ready.mk ?_ (.inl ((hmem _).mpr (.inl rfl)))
  refine
    { opened := fun fd hours => ?_
      registered := fun fd hsome => ?_
      rest := fun fd hours => ((hmem fd).mp hours).imp_right (h.rest fd)
      apart := fun heq hours => ?_
      comport := fun _ => ⟨(hmem _).mpr (.inl rfl), hself⟩
      connected := fun hstatus => ?_
      connecting := fun hstatus => (hmem _).mpr (.inr (h.connecting hstatus))
      disconnect := fun hstatus hfd => (hmem _).mpr (.inr (h.disconnect hstatus hfd))
      init := fun hstatus hours => ((hmem _).mp hours).resolve_right (h.init hstatus) }
  · rw [hopened]
    exact Finset.mem_insert.mpr ((Finset.mem_insert.mp hours).imp_right (h.opened fd))
  · by_cases hfd' : fd = comport.fd
    · exact ⟨(hmem fd).mpr (.inl hfd'), .inl hfd'⟩
    · rw [hother fd hfd'] at hsome
      obtain ⟨hours, hwho⟩ := h.registered fd hsome
      exact ⟨(hmem fd).mpr (.inr hours), .inr hwho⟩
  · show s.sock.status = .init
    cases hstatus : s.sock.status with
    | init => rfl
    | connected => exact absurd heq.symm (hne (h.connected hstatus).1)
    | connecting => exact absurd heq.symm (hne (h.connecting hstatus))
    | disconnect =>
        refine absurd heq.symm (hne (h.disconnect hstatus fun hneg => ?_))
        have hnonneg := s.kern.freshFd_nonneg hint
        rw [← hfd, show comport.fd = -1 from heq.trans hneg] at hnonneg
        cases hnonneg
  · obtain ⟨hours, hsome⟩ := h.connected hstatus
    exact ⟨(hmem _).mpr (.inr hours), (congrArg Option.isSome (hother _ (hne hours))).trans hsome⟩

theorem PortClosed.leaks (h : s.PortClosed) (hfd : comport.fd = -1) :
    Leaks { s.openFd hint with comport } := by
  have hnonneg := s.kern.freshFd_nonneg hint
  refine ⟨s.kern.freshFd hint, Finset.mem_insert_self _ _, ?_, fun heq => ?_⟩
  · show _ ≠ comport.fd
    omega
  · show s.sock.status = .init
    have heq' : s.kern.freshFd hint = s.sock.fd := heq
    cases hstatus : s.sock.status with
    | init => rfl
    | connected => exact absurd heq' (h.fresh_ne (h.connected hstatus).1)
    | connecting => exact absurd heq' (h.fresh_ne (h.connecting hstatus))
    | disconnect =>
        by_cases hneg : s.sock.fd = -1
        · omega
        · exact absurd heq' (h.fresh_ne (h.disconnect hstatus hneg))

theorem ctlAdd_of_unregistered (kern : Kernel) {fd : Int} (hopened : fd ∈ kern.opened) (hepoll : kern.epoll fd = none) :
    kern.ctlAdd fd none true = .ok (kern.register fd none hopened) := by
  rw [Kernel.ctlAdd, dif_pos hopened, hepoll]
  rfl

variable {calls : ComportCalls}

theorem epollAddComport_none (hfd : calls.fd = none) :
    ∃ comport : ComPort, comport.is_connted = false ∧ comport.fd = -1 ∧
      epollAddComport s calls = { closeComport s with comport } := by
  have hfailed := comportOpen_failed (closeComport s).comport
    (show (calls.openCalls (-1)).fd < 0 from Int.negSucc_lt_zero 0)
  refine ⟨{ (comportOpen (closeComport s).comport (calls.openCalls (-1))).1 with fd := -1 }, hfailed.2, rfl, ?_⟩
  rw [epollAddComport, hfd]
  exact if_pos hfailed.1

theorem epollAddComport_some (hfd : calls.fd = some hint) :
    epollAddComport s calls = addComport ((closeComport s).openFd hint)
      (comportOpen (closeComport s).comport (calls.openCalls ((closeComport s).kern.freshFd hint))) calls.add := by
  rw [epollAddComport, hfd]
  rfl

theorem addComport_registered {fd : Int} (comport : ComPort) (retval : Int) (hretval : ¬ retval < 0)
    (hfd : comport.fd = fd) (hopened : fd ∈ s.kern.opened) (hepoll : s.kern.epoll fd = none) :
    addComport s (comport, retval) true = { s with
      kern := s.kern.register fd none hopened
      comport } := by
  subst hfd
  simp only [addComport]
  rw [if_neg hretval, ctlAdd_of_unregistered s.kern hopened hepoll]

theorem Kept.newPort (h : s.Kept) (hzero : s.comport.fd = 0 → 0 ∉ s.ours) (hfd : calls.fd = some hint)
    (hadd : calls.add = true) (hset : Configured s.comport (calls.openCalls 0)) :
    (epollAddComport s calls).Ready := by
  have hclosed := h.portClosed hzero
  have hset' : Configured (closeComport s).comport (calls.openCalls ((closeComport s).kern.freshFd hint)) := by
    rw [closeComport_comport]
    exact hset
  have hnonneg := (closeComport s).kern.freshFd_nonneg hint
  have hretval : ¬ (calls.openCalls ((closeComport s).kern.freshFd hint)).fd < 0 := not_lt.mpr hnonneg
  rw [epollAddComport_some hfd, comportOpen_configured hnonneg hset', hadd,
    addComport_registered _ _ hretval rfl (Finset.mem_insert_self _ _)
      ((closeComport s).kern.epoll_freshFd hint)]
  exact hclosed.newPort rfl rfl rfl

theorem addComport_eq_failed (opened : ComPort × Int) (add : Bool) (h : opened.2 < 0 ∨ add = false) :
    addComport s opened add = { s with comport := { opened.1 with fd := -1 } } := by
  unfold addComport
  split
  next comport retval =>
    by_cases hretval : retval < 0
    · exact if_pos hretval
    · rw [if_neg hretval]
      split
      next kern hctl => exact absurd (Kernel.ctlAdd_eq_ok hctl).2.2.1 (by rw [h.resolve_left hretval]; decide)
      next => rfl

theorem addComport_same (s : Link) (opened : ComPort × Int) (add : Bool) :
    (addComport s opened add).ours = s.ours ∧ (addComport s opened add).sock = s.sock ∧
      ((addComport s opened add).comport.fd = -1 ∨ (addComport s opened add).comport.fd = opened.1.fd) := by
  unfold addComport
  split
  split
  · exact ⟨rfl, rfl, .inl rfl⟩
  · split
    · exact ⟨rfl, rfl, .inr rfl⟩
    · exact ⟨rfl, rfl, .inl rfl⟩

theorem Kept.addPort (h : s.Kept) (hok : PortOk s calls) : (epollAddComport s calls).Ready := by
  cases hfd : calls.fd with
  | none =>
      obtain ⟨comport, hconnted, hneg, heq⟩ := epollAddComport_none (s := s) hfd
      rw [heq]
      exact (h.portClosed hok.closed).noPort hconnted hneg
  | some hint =>
      obtain ⟨hadd, hset⟩ := hok.opened (by rw [hfd]; exact Option.some_ne_none hint)
      exact h.newPort hok.closed hfd hadd hset

/-- A port of number 0 is not closed before it is opened again. -/
theorem Kept.zero_leaks (h : s.Kept) (hzero : s.comport.fd = 0) (hours : 0 ∈ s.ours) (calls : ComportCalls) :
    (epollAddComport s calls).Leaks := by
  have hstays : closeComport s = s := if_neg (not_not.mpr hzero)
  have hsock : 0 = s.sock.fd → s.sock.status = .init := fun heq => h.apart (hzero.trans heq) (heq ▸ hours)
  cases hfd : calls.fd with
  | none =>
      obtain ⟨comport, -, hneg, heq⟩ := epollAddComport_none (s := s) hfd
      rw [heq, hstays]
      exact ⟨0, hours, by rw [hneg]; decide, hsock⟩
  | some hint =>
      rw [epollAddComport_some hfd, hstays]
      obtain ⟨hsame, hsock', hport⟩ := addComport_same (s.openFd hint)
        (comportOpen s.comport (calls.openCalls (s.kern.freshFd hint))) calls.add
      refine ⟨0, hsame ▸ Finset.mem_insert_of_mem hours, fun heq => ?_, hsock' ▸ hsock⟩
      rcases hport with hneg | hfresh
      · rw [hneg] at heq
        cases heq
      · rw [comportOpen_fd] at hfresh
        have hzero' : 0 = s.kern.freshFd hint := heq.trans hfresh
        exact s.kern.freshFd_not_mem hint (hzero' ▸ h.opened 0 hours)

theorem Kept.addPort_leaks (h : s.Kept) (hok : ¬ PortOk s calls) : (epollAddComport s calls).Leaks := by
  by_cases hzero : s.comport.fd = 0 → 0 ∉ s.ours
  · cases hfd : calls.fd with
    | none => exact absurd ⟨hzero, fun hne => absurd hfd hne⟩ hok
    | some hint =>
        have hbad : (comportOpen (closeComport s).comport
            (calls.openCalls ((closeComport s).kern.freshFd hint))).2 < 0 ∨ calls.add = false := by
          rw [or_iff_not_imp_right, Bool.not_eq_false, closeComport_comport]
          exact fun hadd => comportOpen_unset fun hset => hok ⟨hzero, fun _ => ⟨hadd, hset⟩⟩
        rw [epollAddComport_some hfd, addComport_eq_failed _ _ hbad]
        exact (h.portClosed hzero).leaks rfl
  · obtain ⟨hfd, hours⟩ := Classical.not_imp.mp hzero
    exact h.zero_leaks hfd (not_not.mp hours) calls

/-! The connection -/

structure SockClosed (s : Link) : Prop where
  opened : ∀ fd ∈ s.ours, fd ∈ s.kern.opened
  registered : ∀ fd, (s.kern.epoll fd).isSome → fd ∈ s.ours
  rest : ∀ fd ∈ s.ours, fd = s.comport.fd
  comport : s.comport.is_connted = true → s.comport.fd ∈ s.ours ∧ (s.kern.epoll s.comport.fd).isSome
  port : s.comport.fd ∈ s.ours ∨ s.comport.fd = -1

theorem Ready.sockClosed (h : s.Ready) (hnot : s.sock.fd ∈ s.ours → s.sock.fd = s.comport.fd) : s.SockClosed where
  opened := h.kept.opened
  registered fd hsome := (h.kept.registered fd hsome).1
  rest fd hours := (h.kept.rest fd hours).elim id fun heq => heq ▸ hnot (heq ▸ hours)
  comport := h.kept.comport
  port := h.port

theorem SockClosed.failed (h : s.SockClosed) : (connectFailed s).Kept where
  opened := h.opened
  registered fd hsome := ⟨h.registered fd hsome, .inl (h.rest fd (h.registered fd hsome))⟩
  rest fd hours := .inl (h.rest fd hours)
  apart _ hours := absurd (h.opened _ hours) (s.kern.not_mem_of_neg (Int.negSucc_lt_zero 0))
  comport := h.comport
  connected hstatus := nomatch hstatus
  connecting hstatus := nomatch hstatus
  disconnect _ hne := absurd rfl hne
  init hstatus := nomatch hstatus

def dial (s : Link) (hint : Nat) : Link := { s.openFd hint with sock := ⟨s.kern.freshFd hint, .connecting⟩ }

theorem SockClosed.dial (h : s.SockClosed) (hint : Nat) : (Link.dial s hint).Kept := by
  have hmem : ∀ fd, fd ∈ (Link.dial s hint).ours ↔ fd = s.kern.freshFd hint ∨ fd ∈ s.ours :=
    fun fd => Finset.mem_insert
  refine
    { opened := fun fd hours => Finset.mem_insert.mpr (((hmem fd).mp hours).imp_right (h.opened fd))
      registered := fun fd hsome => ?_
      rest := fun fd hours => ((hmem fd).mp hours).symm.imp_left (h.rest fd)
      apart := fun heq hours => ?_
      comport := fun hconnted => ((h.comport hconnted).imp_left fun hours => (hmem _).mpr (.inr hours))
      connected := fun hstatus => nomatch hstatus
      connecting := fun _ => (hmem _).mpr (.inl rfl)
      disconnect := fun hstatus => nomatch hstatus
      init := fun hstatus => nomatch hstatus }
  · have hours := h.registered fd hsome
    exact ⟨(hmem fd).mpr (.inr hours), .inl (h.rest fd hours)⟩
  · have heq' : s.comport.fd = s.kern.freshFd hint := heq
    rcases h.port with hport | hneg
    · exact absurd (heq' ▸ h.opened _ hport) (s.kern.freshFd_not_mem hint)
    · have hnonneg := s.kern.freshFd_nonneg hint
      omega

/-- `epoll_add_socket` once `cp_sock_connect` is back. -/
def attach (s : Link) (add : Bool) : Link := if s.sock.status ≠ .connected then s else addSocket s add

theorem attach_of_ne {add : Bool} (h : s.sock.status ≠ .connected) : Link.attach s add = s := if_pos h

theorem attach_of_connected {add : Bool} (h : s.sock.status = .connected) : Link.attach s add = addSocket s add :=
  if_neg (not_not.mpr h)

theorem addSocket_registered (hopened : s.sock.fd ∈ s.kern.opened) (hepoll : s.kern.epoll s.sock.fd = none) :
    addSocket s true = { s with kern := s.kern.register s.sock.fd none hopened } := by
  rw [addSocket, ctlAdd_of_unregistered s.kern hopened hepoll]

theorem Kept.attach (h : s.Kept) (hstatus : s.sock.status = .connecting) (answer : Connect) {add : Bool}
    (hadd : answer = .done → add = true) : (Link.attach (Converterd.connecting s answer) add).Kept := by
  have hours := h.connecting hstatus
  have hne : s.sock.fd ≠ s.comport.fd := h.sock_ne hours (by rw [hstatus]; decide)
  have hwho : ∀ fd, (s.kern.epoll fd).isSome → fd ∈ s.ours ∧ fd = s.comport.fd := fun fd hsome =>
    ⟨(h.registered fd hsome).1, (h.registered fd hsome).2.resolve_right fun hboth =>
      absurd (hstatus.symm.trans hboth.1) (by decide)⟩
  cases answer with
  | inProgress =>
      rw [attach_of_ne (by rw [Converterd.connecting, hstatus]; decide)]
      exact h
  | failed =>
      rw [attach_of_ne (s := Converterd.connecting s .failed) (fun heq => by cases heq)]
      exact
        { opened := h.opened
          registered := fun fd hsome => ⟨(hwho fd hsome).1, .inl (hwho fd hsome).2⟩
          rest := h.rest
          apart := fun heq _ => absurd heq.symm hne
          comport := h.comport
          connected := fun hfalse => by cases hfalse
          connecting := fun hfalse => by cases hfalse
          disconnect := fun _ _ => hours
          init := fun hfalse => by cases hfalse }
  | done =>
      have hnone : s.kern.epoll s.sock.fd = none :=
        Option.not_isSome_iff_eq_none.mp fun hsome => hne (hwho _ hsome).2
      rw [attach_of_connected rfl, hadd rfl,
        addSocket_registered (s := Converterd.connecting s .done) (h.opened _ hours) hnone]
      have hother : ∀ fd, fd ≠ s.sock.fd → Function.update s.kern.epoll s.sock.fd (some none) fd = s.kern.epoll fd :=
        fun fd hfd => Function.update_of_ne hfd _ _
      refine
        { opened := h.opened
          registered := fun fd hsome => ?_
          rest := h.rest
          apart := fun heq _ => absurd heq.symm hne
          comport := fun hconnted => ?_
          connected := fun _ => ⟨hours, ?_⟩
          connecting := fun hfalse => by cases hfalse
          disconnect := fun hfalse => by cases hfalse
          init := fun hfalse => by cases hfalse }
      · by_cases hfd : fd = s.sock.fd
        · exact ⟨hfd ▸ hours, .inr ⟨rfl, hfd⟩⟩
        · have hsome' := (congrArg Option.isSome (hother fd hfd)).symm.trans hsome
          exact ⟨(hwho fd hsome').1, .inl (hwho fd hsome').2⟩
      · exact (h.comport hconnted).imp_right
          ((congrArg Option.isSome (hother _ (Ne.symm hne))).trans ·)
      · exact congrArg Option.isSome (Function.update_self s.sock.fd (some none) s.kern.epoll)

theorem Kept.attach_rejected (h : s.Kept) (hstatus : s.sock.status = .connecting) :
    ¬ (Link.attach (Converterd.connecting s .done) false).Coherent := by
  have hours := h.connecting hstatus
  have hnone : s.kern.epoll s.sock.fd = none := Option.not_isSome_iff_eq_none.mp fun hsome => by
    rcases (h.registered _ hsome).2 with heq | ⟨hconnected, -⟩
    · exact h.sock_ne hours (by rw [hstatus]; decide) heq
    · rw [hstatus] at hconnected
      cases hconnected
  have hstays : addSocket (Converterd.connecting s .done) false = Converterd.connecting s .done := by
    unfold addSocket
    split
    next kern hctl => exact nomatch (Kernel.ctlAdd_eq_ok hctl).2.2.1
    next => rfl
  rw [attach_of_connected rfl, hstays]
  intro hcoherent
  have hsome := (hcoherent.sock rfl).2
  exact absurd (congrArg Option.isSome hnone) (by rw [show (s.kern.epoll s.sock.fd).isSome = true from hsome]; decide)

theorem connectAddrs_cases (h : ∀ fd ∈ s.ours, fd ∈ s.kern.opened) (again : Connect) (addrs : List ConnectAddr) :
    (firstAnswer addrs ≠ some .done ∧ ¬ (firstAnswer addrs = some .inProgress ∧ again = .done) ∧
      connectAddrs s again addrs = connectFailed s) ∨
    ∃ hint answer, connectAddrs s again addrs = Converterd.connecting (Link.dial s hint) answer ∧
      ((firstAnswer addrs = some .done ∨ firstAnswer addrs = some .inProgress ∧ again = .done) ↔ answer = .done) := by
  induction addrs with
  | nil => exact .inl ⟨by simp [firstAnswer], by simp [firstAnswer], rfl⟩
  | cons addr rest ih =>
      cases addr with
      | refused => exact ih
      | socket hint connect =>
          cases connect with
          | done => exact .inr ⟨hint, .done, rfl, iff_of_true (.inl rfl) rfl⟩
          | inProgress =>
              refine .inr ⟨hint, again, rfl, ?_⟩
              simp [firstAnswer]
          | failed =>
              refine .inl ⟨by simp [firstAnswer], by simp [firstAnswer], ?_⟩
              have hours : (insert (s.kern.freshFd hint) s.ours).erase (s.kern.freshFd hint) = s.ours :=
                Finset.erase_insert fun hmem => s.kern.freshFd_not_mem hint (h _ hmem)
              simp only [connectAddrs, openFd, closeFd, connectFailed, Kernel.close_openFd, hours]

theorem cpSockConnect_dials (calls : ConnectCalls) (hstatus : s.sock.status = .init ∨ s.sock.status = .disconnect) :
    cpSockConnect s calls = match calls.addrs with
      | none => connectFailed s
      | some addrs => connectAddrs s calls.again addrs := by
  unfold cpSockConnect
  cases calls.addrs <;> rcases hstatus with hstatus | hstatus <;> simp only [hstatus]

theorem dial_cases (h : ∀ fd ∈ s.ours, fd ∈ s.kern.opened) (calls : ConnectCalls)
    (hstatus : s.sock.status = .init ∨ s.sock.status = .disconnect) :
    (¬ Answered calls ∧ cpSockConnect s calls = connectFailed s) ∨
    ∃ hint answer, cpSockConnect s calls = Converterd.connecting (Link.dial s hint) answer ∧
      (Answered calls ↔ answer = .done) := by
  rw [cpSockConnect_dials calls hstatus, Answered]
  cases calls.addrs with
  | none => exact .inl ⟨by simp, rfl⟩
  | some addrs =>
      rcases connectAddrs_cases h calls.again addrs with ⟨hdone, hlater, heq⟩ | ⟨hint, answer, heq, hiff⟩
      · exact .inl ⟨fun hboth => hboth.elim hdone hlater, heq⟩
      · exact .inr ⟨hint, answer, heq, hiff⟩

theorem epollAddSocket_eq {calls : ConnectCalls} (h : s.sock.status ≠ .connected) :
    epollAddSocket s calls = Link.attach (cpSockConnect s calls) calls.add := if_neg h

theorem Ready.dialled (h : s.Ready) (calls : ConnectCalls) (hstatus : s.sock.status = .init ∨ s.sock.status = .disconnect)
    (hnot : s.sock.fd ∈ s.ours → s.sock.fd = s.comport.fd) :
    (Answered calls → calls.add = true) ∧ (epollAddSocket s calls).Kept ∨
      ¬ (Answered calls → calls.add = true) ∧ ¬ (epollAddSocket s calls).Coherent := by
  have hclosed := h.sockClosed hnot
  rw [epollAddSocket_eq (by rcases hstatus with hstatus | hstatus <;> rw [hstatus] <;> decide)]
  rcases dial_cases h.kept.opened calls hstatus with ⟨hno, heq⟩ | ⟨hint, answer, heq, hiff⟩
  · rw [heq, attach_of_ne (s := connectFailed s) (fun heq => nomatch heq)]
    exact .inl ⟨fun hanswered => absurd hanswered hno, hclosed.failed⟩
  · rw [heq]
    by_cases hadd : Answered calls → calls.add = true
    · exact .inl ⟨hadd, (hclosed.dial hint).attach rfl answer fun hdone => hadd (hiff.mpr hdone)⟩
    · obtain ⟨hanswered, hreject⟩ := Classical.not_imp.mp hadd
      refine .inr ⟨hadd, ?_⟩
      rw [hiff.mp hanswered, Bool.eq_false_of_not_eq_true hreject]
      exact (hclosed.dial hint).attach_rejected rfl

theorem attach_same (s : Link) (add : Bool) : (Link.attach s add).ours = s.ours ∧
    (Link.attach s add).comport = s.comport ∧ (Link.attach s add).sock = s.sock := by
  unfold Link.attach addSocket
  split
  · exact ⟨rfl, rfl, rfl⟩
  · split <;> exact ⟨rfl, rfl, rfl⟩

theorem connecting_same (s : Link) (answer : Connect) : (Converterd.connecting s answer).ours = s.ours ∧
    (Converterd.connecting s answer).comport = s.comport ∧ (Converterd.connecting s answer).sock.fd = s.sock.fd := by
  cases answer <;> exact ⟨rfl, rfl, rfl⟩

theorem connecting_status (answer : Connect) (h : s.sock.status ≠ .init) :
    (Converterd.connecting s answer).sock.status ≠ .init := by
  cases answer with
  | inProgress => exact h
  | done => exact fun heq => nomatch heq
  | failed => exact fun heq => nomatch heq

/-- A new connection takes the place of the old one, whose descriptor nobody closes. -/
theorem dialled_leaks (hopened : ∀ fd ∈ s.ours, fd ∈ s.kern.opened) {fd : Int} (hours : fd ∈ s.ours)
    (hne : fd ≠ s.comport.fd) (hstatus : s.sock.status = .init ∨ s.sock.status = .disconnect) (calls : ConnectCalls) :
    (epollAddSocket s calls).Leaks ∧ (epollAddSocket s calls).sock.status ≠ .init := by
  rw [epollAddSocket_eq (by rcases hstatus with hstatus | hstatus <;> rw [hstatus] <;> decide)]
  rcases dial_cases hopened calls hstatus with ⟨-, heq⟩ | ⟨hint, answer, heq, -⟩
  · rw [heq, attach_of_ne (s := connectFailed s) (fun heq => nomatch heq)]
    refine ⟨⟨fd, hours, hne, fun hfd => ?_⟩, fun heq => nomatch heq⟩
    exact absurd (hopened fd hours) (s.kern.not_mem_of_neg (hfd ▸ Int.negSucc_lt_zero 0))
  · rw [heq]
    obtain ⟨hours', hcomport, hsock⟩ := attach_same (Converterd.connecting (Link.dial s hint) answer) calls.add
    obtain ⟨hours'', hcomport', hfd'⟩ := connecting_same (Link.dial s hint) answer
    refine ⟨⟨fd, ?_, ?_, fun hfd => ?_⟩, ?_⟩
    · rw [hours', hours'']
      exact Finset.mem_insert_of_mem hours
    · rw [hcomport, hcomport']
      exact hne
    · rw [hsock, hfd'] at hfd
      exact absurd (hopened fd hours) (hfd ▸ s.kern.freshFd_not_mem hint)
    · rw [hsock]
      exact connecting_status answer (fun heq => nomatch heq)

theorem Leaks.epollAddSocket (h : s.Leaks) (hopened : ∀ fd ∈ s.ours, fd ∈ s.kern.opened) (calls : ConnectCalls)
    (hnot : s.sock.status ≠ .connected) :
    (epollAddSocket s calls).Leaks ∧ (Converterd.epollAddSocket s calls).sock.status ≠ .init := by
  obtain ⟨fd, hours, hne, hsock⟩ := h
  cases hstatus : s.sock.status with
  | connected => exact absurd hstatus hnot
  | init => exact dialled_leaks hopened hours hne (.inl hstatus) calls
  | disconnect => exact dialled_leaks hopened hours hne (.inr hstatus) calls
  | connecting =>
      have hconnect : cpSockConnect s calls = Converterd.connecting s calls.again := by
        simp only [cpSockConnect, hstatus]
      rw [epollAddSocket_eq hnot, hconnect]
      obtain ⟨hours', hcomport, hsock'⟩ := attach_same (Converterd.connecting s calls.again) calls.add
      obtain ⟨hours'', hcomport', hfd'⟩ := connecting_same s calls.again
      refine ⟨⟨fd, ?_, ?_, fun hfd => ?_⟩, ?_⟩
      · rw [hours', hours'']
        exact hours
      · rw [hcomport, hcomport']
        exact hne
      · rw [hsock', hfd'] at hfd
        exact absurd (hstatus.symm.trans (hsock hfd)) (by decide)
      · rw [hsock']
        exact connecting_status _ (by rw [hstatus]; decide)

theorem Ready.addSocket (h : s.Ready) {calls : ConnectCalls} (hnot : s.sock.status ≠ .connected) :
    SockOk s.sock.status s.sock.fd calls ∧ (Converterd.epollAddSocket s calls).Kept ∨
      ¬ SockOk s.sock.status s.sock.fd calls ∧ ¬ (Converterd.epollAddSocket s calls).Coherent := by
  cases hstatus : s.sock.status with
  | connected => exact absurd hstatus hnot
  | init => exact h.dialled calls (.inl hstatus) fun hours => h.kept.init hstatus hours
  | connecting =>
      have hconnect : cpSockConnect s calls = Converterd.connecting s calls.again := by
        simp only [cpSockConnect, hstatus]
      rw [epollAddSocket_eq hnot, hconnect]
      by_cases hadd : calls.again = .done → calls.add = true
      · exact .inl ⟨hadd, h.kept.attach hstatus calls.again hadd⟩
      · obtain ⟨hdone, hreject⟩ := Classical.not_imp.mp hadd
        refine .inr ⟨hadd, ?_⟩
        rw [hdone, Bool.eq_false_of_not_eq_true hreject]
        exact h.kept.attach_rejected hstatus
  | disconnect =>
      by_cases hfd : s.sock.fd = -1
      · have hnone : s.sock.fd ∉ s.ours := fun hours =>
          s.kern.not_mem_of_neg (hfd ▸ Int.negSucc_lt_zero 0) (h.kept.opened _ hours)
        rcases h.dialled calls (.inr hstatus) (fun hours => absurd hours hnone) with
          ⟨hadd, hkept⟩ | ⟨hadd, hbad⟩
        · exact .inl ⟨⟨hfd, hadd⟩, hkept⟩
        · exact .inr ⟨fun hok => hadd hok.2, hbad⟩
      · have hours := h.kept.disconnect hstatus hfd
        obtain ⟨hleaks, hstatus'⟩ := dialled_leaks h.kept.opened hours
          (h.kept.sock_ne hours (by rw [hstatus]; decide)) (.inr hstatus) calls
        exact .inr ⟨fun hok => hfd hok.1, hleaks.not_coherent hstatus'⟩

theorem Ready.prepareSock (h : s.Ready) (calls : ConnectCalls) :
    SockOk s.sock.status s.sock.fd calls ∧
        (if s.sock.status ≠ .connected then Converterd.epollAddSocket s calls else s).Kept ∨
      ¬ SockOk s.sock.status s.sock.fd calls ∧
        ¬ (if s.sock.status ≠ .connected then Converterd.epollAddSocket s calls else s).Coherent := by
  by_cases hconnected : s.sock.status = .connected
  · rw [if_neg (not_not.mpr hconnected), hconnected]
    exact .inl ⟨trivial, h.kept⟩
  · rw [if_pos hconnected]
    exact h.addSocket hconnected

theorem opened_addPort (hopened : ∀ fd ∈ s.ours, fd ∈ s.kern.opened) (calls : ComportCalls) :
    ∀ fd ∈ (epollAddComport s calls).ours, fd ∈ (epollAddComport s calls).kern.opened := by
  have hclosed : ∀ fd ∈ (closeComport s).ours, fd ∈ (closeComport s).kern.opened := by
    unfold closeComport
    split
    · exact fun fd hours => Finset.mem_erase.mpr ((Finset.mem_erase.mp hours).imp_right (hopened fd))
    · exact hopened
  cases hfd : calls.fd with
  | none =>
      obtain ⟨comport, -, -, heq⟩ := epollAddComport_none (s := s) hfd
      rw [heq]
      exact hclosed
  | some hint =>
      rw [epollAddComport_some hfd]
      have hfresh : ∀ fd ∈ ((closeComport s).openFd hint).ours, fd ∈ ((closeComport s).openFd hint).kern.opened :=
        fun fd hours => Finset.mem_insert.mpr ((Finset.mem_insert.mp hours).imp_right (hclosed fd))
      unfold addComport
      split
      split
      · exact hfresh
      · split
        next kern hctl => exact fun fd hours => (Kernel.ctlAdd_eq_ok hctl).2.2.2.1 ▸ hfresh fd hours
        next => exact hfresh

theorem epollAddComport_sock (s : Link) (calls : ComportCalls) : (epollAddComport s calls).sock = s.sock := by
  rw [epollAddComport, (addComport_same _ _ _).2.1, ← closeComport_sock s]
  cases calls.fd <;> rfl

theorem Kept.prepare (h : s.Kept) (comport : ComportCalls) (sock : ConnectCalls) :
    ((s.comport.is_connted = false → PortOk s comport) ∧ SockOk s.sock.status s.sock.fd sock) ∧
        (prepare s comport sock).Kept ∨
      ¬ ((s.comport.is_connted = false → PortOk s comport) ∧ SockOk s.sock.status s.sock.fd sock) ∧
        ¬ (Converterd.prepare s comport sock).Coherent := by
  unfold Converterd.prepare
  cases hconnted : s.comport.is_connted with
  | true =>
      rw [if_neg (show ¬ ¬ true = true by decide)]
      have hready : s.Ready := ⟨h, .inl (h.comport hconnted).1⟩
      rcases hready.prepareSock sock with ⟨hok, hkept⟩ | ⟨hok, hbad⟩
      · exact .inl ⟨⟨Bool.noConfusion, hok⟩, hkept⟩
      · exact .inr ⟨fun hboth => hok hboth.2, hbad⟩
  | false =>
      rw [if_pos (show ¬ false = true by decide)]
      have hsame := epollAddComport_sock s comport
      by_cases hport : PortOk s comport
      · rcases (h.addPort hport).prepareSock sock with ⟨hok, hkept⟩ | ⟨hok, hbad⟩
        · exact .inl ⟨⟨fun _ => hport, hsame ▸ hok⟩, hkept⟩
        · exact .inr ⟨fun hboth => hok (hsame.symm ▸ hboth.2), hbad⟩
      · refine .inr ⟨fun hboth => hport (hboth.1 rfl), ?_⟩
        have hleaks := h.addPort_leaks hport
        by_cases hconnected : (epollAddComport s comport).sock.status = .connected
        · rw [if_neg (not_not.mpr hconnected)]
          exact hleaks.not_coherent (by rw [hconnected]; decide)
        · rw [if_pos hconnected]
          obtain ⟨hleaks', hstatus⟩ := hleaks.epollAddSocket (opened_addPort h.opened comport) sock hconnected
          exact hleaks'.not_coherent hstatus

/-! The events -/

theorem Kept.hangUp (h : s.Kept) (hstatus : s.sock.status = .connected) : (cpSockClose s).Kept := by
  have hne : s.sock.fd ≠ s.comport.fd := h.sock_ne (h.connected hstatus).1 (by rw [hstatus]; decide)
  have hport : ∀ fd, fd ∈ s.ours.erase s.sock.fd → fd = s.comport.fd := fun fd hours =>
    (h.rest fd (Finset.mem_of_mem_erase hours)).resolve_right (Finset.ne_of_mem_erase hours)
  have hother : ∀ fd, fd ≠ s.sock.fd → Function.update s.kern.epoll s.sock.fd none fd = s.kern.epoll fd :=
    fun fd hfd => Function.update_of_ne hfd _ _
  refine
    { opened := fun fd hours => Finset.mem_erase.mpr ((Finset.mem_erase.mp hours).imp_right (h.opened fd))
      registered := fun fd hsome => ?_
      rest := fun fd hours => .inl (hport fd hours)
      apart := fun _ _ => rfl
      comport := fun hconnted => ?_
      connected := fun hfalse => nomatch hfalse
      connecting := fun hfalse => nomatch hfalse
      disconnect := fun hfalse => nomatch hfalse
      init := fun _ hours => hport 0 hours }
  · by_cases hfd : fd = s.sock.fd
    · have hnone : (cpSockClose s).kern.epoll fd = none := by
        rw [hfd]
        exact Function.update_self s.sock.fd none s.kern.epoll
      rw [hnone] at hsome
      cases hsome
    · have hsome' := (congrArg Option.isSome (hother fd hfd)).symm.trans hsome
      obtain ⟨hours, hwho⟩ := h.registered fd hsome'
      exact ⟨Finset.mem_erase.mpr ⟨hfd, hours⟩, .inl (hwho.resolve_right fun hboth => hfd hboth.2)⟩
  · obtain ⟨hours, hsome⟩ := h.comport hconnted
    exact ⟨Finset.mem_erase.mpr ⟨Ne.symm hne, hours⟩,
      (congrArg Option.isSome (hother _ (Ne.symm hne))).trans hsome⟩

end Link

theorem dispatch_port (events : List Event) :
    ∀ s : Cvd, (∀ e ∈ events, e.fd = s.comport.fd) → (dispatch s events).toLink = s.toLink := by
  induction events with
  | nil => exact fun _ _ => rfl
  | cons e rest ih =>
      intro s h
      have hlink := handleEvent_port s (h e List.mem_cons_self)
      have hrest := ih (handleEvent s e).1 fun e' he' => by
        rw [hlink]
        exact h e' (List.mem_cons_of_mem e he')
      exact hrest.trans hlink

theorem dispatch_link (events : List Event) :
    ∀ s : Cvd, (events.map Event.fd).Nodup → (∀ e ∈ events, e.fd = s.comport.fd ∨ e.fd = s.sock.fd) →
      (dispatch s events).toLink = if HangsUp s.toLink events then cpSockClose s.toLink else s.toLink := by
  induction events with
  | nil => exact fun _ _ _ => (if_neg fun h => nomatch h.choose_spec.1).symm
  | cons e rest ih =>
      intro s hnodup hends
      rw [List.map_cons, List.nodup_cons] at hnodup
      have hrest := fun e' he' => hends e' (List.mem_cons_of_mem e he')
      have hgoesOn : (handleEvent s e).1.toLink = s.toLink → ¬ (e.fd ≠ s.comport.fd ∧ e.read.Ends) →
          (dispatch s (e :: rest)).toLink =
            if HangsUp s.toLink (e :: rest) then cpSockClose s.toLink else s.toLink := fun hlink hno => by
        have hiff : HangsUp s.toLink (e :: rest) ↔ HangsUp s.toLink rest := by
          constructor
          · rintro ⟨e', he', hport, hsock, hend⟩
            rcases List.mem_cons.mp he' with rfl | he'
            · exact absurd ⟨hport, hend⟩ hno
            · exact ⟨e', he', hport, hsock, hend⟩
          · rintro ⟨e', he', hwho⟩
            exact ⟨e', List.mem_cons_of_mem e he', hwho⟩
        have hlater := ih (handleEvent s e).1 hnodup.2 (by rw [hlink]; exact hrest)
        rw [hlink] at hlater
        simp only [hiff]
        exact hlater
      by_cases hport : e.fd = s.comport.fd
      · exact hgoesOn (handleEvent_port s hport) fun hboth => hboth.1 hport
      · have hsock := (hends e List.mem_cons_self).resolve_left hport
        have hlink := handleEvent_sock s hport hsock
        by_cases hend : e.read.Ends
        · rw [if_pos hend] at hlink
          rw [if_pos ⟨e, List.mem_cons_self, hport, hsock, hend⟩, ← hlink]
          refine dispatch_port rest (handleEvent s e).1 fun e' he' => ?_
          rw [hlink]
          refine (hrest e' he').resolve_right fun hsame => hnodup.1 ?_
          exact hsock.trans hsame.symm ▸ List.mem_map_of_mem he'
        · rw [if_neg hend] at hlink
          exact hgoesOn hlink fun hboth => hend hboth.2

theorem Link.Kept.hangsUp_connected {s : Link} (h : s.Kept) {events : List Event}
    (hevents : ∀ e ∈ events, (s.kern.epoll e.fd).isSome) (hangs : HangsUp s events) :
    s.sock.status = .connected ∧ s.sock.fd ≠ s.comport.fd := by
  obtain ⟨e, he, hport, hsock, -⟩ := hangs
  exact ⟨((h.registered e.fd (hevents e he)).2.resolve_left hport).1, hsock ▸ hport⟩

theorem portOk_hangUp {s : Link} (hne : s.sock.fd ≠ s.comport.fd) (calls : ComportCalls) :
    PortOk (cpSockClose s) calls ↔ PortOk s calls := by
  have hzero : s.comport.fd = 0 → (0 ∉ (cpSockClose s).ours ↔ 0 ∉ s.ours) := fun hfd =>
    not_congr (Finset.mem_erase.trans (and_iff_right fun heq => hne (heq.symm.trans hfd.symm)))
  constructor
  · rintro ⟨hclosed, hopened⟩
    exact ⟨fun hfd => (hzero hfd).mp (hclosed hfd), hopened⟩
  · rintro ⟨hclosed, hopened⟩
    exact ⟨fun hfd => (hzero hfd).mpr (hclosed hfd), hopened⟩

theorem Link.Kept.dispatch {s : Cvd} (h : s.toLink.Kept) {round : Round} (hpossible : round.Possible s) :
    (dispatch s round.events).toLink.Kept ∧
      (((Converterd.dispatch s round.events).comport.is_connted = false →
          PortOk (Converterd.dispatch s round.events).toLink round.comport) ∧
        SockOk (Converterd.dispatch s round.events).sock.status (Converterd.dispatch s round.events).sock.fd round.sock ↔
        RoundOk s round) := by
  obtain ⟨-, hnodup, hregistered⟩ := hpossible
  have hlink := dispatch_link round.events s hnodup fun e he =>
    (h.registered e.fd (hregistered e he)).2.imp_right And.right
  rw [hlink]
  by_cases hangs : HangsUp s.toLink round.events
  · obtain ⟨hstatus, hne⟩ := h.hangsUp_connected hregistered hangs
    rw [if_pos hangs]
    refine ⟨h.hangUp hstatus, fun hboth => ⟨fun hconnted => ?_, ?_⟩, fun hok => ⟨fun hconnted => ?_, ?_⟩⟩
    · exact (portOk_hangUp hne _).mp (hboth.1 hconnted)
    · rw [statusAfter, if_pos hangs]
      exact hboth.2
    · exact (portOk_hangUp hne _).mpr (hok.port hconnted)
    · have hsock := hok.sock
      rw [statusAfter, if_pos hangs] at hsock
      exact hsock
  · rw [if_neg hangs]
    refine ⟨h, fun hboth => ⟨hboth.1, ?_⟩, fun hok => ⟨hok.port, ?_⟩⟩
    · rw [statusAfter, if_neg hangs]
      exact hboth.2
    · have hsock := hok.sock
      rwa [statusAfter, if_neg hangs] at hsock

theorem Link.Kept.round {s : Cvd} (h : s.toLink.Kept) {round : Round} (hpossible : round.Possible s) :
    ∃ t, step s round = .ok t ∧ (RoundOk s round ∧ t.toLink.Kept ∨ ¬ RoundOk s round ∧ ¬ t.toLink.Coherent) := by
  obtain ⟨hkept, hiff⟩ := h.dispatch hpossible
  refine ⟨_, if_pos hpossible, ?_⟩
  rcases hkept.prepare round.comport round.sock with ⟨hok, hkept'⟩ | ⟨hok, hbad⟩
  · exact .inl ⟨hiff.mp hok, hkept'⟩
  · exact .inr ⟨fun hround => hok (hiff.mpr hround), hbad⟩

theorem start_kept (opened : Finset Nat) (comport_dev : String) : (start opened comport_dev).toLink.Kept where
  opened _ hours := absurd hours (Finset.notMem_empty _)
  registered _ hsome := nomatch hsome
  rest _ hours := absurd hours (Finset.notMem_empty _)
  apart _ hours := absurd hours (Finset.notMem_empty _)
  comport hconnted := nomatch hconnted
  connected hstatus := nomatch hstatus
  connecting hstatus := nomatch hstatus
  disconnect hstatus := nomatch hstatus
  init _ hours := absurd hours (Finset.notMem_empty _)

/-- The converter is right about its descriptors at every `epoll_wait` exactly when every
round is in order. -/
theorem coherent_iff (opened : Finset Nat) (comport_dev : String) (rounds : List Round) :
    Always step (fun s => s.toLink.Coherent) (start opened comport_dev) rounds ↔
      Along step (fun s round => round.Possible s → RoundOk s round) (start opened comport_dev) rounds := by
  refine always_iff_along (fun (s : Cvd) (h : s.toLink.Kept) => h.coherent) (fun s round t h hok ht => ?_) (fun s round h hbad => ?_)
    (start_kept opened comport_dev)
  · have hpossible : round.Possible s := by
      by_contra hno
      rw [step, if_neg hno] at ht
      cases ht
    obtain ⟨t', ht', hround⟩ := h.round hpossible
    cases ht.symm.trans ht'
    exact (hround.resolve_right fun hbroken => hbroken.1 (hok hpossible)).2
  · obtain ⟨hpossible, hround⟩ := Classical.not_imp.mp hbad
    obtain ⟨t, ht, hwhich⟩ := h.round hpossible
    exact ⟨t, ht, (hwhich.resolve_left fun hgood => hround hgood.1).2⟩

def noPort : ComportCalls := ⟨none, false, false, false, false, false⟩

/-- A connection that is refused while in progress, and the next attempt. -/
theorem refused_leaks : ¬ ∀ (opened : Finset Nat) (comport_dev : String) (rounds : List Round),
    Always step (fun s => s.toLink.Coherent) (start opened comport_dev) rounds := by
  intro h
  have hruns := h {0, 1, 2, 3} "/dev/ttyS1"
    [⟨[], noPort, ⟨some [.socket 4 .inProgress], .failed, true⟩⟩, ⟨[], noPort, ⟨none, .failed, true⟩⟩]
  have hlast := ((hruns.2 _ rfl).2 _ rfl).rest 4 (by decide)
  rcases hlast with heq | heq <;> exact absurd heq (by decide)

end Fl2440.Converterd
