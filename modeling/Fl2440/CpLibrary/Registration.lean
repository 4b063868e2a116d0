import Fl2440.CpLibrary.Descriptors
import Fl2440.CpLibrary.Registry

/-! A registration builds one socket. It ends with that socket registered, or
with everything as it was. -/
namespace Fl2440.CpLibrary

open Fl2440.Lib

variable {σ σ' σ'' τ : Sys} {p : SockId} {rv : Int} {head : ListHead} {list : List SockId}

/-! Writing a list and counting its members, for one socket at a time. -/

theorem setRegistry_mem_of_ne (σ : Sys) (list : List SockId) (hne : head ≠ .accept p) :
    (σ.setRegistry head list).mem p = σ.mem p := by
  cases head with
  | client => rfl
  | server => rfl
  | accept serv =>
      have hp : p ≠ serv := by
        rintro rfl
        exact hne rfl
      exact Sys.modify_ne σ (fun s => { s with acceptList := some list }) hp

theorem countAccept_mem_of_ne (σ : Sys) (n : Int) (hne : head ≠ .accept p) :
    (σ.countAccept head n).mem p = σ.mem p := by
  cases head with
  | client => rfl
  | server => rfl
  | accept serv =>
      have hp : p ≠ serv := by
        rintro rfl
        exact hne rfl
      exact Sys.modify_ne σ (fun s => { s with acceptCnt := s.acceptCnt + n }) hp

theorem modify_mem_congr {q : SockId} (h : τ.mem q = σ.mem q) (p : SockId) (f : Sock → Sock) :
    (τ.modify p f).mem q = (σ.modify p f).mem q := by
  by_cases hq : q = p
  · rw [← hq, Sys.modify_same, Sys.modify_same, h]
  · rw [Sys.modify_ne _ _ hq, Sys.modify_ne _ _ hq, h]

theorem setRegistry_mem_congr {q : SockId} (h : τ.mem q = σ.mem q) (head : ListHead)
    (list : List SockId) : (τ.setRegistry head list).mem q = (σ.setRegistry head list).mem q := by
  cases head with
  | client => exact h
  | server => exact h
  | accept serv => exact modify_mem_congr h serv fun s => { s with acceptList := some list }

theorem setRegistry_fds_congr (h : τ.fds = σ.fds) (head : ListHead) (list : List SockId) :
    (τ.setRegistry head list).fds = (σ.setRegistry head list).fds := by
  cases head with
  | client => simp only [Sys.setRegistry, h]
  | server => simp only [Sys.setRegistry, h]
  | accept serv => exact h

theorem countAccept_mem_congr {q : SockId} (h : τ.mem q = σ.mem q) (head : ListHead) (n : Int) :
    (τ.countAccept head n).mem q = (σ.countAccept head n).mem q := by
  cases head with
  | client => exact h
  | server => exact h
  | accept serv => exact modify_mem_congr h serv fun s => { s with acceptCnt := s.acceptCnt + n }

def Sys.listed (σ : Sys) (head : ListHead) (list : List SockId) (p : SockId) : Sys :=
  (σ.setRegistry head (list ++ [p])).countAccept head 1

@[simp] theorem listed_live : (σ.listed head list p).live = σ.live := by
  simp [Sys.listed]

@[simp] theorem listed_kern : (σ.listed head list p).kern = σ.kern := by
  simp [Sys.listed]

theorem listed_unlisted (σ : Sys) (head : ListHead) (list list' : List SockId) (p : SockId) :
    ((σ.listed head list p).countAccept head (-1)).setRegistry head list' =
      σ.setRegistry head list' := by
  cases head with
  | client => rfl
  | server => rfl
  | accept serv =>
      simp only [Sys.listed, Sys.setRegistry, Sys.countAccept, Sys.modify_modify,
        Int.add_neg_cancel_right]

/-- Who only follows pointers to live sockets cannot tell the two apart. -/
structure Same (σ σ' : Sys) : Prop where
  fds : σ'.fds = σ.fds
  live : σ'.live = σ.live
  mem : ∀ q ∈ σ.live, σ'.mem q = σ.mem q
  epoll : σ'.kern.epoll = σ.kern.epoll

theorem Same.refl (σ : Sys) : Same σ σ := ⟨rfl, rfl, fun _ _ => rfl, rfl⟩

/-- One more socket is alive than in `σ`. No queue, slot or descriptor of the
epoll set has to do with it. -/
structure Building (σ σ' : Sys) (p : SockId) : Prop where
  fresh : p ∉ σ.live
  live : σ'.live = insert p σ.live
  fds : σ'.fds = σ.fds
  mem : ∀ q ∈ σ.live, σ'.mem q = σ.mem q
  kern : σ.kern.Obtained σ'.kern (σ'.mem p).fd
  init : (σ'.mem p).flag.init = true
  epolled : (σ'.mem p).flag.epolled = false
  inqueue : (σ'.mem p).flag.inqueue = false
  tasked : (σ'.mem p).flag.tasked = false

theorem Building.mem_live (h : Building σ σ' p) : p ∈ σ'.live := by
  rw [h.live]
  exact Finset.mem_insert_self p σ.live

theorem Building.ne (h : Building σ σ' p) {q : SockId} (hq : q ∈ σ.live) : q ≠ p := by
  rintro rfl
  exact h.fresh hq

theorem Building.of_cpSockInit {malloced : Bool} {os : SockInitOs}
    (h : cpSockInit σ malloced os = (some p, σ')) :
    Building σ σ' p ∧ σ'.mem p = sockBlank malloced os.now := by
  rcases cpSockInit_cases σ malloced os with hnone | ⟨q, hfresh, hsome⟩
  · rw [hnone] at h
    cases h
  · rw [hsome] at h
    cases h
    have hself : Function.update σ.mem p (sockBlank malloced os.now) p =
      sockBlank malloced os.now := Function.update_self ..
    have hunbound : (-1 : Int) ∉ σ.kern.opened := σ.kern.not_mem_of_neg (by omega)
    refine ⟨⟨hfresh, rfl, rfl, fun q hq => ?_, ?_, ?_, ?_, ?_, ?_⟩, hself⟩
    · have hne : q ≠ p := by
        rintro rfl
        exact hfresh hq
      exact Function.update_of_ne hne _ _
    · simp only [hself]
      exact .nothing hunbound
    all_goals simp only [hself]; rfl

theorem Building.modify {f : Sock → Sock} (h : Building σ σ' p)
    (hfd : (f (σ'.mem p)).fd = (σ'.mem p).fd)
    (hinit : (f (σ'.mem p)).flag.init = (σ'.mem p).flag.init)
    (hepolled : (f (σ'.mem p)).flag.epolled = (σ'.mem p).flag.epolled)
    (hinqueue : (f (σ'.mem p)).flag.inqueue = (σ'.mem p).flag.inqueue)
    (htasked : (f (σ'.mem p)).flag.tasked = (σ'.mem p).flag.tasked) :
    Building σ (σ'.modify p f) p where
  fresh := h.fresh
  live := h.live
  fds := h.fds
  mem q hq := by rw [Sys.modify_ne _ _ (h.ne hq), h.mem q hq]
  kern := by rw [Sys.modify_same, hfd]; exact h.kern
  init := by rw [Sys.modify_same, hinit, h.init]
  epolled := by rw [Sys.modify_same, hepolled, h.epolled]
  inqueue := by rw [Sys.modify_same, hinqueue, h.inqueue]
  tasked := by rw [Sys.modify_same, htasked, h.tasked]

theorem Building.registry_eq (h : Building σ σ' p) (hhead : head ≠ .accept p) :
    σ'.registry head = σ.registry head := by
  cases head with
  | client => exact congrArg (fun fds : Fds => Except.ok fds.clientList) h.fds
  | server => exact congrArg (fun fds : Fds => Except.ok fds.serverList) h.fds
  | accept serv =>
      have hserv : serv ≠ p := fun heq => hhead (heq ▸ rfl)
      by_cases hlive : serv ∈ σ.live
      · simp only [Sys.registry, Sys.load, h.live, Finset.mem_insert, hlive, or_true, if_true,
          h.mem serv hlive]
      · simp only [Sys.registry, Sys.load, h.live, Finset.mem_insert, hlive, hserv, or_self, if_false]

structure Listed (σ σ' : Sys) (p : SockId) (head : ListHead) (list : List SockId) : Prop
    extends Building (σ.listed head list p) σ' p where
  registry : σ.registry head = .ok list
  other : head ≠ .accept p
  rlist : (σ'.mem p).rlist = some head
  home : (σ'.mem p).home = some head
  registered : (σ'.mem p).flag.registry = true

theorem Listed.fresh' (h : Listed σ σ' p head list) : p ∉ σ.live := by
  rw [← listed_live]
  exact h.fresh

theorem Building.addSockRegistry (h : Building σ σ' p) (hflag : (σ'.mem p).flag.registry = false)
    (hhome : (σ'.mem p).home ≠ some (.accept p))
    (hcall : cpFdsAddSockRegistry σ' (some p) = .ok (rv, σ'')) :
    (rv ≠ 0 ∧ σ'' = σ') ∨ (rv = 0 ∧ (σ'.mem p).fds = true ∧ ∃ head list,
      (σ'.mem p).home = some head ∧ Listed σ σ'' p head list ∧
        σ''.mem p = { σ'.mem p with rlist := some head, flag.registry := true }) := by
  obtain ⟨_, ⟨rfl, hrv⟩ | ⟨hrv, hfds, _, head, list, hhead, hlist, hσ''⟩⟩ :=
    cpFdsAddSockRegistry_cases hcall
  · refine Or.inl ⟨fun h0 => ?_, rfl⟩
    rw [hrv h0] at hflag
    contradiction
  · have hne : head ≠ .accept p := fun heq => hhome (heq ▸ hhead)
    rw [h.registry_eq hne] at hlist
    have hnew : σ''.mem p = { σ'.mem p with rlist := some head, flag.registry := true } := by
      rw [hσ'', Sys.modify_same, countAccept_mem_of_ne _ _ hne, setRegistry_mem_of_ne _ _ hne]
    refine Or.inr ⟨hrv, hfds, head, list, hhead, ⟨⟨?_, ?_, ?_, fun q hq => ?_, ?_, ?_, ?_, ?_, ?_⟩,
      hlist, hne, ?_, ?_, ?_⟩, hnew⟩
    · rw [listed_live]
      exact h.fresh
    · rw [listed_live, hσ'', Sys.modify_live]
      exact (listed_live (σ := σ')).trans h.live
    · rw [hσ'', Sys.modify_fds, countAccept_fds, Sys.listed, countAccept_fds]
      exact setRegistry_fds_congr h.fds head _
    · rw [listed_live] at hq
      rw [hσ'', Sys.modify_ne _ _ (h.ne hq)]
      exact countAccept_mem_congr (setRegistry_mem_congr (h.mem q hq) head _) head 1
    · have hkern : σ''.kern = σ'.kern := by
        rw [hσ'', Sys.modify_kern]
        exact listed_kern (σ := σ')
      rw [listed_kern, hkern, hnew]
      exact h.kern
    · rw [hnew]; exact h.init
    · rw [hnew]; exact h.epolled
    · rw [hnew]; exact h.inqueue
    · rw [hnew]; exact h.tasked
    · rw [hnew]
    · rw [hnew]; exact hhead
    · rw [hnew]

theorem Building.rewired (h : Building σ σ' p) (hfd : (σ'.mem p).fd = -1)
    (hwired : Rewired σ' σ'' p) : Building σ σ'' p := by
  obtain ⟨fd, mode, status, actvTime, hown⟩ := hwired.own
  have hflag : (σ''.mem p).flag = (σ'.mem p).flag := by rw [hown]
  refine ⟨h.fresh, hwired.live.trans h.live, hwired.fds.trans h.fds, fun q hq => ?_, ?_, ?_, ?_, ?_, ?_⟩
  · rw [hwired.others q (h.ne hq), h.mem q hq]
  · rw [← h.kern.eq_of_neg (by omega)]
    exact hwired.kern
  · rw [hflag, h.init]
  · rw [hflag, h.epolled]
  · rw [hflag, h.inqueue]
  · rw [hflag, h.tasked]

theorem Listed.modify {f : Sock → Sock} (h : Listed σ σ' p head list)
    (hfd : (f (σ'.mem p)).fd = (σ'.mem p).fd) (hflag : (f (σ'.mem p)).flag = (σ'.mem p).flag)
    (hrlist : (f (σ'.mem p)).rlist = (σ'.mem p).rlist)
    (hhome : (f (σ'.mem p)).home = (σ'.mem p).home) : Listed σ (σ'.modify p f) p head list where
  toBuilding := h.toBuilding.modify hfd (congrArg SockFlag.init hflag)
    (congrArg SockFlag.epolled hflag) (congrArg SockFlag.inqueue hflag)
    (congrArg SockFlag.tasked hflag)
  registry := h.registry
  other := h.other
  rlist := by rw [Sys.modify_same, hrlist, h.rlist]
  home := by rw [Sys.modify_same, hhome, h.home]
  registered := by rw [Sys.modify_same, hflag, h.registered]

theorem Listed.rewired (h : Listed σ σ' p head list) (hfd : (σ'.mem p).fd = -1)
    (hwired : Rewired σ' σ'' p) (hmode : (σ''.mem p).mode = (σ'.mem p).mode) :
    Listed σ σ'' p head list := by
  obtain ⟨fd, mode, status, actvTime, hown⟩ := hwired.own
  have hserv : (σ''.mem p).servSock = (σ'.mem p).servSock := by rw [hown]
  refine ⟨h.toBuilding.rewired hfd hwired, h.registry, h.other, ?_, ?_, ?_⟩
  · rw [hown, ← h.rlist]
  · rw [← h.home, Sock.home, Sock.home, hmode, hserv]
  · rw [hown, ← h.registered]

structure Joined (σ σ' : Sys) (p : SockId) (head : ListHead) (list : List SockId) : Prop where
  fresh : p ∉ σ.live
  live : σ'.live = insert p σ.live
  registry : σ.registry head = .ok list
  fds : σ'.fds = { (σ.listed head list p).fds with eventCnt := σ.fds.eventCnt + 1 }
  mem : ∀ q ∈ σ.live, σ'.mem q = (σ.listed head list p).mem q
  room : σ.fds.eventCnt ≤ σ.fds.maxEvent
  free : σ.kern.epoll (σ'.mem p).fd = none
  epoll : σ'.kern.epoll = Function.update σ.kern.epoll (σ'.mem p).fd (some (some p))
  init : (σ'.mem p).flag.init = true
  epolled : (σ'.mem p).flag.epolled = true
  registered : (σ'.mem p).flag.registry = true
  inqueue : (σ'.mem p).flag.inqueue = false
  tasked : (σ'.mem p).flag.tasked = false
  rlist : (σ'.mem p).rlist = some head
  home : (σ'.mem p).home = some head
  member : (σ'.mem p).fds = true

theorem Listed.addEpollEvent {accept : Bool} (h : Listed σ σ' p head list)
    (hcall : cpAddEpollEvent σ' (some p) accept = .ok (rv, σ'')) :
    (∃ event flag, σ''.mem p = { σ'.mem p with event, flag }) ∧
      ((rv ≠ 0 ∧ Listed σ σ'' p head list) ∨
        (rv = 0 ∧ accept = true ∧ (σ'.mem p).fd ∈ σ'.kern.opened ∧
          Joined σ σ'' p head list)) := by
  have hepoll : σ'.kern.epoll = σ.kern.epoll := by
    rw [h.kern.epoll_eq, listed_kern]
  have hfree : σ.kern.epoll (σ'.mem p).fd = none := by
    have hunregistered := h.kern.unregistered
    rwa [listed_kern] at hunregistered
  obtain ⟨_, ⟨rfl, hrv⟩ | ⟨rfl, _, hrv⟩ | ⟨hrv, hmember, _, hroom, kern, hadd, rfl⟩⟩ :=
    cpAddEpollEvent_cases hcall
  · refine ⟨⟨_, _, rfl⟩, Or.inl ⟨fun h0 => ?_, h⟩⟩
    have hepolled := hrv h0
    rw [h.epolled] at hepolled
    contradiction
  · exact ⟨⟨_, _, Sys.modify_same ..⟩, Or.inl ⟨fun h0 => hrv h0 (hepoll ▸ hfree),
      h.modify rfl rfl rfl rfl⟩⟩
  · obtain ⟨hopen, _, haccept, _, hkern⟩ := Kernel.ctlAdd_eq_ok hadd
    have hfds : σ'.fds = (σ.listed head list p).fds := h.fds
    have hcnt : (σ.listed head list p).fds.eventCnt = σ.fds.eventCnt ∧
        (σ.listed head list p).fds.maxEvent = σ.fds.maxEvent := by
      cases head <;> exact ⟨rfl, rfl⟩
    refine ⟨⟨_, _, Sys.modify_same ..⟩, Or.inr ⟨hrv, haccept, hopen, h.fresh', ?_, h.registry, ?_,
      fun q hq => ?_, ?_, ?_, ?_, ?_, ?_, ?_, ?_, ?_, ?_, ?_, ?_⟩⟩
    · rw [Sys.modify_live]
      exact h.live.trans (by rw [listed_live])
    · rw [Sys.modify_fds, ← hcnt.1, ← hfds]
    · have hne : q ≠ p := fun heq => h.fresh' (heq ▸ hq)
      rw [Sys.modify_ne _ _ hne]
      exact h.mem q (by rwa [listed_live])
    · rwa [hfds, hcnt.1, hcnt.2] at hroom
    · rw [Sys.modify_same]
      exact hfree
    · rw [Sys.modify_same, Sys.modify_kern, hkern, hepoll]
    all_goals rw [Sys.modify_same]
    · exact h.init
    · exact h.registered
    · exact h.inqueue
    · exact h.tasked
    · exact h.rlist
    · exact h.home
    · exact hmember

theorem Listed.delSockRegistry (h : Listed σ σ' p head list)
    (hcall : cpFdsDelSockRegistry σ' (some p) = .ok σ'') :
    Building (σ.setRegistry head ((list ++ [p]).erase p)) σ'' p ∧
      (σ''.mem p).fd = (σ'.mem p).fd := by
  obtain ⟨_, ⟨hout, _⟩ | ⟨_, head', list', hlink', hlist', hσ''⟩⟩ := cpFdsDelSockRegistry_cases hcall
  · rw [h.registered] at hout
    contradiction
  · obtain rfl : head = head' := Option.some.inj (h.rlist.symm.trans hlink')
    have hlisted : (σ.listed head list p).registry head = .ok (list ++ [p]) := by
      rw [Sys.listed, countAccept_registry, setRegistry_registry_self h.registry]
    rw [h.registry_eq h.other, hlisted] at hlist'
    obtain rfl : list ++ [p] = list' := Except.ok.inj hlist'
    rw [Sys.uncount, h.home] at hσ''
    have hnew : σ''.mem p = { σ'.mem p with rlist := none, flag.registry := false } := by
      rw [hσ'', Sys.modify_same, setRegistry_mem_of_ne _ _ h.other, countAccept_mem_of_ne _ _ h.other]
    refine ⟨⟨?_, ?_, ?_, fun q hq => ?_, ?_, ?_, ?_, ?_, ?_⟩, by rw [hnew]⟩
    · rw [Sys.setRegistry_live]
      exact h.fresh'
    · rw [hσ'', Sys.modify_live, Sys.setRegistry_live, Sys.setRegistry_live, countAccept_live]
      exact h.live.trans (by rw [listed_live])
    · rw [hσ'', Sys.modify_fds, ← listed_unlisted σ head list _ p]
      exact setRegistry_fds_congr (by rw [countAccept_fds, countAccept_fds, h.fds]) head _
    · rw [Sys.setRegistry_live] at hq
      have hq' : q ∈ (σ.listed head list p).live := by rwa [listed_live]
      rw [hσ'', Sys.modify_ne _ _ (h.ne hq'), ← listed_unlisted σ head list _ p]
      exact setRegistry_mem_congr (countAccept_mem_congr (h.mem q hq') head _) head _
    · have hkern : σ''.kern = σ'.kern := by simp [hσ'']
      rw [Sys.setRegistry_kern, hkern, hnew, ← listed_kern (σ := σ)]
      exact h.kern
    all_goals rw [hnew]
    · exact h.init
    · exact h.epolled
    · exact h.inqueue
    · exact h.tasked

theorem Building.term (h : Building σ σ' p) (hcall : cpSockTerm σ' (some p) = .ok σ'') :
    Same σ σ'' ∧ ((σ'.mem p).fd ≠ 0 → σ''.kern = σ.kern) := by
  obtain ⟨_, hfds, hlive, hmem, hkern⟩ := cpSockTerm_spec hcall
  have hclosed : σ'.kern.close (σ'.mem p).fd = σ.kern := h.kern.close_eq
  refine ⟨⟨hfds.trans h.fds, ?_, fun q hq => ?_, ?_⟩, fun hfd => ?_⟩
  · rw [hlive, h.live, Finset.erase_insert h.fresh]
  · rw [hmem q (h.ne hq), h.mem q hq]
  · rw [hkern]
    split
    · rw [hclosed]
    · exact h.kern.epoll_eq
  · rw [hkern]
    split
    · exact hclosed
    · rename_i hpos
      exact h.kern.eq_of_neg (by have := h.init; simp only [this, true_and] at hpos; omega)

theorem cpFdsDelSockTask_untasked (hlive : p ∈ σ.live) (htasked : (σ.mem p).flag.tasked = false) :
    cpFdsDelSockTask σ (some p) = .ok σ := by
  simp only [cpFdsDelSockTask, Sys.load_of_mem hlive, ok_bind, htasked, Bool.not_false, if_true]
  rfl

/-- What a registration leaves that does not go through: what it found, up to a
list that has had the new socket in it. -/
inductive Undone (σ : Sys) : Sys → Prop
  | unlisted {σ' : Sys} (h : Same σ σ') : Undone σ σ'
  | listed {σ' : Sys} (p : SockId) (head : ListHead) (list : List SockId) (fresh : p ∉ σ.live)
      (hlist : σ.registry head = .ok list)
      (h : Same (σ.setRegistry head ((list ++ [p]).erase p)) σ') : Undone σ σ'

theorem Listed.delSockRegistry_term (h : Listed σ σ' p head list)
    (hdel : cpFdsDelSockRegistry σ' (some p) = .ok σ'') (hterm : cpSockTerm σ'' (some p) = .ok τ) :
    Undone σ τ ∧ ((σ'.mem p).fd ≠ 0 → τ.kern = σ.kern) := by
  obtain ⟨hout, hfd⟩ := h.delSockRegistry hdel
  obtain ⟨hsame, hkern⟩ := hout.term hterm
  refine ⟨.listed p head list h.fresh' h.registry hsame, fun hne => ?_⟩
  rw [hkern (hfd ▸ hne), Sys.setRegistry_kern]

/-! The three calls. `sock` below is what they return. -/

variable {sock : Ptr}

theorem Building.serverTermSock (h : Building σ σ' p) (hcall : serverTermSock σ' p = .ok (sock, σ'')) :
    sock = none ∧ Same σ σ'' := by
  unfold CpLibrary.serverTermSock at hcall
  rw [cpFdsDelSockTask_untasked h.mem_live h.tasked, ok_bind] at hcall
  obtain ⟨τ, hterm, hret⟩ := bind_eq_ok_iff.mp hcall
  cases hret
  exact ⟨rfl, (h.term hterm).1⟩

theorem Listed.serverDelRegist (h : Listed σ σ' p head list)
    (hcall : serverDelRegist σ' p = .ok (sock, σ'')) : sock = none ∧ Undone σ σ'' := by
  obtain ⟨τ, hdel, hret⟩ := bind_eq_ok_iff.mp hcall
  obtain ⟨hsock, hsame⟩ := (h.delSockRegistry hdel).1.serverTermSock hret
  exact ⟨hsock, .listed p head list h.fresh' h.registry hsame⟩

def Sock.config (s : Sock) : Bool × Ptr × Int × Int × Option (List SockId) :=
  (s.fds, s.servSock, s.maxClient, s.acceptCnt, s.acceptList)

def Sock.route (s : Sock) : Option Callback × Option Callback × Option Nat × Ptr × Bool :=
  (s.cbfunc, s.clientFunc, s.privt, s.servSock, s.rbuf.isSome)

theorem cpSockServerRegist_cases {port maxClient : Int} {serviceRoute : Option Callback}
    {data : Option Nat} {os : ServerRegistOs}
    (h : cpSockServerRegist σ port maxClient serviceRoute data os = .ok (sock, σ')) :
    (sock = none ∧ Undone σ σ') ∨
      ∃ p list, sock = some p ∧ os.ctlAdd = true ∧ Joined σ σ' p .server list ∧
        (σ'.mem p).status = .already ∧ (σ'.mem p).mode = .listen ∧
        (σ'.mem p).route = (some .acceptRegist, serviceRoute, data, none, true) ∧
        ∃ clients, 0 ≤ clients ∧ (σ'.mem p).config = (true, none, clients, 0, some []) := by
  unfold cpSockServerRegist at h
  split at h
  · cases h
    exact Or.inl ⟨rfl, .unlisted (.refl σ)⟩
  · split at h
    · rename_i σ₁ hinit
      rcases cpSockInit_cases σ true os.init with hnone | ⟨q, _, hsome⟩
      · rw [hnone] at hinit
        cases hinit
        cases h
        exact Or.inl ⟨rfl, .unlisted (.refl σ)⟩
      · rw [hsome] at hinit
        cases hinit
    · rename_i p σ₁ hinit
      obtain ⟨hblank, hmem₁⟩ := Building.of_cpSockInit hinit
      have hbuilt := hblank.modify (f := fun s => { s with
        acceptList := some [], fds := true, cbfunc := some .acceptRegist, clientFunc := serviceRoute,
        privt := data, mode := .listen }) rfl rfl rfl rfl rfl
      have hmem₂ := Sys.modify_same σ₁ p fun s => { s with
        acceptList := some [], fds := true, cbfunc := some .acceptRegist, clientFunc := serviceRoute,
        privt := data, mode := .listen }
      generalize (σ₁.modify p fun s => { s with
        acceptList := some [], fds := true, cbfunc := some .acceptRegist, clientFunc := serviceRoute,
        privt := data, mode := .listen }) = σ₂ at h hbuilt hmem₂
      rw [hmem₁] at hmem₂
      obtain ⟨⟨rv₂, σ₃⟩, hadd, hret⟩ := bind_eq_ok_iff.mp h
      clear h
      rcases hbuilt.addSockRegistry (by rw [hmem₂]; rfl) (by rw [hmem₂]; simp [Sock.home]) hadd with
        ⟨hrv, rfl⟩ | ⟨rfl, _, head, list, hhome, hlisted, hmem₃⟩
      · simp only [ne_eq, hrv, not_false_eq_true, if_true] at hret
        obtain ⟨hsock, hsame⟩ := hbuilt.serverTermSock hret
        exact Or.inl ⟨hsock, .unlisted hsame⟩
      · rw [hmem₂] at hhome hmem₃
        obtain rfl : ListHead.server = head := Option.some.inj hhome
        simp only [ne_eq, not_true_eq_false, if_false] at hret
        have hclients : 0 ≤ (if maxClient < σ₃.fds.maxEvent then
            (if maxClient ≤ 0 then cpDefMaxClients else maxClient) else cpDefMaxClients) := by
          unfold cpDefMaxClients
          split
          · split <;> omega
          · omega
        generalize (if maxClient < σ₃.fds.maxEvent then
            (if maxClient ≤ 0 then cpDefMaxClients else maxClient) else cpDefMaxClients) =
          clients at hret hclients
        have hlisted₄ := hlisted.modify (f := fun s => { s with maxClient := clients }) rfl rfl rfl rfl
        have hmem₄ := Sys.modify_same σ₃ p fun s => { s with maxClient := clients }
        generalize (σ₃.modify p fun s => { s with maxClient := clients }) = σ₄ at hret hlisted₄ hmem₄
        rw [hmem₃] at hmem₄
        obtain ⟨⟨rv₅, σ₅⟩, hlisten, hret₅⟩ := bind_eq_ok_iff.mp hret
        obtain ⟨hwired, hstat, hmode⟩ := cpSockListen_spec (by rw [hmem₄]; rfl) hlisten
        have hmode₅ := hmode (by rw [hmem₄])
        have hlisted₅ := hlisted₄.rewired (by rw [hmem₄]; rfl) hwired (by rw [hmode₅, hmem₄])
        obtain ⟨fd, mode, status, actvTime, hmem₅⟩ := hwired.own
        by_cases hrv₅ : rv₅ = 0
        · simp only [hrv₅, not_true_eq_false, if_false] at hret₅
          obtain ⟨⟨rv₆, σ₆⟩, hctl, hret₆⟩ := bind_eq_ok_iff.mp hret₅
          obtain ⟨⟨event, flag, hmem₆⟩, ⟨hrv₆, hlisted₆⟩ | ⟨hrv₆, haccept, _, hjoined⟩⟩ :=
            hlisted₅.addEpollEvent hctl
          · simp only [hrv₆, not_false_eq_true, if_true] at hret₆
            exact Or.inl (hlisted₆.serverDelRegist hret₆)
          · simp only [hrv₆, not_true_eq_false, if_false] at hret₆
            cases hret₆
            refine Or.inr ⟨p, list, rfl, haccept, hjoined, ?_, ?_, ?_, clients, hclients, ?_⟩
            · rw [hmem₆]
              exact hstat hrv₅
            · rw [hmem₆]
              exact hmode₅
            · rw [hmem₆, hmem₅, hmem₄]
              rfl
            · rw [hmem₆, hmem₅, hmem₄]
              rfl
        · simp only [hrv₅, not_false_eq_true, if_true] at hret₅
          exact Or.inl (hlisted₅.serverDelRegist hret₅)

theorem acceptExitOut_cases {serv : SockId} {rv' : Int}
    (h : acceptExitOut σ serv rv' = .ok (rv, σ')) : cpFdsDelSockTask σ (some serv) = .ok σ' := by
  obtain ⟨τ, hdel, hret⟩ := bind_eq_ok_iff.mp h
  cases hret
  exact hdel

theorem Listed.acceptDelRegist {serv : SockId} {rv' : Int} (h : Listed σ σ' p head list)
    (hcall : acceptDelRegist σ' serv p rv' = .ok (rv, σ'')) :
    ∃ τ, Undone σ τ ∧ cpFdsDelSockTask τ (some serv) = .ok σ'' ∧
      ((σ'.mem p).fd ≠ 0 → τ.kern = σ.kern) := by
  obtain ⟨σ₁, hdel, hret⟩ := bind_eq_ok_iff.mp hcall
  obtain ⟨τ, hterm, hret⟩ := bind_eq_ok_iff.mp hret
  obtain ⟨hundone, hkern⟩ := h.delSockRegistry_term hdel hterm
  exact ⟨τ, hundone, acceptExitOut_cases hret, hkern⟩

theorem cpSockAcceptRegist_cases {serv : SockId} {os : AcceptRegistOs}
    (h : cpSockAcceptRegist σ (some serv) os = .ok (rv, σ')) :
    serv ∈ σ.live ∧ ((∃ τ, Undone σ τ ∧ cpFdsDelSockTask τ (some serv) = .ok σ' ∧
        ((∀ hint, os.accept.accept = some hint → 0 < hint) → τ.kern = σ.kern)) ∨
      (rv = 0 ∧ os.ctlAdd = true ∧ (σ.mem serv).acceptCnt < (σ.mem serv).maxClient ∧
        ∃ p list, Joined σ σ' p (.accept serv) list ∧ (σ'.mem p).status = .already ∧
          (σ'.mem p).mode = .accept ∧
          (σ'.mem p).route = ((σ.mem serv).clientFunc, none, (σ.mem serv).privt, some serv, true) ∧
          (σ'.mem p).config = (true, some serv, 0, 0, none))) := by
  unfold cpSockAcceptRegist at h
  obtain ⟨s, hload, hbody⟩ := bind_eq_ok_iff.mp h
  clear h
  obtain ⟨hserv, rfl⟩ := load_eq_ok hload
  refine ⟨hserv, ?_⟩
  split at hbody
  · exact Or.inl ⟨σ, .unlisted (.refl σ), acceptExitOut_cases hbody, fun _ => rfl⟩
  · rename_i hroom
    split at hbody
    · rename_i σ₁ hinit
      rcases cpSockInit_cases σ true os.init with hnone | ⟨q, _, hsome⟩
      · rw [hnone] at hinit
        cases hinit
        exact Or.inl ⟨σ, .unlisted (.refl σ), acceptExitOut_cases hbody, fun _ => rfl⟩
      · rw [hsome] at hinit
        cases hinit
    · rename_i p σ₁ hinit
      obtain ⟨hblank, hmem₁⟩ := Building.of_cpSockInit hinit
      have hne : serv ≠ p := hblank.ne hserv
      have hbuilt := hblank.modify (f := fun new => { new with
        servSock := some serv, fds := (σ.mem serv).fds, privt := (σ.mem serv).privt,
        cbfunc := (σ.mem serv).clientFunc, mode := .accept }) rfl rfl rfl rfl rfl
      have hmem₂ := Sys.modify_same σ₁ p fun new => { new with
        servSock := some serv, fds := (σ.mem serv).fds, privt := (σ.mem serv).privt,
        cbfunc := (σ.mem serv).clientFunc, mode := .accept }
      generalize (σ₁.modify p fun new => { new with
        servSock := some serv, fds := (σ.mem serv).fds, privt := (σ.mem serv).privt,
        cbfunc := (σ.mem serv).clientFunc, mode := .accept }) = σ₂ at hbody hbuilt hmem₂
      rw [hmem₁] at hmem₂
      have hhome₂ : (σ₂.mem p).home = some (.accept serv) := by
        rw [hmem₂]
        rfl
      obtain ⟨⟨rv₃, σ₃⟩, hadd, hret⟩ := bind_eq_ok_iff.mp hbody
      clear hbody
      rcases hbuilt.addSockRegistry (by rw [hmem₂]; rfl) (by rw [hhome₂]; simp [hne]) hadd with
        ⟨hrv, rfl⟩ | ⟨rfl, hfds, head, list, hhome, hlisted, hmem₃⟩
      · simp only [ne_eq, hrv, not_false_eq_true, if_true] at hret
        obtain ⟨τ, hterm, hret⟩ := bind_eq_ok_iff.mp hret
        obtain ⟨hsame, hkern⟩ := hbuilt.term hterm
        have hfd : (σ₃.mem p).fd = -1 := by rw [hmem₂]; rfl
        exact Or.inl ⟨τ, .unlisted hsame, acceptExitOut_cases hret, fun _ => hkern (by omega)⟩
      · rw [hhome₂] at hhome
        obtain rfl : ListHead.accept serv = head := Option.some.inj hhome
        rw [hmem₂] at hfds hmem₃
        have hfd : (σ₃.mem p).fd = -1 := by rw [hmem₃]; rfl
        simp only [ne_eq, not_true_eq_false, if_false] at hret
        obtain ⟨⟨rv₄, σ₄⟩, haccept, hret₄⟩ := bind_eq_ok_iff.mp hret
        obtain ⟨hrv₄, rfl⟩ | ⟨hrv₄, hint, hos, hσ₄⟩ := cpSockAccept_cases haccept
        · simp only [hrv₄, not_false_eq_true, if_true] at hret₄
          obtain ⟨τ, hundone, hdel, hkern⟩ := hlisted.acceptDelRegist hret₄
          exact Or.inl ⟨τ, hundone, hdel, fun _ => hkern (by omega)⟩
        · have hmem₄ : σ₄.mem p = { σ₃.mem p with
              fd := σ₃.kern.freshFd hint, mode := .accept, status := .already,
              actvTime := os.accept.now } := by
            rw [hσ₄, Sys.modify_same]
          have hwired : Rewired σ₃ σ₄ p := by
            refine ⟨by rw [hσ₄]; rfl, by rw [hσ₄]; rfl, fun q hq => ?_, ⟨_, _, _, _, hmem₄⟩, ?_⟩
            · rw [hσ₄, Sys.modify_ne _ _ hq]
            · rw [hmem₄, hσ₄]
              exact .opened hint
          have hlisted₄ := hlisted.rewired hfd hwired (by rw [hmem₄, hmem₃])
          have hpositive : (∀ hint, os.accept.accept = some hint → 0 < hint) → 0 < (σ₄.mem p).fd := by
            intro hos'
            rw [hmem₄]
            exact σ₃.kern.freshFd_pos (hos' hint hos)
          simp only [hrv₄, not_true_eq_false, if_false] at hret₄
          obtain ⟨⟨rv₅, σ₅⟩, hctl, hret₅⟩ := bind_eq_ok_iff.mp hret₄
          obtain ⟨⟨event, flag, hmem₅⟩, ⟨hrv₅, hlisted₅⟩ | ⟨hrv₅, haccepted, _, hjoined⟩⟩ :=
            hlisted₄.addEpollEvent hctl
          · simp only [hrv₅, not_false_eq_true, if_true] at hret₅
            obtain ⟨τ, hundone, hdel, hkern⟩ := hlisted₅.acceptDelRegist hret₅
            refine Or.inl ⟨τ, hundone, hdel, fun hos' => hkern ?_⟩
            have hpos := hpositive hos'
            rw [hmem₅]
            exact hpos.ne'
          · simp only [hrv₅, not_true_eq_false, if_false] at hret₅
            cases hret₅
            refine Or.inr ⟨rfl, haccepted, by omega, p, list, hjoined, ?_, ?_, ?_, ?_⟩
            · rw [hmem₅, hmem₄]
            · rw [hmem₅, hmem₄]
            · rw [hmem₅, hmem₄, hmem₃]
              rfl
            · rw [hmem₅, hmem₄, hmem₃]
              exact congrArg (fun fds => (fds, some serv, 0, 0, none)) hfds

theorem Listed.connectDelRegist (h : Listed σ σ' p head list)
    (hcall : connectDelRegist σ' p = .ok (sock, σ'')) : sock = none ∧ Undone σ σ'' :=
  h.serverDelRegist hcall

variable {rport lport : Int} {serviceRoute : Option Callback} {os : ConnectRegistOs}

theorem connectSock_first (h : Building σ σ' p) (hstat : (σ'.mem p).status = .init)
    (hfd : (σ'.mem p).fd = -1) (hflag : (σ'.mem p).flag.registry = false)
    (hcall : connectSock σ' p rport lport serviceRoute os = .ok (sock, σ'')) :
    (sock = none ∧ Undone σ σ'') ∨ (sock = some p ∧ os.ctlAdd = true ∧
      ∃ list, Joined σ σ'' p .client list ∧
        ((σ''.mem p).status = .connecting ∨ (σ''.mem p).status = .already) ∧
        (σ''.mem p).mode = .connect ∧ (σ''.mem p).config = (true, (σ'.mem p).servSock,
          (σ'.mem p).maxClient, (σ'.mem p).acceptCnt, (σ'.mem p).acceptList)) := by
  unfold connectSock at hcall
  obtain ⟨s, hload, hbody⟩ := bind_eq_ok_iff.mp hcall
  clear hcall
  obtain ⟨_, rfl⟩ := load_eq_ok hload
  simp only [hstat, hflag, reduceCtorEq, Bool.false_eq_true, if_false] at hbody
  have hbuilt := h.modify (f := fun s => { s with
    fds := true, cbfunc := serviceRoute, mode := .connect }) rfl rfl rfl rfl rfl
  have hmem₂ := Sys.modify_same σ' p fun s => { s with
    fds := true, cbfunc := serviceRoute, mode := .connect }
  generalize (σ'.modify p fun s => { s with
    fds := true, cbfunc := serviceRoute, mode := .connect }) = σ₂ at hbody hbuilt hmem₂
  have hhome₂ : (σ₂.mem p).home = some .client := by
    rw [hmem₂]
    rfl
  obtain ⟨⟨rv₃, σ₃⟩, hadd, hret⟩ := bind_eq_ok_iff.mp hbody
  clear hbody
  rcases hbuilt.addSockRegistry (by rw [hmem₂]; exact hflag) (by rw [hhome₂]; simp) hadd with
    ⟨hrv, rfl⟩ | ⟨rfl, _, head, list, hhome, hlisted, hmem₃⟩
  · simp only [ne_eq, hrv, not_false_eq_true, if_true] at hret
    obtain ⟨hsock, hsame⟩ := hbuilt.serverTermSock hret
    exact Or.inl ⟨hsock, .unlisted hsame⟩
  · rw [hhome₂] at hhome
    obtain rfl : ListHead.client = head := Option.some.inj hhome
    rw [hmem₂] at hmem₃
    simp only [ne_eq, not_true_eq_false, if_false] at hret
    obtain ⟨⟨rv₄, σ₄⟩, hconnect, hret₄⟩ := bind_eq_ok_iff.mp hret
    have hfd₃ : (σ₃.mem p).fd = -1 := by rw [hmem₃]; exact hfd
    obtain ⟨hwired, hmode, hopened⟩ := cpSockConnect_first (by rw [hmem₃]; exact hstat) hfd₃ hconnect
    have hlisted₄ := hlisted.rewired hfd₃ hwired hmode
    obtain ⟨fd, mode, status, actvTime, hmem₄⟩ := hwired.own
    by_cases hrv₄ : rv₄ = 0
    · simp only [hrv₄, ne_eq, not_true_eq_false, if_false] at hret₄
      obtain ⟨⟨rv₅, σ₅⟩, hctl, hret₅⟩ := bind_eq_ok_iff.mp hret₄
      obtain ⟨⟨event, flag, hmem₅⟩, ⟨hrv₅, hlisted₅⟩ | ⟨hrv₅, haccept, hopen, hjoined⟩⟩ :=
        hlisted₄.addEpollEvent hctl
      · simp only [hrv₅, not_false_eq_true, if_true] at hret₅
        exact Or.inl (hlisted₅.connectDelRegist hret₅)
      · simp only [hrv₅, not_true_eq_false, if_false] at hret₅
        cases hret₅
        refine Or.inr ⟨rfl, haccept, list, hjoined, ?_, ?_, ?_⟩
        · rw [hmem₅]
          exact hopened hopen
        · rw [hmem₅, hmode, hmem₃]
        · rw [hmem₅, hmem₄, hmem₃]
          rfl
    · simp only [hrv₄, ne_eq, not_false_eq_true, if_true] at hret₄
      exact Or.inl (hlisted₄.connectDelRegist hret₄)

theorem connectSock_again (hstat : (σ.mem p).status = .connecting)
    (hflag : (σ.mem p).flag.registry = true) (hepolled : (σ.mem p).flag.epolled = true)
    (hfds : (σ.mem p).fds = true) (hcall : connectSock σ p rport lport serviceRoute os = .ok (sock, σ')) :
    p ∈ σ.live ∧ ((∃ status actvTime, (status = .connecting ∨ status = .already) ∧
        σ' = σ.modify p fun s => { s with status, actvTime }) ∨
      (((σ.mem p).flag.init = false ∨ rport ≤ 0 ∨ os.connect.again = .failed) ∧
        ∃ status, connectDelRegist ({ σ with
          kern := if 0 ≤ (σ.mem p).fd then σ.kern.close (σ.mem p).fd else σ.kern }.modify p
            fun s => { s with status }) p = .ok (sock, σ'))) := by
  unfold connectSock at hcall
  obtain ⟨s, hload, hbody⟩ := bind_eq_ok_iff.mp hcall
  clear hcall
  obtain ⟨hlive, rfl⟩ := load_eq_ok hload
  refine ⟨hlive, ?_⟩
  simp only [hstat, hflag, reduceCtorEq, if_true, if_false] at hbody
  obtain ⟨⟨rv, τ⟩, hconnect, hret⟩ := bind_eq_ok_iff.mp hbody
  rcases cpSockConnect_again hstat hconnect with
    ⟨hrv, status, actvTime, hstatus, rfl⟩ | ⟨hrv, hwhy, status, rfl⟩
  · simp only [hrv, ne_eq, not_true_eq_false, if_false] at hret
    obtain ⟨τ, hτ⟩ : ∃ τ, τ = σ.modify p fun s => { s with status, actvTime } := ⟨_, rfl⟩
    rw [← hτ, cpAddEpollEvent_epolled (by rw [hτ]; exact hlive)
      (by rw [hτ, Sys.modify_same]; exact hfds) (by rw [hτ, Sys.modify_same]; exact hepolled)] at hret
    cases hret
    exact Or.inl ⟨status, actvTime, hstatus, hτ⟩
  · simp only [hrv, ne_eq, not_false_eq_true, if_true] at hret
    refine Or.inr ⟨?_, status, hret⟩
    simpa using hwhy

end Fl2440.CpLibrary
