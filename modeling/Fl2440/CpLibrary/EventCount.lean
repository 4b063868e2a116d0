import Fl2440.CpLibrary.EpollSet
import Fl2440.CpLibrary.Registration

/-! `event_cnt` against the sockets that are registered. The counter is changed
where the epoll set is; a socket that goes away in between takes its count along. -/
namespace Fl2440.CpLibrary

open Fl2440.Lib

variable {σ σ' τ : Sys} {p : SockId} {sock : Ptr} {rv : Int} {on : Finset SockId} {n : Nat}

structure Sock.Idle (s : Sock) : Prop where
  fds : s.fds = false
  epolled : s.flag.epolled = false
  registry : s.flag.registry = false
  status : s.status = .init
  fd : s.fd = -1

structure Sock.Active (s : Sock) : Prop where
  fds : s.fds = true
  epolled : s.flag.epolled = true
  registry : s.flag.registry = true
  status : s.status = .connecting ∨ s.status = .already

def Sock.footing (s : Sock) : Bool × Bool × Bool × Bool × SockStat × Int :=
  (s.flag.init, s.fds, s.flag.epolled, s.flag.registry, s.status, s.fd)

def Sock.Settled (s : Sock) : Prop := s.flag.init = true ∧ (s.Idle ∨ s.Active)

theorem footing_eq_iff {s t : Sock} : t.footing = s.footing ↔
    t.flag.init = s.flag.init ∧ t.fds = s.fds ∧ t.flag.epolled = s.flag.epolled ∧
      t.flag.registry = s.flag.registry ∧ t.status = s.status ∧ t.fd = s.fd := by
  simp only [Sock.footing, Prod.mk.injEq]

theorem Sock.Settled.congr {s t : Sock} (h : s.Settled) (hfooting : t.footing = s.footing) :
    t.Settled := by
  obtain ⟨hinit, hfds, hepolled, hregistry, hstatus, hfd⟩ := footing_eq_iff.mp hfooting
  refine ⟨hinit.trans h.1, h.2.imp (fun hidle => ⟨?_, ?_, ?_, ?_, ?_⟩) fun hactive => ⟨?_, ?_, ?_, ?_⟩⟩
  · rw [hfds, hidle.fds]
  · rw [hepolled, hidle.epolled]
  · rw [hregistry, hidle.registry]
  · rw [hstatus, hidle.status]
  · rw [hfd, hidle.fd]
  · rw [hfds, hactive.fds]
  · rw [hepolled, hactive.epolled]
  · rw [hregistry, hactive.registry]
  · rw [hstatus]
    exact hactive.status

def Sys.epolled (σ : Sys) (on : Finset SockId) : Finset SockId :=
  on.filter fun p => (σ.mem p).flag.epolled = true

/-- The books of the context: `n` registrations were lost with their socket, all
others are those of the sockets in `on`. -/
structure Ledger (σ : Sys) (on : Finset SockId) (n : Nat) : Prop extends EpollOk σ on where
  count : σ.fds.eventCnt = (σ.epolled on).card + n
  settled : ∀ p ∈ on, (σ.mem p).Settled
  ready : ∀ p ∈ on, (σ.mem p).flag.inqueue = true → (σ.mem p).fds = true ∧ (σ.mem p).status = .already

theorem epolled_congr (hmem : ∀ p ∈ on, (τ.mem p).flag.epolled = (σ.mem p).flag.epolled) :
    τ.epolled on = σ.epolled on :=
  Finset.filter_congr fun p hp => by rw [hmem p hp]

theorem Ledger.congr (h : Ledger σ on n) (hkern : τ.kern.epoll = σ.kern.epoll)
    (hcnt : τ.fds.eventCnt = σ.fds.eventCnt) (hmem : ∀ p ∈ on, (τ.mem p).footing = (σ.mem p).footing)
    (hqueue : ∀ p ∈ on, (τ.mem p).flag.inqueue = true → (σ.mem p).flag.inqueue = true ∨
      ((σ.mem p).fds = true ∧ (σ.mem p).status = .already)) : Ledger τ on n where
  toEpollOk := h.toEpollOk.congr hkern fun p hp =>
    have hfooting := footing_eq_iff.mp (hmem p hp)
    ⟨hfooting.2.2.1, hfooting.2.2.2.2.2⟩
  count := by
    rw [hcnt, epolled_congr fun p hp => (footing_eq_iff.mp (hmem p hp)).2.2.1]
    exact h.count
  settled p hp := (h.settled p hp).congr (hmem p hp)
  ready p hp hin := by
    obtain ⟨_, hfds, _, _, hstatus, _⟩ := footing_eq_iff.mp (hmem p hp)
    rw [hfds, hstatus]
    exact (hqueue p hp hin).elim (h.ready p hp) id

theorem Ledger.congr_view (h : Ledger σ on n)
    (hview : τ.view (·.eventCnt) (fun s => (s.footing, s.flag.inqueue)) =
      σ.view (·.eventCnt) (fun s => (s.footing, s.flag.inqueue)) ∧ τ.kern = σ.kern) :
    Ledger τ on n := by
  obtain ⟨hcnt, _, hmem⟩ := Sys.view_eq_iff.mp hview.1
  refine h.congr (congrArg Kernel.epoll hview.2) hcnt (fun p _ => (Prod.mk.inj (hmem p)).1) ?_
  exact fun p _ hin => Or.inl ((Prod.mk.inj (hmem p)).2 ▸ hin)

theorem Ledger.frame (h : Ledger σ σ.live n)
    (hview : τ.view (·.eventCnt) (fun s => (s.footing, s.flag.inqueue)) =
      σ.view (·.eventCnt) (fun s => (s.footing, s.flag.inqueue)) ∧ τ.kern = σ.kern) :
    Ledger τ τ.live n := by
  rw [Sys.live_of_view hview.1]
  exact h.congr_view hview

theorem Ledger.progress {f : Sock → Sock} (h : Ledger σ on n)
    (hkeep : (f (σ.mem p)).flag = (σ.mem p).flag ∧ (f (σ.mem p)).fds = (σ.mem p).fds ∧
      (f (σ.mem p)).fd = (σ.mem p).fd)
    (hold : (σ.mem p).status = .connecting) (hepolled : (σ.mem p).flag.epolled = true)
    (hnew : (f (σ.mem p)).status = .connecting ∨ (f (σ.mem p)).status = .already) :
    Ledger (σ.modify p f) on n := by
  obtain ⟨hflag, hfds, hfd⟩ := hkeep
  have hepolls : ∀ q, ((σ.modify p f).mem q).flag.epolled = (σ.mem q).flag.epolled :=
    σ.modify_field p f (·.flag.epolled) (by rw [hflag])
  refine ⟨h.toEpollOk.congr rfl fun q _ => ⟨hepolls q, σ.modify_field p f (·.fd) hfd q⟩, ?_,
    fun q hq => ?_, fun q hq hin => ?_⟩
  · rw [epolled_congr fun q _ => hepolls q]
    exact h.count
  · by_cases hqp : q = p
    · subst hqp
      rw [Sys.modify_same]
      obtain ⟨hinit, hidle | hactive⟩ := h.settled q hq
      · rw [hidle.epolled] at hepolled
        contradiction
      · exact ⟨hflag ▸ hinit, Or.inr ⟨hfds ▸ hactive.fds, hflag ▸ hactive.epolled,
          hflag ▸ hactive.registry, hnew⟩⟩
    · rw [Sys.modify_ne _ _ hqp]
      exact h.settled q hq
  · by_cases hqp : q = p
    · subst hqp
      rw [Sys.modify_same, hflag] at hin
      rw [(h.ready q hq hin).2] at hold
      contradiction
    · rw [Sys.modify_ne _ _ hqp] at hin ⊢
      exact h.ready q hq hin

theorem Ledger.erase_unregistered (h : Ledger σ on n) (hflag : (σ.mem p).flag.epolled = false) :
    Ledger σ (on.erase p) n where
  toEpollOk := h.toEpollOk.erase_unregistered hflag
  count := by
    rw [h.count]
    congr 3
    unfold Sys.epolled
    rw [Finset.filter_erase, Finset.erase_eq_of_notMem]
    simp [hflag]
  settled q hq := h.settled q (Finset.mem_of_mem_erase hq)
  ready q hq := h.ready q (Finset.mem_of_mem_erase hq)

/-! The calls that end in taking a socket out of the books. -/

/-- The entry of a socket goes from the kernel. If the counter stays as it is,
one registration more is lost. -/
theorem Ledger.unregister {m : Nat} (h : Ledger σ on n) (hp : p ∈ on)
    (hflag : (σ.mem p).flag.epolled = true) (hkeep : ∀ q, q ≠ p → τ.mem q = σ.mem q)
    (hkern : τ.kern.epoll = Function.update σ.kern.epoll (σ.mem p).fd none)
    (hcnt : τ.fds.eventCnt + 1 + n = σ.fds.eventCnt + m) : Ledger τ (on.erase p) m where
  toEpollOk := h.toEpollOk.unregister (fun q hq => by rw [hkeep q hq]; exact ⟨rfl, rfl⟩) hp hflag hkern
  count := by
    have hsame : τ.epolled (on.erase p) = σ.epolled (on.erase p) :=
      epolled_congr fun q hq => by rw [hkeep q (Finset.ne_of_mem_erase hq)]
    have hmem : p ∈ σ.epolled on := Finset.mem_filter.mpr ⟨hp, hflag⟩
    have hpos := Finset.card_pos.mpr ⟨p, hmem⟩
    have hcount := h.count
    have herase : σ.epolled (on.erase p) = (σ.epolled on).erase p := Finset.filter_erase ..
    rw [hsame, herase, Finset.card_erase_of_mem hmem]
    omega
  settled q hq := by
    rw [hkeep q (Finset.ne_of_mem_erase hq)]
    exact h.settled q (Finset.mem_of_mem_erase hq)
  ready q hq := by
    rw [hkeep q (Finset.ne_of_mem_erase hq)]
    exact h.ready q (Finset.mem_of_mem_erase hq)

theorem Ledger.delEpollEvent (h : Ledger σ on n) (hp : p ∈ on)
    (hcall : cpDelEpollEvent σ (some p) = .ok σ') :
    Ledger σ' (on.erase p) n ∧ σ'.kern.epoll (σ'.mem p).fd = none := by
  obtain ⟨_, ⟨hout, rfl⟩ | ⟨hflag, hfds, rfl⟩⟩ := cpDelEpollEvent_cases hcall
  · obtain ⟨_, hidle | hactive⟩ := h.settled p hp
    · refine ⟨h.erase_unregistered hidle.epolled, σ'.kern.registered _ ?_⟩
      exact σ'.kern.not_mem_of_neg (by rw [hidle.fd]; omega)
    · rw [hactive.epolled, hactive.fds] at hout
      simp at hout
  · refine ⟨h.unregister hp hflag (fun q hq => Sys.modify_ne _ _ hq) rfl ?_, ?_⟩
    · rw [Sys.modify_fds]
      simp only
      omega
    · rw [Sys.modify_same, Sys.modify_kern]
      exact Function.update_self ..

/-- The descriptor of a registered socket is closed under it, and the entry of
the socket in the epoll set goes, but the counter is not told. -/
theorem Ledger.lose (h : Ledger σ on n) (hp : p ∈ on) (hflag : (σ.mem p).flag.epolled = true)
    (status : SockStat) (hτ : τ = { σ with
      kern := if 0 ≤ (σ.mem p).fd then σ.kern.close (σ.mem p).fd else σ.kern }.modify p
        fun s => { s with status }) :
    Ledger τ (on.erase p) (n + 1) ∧ τ.kern.epoll (τ.mem p).fd = none := by
  have hfd : 0 ≤ (σ.mem p).fd := by
    by_contra hneg
    have hentry := h.flag p hp hflag
    rw [σ.kern.registered _ (σ.kern.not_mem_of_neg (by omega))] at hentry
    contradiction
  rw [if_pos hfd] at hτ
  subst hτ
  refine ⟨h.unregister hp hflag (fun q hq => Sys.modify_ne _ _ hq) rfl ?_, ?_⟩
  · rw [Sys.modify_fds]
    push_cast
    omega
  · rw [Sys.modify_same, Sys.modify_kern]
    exact Function.update_self ..

theorem Ledger.delSockRegistry (h : Ledger σ on n) (hp : p ∉ on)
    (hcall : cpFdsDelSockRegistry σ (some p) = .ok σ') : Ledger σ' on n := by
  have hview : σ'.view (·.eventCnt) (fun _ => ()) = σ.view _ _ ∧ σ'.kern = σ.kern :=
    cpFdsDelSockRegistry_view hcall (fun _ _ _ => rfl) fun _ _ _ _ _ => rfl
  have hne : ∀ q ∈ on, q ≠ p := by
    rintro q hq rfl
    exact hp hq
  have hfooting : ∀ q ∈ on, (σ'.mem q).footing = (σ.mem q).footing := fun q hq =>
    cpFdsDelSockRegistry_others hcall (hne q hq) fun _ _ _ => rfl
  have hqueue : ∀ q ∈ on, (σ'.mem q).flag = (σ.mem q).flag := fun q hq =>
    cpFdsDelSockRegistry_others hcall (hne q hq) fun _ _ _ => rfl
  exact h.congr (congrArg Kernel.epoll hview.2) (Sys.view_eq_iff.mp hview.1).1 hfooting
    fun q hq hin => Or.inl (hqueue q hq ▸ hin)

theorem Ledger.delSockTask (h : Ledger σ on n) (hcall : cpFdsDelSockTask σ sock = .ok σ') :
    Ledger σ' on n :=
  h.congr_view (cpFdsDelSockTask_view hcall (fun _ _ => rfl) fun _ _ _ _ => rfl)

theorem Ledger.term (h : Ledger σ on n) (hp : p ∉ on) (hfree : σ.kern.epoll (σ.mem p).fd = none)
    (hcall : cpSockTerm σ (some p) = .ok σ') : Ledger σ' on n := by
  obtain ⟨_, hfds, _, hmem, hkern⟩ := cpSockTerm_spec hcall
  have hkeep : ∀ q ∈ on, σ'.mem q = σ.mem q := by
    intro q hq
    refine hmem q ?_
    rintro rfl
    exact hp hq
  refine h.congr ?_ (by rw [hfds]) (fun q hq => by rw [hkeep q hq])
    fun q hq hin => Or.inl (hkeep q hq ▸ hin)
  rw [hkern]
  split
  · exact Kernel.close_epoll hfree
  · rfl

theorem Ledger.sockRmqueue {data : Ptr} (h : Ledger σ on n)
    (hcall : cpFdsSockRmqueue σ sock = .ok (data, σ')) : Ledger σ' on n := by
  cases sock with
  | none => cases hcall; exact h
  | some p =>
      obtain ⟨_, ⟨_, rfl⟩ | ⟨_, _, rfl⟩⟩ := cpFdsSockRmqueue_cases hcall
      · exact h
      · refine h.congr rfl rfl (fun q _ => ?_) fun q _ hin => ?_
        · exact Sys.modify_field _ p _ Sock.footing rfl q
        · by_cases hq : q = p
          · subst hq
            rw [Sys.modify_same] at hin
            contradiction
          · rw [Sys.modify_ne _ _ hq] at hin
            exact Or.inl hin

theorem Ledger.destroySock (h : Ledger σ σ.live n) (hcall : cpFdsDestroySock σ sock = .ok σ') :
    Ledger σ' σ'.live n := by
  obtain ⟨σ₁, data, σ₂, σ₃, σ₄, h₁, h₂, h₃, h₄, h₅⟩ := cpFdsDestroySock_cases hcall
  cases sock with
  | none =>
      cases h₁
      cases h₂
      cases h₃
      cases h₄
      cases h₅
      exact h
  | some p =>
      have hlive₂ : σ₂.live = σ.live := by
        have hview₁ : σ₁.view (fun _ => ()) (fun _ => ()) = σ.view _ _ :=
          (cpFdsDelSockTask_view h₁ (fun _ _ => rfl) fun _ _ _ _ => rfl).1
        have hview₂ : σ₂.view (fun _ => ()) (fun _ => ()) = σ₁.view _ _ :=
          (cpFdsSockRmqueue_view h₂ (fun _ _ => rfl) fun _ _ => rfl).1
        exact (Sys.view_eq_iff.mp (hview₂.trans hview₁)).2.1
      have hp : p ∈ σ.live := (cpFdsDelSockTask_cases h₁).1
      obtain ⟨hledger₃, hfree₃⟩ := ((h.delSockTask h₁).sockRmqueue h₂).delEpollEvent hp h₃
      have hledger₄ := hledger₃.delSockRegistry (Finset.notMem_erase p _) h₄
      have hview₄ : σ₄.view (fun _ => ()) (·.fd) = σ₃.view _ _ ∧ σ₄.kern = σ₃.kern :=
        cpFdsDelSockRegistry_view h₄ (fun _ _ _ => rfl) fun _ _ _ _ _ => rfl
      obtain ⟨_, hlive₄, hfd₄⟩ := Sys.view_eq_iff.mp hview₄.1
      have hview₃ : σ₃.view (fun _ => ()) (fun _ => ()) = σ₂.view _ _ :=
        cpDelEpollEvent_view h₃ (fun _ _ => rfl) fun _ _ => rfl
      have hlive : σ'.live = σ.live.erase p := by
        rw [(cpSockTerm_spec h₅).2.2.1, hlive₄, (Sys.view_eq_iff.mp hview₃).2.1, hlive₂]
      rw [hlive]
      refine hledger₄.term (Finset.notMem_erase p _) ?_ h₅
      rw [hview₄.2, hfd₄]
      exact hfree₃

/-! The calls that put one into the books, or try to. -/

theorem sockBlank_idle (malloced : Bool) (now : ULong) : (sockBlank malloced now).Idle :=
  ⟨rfl, rfl, rfl, rfl, rfl⟩

theorem Ledger.insert_idle (h : Ledger σ on n) (hkern : τ.kern.epoll = σ.kern.epoll)
    (hcnt : τ.fds.eventCnt = σ.fds.eventCnt) (hmem : ∀ q ∈ on, τ.mem q = σ.mem q)
    (hinit : (τ.mem p).flag.init = true) (hidle : (τ.mem p).Idle)
    (hin : (τ.mem p).flag.inqueue = false) : Ledger τ (insert p on) n where
  toEpollOk := by
    refine EpollOk.insert_unregistered (h.toEpollOk.congr hkern fun q hq => ?_) hidle.epolled
    rw [hmem q hq]
    exact ⟨rfl, rfl⟩
  count := by
    have hsame : τ.epolled (insert p on) = σ.epolled on := by
      unfold Sys.epolled
      rw [Finset.filter_insert, if_neg (by rw [hidle.epolled]; simp)]
      exact epolled_congr fun q hq => by rw [hmem q hq]
    rw [hsame, hcnt, h.count]
  settled q hq := by
    rcases Finset.mem_insert.mp hq with rfl | hq
    · exact ⟨hinit, Or.inl hidle⟩
    · rw [hmem q hq]
      exact h.settled q hq
  ready q hq := by
    rcases Finset.mem_insert.mp hq with rfl | hq
    · rw [hin]
      exact fun h => nomatch h
    · rw [hmem q hq]
      exact h.ready q hq

theorem Ledger.same (h : Ledger σ σ.live n) (hsame : Same σ τ) : Ledger τ τ.live n := by
  rw [hsame.live]
  exact h.congr hsame.epoll (by rw [hsame.fds]) (fun q hq => by rw [hsame.mem q hq])
    fun q hq hin => Or.inl (hsame.mem q hq ▸ hin)

theorem Ledger.setRegistry (h : Ledger σ on n) (head : ListHead) (list : List SockId) :
    Ledger (σ.setRegistry head list) on n := by
  refine h.congr_view ⟨?_, Sys.setRegistry_kern ..⟩
  exact Sys.setRegistry_view σ head list _ _ (fun _ _ _ => rfl) fun _ _ => rfl

theorem Ledger.undone (h : Ledger σ σ.live n) (hundone : Undone σ τ) : Ledger τ τ.live n := by
  cases hundone with
  | unlisted hsame => exact h.same hsame
  | listed p head list _ _ hsame =>
      refine Ledger.same ?_ hsame
      rw [Sys.setRegistry_live]
      exact h.setRegistry head _

theorem Joined.others {head : ListHead} {list : List SockId} {β : Type} (h : Joined σ σ' p head list)
    (field : Sock → β) (hfield : ∀ s acceptList acceptCnt, field { s with acceptList, acceptCnt } = field s)
    {q : SockId} (hq : q ∈ σ.live) : field (σ'.mem q) = field (σ.mem q) := by
  rw [h.mem q hq, Sys.listed,
    countAccept_field _ head 1 field fun s acceptCnt => hfield s s.acceptList acceptCnt]
  exact σ.setRegistry_field head _ field (fun s list => hfield s list s.acceptCnt) q

theorem Ledger.joined {head : ListHead} {list : List SockId} (h : Ledger σ σ.live n)
    (hjoined : Joined σ σ' p head list)
    (hstatus : (σ'.mem p).status = .connecting ∨ (σ'.mem p).status = .already) :
    Ledger σ' σ'.live n := by
  have hne : ∀ q ∈ σ.live, q ≠ p := by
    rintro q hq rfl
    exact hjoined.fresh hq
  have hfooting : ∀ q ∈ σ.live, (σ'.mem q).footing = (σ.mem q).footing := fun q hq =>
    hjoined.others Sock.footing (fun _ _ _ => rfl) hq
  have hflag : ∀ q ∈ σ.live, (σ'.mem q).flag = (σ.mem q).flag := fun q hq =>
    hjoined.others (·.flag) (fun _ _ _ => rfl) hq
  have hcnt : (σ.listed head list p).fds.eventCnt = σ.fds.eventCnt := by
    cases head <;> rfl
  rw [hjoined.live]
  refine ⟨h.toEpollOk.register (fun q hq _ => ?_) (fun hp => absurd hp hjoined.fresh)
    hjoined.epolled hjoined.free hjoined.epoll, ?_, fun q hq => ?_, fun q hq => ?_⟩
  · have hboth := footing_eq_iff.mp (hfooting q hq)
    exact ⟨hboth.2.2.1, hboth.2.2.2.2.2⟩
  · have hsame : σ'.epolled (insert p σ.live) = insert p (σ.epolled σ.live) := by
      unfold Sys.epolled
      rw [Finset.filter_insert, if_pos hjoined.epolled]
      exact congrArg (insert p) (epolled_congr fun q hq => by rw [hflag q hq])
    have hnew : p ∉ σ.epolled σ.live := fun hp => hjoined.fresh (Finset.mem_filter.mp hp).1
    have hcount := h.count
    rw [hsame, Finset.card_insert_of_notMem hnew, hjoined.fds]
    push_cast
    omega
  · rcases Finset.mem_insert.mp hq with rfl | hq
    · exact ⟨hjoined.init, Or.inr ⟨hjoined.member, hjoined.epolled, hjoined.registered, hstatus⟩⟩
    · exact (h.settled q hq).congr (hfooting q hq)
  · rcases Finset.mem_insert.mp hq with rfl | hq
    · rw [hjoined.inqueue]
      exact fun h => nomatch h
    · obtain ⟨_, hfds, _, _, hstat, _⟩ := footing_eq_iff.mp (hfooting q hq)
      rw [hflag q hq, hfds, hstat]
      exact h.ready q hq

/-- The socket of a first connect: a new one, or one that the caller brings and
that counts as taken out until it is registered. -/
inductive Offered (σ : Sys) (p : SockId) : Sys → Sock → Prop
  | fresh (hp : p ∉ σ.live) (now : ULong) : Offered σ p σ (sockBlank true now)
  | given (hp : p ∈ σ.live) (hidle : (σ.mem p).Idle) : Offered σ p (σ.free p) (σ.mem p)

theorem Ledger.offered {s : Sock} (h : Ledger σ σ.live n) (hoffered : Offered σ p τ s) :
    Ledger τ τ.live n := by
  cases hoffered with
  | fresh => exact h
  | given hp hidle =>
      exact (h.erase_unregistered hidle.epolled).congr rfl rfl (fun _ _ => rfl) fun _ _ => Or.inl

inductive ConnectOutcome (σ : Sys) (sock : Ptr) (raddr : Bool) (rport : Int)
    (os : ConnectRegistOs) (ret : Ptr) : Sys → Prop
  | nothing : ConnectOutcome σ sock raddr rport os ret σ
  | failed (p : SockId) (τ σ' : Sys) (s : Sock) (hoffered : Offered σ p τ s)
      (hundone : Undone τ σ') : ConnectOutcome σ sock raddr rport os ret σ'
  | joined (p : SockId) (τ σ' : Sys) (s : Sock) (list : List SockId) (hoffered : Offered σ p τ s)
      (hfirst : ∀ q, sock = some q → (σ.mem q).Idle) (hret : ret = some p) (hctl : os.ctlAdd = true) (hjoined : Joined τ σ' p .client list)
      (hstatus : (σ'.mem p).status = .connecting ∨ (σ'.mem p).status = .already)
      (hmode : (σ'.mem p).mode = .connect)
      (hconfig : (σ'.mem p).config = (true, s.servSock, s.maxClient, s.acceptCnt, s.acceptList)) :
      ConnectOutcome σ sock raddr rport os ret σ'
  | progressed (p : SockId) (status : SockStat) (actvTime : ULong)
      (hlive : p ∈ σ.live) (hold : (σ.mem p).status = .connecting) (hactive : (σ.mem p).Active)
      (hnew : status = .connecting ∨ status = .already) :
      ConnectOutcome σ sock raddr rport os ret (σ.modify p fun s => { s with status, actvTime })
  | lost (p : SockId) (status : SockStat) (τ σ' : Sys) (hsock : sock = some p)
      (hlive : p ∈ σ.live) (hold : (σ.mem p).status = .connecting) (hactive : (σ.mem p).Active)
      (hguard : raddr = true ∧ 0 ≤ rport) (hwhy : rport ≤ 0 ∨ os.connect.again = .failed)
      (hτ : τ = { σ with
        kern := if 0 ≤ (σ.mem p).fd then σ.kern.close (σ.mem p).fd else σ.kern }.modify p
          fun s => { s with status })
      (hdel : connectDelRegist τ p = .ok (ret, σ')) : ConnectOutcome σ sock raddr rport os ret σ'

theorem Building.of_idle (hp : p ∈ σ.live) (hsettled : (σ.mem p).Settled) (hidle : (σ.mem p).Idle)
    (hin : (σ.mem p).flag.inqueue = false) (htasked : (σ.mem p).flag.tasked = false) :
    Building (σ.free p) σ p where
  fresh := Finset.notMem_erase p _
  live := (Finset.insert_erase hp).symm
  fds := rfl
  mem _ _ := rfl
  kern := .nothing (σ.kern.not_mem_of_neg (by rw [hidle.fd]; omega))
  init := hsettled.1
  epolled := hidle.epolled
  inqueue := hin
  tasked := htasked

theorem Ledger.connectRegist_cases {raddr : Bool} {rport lport : Int} {serviceRoute : Option Callback}
    {os : ConnectRegistOs} {ret : Ptr} (h : Ledger σ σ.live n)
    (htasked : ∀ p ∈ σ.live, (σ.mem p).flag.tasked = true → (σ.mem p).fds = true)
    (hcall : cpSockConnectRegist σ sock raddr rport lport serviceRoute os = .ok (ret, σ')) :
    ConnectOutcome σ sock raddr rport os ret σ' := by
  unfold cpSockConnectRegist at hcall
  split at hcall
  · cases hcall
    exact .nothing
  · rename_i hguard
    simp only [Bool.or_eq_true, Bool.not_eq_eq_eq_not, Bool.not_true, decide_eq_true_eq, not_or,
      Bool.not_eq_false, not_lt] at hguard
    cases sock with
    | none =>
        simp only at hcall
        split at hcall
        · rename_i σ₁ hinit
          rcases cpSockInit_cases σ true os.init with hnone | ⟨q, _, hsome⟩
          · rw [hnone] at hinit
            cases hinit
            cases hcall
            exact .nothing
          · rw [hsome] at hinit
            cases hinit
        · rename_i p σ₁ hinit
          obtain ⟨hblank, hmem⟩ := Building.of_cpSockInit hinit
          have hoffered : Offered σ p σ (sockBlank true os.init.now) := .fresh hblank.fresh _
          rcases connectSock_first hblank (by rw [hmem]; rfl) (by rw [hmem]; rfl)
            (by rw [hmem]; rfl) hcall with
            ⟨_, hundone⟩ | ⟨hsock, hctl, list, hjoined, hstatus, hmode, hconfig⟩
          · exact .failed p σ σ' _ hoffered hundone
          · rw [hmem] at hconfig
            exact .joined p σ σ' _ list hoffered (fun q hq => nomatch hq) hsock hctl hjoined hstatus hmode hconfig
    | some p =>
        have hret : connectSock σ p rport lport serviceRoute os = .ok (ret, σ') := hcall
        obtain ⟨s, hload, _⟩ := bind_eq_ok_iff.mp hret
        obtain ⟨hp, _⟩ := load_eq_ok hload
        obtain ⟨hinit, hidle | hactive⟩ := h.settled p hp
        · have hin : (σ.mem p).flag.inqueue = false := by
            by_contra hin
            have hready := h.ready p hp (by simpa using hin)
            rw [hidle.fds] at hready
            simp at hready
          have huntasked : (σ.mem p).flag.tasked = false := by
            by_contra ht
            have hfds := htasked p hp (by simpa using ht)
            rw [hidle.fds] at hfds
            contradiction
          have hbuilt := Building.of_idle hp ⟨hinit, Or.inl hidle⟩ hidle hin huntasked
          rcases connectSock_first hbuilt hidle.status hidle.fd hidle.registry hret with
            ⟨_, hundone⟩ | ⟨hsock, hctl, list, hjoined, hstatus, hmode, hconfig⟩
          · exact .failed p _ σ' _ (.given hp hidle) hundone
          · refine .joined p _ σ' _ list (.given hp hidle) (fun q hq => ?_) hsock hctl hjoined hstatus
              hmode hconfig
            cases hq
            exact hidle
        · rcases hactive.status with hconnecting | halready
          · obtain ⟨_, ⟨status, actvTime, hnew, rfl⟩ | ⟨hwhy, status, hdel⟩⟩ :=
              connectSock_again hconnecting hactive.registry hactive.epolled hactive.fds hret
            · exact .progressed p status actvTime hp hconnecting hactive hnew
            · refine .lost p status _ σ' rfl hp hconnecting hactive hguard ?_ rfl hdel
              rw [hinit] at hwhy
              simpa using hwhy
          · simp only [connectSock, Sys.load_of_mem hp, ok_bind, halready, if_true] at hret
            cases hret
            exact .nothing

theorem connectDelRegist_cases (h : connectDelRegist σ p = .ok (sock, σ')) :
    ∃ σ₁ σ₂, cpFdsDelSockRegistry σ (some p) = .ok σ₁ ∧ cpFdsDelSockTask σ₁ (some p) = .ok σ₂ ∧
      cpSockTerm σ₂ (some p) = .ok σ' := by
  obtain ⟨σ₁, h₁, h⟩ := bind_eq_ok_iff.mp h
  obtain ⟨σ₂, h₂, h⟩ := bind_eq_ok_iff.mp h
  obtain ⟨σ₃, h₃, h⟩ := bind_eq_ok_iff.mp h
  cases h
  exact ⟨σ₁, σ₂, h₁, h₂, h₃⟩

theorem Ledger.connectRegist {raddr : Bool} {rport : Int} {os : ConnectRegistOs} {ret : Ptr}
    (h : Ledger σ σ.live n)
    (houtcome : ConnectOutcome σ sock raddr rport os ret σ') :
    Ledger σ' σ'.live n ∨ (Ledger σ' σ'.live (n + 1) ∧ ∃ p, sock = some p ∧
      (σ.mem p).status = .connecting ∧ (σ.mem p).flag.epolled = true ∧ raddr = true ∧ 0 ≤ rport ∧
        (rport = 0 ∨ os.connect.again = .failed)) := by
  cases houtcome with
  | nothing => exact Or.inl h
  | failed p τ σ' s hoffered hundone => exact Or.inl ((h.offered hoffered).undone hundone)
  | joined p τ σ' s list hoffered _ _ _ hjoined hstatus _ _ =>
      exact Or.inl ((h.offered hoffered).joined hjoined hstatus)
  | progressed p status actvTime hlive hold hactive hnew =>
      exact Or.inl (h.progress ⟨rfl, rfl, rfl⟩ hold hactive.epolled hnew)
  | lost p status τ σ' hsock hlive hold hactive hguard hwhy hτ hdel =>
      refine Or.inr ⟨?_, p, hsock, hold, hactive.epolled, hguard.1, hguard.2,
        hwhy.imp_left fun hle => le_antisymm hle hguard.2⟩
      obtain ⟨σ₁, σ₂, h₁, h₂, h₃⟩ := connectDelRegist_cases hdel
      obtain ⟨hledger, hfree⟩ := h.lose hlive hactive.epolled status hτ
      have hview₁ : σ₁.view (fun _ => ()) (·.fd) = τ.view _ _ ∧ σ₁.kern = τ.kern :=
        cpFdsDelSockRegistry_view h₁ (fun _ _ _ => rfl) fun _ _ _ _ _ => rfl
      have hview₂ : σ₂.view (fun _ => ()) (·.fd) = σ₁.view _ _ ∧ σ₂.kern = σ₁.kern :=
        cpFdsDelSockTask_view h₂ (fun _ _ => rfl) fun _ _ _ _ => rfl
      obtain ⟨_, hlive₂, hfd₂⟩ := Sys.view_eq_iff.mp (hview₂.1.trans hview₁.1)
      have hlive' : σ'.live = σ.live.erase p := by
        rw [(cpSockTerm_spec h₃).2.2.1, hlive₂, hτ, Sys.modify_live]
      rw [hlive']
      refine Ledger.term ?_ (Finset.notMem_erase p _) ?_ h₃
      · exact (hledger.delSockRegistry (Finset.notMem_erase p _) h₁).delSockTask h₂
      · rw [hview₂.2, hview₁.2, hfd₂ p]
        exact hfree

/-! The calls around the queue and the task array. -/

theorem Ledger.sockEnqueue {data : Ptr} {node : Bool} (h : Ledger σ on n)
    (hready : ∀ p, sock = some p → (σ.mem p).status = .already)
    (hcall : cpFdsSockEnqueue σ sock node = .ok (data, σ')) : Ledger σ' on n := by
  cases sock with
  | none => cases hcall; exact h
  | some p =>
      obtain ⟨_, rfl | ⟨_, _, hfds, rfl⟩⟩ := cpFdsSockEnqueue_cases hcall
      · exact h
      · refine h.congr rfl rfl (fun q _ => ?_) fun q _ hin => ?_
        · exact Sys.modify_field _ p _ Sock.footing rfl q
        · by_cases hq : q = p
          · rw [hq]
            exact Or.inr ⟨hfds, hready p rfl⟩
          · rw [Sys.modify_ne _ _ hq] at hin
            exact Or.inl hin

theorem Ledger.sockDequeue {data : Ptr} (h : Ledger σ on n)
    (hcall : cpFdsSockDequeue σ = .ok (data, σ')) : Ledger σ' on n := by
  obtain ⟨p, rest, _, _, _, rfl⟩ := cpFdsSockDequeue_cases hcall
  refine h.congr rfl rfl (fun q _ => ?_) fun q _ hin => ?_
  · exact Sys.modify_field _ p _ Sock.footing rfl q
  · by_cases hq : q = p
    · rw [hq, Sys.modify_same] at hin
      contradiction
    · rw [Sys.modify_ne _ _ hq] at hin
      exact Or.inl hin

theorem Ledger.detectOne {evt : EpollEvent} {now : ULong} {node : Bool} (h : Ledger σ on n)
    (hcall : detectOne σ evt now node = .ok σ') : Ledger σ' on n := by
  obtain ⟨p, _, _, hcases⟩ := detectOne_cases hcall
  have hstamp : Ledger (σ.modify p fun s => { s with event := evt, actvTime := now }) on n :=
    h.congr_view ⟨Sys.modify_view σ p _ _ _ rfl, rfl⟩
  rcases hcases with ⟨_, rfl⟩ | ⟨hstat, data, henqueue⟩
  · exact hstamp
  · refine hstamp.sockEnqueue (fun q hq => ?_) henqueue
    cases hq
    rw [Sys.modify_same]
    exact hstat

end Fl2440.CpLibrary
