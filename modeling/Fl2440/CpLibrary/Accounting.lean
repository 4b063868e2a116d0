import Fl2440.CpLibrary.History

/-! The epoll accounts over whole histories that start with `cp_fds_init`. -/
namespace Fl2440.CpLibrary

open Fl2440.Lib

variable {σ σ' : Sys} {p : SockId} {sock : Ptr} {n : Nat}

theorem consistent_start {kern kern' : Kernel} {malloced : Bool} {maxevents timeout : Int}
    {os : InitOs} {fds : Fds} (hinit : cpFdsInit kern malloced maxevents timeout os = some (fds, kern'))
    (hempty : ∀ fd, kern.epoll fd = none) (mem : SockId → Sock) :
    Consistent ⟨fds, mem, ∅, kern'⟩ 0 := by
  obtain ⟨_, hcnt, _, _, hqueue, harray, hint, hkern⟩ := cpFdsInit_spec hinit
  refine ⟨?_, ⟨fun i p hslot => ?_, fun p hp => absurd hp (Finset.notMem_empty p)⟩,
    ⟨⟨fun fd data hentry => ?_, fun p hp => absurd hp (Finset.notMem_empty p)⟩, ?_,
      fun p hp => absurd hp (Finset.notMem_empty p), fun p hp => absurd hp (Finset.notMem_empty p)⟩⟩
  · unfold QueueOk
    simp only [hqueue]
    exact Marked.nil _
  · simp only [harray] at hslot
    have hmem := List.mem_of_getElem? hslot
    simp [cpArrayInit] at hmem
  · simp only [hkern, Kernel.openFd_epoll, hempty] at hentry
    contradiction
  · simpa [Sys.epolled] using hcnt

theorem Consistent.epolled_iff (h : Consistent σ n) (hp : p ∈ σ.live) :
    (σ.mem p).flag.epolled = true ↔ σ.kern.epoll (σ.mem p).fd ≠ none := by
  constructor
  · intro hflag
    rw [h.ledger.flag p hp hflag]
    simp
  · intro hentry
    obtain ⟨_, hidle | hactive⟩ := h.ledger.settled p hp
    · rw [hidle.fd, σ.kern.registered _ (σ.kern.not_mem_of_neg (by omega))] at hentry
      contradiction
    · exact hactive.epolled

theorem Consistent.connectRegist_null {raddr : Bool} {rport lport : Int}
    {serviceRoute : Option Callback} {os : ConnectRegistOs} (h : Consistent σ n)
    (hkeeps : KeepsCount σ (.connectRegist sock raddr rport lport serviceRoute os))
    (hcall : cpSockConnectRegist σ sock raddr rport lport serviceRoute os = .ok (none, σ')) :
    σ'.fds.eventCnt = σ.fds.eventCnt := by
  have houtcome := h.ledger.connectRegist_cases (fun p hp ht => (h.tasks.tasked p hp ht).1) hcall
  cases houtcome with
  | nothing => rfl
  | failed p τ _ s hoffered hundone =>
      have hτ : τ.fds = σ.fds := by
        cases hoffered <;> rfl
      cases hundone with
      | unlisted hsame => rw [hsame.fds, hτ]
      | listed _ head list _ _ hsame =>
          rw [hsame.fds, ← hτ]
          cases head <;> rfl
  | joined p τ _ s list _ _ hret => contradiction
  | progressed => rfl
  | lost p status τ _ hsock hlive hold hactive hguard hwhy =>
      obtain ⟨hne, hagain⟩ := hkeeps p hsock hold hactive.epolled hguard.1 hguard.2
      rcases hwhy with hle | hfailed
      · exact absurd (le_antisymm hle hguard.2) hne
      · exact absurd hfailed hagain

/-- `event_cnt` is the number of live registered sockets in every state of every
history in which no connect fails after it was registered. -/
theorem event_cnt_counts_epolled {kern kern' : Kernel} {malloced : Bool} {maxevents timeout : Int}
    {os : InitOs} {fds : Fds} (hinit : cpFdsInit kern malloced maxevents timeout os = some (fds, kern'))
    (hempty : ∀ fd, kern.epoll fd = none) (mem : SockId → Sock) {calls : List Call}
    (hcalls : Along Sys.call (fun σ c => InHistory σ c ∧ KeepsCount σ c) ⟨fds, mem, ∅, kern'⟩ calls)
    {σ : Sys} (hrun : exec Sys.call ⟨fds, mem, ∅, kern'⟩ calls = .ok σ) :
    σ.fds.eventCnt = (σ.epolled σ.live).card ∧
      (∀ p ∈ σ.live, (σ.mem p).flag.epolled = true ↔ σ.kern.epoll (σ.mem p).fd ≠ none) ∧
      ∀ sock raddr rport lport serviceRoute os σ',
        KeepsCount σ (.connectRegist sock raddr rport lport serviceRoute os) →
          cpSockConnectRegist σ sock raddr rport lport serviceRoute os = .ok (none, σ') →
            σ'.fds.eventCnt = σ.fds.eventCnt := by
  have hσ : Consistent σ 0 := exec_preserves (P := fun τ => Consistent τ 0)
    (fun τ c υ hok hτ hcall => by
      obtain ⟨m, hm, hkept⟩ := hτ.call hok.1 hcall
      exact hkept hok.2 ▸ hm)
    (consistent_start hinit hempty mem) hcalls hrun
  refine ⟨?_, fun p hp => hσ.epolled_iff hp, ?_⟩
  · simpa using hσ.ledger.count
  · exact fun _ _ _ _ _ _ _ hkeeps hcall => hσ.connectRegist_null hkeeps hcall

private def emptyContext : Sys :=
  ⟨⟨false, 3, 0, 8, 0, [], [], cpQueueInit 8, cpArrayInit 8⟩, fun _ => {}, ∅, Kernel.bare.openFd 3⟩

/-- A connect that is in progress after its first call; `again` is what the
calls behind it get to hear. -/
private def pendingOs (again : Connect) : ConnectRegistOs where
  init := ⟨some 1, 0⟩
  connect := ⟨true, some [.socket 4 true .inProgress], again, 0⟩
  ctlAdd := true

private def connectTwice (again : Connect) : List Call :=
  [.connectRegist none true 80 0 none (pendingOs .inProgress),
    .connectRegist (some 1) true 80 0 none (pendingOs again)]

theorem event_cnt_counts_connected :
    cpFdsInit .bare false 8 0 ⟨true, true, some 3⟩ = some (emptyContext.fds, emptyContext.kern) ∧
      ∃ σ, exec Sys.call emptyContext (connectTwice .done) = .ok σ ∧
        σ.fds.eventCnt = (σ.epolled σ.live).card := by
  have hcalls : Along Sys.call (fun σ c => InHistory σ c ∧ KeepsCount σ c) emptyContext
      (connectTwice .done) :=
    ⟨⟨trivial, fun p hp => nomatch hp⟩, fun t ht => ⟨⟨trivial, fun _ _ _ _ _ _ =>
      ⟨by decide, by decide⟩⟩, fun _ _ => trivial⟩⟩
  have hinit : cpFdsInit .bare false 8 0 ⟨true, true, some 3⟩ = some (emptyContext.fds, _) := rfl
  exact ⟨rfl, _, rfl, (event_cnt_counts_epolled hinit (fun _ => rfl) (fun _ => {}) hcalls rfl).1⟩

/-- One that has failed by then: the socket is gone and still counted. -/
theorem failed_connect_stays_counted :
    cpFdsInit .bare false 8 0 ⟨true, true, some 3⟩ = some (emptyContext.fds, emptyContext.kern) ∧
      ∃ σ, exec Sys.call emptyContext (connectTwice .failed) = .ok σ ∧
        σ.live = ∅ ∧ σ.fds.eventCnt = 1 ∧ (σ.epolled σ.live).card = 0 :=
  ⟨rfl, _, rfl, by decide, rfl, by decide⟩

end Fl2440.CpLibrary
