import Fl2440.CpLibrary.Accounting

/-! The event queue and the task array have as many places as sockets may be
registered. While `event_cnt` keeps to that number there is a place for each. -/
namespace Fl2440.CpLibrary

open Fl2440.Lib

variable {σ σ' τ : Sys} {p : SockId} {sock : Ptr} {rv : Int} {n : Nat}

structure Fds.Fits (fds : Fds) : Prop where
  queueSize : fds.eventQueue.size = fds.maxEvent
  arraySize : fds.taskArray.size = fds.maxEvent
  count : fds.eventCnt ≤ fds.maxEvent

def Fds.sizes (fds : Fds) : Int × Int × Int × Int :=
  (fds.eventQueue.size, fds.taskArray.size, fds.maxEvent, fds.eventCnt)

theorem Fds.Fits.congr {fds fds' : Fds} (h : fds.Fits) (hsizes : fds'.sizes = fds.sizes) : fds'.Fits := by
  simp only [Fds.sizes, Prod.mk.injEq] at hsizes
  obtain ⟨hqueue, harray, hmax, hcnt⟩ := hsizes
  exact ⟨hqueue.trans (h.queueSize.trans hmax.symm), harray.trans (h.arraySize.trans hmax.symm),
    hcnt ▸ hmax ▸ h.count⟩

theorem setRegistry_sizes (σ : Sys) (head : ListHead) (list : List SockId) :
    (σ.setRegistry head list).fds.sizes = σ.fds.sizes := by
  cases head <;> rfl

theorem listed_sizes (σ : Sys) (head : ListHead) (list : List SockId) (p : SockId) :
    (σ.listed head list p).fds.sizes = σ.fds.sizes := by
  cases head <;> rfl

theorem Undone.sizes (h : Undone σ τ) : τ.fds.sizes = σ.fds.sizes := by
  cases h with
  | unlisted hsame => rw [hsame.fds]
  | listed p head list _ _ hsame => rw [hsame.fds, setRegistry_sizes]

theorem Joined.fits {head : ListHead} {list : List SockId} (h : Joined σ σ' p head list)
    (hfits : σ.fds.Fits) (hroom : σ.fds.eventCnt < σ.fds.maxEvent) : σ'.fds.Fits := by
  have hlisted := hfits.congr (listed_sizes σ head list p)
  have hmax : (σ.listed head list p).fds.maxEvent = σ.fds.maxEvent := by
    cases head <;> rfl
  rw [h.fds]
  refine ⟨hlisted.queueSize, hlisted.arraySize, ?_⟩
  simp only [hmax]
  omega

theorem Offered.fds_eq {s : Sock} (h : Offered σ p τ s) : τ.fds = σ.fds := by
  cases h <;> rfl

theorem cpFdsAddSockTask_sizes (h : cpFdsAddSockTask σ sock = .ok (rv, σ')) :
    σ'.fds.sizes = σ.fds.sizes := by
  cases sock with
  | none => cases h; rfl
  | some p => obtain ⟨_, rfl | ⟨i, hfree, _, _, rfl⟩⟩ := cpFdsAddSockTask_cases h <;> rfl

theorem TaskOk.delSockTask_sizes (htasks : TaskOk σ) (h : cpFdsDelSockTask σ sock = .ok σ') :
    σ'.fds.sizes = σ.fds.sizes := by
  cases sock with
  | none => cases h; rfl
  | some p => obtain ⟨_, ⟨_, rfl⟩ | ⟨i, hslot, rfl⟩⟩ := htasks.delSockTask_cases h <;> rfl

theorem cpFdsSockEnqueue_sizes {data : Ptr} {node : Bool}
    (h : cpFdsSockEnqueue σ sock node = .ok (data, σ')) : σ'.fds.sizes = σ.fds.sizes := by
  cases sock with
  | none => cases h; rfl
  | some p =>
      obtain ⟨_, rfl | ⟨_, _, _, rfl⟩⟩ := cpFdsSockEnqueue_cases h
      · rfl
      · rcases cpEnqueue_cases σ.fds.eventQueue p node with henqueue | henqueue <;>
          simp only [Sys.modify_fds, Fds.sizes, henqueue]

theorem cpFdsSockDequeue_sizes {data : Ptr} (h : cpFdsSockDequeue σ = .ok (data, σ')) :
    σ'.fds.sizes = σ.fds.sizes := by
  obtain ⟨p, rest, _, _, _, rfl⟩ := cpFdsSockDequeue_cases h
  rfl

theorem cpFdsSockRmqueue_sizes {data : Ptr} (h : cpFdsSockRmqueue σ sock = .ok (data, σ')) :
    σ'.fds.sizes = σ.fds.sizes := by
  cases sock with
  | none => cases h; rfl
  | some p => obtain ⟨_, ⟨_, rfl⟩ | ⟨_, _, rfl⟩⟩ := cpFdsSockRmqueue_cases h <;> rfl

theorem cpFdsDelSockRegistry_sizes (h : cpFdsDelSockRegistry σ sock = .ok σ') :
    σ'.fds.sizes = σ.fds.sizes := by
  have hview : σ'.view Fds.sizes (fun _ => ()) = σ.view _ _ :=
    (cpFdsDelSockRegistry_view h (fun _ _ _ => rfl) fun _ _ _ _ _ => rfl).1
  exact (Sys.view_eq_iff.mp hview).1

theorem TaskOk.destroySock_fits (htasks : TaskOk σ) (hfits : σ.fds.Fits)
    (h : cpFdsDestroySock σ sock = .ok σ') : σ'.fds.Fits := by
  obtain ⟨σ₁, data, σ₂, σ₃, σ₄, h₁, h₂, h₃, h₄, h₅⟩ := cpFdsDestroySock_cases h
  have hfits₂ := (hfits.congr (htasks.delSockTask_sizes h₁)).congr (cpFdsSockRmqueue_sizes h₂)
  cases sock with
  | none =>
      cases h₃
      cases h₄
      cases h₅
      exact hfits₂
  | some p =>
      have hfits₃ : σ₃.fds.Fits := by
        obtain ⟨_, ⟨_, rfl⟩ | ⟨_, _, rfl⟩⟩ := cpDelEpollEvent_cases h₃
        · exact hfits₂
        · have hcount := hfits₂.count
          exact ⟨hfits₂.queueSize, hfits₂.arraySize, by simp only [Sys.modify_fds]; omega⟩
      rw [(cpSockTerm_spec h₅).2.1]
      exact hfits₃.congr (cpFdsDelSockRegistry_sizes h₄)

/-- No socket more is accepted by the kernel while `event_cnt` is at its limit. -/
def KeepsRoom (σ : Sys) : Call → Prop
  | .serverRegist _ _ _ _ os => os.ctlAdd = true → σ.fds.eventCnt < σ.fds.maxEvent
  | .acceptRegist _ os => os.ctlAdd = true → σ.fds.eventCnt < σ.fds.maxEvent
  | .connectRegist sock _ _ _ _ os => (∀ p, sock = some p → (σ.mem p).flag.epolled = false) →
      os.ctlAdd = true → σ.fds.eventCnt < σ.fds.maxEvent
  | _ => True

theorem Consistent.acceptRegist_fits {os : AcceptRegistOs} (h : Consistent σ n) (hfits : σ.fds.Fits)
    (hroom : os.ctlAdd = true → σ.fds.eventCnt < σ.fds.maxEvent)
    (hcall : cpSockAcceptRegist σ sock os = .ok (rv, σ')) : σ'.fds.Fits := by
  cases sock with
  | none => cases hcall; exact hfits
  | some serv =>
      obtain ⟨_, ⟨τ, hundone, hdel, _⟩ | ⟨_, hctl, _, p, list, hjoined, _⟩⟩ :=
        cpSockAcceptRegist_cases hcall
      · exact (hfits.congr hundone.sizes).congr ((h.tasks.undone hundone).delSockTask_sizes hdel)
      · exact hjoined.fits hfits (hroom hctl)

theorem Consistent.connectRegist_fits {raddr : Bool} {rport lport : Int}
    {serviceRoute : Option Callback} {os : ConnectRegistOs} {ret : Ptr} (h : Consistent σ n)
    (hfits : σ.fds.Fits) (hroom : KeepsRoom σ (.connectRegist sock raddr rport lport serviceRoute os))
    (hcall : cpSockConnectRegist σ sock raddr rport lport serviceRoute os = .ok (ret, σ')) :
    σ'.fds.Fits := by
  have houtcome := h.ledger.connectRegist_cases (fun p hp ht => (h.tasks.tasked p hp ht).1) hcall
  cases houtcome with
  | nothing => exact hfits
  | failed p τ _ s hoffered hundone =>
      refine Fds.Fits.congr ?_ hundone.sizes
      rw [hoffered.fds_eq]
      exact hfits
  | joined p τ _ s list hoffered hfirst hret hctl hjoined =>
      have hlt := hroom (fun q hq => (hfirst q hq).epolled) hctl
      rw [← hoffered.fds_eq] at hfits hlt
      exact hjoined.fits hfits hlt
  | progressed p status actvTime => exact hfits
  | lost p status τ _ hsock hlive hold hactive hguard hwhy hτ hdel =>
      obtain ⟨σ₁, σ₂, h₁, h₂, h₃⟩ := connectDelRegist_cases hdel
      have hτfds : τ.fds = σ.fds := by rw [hτ, Sys.modify_fds]
      have htasks : TaskOk τ := by
        refine h.tasks.congr ?_
        rw [hτ]
        exact Sys.modify_view _ p _ _ _ rfl
      have hview₁ : σ₁.taskView = τ.taskView :=
        (cpFdsDelSockRegistry_view h₁ (fun _ _ _ => rfl) fun _ _ _ _ _ => rfl).1
      rw [(cpSockTerm_spec h₃).2.1]
      refine Fds.Fits.congr ?_ ((htasks.congr hview₁).delSockTask_sizes h₂)
      refine Fds.Fits.congr ?_ (cpFdsDelSockRegistry_sizes h₁)
      rw [hτfds]
      exact hfits

theorem Consistent.call_fits {c : Call} (h : Consistent σ n) (hfits : σ.fds.Fits)
    (hok : InHistory σ c) (hroom : KeepsRoom σ c) (hcall : σ.call c = .ok σ') : σ'.fds.Fits := by
  cases c with
  | modEpollEvent | delEpollEvent | delSockRegistry => exact absurd hok id
  | sockInit malloced os =>
      cases hcall
      rcases cpSockInit_cases σ malloced os with hnone | ⟨p, _, hsome⟩
      · rw [hnone]
        exact hfits
      · rw [hsome]
        exact hfits
  | serverRegist port maxClient serviceRoute data os =>
      obtain ⟨⟨sock, τ⟩, hret, rfl⟩ := map_eq_ok_iff.mp hcall
      rcases cpSockServerRegist_cases hret with ⟨_, hundone⟩ | ⟨p, list, _, hctl, hjoined, _⟩
      · exact hfits.congr hundone.sizes
      · exact hjoined.fits hfits (hroom hctl)
  | acceptRegist servSock os =>
      obtain ⟨⟨rv, τ⟩, hret, rfl⟩ := map_eq_ok_iff.mp hcall
      exact h.acceptRegist_fits hfits hroom hret
  | connectRegist sock raddr rport lport serviceRoute os =>
      obtain ⟨⟨ret, τ⟩, hret, rfl⟩ := map_eq_ok_iff.mp hcall
      exact h.connectRegist_fits hfits hroom hret
  | addEpollEvent sock accept =>
      obtain ⟨⟨rv, τ⟩, hret, rfl⟩ := map_eq_ok_iff.mp hcall
      exact h.addEpollEvent hret ▸ hfits
  | addSockRegistry sock =>
      obtain ⟨⟨rv, τ⟩, hret, rfl⟩ := map_eq_ok_iff.mp hcall
      exact h.addSockRegistry hret ▸ hfits
  | addSockTask sock =>
      obtain ⟨⟨rv, τ⟩, hret, rfl⟩ := map_eq_ok_iff.mp hcall
      exact hfits.congr (cpFdsAddSockTask_sizes hret)
  | delSockTask sock => exact hfits.congr (h.tasks.delSockTask_sizes hcall)
  | sockEnqueue sock node =>
      obtain ⟨⟨data, τ⟩, hret, rfl⟩ := map_eq_ok_iff.mp hcall
      exact hfits.congr (cpFdsSockEnqueue_sizes hret)
  | sockDequeue =>
      obtain ⟨⟨data, τ⟩, hret, rfl⟩ := map_eq_ok_iff.mp hcall
      exact hfits.congr (cpFdsSockDequeue_sizes hret)
  | sockRmqueue sock =>
      obtain ⟨⟨data, τ⟩, hret, rfl⟩ := map_eq_ok_iff.mp hcall
      exact hfits.congr (cpFdsSockRmqueue_sizes hret)
  | destroySock sock => exact h.tasks.destroySock_fits hfits hcall
  | detectEvent wait =>
      obtain ⟨⟨rv, τ⟩, hret, rfl⟩ := map_eq_ok_iff.mp hcall
      refine cpFdsDetectEvent_preserves (P := fun τ => τ.fds.Fits)
        (fun τ evt now node υ hτ hone => ?_) hfits hret
      obtain ⟨p, _, _, ⟨_, rfl⟩ | ⟨_, data, henqueue⟩⟩ := detectOne_cases hone
      · exact hτ
      · have hsizes := cpFdsSockEnqueue_sizes henqueue
        rw [Sys.modify_fds] at hsizes
        exact hτ.congr hsizes
  | detectTimeout now =>
      refine cpSockDetectTimeout_preserves (P := fun τ => τ.fds.Fits)
        (fun τ p υ hτ hone => ?_) hfits hcall
      obtain ⟨_, rfl | ⟨events, rv, hadd⟩⟩ := detectTimeoutOne_cases hone
      · exact hτ
      · have hsizes := cpFdsAddSockTask_sizes hadd
        rw [Sys.modify_fds] at hsizes
        exact hτ.congr hsizes
  | termAllTask =>
      obtain ⟨σ₁, hloop, hdrain⟩ := bind_eq_ok_iff.mp hcall
      cases hdrain
      have h₁ : Consistent σ₁ n ∧ σ₁.fds.Fits :=
        foldlM_preserves (P := fun τ => Consistent τ n ∧ τ.fds.Fits)
          (fun τ i υ _ hτ hdel => ⟨hτ.1.delSockTask hdel,
            hτ.2.congr (hτ.1.tasks.delSockTask_sizes hdel)⟩) ⟨h, hfits⟩ hloop
      rw [cpQueueDrain_eq]
      exact h₁.2.congr rfl

/-! Room in both containers. -/

theorem queue_has_room (hqueue : QueueOk σ)
    (hmember : ∀ p ∈ σ.live, (σ.mem p).fds = true → (σ.mem p).flag.epolled = true)
    (hsize : ((σ.epolled σ.live).card : Int) ≤ σ.fds.eventQueue.size)
    (hp : p ∈ σ.live) (hflag : (σ.mem p).flag.epolled = true)
    (hin : (σ.mem p).flag.inqueue = false) :
    (σ.fds.eventQueue.nodes.length : Int) < σ.fds.eventQueue.size := by
  have hlt : σ.fds.eventQueue.nodes.length < (σ.epolled σ.live).card := by
    refine hqueue.length_lt_card (fun q hq => ?_) (Finset.mem_filter.mpr ⟨hp, hflag⟩) fun hmark => ?_
    · exact Finset.mem_filter.mpr ⟨hq.1, hmember q hq.1 hq.2.2⟩
    · have hqueued := hmark.2.1
      rw [hin] at hqueued
      contradiction
  omega

theorem TaskOk.occupants (h : TaskOk σ) : Marked (σ.fds.taskArray.data.filterMap id)
    fun p => p ∈ σ.live ∧ (σ.mem p).flag.tasked = true := by
  constructor
  · rw [List.Nodup, List.pairwise_filterMap]
    refine List.pairwise_iff_getElem.mpr fun i j hi hj hlt p hpi q hqj heq => ?_
    have hsloti := (h.slot i p (by rw [List.getElem?_eq_getElem hi]; exact congrArg some hpi)).2.2
    have hslotj := (h.slot j q (by rw [List.getElem?_eq_getElem hj]; exact congrArg some hqj)).2.2
    rw [heq, hslotj] at hsloti
    omega
  · intro p hp
    obtain ⟨slot, hslot, hsome⟩ := List.mem_filterMap.mp hp
    obtain ⟨i, hi⟩ := List.mem_iff_getElem?.mp hslot
    obtain ⟨hlive, htasked, _⟩ := h.slot i p (hi.trans (congrArg some hsome))
    exact ⟨hlive, htasked⟩

theorem Consistent.task_has_room (h : Consistent σ n) (hfits : σ.fds.Fits) (hp : p ∈ σ.live)
    (hflag : (σ.mem p).flag.epolled = true) (htasked : (σ.mem p).flag.tasked = false) :
    σ.fds.taskArray.items < σ.fds.taskArray.size := by
  have hlt : (σ.fds.taskArray.data.filterMap id).length < (σ.epolled σ.live).card := by
    refine h.tasks.occupants.length_lt_card (fun q hq => ?_) (Finset.mem_filter.mpr ⟨hp, hflag⟩)
      fun hmark => ?_
    · exact Finset.mem_filter.mpr ⟨hq.1, (h.member hq.1 (h.tasks.tasked q hq.1 hq.2).1).epolled⟩
    · have hoccupied := hmark.2
      rw [htasked] at hoccupied
      contradiction
  have hlength : (σ.fds.taskArray.data.filterMap id).length =
      σ.fds.taskArray.data.countP (·.isSome) := List.length_filterMap_eq_countP
  have hcount := h.ledger.count
  rw [σ.fds.taskArray.items_data, ← hlength, hfits.arraySize]
  have hle := hfits.count
  omega

theorem enqueue_batch {batch : List SockId} : ∀ {σ : Sys}, QueueOk σ →
    (∀ p ∈ σ.live, (σ.mem p).fds = true → (σ.mem p).flag.epolled = true) →
    ((σ.epolled σ.live).card : Int) ≤ σ.fds.eventQueue.size → batch.Nodup →
    (∀ p ∈ batch, p ∈ σ.live ∧ (σ.mem p).Active ∧ (σ.mem p).flag.inqueue = false ∧
      (σ.mem p).flag.tasked = false) →
    ∃ τ, exec Sys.call σ (batch.map fun p => .sockEnqueue (some p) true) = .ok τ ∧
      τ.fds.eventQueue.nodes = σ.fds.eventQueue.nodes ++ batch := by
  induction batch with
  | nil =>
      intro σ _ _ _ _ _
      exact ⟨σ, rfl, (List.append_nil _).symm⟩
  | cons p batch ih =>
      intro σ hqueue hmember hsize hnodup hbatch
      obtain ⟨hp, hactive, hin, htasked⟩ := hbatch p List.mem_cons_self
      obtain ⟨hnew, hnodup⟩ := List.nodup_cons.mp hnodup
      have hroom := queue_has_room hqueue hmember hsize hp hactive.epolled hin
      have hcall := cpFdsSockEnqueue_room hp hin htasked hactive.fds hroom
      let σ₁ := { σ with fds.eventQueue :=
        { σ.fds.eventQueue with nodes := σ.fds.eventQueue.nodes ++ [p] } }.modify p
          fun s => { s with flag.inqueue := true }
      have hepolled : ∀ q, (σ₁.mem q).flag.epolled = (σ.mem q).flag.epolled :=
        Sys.modify_field _ p _ (·.flag.epolled) rfl
      have hfds : ∀ q, (σ₁.mem q).fds = (σ.mem q).fds := Sys.modify_field _ p _ (·.fds) rfl
      have hsame : σ₁.epolled σ₁.live = σ.epolled σ.live := epolled_congr fun q _ => hepolled q
      obtain ⟨τ, hrun, hnodes⟩ := ih (σ := σ₁) (hqueue.sockEnqueue hcall)
        (fun q hq hqfds => by
          rw [hepolled q]
          exact hmember q hq (hfds q ▸ hqfds))
        (by rw [hsame]; exact hsize) hnodup fun q hq => by
          have hne : q ≠ p := by
            rintro rfl
            exact hnew hq
          rw [show σ₁.mem q = σ.mem q from Sys.modify_ne _ _ hne]
          exact hbatch q (List.mem_cons_of_mem p hq)
      refine ⟨τ, ?_, ?_⟩
      · rw [List.map_cons, exec_cons_iff]
        exact ⟨σ₁, by rw [Sys.call, hcall]; rfl, hrun⟩
      · rw [hnodes]
        simp [σ₁]

/-- While the kernel accepts no socket beyond the limit, the limit holds and there
is a place in both containers for every registered socket. -/
theorem capacity_suffices {kern kern' : Kernel} {malloced : Bool} {maxevents timeout : Int}
    {os : InitOs} {fds : Fds} (hinit : cpFdsInit kern malloced maxevents timeout os = some (fds, kern'))
    (hempty : ∀ fd, kern.epoll fd = none) (mem : SockId → Sock) {calls : List Call}
    (hcalls : Along Sys.call (fun σ c => InHistory σ c ∧ KeepsRoom σ c) ⟨fds, mem, ∅, kern'⟩ calls)
    {σ : Sys} (hrun : exec Sys.call ⟨fds, mem, ∅, kern'⟩ calls = .ok σ) :
    σ.fds.eventCnt ≤ σ.fds.maxEvent ∧
      (∀ p ∈ σ.live, (σ.mem p).flag.epolled = true → (σ.mem p).flag.inqueue = false →
        (σ.mem p).flag.tasked = false → ∃ σ', cpFdsSockEnqueue σ (some p) true = .ok (some p, σ')) ∧
      (∀ batch : List SockId, batch.Nodup →
        (∀ p ∈ batch, p ∈ σ.live ∧ (σ.mem p).flag.epolled = true ∧
          (σ.mem p).flag.inqueue = false ∧ (σ.mem p).flag.tasked = false) →
        ∃ τ, exec Sys.call σ (batch.map fun p => .sockEnqueue (some p) true) = .ok τ ∧
          τ.fds.eventQueue.nodes = σ.fds.eventQueue.nodes ++ batch) ∧
      ∀ p ∈ σ.live, (σ.mem p).flag.epolled = true →
        ∃ σ', cpFdsAddSockTask σ (some p) = .ok (0, σ') := by
  have hstart := consistent_start hinit hempty mem
  have hfits : fds.Fits := by
    obtain ⟨hpos, hcnt, _, _, hqueue, harray, _⟩ := cpFdsInit_spec hinit
    exact ⟨by rw [hqueue]; rfl, by rw [harray]; rfl, by omega⟩
  obtain ⟨⟨n, hσ⟩, hfits⟩ := exec_preserves (P := fun τ => (∃ n, Consistent τ n) ∧ τ.fds.Fits)
    (fun τ c υ hok ⟨⟨n, hτ⟩, hτfits⟩ hcall => by
      obtain ⟨m, hm, _⟩ := hτ.call hok.1 hcall
      exact ⟨⟨m, hm⟩, hτ.call_fits hτfits hok.1 hok.2 hcall⟩)
    ⟨⟨0, hstart⟩, hfits⟩ hcalls hrun
  have hmember : ∀ p ∈ σ.live, (σ.mem p).fds = true → (σ.mem p).flag.epolled = true :=
    fun p hp hfds => (hσ.member hp hfds).epolled
  have hsize : ((σ.epolled σ.live).card : Int) ≤ σ.fds.eventQueue.size := by
    have hcount := hσ.ledger.count
    have hle := hfits.count
    rw [hfits.queueSize]
    omega
  refine ⟨hfits.count, fun p hp hflag hin htasked => ?_, fun batch hnodup hbatch => ?_,
    fun p hp hflag => ?_⟩
  · exact ⟨_, cpFdsSockEnqueue_room hp hin htasked (hσ.epolled hp hflag).fds
      (queue_has_room hσ.queue hmember hsize hp hflag hin)⟩
  · refine enqueue_batch hσ.queue hmember hsize hnodup fun p hp => ?_
    obtain ⟨hlive, hflag, hin, htasked⟩ := hbatch p hp
    exact ⟨hlive, hσ.epolled hlive hflag, hin, htasked⟩
  · exact cpFdsAddSockTask_room hp (hσ.epolled hp hflag).fds
      fun htasked => hσ.task_has_room hfits hp hflag htasked

private def singleContext : Sys :=
  ⟨⟨false, 3, 0, 1, 0, [], [], cpQueueInit 1, cpArrayInit 1⟩, fun _ => {}, ∅, Kernel.bare.openFd 3⟩

private def connected (p : Nat) : Call :=
  .connectRegist none true 80 0 none
    ⟨⟨some p, 0⟩, ⟨true, some [.socket (p + 3) true .inProgress], .done, 0⟩, true⟩

theorem capacity_suffices_single :
    cpFdsInit .bare false 1 0 ⟨true, true, some 3⟩ = some (singleContext.fds, singleContext.kern) ∧
      ∃ σ, exec Sys.call singleContext [connected 1] = .ok σ ∧ σ.fds.eventCnt ≤ σ.fds.maxEvent ∧
        ∃ σ', cpFdsSockEnqueue σ (some 1) true = .ok (some 1, σ') := by
  have hcalls : Along Sys.call (fun σ c => InHistory σ c ∧ KeepsRoom σ c) singleContext [connected 1] :=
    ⟨⟨trivial, fun _ _ => by decide⟩, fun _ _ => trivial⟩
  have hinit : cpFdsInit .bare false 1 0 ⟨true, true, some 3⟩ = some (singleContext.fds, _) := rfl
  obtain ⟨hcnt, henqueue, _⟩ :=
    capacity_suffices hinit (fun _ => rfl) (fun _ => {}) hcalls (Eq.refl (exec Sys.call singleContext _))
  exact ⟨rfl, _, rfl, hcnt, henqueue 1 (by decide) rfl rfl rfl⟩

/-- A second one is let in and then has no place in the queue, nor among the tasks. -/
theorem second_of_one_is_refused :
    cpFdsInit .bare false 1 0 ⟨true, true, some 3⟩ = some (singleContext.fds, singleContext.kern) ∧
      ∃ σ σ₁ σ₂, exec Sys.call singleContext [connected 1, connected 2] = .ok σ ∧
        σ.fds.maxEvent = 1 ∧ σ.fds.eventCnt = 2 ∧ 2 ∈ σ.live ∧ (σ.mem 2).flag.epolled = true ∧
        cpFdsSockEnqueue σ (some 1) true = .ok (some 1, σ₁) ∧
        (σ₁.mem 2).flag.inqueue = false ∧ (σ₁.mem 2).flag.tasked = false ∧
        Prod.fst <$> cpFdsSockEnqueue σ₁ (some 2) true = .ok none ∧
        cpFdsAddSockTask σ (some 1) = .ok (0, σ₂) ∧
        Prod.fst <$> cpFdsAddSockTask σ₂ (some 2) = .ok (-2) :=
  ⟨rfl, _, _, _, rfl, rfl, rfl, by decide, rfl, rfl, rfl, rfl, rfl, rfl, rfl⟩

end Fl2440.CpLibrary
