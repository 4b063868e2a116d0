import Fl2440.CpLibrary.EventCount
import Fl2440.CpLibrary.EventQueue
import Fl2440.CpLibrary.TaskArray

/-! Histories of registrations, events and destroys: what they do to the queue,
to the task array and to the books, call by call. -/
namespace Fl2440.CpLibrary

open Fl2440.Lib

variable {σ σ' τ : Sys} {p : SockId} {sock : Ptr} {rv : Int} {n : Nat}

/-- The calls of such a history. What `cp_fds_detect_event` checks before it
enqueues a socket holds of other calls that enqueue. -/
def InHistory (σ : Sys) : Call → Prop
  | .modEpollEvent .. | .delEpollEvent .. | .delSockRegistry .. => False
  | .sockEnqueue sock _ => ∀ p, sock = some p → (σ.mem p).status = .already
  | _ => True

/-! The queue. -/

theorem QueueOk.built (h : QueueOk σ) (hbuilt : Building σ σ' p) : QueueOk σ' := by
  refine h.congr_live (by rw [hbuilt.fds]) ?_ fun q hq => ?_
  · rw [hbuilt.live]
    exact Finset.subset_insert p _
  · rw [hbuilt.mem q hq]
    exact ⟨rfl, rfl⟩

theorem QueueOk.same (h : QueueOk σ) (hsame : Same σ τ) : QueueOk τ := by
  refine h.congr_live (by rw [hsame.fds]) hsame.live.superset fun q hq => ?_
  rw [hsame.mem q hq]
  exact ⟨rfl, rfl⟩

theorem QueueOk.undone (h : QueueOk σ) (hundone : Undone σ τ) : QueueOk τ := by
  cases hundone with
  | unlisted hsame => exact h.same hsame
  | listed p head list _ _ hsame =>
      refine QueueOk.same (h.congr ?_) hsame
      exact Sys.setRegistry_view σ head _ _ _ (fun _ _ _ => rfl) fun _ _ => rfl

theorem QueueOk.joined {head : ListHead} {list : List SockId} (h : QueueOk σ)
    (hjoined : Joined σ σ' p head list) : QueueOk σ' := by
  refine h.congr_live ?_ ?_ fun q hq => ?_
  · rw [hjoined.fds]
    cases head <;> rfl
  · rw [hjoined.live]
    exact Finset.subset_insert p _
  · exact ⟨hjoined.others (·.flag.inqueue) (fun _ _ _ => rfl) hq,
      hjoined.others (·.fds) (fun _ _ _ => rfl) hq⟩

theorem QueueOk.free (h : QueueOk σ) (hp : p ∉ σ.fds.eventQueue.nodes) : QueueOk (σ.free p) := by
  refine Marked.mono h fun q hq hmark => ⟨Finset.mem_erase.mpr ⟨?_, hmark.1⟩, hmark.2⟩
  rintro rfl
  exact hp hq

theorem QueueOk.offered {s : Sock} (h : QueueOk σ) (hoffered : Offered σ p τ s) : QueueOk τ := by
  cases hoffered with
  | fresh => exact h
  | given hp hidle =>
      refine h.free fun hmem => ?_
      have hmark := (h.marked p hmem).2.2
      rw [hidle.fds] at hmark
      contradiction

theorem QueueOk.connectRegist {raddr : Bool} {rport : Int} {os : ConnectRegistOs} {ret : Ptr}
    (h : QueueOk σ) (hledger : Ledger σ σ.live n)
    (houtcome : ConnectOutcome σ sock raddr rport os ret σ') :
    QueueOk σ' := by
  cases houtcome with
  | nothing => exact h
  | failed p τ σ' s hoffered hundone => exact (h.offered hoffered).undone hundone
  | joined p τ σ' s list hoffered _ _ _ hjoined _ _ _ => exact (h.offered hoffered).joined hjoined
  | progressed p status actvTime _ _ _ _ => exact h.congr (Sys.modify_view σ p _ _ _ rfl)
  | lost p status τ σ' _ hlive hold hactive _ _ hτ hdel =>
      obtain ⟨σ₁, σ₂, h₁, h₂, h₃⟩ := connectDelRegist_cases hdel
      have hview : τ.queueView = σ.queueView := by
        rw [hτ]
        exact Sys.modify_view _ p _ _ _ rfl
      have hview₁ : σ₁.queueView = τ.queueView :=
        (cpFdsDelSockRegistry_view h₁ (fun _ _ _ => rfl) fun _ _ _ _ _ => rfl).1
      have hview₂ : σ₂.queueView = σ₁.queueView :=
        (cpFdsDelSockTask_view h₂ (fun _ _ => rfl) fun _ _ _ _ => rfl).1
      have hall := (hview₂.trans hview₁).trans hview
      refine (h.congr hall).term ?_ h₃
      rw [(Sys.view_eq_iff.mp hall).1]
      -- a connecting socket is never in the queue
      intro hmem
      have hready := hledger.ready p hlive (h.marked p hmem).2.1
      rw [hold] at hready
      simp at hready

theorem QueueOk.detectOne {evt : EpollEvent} {now : ULong} {node : Bool} (h : QueueOk σ)
    (hcall : detectOne σ evt now node = .ok σ') : QueueOk σ' := by
  obtain ⟨p, _, _, hcases⟩ := detectOne_cases hcall
  have hstamp : QueueOk (σ.modify p fun s => { s with event := evt, actvTime := now }) :=
    h.congr (Sys.modify_view σ p _ _ _ rfl)
  rcases hcases with ⟨_, rfl⟩ | ⟨_, data, henqueue⟩
  · exact hstamp
  · exact hstamp.sockEnqueue henqueue

theorem queueOk_of_termAllTask (hcall : cpSockTermAllTask σ = .ok σ') : QueueOk σ' := by
  obtain ⟨σ₁, _, hdrain⟩ := bind_eq_ok_iff.mp hcall
  cases hdrain
  unfold QueueOk
  rw [cpQueueDrain_eq]
  exact Marked.nil _

/-! The task array. -/

theorem TaskOk.built (h : TaskOk σ) (hbuilt : Building σ σ' p) : TaskOk σ' := by
  refine h.congr_live (by rw [hbuilt.fds]) ?_ (fun q hq => ?_) fun q hq hnew => ?_
  · rw [hbuilt.live]
    exact Finset.subset_insert p _
  · rw [hbuilt.mem q hq]
    exact ⟨rfl, rfl, rfl⟩
  · rw [hbuilt.live] at hq
    rw [(Finset.mem_insert.mp hq).resolve_right hnew]
    exact hbuilt.tasked

theorem TaskOk.same (h : TaskOk σ) (hsame : Same σ τ) : TaskOk τ := by
  refine h.congr_live (by rw [hsame.fds]) hsame.live.superset (fun q hq => ?_)
    fun q hq hnew => absurd (hsame.live ▸ hq) hnew
  rw [hsame.mem q hq]
  exact ⟨rfl, rfl, rfl⟩

theorem TaskOk.undone (h : TaskOk σ) (hundone : Undone σ τ) : TaskOk τ := by
  cases hundone with
  | unlisted hsame => exact h.same hsame
  | listed p head list _ _ hsame =>
      refine TaskOk.same (h.congr ?_) hsame
      exact Sys.setRegistry_view σ head _ _ _ (fun _ _ _ => rfl) fun _ _ => rfl

theorem TaskOk.joined {head : ListHead} {list : List SockId} (h : TaskOk σ)
    (hjoined : Joined σ σ' p head list) : TaskOk σ' := by
  refine h.congr_live ?_ ?_ (fun q hq => ?_) fun q hq hnew => ?_
  · rw [hjoined.fds]
    cases head <;> rfl
  · rw [hjoined.live]
    exact Finset.subset_insert p _
  · exact ⟨hjoined.others (·.flag.tasked) (fun _ _ _ => rfl) hq,
      hjoined.others (·.index) (fun _ _ _ => rfl) hq, hjoined.others (·.fds) (fun _ _ _ => rfl) hq⟩
  · rw [hjoined.live] at hq
    rw [(Finset.mem_insert.mp hq).resolve_right hnew]
    exact hjoined.tasked

theorem TaskOk.free (h : TaskOk σ) (huntasked : (σ.mem p).flag.tasked = false) :
    TaskOk (σ.free p) := by
  constructor
  · intro i q hslot
    obtain ⟨hq, htasked, hindex⟩ := h.slot i q hslot
    refine ⟨Finset.mem_erase.mpr ⟨?_, hq⟩, htasked, hindex⟩
    rintro rfl
    rw [huntasked] at htasked
    contradiction
  · exact fun q hq => h.tasked q (Finset.mem_of_mem_erase hq)

theorem TaskOk.offered {s : Sock} (h : TaskOk σ) (hoffered : Offered σ p τ s) : TaskOk τ := by
  cases hoffered with
  | fresh => exact h
  | given hp hidle =>
      refine h.free ?_
      by_contra htasked
      have hfds := (h.tasked p hp (by simpa using htasked)).1
      rw [hidle.fds] at hfds
      contradiction

theorem TaskOk.connectRegist {raddr : Bool} {rport : Int} {os : ConnectRegistOs} {ret : Ptr}
    (h : TaskOk σ) (houtcome : ConnectOutcome σ sock raddr rport os ret σ') : TaskOk σ' := by
  cases houtcome with
  | nothing => exact h
  | failed p τ σ' s hoffered hundone => exact (h.offered hoffered).undone hundone
  | joined p τ σ' s list hoffered _ _ _ hjoined _ _ _ => exact (h.offered hoffered).joined hjoined
  | progressed p status actvTime _ _ _ _ => exact h.congr (Sys.modify_view σ p _ _ _ rfl)
  | lost p status τ σ' _ _ _ _ _ _ hτ hdel =>
      obtain ⟨σ₁, σ₂, h₁, h₂, h₃⟩ := connectDelRegist_cases hdel
      have hview : τ.taskView = σ.taskView := by
        rw [hτ]
        exact Sys.modify_view _ p _ _ _ rfl
      have hview₁ : σ₁.taskView = τ.taskView :=
        (cpFdsDelSockRegistry_view h₁ (fun _ _ _ => rfl) fun _ _ _ _ _ => rfl).1
      have htasks₁ := h.congr (hview₁.trans hview)
      exact (htasks₁.delSockTask h₂).term (htasks₁.untasked h₂) h₃

theorem TaskOk.detectTimeoutOne {now : Clock} (h : TaskOk σ)
    (hcall : detectTimeoutOne σ p now = .ok σ') : TaskOk σ' := by
  obtain ⟨_, rfl | ⟨events, rv, hadd⟩⟩ := detectTimeoutOne_cases hcall
  · exact h
  · exact (h.congr (Sys.modify_view σ p _ _ _ rfl)).addSockTask hadd

/-! All three together. -/

structure Consistent (σ : Sys) (n : Nat) : Prop where
  queue : QueueOk σ
  tasks : TaskOk σ
  ledger : Ledger σ σ.live n

theorem Consistent.epolled (h : Consistent σ n) (hp : p ∈ σ.live)
    (hflag : (σ.mem p).flag.epolled = true) : (σ.mem p).Active := by
  obtain ⟨_, hidle | hactive⟩ := h.ledger.settled p hp
  · rw [hidle.epolled] at hflag
    contradiction
  · exact hactive

theorem Consistent.member (h : Consistent σ n) (hp : p ∈ σ.live) (hfds : (σ.mem p).fds = true) :
    (σ.mem p).Active := by
  obtain ⟨_, hidle | hactive⟩ := h.ledger.settled p hp
  · rw [hidle.fds] at hfds
    contradiction
  · exact hactive

theorem Consistent.addEpollEvent {accept : Bool} (h : Consistent σ n)
    (hcall : cpAddEpollEvent σ sock accept = .ok (rv, σ')) : σ' = σ := by
  cases sock with
  | none => cases hcall; rfl
  | some p =>
      obtain ⟨hp, ⟨rfl, _⟩ | ⟨_, hflag, _⟩ | ⟨_, hfds, hflag, _⟩⟩ := cpAddEpollEvent_cases hcall
      · rfl
      · obtain ⟨_, hidle | hactive⟩ := h.ledger.settled p hp
        · simp only [cpAddEpollEvent, Sys.load_of_mem hp, ok_bind, hidle.fds] at hcall
          cases hcall
          rfl
        · rw [hactive.epolled] at hflag
          contradiction
      · obtain ⟨_, hidle | hactive⟩ := h.ledger.settled p hp
        · rw [hidle.fds] at hfds
          contradiction
        · rw [hactive.epolled] at hflag
          contradiction

theorem Consistent.addSockRegistry (h : Consistent σ n)
    (hcall : cpFdsAddSockRegistry σ sock = .ok (rv, σ')) : σ' = σ := by
  cases sock with
  | none => cases hcall; rfl
  | some p =>
      obtain ⟨hp, ⟨rfl, _⟩ | ⟨_, hfds, hflag, _⟩⟩ := cpFdsAddSockRegistry_cases hcall
      · rfl
      · obtain ⟨_, hidle | hactive⟩ := h.ledger.settled p hp
        · rw [hidle.fds] at hfds
          contradiction
        · rw [hactive.registry] at hflag
          contradiction

theorem Consistent.built (h : Consistent σ n) (hbuilt : Building σ σ' p) (hidle : (σ'.mem p).Idle)
    (hkern : σ'.kern = σ.kern) : Consistent σ' n where
  queue := h.queue.built hbuilt
  tasks := h.tasks.built hbuilt
  ledger := by
    rw [hbuilt.live]
    exact h.ledger.insert_idle (by rw [hkern]) (by rw [hbuilt.fds]) hbuilt.mem hbuilt.init hidle
      hbuilt.inqueue

theorem Consistent.undone (h : Consistent σ n) (hundone : Undone σ τ) : Consistent τ n :=
  ⟨h.queue.undone hundone, h.tasks.undone hundone, h.ledger.undone hundone⟩

theorem Consistent.joined {head : ListHead} {list : List SockId} (h : Consistent σ n)
    (hjoined : Joined σ σ' p head list)
    (hstatus : (σ'.mem p).status = .connecting ∨ (σ'.mem p).status = .already) : Consistent σ' n :=
  ⟨h.queue.joined hjoined, h.tasks.joined hjoined, h.ledger.joined hjoined hstatus⟩

theorem Consistent.sockInit (h : Consistent σ n) (malloced : Bool) (os : SockInitOs) :
    Consistent (cpSockInit σ malloced os).2 n := by
  rcases hinit : cpSockInit σ malloced os with ⟨sock, σ'⟩
  rcases cpSockInit_cases σ malloced os with hnone | ⟨p, _, hsome⟩
  · rw [hnone] at hinit
    cases hinit
    exact h
  · rw [hsome] at hinit
    cases hinit
    obtain ⟨hbuilt, hmem⟩ := Building.of_cpSockInit hsome
    refine h.built hbuilt ?_ rfl
    rw [hmem]
    exact sockBlank_idle _ _

theorem Consistent.serverRegist {port maxClient : Int} {serviceRoute : Option Callback}
    {data : Option Nat} {os : ServerRegistOs} (h : Consistent σ n)
    (hcall : cpSockServerRegist σ port maxClient serviceRoute data os = .ok (sock, σ')) :
    Consistent σ' n := by
  rcases cpSockServerRegist_cases hcall with ⟨_, hundone⟩ | ⟨p, list, _, _, hjoined, hstatus, _⟩
  · exact h.undone hundone
  · exact h.joined hjoined (Or.inr hstatus)

theorem Consistent.delSockTask (h : Consistent σ n) (hcall : cpFdsDelSockTask σ sock = .ok σ') :
    Consistent σ' n where
  queue := h.queue.congr (cpFdsDelSockTask_view hcall (fun _ _ => rfl) fun _ _ _ _ => rfl).1
  tasks := h.tasks.delSockTask hcall
  ledger := h.ledger.frame (cpFdsDelSockTask_view hcall (fun _ _ => rfl) fun _ _ _ _ => rfl)

theorem Consistent.acceptRegist {os : AcceptRegistOs} (h : Consistent σ n)
    (hcall : cpSockAcceptRegist σ sock os = .ok (rv, σ')) : Consistent σ' n := by
  cases sock with
  | none => cases hcall; exact h
  | some serv =>
      obtain ⟨_, ⟨τ, hundone, hdel, _⟩ | ⟨_, _, _, p, list, hjoined, hstatus, _⟩⟩ :=
        cpSockAcceptRegist_cases hcall
      · exact (h.undone hundone).delSockTask hdel
      · exact h.joined hjoined (Or.inr hstatus)

theorem Consistent.addSockTask (h : Consistent σ n) (hcall : cpFdsAddSockTask σ sock = .ok (rv, σ')) :
    Consistent σ' n where
  queue := h.queue.congr (cpFdsAddSockTask_view hcall (fun _ _ => rfl) fun _ _ _ => rfl).1
  tasks := h.tasks.addSockTask hcall
  ledger := h.ledger.frame (cpFdsAddSockTask_view hcall (fun _ _ => rfl) fun _ _ _ => rfl)

theorem Consistent.sockEnqueue {data : Ptr} {node : Bool} (h : Consistent σ n)
    (hready : ∀ p, sock = some p → (σ.mem p).status = .already)
    (hcall : cpFdsSockEnqueue σ sock node = .ok (data, σ')) : Consistent σ' n where
  queue := h.queue.sockEnqueue hcall
  tasks := h.tasks.congr (cpFdsSockEnqueue_view hcall (fun _ _ => rfl) fun _ _ => rfl).1
  ledger := by
    have hview : σ'.taskView = σ.taskView :=
      (cpFdsSockEnqueue_view hcall (fun _ _ => rfl) fun _ _ => rfl).1
    rw [Sys.live_of_view hview]
    exact h.ledger.sockEnqueue hready hcall

theorem Consistent.sockDequeue {data : Ptr} (h : Consistent σ n)
    (hcall : cpFdsSockDequeue σ = .ok (data, σ')) : Consistent σ' n where
  queue := h.queue.sockDequeue hcall
  tasks := h.tasks.congr (cpFdsSockDequeue_view hcall (fun _ _ => rfl) fun _ _ => rfl).1
  ledger := by
    obtain ⟨p, rest, _, _, _, rfl⟩ := cpFdsSockDequeue_cases hcall
    exact h.ledger.sockDequeue hcall

theorem Consistent.sockRmqueue {data : Ptr} (h : Consistent σ n)
    (hcall : cpFdsSockRmqueue σ sock = .ok (data, σ')) : Consistent σ' n where
  queue := h.queue.sockRmqueue hcall
  tasks := h.tasks.congr (cpFdsSockRmqueue_view hcall (fun _ _ => rfl) fun _ _ => rfl).1
  ledger := by
    have hview : σ'.taskView = σ.taskView :=
      (cpFdsSockRmqueue_view hcall (fun _ _ => rfl) fun _ _ => rfl).1
    rw [Sys.live_of_view hview]
    exact h.ledger.sockRmqueue hcall

theorem Consistent.destroySock (h : Consistent σ n) (hcall : cpFdsDestroySock σ sock = .ok σ') :
    Consistent σ' n :=
  ⟨h.queue.destroySock hcall, h.tasks.destroySock hcall, h.ledger.destroySock hcall⟩

theorem Consistent.detectOne {evt : EpollEvent} {now : ULong} {node : Bool} (h : Consistent σ n)
    (hcall : detectOne σ evt now node = .ok σ') : Consistent σ' n where
  queue := h.queue.detectOne hcall
  tasks := h.tasks.congr (detectOne_view hcall (fun _ _ => rfl) fun _ _ _ _ => rfl).1
  ledger := by
    have hview : σ'.taskView = σ.taskView :=
      (detectOne_view hcall (fun _ _ => rfl) fun _ _ _ _ => rfl).1
    rw [Sys.live_of_view hview]
    exact h.ledger.detectOne hcall

theorem Consistent.detectTimeoutOne {now : Clock} (h : Consistent σ n)
    (hcall : detectTimeoutOne σ p now = .ok σ') : Consistent σ' n where
  queue := h.queue.congr (detectTimeoutOne_view hcall (fun _ _ => rfl) fun _ _ _ _ => rfl).1
  tasks := h.tasks.detectTimeoutOne hcall
  ledger := h.ledger.frame (detectTimeoutOne_view hcall (fun _ _ => rfl) fun _ _ _ _ => rfl)

theorem Consistent.termAllTask (h : Consistent σ n) (hcall : cpSockTermAllTask σ = .ok σ') :
    Consistent σ' n := by
  have hqueue := queueOk_of_termAllTask hcall
  obtain ⟨σ₁, hloop, hdrain⟩ := bind_eq_ok_iff.mp hcall
  cases hdrain
  have h₁ : Consistent σ₁ n := foldlM_preserves (P := fun τ => Consistent τ n)
    (fun τ i υ _ hτ hdel => hτ.delSockTask hdel) h hloop
  exact ⟨hqueue, h₁.tasks.congr rfl, h₁.ledger.congr_view ⟨rfl, rfl⟩⟩

/-- No connect that is still going on fails when it is asked about again. -/
def KeepsCount (σ : Sys) : Call → Prop
  | .connectRegist sock raddr rport _ _ os => ∀ p, sock = some p → (σ.mem p).status = .connecting →
      (σ.mem p).flag.epolled = true → raddr = true → 0 ≤ rport →
        rport ≠ 0 ∧ os.connect.again ≠ .failed
  | _ => True

theorem Consistent.connectRegist {raddr : Bool} {rport lport : Int} {serviceRoute : Option Callback}
    {os : ConnectRegistOs} {ret : Ptr} (h : Consistent σ n)
    (hcall : cpSockConnectRegist σ sock raddr rport lport serviceRoute os = .ok (ret, σ')) :
    ∃ m, Consistent σ' m ∧
      (KeepsCount σ (.connectRegist sock raddr rport lport serviceRoute os) → m = n) := by
  have houtcome := h.ledger.connectRegist_cases (fun p hp ht => (h.tasks.tasked p hp ht).1) hcall
  have hqueue := h.queue.connectRegist h.ledger houtcome
  have htasks := h.tasks.connectRegist houtcome
  rcases h.ledger.connectRegist houtcome with
    hledger | ⟨hledger, p, hsock, hold, hepolled, hraddr, hrport, hwhy⟩
  · exact ⟨n, ⟨hqueue, htasks, hledger⟩, fun _ => rfl⟩
  · refine ⟨n + 1, ⟨hqueue, htasks, hledger⟩, fun hkeeps => ?_⟩
    obtain ⟨hne, hagain⟩ := hkeeps p hsock hold hepolled hraddr hrport
    exact (hwhy.elim hne hagain).elim

theorem Consistent.call {c : Call} (h : Consistent σ n) (hok : InHistory σ c)
    (hcall : σ.call c = .ok σ') : ∃ m, Consistent σ' m ∧ (KeepsCount σ c → m = n) := by
  cases c with
  | modEpollEvent | delEpollEvent | delSockRegistry => exact absurd hok id
  | sockInit malloced os =>
      cases hcall
      exact ⟨n, h.sockInit malloced os, fun _ => rfl⟩
  | connectRegist sock raddr rport lport serviceRoute os =>
      obtain ⟨⟨sock', τ⟩, hret, rfl⟩ := map_eq_ok_iff.mp hcall
      exact h.connectRegist hret
  | serverRegist port maxClient serviceRoute data os =>
      obtain ⟨⟨sock, τ⟩, hret, rfl⟩ := map_eq_ok_iff.mp hcall
      exact ⟨n, h.serverRegist hret, fun _ => rfl⟩
  | acceptRegist servSock os =>
      obtain ⟨⟨rv, τ⟩, hret, rfl⟩ := map_eq_ok_iff.mp hcall
      exact ⟨n, h.acceptRegist hret, fun _ => rfl⟩
  | addEpollEvent sock accept =>
      obtain ⟨⟨rv, τ⟩, hret, rfl⟩ := map_eq_ok_iff.mp hcall
      exact ⟨n, h.addEpollEvent hret ▸ h, fun _ => rfl⟩
  | addSockRegistry sock =>
      obtain ⟨⟨rv, τ⟩, hret, rfl⟩ := map_eq_ok_iff.mp hcall
      exact ⟨n, h.addSockRegistry hret ▸ h, fun _ => rfl⟩
  | addSockTask sock =>
      obtain ⟨⟨rv, τ⟩, hret, rfl⟩ := map_eq_ok_iff.mp hcall
      exact ⟨n, h.addSockTask hret, fun _ => rfl⟩
  | delSockTask sock => exact ⟨n, h.delSockTask hcall, fun _ => rfl⟩
  | sockEnqueue sock node =>
      obtain ⟨⟨data, τ⟩, hret, rfl⟩ := map_eq_ok_iff.mp hcall
      exact ⟨n, h.sockEnqueue hok hret, fun _ => rfl⟩
  | sockDequeue =>
      obtain ⟨⟨data, τ⟩, hret, rfl⟩ := map_eq_ok_iff.mp hcall
      exact ⟨n, h.sockDequeue hret, fun _ => rfl⟩
  | sockRmqueue sock =>
      obtain ⟨⟨data, τ⟩, hret, rfl⟩ := map_eq_ok_iff.mp hcall
      exact ⟨n, h.sockRmqueue hret, fun _ => rfl⟩
  | destroySock sock => exact ⟨n, h.destroySock hcall, fun _ => rfl⟩
  | detectEvent wait =>
      obtain ⟨⟨rv, τ⟩, hret, rfl⟩ := map_eq_ok_iff.mp hcall
      refine ⟨n, ?_, fun _ => rfl⟩
      exact cpFdsDetectEvent_preserves (P := fun τ => Consistent τ n)
        (fun τ evt now node υ hτ hone => hτ.detectOne hone) h hret
  | detectTimeout now =>
      refine ⟨n, ?_, fun _ => rfl⟩
      exact cpSockDetectTimeout_preserves (P := fun τ => Consistent τ n)
        (fun τ p υ hτ hone => hτ.detectTimeoutOne hone) h hcall
  | termAllTask => exact ⟨n, h.termAllTask hcall, fun _ => rfl⟩

end Fl2440.CpLibrary
