import Fl2440.CpLibrary.EventQueue
import Fl2440.CpLibrary.TaskArray
import Fl2440.CpLibrary.Registry

/-! The flags of a socket against the containers of its context, over runs of the
calls that change either. -/
namespace Fl2440.CpLibrary

open Fl2440.Lib

variable {σ σ' τ : Sys} {p : SockId} {sock : Ptr} {rv : Int}

theorem Sys.Valid.congr {β γ : Type} {g : Fds → γ} {field : Sock → β} (h : σ.Valid sock)
    (hview : τ.view g field = σ.view g field) : τ.Valid sock := by
  intro p hp
  rw [(Sys.view_eq_iff.mp hview).2.1]
  exact h p hp

def Sys.Removable (σ : Sys) (sock : Ptr) : Prop :=
  ∀ p, sock = some p → (σ.mem p).flag.inqueue = true →
    p ∈ σ.fds.eventQueue.nodes ∨ σ.fds.eventQueue.nodes = []

theorem QueueComplete.removable (h : QueueComplete σ) (hvalid : σ.Valid sock) :
    σ.Removable sock := fun p hp hin => Or.inl (h p (hvalid p hp) hin)

theorem cpFdsDestroySock_faultsOnly {allowed : Fault → Prop} (hvalid : σ.Valid sock)
    (hqueue : allowed .null ∨ σ.Removable sock) (htasks : TaskOk σ) (hregistry : RegistryOk σ) :
    FaultsOnly allowed (cpFdsDestroySock σ sock) := by
  refine (htasks.delSockTask_faultsOnly hvalid).bind fun σ₁ h₁ => ?_
  have hqueue₁ : σ₁.queueView = σ.queueView :=
    (cpFdsDelSockTask_view h₁ (fun _ _ => rfl) fun _ _ _ _ => rfl).1
  have hview₁ : σ₁.registryView = σ.registryView :=
    (cpFdsDelSockTask_view h₁ (fun _ _ => rfl) fun _ _ _ _ => rfl).1
  have hvalid₁ := hvalid.congr hview₁
  have hremovable : allowed .null ∨ σ₁.Removable sock := by
    refine hqueue.imp_right fun hrem p hp hin => ?_
    obtain ⟨hnodes, _, hmem⟩ := Sys.view_eq_iff.mp hqueue₁
    rw [hnodes]
    exact hrem p hp ((Prod.mk.inj (hmem p)).1 ▸ hin)
  refine (cpFdsSockRmqueue_faultsOnly hvalid₁ hremovable).bind fun r₂ h₂ => ?_
  have hview₂ : r₂.2.registryView = σ₁.registryView :=
    (cpFdsSockRmqueue_view h₂ (fun _ _ => rfl) fun _ _ => rfl).1
  have hvalid₂ := hvalid₁.congr hview₂
  refine (cpDelEpollEvent_faultsOnly hvalid₂).bind fun σ₃ h₃ => ?_
  have hview₃ : σ₃.registryView = r₂.2.registryView :=
    cpDelEpollEvent_view h₃ (fun _ _ => rfl) fun _ _ => rfl
  have hvalid₃ := hvalid₂.congr hview₃
  have hregistry₃ := hregistry.congr ((hview₃.trans hview₂).trans hview₁)
  refine (hregistry₃.delSockRegistry_faultsOnly hvalid₃).bind fun σ₄ h₄ => ?_
  refine cpSockTerm_faultsOnly fun p hp => ?_
  rw [delSockRegistry_live h₄]
  exact hvalid₃ p hp

/-- All flags agree with all containers. -/
structure Coherent (σ : Sys) : Prop where
  queue : QueueOk σ
  complete : QueueComplete σ
  tasks : TaskOk σ
  registry : RegistryOk σ

/-- A call on the flags and containers in a state that it keeps together: its
socket is alive; what it enqueues gets into the queue; what it registers has a
list to go to; what it destroys has no clients left; and the whole queue is
only emptied when nothing is in it. -/
def KeepsTogether (σ : Sys) : Call → Prop
  | .addSockTask sock | .delSockTask sock | .sockRmqueue sock | .delSockRegistry sock =>
      σ.Valid sock
  | .sockEnqueue sock node => σ.Valid sock ∧ ∀ p, sock = some p →
      (σ.mem p).flag.inqueue = false → (σ.mem p).flag.tasked = false → (σ.mem p).fds = true →
        node = true ∧ (σ.fds.eventQueue.nodes.length : Int) < σ.fds.eventQueue.size
  | .sockDequeue => σ.fds.eventQueue.nodes ≠ []
  | .addSockRegistry sock => σ.Valid sock ∧ ∀ p head, sock = some p → (σ.mem p).fds = true →
      (σ.mem p).flag.registry = false → (σ.mem p).home = some head →
        ∃ list, σ.registry head = .ok list
  | .destroySock sock => σ.Valid sock ∧ ∀ p, sock = some p → σ.Childless p
  | .termAllTask => σ.fds.eventQueue.nodes = []
  | _ => False

theorem Coherent.addSockTask (h : Coherent σ) (hcall : cpFdsAddSockTask σ sock = .ok (rv, σ')) :
    Coherent σ' where
  queue := h.queue.congr (cpFdsAddSockTask_view hcall (fun _ _ => rfl) fun _ _ _ => rfl).1
  complete := h.complete.congr (cpFdsAddSockTask_view hcall (fun _ _ => rfl) fun _ _ _ => rfl).1
  tasks := h.tasks.addSockTask hcall
  registry := h.registry.congr (cpFdsAddSockTask_view hcall (fun _ _ => rfl) fun _ _ _ => rfl).1

theorem Coherent.delSockTask (h : Coherent σ) (hcall : cpFdsDelSockTask σ sock = .ok σ') :
    Coherent σ' where
  queue := h.queue.congr (cpFdsDelSockTask_view hcall (fun _ _ => rfl) fun _ _ _ _ => rfl).1
  complete := h.complete.congr (cpFdsDelSockTask_view hcall (fun _ _ => rfl) fun _ _ _ _ => rfl).1
  tasks := h.tasks.delSockTask hcall
  registry := h.registry.congr (cpFdsDelSockTask_view hcall (fun _ _ => rfl) fun _ _ _ _ => rfl).1

theorem Coherent.sockEnqueue {data : Ptr} {node : Bool} (h : Coherent σ)
    (hok : KeepsTogether σ (.sockEnqueue sock node))
    (hcall : cpFdsSockEnqueue σ sock node = .ok (data, σ')) : Coherent σ' where
  queue := h.queue.sockEnqueue hcall
  complete := h.complete.sockEnqueue hok.2 hcall
  tasks := h.tasks.congr (cpFdsSockEnqueue_view hcall (fun _ _ => rfl) fun _ _ => rfl).1
  registry := h.registry.congr (cpFdsSockEnqueue_view hcall (fun _ _ => rfl) fun _ _ => rfl).1

theorem Coherent.sockDequeue {data : Ptr} (h : Coherent σ)
    (hcall : cpFdsSockDequeue σ = .ok (data, σ')) : Coherent σ' where
  queue := h.queue.sockDequeue hcall
  complete := h.complete.sockDequeue hcall
  tasks := h.tasks.congr (cpFdsSockDequeue_view hcall (fun _ _ => rfl) fun _ _ => rfl).1
  registry := h.registry.congr (cpFdsSockDequeue_view hcall (fun _ _ => rfl) fun _ _ => rfl).1

theorem Coherent.sockRmqueue {data : Ptr} (h : Coherent σ)
    (hcall : cpFdsSockRmqueue σ sock = .ok (data, σ')) : Coherent σ' where
  queue := h.queue.sockRmqueue hcall
  complete := h.complete.sockRmqueue hcall
  tasks := h.tasks.congr (cpFdsSockRmqueue_view hcall (fun _ _ => rfl) fun _ _ => rfl).1
  registry := h.registry.congr (cpFdsSockRmqueue_view hcall (fun _ _ => rfl) fun _ _ => rfl).1

theorem Coherent.addSockRegistry (h : Coherent σ)
    (hcall : cpFdsAddSockRegistry σ sock = .ok (rv, σ')) : Coherent σ' where
  queue := h.queue.congr (cpFdsAddSockRegistry_view hcall (fun _ _ _ => rfl) fun _ _ _ _ _ => rfl).1
  complete := h.complete.congr
    (cpFdsAddSockRegistry_view hcall (fun _ _ _ => rfl) fun _ _ _ _ _ => rfl).1
  tasks := h.tasks.congr (cpFdsAddSockRegistry_view hcall (fun _ _ _ => rfl) fun _ _ _ _ _ => rfl).1
  registry := h.registry.addSockRegistry hcall

theorem Coherent.delSockRegistry (h : Coherent σ)
    (hcall : cpFdsDelSockRegistry σ sock = .ok σ') : Coherent σ' where
  queue := h.queue.congr (cpFdsDelSockRegistry_view hcall (fun _ _ _ => rfl) fun _ _ _ _ _ => rfl).1
  complete := h.complete.congr
    (cpFdsDelSockRegistry_view hcall (fun _ _ _ => rfl) fun _ _ _ _ _ => rfl).1
  tasks := h.tasks.congr (cpFdsDelSockRegistry_view hcall (fun _ _ _ => rfl) fun _ _ _ _ _ => rfl).1
  registry := h.registry.delSockRegistry hcall

theorem Coherent.destroySock (h : Coherent σ) (hchildless : ∀ p, sock = some p → σ.Childless p)
    (hcall : cpFdsDestroySock σ sock = .ok σ') : Coherent σ' where
  queue := h.queue.destroySock hcall
  complete := h.complete.destroySock hcall
  tasks := h.tasks.destroySock hcall
  registry := h.registry.destroySock hchildless hcall

theorem TaskOk.valid_task (h : TaskOk σ) (i : Nat) : σ.Valid (σ.task i) := by
  intro p hp
  unfold Sys.task at hp
  exact (h.slot i p (Option.join_eq_some_iff.mp hp)).1

theorem TaskOk.termAllTask_faultsOnly {allowed : Fault → Prop} (h : TaskOk σ) :
    FaultsOnly allowed (cpSockTermAllTask σ) := by
  refine FaultsOnly.bind ?_ fun _ _ => .pure _ _
  exact foldlM_faultsOnly (fun τ i υ _ hτ hdel => hτ.delSockTask hdel)
    (fun τ i _ hτ => hτ.delSockTask_faultsOnly (hτ.valid_task i)) h

theorem Coherent.termAllTask (h : Coherent σ) (hempty : σ.fds.eventQueue.nodes = [])
    (hcall : cpSockTermAllTask σ = .ok σ') : Coherent σ' := by
  obtain ⟨σ₁, hloop, hdrain⟩ := bind_eq_ok_iff.mp hcall
  obtain ⟨h₁, hnil⟩ := foldlM_preserves
    (P := fun τ => Coherent τ ∧ τ.fds.eventQueue.nodes = [])
    (fun τ i υ _ ⟨hτ, hnil⟩ hdel => by
      refine ⟨hτ.delSockTask hdel, ?_⟩
      have hview : υ.view (·.eventQueue.nodes) (fun _ => ()) = τ.view _ _ :=
        (cpFdsDelSockTask_view hdel (fun _ _ => rfl) fun _ _ _ _ => rfl).1
      exact (Sys.view_eq_iff.mp hview).1.trans hnil)
    ⟨h, hempty⟩ hloop
  cases hdrain
  have hsame : cpQueueDrain σ₁.fds.eventQueue = σ₁.fds.eventQueue := by
    rw [cpQueueDrain_eq, ← hnil]
  rw [hsame]
  exact h₁

theorem Coherent.call {c : Call} (h : Coherent σ) (hok : KeepsTogether σ c)
    (hcall : σ.call c = .ok σ') : Coherent σ' := by
  cases c with
  | addSockTask sock =>
      obtain ⟨⟨rv, τ⟩, hret, rfl⟩ := map_eq_ok_iff.mp hcall
      exact h.addSockTask hret
  | delSockTask sock => exact h.delSockTask hcall
  | sockEnqueue sock node =>
      obtain ⟨⟨data, τ⟩, hret, rfl⟩ := map_eq_ok_iff.mp hcall
      exact h.sockEnqueue hok hret
  | sockDequeue =>
      obtain ⟨⟨data, τ⟩, hret, rfl⟩ := map_eq_ok_iff.mp hcall
      exact h.sockDequeue hret
  | sockRmqueue sock =>
      obtain ⟨⟨data, τ⟩, hret, rfl⟩ := map_eq_ok_iff.mp hcall
      exact h.sockRmqueue hret
  | addSockRegistry sock =>
      obtain ⟨⟨rv, τ⟩, hret, rfl⟩ := map_eq_ok_iff.mp hcall
      exact h.addSockRegistry hret
  | delSockRegistry sock => exact h.delSockRegistry hcall
  | destroySock sock => exact h.destroySock hok.2 hcall
  | termAllTask => exact h.termAllTask hok hcall
  | sockInit | serverRegist | acceptRegist | connectRegist | addEpollEvent | modEpollEvent
  | delEpollEvent | detectEvent | detectTimeout => exact absurd hok id

theorem Coherent.call_faultsOnly {c : Call} {allowed : Fault → Prop} (h : Coherent σ)
    (hok : KeepsTogether σ c) : FaultsOnly allowed (σ.call c) := by
  cases c with
  | addSockTask sock => exact (cpFdsAddSockTask_faultsOnly hok).map _
  | delSockTask sock => exact h.tasks.delSockTask_faultsOnly hok
  | sockEnqueue sock node => exact (cpFdsSockEnqueue_faultsOnly hok.1).map _
  | sockDequeue =>
      obtain ⟨p, rest, hnodes⟩ := List.exists_cons_of_ne_nil hok
      have hp := (h.queue.marked p (by rw [hnodes]; exact List.mem_cons_self)).1
      exact (cpFdsSockDequeue_faultsOnly hnodes hp).map _
  | sockRmqueue sock =>
      exact (cpFdsSockRmqueue_faultsOnly hok (Or.inr (h.complete.removable hok))).map _
  | addSockRegistry sock => exact (cpFdsAddSockRegistry_faultsOnly hok.1 hok.2).map _
  | delSockRegistry sock => exact h.registry.delSockRegistry_faultsOnly hok
  | destroySock sock =>
      exact cpFdsDestroySock_faultsOnly hok.1 (Or.inr (h.complete.removable hok.1)) h.tasks h.registry
  | termAllTask => exact h.tasks.termAllTask_faultsOnly
  | sockInit | serverRegist | acceptRegist | connectRegist | addEpollEvent | modEpollEvent
  | delEpollEvent | detectEvent | detectTimeout => exact absurd hok id

structure Sock.Unused (s : Sock) : Prop where
  inqueue : s.flag.inqueue = false
  tasked : s.flag.tasked = false
  registry : s.flag.registry = false
  rlist : s.rlist = none
  acceptList : s.acceptList = none ∨ s.acceptList = some []

theorem coherent_start {kern kern' : Kernel} {malloced : Bool} {maxevents timeout : Int}
    {os : InitOs} {fds : Fds} (hinit : cpFdsInit kern malloced maxevents timeout os = some (fds, kern'))
    {live : Finset SockId} {mem : SockId → Sock} (hmem : ∀ p ∈ live, (mem p).Unused) :
    Coherent ⟨fds, mem, live, kern'⟩ := by
  obtain ⟨_, _, hserver, hclient, hqueue, harray, _⟩ := cpFdsInit_spec hinit
  have hnodes : fds.eventQueue.nodes = [] := by
    rw [hqueue]
    rfl
  have hslots : ∀ i : Nat, ∀ p, fds.taskArray.data[i]? ≠ some (some p) := by
    intro i p hslot
    rw [harray] at hslot
    have hmem := List.mem_of_getElem? hslot
    simp [cpArrayInit] at hmem
  refine ⟨?_, fun p hp hin => ?_, ⟨fun i p hslot => absurd hslot (hslots i p), fun p hp ht => ?_⟩,
    ⟨fun head list hlist => ?_, fun p hp head hlink => ?_, fun p hp => ?_, fun p hp head hlink => ?_⟩⟩
  · unfold QueueOk
    simp only [hnodes]
    exact Marked.nil _
  · rw [(hmem p hp).inqueue] at hin
    contradiction
  · rw [(hmem p hp).tasked] at ht
    contradiction
  · have hnil : list = [] := by
      cases head with
      | client => exact (Except.ok.inj hlist).symm.trans hclient
      | server => exact (Except.ok.inj hlist).symm.trans hserver
      | accept serv =>
          obtain ⟨hserv, hsome⟩ := Sys.registry_accept_ok_iff.mp hlist
          rcases (hmem serv hserv).acceptList with hnone | hempty
          · rw [hnone] at hsome
            contradiction
          · exact Option.some.inj (hsome.symm.trans hempty)
    rw [hnil]
    refine ⟨Marked.nil _, fun p hlinked => ?_⟩
    rw [Sys.LinkedTo, (hmem p hlinked.1).rlist] at hlinked
    exact absurd hlinked.2 (by simp)
  · rw [(hmem p hp).rlist] at hlink
    contradiction
  · rw [(hmem p hp).registry, (hmem p hp).rlist]
    rfl
  · rw [(hmem p hp).rlist] at hlink
    contradiction

structure Agrees (σ : Sys) (p : SockId) : Prop where
  inqueue : σ.fds.eventQueue.nodes.count p = if (σ.mem p).flag.inqueue then 1 else 0
  tasked : ∀ i : Nat, σ.fds.taskArray.data[i]? = some (some p) ↔
    (σ.mem p).flag.tasked = true ∧ (σ.mem p).index = i
  index : (σ.mem p).flag.tasked = true → ∃ i : Nat, (σ.mem p).index = i
  registry : (σ.mem p).flag.registry = true ↔ ∃ head list,
    (σ.mem p).home = some head ∧ σ.registry head = .ok list ∧ list.count p = 1

theorem Coherent.agrees (h : Coherent σ) (hp : p ∈ σ.live) : Agrees σ p where
  inqueue := by
    split
    · rename_i hin
      exact List.count_eq_one_of_mem h.queue.nodup (h.complete p hp hin)
    · rename_i hin
      exact List.count_eq_zero_of_not_mem (h.queue.not_mem (by simpa using hin))
  tasked := h.tasks.slot_iff hp
  index htasked := by
    obtain ⟨_, i, hindex, _⟩ := h.tasks.tasked p hp htasked
    exact ⟨i, hindex⟩
  registry := by
    rw [h.registry.flag p hp]
    constructor
    · intro hsome
      obtain ⟨head, hlink⟩ := Option.isSome_iff_exists.mp hsome
      obtain ⟨list, hlist⟩ := h.registry.head p hp head hlink
      have hholds := h.registry.holds head list hlist
      exact ⟨head, list, h.registry.home p hp head hlink, hlist,
        List.count_eq_one_of_mem hholds.nodup (hholds.complete p ⟨hp, hlink⟩)⟩
    · rintro ⟨head, list, _, hlist, hone⟩
      have hmem : p ∈ list := List.count_pos_iff.mp (by omega)
      rw [((h.registry.holds head list hlist).marked p hmem).2]
      rfl

/-- Flags and containers agree after every run of admissible calls, and no such
run goes wrong. -/
theorem flags_agree_with_containers {kern kern' : Kernel} {malloced : Bool}
    {maxevents timeout : Int} {os : InitOs} {fds : Fds}
    (hinit : cpFdsInit kern malloced maxevents timeout os = some (fds, kern'))
    {live : Finset SockId} {mem : SockId → Sock} (hmem : ∀ p ∈ live, (mem p).Unused)
    (calls : List Call) (hcalls : Along Sys.call KeepsTogether ⟨fds, mem, live, kern'⟩ calls) :
    ∃ σ, exec Sys.call ⟨fds, mem, live, kern'⟩ calls = .ok σ ∧ ∀ p ∈ σ.live, Agrees σ p := by
  have hstart := coherent_start hinit hmem
  have hstep : ∀ σ c τ, KeepsTogether σ c → Coherent σ → σ.call c = .ok τ → Coherent τ :=
    fun σ c τ hok hσ hcall => hσ.call hok hcall
  obtain ⟨σ, hrun⟩ := (exec_faultsOnly hstep (fun σ c hok hσ => hσ.call_faultsOnly hok)
    hstart hcalls).exists_ok
  have hσ := exec_preserves hstep hstart hcalls hrun
  exact ⟨σ, hrun, fun p hp => hσ.agrees hp⟩

private def member : Sock := { fds := true, mode := .connect, fd := 5, index := -1 }

private theorem member_unused : member.Unused := ⟨rfl, rfl, rfl, rfl, Or.inl rfl⟩

private def sizeOneOs : InitOs := ⟨true, true, some 3⟩

/-- A context of size 1 and two sockets, one of which passes through the queue. -/
theorem flags_agree_through_queue :
    ∃ fds kern', cpFdsInit .bare false 1 0 sizeOneOs = some (fds, kern') ∧
      ∃ σ, exec Sys.call ⟨fds, fun _ => member, {1, 2}, kern'⟩
        [.sockEnqueue (some 1) true, .sockDequeue] = .ok σ ∧ ∀ p ∈ σ.live, Agrees σ p := by
  have hinit : cpFdsInit .bare false 1 0 sizeOneOs = some (_, _) := rfl
  refine ⟨_, _, rfl, flags_agree_with_containers hinit (fun _ _ => member_unused) _ ?_⟩
  refine ⟨⟨fun p hp => ?_, fun p hp _ _ _ => ⟨rfl, by decide⟩⟩, fun t ht => ⟨?_, fun _ _ => trivial⟩⟩
  · cases hp
    decide
  · obtain ⟨⟨data, τ⟩, hret, rfl⟩ := map_eq_ok_iff.mp ht
    cases hret
    simp [KeepsTogether, cpQueueInit]

/-- A queue of size 1 refuses the second socket, which from then on says it is
queued: the queue runs empty and still nobody can enqueue it. -/
theorem refused_enqueue_keeps_flag :
    ∃ fds kern', cpFdsInit .bare false 1 0 sizeOneOs = some (fds, kern') ∧
      (∀ p ∈ ({1, 2} : Finset SockId), ((fun _ => member : SockId → Sock) p).Unused) ∧
      ∃ σ, exec Sys.call ⟨fds, fun _ => member, {1, 2}, kern'⟩
        [.sockEnqueue (some 1) true, .sockEnqueue (some 2) true, .sockDequeue] = .ok σ ∧
        2 ∈ σ.live ∧ ¬ Agrees σ 2 ∧ σ.fds.eventQueue.nodes = [] ∧
        cpFdsSockEnqueue σ (some 2) true = .ok (none, σ) := by
  refine ⟨_, _, rfl, fun _ _ => member_unused, _, rfl, by decide, fun h => ?_, rfl, rfl⟩
  have hcount := h.inqueue
  contradiction

end Fl2440.CpLibrary
