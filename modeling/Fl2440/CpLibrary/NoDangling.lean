import Fl2440.CpLibrary.Capacity
import Fl2440.CpLibrary.Coherence
import Fl2440.CpLibrary.Dispatch
import Fl2440.CpLibrary.ListenSocket

/-! No container ever holds a socket that is gone, and neither the dispatch nor
the shutdown follows one, whatever the callbacks destroy. -/
namespace Fl2440.CpLibrary

open Fl2440.Lib

variable {σ σ' τ : Sys} {p : SockId} {sock tsock : Ptr} {rv : Int} {n : Nat}
variable {head : ListHead} {list : List SockId}

/-! The walks. Each entry is taken out before the walk goes on, so the cursors
always stand at the head of what is left. -/

def Sys.AtHead (σ : Sys) (head : ListHead) (sock tsock : Ptr) : Prop :=
  ∃ list, σ.registry head = .ok list ∧ list.head? = sock ∧ list.tail.head? = tsock

theorem RegistryOk.nextEntry (h : RegistryOk σ) (hlist : σ.registry head = .ok list) :
    σ.nextEntry list.head? = .ok list.tail.head? := by
  cases list with
  | nil => rfl
  | cons p rest =>
      obtain ⟨hp, hlink⟩ := (h.holds head _ hlist).marked p List.mem_cons_self
      simp only [List.head?_cons, Sys.nextEntry, Sys.load_of_mem hp, ok_bind, hlink, hlist,
        ne_eq, decide_not, List.dropWhile_cons, decide_true, Bool.not_true, Bool.false_eq_true,
        if_false, List.tail_cons]
      rfl

theorem RegistryOk.walkStart (h : RegistryOk σ) (hlist : σ.registry head = .ok list) :
    σ.walkStart head = .ok (list.head?, list.tail.head?) := by
  simp only [Sys.walkStart, Sys.firstEntry, hlist, ok_bind]
  rw [show (pure list.head? : Except Fault Ptr) = .ok list.head? from rfl, ok_bind,
    h.nextEntry hlist]
  rfl

theorem RegistryOk.destroySock_registry (h : RegistryOk σ)
    (hcall : cpFdsDestroySock σ (some p) = .ok σ') (hlink : (σ.mem p).rlist = some head)
    (hlist : σ.registry head = .ok list) :
    (head ≠ .accept p → σ'.registry head = .ok (list.erase p)) ∧
      ∀ head', head' ≠ head → head' ≠ .accept p → σ'.registry head' = σ.registry head' := by
  obtain ⟨σ₁, data, σ₂, σ₃, σ₄, h₁, h₂, h₃, h₄, h₅⟩ := cpFdsDestroySock_cases hcall
  have hview₁ : σ₁.registryView = σ.registryView :=
    (cpFdsDelSockTask_view h₁ (fun _ _ => rfl) fun _ _ _ _ => rfl).1
  have hview₂ : σ₂.registryView = σ₁.registryView :=
    (cpFdsSockRmqueue_view h₂ (fun _ _ => rfl) fun _ _ => rfl).1
  have hview₃ : σ₃.registryView = σ₂.registryView :=
    cpDelEpollEvent_view h₃ (fun _ _ => rfl) fun _ _ => rfl
  have hview := (hview₃.trans hview₂).trans hview₁
  have hreg₃ : σ₃.registry = σ.registry := registry_of_registryView hview
  have hlink₃ : (σ₃.mem p).rlist = some head :=
    ((registryView_eq_iff.mp hview).2.2 p).2.1.trans hlink
  obtain ⟨_, hfds₅, hlive₅, hmem₅, _⟩ := cpSockTerm_spec h₅
  have hlast : ∀ head', head' ≠ .accept p → σ'.registry head' = σ₄.registry head' :=
    fun head' hne => registry_shrink hfds₅ hlive₅ hmem₅ hne
  have hregistry₃ := h.congr hview
  obtain ⟨hp, ⟨hflag, _⟩ | ⟨head₀, list₀, hlink₀, hlist₀, rfl⟩⟩ := hregistry₃.delSockRegistry_cases h₄
  · rw [hregistry₃.unlinked hp hflag] at hlink₃
    contradiction
  · rw [hlink₃] at hlink₀
    cases hlink₀
    rw [hreg₃, hlist] at hlist₀
    cases hlist₀
    have hlist₃ : (σ₃.countAccept head (-1)).registry head = .ok list := by
      rw [countAccept_registry, hreg₃, hlist]
    have hset : ∀ head', (((σ₃.countAccept head (-1)).setRegistry head (list.erase p)).modify p
        fun s => { s with rlist := none, flag.registry := false }).registry head' =
        ((σ₃.countAccept head (-1)).setRegistry head (list.erase p)).registry head' := by
      intro head'
      rw [modify_registry]
      rfl
    constructor
    · intro hne
      rw [hlast head hne, hset, setRegistry_registry_self hlist₃]
    · intro head' hne hne'
      rw [hlast head' hne', hset, setRegistry_registry_ne _ _ hne, countAccept_registry, hreg₃]

theorem cpFdsDestroySock_spec (h : cpFdsDestroySock σ (some p) = .ok σ') :
    p ∈ σ.live ∧ σ'.live = σ.live.erase p ∧
      σ'.fds.eventQueue.nodes.Sublist σ.fds.eventQueue.nodes := by
  obtain ⟨σ₁, data, σ₂, σ₃, σ₄, h₁, h₂, h₃, h₄, h₅⟩ := cpFdsDestroySock_cases h
  have hview₁ : σ₁.view (·.eventQueue.nodes) (fun _ => ()) = σ.view _ _ :=
    (cpFdsDelSockTask_view h₁ (fun _ _ => rfl) fun _ _ _ _ => rfl).1
  have hview₂ : σ₂.view (fun _ => ()) (fun _ => ()) = σ₁.view _ _ :=
    (cpFdsSockRmqueue_view h₂ (fun _ _ => rfl) fun _ _ => rfl).1
  have hview₃ : σ₃.view (·.eventQueue.nodes) (fun _ => ()) = σ₂.view _ _ :=
    cpDelEpollEvent_view h₃ (fun _ _ => rfl) fun _ _ => rfl
  have hview₄ : σ₄.view (·.eventQueue.nodes) (fun _ => ()) = σ₃.view _ _ :=
    (cpFdsDelSockRegistry_view h₄ (fun _ _ _ => rfl) fun _ _ _ _ _ => rfl).1
  obtain ⟨hnodes₁, hlive₁, _⟩ := Sys.view_eq_iff.mp hview₁
  obtain ⟨hnodes₄, hlive₄, _⟩ := Sys.view_eq_iff.mp (hview₄.trans hview₃)
  obtain ⟨_, hfds₅, hlive₅, _⟩ := cpSockTerm_spec h₅
  refine ⟨(cpFdsDelSockTask_cases h₁).1, ?_, ?_⟩
  · rw [hlive₅, hlive₄, Sys.live_of_view hview₂, hlive₁]
  · rw [hfds₅, hnodes₄, ← hnodes₁]
    obtain ⟨_, ⟨_, rfl⟩ | ⟨_, _, rfl⟩⟩ := cpFdsSockRmqueue_cases h₂
    · exact List.Sublist.refl _
    · exact List.erase_sublist

theorem Intact.nobody (h : Intact σ n) (hp : p ∈ σ.live) (hlink : (σ.mem p).rlist = some head)
    (hne : head ≠ .server) : ∀ q ∈ σ.live, (σ.mem q).rlist ≠ some (.accept p) := by
  have hhome := h.registry.home p hp head hlink
  have hmode : (σ.mem p).mode ≠ .listen := by
    intro hlisten
    simp only [Sock.home, hlisten, Option.some.injEq] at hhome
    exact hne hhome.symm
  exact h.registry.nobody ((h.listen p hp).acceptList_none (Or.inr (Or.inr hmode)))

theorem Intact.walkOn (h : Intact σ n) (hdown : σ.fds.eventQueue.nodes = [])
    (hhead : σ.AtHead head (some p) tsock) (hne : head ≠ .accept p) (hchildless : σ.Childless p) :
    ∃ σ' tsock' m, σ.walkOn p tsock = .ok (σ', tsock') ∧ Intact σ' m ∧
      σ'.fds.eventQueue.nodes = [] ∧ σ'.AtHead head tsock tsock' ∧
      ∀ head', head' ≠ head → head' ≠ .accept p → σ'.registry head' = σ.registry head' := by
  obtain ⟨list, hlist, hp, rfl⟩ := hhead
  obtain ⟨rest, rfl⟩ : ∃ rest, list = p :: rest := by
    cases list with
    | nil => contradiction
    | cons q rest =>
        cases hp
        exact ⟨rest, rfl⟩
  obtain ⟨hlive, hlink⟩ := (h.registry.holds head _ hlist).marked p List.mem_cons_self
  have hvalid : σ.Valid (some p) := by
    intro q hq
    cases hq
    exact hlive
  have hremovable : σ.Removable (some p) := fun _ _ _ => Or.inr hdown
  obtain ⟨σ', hdestroy⟩ :=
    (cpFdsDestroySock_faultsOnly hvalid (Or.inr hremovable) h.tasks h.registry).exists_ok
  obtain ⟨m, hm⟩ := h.call (c := .destroySock (some p)) trivial
    (fun q hq => by cases hq; exact hchildless) hdestroy
  obtain ⟨_, _, hnodes⟩ := cpFdsDestroySock_spec hdestroy
  rw [hdown, List.sublist_nil] at hnodes
  obtain ⟨hrest, hothers⟩ := h.registry.destroySock_registry hdestroy hlink hlist
  have hlist' := hrest hne
  rw [List.erase_cons_head] at hlist'
  refine ⟨σ', rest.tail.head?, m, ?_, hm, hnodes, ⟨rest, hlist', rfl, rfl⟩, hothers⟩
  simp only [Sys.walkOn, hdestroy, ok_bind, List.tail_cons, hm.registry.nextEntry hlist']
  rfl

/-! What is true wherever the thread stands. -/

/-- Every pointer in a container of the context is to a live socket. -/
structure NoDangling (σ : Sys) : Prop where
  tasks : ∀ p, some p ∈ σ.fds.taskArray.data → p ∈ σ.live
  queue : ∀ p ∈ σ.fds.eventQueue.nodes, p ∈ σ.live
  servers : ∀ p ∈ σ.fds.serverList, p ∈ σ.live
  clients : ∀ p ∈ σ.fds.clientList, p ∈ σ.live
  accepted : ∀ serv ∈ σ.live, ∀ list, (σ.mem serv).acceptList = some list → ∀ p ∈ list, p ∈ σ.live

theorem Intact.noDangling (h : Intact σ n) : NoDangling σ where
  tasks p hp := by
    obtain ⟨i, hi⟩ := List.mem_iff_getElem?.mp hp
    exact (h.tasks.slot i p hi).1
  queue p hp := (h.queue.marked p hp).1
  servers p hp := ((h.registry.holds .server _ rfl).marked p hp).1
  clients p hp := ((h.registry.holds .client _ rfl).marked p hp).1
  accepted serv hserv list hlist p hp :=
    ((h.registry.holds _ list (Sys.registry_accept_ok_iff.mpr ⟨hserv, hlist⟩)).marked p hp).1

/-- Where the cursors of the walks are; by then the queue has been emptied. -/
def Process.Placed (s : Process) : Prop :=
  match s.control with
  | .serverWalk sock tsock => s.sys.fds.eventQueue.nodes = [] ∧ s.sys.AtHead .server sock tsock
  | .acceptWalk serv next sock tsock => s.sys.fds.eventQueue.nodes = [] ∧
      s.sys.AtHead .server (some serv) next ∧ s.sys.AtHead (.accept serv) sock tsock
  | .clientWalk sock tsock => s.sys.fds.eventQueue.nodes = [] ∧ s.sys.AtHead .client sock tsock
  | _ => True

structure Process.Sound (s : Process) : Prop where
  noDangling : NoDangling s.sys
  intact : s.control ≠ .stopped → ∃ n, Intact s.sys n
  placed : s.Placed

theorem Process.Sound.of_intact {control : Control} (h : Intact σ n)
    (hplaced : Process.Placed ⟨σ, control⟩) : Process.Sound ⟨σ, control⟩ :=
  ⟨h.noDangling, fun _ => ⟨n, h⟩, hplaced⟩

def Control.CallsBack (σ : Sys) : Control → Prop
  | .taskCallback _ p | .queueCallback _ _ p => p ∈ σ.live ∧ (σ.mem p).cbfunc.isSome
  | _ => True

theorem Intact.server_registry (h : Intact σ n) (hlive : p ∈ σ.live)
    (hlink : (σ.mem p).rlist = some .server) : ∃ list, σ.registry (.accept p) = .ok list := by
  have hhome := h.registry.home p hlive _ hlink
  have hmode : (σ.mem p).mode = .listen := by
    unfold Sock.home at hhome
    split at hhome <;> simp_all
  cases hsome : (σ.mem p).acceptList with
  | none => exact absurd hmode ((h.listen p hlive).closed hsome).2
  | some list => exact ⟨list, Sys.registry_accept_ok_iff.mpr ⟨hlive, hsome⟩⟩

theorem Process.Sound.next {s : Process} (h : s.Sound) :
    ∃ t, s.next = .ok t ∧ t.Sound ∧ t.control.CallsBack t.sys := by
  obtain ⟨σ, control⟩ := s
  cases control with
  | outside => exact ⟨_, rfl, h, trivial⟩
  | stopped => exact ⟨_, rfl, h, trivial⟩
  | taskCallback i sock =>
      obtain ⟨n, hσ⟩ := h.intact (by simp)
      exact ⟨_, rfl, .of_intact hσ trivial, trivial⟩
  | queueCallback queued rounds sock =>
      obtain ⟨n, hσ⟩ := h.intact (by simp)
      exact ⟨_, rfl, .of_intact hσ trivial, trivial⟩
  | taskLoop i =>
      obtain ⟨n, hσ⟩ := h.intact (by simp)
      simp only [Process.next]
      split
      · cases htask : σ.task i with
        | none => exact ⟨_, rfl, .of_intact hσ trivial, trivial⟩
        | some p =>
            have hp := hσ.tasks.valid_task i p htask
            simp only [Sys.load_of_mem hp, ok_bind]
            split
            · rename_i hcb
              exact ⟨_, rfl, .of_intact hσ trivial, hp, hcb⟩
            · have hvalid : σ.Valid (some p) := by
                intro q hq
                cases hq
                exact hp
              obtain ⟨τ, hdel⟩ := (hσ.tasks.delSockTask_faultsOnly hvalid).exists_ok
              obtain ⟨m, hτ⟩ := hσ.call (c := .delSockTask (some p)) trivial trivial hdel
              rw [hdel]
              exact ⟨_, rfl, .of_intact hτ trivial, trivial⟩
      · exact ⟨_, rfl, .of_intact hσ trivial, trivial⟩
  | queueLoop queued rounds =>
      obtain ⟨n, hσ⟩ := h.intact (by simp)
      simp only [Process.next]
      split
      · exact ⟨_, rfl, .of_intact hσ trivial, trivial⟩
      · rename_i hitems
        rw [cpQueueIsEmpty_iff] at hitems
        obtain ⟨p, rest, hnodes⟩ := List.exists_cons_of_ne_nil hitems
        have hp := (hσ.queue.marked p (by rw [hnodes]; exact List.mem_cons_self)).1
        obtain ⟨⟨data, τ⟩, hdeq⟩ := (cpFdsSockDequeue_faultsOnly hnodes hp).exists_ok
        obtain ⟨m, hτ⟩ := hσ.call (c := .sockDequeue) trivial trivial
          (map_eq_ok_iff.mpr ⟨_, hdeq, rfl⟩)
        obtain ⟨q, _, rfl, hq, _, hτ'⟩ := cpFdsSockDequeue_cases hdeq
        have hqτ : q ∈ τ.live := by
          rw [hτ']
          exact hq
        simp only [hdeq, ok_bind, Sys.load_of_mem hqτ]
        split
        · rename_i hcb
          exact ⟨_, rfl, .of_intact hτ trivial, hqτ, hcb⟩
        · exact ⟨_, rfl, .of_intact hτ trivial, trivial⟩
  | serverWalk sock tsock =>
      obtain ⟨n, hσ⟩ := h.intact (by simp)
      obtain ⟨hdown, hhead⟩ := h.placed
      cases sock with
      | none =>
          simp only [Process.next,
            hσ.registry.walkStart (show σ.registry .client = .ok _ from rfl), ok_bind]
          exact ⟨_, rfl, .of_intact hσ ⟨hdown, _, rfl, rfl, rfl⟩, trivial⟩
      | some serv =>
          obtain ⟨servers, hservers, hserv, _⟩ := id hhead
          obtain ⟨hlive, hlink⟩ :=
            (hσ.registry.holds _ servers hservers).marked serv (List.mem_of_head? hserv)
          obtain ⟨list, hlist⟩ := hσ.server_registry hlive hlink
          simp only [Process.next, hσ.registry.walkStart hlist, ok_bind]
          exact ⟨_, rfl, .of_intact hσ ⟨hdown, hhead, _, hlist, rfl, rfl⟩, trivial⟩
  | acceptWalk serv next sock tsock =>
      obtain ⟨n, hσ⟩ := h.intact (by simp)
      obtain ⟨hdown, houter, hhead⟩ := h.placed
      cases sock with
      | none =>
          -- all its clients are gone, so the server may go
          have hchildless : σ.Childless serv := by
            obtain ⟨list, hlist, hnone, _⟩ := hhead
            rw [List.head?_eq_none_iff] at hnone
            subst hnone
            intro q hq _ hlink
            exact absurd ((hσ.registry.holds _ _ hlist).complete q ⟨hq, hlink⟩) (List.not_mem_nil)
          obtain ⟨τ, tsock', m, hwalk, hτ, hdown', hhead', _⟩ :=
            hσ.walkOn hdown houter (by simp) hchildless
          simp only [Process.next, hwalk, ok_bind]
          exact ⟨_, rfl, .of_intact hτ ⟨hdown', hhead'⟩, trivial⟩
      | some p =>
          obtain ⟨list, hlist, hp, _⟩ := id hhead
          obtain ⟨hplive, hlink⟩ := (hσ.registry.holds _ list hlist).marked p (List.mem_of_head? hp)
          have hnobody := hσ.nobody hplive hlink (by simp)
          -- a server is not among its own clients
          have hne : ListHead.accept serv ≠ .accept p := by
            rintro ⟨⟩
            exact hnobody serv hplive hlink
          obtain ⟨τ, tsock', m, hwalk, hτ, hdown', hhead', hothers⟩ :=
            hσ.walkOn hdown hhead hne fun q hq _ => hnobody q hq
          obtain ⟨servers, hservers, hfirst, hsecond⟩ := houter
          simp only [Process.next, hwalk, ok_bind]
          refine ⟨_, rfl, .of_intact hτ ⟨hdown', ⟨servers, ?_, hfirst, hsecond⟩, hhead'⟩, trivial⟩
          rw [hothers .server (by simp) (by simp), hservers]
  | clientWalk sock tsock =>
      obtain ⟨n, hσ⟩ := h.intact (by simp)
      obtain ⟨hdown, hhead⟩ := h.placed
      cases sock with
      | none =>
          refine ⟨_, rfl, ⟨?_, fun hne => absurd rfl hne, trivial⟩, trivial⟩
          have hsafe := hσ.noDangling
          unfold cpFdsTerm
          split
          · exact ⟨hsafe.tasks, hsafe.queue, hsafe.servers, hsafe.clients, hsafe.accepted⟩
          · exact hsafe
      | some p =>
          obtain ⟨list, hlist, hp, _⟩ := id hhead
          obtain ⟨hplive, hlink⟩ := (hσ.registry.holds _ list hlist).marked p (List.mem_of_head? hp)
          obtain ⟨τ, tsock', m, hwalk, hτ, hdown', hhead', _⟩ :=
            hσ.walkOn hdown hhead (by simp) fun q hq _ => hσ.nobody hplive hlink (by simp) q hq
          simp only [Process.next, hwalk, ok_bind]
          exact ⟨_, rfl, .of_intact hτ ⟨hdown', hhead'⟩, trivial⟩

/-- What the application may call: only pointers it has not destroyed, nothing that
enters the epoll set or the registry by hand, and no destroy of a listen socket under
its clients. -/
def Sys.Admits (σ : Sys) (c : Call) : Prop :=
  InHistory σ c ∧ KeepsClients σ c ∧
    match c with
    | .acceptRegist sock _ | .addEpollEvent sock _ | .addSockRegistry sock | .addSockTask sock
    | .delSockTask sock | .sockEnqueue sock _ | .sockRmqueue sock | .destroySock sock =>
        σ.Valid sock
    | .termAllTask => False
    | _ => True

def Process.Admits (s : Process) : Act → Prop
  | .call c => s.sys.Admits c
  | _ => True

theorem Process.Sound.call {s t : Process} {c : Call} (h : s.Sound) (hok : s.sys.Admits c)
    (hstep : s.step (.call c) = .ok t) : t.Sound := by
  obtain ⟨σ, control⟩ := s
  simp only [Process.step] at hstep
  split at hstep
  · rename_i hyields
    obtain ⟨τ, hcall, hret⟩ := bind_eq_ok_iff.mp hstep
    cases hret
    obtain ⟨n, hσ⟩ := h.intact (by rintro rfl; contradiction)
    obtain ⟨m, hτ⟩ := hσ.call hok.1 hok.2.1 hcall
    refine .of_intact hτ ?_
    cases control <;> trivial
  · cases hstep
    exact h

theorem termAllTask_nodes (h : cpSockTermAllTask σ = .ok σ') : σ'.fds.eventQueue.nodes = [] := by
  obtain ⟨σ₁, _, hdrain⟩ := bind_eq_ok_iff.mp h
  cases hdrain
  rw [cpQueueDrain_eq]

theorem Process.Sound.termAllService {s : Process} (h : s.Sound) :
    ∃ t, s.step .termAllService = .ok t ∧ t.Sound := by
  obtain ⟨σ, control⟩ := s
  simp only [Process.step]
  split
  · rename_i hout
    obtain ⟨n, hσ⟩ := h.intact (by simp [hout])
    obtain ⟨τ, hterm⟩ := (hσ.tasks.termAllTask_faultsOnly).exists_ok
    obtain ⟨m, hτ⟩ := hσ.call (c := .termAllTask) trivial trivial hterm
    simp only [hterm, ok_bind,
      hτ.registry.walkStart (show τ.registry .server = .ok _ from rfl)]
    exact ⟨_, rfl, .of_intact hτ ⟨termAllTask_nodes hterm, _, rfl, rfl, rfl⟩⟩
  · exact ⟨_, rfl, h⟩

theorem Process.Sound.procEvent {s : Process} (h : s.Sound) :
    ∃ t, s.step .procEvent = .ok t ∧ t.Sound := by
  obtain ⟨σ, control⟩ := s
  simp only [Process.step]
  split
  · rename_i hout
    obtain ⟨n, hσ⟩ := h.intact (by simp [hout])
    exact ⟨_, rfl, .of_intact hσ trivial⟩
  · exact ⟨_, rfl, h⟩

theorem Process.Sound.step {s t : Process} {a : Act} (h : s.Sound) (hok : s.Admits a)
    (hstep : s.step a = .ok t) : t.Sound := by
  cases a with
  | call c => exact h.call hok hstep
  | procEvent =>
      obtain ⟨t', ht', hsound⟩ := h.procEvent
      rw [ht'] at hstep
      exact Except.ok.inj hstep ▸ hsound
  | termAllService =>
      obtain ⟨t', ht', hsound⟩ := h.termAllService
      rw [ht'] at hstep
      exact Except.ok.inj hstep ▸ hsound
  | next =>
      obtain ⟨t', ht', hsound, _⟩ := h.next
      change s.next = .ok t at hstep
      rw [ht'] at hstep
      exact Except.ok.inj hstep ▸ hsound

/-! The queue has all that it should have as long as it takes all it is given. -/

/-- An enqueue that gets past its guard finds a place. -/
def Sys.HasPlace (σ : Sys) (p : SockId) (node : Bool) : Prop :=
  (σ.mem p).flag.inqueue = false → (σ.mem p).flag.tasked = false → (σ.mem p).fds = true →
    node = true ∧ (σ.fds.eventQueue.nodes.length : Int) < σ.fds.eventQueue.size

/-- The number of queued sockets stays within the size of the queue. -/
def Sys.Roomy (σ : Sys) : Call → Prop
  | .sockEnqueue sock node => ∀ p, sock = some p → σ.HasPlace p node
  | .detectEvent (some ready) =>
      Along (fun σ (e : EpollEvent × ULong × Bool) => detectOne σ e.1 e.2.1 e.2.2)
        (fun σ e => ∀ p, e.1.data = some p → σ.HasPlace p e.2.2) σ (epollWait σ.kern ready)
  | _ => True

def Process.Roomy (s : Process) : Act → Prop
  | .call c => s.sys.Roomy c
  | _ => True

theorem QueueComplete.keep (h : QueueComplete σ)
    (hnodes : τ.fds.eventQueue.nodes = σ.fds.eventQueue.nodes)
    (hold : ∀ q ∈ τ.live, (τ.mem q).flag.inqueue = true →
      q ∈ σ.live ∧ (σ.mem q).flag.inqueue = true) : QueueComplete τ := by
  intro q hq hin
  obtain ⟨hq', hin'⟩ := hold q hq hin
  rw [hnodes]
  exact h q hq' hin'

theorem QueueComplete.same (h : QueueComplete σ) (hsame : Same σ τ) : QueueComplete τ := by
  refine h.keep (by rw [hsame.fds]) fun q hq hin => ?_
  rw [hsame.live] at hq
  rw [hsame.mem q hq] at hin
  exact ⟨hq, hin⟩

theorem QueueComplete.joined (h : QueueComplete σ) (hjoined : Joined σ σ' p head list) :
    QueueComplete σ' := by
  refine h.keep ?_ fun q hq hin => ?_
  · rw [hjoined.fds]
    cases head <;> rfl
  · rw [hjoined.live] at hq
    rcases Finset.mem_insert.mp hq with rfl | hq
    · rw [hjoined.inqueue] at hin
      contradiction
    · rw [hjoined.others (·.flag.inqueue) (fun _ _ _ => rfl) hq] at hin
      exact ⟨hq, hin⟩

theorem QueueComplete.offered {s : Sock} (h : QueueComplete σ) (hoffered : Offered σ p τ s) :
    QueueComplete τ := by
  cases hoffered with
  | fresh => exact h
  | given hp hidle => exact h.keep rfl fun q hq hin => ⟨Finset.mem_of_mem_erase hq, hin⟩

theorem QueueComplete.connectRegist {raddr : Bool} {rport : Int} {os : ConnectRegistOs} {ret : Ptr}
    (h : QueueComplete σ) (hregistry : RegistryOk σ) (hlisten : ListenOk σ)
    (houtcome : ConnectOutcome σ sock raddr rport os ret σ') : QueueComplete σ' := by
  cases houtcome with
  | nothing => exact h
  | failed p τ σ' s hoffered hundone =>
      exact (h.offered hoffered).same (hundone.same (hregistry.offered hlisten hoffered))
  | joined p τ σ' s list hoffered _ _ _ hjoined _ _ _ => exact (h.offered hoffered).joined hjoined
  | progressed p status actvTime _ _ _ _ => exact h.congr (Sys.modify_view σ p _ _ _ rfl)
  | lost p status τ σ' _ _ _ _ _ _ hτ hdel =>
      obtain ⟨σ₁, σ₂, h₁, h₂, h₃⟩ := connectDelRegist_cases hdel
      have hview : τ.queueView = σ.queueView := by
        rw [hτ]
        exact Sys.modify_view _ p _ _ _ rfl
      have hview₁ : σ₁.queueView = τ.queueView :=
        (cpFdsDelSockRegistry_view h₁ (fun _ _ _ => rfl) fun _ _ _ _ _ => rfl).1
      have hview₂ : σ₂.queueView = σ₁.queueView :=
        (cpFdsDelSockTask_view h₂ (fun _ _ => rfl) fun _ _ _ _ => rfl).1
      exact (h.congr ((hview₂.trans hview₁).trans hview)).term h₃

theorem QueueComplete.detectOne {evt : EpollEvent} {now : ULong} {node : Bool} (h : QueueComplete σ)
    (hroom : ∀ p, evt.data = some p → σ.HasPlace p node)
    (hcall : detectOne σ evt now node = .ok σ') : QueueComplete σ' := by
  obtain ⟨p, hdata, _, hcases⟩ := detectOne_cases hcall
  have hstamp : QueueComplete (σ.modify p fun s => { s with event := evt, actvTime := now }) :=
    h.congr (Sys.modify_view σ p _ _ _ rfl)
  rcases hcases with ⟨_, rfl⟩ | ⟨_, data, henqueue⟩
  · exact hstamp
  · refine hstamp.sockEnqueue (fun q hq => ?_) henqueue
    cases hq
    rw [Sys.modify_same]
    exact hroom p hdata

theorem QueueComplete.detectEvent {wait : Option (List Ready)} (h : QueueComplete σ)
    (hroom : σ.Roomy (.detectEvent wait)) (hcall : cpFdsDetectEvent σ wait = .ok (rv, σ')) :
    QueueComplete σ' := by
  cases wait with
  | none => cases hcall; exact h
  | some ready =>
      obtain ⟨σ₁, hloop, hret⟩ := bind_eq_ok_iff.mp hcall
      cases hret
      rw [foldlM_eq_exec] at hloop
      exact exec_preserves (fun τ e υ hok hτ hone => hτ.detectOne hok hone) h hroom hloop

theorem QueueComplete.call {c : Call} (h : QueueComplete σ) (hσ : Intact σ n) (hok : σ.Admits c)
    (hroom : σ.Roomy c) (hcall : σ.call c = .ok σ') : QueueComplete σ' := by
  cases c with
  | modEpollEvent | delEpollEvent | delSockRegistry => exact absurd hok.1 id
  | termAllTask => exact absurd hok.2.2 id
  | sockInit malloced os =>
      cases hcall
      rcases cpSockInit_cases σ malloced os with hnone | ⟨p, _, hsome⟩
      · rw [hnone]
        exact h
      · obtain ⟨hbuilt, _⟩ := Building.of_cpSockInit hsome
        rw [hsome]
        refine h.keep (by rw [hbuilt.fds]) fun q hq hin => ?_
        rw [hbuilt.live] at hq
        rcases Finset.mem_insert.mp hq with rfl | hq
        · rw [hbuilt.inqueue] at hin
          contradiction
        · rw [hbuilt.mem q hq] at hin
          exact ⟨hq, hin⟩
  | serverRegist port maxClient serviceRoute data os =>
      obtain ⟨⟨ret, τ⟩, hret, rfl⟩ := map_eq_ok_iff.mp hcall
      rcases cpSockServerRegist_cases hret with ⟨_, hundone⟩ | ⟨p, list, _, _, hjoined, _⟩
      · exact h.same (hundone.same hσ.registry)
      · exact h.joined hjoined
  | acceptRegist servSock os =>
      obtain ⟨⟨ret, τ⟩, hret, rfl⟩ := map_eq_ok_iff.mp hcall
      cases servSock with
      | none => cases hret; exact h
      | some serv =>
          obtain ⟨_, ⟨υ, hsame, hdel, _⟩ | ⟨_, p, list, hjoined, _⟩⟩ :=
            acceptRegist_outcome hσ.registry hret
          · exact (h.same hsame).congr
              (cpFdsDelSockTask_view hdel (fun _ _ => rfl) fun _ _ _ _ => rfl).1
          · exact h.joined hjoined
  | connectRegist sock raddr rport lport serviceRoute os =>
      obtain ⟨⟨ret, τ⟩, hret, rfl⟩ := map_eq_ok_iff.mp hcall
      exact h.connectRegist hσ.registry hσ.listen
        (hσ.ledger.connectRegist_cases (fun p hp ht => (hσ.tasks.tasked p hp ht).1) hret)
  | addEpollEvent sock accept =>
      obtain ⟨⟨ret, τ⟩, hret, rfl⟩ := map_eq_ok_iff.mp hcall
      exact hσ.toConsistent.addEpollEvent hret ▸ h
  | addSockRegistry sock =>
      obtain ⟨⟨ret, τ⟩, hret, rfl⟩ := map_eq_ok_iff.mp hcall
      exact hσ.toConsistent.addSockRegistry hret ▸ h
  | addSockTask sock =>
      obtain ⟨⟨ret, τ⟩, hret, rfl⟩ := map_eq_ok_iff.mp hcall
      exact h.congr (cpFdsAddSockTask_view hret (fun _ _ => rfl) fun _ _ _ => rfl).1
  | delSockTask sock =>
      exact h.congr (cpFdsDelSockTask_view hcall (fun _ _ => rfl) fun _ _ _ _ => rfl).1
  | sockEnqueue sock node =>
      obtain ⟨⟨ret, τ⟩, hret, rfl⟩ := map_eq_ok_iff.mp hcall
      exact h.sockEnqueue hroom hret
  | sockDequeue =>
      obtain ⟨⟨ret, τ⟩, hret, rfl⟩ := map_eq_ok_iff.mp hcall
      exact h.sockDequeue hret
  | sockRmqueue sock =>
      obtain ⟨⟨ret, τ⟩, hret, rfl⟩ := map_eq_ok_iff.mp hcall
      exact h.sockRmqueue hret
  | destroySock sock => exact h.destroySock hcall
  | detectEvent wait =>
      obtain ⟨⟨ret, τ⟩, hret, rfl⟩ := map_eq_ok_iff.mp hcall
      exact h.detectEvent hroom hret
  | detectTimeout now =>
      exact h.congr (cpSockDetectTimeout_view hcall (fun _ _ => rfl) fun _ _ _ _ => rfl).1

/-! The calls of the dispatch and of the callbacks return. -/

theorem detectTimeoutOne_faultsOnly {allowed : Fault → Prop} {now : Clock} (hp : p ∈ σ.live) :
    FaultsOnly allowed (detectTimeoutOne σ p now) := by
  have hadd : ∀ f : Sock → Sock, FaultsOnly allowed (cpFdsAddSockTask (σ.modify p f) (some p)) := by
    intro f
    refine cpFdsAddSockTask_faultsOnly fun q hq => ?_
    cases hq
    exact hp
  simp only [detectTimeoutOne, Sys.load_of_mem hp, ok_bind]
  split
  · exact (hadd _).bind fun _ _ => .pure _ _
  · split
    · exact (hadd _).bind fun _ _ => .pure _ _
    · exact .pure _ _

theorem Intact.detectTimeout_faultsOnly {allowed : Fault → Prop} {now : SockId → Clock}
    (h : Intact σ n) : FaultsOnly allowed (cpSockDetectTimeout σ now) := by
  have hone : ∀ τ p υ, τ.registryView = σ.registryView → detectTimeoutOne τ p (now p) = .ok υ →
      υ.registryView = σ.registryView := fun τ p υ hτ hone =>
    (detectTimeoutOne_view hone (fun _ _ => rfl) fun _ _ _ _ => rfl).1.trans hτ
  have hlive : ∀ τ p, τ.registryView = σ.registryView → p ∈ σ.live →
      FaultsOnly allowed (detectTimeoutOne τ p (now p)) := fun τ p hτ hp =>
    detectTimeoutOne_faultsOnly (Sys.live_of_view hτ ▸ hp)
  refine FaultsOnly.bind ?_ fun σ₁ h₁ => ?_
  · exact foldlM_faultsOnly (P := fun τ => τ.registryView = σ.registryView)
      (fun τ p υ _ => hone τ p υ)
      (fun τ p hp hτ => hlive τ p hτ (h.noDangling.clients p hp)) rfl
  · have hview₁ : σ₁.registryView = σ.registryView :=
      foldlM_preserves (P := fun τ => τ.registryView = σ.registryView)
        (fun τ p υ _ => hone τ p υ) rfl h₁
    obtain ⟨⟨_, hserver⟩, _⟩ := registryView_eq_iff.mp hview₁
    rw [hserver]
    refine foldlM_faultsOnly (P := fun τ => τ.registryView = σ.registryView)
      (fun τ serv υ _ hτ hwalk => ?_) (fun τ serv hserv hτ => ?_) hview₁
    · obtain ⟨list, _, hwalk⟩ := bind_eq_ok_iff.mp hwalk
      exact foldlM_preserves (P := fun τ => τ.registryView = σ.registryView)
        (fun τ p υ _ => hone τ p υ) hτ hwalk
    · obtain ⟨hlive', hlink⟩ := (h.registry.holds .server _ rfl).marked serv hserv
      obtain ⟨list, hlist⟩ := h.server_registry hlive' hlink
      rw [registry_of_registryView hτ, hlist]
      exact foldlM_faultsOnly (P := fun τ => τ.registryView = σ.registryView)
        (fun τ p υ _ => hone τ p υ)
        (fun τ p hp hτ => hlive τ p hτ ((h.registry.holds _ list hlist).marked p hp).1) hτ

def Call.Dispatched : Call → Prop
  | .acceptRegist _ _ | .addSockTask _ | .delSockTask _ | .sockEnqueue _ _ | .destroySock _
  | .detectEvent _ | .detectTimeout _ => True
  | _ => False

theorem Intact.call_faultsOnly {allowed : Fault → Prop} {c : Call} (h : Intact σ n)
    (hok : σ.Admits c) (hdispatched : c.Dispatched) (hqueue : allowed .null ∨ QueueComplete σ) :
    FaultsOnly allowed (σ.call c) := by
  cases c with
  | acceptRegist servSock os => exact (h.acceptRegist_faultsOnly hok.2.2).map _
  | addSockTask sock => exact (cpFdsAddSockTask_faultsOnly hok.2.2).map _
  | delSockTask sock => exact h.tasks.delSockTask_faultsOnly hok.2.2
  | sockEnqueue sock node => exact (cpFdsSockEnqueue_faultsOnly hok.2.2).map _
  | destroySock sock =>
      exact cpFdsDestroySock_faultsOnly hok.2.2 (hqueue.imp_right fun hq => hq.removable hok.2.2)
        h.tasks h.registry
  | detectEvent wait =>
      refine FaultsOnly.map (cpFdsDetectEvent_faultsOnly fun ready e he => ?_) _
      obtain ⟨r, _, hmap⟩ := List.mem_filterMap.mp (List.mem_of_mem_take he)
      obtain ⟨data, hdata, rfl⟩ := Option.map_eq_some_iff.mp hmap
      obtain ⟨p, hp, rfl, _⟩ := h.ledger.entry r.fd data hdata
      exact ⟨p, hp, rfl⟩
  | detectTimeout now => exact h.detectTimeout_faultsOnly
  | sockInit | serverRegist | connectRegist | addEpollEvent | modEpollEvent | delEpollEvent
  | addSockRegistry | delSockRegistry | sockDequeue | sockRmqueue | termAllTask =>
      exact absurd hdispatched id

/-! The rounds of the queue loop. -/

def Call.Quiet : Call → Prop
  | .sockEnqueue _ _ | .detectEvent _ => False
  | _ => True

theorem Intact.call_nodes {c : Call} (h : Intact σ n) (hok : σ.Admits c) (hquiet : c.Quiet)
    (hcall : σ.call c = .ok σ') :
    σ'.fds.eventQueue.nodes.Sublist σ.fds.eventQueue.nodes := by
  have hframe : ∀ {τ : Sys}, τ.view (·.eventQueue.nodes) (fun _ => ()) =
      σ.view (·.eventQueue.nodes) (fun _ => ()) →
        τ.fds.eventQueue.nodes.Sublist σ.fds.eventQueue.nodes := by
    intro τ hview
    rw [(Sys.view_eq_iff.mp hview).1]
  have hsame : ∀ {τ : Sys}, Same σ τ → τ.fds.eventQueue.nodes.Sublist σ.fds.eventQueue.nodes := by
    intro τ hsame
    rw [hsame.fds]
  have hjoined : ∀ {τ υ : Sys} {p head list}, υ.fds = σ.fds → Joined υ τ p head list →
      τ.fds.eventQueue.nodes.Sublist σ.fds.eventQueue.nodes := by
    intro τ υ p head list hfds hjoined
    rw [hjoined.fds, ← hfds]
    cases head <;> exact List.Sublist.refl _
  cases c with
  | modEpollEvent | delEpollEvent | delSockRegistry => exact absurd hok.1 id
  | termAllTask => exact absurd hok.2.2 id
  | sockEnqueue | detectEvent => exact absurd hquiet id
  | sockInit malloced os =>
      cases hcall
      rcases cpSockInit_cases σ malloced os with hnone | ⟨p, _, hsome⟩
      · rw [hnone]
      · rw [hsome]
  | serverRegist port maxClient serviceRoute data os =>
      obtain ⟨⟨ret, τ⟩, hret, rfl⟩ := map_eq_ok_iff.mp hcall
      rcases cpSockServerRegist_cases hret with ⟨_, hundone⟩ | ⟨p, list, _, _, hjoin, _⟩
      · exact hsame (hundone.same h.registry)
      · exact hjoined rfl hjoin
  | acceptRegist servSock os =>
      obtain ⟨⟨ret, τ⟩, hret, rfl⟩ := map_eq_ok_iff.mp hcall
      cases servSock with
      | none => cases hret; exact List.Sublist.refl _
      | some serv =>
          obtain ⟨_, ⟨υ, hsame', hdel, _⟩ | ⟨_, p, list, hjoin, _⟩⟩ :=
            acceptRegist_outcome h.registry hret
          · have hview : τ.view (·.eventQueue.nodes) (fun _ => ()) = υ.view _ _ :=
              (cpFdsDelSockTask_view hdel (fun _ _ => rfl) fun _ _ _ _ => rfl).1
            have hnodes := (Sys.view_eq_iff.mp hview).1
            rw [hsame'.fds] at hnodes
            rw [hnodes]
          · exact hjoined rfl hjoin
  | connectRegist sock raddr rport lport serviceRoute os =>
      obtain ⟨⟨ret, τ⟩, hret, rfl⟩ := map_eq_ok_iff.mp hcall
      have houtcome := h.ledger.connectRegist_cases
        (fun p hp ht => (h.tasks.tasked p hp ht).1) hret
      cases houtcome with
      | nothing => exact List.Sublist.refl _
      | failed p υ _ s hoffered hundone =>
          have hfds := (hundone.same (h.registry.offered h.listen hoffered)).fds
          rw [hfds, hoffered.fds_eq]
      | joined p υ _ s list hoffered _ _ _ hjoin _ _ _ => exact hjoined hoffered.fds_eq hjoin
      | progressed p status actvTime _ _ _ _ => exact List.Sublist.refl _
      | lost p status υ _ _ _ _ _ _ _ hτ hdel =>
          obtain ⟨σ₁, σ₂, h₁, h₂, h₃⟩ := connectDelRegist_cases hdel
          have hview₁ : σ₁.view (·.eventQueue.nodes) (fun _ => ()) = υ.view _ _ :=
            (cpFdsDelSockRegistry_view h₁ (fun _ _ _ => rfl) fun _ _ _ _ _ => rfl).1
          have hview₂ : σ₂.view (·.eventQueue.nodes) (fun _ => ()) = σ₁.view _ _ :=
            (cpFdsDelSockTask_view h₂ (fun _ _ => rfl) fun _ _ _ _ => rfl).1
          have hnodes := (Sys.view_eq_iff.mp (hview₂.trans hview₁)).1
          rw [hτ] at hnodes
          rw [(cpSockTerm_spec h₃).2.1, hnodes]
          exact List.Sublist.refl _
  | addEpollEvent sock accept =>
      obtain ⟨⟨ret, τ⟩, hret, rfl⟩ := map_eq_ok_iff.mp hcall
      rw [h.toConsistent.addEpollEvent hret]
  | addSockRegistry sock =>
      obtain ⟨⟨ret, τ⟩, hret, rfl⟩ := map_eq_ok_iff.mp hcall
      rw [h.toConsistent.addSockRegistry hret]
  | addSockTask sock =>
      obtain ⟨⟨ret, τ⟩, hret, rfl⟩ := map_eq_ok_iff.mp hcall
      exact hframe (cpFdsAddSockTask_view hret (fun _ _ => rfl) fun _ _ _ => rfl).1
  | delSockTask sock =>
      exact hframe (cpFdsDelSockTask_view hcall (fun _ _ => rfl) fun _ _ _ _ => rfl).1
  | sockDequeue =>
      obtain ⟨⟨ret, τ⟩, hret, rfl⟩ := map_eq_ok_iff.mp hcall
      obtain ⟨p, rest, _, _, hnodes, rfl⟩ := cpFdsSockDequeue_cases hret
      rw [hnodes]
      exact List.sublist_cons_self p rest
  | sockRmqueue sock =>
      obtain ⟨⟨ret, τ⟩, hret, rfl⟩ := map_eq_ok_iff.mp hcall
      cases sock with
      | none => cases hret; exact List.Sublist.refl _
      | some p =>
          obtain ⟨_, ⟨_, rfl⟩ | ⟨_, _, rfl⟩⟩ := cpFdsSockRmqueue_cases hret
          · exact List.Sublist.refl _
          · exact List.erase_sublist
  | destroySock sock =>
      cases sock with
      | none => cases hcall; exact List.Sublist.refl _
      | some p => exact (cpFdsDestroySock_spec hcall).2.2
  | detectTimeout now =>
      exact hframe (cpSockDetectTimeout_view hcall (fun _ _ => rfl) fun _ _ _ _ => rfl).1

def Process.QuietCallbacks (s : Process) : Act → Prop
  | .call c => ∀ queued rounds sock, s.control = .queueCallback queued rounds sock → c.Quiet
  | _ => True

def Process.Draining (s : Process) : Prop :=
  match s.control with
  | .queueLoop queued rounds | .queueCallback queued rounds _ =>
      rounds + s.sys.fds.eventQueue.nodes.length ≤ queued
  | _ => True

theorem Process.Draining.next {s t : Process} (h : s.Draining) (hstep : s.next = .ok t) :
    t.Draining := by
  obtain ⟨σ, control⟩ := s
  cases control with
  | outside => cases hstep; exact h
  | stopped => cases hstep; exact h
  | taskCallback => cases hstep; trivial
  | queueCallback => cases hstep; exact h
  | taskLoop i =>
      simp only [Process.next] at hstep
      split at hstep
      · split at hstep
        · cases hstep
          trivial
        · obtain ⟨s, _, hstep⟩ := bind_eq_ok_iff.mp hstep
          split at hstep
          · cases hstep
            trivial
          · obtain ⟨τ, _, hret⟩ := bind_eq_ok_iff.mp hstep
            cases hret
            trivial
      · cases hstep
        simp [Process.Draining]
  | queueLoop queued rounds =>
      simp only [Process.next] at hstep
      split at hstep
      · cases hstep
        trivial
      · obtain ⟨⟨data, τ⟩, hdeq, hstep⟩ := bind_eq_ok_iff.mp hstep
        obtain ⟨p, rest, rfl, _, hnodes, hτ⟩ := cpFdsSockDequeue_cases hdeq
        have hle : rounds + 1 + τ.fds.eventQueue.nodes.length ≤ queued := by
          have hold : rounds + σ.fds.eventQueue.nodes.length ≤ queued := h
          rw [hnodes, List.length_cons] at hold
          rw [hτ]
          simp only [Sys.modify_fds]
          omega
        obtain ⟨s, _, hstep⟩ := bind_eq_ok_iff.mp hstep
        split at hstep
        · cases hstep
          exact hle
        · cases hstep
          exact hle
  | serverWalk sock tsock =>
      cases sock <;>
      · obtain ⟨r, _, hret⟩ := bind_eq_ok_iff.mp hstep
        cases hret
        trivial
  | acceptWalk serv next sock tsock =>
      cases sock <;>
      · obtain ⟨r, _, hret⟩ := bind_eq_ok_iff.mp hstep
        cases hret
        trivial
  | clientWalk sock tsock =>
      cases sock with
      | none => cases hstep; trivial
      | some p =>
          obtain ⟨r, _, hret⟩ := bind_eq_ok_iff.mp hstep
          cases hret
          trivial

theorem Process.Draining.step {s t : Process} {a : Act} (h : s.Draining) (hsound : s.Sound)
    (hok : s.Admits a) (hquiet : s.QuietCallbacks a) (hstep : s.step a = .ok t) : t.Draining := by
  cases a with
  | next => exact h.next hstep
  | procEvent =>
      simp only [Process.step] at hstep
      split at hstep
      · cases hstep
        trivial
      · cases hstep
        exact h
  | termAllService =>
      simp only [Process.step] at hstep
      split at hstep
      · obtain ⟨τ, _, hstep⟩ := bind_eq_ok_iff.mp hstep
        obtain ⟨r, _, hret⟩ := bind_eq_ok_iff.mp hstep
        cases hret
        trivial
      · cases hstep
        exact h
  | call c =>
      obtain ⟨σ, control⟩ := s
      simp only [Process.step] at hstep
      split at hstep
      · obtain ⟨τ, hcall, hret⟩ := bind_eq_ok_iff.mp hstep
        cases hret
        cases control with
        | queueCallback queued rounds sock =>
            obtain ⟨n, hσ⟩ := hsound.intact (by simp)
            have hnodes : τ.fds.eventQueue.nodes.length ≤ σ.fds.eventQueue.nodes.length :=
              (hσ.call_nodes hok (hquiet _ _ _ rfl) hcall).length_le
            have hold : rounds + σ.fds.eventQueue.nodes.length ≤ queued := h
            change rounds + τ.fds.eventQueue.nodes.length ≤ queued
            omega
        | outside | taskCallback => trivial
        | taskLoop | queueLoop | serverWalk | acceptWalk | clientWalk | stopped => contradiction
      · cases hstep
        exact h

/-- The queue has every socket that says so, until it is emptied for good. -/
def Process.Complete (s : Process) : Prop :=
  match s.control with
  | .serverWalk _ _ | .acceptWalk _ _ _ _ | .clientWalk _ _ | .stopped => True
  | _ => QueueComplete s.sys

theorem Process.Complete.next {s t : Process} (h : s.Complete) (hstep : s.next = .ok t) :
    t.Complete := by
  obtain ⟨σ, control⟩ := s
  cases control with
  | outside => cases hstep; exact h
  | stopped => cases hstep; exact h
  | taskCallback => cases hstep; exact h
  | queueCallback => cases hstep; exact h
  | taskLoop i =>
      simp only [Process.next] at hstep
      split at hstep
      · split at hstep
        · cases hstep
          exact h
        · obtain ⟨s, _, hstep⟩ := bind_eq_ok_iff.mp hstep
          split at hstep
          · cases hstep
            exact h
          · obtain ⟨τ, hdel, hret⟩ := bind_eq_ok_iff.mp hstep
            cases hret
            exact QueueComplete.congr h
              (cpFdsDelSockTask_view hdel (fun _ _ => rfl) fun _ _ _ _ => rfl).1
      · cases hstep
        exact h
  | queueLoop queued rounds =>
      simp only [Process.next] at hstep
      split at hstep
      · cases hstep
        exact h
      · obtain ⟨⟨data, τ⟩, hdeq, hstep⟩ := bind_eq_ok_iff.mp hstep
        have hτ : QueueComplete τ := QueueComplete.sockDequeue h hdeq
        obtain ⟨p, _, rfl, _⟩ := cpFdsSockDequeue_cases hdeq
        obtain ⟨s, _, hstep⟩ := bind_eq_ok_iff.mp hstep
        split at hstep
        · cases hstep
          exact hτ
        · cases hstep
          exact hτ
  | serverWalk sock tsock =>
      cases sock <;>
      · obtain ⟨r, _, hret⟩ := bind_eq_ok_iff.mp hstep
        cases hret
        trivial
  | acceptWalk serv next sock tsock =>
      cases sock <;>
      · obtain ⟨r, _, hret⟩ := bind_eq_ok_iff.mp hstep
        cases hret
        trivial
  | clientWalk sock tsock =>
      cases sock with
      | none => cases hstep; trivial
      | some p =>
          obtain ⟨r, _, hret⟩ := bind_eq_ok_iff.mp hstep
          cases hret
          trivial

theorem Process.Complete.step {s t : Process} {a : Act} (h : s.Complete) (hsound : s.Sound)
    (hok : s.Admits a) (hroom : s.Roomy a) (hstep : s.step a = .ok t) : t.Complete := by
  cases a with
  | next => exact h.next hstep
  | procEvent =>
      simp only [Process.step] at hstep
      split at hstep
      · rename_i hout
        cases hstep
        obtain ⟨σ, control⟩ := s
        cases hout
        exact h
      · cases hstep
        exact h
  | termAllService =>
      simp only [Process.step] at hstep
      split at hstep
      · obtain ⟨τ, _, hstep⟩ := bind_eq_ok_iff.mp hstep
        obtain ⟨r, _, hret⟩ := bind_eq_ok_iff.mp hstep
        cases hret
        trivial
      · cases hstep
        exact h
  | call c =>
      obtain ⟨σ, control⟩ := s
      simp only [Process.step] at hstep
      split at hstep
      · obtain ⟨τ, hcall, hret⟩ := bind_eq_ok_iff.mp hstep
        cases hret
        cases control with
        | outside | taskCallback | queueCallback =>
            obtain ⟨n, hσ⟩ := hsound.intact (by simp)
            exact QueueComplete.call h hσ hok hroom hcall
        | taskLoop | queueLoop | serverWalk | acceptWalk | clientWalk | stopped => contradiction
      · cases hstep
        exact h

theorem Process.Sound.call_faultsOnly {s : Process} {allowed : Fault → Prop} {c : Call}
    (h : s.Sound) (hok : s.sys.Admits c) (hdispatched : c.Dispatched)
    (hqueue : allowed .null ∨ s.Complete) : FaultsOnly allowed (s.step (.call c)) := by
  obtain ⟨σ, control⟩ := s
  simp only [Process.step]
  split
  · cases control with
    | outside | taskCallback | queueCallback =>
        obtain ⟨n, hσ⟩ := h.intact (by simp)
        exact (hσ.call_faultsOnly hok hdispatched hqueue).bind fun _ _ => .pure _ _
    | taskLoop | queueLoop | serverWalk | acceptWalk | clientWalk | stopped => contradiction
  · exact .ok _ _

/-- In every state of every run, whatever the callbacks destroy, accept or make a
task of: all containers hold live sockets only; the dispatch and the shutdown go
on to their next test and call nobody back who is gone; a call in between can at
most find a socket missing from a queue that had refused it; and the queue loop
ends after as many rounds as sockets were queued, if its callbacks do not enqueue. -/
theorem no_dangling_sockets {kern kern' : Kernel} {malloced : Bool} {maxevents timeout : Int}
    {os : InitOs} {fds : Fds} (hinit : cpFdsInit kern malloced maxevents timeout os = some (fds, kern'))
    (hempty : ∀ fd, kern.epoll fd = none) (mem : SockId → Sock) {acts : List Act}
    (hacts : Along Process.step Process.Admits ⟨⟨fds, mem, ∅, kern'⟩, .outside⟩ acts) {s : Process}
    (hrun : exec Process.step ⟨⟨fds, mem, ∅, kern'⟩, .outside⟩ acts = .ok s) :
    NoDangling s.sys ∧
      (∃ t, s.step .next = .ok t ∧ t.control.CallsBack t.sys) ∧
      (∃ t, s.step .procEvent = .ok t) ∧ (∃ t, s.step .termAllService = .ok t) ∧
      (∀ c, c.Dispatched → s.sys.Admits c → FaultsOnly (· = .null) (s.step (.call c))) ∧
      (Along Process.step Process.Roomy ⟨⟨fds, mem, ∅, kern'⟩, .outside⟩ acts →
        ∀ c, c.Dispatched → s.sys.Admits c → ∃ t, s.step (.call c) = .ok t) ∧
      (Along Process.step Process.QuietCallbacks ⟨⟨fds, mem, ∅, kern'⟩, .outside⟩ acts →
        ∀ queued rounds, s.control = .queueLoop queued rounds →
          rounds ≤ queued ∧ (rounds = queued → s.step .next = .ok { s with control := .outside })) := by
  have hstart : Process.Sound ⟨⟨fds, mem, ∅, kern'⟩, .outside⟩ :=
    .of_intact (intact_start hinit hempty mem) trivial
  have hsound : s.Sound := exec_preserves (fun _ _ _ hok hs hstep => hs.step hok hstep)
    hstart hacts hrun
  obtain ⟨t, ht, _, hcb⟩ := hsound.next
  obtain ⟨u, hu, _⟩ := hsound.procEvent
  obtain ⟨v, hv, _⟩ := hsound.termAllService
  refine ⟨hsound.noDangling, ⟨t, ht, hcb⟩, ⟨u, hu⟩, ⟨v, hv⟩, fun c hc hok => ?_,
    fun hroom c hc hok => ?_, fun hquiet queued rounds hcontrol => ?_⟩
  · exact hsound.call_faultsOnly hok hc (Or.inl rfl)
  · have hcomplete : s.Sound ∧ s.Complete := by
      refine exec_preserves (P := fun s => s.Sound ∧ s.Complete) ?_
        ⟨hstart, fun p hp => absurd hp (Finset.notMem_empty p)⟩ (hacts.and hroom) hrun
      exact fun _ _ _ hok hs hstep =>
        ⟨hs.1.step hok.1 hstep, hs.2.step hs.1 hok.1 hok.2 hstep⟩
    exact (hsound.call_faultsOnly hok hc (Or.inr hcomplete.2)).exists_ok
  · have hdraining : s.Sound ∧ s.Draining := by
      refine exec_preserves (P := fun s => s.Sound ∧ s.Draining) ?_ ⟨hstart, trivial⟩
        (hacts.and hquiet) hrun
      exact fun _ _ _ hok hs hstep =>
        ⟨hs.1.step hok.1 hstep, hs.2.step hs.1 hok.1 hok.2 hstep⟩
    obtain ⟨σ, control⟩ := s
    cases hcontrol
    have hle : rounds + σ.fds.eventQueue.nodes.length ≤ queued := hdraining.2
    refine ⟨by omega, fun heq => ?_⟩
    have hnil : σ.fds.eventQueue.nodes = [] := List.eq_nil_of_length_eq_zero (by omega)
    simp only [Process.step, Process.next, (cpQueueIsEmpty_iff _).mpr hnil, if_true]
    rfl

private def bareProcess : Process :=
  ⟨⟨⟨false, 3, 0, 8, 0, [], [], cpQueueInit 8, cpArrayInit 8⟩, fun _ => {}, ∅,
    Kernel.bare.openFd 3⟩, .outside⟩

/-- A client is connected and given a task, and the callback of that destroys it. -/
private def selfDestroying : List Act :=
  [.call (.connectRegist none true 80 0 (some (.service 0))
      ⟨⟨some 1, 0⟩, ⟨true, some [.socket 4 true .inProgress], .done, 0⟩, true⟩),
    .call (.addSockTask (some 1)), .procEvent, .next, .call (.destroySock (some 1)), .next]

theorem no_dangling_self_destroyed :
    cpFdsInit .bare false 8 0 ⟨true, true, some 3⟩ =
        some (bareProcess.sys.fds, bareProcess.sys.kern) ∧
      ∃ s, exec Process.step bareProcess selfDestroying = .ok s ∧ s.sys.live = ∅ ∧
        s.control = .taskLoop 1 ∧ NoDangling s.sys := by
  have hinit : cpFdsInit .bare false 8 0 ⟨true, true, some 3⟩ = some (bareProcess.sys.fds, _) := rfl
  have hacts : Along Process.step Process.Admits bareProcess selfDestroying := by
    refine ⟨⟨trivial, trivial, trivial⟩, fun t ht => ⟨⟨trivial, trivial, fun p hp => ?_⟩,
      fun u hu => ⟨trivial, fun v hv => ⟨trivial, fun w hw => ⟨⟨trivial, fun p hp q hq hne => ?_,
        fun p hp => ?_⟩, fun x hx => ⟨trivial, fun _ _ => trivial⟩⟩⟩⟩⟩⟩
    · cases hp
      cases ht
      decide
    · cases hp
      cases ht
      cases hu
      cases hv
      cases hw
      have hlive : q ∈ ({1} : Finset Nat) := hq
      exact absurd (Finset.mem_singleton.mp hlive) hne
    · cases hp
      cases ht
      cases hu
      cases hv
      cases hw
      decide
  exact ⟨rfl, _, rfl, by decide, rfl,
    (no_dangling_sockets hinit (fun _ => rfl) (fun _ => {}) hacts rfl).1⟩

end Fl2440.CpLibrary
