import Fl2440.CpLibrary.CpNetwork

/-! What one call of `cp_fds.c` can do to the state, said once for each call: the
states it can leave, the views it leaves alone, and when it cannot fault. -/
namespace Fl2440.CpLibrary

open Fl2440.Lib

variable {σ σ' : Sys} {p q : SockId} {sock : Ptr} {rv : Int}
variable {β γ : Type} {g : Fds → γ} {field : Sock → β}

def Sys.Valid (σ : Sys) (sock : Ptr) : Prop := ∀ p, sock = some p → p ∈ σ.live

theorem load_eq_ok {s : Sock} (h : σ.load p = .ok s) : p ∈ σ.live ∧ s = σ.mem p := by
  obtain ⟨hlive, hmem⟩ := Sys.load_eq_ok_iff.mp h
  exact ⟨hlive, hmem.symm⟩

/-! The task array. -/

theorem cpFdsAddSockTask_cases (h : cpFdsAddSockTask σ (some p) = .ok (rv, σ')) :
    p ∈ σ.live ∧ (σ' = σ ∨
      ∃ (i : Nat) (hfree : σ.fds.taskArray.data[i]? = some none),
        (σ.mem p).fds = true ∧ (σ.mem p).flag.tasked = false ∧
          σ' = { σ with fds.taskArray := σ.fds.taskArray.put i p hfree }.modify p fun s =>
            { s with index := i, flag.tasked := true }) := by
  unfold cpFdsAddSockTask at h
  obtain ⟨s, hload, h⟩ := bind_eq_ok_iff.mp h
  obtain ⟨hlive, rfl⟩ := load_eq_ok hload
  refine ⟨hlive, ?_⟩
  split at h
  · cases h
    exact Or.inl rfl
  · rename_i hfds
    split at h
    · cases h
      exact Or.inl rfl
    · rename_i htasked
      rcases cpArrayAdd_cases σ.fds.taskArray p with ⟨_, hadd⟩ | ⟨_, i, hfree, hadd⟩
      · simp only [hadd] at h
        cases h
        exact Or.inl rfl
      · simp only [hadd, ge_iff_le, Int.natCast_nonneg, if_true] at h
        cases h
        exact Or.inr ⟨i, hfree, by simpa using hfds, by simpa using htasked, rfl⟩

theorem cpFdsAddSockTask_view (h : cpFdsAddSockTask σ sock = .ok (rv, σ'))
    (hg : ∀ fds taskArray, g { fds with taskArray } = g fds)
    (hfield : ∀ s index tasked, field { s with index, flag.tasked := tasked } = field s) :
    σ'.view g field = σ.view g field ∧ σ'.kern = σ.kern := by
  cases sock with
  | none => cases h; exact ⟨rfl, rfl⟩
  | some p =>
      obtain ⟨_, rfl | ⟨i, hfree, _, _, rfl⟩⟩ := cpFdsAddSockTask_cases h
      · exact ⟨rfl, rfl⟩
      · refine ⟨(Sys.modify_view _ p _ g field (hfield _ _ _)).trans ?_, rfl⟩
        exact Sys.view_eq_iff.mpr ⟨hg _ _, rfl, fun _ => rfl⟩

theorem cpFdsAddSockTask_faultsOnly {allowed : Fault → Prop} (h : σ.Valid sock) :
    FaultsOnly allowed (cpFdsAddSockTask σ sock) := by
  cases sock with
  | none => exact .ok _ _
  | some p =>
      simp only [cpFdsAddSockTask, Sys.load_of_mem (h p rfl), ok_bind]
      split
      · exact .pure _ _
      · split
        · exact .pure _ _
        · split <;> exact .pure _ _

theorem cpFdsDelSockTask_cases (h : cpFdsDelSockTask σ (some p) = .ok σ') :
    p ∈ σ.live ∧ (((σ.mem p).flag.tasked = false ∧ σ' = σ) ∨
      ((σ.mem p).flag.tasked = true ∧ ∃ taskArray,
        (0 ≤ (σ.mem p).index →
          cpArrayRmByindex σ.fds.taskArray (σ.mem p).index = .ok taskArray) ∧
        σ' = { σ with fds.taskArray := taskArray }.modify p fun s =>
          { s with flag.tasked := false, index := -1, event := {} })) := by
  unfold cpFdsDelSockTask at h
  obtain ⟨s, hload, h⟩ := bind_eq_ok_iff.mp h
  obtain ⟨hlive, rfl⟩ := load_eq_ok hload
  refine ⟨hlive, ?_⟩
  split at h
  · rename_i htasked
    cases h
    exact Or.inl ⟨by simpa using htasked, rfl⟩
  · rename_i htasked
    split at h
    · contradiction
    · obtain ⟨taskArray, harray, h⟩ := bind_eq_ok_iff.mp h
      cases h
      refine Or.inr ⟨by simpa using htasked, taskArray, fun hindex => ?_, rfl⟩
      rwa [if_pos hindex] at harray

theorem cpFdsDelSockTask_view (h : cpFdsDelSockTask σ sock = .ok σ')
    (hg : ∀ fds taskArray, g { fds with taskArray } = g fds)
    (hfield : ∀ s index tasked event,
      field { s with flag.tasked := tasked, index, event } = field s) :
    σ'.view g field = σ.view g field ∧ σ'.kern = σ.kern := by
  cases sock with
  | none => cases h; exact ⟨rfl, rfl⟩
  | some p =>
      obtain ⟨_, ⟨_, rfl⟩ | ⟨_, taskArray, _, rfl⟩⟩ := cpFdsDelSockTask_cases h
      · exact ⟨rfl, rfl⟩
      · refine ⟨(Sys.modify_view _ p _ g field (hfield _ _ _ _)).trans ?_, rfl⟩
        exact Sys.view_eq_iff.mpr ⟨hg _ _, rfl, fun _ => rfl⟩

theorem cpFdsDelSockTask_faultsOnly {allowed : Fault → Prop} (h : σ.Valid sock)
    (hslot : ∀ p, sock = some p → (σ.mem p).flag.tasked = true → (σ.mem p).fds = true ∧
      ∃ i : Nat, (σ.mem p).index = i ∧ i < σ.fds.taskArray.data.length) :
    FaultsOnly allowed (cpFdsDelSockTask σ sock) := by
  cases sock with
  | none => exact .ok _ _
  | some p =>
      simp only [cpFdsDelSockTask, Sys.load_of_mem (h p rfl), ok_bind]
      split
      · exact .pure _ _
      · rename_i htasked
        obtain ⟨hfds, i, hindex, hlt⟩ := hslot p rfl (by simpa using htasked)
        simp only [hfds, hindex, Int.natCast_nonneg, ge_iff_le, if_true, Bool.not_true,
          Bool.false_eq_true, if_false]
        refine FaultsOnly.bind ?_ fun _ _ => .pure _ _
        unfold cpArrayRmByindex
        rw [if_neg (by omega)]
        split
        · rename_i hnone
          rw [Int.toNat_natCast, List.getElem?_eq_none_iff] at hnone
          omega
        · exact .ok _ _
        · exact .ok _ _

/-! The event queue. -/

theorem cpFdsSockEnqueue_cases {data : Ptr} {node : Bool}
    (h : cpFdsSockEnqueue σ (some p) node = .ok (data, σ')) :
    p ∈ σ.live ∧ (σ' = σ ∨
      ((σ.mem p).flag.inqueue = false ∧ (σ.mem p).flag.tasked = false ∧ (σ.mem p).fds = true ∧
        σ' = { σ with fds.eventQueue := (cpEnqueue σ.fds.eventQueue p node).2 }.modify p
          fun s => { s with flag.inqueue := true })) := by
  unfold cpFdsSockEnqueue at h
  obtain ⟨s, hload, h⟩ := bind_eq_ok_iff.mp h
  obtain ⟨hlive, rfl⟩ := load_eq_ok hload
  refine ⟨hlive, ?_⟩
  split at h
  · cases h
    exact Or.inl rfl
  · rename_i hguard
    cases h
    simp only [Bool.or_eq_true, Bool.not_eq_eq_eq_not, Bool.not_true, not_or,
      Bool.not_eq_true, Bool.not_eq_false] at hguard
    exact Or.inr ⟨hguard.1.1, hguard.1.2, hguard.2, rfl⟩

theorem cpFdsSockEnqueue_view {data : Ptr} {node : Bool}
    (h : cpFdsSockEnqueue σ sock node = .ok (data, σ'))
    (hg : ∀ fds eventQueue, g { fds with eventQueue } = g fds)
    (hfield : ∀ s inqueue, field { s with flag.inqueue := inqueue } = field s) :
    σ'.view g field = σ.view g field ∧ σ'.kern = σ.kern := by
  cases sock with
  | none => cases h; exact ⟨rfl, rfl⟩
  | some p =>
      obtain ⟨_, rfl | ⟨_, _, _, rfl⟩⟩ := cpFdsSockEnqueue_cases h
      · exact ⟨rfl, rfl⟩
      · refine ⟨(Sys.modify_view _ p _ g field (hfield _ _)).trans ?_, rfl⟩
        exact Sys.view_eq_iff.mpr ⟨hg _ _, rfl, fun _ => rfl⟩

theorem cpFdsSockEnqueue_faultsOnly {allowed : Fault → Prop} {node : Bool} (h : σ.Valid sock) :
    FaultsOnly allowed (cpFdsSockEnqueue σ sock node) := by
  cases sock with
  | none => exact .ok _ _
  | some p =>
      simp only [cpFdsSockEnqueue, Sys.load_of_mem (h p rfl), ok_bind]
      split <;> exact .pure _ _

theorem cpFdsSockDequeue_cases {data : Ptr} (h : cpFdsSockDequeue σ = .ok (data, σ')) :
    ∃ p rest, data = some p ∧ p ∈ σ.live ∧ σ.fds.eventQueue.nodes = p :: rest ∧
      σ' = { σ with fds.eventQueue := { σ.fds.eventQueue with nodes := rest } }.modify p
        fun s => { s with flag.inqueue := false } := by
  unfold cpFdsSockDequeue cpDequeue at h
  cases hnodes : σ.fds.eventQueue.nodes with
  | nil => simp [hnodes] at h
  | cons p rest =>
      simp only [hnodes] at h
      obtain ⟨s, hload, h⟩ := bind_eq_ok_iff.mp h
      cases h
      exact ⟨p, rest, rfl, (load_eq_ok hload).1, rfl, rfl⟩

theorem cpFdsSockDequeue_view {data : Ptr} (h : cpFdsSockDequeue σ = .ok (data, σ'))
    (hg : ∀ fds eventQueue, g { fds with eventQueue } = g fds)
    (hfield : ∀ s inqueue, field { s with flag.inqueue := inqueue } = field s) :
    σ'.view g field = σ.view g field ∧ σ'.kern = σ.kern := by
  obtain ⟨p, rest, _, _, _, rfl⟩ := cpFdsSockDequeue_cases h
  refine ⟨(Sys.modify_view _ p _ g field (hfield _ _)).trans ?_, rfl⟩
  exact Sys.view_eq_iff.mpr ⟨hg _ _, rfl, fun _ => rfl⟩

theorem cpFdsSockDequeue_faultsOnly {allowed : Fault → Prop} {rest : List SockId}
    (hnodes : σ.fds.eventQueue.nodes = p :: rest) (h : p ∈ σ.live) :
    FaultsOnly allowed (cpFdsSockDequeue σ) := by
  simp only [cpFdsSockDequeue, cpDequeue, hnodes, Sys.load_of_mem h, ok_bind]
  exact .pure _ _

theorem cpFdsSockRmqueue_cases {data : Ptr} (h : cpFdsSockRmqueue σ (some p) = .ok (data, σ')) :
    p ∈ σ.live ∧ ((((σ.mem p).flag.inqueue = false ∨ (σ.mem p).fds = false) ∧ σ' = σ) ∨
      ((σ.mem p).flag.inqueue = true ∧ (σ.mem p).fds = true ∧
        σ' = { σ with fds.eventQueue :=
          { σ.fds.eventQueue with nodes := σ.fds.eventQueue.nodes.erase p } }.modify p
            fun s => { s with flag.inqueue := false })) := by
  unfold cpFdsSockRmqueue at h
  obtain ⟨s, hload, h⟩ := bind_eq_ok_iff.mp h
  obtain ⟨hlive, rfl⟩ := load_eq_ok hload
  refine ⟨hlive, ?_⟩
  split at h
  · rename_i hguard
    cases h
    simp only [Bool.or_eq_true, Bool.not_eq_eq_eq_not, Bool.not_true] at hguard
    exact Or.inl ⟨hguard, rfl⟩
  · rename_i hguard
    obtain ⟨⟨data', eventQueue⟩, hrm, h⟩ := bind_eq_ok_iff.mp h
    cases h
    simp only [Bool.or_eq_true, Bool.not_eq_eq_eq_not, Bool.not_true, not_or,
      Bool.not_eq_false] at hguard
    obtain ⟨hqueue, _⟩ := cpRmqueue_cases hrm
    refine Or.inr ⟨hguard.1, hguard.2, ?_⟩
    rw [hqueue]
    rfl

theorem cpFdsSockRmqueue_view {data : Ptr} (h : cpFdsSockRmqueue σ sock = .ok (data, σ'))
    (hg : ∀ fds eventQueue, g { fds with eventQueue } = g fds)
    (hfield : ∀ s inqueue, field { s with flag.inqueue := inqueue } = field s) :
    σ'.view g field = σ.view g field ∧ σ'.kern = σ.kern := by
  cases sock with
  | none => cases h; exact ⟨rfl, rfl⟩
  | some p =>
      obtain ⟨_, ⟨_, rfl⟩ | ⟨_, _, rfl⟩⟩ := cpFdsSockRmqueue_cases h
      · exact ⟨rfl, rfl⟩
      · refine ⟨(Sys.modify_view _ p _ g field (hfield _ _)).trans ?_, rfl⟩
        exact Sys.view_eq_iff.mpr ⟨hg _ _, rfl, fun _ => rfl⟩

theorem cpFdsSockRmqueue_faultsOnly {allowed : Fault → Prop} (h : σ.Valid sock)
    (hqueued : allowed .null ∨ ∀ p, sock = some p → (σ.mem p).flag.inqueue = true →
      p ∈ σ.fds.eventQueue.nodes ∨ σ.fds.eventQueue.nodes = []) :
    FaultsOnly allowed (cpFdsSockRmqueue σ sock) := by
  cases sock with
  | none => exact .ok _ _
  | some p =>
      simp only [cpFdsSockRmqueue, Sys.load_of_mem (h p rfl), ok_bind]
      split
      · exact .pure _ _
      · rename_i hguard
        simp only [Bool.or_eq_true, Bool.not_eq_eq_eq_not, Bool.not_true, not_or,
          Bool.not_eq_false] at hguard
        refine FaultsOnly.bind (cpRmqueue_faultsOnly ?_) fun _ _ => .pure _ _
        exact hqueued.imp_right fun hq => hq p rfl hguard.1

/-! The epoll set. -/

theorem cpAddEpollEvent_cases {accept : Bool}
    (h : cpAddEpollEvent σ (some p) accept = .ok (rv, σ')) :
    p ∈ σ.live ∧ ((σ' = σ ∧ (rv = 0 → (σ.mem p).flag.epolled = true)) ∨
      (σ' = (σ.modify p fun s => { s with event := { events := epollin, data := some p } }) ∧
        (σ.mem p).flag.epolled = false ∧ (rv = 0 → σ.kern.epoll (σ.mem p).fd ≠ none)) ∨
      (rv = 0 ∧ (σ.mem p).fds = true ∧ (σ.mem p).flag.epolled = false ∧
        σ.fds.eventCnt ≤ σ.fds.maxEvent ∧
        ∃ kern, σ.kern.ctlAdd (σ.mem p).fd (some p) accept = .ok kern ∧
          σ' = { σ with kern, fds.eventCnt := σ.fds.eventCnt + 1 }.modify p fun s =>
            { s with event := { events := epollin, data := some p }, flag.epolled := true })) := by
  unfold cpAddEpollEvent at h
  obtain ⟨s, hload, h⟩ := bind_eq_ok_iff.mp h
  obtain ⟨hlive, rfl⟩ := load_eq_ok hload
  refine ⟨hlive, ?_⟩
  split at h
  · cases h
    exact Or.inl ⟨rfl, by simp⟩
  · rename_i hfds
    split at h
    · rename_i hepolled
      cases h
      exact Or.inl ⟨rfl, fun _ => hepolled⟩
    · rename_i hepolled
      split at h
      · cases h
        exact Or.inl ⟨rfl, by simp⟩
      · rename_i hcnt
        simp only [Bool.not_eq_true] at hepolled
        simp only [Sys.modify_kern] at h
        cases hadd : σ.kern.ctlAdd (σ.mem p).fd (some p) accept with
        | exist =>
            simp only [hadd] at h
            cases h
            refine Or.inr (Or.inl ⟨rfl, hepolled, fun _ hnone => ?_⟩)
            unfold Kernel.ctlAdd at hadd
            rw [hnone] at hadd
            split at hadd
            · simp only [Option.isSome_none, Bool.false_eq_true, if_false] at hadd
              split at hadd <;> contradiction
            · contradiction
        | failed =>
            simp only [hadd] at h
            cases h
            exact Or.inr (Or.inl ⟨rfl, hepolled, by simp⟩)
        | ok kern =>
            simp only [hadd] at h
            cases h
            refine Or.inr (Or.inr ⟨rfl, by simpa using hfds, hepolled, by omega, kern, rfl, ?_⟩)
            exact Sys.modify_modify { σ with kern, fds.eventCnt := σ.fds.eventCnt + 1 } p
              (fun s => { s with event := { events := epollin, data := some p } })
              (fun s => { s with flag.epolled := true })

theorem cpAddEpollEvent_epolled {accept : Bool} (hlive : p ∈ σ.live) (hfds : (σ.mem p).fds = true)
    (hepolled : (σ.mem p).flag.epolled = true) :
    cpAddEpollEvent σ (some p) accept = .ok (0, σ) := by
  simp only [cpAddEpollEvent, Sys.load_of_mem hlive, ok_bind, hfds, hepolled, Bool.not_true,
    Bool.false_eq_true, if_false, if_true]
  rfl

theorem cpAddEpollEvent_faultsOnly {allowed : Fault → Prop} {accept : Bool} (h : σ.Valid sock) :
    FaultsOnly allowed (cpAddEpollEvent σ sock accept) := by
  cases sock with
  | none => exact .ok _ _
  | some p =>
      simp only [cpAddEpollEvent, Sys.load_of_mem (h p rfl), ok_bind]
      split
      · exact .pure _ _
      · split
        · exact .pure _ _
        · split
          · exact .pure _ _
          · split <;> exact .pure _ _

theorem cpModEpollEvent_cases {event : UInt32} {accept : Bool}
    (h : cpModEpollEvent σ (some p) event accept = .ok (rv, σ')) :
    p ∈ σ.live ∧ (σ' = σ ∨ ((σ.mem p).flag.epolled = true ∧ ∃ kern,
      (kern = σ.kern ∨ σ.kern.ctlMod (σ.mem p).fd (σ.mem p).event.data accept = some kern) ∧
        σ' = { σ with kern }.modify p fun s => { s with event.events := event })) := by
  unfold cpModEpollEvent at h
  obtain ⟨s, hload, h⟩ := bind_eq_ok_iff.mp h
  obtain ⟨hlive, rfl⟩ := load_eq_ok hload
  refine ⟨hlive, ?_⟩
  split at h
  · cases h
    exact Or.inl rfl
  · split at h
    · cases h
      exact Or.inl rfl
    · rename_i hepolled
      simp only [Bool.not_eq_eq_eq_not, Bool.not_true, Bool.not_eq_false] at hepolled
      simp only [Sys.modify_kern] at h
      split at h
      · cases h
        exact Or.inr ⟨hepolled, _, Or.inl rfl, rfl⟩
      · rename_i kern hmod
        cases h
        exact Or.inr ⟨hepolled, kern, Or.inr hmod, rfl⟩

theorem cpDelEpollEvent_cases (h : cpDelEpollEvent σ (some p) = .ok σ') :
    p ∈ σ.live ∧ ((((σ.mem p).flag.epolled = false ∨ (σ.mem p).fds = false) ∧ σ' = σ) ∨
      ((σ.mem p).flag.epolled = true ∧ (σ.mem p).fds = true ∧
        σ' = { σ with
          kern := σ.kern.ctlDel (σ.mem p).fd
          fds.eventCnt := σ.fds.eventCnt - 1 }.modify p fun s =>
            { s with flag.epolled := false })) := by
  unfold cpDelEpollEvent at h
  obtain ⟨s, hload, h⟩ := bind_eq_ok_iff.mp h
  obtain ⟨hlive, rfl⟩ := load_eq_ok hload
  refine ⟨hlive, ?_⟩
  split at h
  · rename_i hfds
    cases h
    exact Or.inl ⟨Or.inr (by simpa using hfds), rfl⟩
  · rename_i hfds
    split at h
    · rename_i hepolled
      cases h
      exact Or.inl ⟨Or.inl (by simpa using hepolled), rfl⟩
    · rename_i hepolled
      cases h
      exact Or.inr ⟨by simpa using hepolled, by simpa using hfds, rfl⟩

theorem cpDelEpollEvent_view (h : cpDelEpollEvent σ sock = .ok σ')
    (hg : ∀ fds eventCnt, g { fds with eventCnt } = g fds)
    (hfield : ∀ s epolled, field { s with flag.epolled := epolled } = field s) :
    σ'.view g field = σ.view g field := by
  cases sock with
  | none => cases h; rfl
  | some p =>
      obtain ⟨_, ⟨_, rfl⟩ | ⟨_, _, rfl⟩⟩ := cpDelEpollEvent_cases h
      · rfl
      · refine (Sys.modify_view _ p _ g field (hfield _ _)).trans ?_
        exact Sys.view_eq_iff.mpr ⟨hg _ _, rfl, fun _ => rfl⟩

theorem cpDelEpollEvent_faultsOnly {allowed : Fault → Prop} (h : σ.Valid sock) :
    FaultsOnly allowed (cpDelEpollEvent σ sock) := by
  cases sock with
  | none => exact .ok _ _
  | some p =>
      simp only [cpDelEpollEvent, Sys.load_of_mem (h p rfl), ok_bind]
      split
      · exact .pure _ _
      · split <;> exact .pure _ _

/-! The registry lists. -/

theorem registry_congr_live {τ : Sys} (hclient : τ.fds.clientList = σ.fds.clientList)
    (hserver : τ.fds.serverList = σ.fds.serverList) (hlive : τ.live = σ.live)
    (hmem : ∀ q ∈ σ.live, (τ.mem q).acceptList = (σ.mem q).acceptList) :
    τ.registry = σ.registry := by
  funext head
  cases head with
  | client => exact congrArg Except.ok hclient
  | server => exact congrArg Except.ok hserver
  | accept serv =>
      by_cases hserv : serv ∈ σ.live
      · simp only [Sys.registry, Sys.load_of_mem hserv, Sys.load_of_mem (hlive ▸ hserv : serv ∈ τ.live),
          ok_bind, hmem serv hserv]
      · simp only [Sys.registry, Sys.load, hlive, hserv, if_false]

theorem registry_congr {τ : Sys}
    (h : τ.view (fun fds => (fds.clientList, fds.serverList)) (·.acceptList) =
      σ.view (fun fds => (fds.clientList, fds.serverList)) (·.acceptList)) :
    τ.registry = σ.registry := by
  obtain ⟨hfds, hlive, hmem⟩ := Sys.view_eq_iff.mp h
  obtain ⟨hclient, hserver⟩ := Prod.mk.inj hfds
  exact registry_congr_live hclient hserver hlive fun q _ => hmem q

theorem countAccept_view (σ : Sys) (head : ListHead) (n : Int) (g : Fds → γ) (field : Sock → β)
    (hfield : ∀ s acceptCnt, field { s with acceptCnt } = field s) :
    (σ.countAccept head n).view g field = σ.view g field := by
  cases head with
  | client => rfl
  | server => rfl
  | accept serv =>
      exact σ.modify_view serv (fun s => { s with acceptCnt := s.acceptCnt + n }) g field
        (hfield _ _)

@[simp] theorem countAccept_live (σ : Sys) (head : ListHead) (n : Int) :
    (σ.countAccept head n).live = σ.live := by
  cases head <;> rfl

@[simp] theorem countAccept_kern (σ : Sys) (head : ListHead) (n : Int) :
    (σ.countAccept head n).kern = σ.kern := by
  cases head <;> rfl

@[simp] theorem countAccept_fds (σ : Sys) (head : ListHead) (n : Int) :
    (σ.countAccept head n).fds = σ.fds := by
  cases head <;> rfl

theorem countAccept_field (σ : Sys) (head : ListHead) (n : Int) (field : Sock → β)
    (hfield : ∀ s acceptCnt, field { s with acceptCnt } = field s) (q : SockId) :
    field ((σ.countAccept head n).mem q) = field (σ.mem q) :=
  (Sys.view_eq_iff.mp (countAccept_view σ head n (fun _ => ()) field hfield)).2.2 q

@[simp] theorem countAccept_registry (σ : Sys) (head : ListHead) (n : Int) :
    (σ.countAccept head n).registry = σ.registry :=
  registry_congr (countAccept_view σ head n _ _ fun _ _ => rfl)

theorem cpFdsAddSockRegistry_cases (h : cpFdsAddSockRegistry σ (some p) = .ok (rv, σ')) :
    p ∈ σ.live ∧ ((σ' = σ ∧ (rv = 0 → (σ.mem p).flag.registry = true)) ∨
      (rv = 0 ∧ (σ.mem p).fds = true ∧ (σ.mem p).flag.registry = false ∧
        ∃ head list, (σ.mem p).home = some head ∧ σ.registry head = .ok list ∧
          σ' = ((σ.setRegistry head (list ++ [p])).countAccept head 1).modify p fun s =>
            { s with rlist := some head, flag.registry := true })) := by
  unfold cpFdsAddSockRegistry at h
  obtain ⟨s, hload, h⟩ := bind_eq_ok_iff.mp h
  obtain ⟨hlive, rfl⟩ := load_eq_ok hload
  refine ⟨hlive, ?_⟩
  split at h
  · cases h
    exact Or.inl ⟨rfl, by simp⟩
  · rename_i hfds
    split at h
    · rename_i hregistry
      cases h
      exact Or.inl ⟨rfl, fun _ => hregistry⟩
    · rename_i hregistry
      split at h
      · cases h
        exact Or.inl ⟨rfl, by simp⟩
      · rename_i head hhome
        obtain ⟨list, hlist, h⟩ := bind_eq_ok_iff.mp h
        cases h
        exact Or.inr ⟨rfl, by simpa using hfds, by simpa using hregistry, head, list, hhome,
          hlist, rfl⟩

theorem cpFdsAddSockRegistry_view (h : cpFdsAddSockRegistry σ sock = .ok (rv, σ'))
    (hg : ∀ fds clientList serverList, g { fds with clientList, serverList } = g fds)
    (hfield : ∀ s acceptList acceptCnt rlist registry,
      field { s with acceptList, acceptCnt, rlist, flag.registry := registry } = field s) :
    σ'.view g field = σ.view g field ∧ σ'.kern = σ.kern := by
  cases sock with
  | none => cases h; exact ⟨rfl, rfl⟩
  | some p =>
      obtain ⟨_, ⟨rfl, _⟩ | ⟨_, _, _, head, list, _, _, rfl⟩⟩ := cpFdsAddSockRegistry_cases h
      · exact ⟨rfl, rfl⟩
      · refine ⟨(Sys.modify_view _ p _ g field ?_).trans ?_, by simp⟩
        · exact hfield _ _ _ _ _
        · refine (countAccept_view _ head 1 g field fun s n => ?_).trans ?_
          · exact hfield s s.acceptList n s.rlist s.flag.registry
          · refine Sys.setRegistry_view σ head _ g field hg fun s list => ?_
            exact hfield s list s.acceptCnt s.rlist s.flag.registry

theorem cpFdsAddSockRegistry_faultsOnly {allowed : Fault → Prop} (h : σ.Valid sock)
    (hhome : ∀ p head, sock = some p → (σ.mem p).fds = true → (σ.mem p).flag.registry = false →
      (σ.mem p).home = some head → ∃ list, σ.registry head = .ok list) :
    FaultsOnly allowed (cpFdsAddSockRegistry σ sock) := by
  cases sock with
  | none => exact .ok _ _
  | some p =>
      simp only [cpFdsAddSockRegistry, Sys.load_of_mem (h p rfl), ok_bind]
      split
      · exact .pure _ _
      · rename_i hfds
        split
        · exact .pure _ _
        · rename_i hregistry
          split
          · exact .pure _ _
          · rename_i head hhead
            obtain ⟨list, hlist⟩ := hhome p head rfl (by simpa using hfds)
              (by simpa using hregistry) hhead
            rw [hlist]
            exact .pure _ _

def Sys.uncount (σ : Sys) (s : Sock) : Sys :=
  match s.home with
  | some head => σ.countAccept head (-1)
  | none => σ

theorem uncountAccept_cases {s : Sock} (h : uncountAccept σ s = .ok σ') : σ' = σ.uncount s := by
  unfold uncountAccept at h
  split at h
  · rename_i serv hmode hserv
    obtain ⟨_, _, h⟩ := bind_eq_ok_iff.mp h
    cases h
    simp only [Sys.uncount, Sock.home, hmode, hserv]
  · rename_i hother
    cases h
    unfold Sys.uncount Sock.home
    split
    · rename_i head hhead
      split at hhead
      · cases hhead; rfl
      · cases hhead; rfl
      · rename_i serv hmode hserv
        exact absurd hserv (hother serv hmode)
      · contradiction
    · rfl

theorem cpFdsDelSockRegistry_cases (h : cpFdsDelSockRegistry σ (some p) = .ok σ') :
    p ∈ σ.live ∧ (((σ.mem p).flag.registry = false ∧ σ' = σ) ∨
      ((σ.mem p).flag.registry = true ∧ ∃ head list, (σ.mem p).rlist = some head ∧
        σ.registry head = .ok list ∧
        σ' = ((σ.uncount (σ.mem p)).setRegistry head (list.erase p)).modify p fun s =>
          { s with rlist := none, flag.registry := false })) := by
  unfold cpFdsDelSockRegistry at h
  obtain ⟨s, hload, h⟩ := bind_eq_ok_iff.mp h
  obtain ⟨hlive, rfl⟩ := load_eq_ok hload
  refine ⟨hlive, ?_⟩
  split at h
  · rename_i hregistry
    cases h
    exact Or.inl ⟨by simpa using hregistry, rfl⟩
  · rename_i hregistry
    obtain ⟨σ₁, huncount, h⟩ := bind_eq_ok_iff.mp h
    obtain ⟨σ₂, hdel, h⟩ := bind_eq_ok_iff.mp h
    cases h
    cases uncountAccept_cases huncount
    have hrlist : ((σ.uncount (σ.mem p)).mem p).rlist = (σ.mem p).rlist := by
      unfold Sys.uncount
      split
      · exact countAccept_field σ _ _ (·.rlist) (fun _ _ => rfl) p
      · rfl
    have hreg : (σ.uncount (σ.mem p)).registry = σ.registry := by
      unfold Sys.uncount
      split <;> simp
    unfold listDel at hdel
    rw [hrlist] at hdel
    split at hdel
    · contradiction
    · rename_i head hhead
      obtain ⟨list, hlist, hdel⟩ := bind_eq_ok_iff.mp hdel
      cases hdel
      rw [hreg] at hlist
      refine Or.inr ⟨by simpa using hregistry, head, list, hhead, hlist, ?_⟩
      exact Sys.modify_modify _ p (fun s => { s with rlist := none })
        (fun s => { s with flag.registry := false })

theorem uncount_view (σ : Sys) (s : Sock) (g : Fds → γ) (field : Sock → β)
    (hfield : ∀ s acceptCnt, field { s with acceptCnt } = field s) :
    (σ.uncount s).view g field = σ.view g field := by
  unfold Sys.uncount
  split
  · exact countAccept_view σ _ _ g field hfield
  · rfl

theorem cpFdsDelSockRegistry_view (h : cpFdsDelSockRegistry σ sock = .ok σ')
    (hg : ∀ fds clientList serverList, g { fds with clientList, serverList } = g fds)
    (hfield : ∀ s acceptList acceptCnt rlist registry,
      field { s with acceptList, acceptCnt, rlist, flag.registry := registry } = field s) :
    σ'.view g field = σ.view g field ∧ σ'.kern = σ.kern := by
  cases sock with
  | none => cases h; exact ⟨rfl, rfl⟩
  | some p =>
      obtain ⟨_, ⟨_, rfl⟩ | ⟨_, head, list, _, _, rfl⟩⟩ := cpFdsDelSockRegistry_cases h
      · exact ⟨rfl, rfl⟩
      · refine ⟨(Sys.modify_view _ p _ g field ?_).trans ?_, ?_⟩
        · exact hfield _ _ _ _ _
        · refine (Sys.setRegistry_view _ head _ g field hg fun s list => ?_).trans ?_
          · exact hfield s list s.acceptCnt s.rlist s.flag.registry
          · refine uncount_view σ _ g field fun s n => ?_
            exact hfield s s.acceptList n s.rlist s.flag.registry
        · rw [Sys.modify_kern, Sys.setRegistry_kern]
          unfold Sys.uncount
          split <;> simp

theorem cpFdsDelSockRegistry_others {q : SockId} (h : cpFdsDelSockRegistry σ (some p) = .ok σ')
    (hq : q ≠ p) (hfield : ∀ s acceptList acceptCnt, field { s with acceptList, acceptCnt } = field s) :
    field (σ'.mem q) = field (σ.mem q) := by
  obtain ⟨_, ⟨_, rfl⟩ | ⟨_, head, list, _, _, rfl⟩⟩ := cpFdsDelSockRegistry_cases h
  · rfl
  · rw [Sys.modify_ne _ _ hq, Sys.setRegistry_field _ head _ field fun s list => hfield s list s.acceptCnt]
    have huncount := uncount_view σ (σ.mem p) (fun _ => ()) field fun s n => hfield s s.acceptList n
    exact (Sys.view_eq_iff.mp huncount).2.2 q

theorem cpFdsDelSockRegistry_faultsOnly {allowed : Fault → Prop} (h : σ.Valid sock)
    (hlinked : ∀ p, sock = some p → (σ.mem p).flag.registry = true → ∃ head list,
      (σ.mem p).rlist = some head ∧ (σ.mem p).home = some head ∧ σ.registry head = .ok list) :
    FaultsOnly allowed (cpFdsDelSockRegistry σ sock) := by
  cases sock with
  | none => exact .ok _ _
  | some p =>
      simp only [cpFdsDelSockRegistry, Sys.load_of_mem (h p rfl), ok_bind]
      split
      · exact .pure _ _
      · rename_i hregistry
        obtain ⟨head, list, hrlist, hhome, hlist⟩ := hlinked p rfl (by simpa using hregistry)
        refine FaultsOnly.bind ?_ fun σ₁ hσ₁ => FaultsOnly.bind ?_ fun _ _ => .pure _ _
        · unfold uncountAccept
          split
          · rename_i serv hmode hserv
            simp only [Sock.home, hmode, hserv, Option.some.injEq] at hhome
            subst hhome
            rw [Sys.load_of_mem (Sys.registry_accept_ok_iff.mp hlist).1]
            exact .pure _ _
          · exact .ok _ _
        · cases uncountAccept_cases hσ₁
          have hreg : (σ.uncount (σ.mem p)).registry = σ.registry :=
            registry_congr (uncount_view σ _ _ _ fun _ _ => rfl)
          have hmem := (Sys.view_eq_iff.mp
            (uncount_view σ (σ.mem p) (fun _ => ()) (·.rlist) fun _ _ => rfl)).2.2 p
          unfold listDel
          rw [hmem, hrlist]
          simp only [hreg, hlist, ok_bind]
          exact .pure _ _

/-! Destroying a socket. -/

theorem cpFdsDestroySock_cases (h : cpFdsDestroySock σ sock = .ok σ') :
    ∃ σ₁ data σ₂ σ₃ σ₄, cpFdsDelSockTask σ sock = .ok σ₁ ∧
      cpFdsSockRmqueue σ₁ sock = .ok (data, σ₂) ∧ cpDelEpollEvent σ₂ sock = .ok σ₃ ∧
      cpFdsDelSockRegistry σ₃ sock = .ok σ₄ ∧ cpSockTerm σ₄ sock = .ok σ' := by
  obtain ⟨σ₁, h₁, h⟩ := bind_eq_ok_iff.mp h
  obtain ⟨⟨data, σ₂⟩, h₂, h⟩ := bind_eq_ok_iff.mp h
  obtain ⟨σ₃, h₃, h⟩ := bind_eq_ok_iff.mp h
  obtain ⟨σ₄, h₄, h⟩ := bind_eq_ok_iff.mp h
  exact ⟨σ₁, data, σ₂, σ₃, σ₄, h₁, h₂, h₃, h₄, h⟩

/-! The two detectors. -/

theorem detectTimeoutOne_cases {now : Clock} (h : detectTimeoutOne σ p now = .ok σ') :
    p ∈ σ.live ∧ (σ' = σ ∨ ∃ events rv,
      cpFdsAddSockTask (σ.modify p fun s => { s with event.events := events }) (some p) =
        .ok (rv, σ')) := by
  unfold detectTimeoutOne at h
  obtain ⟨s, hload, h⟩ := bind_eq_ok_iff.mp h
  refine ⟨(load_eq_ok hload).1, ?_⟩
  split at h
  · obtain ⟨⟨rv, υ⟩, hcall, h⟩ := bind_eq_ok_iff.mp h
    cases h
    exact Or.inr ⟨_, rv, hcall⟩
  · split at h
    · obtain ⟨⟨rv, υ⟩, hcall, h⟩ := bind_eq_ok_iff.mp h
      cases h
      exact Or.inr ⟨_, rv, hcall⟩
    · cases h
      exact Or.inl rfl

theorem detectTimeoutOne_view {now : Clock} (h : detectTimeoutOne σ p now = .ok σ')
    (hg : ∀ fds taskArray, g { fds with taskArray } = g fds)
    (hfield : ∀ s event index tasked,
      field { s with event, index, flag.tasked := tasked } = field s) :
    σ'.view g field = σ.view g field ∧ σ'.kern = σ.kern := by
  obtain ⟨_, rfl | ⟨events, rv, hcall⟩⟩ := detectTimeoutOne_cases h
  · exact ⟨rfl, rfl⟩
  · obtain ⟨hview, hkern⟩ := cpFdsAddSockTask_view hcall hg fun s index tasked =>
      hfield s s.event index tasked
    exact ⟨hview.trans (Sys.modify_view σ p _ g field (hfield _ _ _ _)), hkern⟩

theorem cpSockDetectTimeout_preserves {now : SockId → Clock} {P : Sys → Prop}
    (hone : ∀ τ p υ, P τ → detectTimeoutOne τ p (now p) = .ok υ → P υ) (hσ : P σ)
    (h : cpSockDetectTimeout σ now = .ok σ') : P σ' := by
  obtain ⟨σ₁, h₁, h₂⟩ := bind_eq_ok_iff.mp h
  have hσ₁ := foldlM_preserves (fun τ p υ _ => hone τ p υ) hσ h₁
  refine foldlM_preserves (fun τ serv υ _ hτ hwalk => ?_) hσ₁ h₂
  obtain ⟨list, _, hwalk⟩ := bind_eq_ok_iff.mp hwalk
  exact foldlM_preserves (fun τ p υ _ => hone τ p υ) hτ hwalk

theorem cpSockDetectTimeout_view {now : SockId → Clock} (h : cpSockDetectTimeout σ now = .ok σ')
    (hg : ∀ fds taskArray, g { fds with taskArray } = g fds)
    (hfield : ∀ s event index tasked,
      field { s with event, index, flag.tasked := tasked } = field s) :
    σ'.view g field = σ.view g field ∧ σ'.kern = σ.kern :=
  cpSockDetectTimeout_preserves (P := fun τ => τ.view g field = σ.view g field ∧ τ.kern = σ.kern)
    (fun τ p υ ⟨hview, hkern⟩ hone => by
      obtain ⟨hview', hkern'⟩ := detectTimeoutOne_view hone hg hfield
      exact ⟨hview'.trans hview, hkern'.trans hkern⟩)
    ⟨rfl, rfl⟩ h

theorem detectOne_cases {evt : EpollEvent} {now : ULong} {node : Bool}
    (h : detectOne σ evt now node = .ok σ') :
    ∃ p, evt.data = some p ∧ p ∈ σ.live ∧
      let τ := σ.modify p fun s => { s with event := evt, actvTime := now }
      ((σ.mem p).status ≠ .already ∧ σ' = τ) ∨
        ((σ.mem p).status = .already ∧ ∃ data, cpFdsSockEnqueue τ (some p) node = .ok (data, σ')) := by
  unfold detectOne at h
  cases hdata : evt.data with
  | none => simp [hdata] at h
  | some p =>
      simp only [hdata] at h
      obtain ⟨s, hload, h⟩ := bind_eq_ok_iff.mp h
      refine ⟨p, rfl, (load_eq_ok hload).1, ?_⟩
      simp only [Sys.modify_same] at h
      split at h
      · rename_i hstat
        obtain ⟨⟨data, υ⟩, hcall, h⟩ := bind_eq_ok_iff.mp h
        cases h
        exact Or.inr ⟨hstat, data, hcall⟩
      · rename_i hstat
        cases h
        exact Or.inl ⟨hstat, rfl⟩

theorem detectOne_view {evt : EpollEvent} {now : ULong} {node : Bool}
    (h : detectOne σ evt now node = .ok σ')
    (hg : ∀ fds eventQueue, g { fds with eventQueue } = g fds)
    (hfield : ∀ s event actvTime inqueue,
      field { s with event, actvTime, flag.inqueue := inqueue } = field s) :
    σ'.view g field = σ.view g field ∧ σ'.kern = σ.kern := by
  obtain ⟨p, _, _, ⟨_, rfl⟩ | ⟨_, data, hcall⟩⟩ := detectOne_cases h
  · exact ⟨Sys.modify_view σ p _ g field (hfield _ _ _ _), rfl⟩
  · obtain ⟨hview, hkern⟩ := cpFdsSockEnqueue_view hcall hg fun s inqueue =>
      hfield s s.event s.actvTime inqueue
    exact ⟨hview.trans (Sys.modify_view σ p _ g field (hfield _ _ _ _)), hkern⟩

theorem detectOne_faultsOnly {allowed : Fault → Prop} {evt : EpollEvent} {now : ULong} {node : Bool}
    (hdata : evt.data = some p) (h : p ∈ σ.live) : FaultsOnly allowed (detectOne σ evt now node) := by
  simp only [detectOne, hdata, Sys.load_of_mem h, ok_bind]
  split
  · refine (cpFdsSockEnqueue_faultsOnly fun q hq => ?_).bind fun _ _ => .pure _ _
    cases hq
    exact h
  · exact .pure _ _

theorem cpFdsDetectEvent_preserves {wait : Option (List Ready)} {P : Sys → Prop}
    (hone : ∀ τ evt now node υ, P τ → detectOne τ evt now node = .ok υ → P υ) (hσ : P σ)
    (h : cpFdsDetectEvent σ wait = .ok (rv, σ')) : P σ' := by
  unfold cpFdsDetectEvent at h
  cases wait with
  | none => cases h; exact hσ
  | some ready =>
      obtain ⟨σ₁, hloop, h⟩ := bind_eq_ok_iff.mp h
      cases h
      exact foldlM_preserves (fun τ e υ _ => hone τ e.1 e.2.1 e.2.2 υ) hσ hloop

theorem cpFdsDetectEvent_view {wait : Option (List Ready)}
    (h : cpFdsDetectEvent σ wait = .ok (rv, σ'))
    (hg : ∀ fds eventQueue, g { fds with eventQueue } = g fds)
    (hfield : ∀ s event actvTime inqueue,
      field { s with event, actvTime, flag.inqueue := inqueue } = field s) :
    σ'.view g field = σ.view g field ∧ σ'.kern = σ.kern :=
  cpFdsDetectEvent_preserves (P := fun τ => τ.view g field = σ.view g field ∧ τ.kern = σ.kern)
    (fun τ evt now node υ ⟨hview, hkern⟩ hone => by
      obtain ⟨hview', hkern'⟩ := detectOne_view hone hg hfield
      exact ⟨hview'.trans hview, hkern'.trans hkern⟩)
    ⟨rfl, rfl⟩ h

theorem cpFdsDetectEvent_faultsOnly {allowed : Fault → Prop} {wait : Option (List Ready)}
    (hdata : ∀ ready, ∀ e ∈ epollWait σ.kern ready, ∃ p ∈ σ.live, e.1.data = some p) :
    FaultsOnly allowed (cpFdsDetectEvent σ wait) := by
  cases wait with
  | none => exact .ok _ _
  | some ready =>
      refine FaultsOnly.bind ?_ fun _ _ => .pure _ _
      refine foldlM_faultsOnly (P := fun τ => τ.live = σ.live) (fun τ e υ _ hτ hone => ?_)
        (fun τ e he hτ => ?_) rfl
      · have hview : υ.view (fun _ => ()) (fun _ => ()) = τ.view _ _ :=
          (detectOne_view hone (fun _ _ => rfl) fun _ _ _ _ => rfl).1
        exact (Sys.view_eq_iff.mp hview).2.1.trans hτ
      · obtain ⟨p, hp, hp'⟩ := hdata ready e he
        exact detectOne_faultsOnly hp' (hτ ▸ hp)

end Fl2440.CpLibrary
