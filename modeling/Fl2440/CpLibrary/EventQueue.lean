import Fl2440.CpLibrary.Descriptors
import Fl2440.Lib.Marked

/-! The event queue and `FLAG_SOCK_INQUEUE`. That the queue has no strangers in it
survives every call; that it has every flagged socket is a second matter, which
depends on what `cp_enqueue` answers. -/
namespace Fl2440.CpLibrary

open Fl2440.Lib

variable {σ σ' τ : Sys} {p : SockId} {sock : Ptr} {rv : Int}

/-- A live socket that says it is in the queue of its context. -/
def Sys.Queued (σ : Sys) (p : SockId) : Prop :=
  p ∈ σ.live ∧ (σ.mem p).flag.inqueue = true ∧ (σ.mem p).fds = true

/-- The queue holds sockets that say so, each once. -/
def QueueOk (σ : Sys) : Prop := Marked σ.fds.eventQueue.nodes σ.Queued

def QueueComplete (σ : Sys) : Prop :=
  ∀ p ∈ σ.live, (σ.mem p).flag.inqueue = true → p ∈ σ.fds.eventQueue.nodes

def Sys.queueView (σ : Sys) : CpQueue SockId × Finset SockId × (SockId → Bool × Bool) :=
  σ.view (·.eventQueue) fun s => (s.flag.inqueue, s.fds)

theorem QueueOk.congr_live (h : QueueOk σ) (hqueue : τ.fds.eventQueue.nodes = σ.fds.eventQueue.nodes)
    (hlive : σ.live ⊆ τ.live) (hmem : ∀ p ∈ σ.live, (τ.mem p).flag.inqueue = (σ.mem p).flag.inqueue ∧
      (τ.mem p).fds = (σ.mem p).fds) : QueueOk τ := by
  unfold QueueOk
  rw [hqueue]
  refine h.mono fun p _ ⟨hp, hin, hfds⟩ => ?_
  exact ⟨hlive hp, (hmem p hp).1.trans hin, (hmem p hp).2.trans hfds⟩

theorem QueueOk.congr (h : QueueOk σ) (hview : τ.queueView = σ.queueView) : QueueOk τ := by
  obtain ⟨hqueue, hlive, hmem⟩ := Sys.view_eq_iff.mp hview
  exact h.congr_live (by rw [hqueue]) hlive.superset fun p _ => Prod.mk.inj (hmem p)

theorem QueueComplete.congr (h : QueueComplete σ) (hview : τ.queueView = σ.queueView) :
    QueueComplete τ := by
  obtain ⟨hqueue, hlive, hmem⟩ := Sys.view_eq_iff.mp hview
  intro p hp hin
  rw [hqueue]
  exact h p (hlive ▸ hp) ((Prod.mk.inj (hmem p)).1 ▸ hin)

theorem QueueOk.not_mem (h : QueueOk σ) (hp : (σ.mem p).flag.inqueue = false) :
    p ∉ σ.fds.eventQueue.nodes := by
  intro hmem
  have hin := (h.marked p hmem).2.1
  rw [hp] at hin
  contradiction

theorem QueueOk.sockEnqueue {data : Ptr} {node : Bool} (h : QueueOk σ)
    (hcall : cpFdsSockEnqueue σ sock node = .ok (data, σ')) : QueueOk σ' := by
  cases sock with
  | none => cases hcall; exact h
  | some p =>
      obtain ⟨hlive, rfl | ⟨hin, _, hfds, rfl⟩⟩ := cpFdsSockEnqueue_cases hcall
      · exact h
      · have hnew := h.not_mem hin
        have hkeep : ∀ q ∈ σ.fds.eventQueue.nodes, σ.Queued q →
            ({ σ with fds.eventQueue := (cpEnqueue σ.fds.eventQueue p node).2 }.modify p
              fun s => { s with flag.inqueue := true }).Queued q := by
          intro q hq hmark
          have hne : q ≠ p := fun heq => hnew (heq ▸ hq)
          unfold Sys.Queued
          rw [Sys.modify_ne _ _ hne]
          exact hmark
        unfold QueueOk
        rw [Sys.modify_fds]
        rcases cpEnqueue_cases σ.fds.eventQueue p node with heq | heq
        · simp only [heq] at hkeep ⊢
          refine Marked.append h hnew ⟨hlive, ?_, ?_⟩ hkeep
          · rw [Sys.modify_same]
          · rw [Sys.modify_same]
            exact hfds
        · simp only [heq] at hkeep ⊢
          exact h.mono hkeep

theorem cpFdsSockEnqueue_room (hlive : p ∈ σ.live) (hin : (σ.mem p).flag.inqueue = false)
    (htasked : (σ.mem p).flag.tasked = false) (hfds : (σ.mem p).fds = true)
    (hroom : (σ.fds.eventQueue.nodes.length : Int) < σ.fds.eventQueue.size) :
    cpFdsSockEnqueue σ (some p) true = .ok (some p, { σ with fds.eventQueue :=
      { σ.fds.eventQueue with nodes := σ.fds.eventQueue.nodes ++ [p] } }.modify p
        fun s => { s with flag.inqueue := true }) := by
  simp only [cpFdsSockEnqueue, Sys.load_of_mem hlive, ok_bind, hin, htasked, hfds,
    Bool.not_true, Bool.or_self, Bool.false_eq_true, if_false, Sys.modify_fds]
  rw [cpEnqueue_eq_of_room p hroom]
  rfl

theorem QueueComplete.sockEnqueue {data : Ptr} {node : Bool} (h : QueueComplete σ)
    (hroom : ∀ p, sock = some p → (σ.mem p).flag.inqueue = false →
      (σ.mem p).flag.tasked = false → (σ.mem p).fds = true →
        node = true ∧ (σ.fds.eventQueue.nodes.length : Int) < σ.fds.eventQueue.size)
    (hcall : cpFdsSockEnqueue σ sock node = .ok (data, σ')) : QueueComplete σ' := by
  cases sock with
  | none => cases hcall; exact h
  | some p =>
      obtain ⟨hlive, rfl | ⟨hin, htasked, hfds, -⟩⟩ := cpFdsSockEnqueue_cases hcall
      · exact h
      · obtain ⟨rfl, hplace⟩ := hroom p rfl hin htasked hfds
        rw [cpFdsSockEnqueue_room hlive hin htasked hfds hplace] at hcall
        cases hcall
        intro q hq hflag
        by_cases hne : q = p
        · rw [hne]
          exact List.mem_append_right _ (List.mem_singleton_self p)
        · rw [Sys.modify_ne _ _ hne] at hflag
          exact List.mem_append_left _ (h q hq hflag)

theorem QueueOk.sockDequeue {data : Ptr} (h : QueueOk σ)
    (hcall : cpFdsSockDequeue σ = .ok (data, σ')) : QueueOk σ' := by
  obtain ⟨p, rest, rfl, _, hnodes, rfl⟩ := cpFdsSockDequeue_cases hcall
  unfold QueueOk at h
  rw [hnodes] at h
  refine h.tail fun q hne hmark => ?_
  unfold Sys.Queued
  rw [Sys.modify_ne _ _ hne]
  exact hmark

theorem QueueComplete.sockDequeue {data : Ptr} (h : QueueComplete σ)
    (hcall : cpFdsSockDequeue σ = .ok (data, σ')) : QueueComplete σ' := by
  obtain ⟨p, rest, rfl, _, hnodes, rfl⟩ := cpFdsSockDequeue_cases hcall
  intro q hq hflag
  have hne : q ≠ p := by
    rintro rfl
    rw [Sys.modify_same] at hflag
    contradiction
  rw [Sys.modify_ne _ _ hne] at hflag
  have hmem := h q hq hflag
  rw [hnodes] at hmem
  exact (List.mem_cons.mp hmem).resolve_left hne

theorem QueueOk.sockRmqueue {data : Ptr} (h : QueueOk σ)
    (hcall : cpFdsSockRmqueue σ sock = .ok (data, σ')) : QueueOk σ' := by
  cases sock with
  | none => cases hcall; exact h
  | some p =>
      obtain ⟨_, ⟨_, rfl⟩ | ⟨_, _, rfl⟩⟩ := cpFdsSockRmqueue_cases hcall
      · exact h
      · refine Marked.erase h fun q hne hmark => ?_
        unfold Sys.Queued
        rw [Sys.modify_ne _ _ hne]
        exact hmark

theorem QueueComplete.sockRmqueue {data : Ptr} (h : QueueComplete σ)
    (hcall : cpFdsSockRmqueue σ sock = .ok (data, σ')) : QueueComplete σ' := by
  cases sock with
  | none => cases hcall; exact h
  | some p =>
      obtain ⟨_, ⟨_, rfl⟩ | ⟨_, _, rfl⟩⟩ := cpFdsSockRmqueue_cases hcall
      · exact h
      · intro q hq hflag
        have hne : q ≠ p := by
          rintro rfl
          rw [Sys.modify_same] at hflag
          contradiction
        rw [Sys.modify_ne _ _ hne] at hflag
        exact (List.mem_erase_of_ne hne).mpr (h q hq hflag)

theorem QueueOk.not_mem_of_rmqueue {data : Ptr} (h : QueueOk σ)
    (hcall : cpFdsSockRmqueue σ (some p) = .ok (data, σ')) : p ∉ σ'.fds.eventQueue.nodes := by
  obtain ⟨_, ⟨hout, rfl⟩ | ⟨_, _, rfl⟩⟩ := cpFdsSockRmqueue_cases hcall
  · intro hmem
    obtain ⟨_, hin, hfds⟩ := h.marked p hmem
    rcases hout with hout | hout
    · rw [hout] at hin
      contradiction
    · rw [hout] at hfds
      contradiction
  · exact fun hmem => (h.nodup.mem_erase_iff.mp hmem).1 rfl

theorem QueueOk.term (h : QueueOk σ) (hfree : p ∉ σ.fds.eventQueue.nodes)
    (hcall : cpSockTerm σ (some p) = .ok σ') : QueueOk σ' := by
  obtain ⟨_, hfds, hlive, hmem, _⟩ := cpSockTerm_spec hcall
  unfold QueueOk
  rw [hfds]
  refine h.mono fun q hq hmark => ?_
  have hne : q ≠ p := fun heq => hfree (heq ▸ hq)
  unfold Sys.Queued
  rw [hlive, hmem q hne]
  exact ⟨Finset.mem_erase.mpr ⟨hne, hmark.1⟩, hmark.2⟩

theorem QueueComplete.term (h : QueueComplete σ) (hcall : cpSockTerm σ (some p) = .ok σ') :
    QueueComplete σ' := by
  obtain ⟨_, hfds, hlive, hmem, _⟩ := cpSockTerm_spec hcall
  intro q hq hflag
  rw [hlive] at hq
  obtain ⟨hne, hq⟩ := Finset.mem_erase.mp hq
  rw [hmem q hne] at hflag
  rw [hfds]
  exact h q hq hflag

theorem QueueOk.destroySock (h : QueueOk σ) (hcall : cpFdsDestroySock σ sock = .ok σ') :
    QueueOk σ' := by
  obtain ⟨σ₁, data, σ₂, σ₃, σ₄, h₁, h₂, h₃, h₄, h₅⟩ := cpFdsDestroySock_cases hcall
  have hq₁ : QueueOk σ₁ :=
    h.congr (cpFdsDelSockTask_view h₁ (fun _ _ => rfl) fun _ _ _ _ => rfl).1
  have hview₃ : σ₃.queueView = σ₂.queueView :=
    cpDelEpollEvent_view h₃ (fun _ _ => rfl) fun _ _ => rfl
  have hview₄ : σ₄.queueView = σ₂.queueView :=
    (cpFdsDelSockRegistry_view h₄ (fun _ _ _ => rfl) fun _ _ _ _ _ => rfl).1.trans hview₃
  have hq₄ : QueueOk σ₄ := (hq₁.sockRmqueue h₂).congr hview₄
  cases sock with
  | none => cases h₅; exact hq₄
  | some p =>
      refine hq₄.term ?_ h₅
      rw [(Sys.view_eq_iff.mp hview₄).1]
      exact hq₁.not_mem_of_rmqueue h₂

theorem QueueComplete.destroySock (h : QueueComplete σ)
    (hcall : cpFdsDestroySock σ sock = .ok σ') : QueueComplete σ' := by
  obtain ⟨σ₁, data, σ₂, σ₃, σ₄, h₁, h₂, h₃, h₄, h₅⟩ := cpFdsDestroySock_cases hcall
  have hq₁ : QueueComplete σ₁ :=
    h.congr (cpFdsDelSockTask_view h₁ (fun _ _ => rfl) fun _ _ _ _ => rfl).1
  have hq₃ : QueueComplete σ₃ :=
    (hq₁.sockRmqueue h₂).congr (cpDelEpollEvent_view h₃ (fun _ _ => rfl) fun _ _ => rfl)
  have hq₄ : QueueComplete σ₄ :=
    hq₃.congr (cpFdsDelSockRegistry_view h₄ (fun _ _ _ => rfl) fun _ _ _ _ _ => rfl).1
  cases sock with
  | none => cases h₅; exact hq₄
  | some p => exact hq₄.term h₅

end Fl2440.CpLibrary
