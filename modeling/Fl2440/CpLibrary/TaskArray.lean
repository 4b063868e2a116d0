import Fl2440.CpLibrary.Descriptors

/-! The task array, `FLAG_SOCK_TASKED` and `sock->index`. Here every call keeps the
two sides together. -/
namespace Fl2440.CpLibrary

open Fl2440.Lib

variable {σ σ' τ : Sys} {p : SockId} {sock : Ptr} {rv : Int}

/-- A slot in use and the socket in it know of each other. -/
structure TaskOk (σ : Sys) : Prop where
  slot : ∀ (i : Nat) (p : SockId), σ.fds.taskArray.data[i]? = some (some p) →
    p ∈ σ.live ∧ (σ.mem p).flag.tasked = true ∧ (σ.mem p).index = i
  tasked : ∀ p ∈ σ.live, (σ.mem p).flag.tasked = true → (σ.mem p).fds = true ∧
    ∃ i : Nat, (σ.mem p).index = i ∧ σ.fds.taskArray.data[i]? = some (some p)

def Sys.taskView (σ : Sys) : CpArray SockId × Finset SockId × (SockId → Bool × Int × Bool) :=
  σ.view (·.taskArray) fun s => (s.flag.tasked, s.index, s.fds)

theorem TaskOk.congr_live (h : TaskOk σ) (harray : τ.fds.taskArray.data = σ.fds.taskArray.data)
    (hlive : σ.live ⊆ τ.live)
    (hmem : ∀ p ∈ σ.live, (τ.mem p).flag.tasked = (σ.mem p).flag.tasked ∧
      (τ.mem p).index = (σ.mem p).index ∧ (τ.mem p).fds = (σ.mem p).fds)
    (hnew : ∀ p ∈ τ.live, p ∉ σ.live → (τ.mem p).flag.tasked = false) : TaskOk τ := by
  constructor
  · intro i p hslot
    rw [harray] at hslot
    obtain ⟨hp, htasked, hindex⟩ := h.slot i p hslot
    exact ⟨hlive hp, (hmem p hp).1.trans htasked, (hmem p hp).2.1.trans hindex⟩
  · intro p hp htasked
    by_cases hold : p ∈ σ.live
    · obtain ⟨hfds, i, hindex, hslot⟩ := h.tasked p hold ((hmem p hold).1 ▸ htasked)
      rw [harray]
      exact ⟨(hmem p hold).2.2.trans hfds, i, (hmem p hold).2.1.trans hindex, hslot⟩
    · rw [hnew p hp hold] at htasked
      contradiction

theorem TaskOk.congr (h : TaskOk σ) (hview : τ.taskView = σ.taskView) : TaskOk τ := by
  obtain ⟨harray, hlive, hmem⟩ := Sys.view_eq_iff.mp hview
  refine h.congr_live (by rw [harray]) hlive.superset (fun p _ => ?_)
    fun p hp hold => absurd (hlive ▸ hp) hold
  obtain ⟨htasked, hrest⟩ := Prod.mk.inj (hmem p)
  exact ⟨htasked, Prod.mk.inj hrest⟩

theorem TaskOk.slot_iff (h : TaskOk σ) (hp : p ∈ σ.live) (i : Nat) :
    σ.fds.taskArray.data[i]? = some (some p) ↔
      (σ.mem p).flag.tasked = true ∧ (σ.mem p).index = i := by
  constructor
  · exact fun hslot => (h.slot i p hslot).2
  · rintro ⟨htasked, hindex⟩
    obtain ⟨_, j, hj, hslot⟩ := h.tasked p hp htasked
    have hij : j = i := by omega
    rwa [← hij]

theorem TaskOk.addSockTask (h : TaskOk σ) (hcall : cpFdsAddSockTask σ sock = .ok (rv, σ')) :
    TaskOk σ' := by
  cases sock with
  | none => cases hcall; exact h
  | some p =>
      obtain ⟨hlive, rfl | ⟨i, hfree, hfds, htasked, rfl⟩⟩ := cpFdsAddSockTask_cases hcall
      · exact h
      · have hlt : i < σ.fds.taskArray.data.length := (List.getElem?_eq_some_iff.mp hfree).1
        constructor
        · intro j q hslot
          by_cases hji : j = i
          · subst hji
            have hself : (σ.fds.taskArray.data.set j (some p))[j]? = some (some q) := hslot
            rw [List.getElem?_set_self hlt] at hself
            obtain rfl : p = q := by simpa using hself
            rw [Sys.modify_same]
            exact ⟨hlive, rfl, rfl⟩
          · have hold : (σ.fds.taskArray.data.set i (some p))[j]? = some (some q) := hslot
            rw [List.getElem?_set_ne (Ne.symm hji)] at hold
            obtain ⟨hq, hqtasked, hindex⟩ := h.slot j q hold
            have hne : q ≠ p := by
              rintro rfl
              rw [htasked] at hqtasked
              contradiction
            rw [Sys.modify_ne _ _ hne]
            exact ⟨hq, hqtasked, hindex⟩
        · intro q hq hqtasked
          by_cases hne : q = p
          · subst hne
            rw [Sys.modify_same]
            exact ⟨hfds, i, rfl, List.getElem?_set_self hlt⟩
          · rw [Sys.modify_ne _ _ hne] at hqtasked ⊢
            obtain ⟨hqfds, j, hindex, hslot⟩ := h.tasked q hq hqtasked
            have hji : i ≠ j := by
              rintro rfl
              rw [hfree] at hslot
              simp at hslot
            exact ⟨hqfds, j, hindex, (List.getElem?_set_ne hji).trans hslot⟩

theorem TaskOk.delSockTask_cases (h : TaskOk σ) (hcall : cpFdsDelSockTask σ (some p) = .ok σ') :
    p ∈ σ.live ∧ (((σ.mem p).flag.tasked = false ∧ σ' = σ) ∨
      ∃ (i : Nat) (hslot : σ.fds.taskArray.data[i]? = some (some p)),
        σ' = { σ with fds.taskArray := σ.fds.taskArray.clear i hslot }.modify p fun s =>
          { s with flag.tasked := false, index := -1, event := {} }) := by
  obtain ⟨hlive, ⟨htasked, rfl⟩ | ⟨htasked, taskArray, harray, rfl⟩⟩ :=
    cpFdsDelSockTask_cases hcall
  · exact ⟨hlive, Or.inl ⟨htasked, rfl⟩⟩
  · obtain ⟨_, i, hindex, hslot⟩ := h.tasked p hlive htasked
    have hclear := harray (by omega)
    rw [hindex, cpArrayRmByindex_eq hslot] at hclear
    cases hclear
    exact ⟨hlive, Or.inr ⟨i, hslot, rfl⟩⟩

theorem TaskOk.delSockTask (h : TaskOk σ) (hcall : cpFdsDelSockTask σ sock = .ok σ') :
    TaskOk σ' := by
  cases sock with
  | none => cases hcall; exact h
  | some p =>
      obtain ⟨hlive, ⟨_, rfl⟩ | ⟨i, hslot, rfl⟩⟩ := h.delSockTask_cases hcall
      · exact h
      · have hlt : i < σ.fds.taskArray.data.length := (List.getElem?_eq_some_iff.mp hslot).1
        have hindex : (σ.mem p).index = i := (h.slot i p hslot).2.2
        constructor
        · intro j q hq
          have hset : (σ.fds.taskArray.data.set i none)[j]? = some (some q) := hq
          have hji : i ≠ j := by
            rintro rfl
            rw [List.getElem?_set_self hlt] at hset
            simp at hset
          rw [List.getElem?_set_ne hji] at hset
          obtain ⟨hqlive, hqtasked, hqindex⟩ := h.slot j q hset
          have hne : q ≠ p := by
            rintro rfl
            omega
          rw [Sys.modify_ne _ _ hne]
          exact ⟨hqlive, hqtasked, hqindex⟩
        · intro q hq hqtasked
          have hne : q ≠ p := by
            rintro rfl
            rw [Sys.modify_same] at hqtasked
            contradiction
          rw [Sys.modify_ne _ _ hne] at hqtasked ⊢
          obtain ⟨hqfds, j, hqindex, hqslot⟩ := h.tasked q hq hqtasked
          have hji : i ≠ j := by
            rintro rfl
            rw [hslot] at hqslot
            simp only [Option.some.injEq] at hqslot
            exact hne hqslot.symm
          exact ⟨hqfds, j, hqindex, (List.getElem?_set_ne hji).trans hqslot⟩

theorem TaskOk.delSockTask_faultsOnly {allowed : Fault → Prop} (h : TaskOk σ)
    (hvalid : σ.Valid sock) : FaultsOnly allowed (cpFdsDelSockTask σ sock) := by
  refine cpFdsDelSockTask_faultsOnly hvalid fun p hp htasked => ?_
  obtain ⟨hfds, i, hindex, hslot⟩ := h.tasked p (hvalid p hp) htasked
  exact ⟨hfds, i, hindex, (List.getElem?_eq_some_iff.mp hslot).1⟩

theorem TaskOk.untasked (h : TaskOk σ) (hcall : cpFdsDelSockTask σ (some p) = .ok σ') :
    (σ'.mem p).flag.tasked = false := by
  obtain ⟨_, ⟨htasked, rfl⟩ | ⟨i, hslot, rfl⟩⟩ := h.delSockTask_cases hcall
  · exact htasked
  · rw [Sys.modify_same]

theorem TaskOk.term (h : TaskOk σ) (huntasked : (σ.mem p).flag.tasked = false)
    (hcall : cpSockTerm σ (some p) = .ok σ') : TaskOk σ' := by
  obtain ⟨_, hfds, hlive, hmem, _⟩ := cpSockTerm_spec hcall
  constructor
  · intro i q hslot
    rw [hfds] at hslot
    obtain ⟨hq, htasked, hindex⟩ := h.slot i q hslot
    have hne : q ≠ p := by
      rintro rfl
      rw [huntasked] at htasked
      contradiction
    rw [hlive, hmem q hne]
    exact ⟨Finset.mem_erase.mpr ⟨hne, hq⟩, htasked, hindex⟩
  · intro q hq htasked
    rw [hlive] at hq
    obtain ⟨hne, hq⟩ := Finset.mem_erase.mp hq
    rw [hmem q hne] at htasked ⊢
    rw [hfds]
    exact h.tasked q hq htasked

theorem cpFdsAddSockTask_room (hlive : p ∈ σ.live) (hfds : (σ.mem p).fds = true)
    (hroom : (σ.mem p).flag.tasked = false → σ.fds.taskArray.items < σ.fds.taskArray.size) :
    ∃ σ', cpFdsAddSockTask σ (some p) = .ok (0, σ') := by
  simp only [cpFdsAddSockTask, Sys.load_of_mem hlive, ok_bind, hfds, Bool.not_true,
    Bool.false_eq_true, if_false]
  split
  · exact ⟨_, rfl⟩
  · rename_i htasked
    rcases cpArrayAdd_cases σ.fds.taskArray p with ⟨hfull, _⟩ | ⟨_, i, hfree, hadd⟩
    · have hlt := hroom (by simpa using htasked)
      omega
    · simp only [hadd, ge_iff_le, Int.natCast_nonneg, if_true]
      exact ⟨_, rfl⟩

theorem TaskOk.destroySock (h : TaskOk σ) (hcall : cpFdsDestroySock σ sock = .ok σ') :
    TaskOk σ' := by
  obtain ⟨σ₁, data, σ₂, σ₃, σ₄, h₁, h₂, h₃, h₄, h₅⟩ := cpFdsDestroySock_cases hcall
  have hview₂ : σ₂.taskView = σ₁.taskView :=
    (cpFdsSockRmqueue_view h₂ (fun _ _ => rfl) fun _ _ => rfl).1
  have hview₃ : σ₃.taskView = σ₁.taskView :=
    (cpDelEpollEvent_view h₃ (fun _ _ => rfl) fun _ _ => rfl).trans hview₂
  have hview₄ : σ₄.taskView = σ₁.taskView :=
    (cpFdsDelSockRegistry_view h₄ (fun _ _ _ => rfl) fun _ _ _ _ _ => rfl).1.trans hview₃
  have ht₄ : TaskOk σ₄ := (h.delSockTask h₁).congr hview₄
  cases sock with
  | none => cases h₅; exact ht₄
  | some p =>
      refine ht₄.term ?_ h₅
      have hflag := (Prod.mk.inj ((Sys.view_eq_iff.mp hview₄).2.2 p)).1
      exact hflag.trans (h.untasked h₁)

end Fl2440.CpLibrary
