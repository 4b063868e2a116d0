import Fl2440.CpLibrary.EpollSet

/-! The user data of the epoll set as a pointer back to the socket. The member
`event` of a socket is what was registered, what was delivered and what a task
carries, so it may no longer be what the kernel should be told. -/
namespace Fl2440.CpLibrary

open Fl2440.Lib

variable {σ σ' : Sys} {p : SockId} {sock : Ptr} {rv : Int}

theorem EpollOk.addEpollEvent {accept : Bool} (h : EpollOk σ σ.live)
    (hcall : cpAddEpollEvent σ sock accept = .ok (rv, σ')) : EpollOk σ' σ'.live := by
  cases sock with
  | none => cases hcall; exact h
  | some p =>
      obtain ⟨hlive, ⟨rfl, _⟩ | ⟨rfl, _, _⟩ | ⟨_, _, hflag, _, kern, hadd, rfl⟩⟩ :=
        cpAddEpollEvent_cases hcall
      · exact h
      · exact h.congr_view ⟨Sys.modify_view σ p _ (fun _ => ()) _ rfl, rfl⟩
      · obtain ⟨_, hfree, _, _, hepoll⟩ := Kernel.ctlAdd_eq_ok hadd
        rw [Sys.modify_live, ← Finset.insert_eq_of_mem hlive]
        refine h.register (fun q _ hq => ?_) (fun _ => hflag) ?_ ?_ ?_
        · rw [Sys.modify_ne _ _ hq]
          exact ⟨rfl, rfl⟩
        all_goals rw [Sys.modify_same]
        · exact hfree
        · exact hepoll

theorem EpollOk.modEpollEvent {event : UInt32} {accept : Bool} (h : EpollOk σ σ.live)
    (hdata : ∀ p, sock = some p → (σ.mem p).flag.epolled = true → accept = true →
      (σ.mem p).event.data = some p)
    (hcall : cpModEpollEvent σ sock event accept = .ok (rv, σ')) : EpollOk σ' σ'.live := by
  cases sock with
  | none => cases hcall; exact h
  | some p =>
      obtain ⟨hlive, rfl | ⟨hflag, kern, hkern, rfl⟩⟩ := cpModEpollEvent_cases hcall
      · exact h
      · refine h.congr ?_ fun q _ => ⟨?_, ?_⟩
        · rw [Sys.modify_kern]
          rcases hkern with rfl | hmod
          · rfl
          · obtain ⟨_, haccept, _, hepoll⟩ := Kernel.ctlMod_eq_some hmod
            rw [hepoll, hdata p rfl hflag haccept, ← h.flag p hlive hflag]
            exact Function.update_eq_self _ _
        · exact Sys.modify_field _ p _ (·.flag.epolled) rfl q
        · exact Sys.modify_field _ p _ (·.fd) rfl q

theorem EpollOk.delEpollEvent (h : EpollOk σ σ.live) (hcall : cpDelEpollEvent σ sock = .ok σ') :
    EpollOk σ' σ'.live := by
  cases sock with
  | none => cases hcall; exact h
  | some p =>
      obtain ⟨hlive, ⟨_, rfl⟩ | ⟨hflag, _, rfl⟩⟩ := cpDelEpollEvent_cases hcall
      · exact h
      · rw [Sys.modify_live, ← Finset.insert_erase hlive]
        refine EpollOk.insert_unregistered ?_ (by rw [Sys.modify_same])
        refine h.unregister (fun q hq => ?_) hlive hflag rfl
        rw [Sys.modify_ne _ _ hq]
        exact ⟨rfl, rfl⟩

/-- The calls between registration and dispatch. A modification that the kernel
accepts is of a socket whose event still has its own address. -/
def KeepsPointer (σ : Sys) : Call → Prop
  | .addEpollEvent _ _ | .delEpollEvent _ | .addSockTask _ | .delSockTask _ | .detectTimeout _
  | .detectEvent _ => True
  | .modEpollEvent sock _ accept => ∀ p, sock = some p → (σ.mem p).flag.epolled = true →
      accept = true → (σ.mem p).event.data = some p
  | _ => False

theorem EpollOk.call {c : Call} (h : EpollOk σ σ.live) (hok : KeepsPointer σ c)
    (hcall : σ.call c = .ok σ') : EpollOk σ' σ'.live := by
  have hframe : ∀ {τ : Sys}, τ.view (fun _ => ()) (fun s => (s.flag.epolled, s.fd)) =
      σ.view (fun _ => ()) (fun s => (s.flag.epolled, s.fd)) ∧ τ.kern = σ.kern →
        EpollOk τ τ.live := by
    intro τ hview
    rw [(Sys.view_eq_iff.mp hview.1).2.1]
    exact h.congr_view hview
  cases c with
  | addEpollEvent sock accept =>
      obtain ⟨⟨rv, τ⟩, hret, rfl⟩ := map_eq_ok_iff.mp hcall
      exact h.addEpollEvent hret
  | modEpollEvent sock event accept =>
      obtain ⟨⟨rv, τ⟩, hret, rfl⟩ := map_eq_ok_iff.mp hcall
      exact h.modEpollEvent hok hret
  | delEpollEvent sock => exact h.delEpollEvent hcall
  | addSockTask sock =>
      obtain ⟨⟨rv, τ⟩, hret, rfl⟩ := map_eq_ok_iff.mp hcall
      exact hframe (cpFdsAddSockTask_view hret (fun _ _ => rfl) fun _ _ _ => rfl)
  | delSockTask sock =>
      exact hframe (cpFdsDelSockTask_view hcall (fun _ _ => rfl) fun _ _ _ _ => rfl)
  | detectTimeout now =>
      exact hframe (cpSockDetectTimeout_view hcall (fun _ _ => rfl) fun _ _ _ _ => rfl)
  | detectEvent wait =>
      obtain ⟨⟨rv, τ⟩, hret, rfl⟩ := map_eq_ok_iff.mp hcall
      exact hframe (cpFdsDetectEvent_view hret (fun _ _ => rfl) fun _ _ _ _ => rfl)
  | sockInit | serverRegist | acceptRegist | connectRegist | addSockRegistry | delSockRegistry
  | sockEnqueue | sockDequeue | sockRmqueue | destroySock | termAllTask => exact absurd hok id

theorem EpollOk.epollWait (h : EpollOk σ σ.live) {ready : List Ready} {e : EpollEvent × ULong × Bool}
    (he : e ∈ Fl2440.CpLibrary.epollWait σ.kern ready) :
    ∃ r ∈ ready, ∃ p ∈ σ.live, e.1.data = some p ∧ (σ.mem p).fd = r.fd ∧
      (σ.mem p).flag.epolled = true := by
  obtain ⟨r, hr, hmap⟩ := List.mem_filterMap.mp (List.mem_of_mem_take he)
  obtain ⟨data, hdata, rfl⟩ := Option.map_eq_some_iff.mp hmap
  obtain ⟨p, hp, rfl, hflag, hfd⟩ := h.entry r.fd data hdata
  exact ⟨r, hr, p, hp, rfl, hfd, hflag⟩

theorem EpollOk.detectEvent_faultsOnly {allowed : Fault → Prop} (h : EpollOk σ σ.live)
    (wait : Option (List Ready)) : FaultsOnly allowed (cpFdsDetectEvent σ wait) := by
  refine cpFdsDetectEvent_faultsOnly fun ready e he => ?_
  obtain ⟨_, _, p, hp, hdata, _⟩ := h.epollWait he
  exact ⟨p, hp, hdata⟩

/-- After every run of admissible calls on live sockets, starting with nothing
registered, the kernel has the address of each registered socket under its
descriptor, and so do the events that a dispatch gets. -/
theorem epoll_data_points_back (σ₀ : Sys) (hflags : ∀ p ∈ σ₀.live, (σ₀.mem p).flag.epolled = false)
    (hempty : ∀ fd, σ₀.kern.epoll fd = none) {calls : List Call}
    (hcalls : Along Sys.call KeepsPointer σ₀ calls) {σ : Sys}
    (hrun : exec Sys.call σ₀ calls = .ok σ) :
    (∀ p ∈ σ.live, (σ.mem p).flag.epolled = true → σ.kern.epoll (σ.mem p).fd = some (some p)) ∧
      (∀ (ready : List Ready) (e : EpollEvent × ULong × Bool), e ∈ epollWait σ.kern ready →
        ∃ r ∈ ready, ∃ p ∈ σ.live, e.1.data = some p ∧ (σ.mem p).fd = r.fd) ∧
      ∀ wait, ∃ r, cpFdsDetectEvent σ wait = .ok r := by
  have hstart : EpollOk σ₀ σ₀.live := by
    constructor
    · intro fd data hentry
      rw [hempty] at hentry
      contradiction
    · intro p hp hflag
      rw [hflags p hp] at hflag
      contradiction
  have hσ : EpollOk σ σ.live := exec_preserves (P := fun τ => EpollOk τ τ.live)
    (fun τ c υ hok hτ hcall => hτ.call hok hcall) hstart hcalls hrun
  refine ⟨hσ.flag, fun ready e he => ?_, fun wait => ?_⟩
  · obtain ⟨r, hr, p, hp, hdata, hfd, _⟩ := hσ.epollWait he
    exact ⟨r, hr, p, hp, hdata, hfd⟩
  · exact (hσ.detectEvent_faultsOnly wait).exists_ok

private def pair : Sys where
  fds := ⟨false, 3, 0, 2, 0, [], [], cpQueueInit 2, cpArrayInit 2⟩
  mem p := { fds := true, mode := .connect, status := .already, fd := p + 3, index := -1 }
  live := {1, 2}
  kern := ((Kernel.bare.openFd 3).openFd 4).openFd 5

example : cpFdsInit .bare false 2 0 ⟨true, true, some 3⟩ =
    some (pair.fds, Kernel.bare.openFd 3) := rfl

/-- A registration, and a modification before the socket has been a task. -/
theorem epoll_data_points_back_modified :
    ∃ σ, exec Sys.call pair [.addEpollEvent (some 1) true, .modEpollEvent (some 1) epollin true] =
      .ok σ ∧ (σ.mem 1).flag.epolled = true ∧ σ.kern.epoll 4 = some (some 1) := by
  have hcalls : Along Sys.call KeepsPointer pair
      [.addEpollEvent (some 1) true, .modEpollEvent (some 1) epollin true] := by
    refine ⟨trivial, fun t ht => ⟨fun p hp _ _ => ?_, fun _ _ => trivial⟩⟩
    obtain ⟨⟨rv, τ⟩, hret, rfl⟩ := map_eq_ok_iff.mp ht
    cases hret
    cases hp
    rfl
  refine ⟨_, rfl, rfl, ?_⟩
  exact (epoll_data_points_back pair (fun _ _ => rfl) (fun _ => rfl) hcalls rfl).1 1 (by decide) rfl

/-- Taking the task of a socket back clears its event, so the next modification
hands NULL to the kernel, and the dispatch follows it. -/
theorem modified_after_task_points_nowhere :
    ∃ σ, exec Sys.call pair [.addEpollEvent (some 1) true, .addSockTask (some 1),
        .delSockTask (some 1), .modEpollEvent (some 1) epollin true] = .ok σ ∧
      1 ∈ σ.live ∧ (σ.mem 1).flag.epolled = true ∧ (σ.mem 1).fd = 4 ∧
      σ.kern.epoll 4 = some none ∧
      cpFdsDetectEvent σ (some [⟨4, epollin, 0, true⟩]) = .error .null :=
  ⟨_, rfl, by decide, rfl, rfl, rfl, rfl⟩

end Fl2440.CpLibrary
