import Fl2440.CpLibrary.Descriptors

/-! The epoll set of the kernel against `FLAG_SOCK_EPOLLED` in the sockets. `on` is
the set of sockets that are accounted for: all live ones, or all but one that a
call is still working on. -/
namespace Fl2440.CpLibrary

open Fl2440.Lib

variable {σ σ' τ : Sys} {p : SockId} {sock : Ptr} {rv : Int} {on : Finset SockId}

/-- The kernel has the flagged sockets and nothing else, each under its descriptor
and with its own address. -/
structure EpollOk (σ : Sys) (on : Finset SockId) : Prop where
  entry : ∀ fd data, σ.kern.epoll fd = some data →
    ∃ p ∈ on, data = some p ∧ (σ.mem p).flag.epolled = true ∧ (σ.mem p).fd = fd
  flag : ∀ p ∈ on, (σ.mem p).flag.epolled = true → σ.kern.epoll (σ.mem p).fd = some (some p)

theorem EpollOk.congr (h : EpollOk σ on) (hkern : τ.kern.epoll = σ.kern.epoll)
    (hmem : ∀ p ∈ on, (τ.mem p).flag.epolled = (σ.mem p).flag.epolled ∧
      (τ.mem p).fd = (σ.mem p).fd) : EpollOk τ on := by
  constructor
  · intro fd data hentry
    rw [hkern] at hentry
    obtain ⟨p, hp, hdata, hflag, hfd⟩ := h.entry fd data hentry
    exact ⟨p, hp, hdata, (hmem p hp).1.trans hflag, (hmem p hp).2.trans hfd⟩
  · intro p hp hflag
    rw [hkern, (hmem p hp).2]
    exact h.flag p hp ((hmem p hp).1 ▸ hflag)

theorem EpollOk.congr_view {γ : Type} {g : Fds → γ} (h : EpollOk σ on)
    (hview : τ.view g (fun s => (s.flag.epolled, s.fd)) =
      σ.view g (fun s => (s.flag.epolled, s.fd)) ∧ τ.kern = σ.kern) : EpollOk τ on :=
  h.congr (congrArg Kernel.epoll hview.2) fun p _ =>
    Prod.mk.inj ((Sys.view_eq_iff.mp hview.1).2.2 p)

theorem EpollOk.fd_inj {q : SockId} (h : EpollOk σ on) (hp : p ∈ on) (hq : q ∈ on)
    (hpflag : (σ.mem p).flag.epolled = true) (hqflag : (σ.mem q).flag.epolled = true)
    (hfd : (σ.mem p).fd = (σ.mem q).fd) : p = q := by
  have hentry := h.flag p hp hpflag
  rw [hfd, h.flag q hq hqflag] at hentry
  exact (Option.some.inj (Option.some.inj hentry)).symm

theorem EpollOk.register (h : EpollOk σ on)
    (hmem : ∀ q ∈ on, q ≠ p → (τ.mem q).flag.epolled = (σ.mem q).flag.epolled ∧
      (τ.mem q).fd = (σ.mem q).fd)
    (hold : p ∈ on → (σ.mem p).flag.epolled = false) (hflag : (τ.mem p).flag.epolled = true)
    (hfree : σ.kern.epoll (τ.mem p).fd = none)
    (hkern : τ.kern.epoll = Function.update σ.kern.epoll (τ.mem p).fd (some (some p))) :
    EpollOk τ (insert p on) := by
  have hne : ∀ q ∈ on, (σ.mem q).flag.epolled = true → q ≠ p := by
    rintro q hq hqflag rfl
    rw [hold hq] at hqflag
    contradiction
  constructor
  · intro fd data hentry
    rw [hkern] at hentry
    by_cases hfdp : fd = (τ.mem p).fd
    · rw [hfdp, Function.update_self] at hentry
      exact ⟨p, Finset.mem_insert_self p on, (Option.some.inj hentry).symm, hflag, hfdp.symm⟩
    · rw [Function.update_of_ne hfdp] at hentry
      obtain ⟨q, hq, hdata, hqflag, hqfd⟩ := h.entry fd data hentry
      obtain ⟨hsame, hsamefd⟩ := hmem q hq (hne q hq hqflag)
      exact ⟨q, Finset.mem_insert_of_mem hq, hdata, hsame.trans hqflag, hsamefd.trans hqfd⟩
  · intro q hq hqflag
    rw [hkern]
    by_cases hqp : q = p
    · rw [hqp, Function.update_self]
    · have hqon := (Finset.mem_insert.mp hq).resolve_left hqp
      obtain ⟨hsame, hsamefd⟩ := hmem q hqon hqp
      have hentry := h.flag q hqon (hsame ▸ hqflag)
      have hqfd : (σ.mem q).fd ≠ (τ.mem p).fd := by
        intro heq
        rw [heq, hfree] at hentry
        contradiction
      rw [hsamefd, Function.update_of_ne hqfd]
      exact hentry

theorem EpollOk.unregister (h : EpollOk σ on)
    (hmem : ∀ q, q ≠ p → (τ.mem q).flag.epolled = (σ.mem q).flag.epolled ∧
      (τ.mem q).fd = (σ.mem q).fd)
    (hp : p ∈ on) (hflag : (σ.mem p).flag.epolled = true)
    (hkern : τ.kern.epoll = Function.update σ.kern.epoll (σ.mem p).fd none) :
    EpollOk τ (on.erase p) := by
  constructor
  · intro fd data hentry
    rw [hkern] at hentry
    have hfdp : fd ≠ (σ.mem p).fd := by
      rintro rfl
      rw [Function.update_self] at hentry
      contradiction
    rw [Function.update_of_ne hfdp] at hentry
    obtain ⟨q, hq, hdata, hqflag, hqfd⟩ := h.entry fd data hentry
    have hqp : q ≠ p := by
      rintro rfl
      exact hfdp hqfd.symm
    exact ⟨q, Finset.mem_erase.mpr ⟨hqp, hq⟩, hdata, (hmem q hqp).1.trans hqflag,
      (hmem q hqp).2.trans hqfd⟩
  · intro q hq hqflag
    obtain ⟨hqp, hqon⟩ := Finset.mem_erase.mp hq
    rw [(hmem q hqp).1] at hqflag
    have hqfd : (σ.mem q).fd ≠ (σ.mem p).fd := fun heq => hqp (h.fd_inj hqon hp hqflag hflag heq)
    rw [hkern, (hmem q hqp).2, Function.update_of_ne hqfd]
    exact h.flag q hqon hqflag

theorem EpollOk.erase_unregistered (h : EpollOk σ on) (hflag : (σ.mem p).flag.epolled = false) :
    EpollOk σ (on.erase p) := by
  constructor
  · intro fd data hentry
    obtain ⟨q, hq, hdata, hqflag, hqfd⟩ := h.entry fd data hentry
    have hqp : q ≠ p := by
      rintro rfl
      rw [hflag] at hqflag
      contradiction
    exact ⟨q, Finset.mem_erase.mpr ⟨hqp, hq⟩, hdata, hqflag, hqfd⟩
  · exact fun q hq => h.flag q (Finset.mem_of_mem_erase hq)

theorem EpollOk.insert_unregistered (h : EpollOk σ on) (hflag : (σ.mem p).flag.epolled = false) :
    EpollOk σ (insert p on) := by
  constructor
  · intro fd data hentry
    obtain ⟨q, hq, hrest⟩ := h.entry fd data hentry
    exact ⟨q, Finset.mem_insert_of_mem hq, hrest⟩
  · intro q hq hqflag
    rcases Finset.mem_insert.mp hq with rfl | hq
    · rw [hflag] at hqflag
      contradiction
    · exact h.flag q hq hqflag

end Fl2440.CpLibrary
