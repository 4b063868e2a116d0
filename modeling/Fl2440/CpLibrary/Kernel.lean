import Mathlib.Data.Finset.Lattice.Fold
import Mathlib.Logic.Function.Basic
import Mathlib.Order.Lattice.Nat

/-! The side of the kernel that the socket library can observe: the open
descriptors, and the epoll set as a map from a descriptor to the user data last
given for it. -/
namespace Fl2440.CpLibrary

/-- The address of a `CP_SOCK`. -/
abbrev SockId := Nat

/-- A `CP_SOCK *`; `none` is NULL. -/
abbrev Ptr := Option SockId

structure Kernel where
  opened : Finset Int
  epoll : Int → Option Ptr
  nonneg : ∀ fd ∈ opened, 0 ≤ fd
  /-- Only open descriptors are in the epoll set. -/
  registered : ∀ fd, fd ∉ opened → epoll fd = none

def Kernel.bare : Kernel := ⟨∅, fun _ => none, by simp, fun _ _ => rfl⟩

inductive CtlAdd where
  | ok (kern : Kernel)
  | exist
  | failed

namespace Kernel

/-- The kernel hands out any descriptor that is not open: the hinted one if it
is free, else one above all that are open. -/
def freshFd (k : Kernel) (hint : Nat) : Int :=
  if (hint : Int) ∉ k.opened then hint
  else (((k.opened.image Int.toNat).sup id + 1 + hint : Nat) : Int)

theorem freshFd_not_mem (k : Kernel) (hint : Nat) : k.freshFd hint ∉ k.opened := by
  unfold freshFd
  split
  · assumption
  · intro hmem
    have hle := Finset.le_sup (f := id) (Finset.mem_image_of_mem Int.toNat hmem)
    simp only [Int.toNat_natCast, id_eq] at hle
    omega

theorem freshFd_nonneg (k : Kernel) (hint : Nat) : 0 ≤ k.freshFd hint := by
  unfold freshFd
  split <;> omega

theorem freshFd_pos (k : Kernel) {hint : Nat} (h : 0 < hint) : 0 < k.freshFd hint := by
  unfold freshFd
  split <;> omega

def openFd (k : Kernel) (hint : Nat) : Kernel where
  opened := insert (k.freshFd hint) k.opened
  epoll := k.epoll
  nonneg := by
    intro fd hfd
    rcases Finset.mem_insert.mp hfd with rfl | hfd
    · exact k.freshFd_nonneg hint
    · exact k.nonneg fd hfd
  registered fd hfd := k.registered fd fun hmem => hfd (Finset.mem_insert_of_mem hmem)

/-- Closing releases an open descriptor, which also takes it out of the epoll
set; any other number is refused with EBADF. -/
def close (k : Kernel) (fd : Int) : Kernel where
  opened := k.opened.erase fd
  epoll := Function.update k.epoll fd none
  nonneg fd' hfd' := k.nonneg fd' (Finset.mem_of_mem_erase hfd')
  registered := by
    intro fd' hfd'
    by_cases heq : fd' = fd
    · rw [heq, Function.update_self]
    · rw [Function.update_of_ne heq]
      exact k.registered fd' fun hmem => hfd' (Finset.mem_erase.mpr ⟨heq, hmem⟩)

def register (k : Kernel) (fd : Int) (data : Ptr) (h : fd ∈ k.opened) : Kernel :=
  { k with
    epoll := Function.update k.epoll fd (some data)
    registered := by
      intro fd' hfd'
      have hne : fd' ≠ fd := by
        rintro rfl
        exact hfd' h
      rw [Function.update_of_ne hne]
      exact k.registered fd' hfd' }

/-- EBADF for a descriptor that is not open, EEXIST for one already registered;
`accept` is whether the kernel then has the memory and the watches for it. -/
def ctlAdd (k : Kernel) (fd : Int) (data : Ptr) (accept : Bool) : CtlAdd :=
  if h : fd ∈ k.opened then
    if (k.epoll fd).isSome then .exist
    else if accept then .ok (k.register fd data h)
    else .failed
  else .failed

def ctlMod (k : Kernel) (fd : Int) (data : Ptr) (accept : Bool) : Option Kernel :=
  if h : fd ∈ k.opened then
    if (k.epoll fd).isSome && accept then some (k.register fd data h) else none
  else none

/-- Removing a registered descriptor succeeds: none of the error conditions of
`epoll_ctl` applies to it. -/
def ctlDel (k : Kernel) (fd : Int) : Kernel :=
  { k with
    epoll := Function.update k.epoll fd none
    registered := by
      intro fd' hfd'
      by_cases heq : fd' = fd
      · rw [heq, Function.update_self]
      · rw [Function.update_of_ne heq]
        exact k.registered fd' hfd' }

@[simp] theorem openFd_epoll (k : Kernel) (hint : Nat) : (k.openFd hint).epoll = k.epoll := rfl

theorem epoll_freshFd (k : Kernel) (hint : Nat) : k.epoll (k.freshFd hint) = none :=
  k.registered _ (k.freshFd_not_mem hint)

theorem close_epoll {k : Kernel} {fd : Int} (h : k.epoll fd = none) : (k.close fd).epoll = k.epoll := by
  simp only [close, ← h, Function.update_eq_self]

theorem not_mem_of_neg (k : Kernel) {fd : Int} (h : fd < 0) : fd ∉ k.opened :=
  fun hmem => absurd (k.nonneg fd hmem) (by omega)

theorem close_of_not_mem {k : Kernel} {fd : Int} (h : fd ∉ k.opened) : k.close fd = k := by
  have hepoll : Function.update k.epoll fd none = k.epoll := by
    rw [← k.registered fd h]
    exact Function.update_eq_self fd k.epoll
  cases k with
  | mk opened epoll nonneg registered =>
      simp only [close, mk.injEq]
      exact ⟨Finset.erase_eq_of_notMem h, hepoll⟩

theorem close_openFd (k : Kernel) (hint : Nat) : (k.openFd hint).close (k.freshFd hint) = k := by
  have hepoll : Function.update k.epoll (k.freshFd hint) none = k.epoll := by
    rw [← k.epoll_freshFd hint]
    exact Function.update_eq_self _ _
  have hopened : (insert (k.freshFd hint) k.opened).erase (k.freshFd hint) = k.opened :=
    Finset.erase_insert (k.freshFd_not_mem hint)
  unfold close openFd
  cases k with
  | mk opened epoll nonneg registered => exact mk.injEq .. ▸ ⟨hopened, hepoll⟩

theorem ctlAdd_eq_ok {k k' : Kernel} {fd : Int} {data : Ptr} {accept : Bool}
    (h : k.ctlAdd fd data accept = .ok k') :
    fd ∈ k.opened ∧ k.epoll fd = none ∧ accept = true ∧ k'.opened = k.opened ∧
      k'.epoll = Function.update k.epoll fd (some data) := by
  unfold ctlAdd at h
  split at h
  · rename_i hmem
    split at h
    · contradiction
    · rename_i hfree
      split at h
      · rename_i haccept
        cases h
        exact ⟨hmem, by simpa using hfree, haccept, rfl, rfl⟩
      · contradiction
  · contradiction

theorem ctlMod_eq_some {k k' : Kernel} {fd : Int} {data : Ptr} {accept : Bool}
    (h : k.ctlMod fd data accept = some k') :
    (k.epoll fd).isSome ∧ accept = true ∧ k'.opened = k.opened ∧
      k'.epoll = Function.update k.epoll fd (some data) := by
  unfold ctlMod at h
  split at h
  · split at h
    · rename_i hboth
      cases h
      rw [Bool.and_eq_true] at hboth
      exact ⟨hboth.1, hboth.2, rfl, rfl⟩
    · contradiction
  · contradiction

/-- What an attempt to get a descriptor leaves: the kernel as it was and no open
descriptor in hand, or one more open and that one in hand. -/
inductive Obtained (k : Kernel) : Kernel → Int → Prop
  | nothing {fd : Int} (h : fd ∉ k.opened) : Obtained k k fd
  | opened (hint : Nat) : Obtained k (k.openFd hint) (k.freshFd hint)

theorem Obtained.epoll_eq {k k' : Kernel} {fd : Int} (h : k.Obtained k' fd) : k'.epoll = k.epoll := by
  cases h <;> rfl

theorem Obtained.not_mem {k k' : Kernel} {fd : Int} (h : k.Obtained k' fd) : fd ∉ k.opened := by
  cases h with
  | nothing h => exact h
  | opened hint => exact k.freshFd_not_mem hint

theorem Obtained.unregistered {k k' : Kernel} {fd : Int} (h : k.Obtained k' fd) :
    k.epoll fd = none := k.registered fd h.not_mem

theorem Obtained.eq_of_neg {k k' : Kernel} {fd : Int} (h : k.Obtained k' fd) (hfd : fd < 0) :
    k' = k := by
  cases h with
  | nothing _ => rfl
  | opened hint => exact absurd (k.freshFd_nonneg hint) (by omega)

theorem Obtained.close_eq {k k' : Kernel} {fd : Int} (h : k.Obtained k' fd) : k'.close fd = k := by
  cases h with
  | nothing h => exact close_of_not_mem h
  | opened hint => exact k.close_openFd hint

end Kernel

end Fl2440.CpLibrary
