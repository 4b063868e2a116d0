import Mathlib.Data.Finset.Lattice.Fold
import Mathlib.Logic.Function.Basic
import Mathlib.Order.Lattice.Nat
import Fl2440.Lib.Run

/-! A heap of cells of one kind, and the chains that pointers make in it. A pointer is the
address of a cell or NULL; following one into memory that is not allocated is a fault. -/
namespace Fl2440.Lib

structure Heap (ν : Type) where
  live : Finset Nat
  cell : Nat → ν

namespace Heap

variable {ν : Type}

def load (h : Heap ν) : Option Nat → Except Fault ν
  | none => .error .null
  | some a => if a ∈ h.live then .ok (h.cell a) else .error .freed

def set (h : Heap ν) (a : Nat) (v : ν) : Heap ν := { h with cell := Function.update h.cell a v }

def store (h : Heap ν) (p : Option Nat) (f : ν → ν) : Except Fault (Heap ν) :=
  match p with
  | none => .error .null
  | some a => if a ∈ h.live then .ok (h.set a (f (h.cell a))) else .error .freed

/-- `malloc` returns any address that is not in use: the hinted one if it is free, else one
above all that are. -/
def fresh (h : Heap ν) (hint : Nat) : Nat := if hint ∉ h.live then hint else h.live.sup id + 1 + hint

def malloc (h : Heap ν) (hint : Nat) (v : ν) : Heap ν :=
  ⟨insert (h.fresh hint) h.live, Function.update h.cell (h.fresh hint) v⟩

def free (h : Heap ν) : Option Nat → Heap ν
  | none => h
  | some a => { h with live := h.live.erase a }

/-- Following `next` from `p` leads over these cells, in order, and then to `q`. -/
def Segment (h : Heap ν) (next : ν → Option Nat) (p : Option Nat) (addrs : List Nat) (q : Option Nat) : Prop :=
  match addrs with
  | [] => p = q
  | a :: addrs => p = some a ∧ a ∈ h.live ∧ h.Segment next (next (h.cell a)) addrs q

variable {h : Heap ν} {next : ν → Option Nat} {p q : Option Nat} {a : Nat} {v : ν} {addrs rest : List Nat}

@[simp] theorem load_some (ha : a ∈ h.live) : h.load (some a) = .ok (h.cell a) := if_pos ha

@[simp] theorem store_some (ha : a ∈ h.live) (f : ν → ν) : h.store (some a) f = .ok (h.set a (f (h.cell a))) :=
  if_pos ha

@[simp] theorem set_live (h : Heap ν) (a : Nat) (v : ν) : (h.set a v).live = h.live := rfl

@[simp] theorem set_cell_same (h : Heap ν) (a : Nat) (v : ν) : (h.set a v).cell a = v := by simp [set]

theorem set_cell_ne (h : Heap ν) (v : ν) {b : Nat} (hne : b ≠ a) : (h.set a v).cell b = h.cell b := by
  simp [set, hne]

@[simp] theorem free_cell (h : Heap ν) (p : Option Nat) : (h.free p).cell = h.cell := by cases p <;> rfl

theorem fresh_notMem (h : Heap ν) (hint : Nat) : h.fresh hint ∉ h.live := by
  unfold fresh
  split
  · assumption
  · intro hmem
    have hle := Finset.le_sup (f := id) hmem
    simp only [id_eq] at hle
    omega

@[simp] theorem fresh_mem_malloc (h : Heap ν) (hint : Nat) (v : ν) : h.fresh hint ∈ (h.malloc hint v).live :=
  Finset.mem_insert_self _ _

@[simp] theorem malloc_cell_fresh (h : Heap ν) (hint : Nat) (v : ν) : (h.malloc hint v).cell (h.fresh hint) = v :=
  Function.update_self _ _ _

theorem mem_malloc (hint : Nat) (v : ν) (ha : a ∈ h.live) : a ∈ (h.malloc hint v).live :=
  Finset.mem_insert_of_mem ha

theorem malloc_cell (hint : Nat) (v : ν) (ha : a ∈ h.live) : (h.malloc hint v).cell a = h.cell a := by
  have hne : a ≠ h.fresh hint := by
    rintro rfl
    exact h.fresh_notMem hint ha
  simp [Heap.malloc, hne]

@[simp] theorem segment_nil : h.Segment next p [] q ↔ p = q := Iff.rfl

@[simp] theorem segment_cons : h.Segment next p (a :: addrs) q ↔
    p = some a ∧ a ∈ h.live ∧ h.Segment next (next (h.cell a)) addrs q := Iff.rfl

theorem segment_append : h.Segment next p (addrs ++ rest) q ↔
    ∃ mid, h.Segment next p addrs mid ∧ h.Segment next mid rest q := by
  induction addrs generalizing p with
  | nil => simp
  | cons a addrs ih => simp [ih, and_assoc]

theorem Segment.live (hseg : h.Segment next p addrs q) : ∀ a ∈ addrs, a ∈ h.live := by
  induction addrs generalizing p with
  | nil => simp
  | cons a addrs ih =>
      intro b hb
      rcases List.mem_cons.mp hb with rfl | hb
      · exact hseg.2.1
      · exact ih hseg.2.2 b hb

theorem Segment.congr {h' : Heap ν} (hseg : h.Segment next p addrs q)
    (hsame : ∀ a ∈ addrs, a ∈ h'.live ∧ h'.cell a = h.cell a) : h'.Segment next p addrs q := by
  induction addrs generalizing p with
  | nil => exact hseg
  | cons a addrs ih =>
      obtain ⟨hlive, hcell⟩ := hsame a List.mem_cons_self
      refine ⟨hseg.1, hlive, ?_⟩
      rw [hcell]
      exact ih hseg.2.2 fun b hb => hsame b (List.mem_cons_of_mem a hb)

theorem Segment.set (hseg : h.Segment next p addrs q) (ha : a ∉ addrs) (v : ν) :
    (h.set a v).Segment next p addrs q :=
  hseg.congr fun b hb => ⟨hseg.live b hb, h.set_cell_ne v fun heq => ha (heq ▸ hb)⟩

theorem Segment.free (hseg : h.Segment next p addrs q) (ha : a ∉ addrs) :
    (h.free (some a)).Segment next p addrs q :=
  hseg.congr fun b hb => ⟨Finset.mem_erase.mpr ⟨fun heq => ha (heq ▸ hb), hseg.live b hb⟩, rfl⟩

theorem Segment.malloc (hseg : h.Segment next p addrs q) (hint : Nat) (v : ν) :
    (h.malloc hint v).Segment next p addrs q :=
  hseg.congr fun b hb => ⟨mem_malloc hint v (hseg.live b hb), malloc_cell hint v (hseg.live b hb)⟩

end Heap

end Fl2440.Lib
