import Mathlib.Logic.Function.Basic
import Mathlib.Data.List.Basic

/-! Byte memory seen from a pointer, and computations that record which bytes
they read. Memory goes on behind the buffer a pointer stands for: a read past
its end returns some byte, and the record of reads shows it. -/
namespace Fl2440.Lib

abbrev Byte := BitVec 8

/-- Byte `i` is the one at the pointer plus `i`. -/
abbrev Mem := Nat → Byte

def Mem.write (m : Mem) (i : Nat) (b : Byte) : Mem := Function.update m i b

/-- `memcpy(&m[off], src, n)`. -/
def Mem.copy (m : Mem) (off : Nat) (src : Mem) (n : Nat) : Mem :=
  fun i => if off ≤ i ∧ i < off + n then src (i - off) else m i

def Mem.bytes (m : Mem) (off n : Nat) : List Byte := (List.range n).map fun i => m (off + i)

/-- A string in memory; what lies behind it is taken to be NUL. -/
def Mem.ofBytes (bytes : List Byte) : Mem := fun i => bytes.getD i 0

@[simp] theorem Mem.write_same (m : Mem) (i : Nat) (b : Byte) : m.write i b i = b := by
  simp [Mem.write]

theorem Mem.write_ne (m : Mem) {i j : Nat} (b : Byte) (h : j ≠ i) : m.write i b j = m j := by
  simp [Mem.write, h]

theorem Mem.copy_inside (m src : Mem) {off n i : Nat} (h : i < n) :
    m.copy off src n (off + i) = src i := by
  simp [Mem.copy, h]

theorem Mem.copy_outside (m src : Mem) {off n i : Nat} (h : i < off ∨ off + n ≤ i) :
    m.copy off src n i = m i := by
  unfold Mem.copy
  rw [if_neg (by omega)]

theorem Mem.bytes_add (m : Mem) (off n k : Nat) : m.bytes off (n + k) = m.bytes off n ++ m.bytes (off + n) k := by
  simp only [Mem.bytes, List.range_add, List.map_append, List.map_map]
  congr 1
  apply List.map_congr_left
  intro i _
  simp [Nat.add_assoc]

theorem Mem.bytes_succ (m : Mem) (off n : Nat) : m.bytes off (n + 1) = m off :: m.bytes (off + 1) n := by
  rw [Nat.add_comm, Mem.bytes_add]
  rfl

theorem Mem.bytes_copy_same (m src : Mem) (off n : Nat) : (m.copy off src n).bytes off n = src.bytes 0 n := by
  apply List.map_congr_left
  intro i hi
  rw [Mem.copy_inside m src (List.mem_range.mp hi), Nat.zero_add]

theorem Mem.bytes_copy_outside (m src : Mem) {off n at' k : Nat} (h : at' + k ≤ off ∨ off + n ≤ at') :
    (m.copy off src n).bytes at' k = m.bytes at' k := by
  apply List.map_congr_left
  intro i hi
  have := List.mem_range.mp hi
  apply Mem.copy_outside
  omega

theorem Mem.bytes_ofBytes (bytes : List Byte) : (Mem.ofBytes bytes).bytes 0 bytes.length = bytes := by
  apply List.ext_getElem
  · simp [Mem.bytes]
  · intro i _ hi
    simp [Mem.bytes, Mem.ofBytes, hi]

/-- A value together with the indices that were read to compute it. -/
structure Reading (α : Type) where
  value : α
  reads : List Nat

instance : Monad Reading where
  pure a := ⟨a, []⟩
  bind x f := ⟨(f x.value).value, x.reads ++ (f x.value).reads⟩

namespace Reading

@[simp] theorem value_pure (a : α) : (pure a : Reading α).value = a := rfl

@[simp] theorem reads_pure (a : α) : (pure a : Reading α).reads = [] := rfl

@[simp] theorem value_bind (x : Reading α) (f : α → Reading β) :
    (x >>= f).value = (f x.value).value := rfl

@[simp] theorem reads_bind (x : Reading α) (f : α → Reading β) :
    (x >>= f).reads = x.reads ++ (f x.value).reads := rfl

def Within (x : Reading α) (n : Int) : Prop := ∀ i ∈ x.reads, (i : Int) < n

theorem within_pure (a : α) (n : Int) : (pure a : Reading α).Within n := by
  simp [Within]

theorem within_bind_iff (x : Reading α) (f : α → Reading β) (n : Int) :
    (x >>= f).Within n ↔ x.Within n ∧ (f x.value).Within n := by
  simp only [Within, reads_bind, List.mem_append, or_imp, forall_and]

end Reading

def readByte (m : Mem) (i : Nat) : Reading Byte := ⟨m i, [i]⟩

/-- The source side of a `memcpy` of `n` bytes from `&m[off]`. -/
def readBlock (m : Mem) (off n : Nat) : Reading Mem :=
  ⟨fun i => m (off + i), (List.range n).map (off + ·)⟩

@[simp] theorem value_readByte (m : Mem) (i : Nat) : (readByte m i).value = m i := rfl

theorem within_readByte_iff (m : Mem) (i : Nat) (n : Int) :
    (readByte m i).Within n ↔ (i : Int) < n := by
  simp [Reading.Within, readByte]

theorem within_readBlock (m : Mem) {off k : Nat} {n : Int} (h : (off : Int) + k ≤ n) :
    (readBlock m off k).Within n := by
  intro i hi
  obtain ⟨j, hj, rfl⟩ := List.mem_map.mp hi
  have := List.mem_range.mp hj
  push_cast
  omega

end Fl2440.Lib
