import Mathlib.Data.Nat.ModEq
import Mathlib.Data.List.GetD
import Fl2440.Lib.Memory

/-! Queues in a ring of cells: what is in the queue is read from the one pointer on, round the
end of the ring, and what is put into it is stored from the other on. -/
namespace Fl2440.Lib

structure Fifo (α : Type) where
  capacity : Nat
  items : List α

namespace Fifo

variable {α : Type}

def put (q : Fifo α) (data : List α) : Nat × Fifo α :=
  let data := data.take (q.capacity - q.items.length)
  (data.length, { q with items := q.items ++ data })

def get (q : Fifo α) (max : Nat) : List α × Fifo α := (q.items.take max, { q with items := q.items.drop max })

end Fifo

namespace Cyclic

variable {α : Type} {m m' : Nat → α} {size rd rd' wr wr' n : Nat} {data q : List α}

def window (m : Nat → α) (size rd n : Nat) : List α := (List.range n).map fun i => m ((rd + i) % size)

@[simp] theorem length_window (m : Nat → α) (size rd n : Nat) : (window m size rd n).length = n := by simp [window]

theorem getElem_window {i : Nat} (hi : i < (window m size rd n).length) :
    (window m size rd n)[i] = m ((rd + i) % size) := by simp [window]

theorem window_congr (h : rd' % size = rd % size) : window m size rd' n = window m size rd n :=
  List.map_congr_left fun i _ => congrArg m (Nat.ModEq.add_right i h)

theorem drop_window (k : Nat) : (window m size rd n).drop k = window m size (rd + k) (n - k) := by
  apply List.ext_getElem
  · simp
  · intro i hi hi'
    rw [List.getElem_drop, getElem_window, getElem_window, Nat.add_assoc]

theorem take_window (k : Nat) : (window m size rd n).take k = window m size rd (min k n) := by
  apply List.ext_getElem
  · simp
  · intro i hi hi'
    rw [List.getElem_take, getElem_window, getElem_window]

/-- The items stand in the cells from one on, and the other cells are as they were. -/
structure Stored (m m' : Nat → α) (size wr : Nat) (data : List α) : Prop where
  inside : ∀ i (hi : i < data.length), m' ((wr + i) % size) = data[i]
  outside : ∀ c < size, (∀ i < data.length, (wr + i) % size ≠ c) → m' c = m c

theorem window_stored (h : Stored m m' size (rd + n) data) (hlength : n + data.length ≤ size) :
    window m' size rd (n + data.length) = window m size rd n ++ data := by
  apply List.ext_getElem
  · simp
  · intro i hi hi'
    rw [length_window] at hi
    rw [getElem_window]
    by_cases hin : i < n
    · have hpos : 0 < size := by omega
      rw [List.getElem_append_left (by simpa using hin), getElem_window]
      refine h.outside _ (Nat.mod_lt _ hpos) fun j hj heq => ?_
      rw [Nat.add_assoc] at heq
      have hmod : (n + j) % size = i % size := Nat.ModEq.add_left_cancel' rd heq
      rw [Nat.mod_eq_of_lt (by omega), Nat.mod_eq_of_lt (by omega)] at hmod
      omega
    · obtain ⟨j, rfl⟩ := Nat.exists_eq_add_of_le (Nat.not_lt.mp hin)
      have hj : j < data.length := by omega
      rw [List.getElem_append_right (by simp), ← Nat.add_assoc, h.inside j hj]
      simp

theorem Stored.congr (h : Stored m m' size wr data) (hmod : wr % size = wr' % size) : Stored m m' size wr' data where
  inside i hi := by rw [← Nat.ModEq.add_right i hmod, h.inside i hi]
  outside c hc hnot := h.outside c hc fun i hi => by rw [Nat.ModEq.add_right i hmod]; exact hnot i hi

/-- The ring holds a queue that is never as long as the ring. -/
structure Holds (m : Nat → α) (size rd wr : Nat) (q : List α) : Prop where
  room : q.length < size
  head : wr % size = (rd + q.length) % size
  items : window m size rd q.length = q

theorem holds_nil (m : Nat → α) (hsize : 0 < size) (p : Nat) : Holds m size p p [] := ⟨hsize, rfl, rfl⟩

theorem Holds.put (h : Holds m size rd wr q) (hstored : Stored m m' size wr data) (hroom : q.length + data.length < size)
    (hwr : wr' % size = (wr + data.length) % size) : Holds m' size rd wr' (q ++ data) where
  room := by rwa [List.length_append]
  head := by rw [hwr, List.length_append, ← Nat.add_assoc, Nat.ModEq.add_right data.length h.head]
  items := by rw [List.length_append, window_stored (hstored.congr h.head) hroom.le, h.items]

theorem Holds.get (h : Holds m size rd wr q) {k : Nat} (hk : k ≤ q.length) (hrd : rd' % size = (rd + k) % size) :
    Holds m size rd' wr (q.drop k) where
  room := by rw [List.length_drop]; exact (Nat.sub_le _ _).trans_lt h.room
  head := by
    rw [h.head, List.length_drop, Nat.ModEq.add_right (q.length - k) hrd]
    congr 1
    omega
  items := by
    rw [List.length_drop, window_congr hrd, ← drop_window, h.items]

theorem Holds.take (h : Holds m size rd wr q) {k : Nat} (hk : k ≤ q.length) : window m size rd k = q.take k := by
  rw [← h.items, take_window, Nat.min_eq_left (by simpa using hk)]

theorem Holds.getElem (h : Holds m size rd wr q) {i : Nat} (hi : i < q.length) : m ((rd + i) % size) = q[i] := by
  have hlt : i < (window m size rd q.length).length := by simpa using hi
  rw [← getElem_window hlt]
  exact List.getElem_of_eq h.items _

theorem masked_distance {w b : Nat} (hb : b < w) (hn : n < 2 ^ b) (h : wr % 2 ^ b = (rd + n) % 2 ^ b) :
    ((BitVec.ofNat w wr - BitVec.ofNat w rd) &&& (BitVec.ofNat w (2 ^ b) - 1)).toNat = n := by
  have hpow : 2 ^ b < 2 ^ w := Nat.pow_lt_pow_right (by decide) hb
  have hmask : (BitVec.ofNat w (2 ^ b) - 1).toNat = 2 ^ b - 1 := by
    have hone : (1 : BitVec w).toNat = 1 := BitVec.toNat_one (by omega)
    have hle : (1 : BitVec w) ≤ BitVec.ofNat w (2 ^ b) := by
      rw [BitVec.le_def, hone, BitVec.toNat_ofNat, Nat.mod_eq_of_lt hpow]
      exact Nat.two_pow_pos b
    rw [BitVec.toNat_sub_of_le hle, hone, BitVec.toNat_ofNat, Nat.mod_eq_of_lt hpow]
  rw [BitVec.toNat_and, hmask, Nat.and_two_pow_sub_one_eq_mod]
  generalize hx : BitVec.ofNat w wr - BitVec.ofNat w rd = x
  have hsum : x.toNat + rd ≡ wr [MOD 2 ^ w] := by
    have hadd := congrArg BitVec.toNat (BitVec.sub_eq_iff_eq_add.mp hx)
    rw [BitVec.toNat_add, BitVec.toNat_ofNat, BitVec.toNat_ofNat] at hadd
    exact (Nat.ModEq.add_left _ (Nat.mod_modEq _ _).symm).trans hadd.symm
  have hfar : x.toNat + rd ≡ n + rd [MOD 2 ^ b] := by
    rw [Nat.add_comm n rd]
    exact (hsum.of_dvd (Nat.pow_dvd_pow 2 hb.le)).trans h
  have heq : x.toNat % 2 ^ b = n % 2 ^ b := Nat.ModEq.add_right_cancel' rd hfar
  rw [heq, Nat.mod_eq_of_lt hn]

end Cyclic

section Bytes

open Cyclic

variable {m : Mem} {size rd wr k : Nat} {data : List Byte}

/-- `memcpy(&m[off], data, n)`, where `n` bytes are there. -/
def Mem.blit (m : Mem) (off : Nat) (data : List Byte) : Mem := m.copy off (Mem.ofBytes data) data.length

theorem Mem.blit_inside (m : Mem) (off : Nat) {i : Nat} (hi : i < data.length) : m.blit off data (off + i) = data[i] := by
  rw [Mem.blit, Mem.copy_inside _ _ hi, Mem.ofBytes, List.getD_eq_getElem _ _ hi]

theorem Mem.blit_outside (m : Mem) {off i : Nat} (h : i < off ∨ off + data.length ≤ i) : m.blit off data i = m i :=
  Mem.copy_outside _ _ h

theorem stored_blit (h : wr + data.length ≤ size) : Stored m (m.blit wr data) size wr data where
  inside i hi := by rw [Nat.mod_eq_of_lt (by omega), Mem.blit_inside m wr hi]
  outside c hc hnot := by
    refine Mem.blit_outside m ?_
    by_contra hin
    refine hnot (c - wr) (by omega) ?_
    rw [Nat.mod_eq_of_lt (by omega)]
    omega

theorem stored_blit_blit (hwr : wr ≤ size) (hend : size ≤ wr + data.length) (hlength : data.length ≤ size) :
    Stored m ((m.blit wr (data.take (size - wr))).blit 0 (data.drop (size - wr))) size wr data where
  inside i hi := by
    by_cases hfirst : wr + i < size
    · have htake : i < (data.take (size - wr)).length := by simp; omega
      rw [Nat.mod_eq_of_lt hfirst, Mem.blit_outside _ (.inr (by simp; omega)), Mem.blit_inside m wr htake, List.getElem_take]
    · have hdrop : i - (size - wr) < (data.drop (size - wr)).length := by simp; omega
      have hmod : (wr + i) % size = 0 + (i - (size - wr)) := by
        rw [Nat.mod_eq_sub_mod (by omega), Nat.mod_eq_of_lt (by omega)]
        omega
      rw [hmod, Mem.blit_inside _ 0 hdrop, List.getElem_drop]
      congr 1
      omega
  outside c hc hnot := by
    have hsecond : ¬ c < data.length - (size - wr) := fun hlt => by
      refine hnot (c + (size - wr)) (by omega) ?_
      rw [show wr + (c + (size - wr)) = c + size by omega, Nat.add_mod_right, Nat.mod_eq_of_lt hc]
    have hfirst : c < wr := by
      by_contra hge
      refine hnot (c - wr) (by omega) ?_
      rw [Nat.mod_eq_of_lt (by omega)]
      omega
    rw [Mem.blit_outside _ (.inr (by simp; omega)), Mem.blit_outside _ (.inl hfirst)]

theorem bytes_window (h : rd + k ≤ size) : m.bytes rd k = window m size rd k := by
  apply List.map_congr_left
  intro i hi
  rw [Nat.mod_eq_of_lt (by have := List.mem_range.mp hi; omega)]

theorem bytes_append_window (hrd : rd ≤ size) (hend : size ≤ rd + k) (hk : k ≤ size) :
    m.bytes rd (size - rd) ++ m.bytes 0 (k - (size - rd)) = window m size rd k := by
  apply List.ext_getElem
  · simp [Mem.bytes]
    omega
  · intro i hi hi'
    rw [getElem_window]
    by_cases hfirst : i < size - rd
    · rw [List.getElem_append_left (by simpa [Mem.bytes] using hfirst), Nat.mod_eq_of_lt (by omega)]
      simp [Mem.bytes]
    · have hlt : i < k := by simpa using hi'
      rw [List.getElem_append_right (by simpa [Mem.bytes] using hfirst)]
      simp only [Mem.bytes, List.length_map, List.length_range, List.getElem_map, List.getElem_range, Nat.zero_add]
      rw [Nat.mod_eq_sub_mod (by omega), Nat.mod_eq_of_lt (by omega)]
      congr 1
      omega

end Bytes

end Fl2440.Lib
