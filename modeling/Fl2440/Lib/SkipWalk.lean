import Mathlib.Data.List.Nodup
import Mathlib.Data.List.Range
import Mathlib.Algebra.Order.Group.Nat

/-! Numbered units in groups of `k`, and walks through them in order. A walk
tests a group for a flag when it comes to the group's first unit, and passes over
all of a flagged group; it may begin inside a group, which it then does not test.
What a walk carries is cut into pieces, one for each unit. -/
namespace Fl2440.Lib

/-- The first group boundary at or behind `start`. -/
def boundary (k start : Nat) : Nat := (start + (k - 1)) / k * k

def visited (flag : Nat → Bool) (k start p : Nat) : Bool :=
  decide (p < boundary k start) || !flag (p / k)

/-- What a walk that began at `start` still visits below `limit`, from `p` on. -/
def walk (flag : Nat → Bool) (k start limit p : Nat) : List Nat :=
  (List.range' p (limit - p)).filter (visited flag k start)

section Walk

variable {flag : Nat → Bool} {k start limit p : Nat}

theorem dvd_boundary (k start : Nat) : k ∣ boundary k start := Nat.dvd_mul_left _ _

theorem boundary_le (hdvd : k ∣ p) (hstart : start ≤ p) : boundary k start ≤ p := by
  obtain ⟨m, rfl⟩ := hdvd
  rw [boundary, Nat.mul_comm k m]
  apply Nat.mul_le_mul_right
  rcases Nat.eq_zero_or_pos k with rfl | hk
  · simp
  · rw [← Nat.lt_add_one_iff, Nat.div_lt_iff_lt_mul hk, Nat.add_mul, Nat.mul_comm m k]
    omega

theorem boundary_of_dvd (hdvd : k ∣ start) : boundary k start = start := by
  apply Nat.le_antisymm (boundary_le hdvd le_rfl)
  obtain ⟨m, rfl⟩ := hdvd
  rcases Nat.eq_zero_or_pos k with rfl | hk
  · simp
  · rw [boundary, Nat.mul_comm k m]
    exact Nat.mul_le_mul_right k ((Nat.le_div_iff_mul_le hk).mpr (Nat.le_add_right _ _))

theorem visited_of_flag_false (h : flag (p / k) = false) : visited flag k start p = true := by
  rw [visited, h]
  simp

theorem visited_group (hdvd : k ∣ p) (hstart : start ≤ p) {i : Nat} (hi : i < k) :
    visited flag k start (p + i) = !flag (p / k) := by
  have hb : ¬ p + i < boundary k start := by
    have := boundary_le hdvd hstart
    omega
  obtain ⟨m, rfl⟩ := hdvd
  rw [visited, decide_eq_false hb, Bool.false_or, Nat.mul_add_div (by omega), Nat.div_eq_of_lt hi,
    Nat.add_zero, Nat.mul_div_cancel_left _ (by omega)]

theorem visited_aligned (hk : 0 < k) (hdvd : k ∣ p) (hstart : start ≤ p) :
    visited flag k start p = !flag (p / k) := by
  have h : visited flag k start (p + 0) = !flag (p / k) := visited_group hdvd hstart hk
  rwa [Nat.add_zero] at h

theorem visited_succ (hdvd : ¬ k ∣ p + 1) (h : visited flag k start p = true) :
    visited flag k start (p + 1) = true := by
  rw [visited, Bool.or_eq_true, decide_eq_true_iff] at h
  rcases h with hb | hflag
  · have hne : p + 1 ≠ boundary k start := fun he => hdvd (he ▸ dvd_boundary k start)
    rw [visited, decide_eq_true (by omega : p + 1 < boundary k start), Bool.true_or]
  · apply visited_of_flag_false
    rw [Nat.succ_div, if_neg hdvd, Nat.add_zero]
    simpa using hflag

theorem walk_visit (hp : p < limit) (h : visited flag k start p = true) :
    walk flag k start limit p = p :: walk flag k start limit (p + 1) := by
  rw [walk, show limit - p = (limit - (p + 1)) + 1 by omega, List.range'_succ, List.filter_cons,
    if_pos h]
  rfl

theorem walk_skip (hdvd : k ∣ p) (hstart : start ≤ p) (hlimit : p + k ≤ limit)
    (hflag : flag (p / k) = true) :
    walk flag k start limit p = walk flag k start limit (p + k) := by
  have hnone : (List.range' p k).filter (visited flag k start) = [] := by
    rw [List.filter_eq_nil_iff]
    intro q hq
    obtain ⟨i, hi, rfl⟩ := List.mem_range'.mp hq
    rw [Nat.one_mul, visited_group hdvd hstart hi, hflag]
    simp
  rw [walk, show limit - p = k + (limit - (p + k)) by omega, ← List.range'_append_1,
    List.filter_append, hnone, List.nil_append]
  rfl

theorem walk_end (h : limit ≤ p) : walk flag k start limit p = [] := by
  rw [walk, Nat.sub_eq_zero_of_le h]
  rfl

theorem mem_walk {q : Nat} :
    q ∈ walk flag k start limit p ↔ p ≤ q ∧ q < limit ∧ visited flag k start q = true := by
  rw [walk, List.mem_filter, List.mem_range'_1]
  constructor
  · rintro ⟨⟨h1, h2⟩, h3⟩
    exact ⟨h1, by omega, h3⟩
  · rintro ⟨h1, h2, h3⟩
    exact ⟨⟨h1, by omega⟩, h3⟩

theorem walk_nodup : (walk flag k start limit p).Nodup := List.Nodup.filter _ List.nodup_range'

theorem length_filter_groups (hk : 0 < k) {a : Nat} (hstart : start ≤ a * k) (n : Nat) :
    ((List.range' (a * k) (n * k)).filter (visited flag k start)).length =
      ((List.range' a n).filter fun group => !flag group).length * k := by
  induction n generalizing a with
  | zero => simp
  | succ n ih =>
      have hgroup : ((List.range' (a * k) k).filter (visited flag k start)) =
          if flag a then [] else List.range' (a * k) k := by
        have hsame : ∀ p ∈ List.range' (a * k) k, visited flag k start p = !flag a := by
          intro p hp
          obtain ⟨i, hi, rfl⟩ := List.mem_range'.mp hp
          rw [Nat.one_mul, visited_group (Nat.dvd_mul_left _ _) hstart hi, Nat.mul_div_cancel _ hk]
        rw [List.filter_congr hsame]
        cases flag a <;> simp
      rw [Nat.add_mul, Nat.one_mul, Nat.add_comm (n * k) k, ← List.range'_append_1, List.filter_append,
        List.length_append, hgroup, List.range'_succ, List.filter_cons]
      have hrest := ih (a := a + 1) (by rw [Nat.add_mul]; omega)
      rw [Nat.add_mul, Nat.one_mul] at hrest
      rw [hrest]
      cases flag a <;> simp [Nat.add_mul, Nat.add_comm]

theorem walk_groups {a m : Nat} (hlimit : (a + m) * k ≤ limit) :
    walk flag k start limit (a * k) = (List.range' (a * k) (m * k)).filter (visited flag k start) ++
      walk flag k start limit (a * k + m * k) := by
  rw [Nat.add_mul] at hlimit
  rw [walk, show limit - a * k = m * k + (limit - (a * k + m * k)) by omega, ← List.range'_append_1,
    List.filter_append]
  rfl

theorem take_walk_groups (hk : 0 < k) {a m n : Nat} (hstart : start ≤ a * k) (hlimit : (a + m) * k ≤ limit)
    (hn : n ≤ ((List.range' a m).filter fun group => !flag group).length * k) :
    n ≤ (walk flag k start limit (a * k)).length ∧ ∀ q ∈ (walk flag k start limit (a * k)).take n,
      q / k ∈ List.range' a m ∧ flag (q / k) = false := by
  have hlen : ((List.range' (a * k) (m * k)).filter (visited flag k start)).length = _ :=
    length_filter_groups hk hstart m
  rw [walk_groups hlimit]
  refine ⟨by rw [List.length_append, hlen]; omega, fun q hq => ?_⟩
  rw [List.take_append_of_le_length (by rw [hlen]; exact hn)] at hq
  obtain ⟨hmem, hv⟩ := List.mem_filter.mp (List.mem_of_mem_take hq)
  obtain ⟨hle, hlt⟩ := List.mem_range'_1.mp hmem
  constructor
  · rw [List.mem_range'_1]
    exact ⟨(Nat.le_div_iff_mul_le hk).mpr hle, (Nat.div_lt_iff_lt_mul hk).mpr (by rw [Nat.add_mul]; omega)⟩
  · have hb : ¬ q < boundary k start := by
      have := boundary_le (Nat.dvd_mul_left k a) hstart
      omega
    rw [visited, decide_eq_false hb, Bool.false_or] at hv
    simpa using hv

theorem group_le (hlimit : k ∣ limit) (hdvd : k ∣ p) (hp : p < limit) : p + k ≤ limit := by
  obtain ⟨m, rfl⟩ := hdvd
  obtain ⟨n, rfl⟩ := hlimit
  have : m < n := Nat.lt_of_mul_lt_mul_left hp
  calc k * m + k = k * (m + 1) := (Nat.mul_succ k m).symm
    _ ≤ k * n := Nat.mul_le_mul_left k this

end Walk

/-- `len` bytes at `off` of what is carried, at home in a unit. -/
structure Piece where
  unit : Nat
  off : Nat
  len : Nat

/-- Cut `left` bytes from `off` on into pieces of `size`, one for each unit in order. -/
def pieces (size : Nat) : List Nat → Nat → Nat → List Piece
  | [], _, _ => []
  | u :: units, off, left =>
      if left = 0 then []
      else ⟨u, off, min left size⟩ :: pieces size units (off + min left size) (left - min left size)

def unitsFor (size left : Nat) : Nat := (left + (size - 1)) / size

section Pieces

variable {size off left : Nat} {units : List Nat}

theorem unitsFor_zero (size : Nat) : unitsFor size 0 = 0 := by
  unfold unitsFor
  rcases Nat.eq_zero_or_pos size with rfl | hs
  · rfl
  · exact Nat.div_eq_of_lt (by omega)

theorem unitsFor_pos (hs : 0 < size) (hl : 0 < left) :
    unitsFor size left = unitsFor size (left - min left size) + 1 := by
  unfold unitsFor
  rcases Nat.lt_or_ge left size with h | h
  · rw [Nat.min_eq_left h.le, Nat.sub_self, Nat.zero_add, Nat.div_eq_of_lt (a := size - 1) (by omega),
      show left + (size - 1) = (left - 1) + size by omega, Nat.add_div_right _ hs,
      Nat.div_eq_of_lt (by omega)]
  · rw [Nat.min_eq_right h, ← Nat.add_div_right _ hs]
    congr 1
    omega

theorem unitsFor_le_iff (hs : 0 < size) {n : Nat} : unitsFor size left ≤ n ↔ left ≤ n * size := by
  rw [unitsFor, ← Nat.lt_add_one_iff, Nat.div_lt_iff_lt_mul hs, Nat.add_mul]
  omega

@[simp] theorem pieces_zero : pieces size units off 0 = [] := by
  cases units <;> rfl

theorem pieces_cons {u : Nat} (hl : 0 < left) : pieces size (u :: units) off left =
    ⟨u, off, min left size⟩ :: pieces size units (off + min left size) (left - min left size) := by
  rw [pieces, if_neg (by omega)]

theorem pieces_units (hs : 0 < size) :
    (pieces size units off left).map Piece.unit = units.take (unitsFor size left) := by
  induction units generalizing off left with
  | nil => simp [pieces]
  | cons u units ih =>
      rcases Nat.eq_zero_or_pos left with rfl | hl
      · rw [pieces_zero, unitsFor_zero]
        rfl
      · rw [pieces_cons hl, unitsFor_pos hs hl, List.take_succ_cons, List.map_cons, ih]

theorem pieces_len_le {piece : Piece} (h : piece ∈ pieces size units off left) : piece.len ≤ size := by
  induction units generalizing off left with
  | nil => simp [pieces] at h
  | cons u units ih =>
      rcases Nat.eq_zero_or_pos left with rfl | hl
      · simp at h
      · rw [pieces_cons hl, List.mem_cons] at h
        rcases h with rfl | h
        · exact Nat.min_le_right _ _
        · exact ih h

theorem pieces_flatMap (f : Nat → β) (hroom : left ≤ units.length * size) :
    (pieces size units off left).flatMap (fun piece => (List.range piece.len).map fun i => f (piece.off + i)) =
      (List.range left).map fun i => f (off + i) := by
  induction units generalizing off left with
  | nil =>
      have : left = 0 := by simpa using hroom
      subst this
      rfl
  | cons u units ih =>
      rcases Nat.eq_zero_or_pos left with rfl | hl
      · simp
      · have hrest : left - min left size ≤ units.length * size := by
          rw [List.length_cons, Nat.add_mul, Nat.one_mul] at hroom
          omega
        rw [pieces_cons hl, List.flatMap_cons, ih hrest]
        conv_rhs => rw [show left = min left size + (left - min left size) by omega, List.range_add]
        simp only [List.map_append, List.map_map, Function.comp_def, Nat.add_assoc]

end Pieces

end Fl2440.Lib
