import Fl2440.Lib.Run
import Mathlib.Data.List.Basic

/-! The slot array of `cp_array.c`: `data[0 .. size)` with NULL in free slots. -/
namespace Fl2440.CpLibrary

open Fl2440.Lib

variable {α : Type}

structure CpArray (α : Type) where
  size : Int
  items : Int
  data : List (Option α)
  size_data : data.length = size.toNat
  /-- The counter is right after every operation. -/
  items_data : items = data.countP (·.isSome)

theorem countP_set_some {data : List (Option α)} {i : Nat} {a : α} (h : data[i]? = some none) :
    (data.set i (some a)).countP (·.isSome) = data.countP (·.isSome) + 1 := by
  induction data generalizing i with
  | nil => simp at h
  | cons slot rest ih =>
      cases i with
      | zero =>
          simp only [List.getElem?_cons_zero, Option.some.injEq] at h
          simp [h]
      | succ i =>
          simp only [List.getElem?_cons_succ] at h
          simp only [List.set_cons_succ, List.countP_cons, ih h]
          omega

theorem countP_set_none {data : List (Option α)} {i : Nat} {a : α} (h : data[i]? = some (some a)) :
    ((data.set i none).countP (·.isSome) : Int) = (data.countP (·.isSome) : Int) - 1 := by
  induction data generalizing i with
  | nil => simp at h
  | cons slot rest ih =>
      cases i with
      | zero =>
          simp only [List.getElem?_cons_zero, Option.some.injEq] at h
          simp [h]
      | succ i =>
          simp only [List.getElem?_cons_succ] at h
          have hrest := ih h
          simp only [List.set_cons_succ, List.countP_cons]
          omega

namespace CpArray

def put (array : CpArray α) (i : Nat) (entry : α) (h : array.data[i]? = some none) : CpArray α where
  size := array.size
  items := array.items + 1
  data := array.data.set i (some entry)
  size_data := by rw [List.length_set, array.size_data]
  items_data := by
    rw [countP_set_some h, array.items_data]
    rfl

def clear (array : CpArray α) (i : Nat) {entry : α} (h : array.data[i]? = some (some entry)) :
    CpArray α where
  size := array.size
  items := array.items - 1
  data := array.data.set i none
  size_data := by rw [List.length_set, array.size_data]
  items_data := by rw [countP_set_none h, array.items_data]

end CpArray

def cpArrayInit (size : Int) : CpArray α where
  size := size
  items := 0
  data := List.replicate size.toNat none
  size_data := List.length_replicate
  items_data := by
    rw [List.countP_eq_zero.mpr (by simp)]
    rfl

/-- The test is `size-1 == items`. -/
def cpArrayIsFull (array : CpArray α) : Bool := array.size - 1 == array.items

/-- The loop takes the lowest free slot; without one it runs off the end and
returns `size`. -/
def cpArrayAdd (array : CpArray α) (data : α) : Int × CpArray α :=
  if array.items ≥ array.size then (-2, array)
  else
    let i := array.data.findIdx (·.isNone)
    match h : array.data[i]? with
    | some none => (i, array.put i data h)
    | _ => (array.size, array)

/-- An index behind the last slot is not checked for. -/
def cpArrayRmByindex (array : CpArray α) (index : Int) : Except Fault (CpArray α) :=
  if index < 0 then .ok array
  else match h : array.data[index.toNat]? with
    | none => .error .bounds
    | some none => .ok array
    | some (some _) => .ok (array.clear index.toNat h)

def cpArrayRmBydata [DecidableEq α] (array : CpArray α) (data : α) : Int × CpArray α :=
  if array.items ≤ 0 then (-2, array)
  else
    let i := array.data.findIdx (· = some data)
    if h : array.data[i]? = some (some data) then (0, array.clear i h) else (-3, array)

theorem cpArrayAdd_cases (array : CpArray α) (data : α) :
    (array.size ≤ array.items ∧ cpArrayAdd array data = (-2, array)) ∨
      (array.items < array.size ∧ ∃ (i : Nat) (h : array.data[i]? = some none),
        cpArrayAdd array data = ((i : Int), array.put i data h)) := by
  unfold cpArrayAdd
  split
  · rename_i hfull
    exact Or.inl ⟨hfull, rfl⟩
  · rename_i hroom
    refine Or.inr ⟨by omega, ?_⟩
    have hfree : ∃ slot ∈ array.data, slot.isNone = true := by
      by_contra hnone
      have hall : array.data.countP (·.isSome) = array.data.length := by
        refine List.countP_eq_length.mpr fun slot hslot => ?_
        cases slot with
        | none => exact absurd ⟨none, hslot, rfl⟩ hnone
        | some entry => rfl
      have hcount := array.items_data
      have hsize := array.size_data
      omega
    have hlt := List.findIdx_lt_length.mpr hfree
    have hslot : array.data[array.data.findIdx (·.isNone)]? = some none := by
      rw [List.getElem?_eq_getElem hlt]
      have hnone : (array.data[array.data.findIdx (·.isNone)]).isNone = true :=
        List.findIdx_getElem
      simpa using hnone
    refine ⟨_, hslot, ?_⟩
    simp only
    split
    · rfl
    · rename_i hother
      exact absurd hslot hother

theorem cpArrayRmByindex_eq {array : CpArray α} {i : Nat} {entry : α}
    (h : array.data[i]? = some (some entry)) :
    cpArrayRmByindex array i = .ok (array.clear i h) := by
  unfold cpArrayRmByindex
  rw [if_neg (by omega)]
  simp only [Int.toNat_natCast]
  split
  · simp_all
  · simp_all
  · rfl

end Fl2440.CpLibrary
