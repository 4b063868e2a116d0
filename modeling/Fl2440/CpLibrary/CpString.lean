import Fl2440.Lib.Memory
import Fl2440.Lib.Run
import Mathlib.Algebra.Order.Ring.Int

/-! The counted byte buffers of `cp_string.c`. A string never lacks its data
array (creation frees a string whose array it cannot get), so a NULL string and
one with NULL data are both `none`. -/
namespace Fl2440.CpLibrary

open Fl2440.Lib

structure CpString where
  size : Int
  len : Int
  data : Mem

/-- `t_malloc` clears what it allocates. -/
def cpStringCreateEmpty (initialSize : Int) : CpString := ⟨initialSize, 0, fun _ => 0⟩

def CpString.contents (str : CpString) : List Byte := (List.range str.len.toNat).map str.data

def CpString.Bounded (str : CpString) : Prop := 0 ≤ str.len ∧ str.len ≤ str.size

def CpString.append (str : CpString) (bytes : List Byte) : CpString :=
  { str with
    len := str.len + bytes.length
    data := str.data.copy str.len.toNat (fun i => bytes.getD i 0) bytes.length }

/-- Drop the first `n` bytes: `len -= n; memmove(data, data + n, len)`. -/
def CpString.drop (str : CpString) (n : Nat) : CpString :=
  { str with
    len := str.len - n
    data := str.data.copy 0 (fun i => str.data (n + i)) (str.len - n).toNat }

/-- `memcpy` and `memmove` take their length as an unsigned number, so a
negative one is a fault. -/
def cpStringMove (dst src : Option CpString) :
    Except Fault (Int × Option CpString × Option CpString) :=
  match dst, src with
  | some d, some s =>
      let left := d.size - d.len
      let size := if left > s.len then s.len else left
      if size < 0 ∨ d.len < 0 then .error .bounds
      else
        let d := { d with
          len := d.len + size
          data := d.data.copy d.len.toNat s.data size.toNat }
        .ok (size, some d, some (s.drop size.toNat))
  | _, _ => .ok (0, dst, src)

namespace CpString

theorem contents_copy (str : CpString) (h : 0 ≤ str.len) (src : Mem) (n : Nat) :
    ({ str with len := str.len + n, data := str.data.copy str.len.toNat src n } : CpString).contents =
      str.contents ++ (List.range n).map src := by
  have hlen : (str.len + n).toNat = str.len.toNat + n := by omega
  simp only [contents, hlen, List.range_add, List.map_append, List.map_map]
  refine congrArg₂ (· ++ ·) (List.map_congr_left fun i hi => ?_) (List.map_congr_left fun i hi => ?_)
  · exact Mem.copy_outside _ _ (Or.inl (List.mem_range.mp hi))
  · exact Mem.copy_inside _ _ (List.mem_range.mp hi)

theorem contents_append (str : CpString) (h : 0 ≤ str.len) (bytes : List Byte) :
    (str.append bytes).contents = str.contents ++ bytes := by
  refine (contents_copy str h _ bytes.length).trans (congrArg (str.contents ++ ·) ?_)
  apply List.ext_getElem
  · simp
  · intro i hi hi'
    simp [List.getD_eq_getElem?_getD, hi']

theorem contents_drop (str : CpString) {n : Nat} (h : (n : Int) ≤ str.len) :
    (str.drop n).contents = str.contents.drop n := by
  have hlen : str.len.toNat = n + (str.len - n).toNat := by omega
  have hrest : str.contents.drop n = (List.range (str.len - n).toNat).map fun i => str.data (n + i) := by
    simp only [contents, hlen, List.range_add, List.map_append, List.map_map]
    rw [List.drop_left' (by simp)]
    rfl
  rw [hrest]
  apply List.map_congr_left
  intro i hi
  have hlt : i < (str.len - n).toNat := List.mem_range.mp hi
  have hcopy : str.data.copy 0 (fun j => str.data (n + j)) (str.len - n).toNat (0 + i) =
      str.data (n + i) := Mem.copy_inside str.data _ hlt
  rwa [Nat.zero_add] at hcopy

theorem Bounded.append {str : CpString} (h : str.Bounded) {bytes : List Byte}
    (hroom : (bytes.length : Int) ≤ str.size - str.len) : (str.append bytes).Bounded := by
  obtain ⟨hlow, hhigh⟩ := h
  constructor <;> simp only [CpString.append] <;> omega

theorem Bounded.drop {str : CpString} (h : str.Bounded) {n : Nat} (hn : (n : Int) ≤ str.len) :
    (str.drop n).Bounded := by
  obtain ⟨hlow, hhigh⟩ := h
  constructor <;> simp only [CpString.drop] <;> omega

end CpString

theorem cpStringMove_spec {d s : CpString} (hd : d.Bounded) (hs : s.Bounded) :
    ∃ (n : Nat) (d' s' : CpString), cpStringMove (some d) (some s) = .ok ((n : Int), some d', some s') ∧
      d'.Bounded ∧ s'.Bounded ∧
      d'.contents = d.contents ++ s.contents.take n ∧ s'.contents = s.contents.drop n := by
  obtain ⟨hdlow, hdhigh⟩ := hd
  let size := if d.size - d.len > s.len then s.len else d.size - d.len
  have hsize : 0 ≤ size ∧ size ≤ s.len ∧ size ≤ d.size - d.len := by
    have := hs.1
    simp only [size]
    split <;> omega
  obtain ⟨n, hn⟩ := Int.eq_ofNat_of_zero_le hsize.1
  have hmove : cpStringMove (some d) (some s) = .ok ((n : Int),
      some { d with len := d.len + n, data := d.data.copy d.len.toNat s.data n },
      some (s.drop n)) := by
    have hguard : ¬ (size < 0 ∨ d.len < 0) := by omega
    calc cpStringMove (some d) (some s)
        = .ok (size, some { d with
            len := d.len + size, data := d.data.copy d.len.toNat s.data size.toNat },
            some (s.drop size.toNat)) := if_neg hguard
      _ = _ := by rw [hn, Int.toNat_natCast]
  refine ⟨n, _, _, hmove, ⟨?_, ?_⟩, hs.drop (by omega), ?_, CpString.contents_drop s (by omega)⟩
  · simp only
    omega
  · simp only
    omega
  · rw [CpString.contents_copy d hdlow]
    congr 1
    have hlen : s.len.toNat = n + (s.len - n).toNat := by omega
    simp only [CpString.contents, hlen, List.range_add, List.map_append]
    rw [List.take_left' (by simp)]

end Fl2440.CpLibrary
