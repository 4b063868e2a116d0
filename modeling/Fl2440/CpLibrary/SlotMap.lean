import Fl2440.CpLibrary.CpArray
import Mathlib.Logic.Function.Basic

/-! Histories of a `CP_ARRAY`, beside what its callers hold: the indices that `cp_array_add`
has returned, with the data they stand for until it is removed. -/
namespace Fl2440.CpLibrary

open Fl2440.Lib

inductive ArrayOp (α : Type) where
  | add (data : α)
  | rmByindex (index : Int)
  | rmBydata (data : α)
deriving DecidableEq

structure SlotMap (α : Type) where
  array : CpArray α
  denoted : Nat → Option α

namespace SlotMap

variable {α : Type}

theorem slot_of_lt_findIdx {slots : List (Option α)} {j : Nat} (hj : j < slots.findIdx (·.isNone)) :
    ∃ entry, slots[j]? = some (some entry) := by
  have hlt := Nat.lt_of_lt_of_le hj List.findIdx_le_length
  have hsome := List.not_of_lt_findIdx hj
  rw [Option.isNone_eq_false_iff] at hsome
  obtain ⟨entry, hentry⟩ := Option.isSome_iff_exists.mp hsome
  exact ⟨entry, by rw [List.getElem?_eq_getElem hlt, hentry]⟩

theorem cpArrayAdd_lowest {array : CpArray α} {i : Nat} {data : α} (hfree : array.data[i]? = some none)
    (hadd : cpArrayAdd array data = ((i : Int), array.put i data hfree)) : i = array.data.findIdx (·.isNone) := by
  unfold cpArrayAdd at hadd
  split at hadd
  · have := (Prod.mk.inj hadd).1
    omega
  · simp only at hadd
    split at hadd
    · have := (Prod.mk.inj hadd).1
      omega
    · have hitems := congrArg CpArray.items (Prod.mk.inj hadd).2
      have : array.items = array.items + 1 := hitems
      omega

theorem cpArrayRmByindex_free {array : CpArray α} {i : Nat} (h : array.data[i]? = some none) :
    cpArrayRmByindex array i = .ok array := by
  unfold cpArrayRmByindex
  rw [if_neg (by omega)]
  simp only [Int.toNat_natCast]
  split
  · simp_all
  · rfl
  · simp_all

theorem cpArrayRmByindex_behind {array : CpArray α} {index : Int} (hindex : 0 ≤ index)
    (h : array.data[index.toNat]? = none) : cpArrayRmByindex array index = .error .bounds := by
  unfold cpArrayRmByindex
  rw [if_neg (by omega)]
  split
  · rfl
  · simp_all
  · simp_all

theorem denoted_set {slots : List (Option α)} {denoted : Nat → Option α} {i : Nat} {value : Option α}
    (h : ∀ j, denoted j = (slots[j]?).join) (hi : i < slots.length) (j : Nat) :
    Function.update denoted i value j = ((slots.set i value)[j]?).join := by
  by_cases heq : j = i
  · subst heq
    simp [hi]
  · rw [Function.update_of_ne heq, List.getElem?_set_ne (Ne.symm heq), h]

/-- The lowest index that stands for the data does so no more. -/
def forget [DecidableEq α] (denoted : Nat → Option α) (data : α) : Nat → Option α :=
  fun i => if denoted i = some data ∧ ∀ j < i, denoted j ≠ some data then none else denoted i

def init (size : Int) : SlotMap α := ⟨cpArrayInit size, fun _ => none⟩

def step [DecidableEq α] (s : SlotMap α) : ArrayOp α → Except Fault (SlotMap α)
  | .add data =>
      let (index, array) := cpArrayAdd s.array data
      .ok ⟨array, if 0 ≤ index then Function.update s.denoted index.toNat (some data) else s.denoted⟩
  | .rmByindex index => do
      let array ← cpArrayRmByindex s.array index
      return ⟨array, if 0 ≤ index then Function.update s.denoted index.toNat none else s.denoted⟩
  | .rmBydata data =>
      let (rv, array) := cpArrayRmBydata s.array data
      .ok ⟨array, if rv = 0 then forget s.denoted data else s.denoted⟩

structure Good (s : SlotMap α) : Prop where
  counted : s.array.items = s.array.data.countP (·.isSome)
  bounded : s.array.items ≤ s.array.size
  lowest : ∀ data, s.array.items < s.array.size → ∃ i : Nat, (cpArrayAdd s.array data).1 = i ∧
    s.array.data[i]? = some none ∧ ∀ j < i, ∃ entry, s.array.data[j]? = some (some entry)
  refused : ∀ data, s.array.size ≤ s.array.items → cpArrayAdd s.array data = (-2, s.array)
  full : cpArrayIsFull s.array = true ↔ s.array.size ≤ s.array.items
  denoted : ∀ i, s.denoted i = (s.array.data[i]?).join

/-- Nothing is added to the last slot but one, and no index is behind the last slot. -/
def Spare (s : SlotMap α) : ArrayOp α → Prop
  | .add _ => s.array.items + 2 < s.array.size
  | .rmByindex index => index < s.array.size
  | .rmBydata _ => True

instance (s : SlotMap α) : ∀ op, Decidable (Spare s op)
  | .add _ => inferInstanceAs (Decidable (s.array.items + 2 < s.array.size))
  | .rmByindex index => inferInstanceAs (Decidable (index < s.array.size))
  | .rmBydata _ => .isTrue trivial

structure Sound (s : SlotMap α) : Prop where
  spare : s.array.items + 1 < s.array.size
  denoted : ∀ i, s.denoted i = (s.array.data[i]?).join

variable {s t : SlotMap α}

theorem Sound.good (h : s.Sound) : s.Good where
  counted := s.array.items_data
  bounded := by have := h.spare; omega
  lowest := by
    intro data hroom
    rcases cpArrayAdd_cases s.array data with ⟨hfull, -⟩ | ⟨-, i, hfree, hadd⟩
    · omega
    refine ⟨i, by rw [hadd], hfree, fun j hj => ?_⟩
    rw [cpArrayAdd_lowest hfree hadd] at hj
    exact slot_of_lt_findIdx hj
  refused := fun data hfull => by have := h.spare; omega
  full := by
    have := h.spare
    simp only [cpArrayIsFull, beq_iff_eq]
    omega
  denoted := h.denoted

theorem sound_init {size : Int} (h : 2 ≤ size) : (init size : SlotMap α).Sound where
  spare := by
    simp only [init, cpArrayInit]
    omega
  denoted := by
    intro i
    simp only [init, cpArrayInit, List.getElem?_replicate]
    split <;> rfl

variable [DecidableEq α]

theorem Sound.add (h : s.Sound) {data : α} (hroom : s.array.items + 2 < s.array.size) :
    ∃ t, s.step (.add data) = .ok t ∧ t.Sound := by
  rcases cpArrayAdd_cases s.array data with ⟨hfull, -⟩ | ⟨-, i, hfree, hadd⟩
  · omega
  refine ⟨⟨s.array.put i data hfree, Function.update s.denoted i (some data)⟩, by simp [step, hadd], ?_, ?_⟩
  · simp only [CpArray.put]
    omega
  · exact denoted_set h.denoted (List.getElem?_eq_some_iff.mp hfree).1

theorem Sound.rmByindex (h : s.Sound) {index : Int} (hindex : index < s.array.size) :
    ∃ t, s.step (.rmByindex index) = .ok t ∧ t.Sound := by
  have hspare := h.spare
  by_cases hneg : index < 0
  · refine ⟨s, ?_, h⟩
    rw [step, cpArrayRmByindex, if_pos hneg, if_neg (by omega : ¬ 0 ≤ index)]
    rfl
  obtain ⟨i, rfl⟩ := Int.eq_ofNat_of_zero_le (by omega : 0 ≤ index)
  have hi : i < s.array.data.length := by
    have := s.array.size_data
    omega
  cases hslot : s.array.data[i] with
  | none =>
      have hfree : s.array.data[i]? = some none := by rw [List.getElem?_eq_getElem hi, hslot]
      have hsame : Function.update s.denoted i none = s.denoted := by
        have hnone : s.denoted i = none := by simp [h.denoted, hfree]
        rw [← hnone, Function.update_eq_self]
      refine ⟨s, ?_, h⟩
      simp [step, cpArrayRmByindex_free hfree, hsame]
  | some entry =>
      have hused : s.array.data[i]? = some (some entry) := by rw [List.getElem?_eq_getElem hi, hslot]
      refine ⟨⟨s.array.clear i hused, Function.update s.denoted i none⟩, ?_, ?_, denoted_set h.denoted hi⟩
      · simp [step, cpArrayRmByindex_eq hused]
      · simp only [CpArray.clear]
        omega

theorem forget_eq {denoted : Nat → Option α} {data : α} {i : Nat} (hi : denoted i = some data)
    (hlow : ∀ j < i, denoted j ≠ some data) : forget denoted data = Function.update denoted i none := by
  funext j
  unfold forget
  rcases Nat.lt_trichotomy j i with hlt | rfl | hgt
  · rw [if_neg fun h => hlow j hlt h.1, Function.update_of_ne (by omega)]
  · rw [if_pos ⟨hi, hlow⟩, Function.update_self]
  · rw [if_neg fun h => h.2 i hgt hi, Function.update_of_ne (by omega)]

theorem Sound.rmBydata (h : s.Sound) (data : α) : ∃ t, s.step (.rmBydata data) = .ok t ∧ t.Sound := by
  have hspare := h.spare
  unfold step cpArrayRmBydata
  by_cases hempty : s.array.items ≤ 0
  · simp only [hempty, if_true]
    exact ⟨s, rfl, h⟩
  simp only [hempty, if_false]
  split
  next hfound =>
    have hlow : ∀ j < s.array.data.findIdx (· = some data), s.denoted j ≠ some data := by
      intro j hj hdenoted
      have hlt := Nat.lt_of_lt_of_le hj List.findIdx_le_length
      have hnot := List.not_of_lt_findIdx hj
      rw [h.denoted, List.getElem?_eq_getElem hlt] at hdenoted
      simp at hnot hdenoted
      exact hnot hdenoted
    have hforget := forget_eq (by simp [h.denoted, hfound]) hlow
    refine ⟨_, rfl, ?_, ?_⟩
    · simp only [CpArray.clear]
      omega
    · simp only [if_true, hforget]
      exact denoted_set h.denoted (List.getElem?_eq_some_iff.mp hfound).1
  next => exact ⟨s, rfl, h⟩

theorem Sound.step (h : s.Sound) {op : ArrayOp α} (hop : Spare s op) : ∃ t, s.step op = .ok t ∧ t.Sound := by
  cases op with
  | add data => exact h.add hop
  | rmByindex index => exact h.rmByindex hop
  | rmBydata data => exact h.rmBydata data

theorem Sound.breaks (h : s.Sound) {op : ArrayOp α} (hop : ¬ Spare s op) :
    (∃ t, s.step op = .ok t ∧ ¬ t.Good) ∨ ∃ e, s.step op = .error e ∧ ¬ False := by
  have hspare := h.spare
  cases op with
  | add data =>
      have hlast : s.array.size ≤ s.array.items + 2 := Int.not_lt.mp hop
      left
      rcases cpArrayAdd_cases s.array data with ⟨hfull, -⟩ | ⟨-, i, hfree, hadd⟩
      · omega
      refine ⟨⟨s.array.put i data hfree, Function.update s.denoted i (some data)⟩, by simp [SlotMap.step, hadd], ?_⟩
      intro hgood
      have hfull := hgood.full
      simp only [cpArrayIsFull, CpArray.put, beq_iff_eq] at hfull
      omega
  | rmByindex index =>
      have hbehind : s.array.size ≤ index := Int.not_lt.mp hop
      right
      refine ⟨.bounds, ?_, id⟩
      have hcount := s.array.items_data
      have hsize := s.array.size_data
      have hnone : s.array.data[index.toNat]? = none := by
        rw [List.getElem?_eq_none_iff]
        omega
      rw [SlotMap.step, cpArrayRmByindex_behind (by omega) hnone]
      rfl
  | rmBydata data => exact absurd trivial hop

/-- From 2 slots on the array keeps its promises exactly as long as two slots stay free and no
index is behind the last one. -/
theorem good_iff_spare {size : Int} (hsize : 1 ≤ size) (history : List (ArrayOp α)) :
    Always step Good (init size) history ∧ FaultsOnly (fun _ => False) (exec step (init size) history) ↔
      2 ≤ size ∧ Along step Spare (init size) history := by
  by_cases htwo : 2 ≤ size
  · rw [safe_iff_along (fun _ => Sound.good) (fun s op t h hop ht => ?_) (fun s op h hop => ?_)
      (fun s op h hop => h.breaks hop) (sound_init htwo)]
    · exact (and_iff_right htwo).symm
    · obtain ⟨t', ht', hsound⟩ := h.step hop
      rwa [Except.ok.inj (ht.symm.trans ht')]
    · obtain ⟨t, ht, -⟩ := h.step hop
      rw [ht]
      exact .ok _ _
  · refine iff_of_false (fun h => ?_) fun h => htwo h.1
    have hfull := h.1.start.full
    simp only [init, cpArrayInit, cpArrayIsFull, beq_iff_eq] at hfull
    omega

theorem good_iff_spare_three :
    Always step Good (init 3 : SlotMap Nat) [.add 7, .rmByindex 2, .rmBydata 7, .add 8] ∧
      FaultsOnly (fun _ => False) (exec step (init 3 : SlotMap Nat) [.add 7, .rmByindex 2, .rmBydata 7, .add 8]) :=
  (good_iff_spare (by decide) _).mpr ⟨by decide, by decide⟩

/-- With one slot free the array is called full, with none it is not; index `size` leads
behind the last slot. -/
theorem two_slots_not_good :
    ¬ Always step Good (init 2 : SlotMap Nat) [.add 7] ∧ ¬ Always step Good (init 1 : SlotMap Nat) [.add 7] ∧
      exec step (init 2 : SlotMap Nat) [.rmByindex 2] = .error .bounds := by
  refine ⟨fun h => ?_, fun h => ?_, rfl⟩
  · exact absurd ((h.last rfl).full.mp rfl) (by decide)
  · exact absurd ((h.last rfl).full.mpr (by decide)) (by decide)

end SlotMap

end Fl2440.CpLibrary
