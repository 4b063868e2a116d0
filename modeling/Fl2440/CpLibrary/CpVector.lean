import Fl2440.CpLibrary.CpArray
import Mathlib.Logic.Function.Basic

/-! `cp_vector.c`: slots by index, with a counter beside them. The counter follows the calls
and not the slots, and an index one behind the last is let through. -/
namespace Fl2440.CpLibrary

open Fl2440.Lib

variable {α : Type}

structure CpVector (α : Type) where
  size : Int
  used : Int
  mem : List (Option α)
  size_mem : mem.length = size.toNat

theorem length_slots (size : Int) : (List.replicate size.toNat (none : Option α)).length = size.toNat :=
  List.length_replicate

/-- `t_malloc` clears the slots; `memory` is whether both allocations succeed. -/
def cpVectorInit (size : Int) (memory : Bool) : Option (CpVector α) :=
  if size < 0 then none
  else if !memory then none
  else some ⟨size, 0, List.replicate size.toNat none, length_slots size⟩

namespace CpVector

def outside (vector : CpVector α) (index : Int) : Bool := index < 0 || vector.size < index

def load (vector : CpVector α) (index : Int) : Except Fault (Option α) :=
  match vector.mem[index.toNat]? with
  | some slot => .ok slot
  | none => .error .bounds

def store (vector : CpVector α) (index : Int) (item : Option α) : Except Fault (CpVector α) :=
  if index.toNat < vector.mem.length then
    .ok { vector with
      mem := vector.mem.set index.toNat item
      size_mem := by rw [List.length_set, vector.size_mem] }
  else .error .bounds

end CpVector

/-- `none` is NULL, also as the item. -/
def cpVectorAdd (vector : CpVector α) (index : Int) (item : Option α) : Except Fault (Option α × CpVector α) :=
  if vector.outside index then .ok (none, vector)
  else do
    let vector ← vector.store index item
    return (item, { vector with used := vector.used + 1 })

def cpVectorDel (vector : CpVector α) (index : Int) : Except Fault (Option α × CpVector α) :=
  if vector.outside index then .ok (none, vector)
  else do
    let save ← vector.load index
    let vector ← vector.store index none
    return (save, { vector with used := vector.used - 1 })

def cpVectorGet (vector : CpVector α) (index : Int) : Except Fault (Option α) :=
  if vector.outside index then .ok none else vector.load index

inductive VectorOp (α : Type) where
  | add (index : Int) (item : Option α)
  | del (index : Int)
  | get (index : Int)
deriving DecidableEq

/-- A vector beside what was last added at each index and not deleted since. -/
structure VectorRun (α : Type) where
  vector : CpVector α
  added : Nat → Option α

namespace VectorRun

def step (s : VectorRun α) : VectorOp α → Except Fault (VectorRun α)
  | .add index item => do
      let (_, vector) ← cpVectorAdd s.vector index item
      return ⟨vector, if s.vector.outside index then s.added else Function.update s.added index.toNat item⟩
  | .del index => do
      let (_, vector) ← cpVectorDel s.vector index
      return ⟨vector, if s.vector.outside index then s.added else Function.update s.added index.toNat none⟩
  | .get index => do
      let _ ← cpVectorGet s.vector index
      return s

/-- The counter and the answers are right; of the index `size` there is no answer. -/
structure Good (s : VectorRun α) : Prop where
  counted : s.vector.used = s.vector.mem.countP (·.isSome)
  answers : ∀ index : Int, index ≠ s.vector.size →
    cpVectorGet s.vector index = .ok (if s.vector.outside index then none else s.added index.toNat)

/-- The index `size` is not used, only free slots are filled, and with an item, and only slots
in use are cleared. -/
def Careful (s : VectorRun α) : VectorOp α → Prop
  | .add index item => index ≠ s.vector.size ∧
      (s.vector.outside index = false → s.vector.mem[index.toNat]? = some none ∧ item ≠ none)
  | .del index => index ≠ s.vector.size ∧
      (s.vector.outside index = false → s.vector.mem[index.toNat]? ≠ some none)
  | .get index => index ≠ s.vector.size

instance [DecidableEq α] (s : VectorRun α) : ∀ op, Decidable (s.Careful op)
  | .add index item => inferInstanceAs (Decidable (index ≠ s.vector.size ∧
      (s.vector.outside index = false → s.vector.mem[index.toNat]? = some none ∧ item ≠ none)))
  | .del index => inferInstanceAs (Decidable (index ≠ s.vector.size ∧
      (s.vector.outside index = false → s.vector.mem[index.toNat]? ≠ some none)))
  | .get index => inferInstanceAs (Decidable (index ≠ s.vector.size))

def put (s : VectorRun α) (i : Nat) (item : Option α) (change : Int) : VectorRun α where
  vector := { s.vector with
    used := s.vector.used + change
    mem := s.vector.mem.set i item
    size_mem := by rw [List.length_set, s.vector.size_mem] }
  added := Function.update s.added i item

structure Sound (s : VectorRun α) : Prop where
  sized : 0 ≤ s.vector.size
  counted : s.vector.used = s.vector.mem.countP (·.isSome)
  added : ∀ i, i < s.vector.mem.length → s.vector.mem[i]? = some (s.added i)

variable {s t : VectorRun α} {index : Int} {i : Nat} {item : Option α}

theorem outside_iff : s.vector.outside index = true ↔ index < 0 ∨ s.vector.size < index := by
  simp [CpVector.outside]

theorem Sound.outside_ne (h : s.Sound) (hout : s.vector.outside index = true) : index ≠ s.vector.size := by
  have hsized := h.sized
  rw [outside_iff] at hout
  omega

theorem Sound.index_cases (h : s.Sound) (index : Int) :
    s.vector.outside index = true ∨ s.vector.outside index = false ∧
      ((∃ i : Nat, index = i ∧ i < s.vector.mem.length ∧ index ≠ s.vector.size) ∨
        index = s.vector.size ∧ s.vector.mem[index.toNat]? = none) := by
  have hsize := s.vector.size_mem
  have hsized := h.sized
  cases hout : s.vector.outside index with
  | true => exact .inl rfl
  | false =>
      have hin : ¬ (index < 0 ∨ s.vector.size < index) := by
        rw [← outside_iff, hout]
        nofun
      refine .inr ⟨rfl, ?_⟩
      by_cases heq : index = s.vector.size
      · exact .inr ⟨heq, List.getElem?_eq_none_iff.mpr (by omega)⟩
      · obtain ⟨i, rfl⟩ := Int.eq_ofNat_of_zero_le (by omega : 0 ≤ index)
        exact .inl ⟨i, rfl, by omega, heq⟩

theorem step_add (hout : s.vector.outside i = false) (hi : i < s.vector.mem.length) (item : Option α) :
    s.step (.add i item) = .ok (s.put i item 1) := by
  simp [step, cpVectorAdd, hout, CpVector.store, hi, put]

theorem step_del (hout : s.vector.outside i = false) (hi : i < s.vector.mem.length) :
    s.step (.del i) = .ok (s.put i none (-1)) := by
  simp [step, cpVectorDel, hout, CpVector.load, CpVector.store, hi, put, Int.sub_eq_add_neg]

theorem cpVectorGet_eq (hout : s.vector.outside i = false) (hi : i < s.vector.mem.length) :
    cpVectorGet s.vector i = .ok s.vector.mem[i] := by
  simp [cpVectorGet, hout, CpVector.load, hi]

theorem countP_set_slot {slots : List (Option α)} (hi : i < slots.length) (item : Option α) :
    ((slots.set i item).countP (·.isSome) : Int) = slots.countP (·.isSome) +
      (if item.isSome then 1 else 0) - (if slots[i].isSome then 1 else 0) := by
  have hpos : slots[i].isSome = true → 0 < slots.countP (·.isSome) := fun h =>
    List.countP_pos_iff.mpr ⟨slots[i], List.getElem_mem hi, h⟩
  rw [List.countP_set hi]
  split
  next hslot =>
    have := hpos hslot
    split <;> omega
  next => split <;> omega

theorem put_counted_iff (h : s.Sound) (hi : i < s.vector.mem.length) (item : Option α) (change : Int) :
    (s.put i item change).vector.used = (s.put i item change).vector.mem.countP (·.isSome) ↔
      change = (if item.isSome then 1 else 0) - (if s.vector.mem[i].isSome then 1 else 0) := by
  have hcount := countP_set_slot hi item
  have hcounted := h.counted
  simp only [put]
  omega

theorem Sound.put (h : s.Sound) (hi : i < s.vector.mem.length) {change : Int}
    (hchange : change = (if item.isSome then 1 else 0) - (if s.vector.mem[i].isSome then 1 else 0)) :
    (s.put i item change).Sound where
  sized := h.sized
  counted := (put_counted_iff h hi item change).mpr hchange
  added := by
    intro j hj
    simp only [VectorRun.put, List.length_set] at hj ⊢
    by_cases heq : j = i
    · subst heq
      simp [hi]
    · rw [List.getElem?_set_ne (Ne.symm heq), Function.update_of_ne heq]
      exact h.added j hj

theorem Sound.good (h : s.Sound) : s.Good where
  counted := h.counted
  answers := by
    intro index hindex
    rcases h.index_cases index with hout | ⟨hout, ⟨i, rfl, hi, -⟩ | ⟨heq, -⟩⟩
    · simp [cpVectorGet, hout]
    · have hslot := h.added i hi
      rw [List.getElem?_eq_getElem hi] at hslot
      rw [cpVectorGet_eq hout hi, Option.some.inj hslot]
      simp [hout]
    · exact absurd heq hindex

theorem careful_add_iff (hout : s.vector.outside i = false) (hi : i < s.vector.mem.length)
    (hne : (i : Int) ≠ s.vector.size) : s.Careful (.add i item) ↔
      (1 : Int) = (if item.isSome then 1 else 0) - (if s.vector.mem[i].isSome then 1 else 0) := by
  cases item <;> cases hslot : s.vector.mem[i] <;> simp [Careful, hout, hi, hne, hslot]

theorem careful_del_iff (hout : s.vector.outside i = false) (hi : i < s.vector.mem.length)
    (hne : (i : Int) ≠ s.vector.size) : s.Careful (.del i) ↔
      (-1 : Int) = (if (none : Option α).isSome then 1 else 0) - (if s.vector.mem[i].isSome then 1 else 0) := by
  cases hslot : s.vector.mem[i] <;> simp [Careful, hout, hi, hne, hslot]

theorem Sound.step_cases (h : s.Sound) (op : VectorOp α) :
    s.Careful op ∧ (∃ t, s.step op = .ok t ∧ t.Sound) ∨
      ¬ s.Careful op ∧ ((∃ t, s.step op = .ok t ∧ ¬ t.Good) ∨ s.step op = .error .bounds) := by
  cases op with
  | add index item =>
      rcases h.index_cases index with hout | ⟨hout, ⟨i, rfl, hi, hne⟩ | ⟨rfl, hbehind⟩⟩
      · have hop : s.Careful (.add index item) := ⟨h.outside_ne hout, fun hin => by simp [hout] at hin⟩
        exact .inl ⟨hop, s, by simp [step, cpVectorAdd, hout], h⟩
      · have hcareful := @careful_add_iff _ s i item hout hi hne
        by_cases hop : s.Careful (.add i item)
        · exact .inl ⟨hop, _, step_add hout hi item, h.put hi (hcareful.mp hop)⟩
        · refine .inr ⟨hop, .inl ⟨_, step_add hout hi item, fun hgood => hop (hcareful.mpr ?_)⟩⟩
          exact (put_counted_iff h hi item 1).mp hgood.counted
      · refine .inr ⟨fun hop => hop.1 rfl, .inr ?_⟩
        have hlen := List.getElem?_eq_none_iff.mp hbehind
        simp [step, cpVectorAdd, hout, CpVector.store, Nat.not_lt.mpr hlen, bind, Except.bind]
  | del index =>
      rcases h.index_cases index with hout | ⟨hout, ⟨i, rfl, hi, hne⟩ | ⟨rfl, hbehind⟩⟩
      · have hop : s.Careful (.del index) := ⟨h.outside_ne hout, fun hin => by simp [hout] at hin⟩
        exact .inl ⟨hop, s, by simp [step, cpVectorDel, hout], h⟩
      · have hcareful := careful_del_iff hout hi hne
        by_cases hop : s.Careful (.del i)
        · exact .inl ⟨hop, _, step_del hout hi, h.put hi (hcareful.mp hop)⟩
        · refine .inr ⟨hop, .inl ⟨_, step_del hout hi, fun hgood => hop (hcareful.mpr ?_)⟩⟩
          exact (put_counted_iff h hi none (-1)).mp hgood.counted
      · refine .inr ⟨fun hop => hop.1 rfl, .inr ?_⟩
        simp [step, cpVectorDel, hout, CpVector.load, hbehind, bind, Except.bind]
  | get index =>
      by_cases hop : index = s.vector.size
      · refine .inr ⟨fun hne => hne hop, .inr ?_⟩
        rcases h.index_cases index with hout | ⟨hout, ⟨i, rfl, hi, hne⟩ | ⟨-, hbehind⟩⟩
        · exact absurd hop (h.outside_ne hout)
        · exact absurd hop hne
        · simp [step, cpVectorGet, hout, CpVector.load, hbehind, bind, Except.bind]
      · exact .inl ⟨hop, s, by simp [step, h.good.answers index hop], h⟩

theorem sound_init {size : Int} {memory : Bool} {vector : CpVector α} (h : cpVectorInit size memory = some vector) :
    (⟨vector, fun _ => none⟩ : VectorRun α).Sound := by
  unfold cpVectorInit at h
  split at h
  · cases h
  split at h
  · cases h
  cases h
  refine ⟨?_, ?_, ?_⟩
  · dsimp only
    omega
  · rw [List.countP_eq_zero.mpr (by simp)]
    rfl
  · intro i hi
    rw [List.length_replicate] at hi
    simp [hi]

/-- The vector keeps its promises exactly as long as its callers keep the books for it. -/
theorem good_iff_careful {size : Int} {memory : Bool} {vector : CpVector α}
    (h : cpVectorInit size memory = some vector) (history : List (VectorOp α)) :
    Always step Good ⟨vector, fun _ => none⟩ history ∧
        FaultsOnly (fun _ => False) (exec step ⟨vector, fun _ => none⟩ history) ↔
      Along step Careful ⟨vector, fun _ => none⟩ history := by
  refine safe_iff_along (fun (s : VectorRun α) (hs : s.Sound) => hs.good) ?_ ?_ ?_ (sound_init h)
  · intro s op t hs hop ht
    rcases hs.step_cases op with ⟨-, t', ht', hsound⟩ | ⟨hnot, -⟩
    · rwa [Except.ok.inj (ht.symm.trans ht')]
    · exact absurd hop hnot
  · intro s op hs hop
    rcases hs.step_cases op with ⟨-, t, ht, -⟩ | ⟨hnot, -⟩
    · rw [ht]
      exact .ok _ t
    · exact absurd hop hnot
  · intro s op hs hop
    rcases hs.step_cases op with ⟨hyes, -⟩ | ⟨-, hbad | herror⟩
    · exact absurd hyes hop
    · exact .inl hbad
    · exact .inr ⟨.bounds, herror, id⟩

theorem good_iff_careful_three :
    Always step Good ⟨⟨3, 0, [none, none, none], rfl⟩, fun _ => none⟩
        [.add 1 (some 7), .get 1, .del 1, .add 1 (some 8), .get 4] ∧
      FaultsOnly (fun _ => False) (exec step ⟨⟨3, 0, [none, none, none], rfl⟩, fun _ => none⟩
        [.add 1 (some 7), .get 1, .del 1, .add 1 (some 8), .get 4]) :=
  (@good_iff_careful Nat 3 true _ rfl _).mpr (by decide)

/-- A slot is written twice, an empty one is deleted, and `size` is taken for an index. -/
theorem vector_not_good :
    ¬ Always step Good (⟨⟨3, 0, [none, none, none], rfl⟩, fun _ => none⟩ : VectorRun Nat)
        [.add 1 (some 7), .add 1 (some 8)] ∧
      ¬ Always step Good (⟨⟨3, 0, [none, none, none], rfl⟩, fun _ => none⟩ : VectorRun Nat) [.del 1] ∧
      exec step (⟨⟨3, 0, [none, none, none], rfl⟩, fun _ => none⟩ : VectorRun Nat) [.get 3] = .error .bounds := by
  refine ⟨fun h => ?_, fun h => ?_, rfl⟩
  · exact absurd (h.last rfl).counted (by decide)
  · exact absurd (h.last rfl).counted (by decide)

end VectorRun

end Fl2440.CpLibrary
