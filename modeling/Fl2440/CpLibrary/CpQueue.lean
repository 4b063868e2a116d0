import Fl2440.Lib.Run
import Mathlib.Data.List.Basic
import Mathlib.Logic.Function.Iterate

/-! `cp_queue.c` over the list of the items its nodes hold, front first; the
`items` counter is the length of that list. -/
namespace Fl2440.CpLibrary

open Fl2440.Lib

structure CpQueue (α : Type) where
  nodes : List α
  size : Int

variable {α : Type}

def CpQueue.items (queue : CpQueue α) : Int := queue.nodes.length

def cpQueueInit (size : Int) : CpQueue α := ⟨[], size⟩

/-- The test is `size == items`. -/
def cpQueueIsFull (queue : CpQueue α) : Bool := queue.size == queue.items

def cpQueueIsEmpty (queue : CpQueue α) : Bool := queue.items == 0

/-- `node` is whether the allocation of the node succeeds. -/
def cpEnqueue (queue : CpQueue α) (data : α) (node : Bool) : Option α × CpQueue α :=
  if cpQueueIsFull queue then (none, queue)
  else if !node then (none, queue)
  else (some data, { queue with nodes := queue.nodes ++ [data] })

def cpDequeue (queue : CpQueue α) : Option α × CpQueue α :=
  match queue.nodes with
  | [] => (none, queue)
  | item :: rest => (some item, { queue with nodes := rest })

/-- The loop looks one node ahead, so in a non-empty queue without the element
it follows the NULL behind the last node. -/
def cpRmqueue [DecidableEq α] (queue : CpQueue α) (data : α) :
    Except Fault (Option α × CpQueue α) :=
  if cpQueueIsEmpty queue then .ok (none, queue)
  else if data ∈ queue.nodes then
    .ok (some data, { queue with nodes := queue.nodes.erase data })
  else .error .null

/-- `while (!cp_queue_is_empty(queue)) cp_dequeue(queue)`: once for each item. -/
def cpQueueDrain (queue : CpQueue α) : CpQueue α :=
  (fun queue => (cpDequeue queue).2)^[queue.nodes.length] queue

theorem cpQueueIsEmpty_iff (queue : CpQueue α) : cpQueueIsEmpty queue = true ↔ queue.nodes = [] := by
  simp [cpQueueIsEmpty, CpQueue.items]

theorem cpRmqueue_cases [DecidableEq α] {queue queue' : CpQueue α} {data : α} {rv : Option α}
    (h : cpRmqueue queue data = .ok (rv, queue')) :
    queue' = { queue with nodes := queue.nodes.erase data } ∧
      (data ∈ queue.nodes ∨ queue.nodes = []) := by
  unfold cpRmqueue at h
  split at h
  · rename_i hempty
    have hnil := (cpQueueIsEmpty_iff queue).mp hempty
    cases h
    refine ⟨?_, Or.inr hnil⟩
    rw [hnil, List.erase_nil, ← hnil]
  · split at h
    · rename_i hmem
      cases h
      exact ⟨rfl, Or.inl hmem⟩
    · contradiction

theorem cpRmqueue_faultsOnly [DecidableEq α] {queue : CpQueue α} {data : α}
    {allowed : Fault → Prop} (h : allowed .null ∨ data ∈ queue.nodes ∨ queue.nodes = []) :
    FaultsOnly allowed (cpRmqueue queue data) := by
  unfold cpRmqueue
  split
  · exact .ok _ _
  · rename_i hempty
    split
    · exact .ok _ _
    · rename_i hmem
      rcases h with h | h | h
      · exact .error h
      · exact absurd h hmem
      · exact absurd ((cpQueueIsEmpty_iff queue).mpr h) hempty

theorem cpQueueDrain_eq (queue : CpQueue α) : cpQueueDrain queue = { queue with nodes := [] } := by
  obtain ⟨nodes, size⟩ := queue
  unfold cpQueueDrain
  induction nodes with
  | nil => rfl
  | cons item rest ih => exact ih

theorem cpEnqueue_eq_of_room {queue : CpQueue α} (data : α)
    (hroom : (queue.nodes.length : Int) < queue.size) :
    cpEnqueue queue data true = (some data, { queue with nodes := queue.nodes ++ [data] }) := by
  have hfull : ¬ queue.size = queue.items := by
    unfold CpQueue.items
    omega
  simp [cpEnqueue, cpQueueIsFull, hfull]

theorem cpEnqueue_cases (queue : CpQueue α) (data : α) (node : Bool) :
    cpEnqueue queue data node = (some data, { queue with nodes := queue.nodes ++ [data] }) ∨
      cpEnqueue queue data node = (none, queue) := by
  unfold cpEnqueue
  split
  · exact Or.inr rfl
  · split
    · exact Or.inr rfl
    · exact Or.inl rfl

end Fl2440.CpLibrary
