import Fl2440.Lib.Heap
import Fl2440.CpLibrary.CpQueue

/-! `cp_queue.c` over its nodes: a chain of cells from `front`, with `rear` and `items` kept
beside it, that refines the list of `CpQueue`. -/
namespace Fl2440.CpLibrary

open Fl2440.Lib

structure QNode (α : Type) where
  item : α
  next : Option Nat

structure LinkedQueue (α : Type) where
  heap : Heap (QNode α)
  front : Option Nat
  rear : Option Nat
  items : Int
  size : Int

namespace LinkedQueue

variable {α : Type}

def cpQueueInit (heap : Heap (QNode α)) (size : Int) : LinkedQueue α := ⟨heap, none, none, 0, size⟩

def cpQueueIsFull (s : LinkedQueue α) : Bool := s.size == s.items

def cpQueueIsEmpty (s : LinkedQueue α) : Bool := 0 == s.items

/-- With where the node can be allocated, if it can. -/
def cpEnqueue (s : LinkedQueue α) (data : α) (node : Option Nat) : Except Fault (Option α × LinkedQueue α) :=
  if s.cpQueueIsFull then .ok (none, s)
  else
    match node with
    | none => .ok (none, s)
    | some hint => do
        let node := s.heap.fresh hint
        let heap := s.heap.malloc hint ⟨data, none⟩
        if s.cpQueueIsEmpty then
          return (some data, { s with heap, front := some node, rear := some node, items := s.items + 1 })
        else do
          let heap ← heap.store s.rear fun rear => { rear with next := some node }
          return (some data, { s with heap, rear := some node, items := s.items + 1 })

def cpDequeue (s : LinkedQueue α) : Except Fault (Option α × LinkedQueue α) :=
  if s.cpQueueIsEmpty then .ok (none, s)
  else do
    let node ← s.heap.load s.front
    let items := s.items - 1
    return (some node.item, { s with
      heap := s.heap.free s.front
      front := node.next
      items
      rear := if items = 0 then none else s.rear })

/-- The loop of `cp_rmqueue` from `node` on, which looks one node ahead. With the error `none`
it is still going after so many rounds. -/
def rmLoop [DecidableEq α] (s : LinkedQueue α) (data : α) :
    Nat → Option Nat → Except (Option Fault) (Option α × LinkedQueue α)
  | 0, _ => .error none
  | rounds + 1, node =>
      if node = none then .ok (some data, s)
      else do
        let this ← (s.heap.load node).mapError some
        let ahead ← (s.heap.load this.next).mapError some
        if ahead.item = data then
          if this.next ≠ s.rear then do
            let heap ← (s.heap.store node fun this => { this with next := ahead.next }).mapError some
            return (some data, { s with heap := heap.free this.next, items := s.items - 1 })
          else do
            let heap ← (s.heap.store node fun this => { this with next := none }).mapError some
            return (some data, { s with heap := heap.free this.next, rear := node, items := s.items - 1 })
        else rmLoop s data rounds this.next

def cpRmqueue [DecidableEq α] (s : LinkedQueue α) (rounds : Nat) (data : α) :
    Except (Option Fault) (Option α × LinkedQueue α) :=
  if s.cpQueueIsEmpty then .ok (none, s)
  else do
    let first ← (s.heap.load s.front).mapError some
    if first.item = data then
      return (some data, { s with heap := s.heap.free s.front, front := first.next, items := s.items - 1 })
    else rmLoop s data rounds s.front

def itemsAt (s : LinkedQueue α) (addrs : List Nat) : List α := addrs.map fun a => (s.heap.cell a).item

/-- The nodes at these addresses, from `front` to NULL, hold the items of the queue; `rear` is
looked at only where there is one. -/
structure Represents (s : LinkedQueue α) (queue : CpQueue α) (addrs : List Nat) : Prop where
  chain : s.heap.Segment QNode.next s.front addrs none
  distinct : addrs.Nodup
  contents : s.itemsAt addrs = queue.nodes
  rear : ∀ last ∈ addrs.getLast?, s.rear = some last
  items : s.items = addrs.length
  size : s.size = queue.size

def Refines (s : LinkedQueue α) (queue : CpQueue α) : Prop := ∃ addrs, s.Represents queue addrs

variable {s : LinkedQueue α} {queue : CpQueue α} {addrs : List Nat}

@[simp] theorem itemsAt_nil (s : LinkedQueue α) : s.itemsAt [] = [] := rfl

@[simp] theorem itemsAt_cons (s : LinkedQueue α) (a : Nat) (addrs : List Nat) :
    s.itemsAt (a :: addrs) = (s.heap.cell a).item :: s.itemsAt addrs := rfl

@[simp] theorem itemsAt_append (s : LinkedQueue α) (addrs rest : List Nat) :
    s.itemsAt (addrs ++ rest) = s.itemsAt addrs ++ s.itemsAt rest := List.map_append

@[simp] theorem length_itemsAt (s : LinkedQueue α) (addrs : List Nat) : (s.itemsAt addrs).length = addrs.length :=
  List.length_map _

theorem itemsAt_congr {t : LinkedQueue α} (h : ∀ a ∈ addrs, (t.heap.cell a).item = (s.heap.cell a).item) :
    t.itemsAt addrs = s.itemsAt addrs := List.map_congr_left h

theorem Represents.length (h : s.Represents queue addrs) : queue.nodes.length = addrs.length := by
  rw [← h.contents, length_itemsAt]

theorem Represents.isFull (h : s.Represents queue addrs) : s.cpQueueIsFull = CpLibrary.cpQueueIsFull queue := by
  rw [cpQueueIsFull, CpLibrary.cpQueueIsFull, CpQueue.items, h.length, h.items, h.size]

theorem Represents.isEmpty_iff (h : s.Represents queue addrs) : s.cpQueueIsEmpty = true ↔ addrs = [] := by
  simp [cpQueueIsEmpty, h.items, eq_comm (a := (0 : Int))]

theorem Represents.isEmpty (h : s.Represents queue addrs) : s.cpQueueIsEmpty = CpLibrary.cpQueueIsEmpty queue := by
  rw [Bool.eq_iff_iff, h.isEmpty_iff, cpQueueIsEmpty_iff, ← List.length_eq_zero_iff, ← h.length, List.length_eq_zero_iff]

theorem represents_init (heap : Heap (QNode α)) (size : Int) :
    (cpQueueInit heap size).Represents (CpLibrary.cpQueueInit size) [] where
  chain := rfl
  distinct := List.nodup_nil
  contents := rfl
  rear := nofun
  items := rfl
  size := rfl

theorem Represents.dropFront {a : Nat} {rest : List Nat} (h : s.Represents queue (a :: rest)) {rear : Option Nat}
    (hrear : rest ≠ [] → rear = s.rear) :
    { s with
      heap := s.heap.free s.front
      front := (s.heap.cell a).next
      items := s.items - 1
      rear } |>.Represents { queue with nodes := queue.nodes.tail } rest where
  chain := by
    obtain ⟨hfront, -, hrest⟩ := h.chain
    rw [hfront]
    exact hrest.free (List.nodup_cons.mp h.distinct).1
  distinct := (List.nodup_cons.mp h.distinct).2
  contents := by
    rw [← h.contents]
    exact itemsAt_congr fun a _ => by simp
  rear := by
    intro last hlast
    have hne : rest ≠ [] := by
      rintro rfl
      cases hlast
    rw [hrear hne]
    apply h.rear
    simp [List.getLast?_cons, Option.mem_def.mp hlast]
  items := by
    have := h.items
    simp at this ⊢
    omega
  size := h.size

theorem Represents.enqueueFirst (h : s.Represents queue []) (data : α) (hint : Nat) :
    ({ s with
      heap := s.heap.malloc hint ⟨data, none⟩
      front := some (s.heap.fresh hint)
      rear := some (s.heap.fresh hint)
      items := s.items + 1 } : LinkedQueue α).Represents
        { queue with nodes := queue.nodes ++ [data] } [s.heap.fresh hint] where
  chain := by simp
  distinct := List.nodup_singleton _
  contents := by simp [← h.contents]
  rear := by simp
  items := by simp [h.items]
  size := h.size

@[simp] theorem item_set_next (heap : Heap (QNode α)) (a b : Nat) (next : Option Nat) :
    ((heap.set a { heap.cell a with next }).cell b).item = (heap.cell b).item := by
  by_cases heq : b = a
  · rw [heq, Heap.set_cell_same]
  · rw [Heap.set_cell_ne _ _ heq]

theorem Represents.enqueueBehind {front : List Nat} {last : Nat} (h : s.Represents queue (front ++ [last]))
    (data : α) (hint : Nat) :
    ({ s with
      heap := (s.heap.malloc hint ⟨data, none⟩).set last
        { ((s.heap.malloc hint ⟨data, none⟩).cell last) with next := some (s.heap.fresh hint) }
      rear := some (s.heap.fresh hint)
      items := s.items + 1 } : LinkedQueue α).Represents
        { queue with nodes := queue.nodes ++ [data] } (front ++ [last] ++ [s.heap.fresh hint]) where
  chain := by
    obtain ⟨mid, hfront, rfl, hlive, -⟩ := Heap.segment_append.mp h.chain
    have hlast : last ∉ front := by
      have := h.distinct
      rw [List.nodup_append] at this
      simpa using fun hmem => this.2.2 last hmem last
    have hne : s.heap.fresh hint ≠ last := fun heq => s.heap.fresh_notMem hint (heq ▸ hlive)
    rw [List.append_assoc]
    refine Heap.segment_append.mpr ⟨some last, (hfront.malloc hint ⟨data, none⟩).set hlast _, rfl, ?_, ?_⟩
    · exact Heap.mem_malloc hint ⟨data, none⟩ hlive
    · simp [Heap.set_cell_ne _ _ hne]
  distinct := by
    have hfresh : s.heap.fresh hint ∉ front ++ [last] := fun hmem =>
      s.heap.fresh_notMem hint (h.chain.live _ hmem)
    rw [List.nodup_append]
    refine ⟨h.distinct, List.nodup_singleton _, ?_⟩
    rintro a ha b hb rfl
    exact hfresh (List.mem_singleton.mp hb ▸ ha)
  contents := by
    rw [itemsAt_append, ← h.contents]
    congr 1
    · apply itemsAt_congr
      intro a ha
      rw [item_set_next, Heap.malloc_cell hint _ (h.chain.live a ha)]
    · simp
  rear := by simp
  items := by
    have := h.items
    simp at this ⊢
    omega
  size := h.size

theorem cpEnqueue_refines (h : s.Refines queue) (data : α) (node : Option Nat) :
    ∃ t, s.cpEnqueue data node = .ok ((CpLibrary.cpEnqueue queue data node.isSome).1, t) ∧
      t.Refines (CpLibrary.cpEnqueue queue data node.isSome).2 ∧
      ((CpLibrary.cpEnqueue queue data node.isSome).1 = none → t = s) := by
  obtain ⟨addrs, h⟩ := h
  unfold cpEnqueue CpLibrary.cpEnqueue
  rw [← h.isFull]
  by_cases hfull : s.cpQueueIsFull = true
  · simp only [hfull, if_true]
    exact ⟨s, rfl, ⟨addrs, h⟩, fun _ => rfl⟩
  simp only [hfull, if_false, Bool.false_eq_true]
  cases node with
  | none => exact ⟨s, rfl, ⟨addrs, h⟩, fun _ => rfl⟩
  | some hint =>
      rcases List.eq_nil_or_concat addrs with rfl | ⟨front, last, rfl⟩
      · simp only [h.isEmpty_iff.mpr rfl, if_true]
        exact ⟨_, rfl, ⟨_, h.enqueueFirst data hint⟩, nofun⟩
      · have hempty : ¬ s.cpQueueIsEmpty = true := by simp [h.isEmpty_iff]
        rw [List.concat_eq_append] at h
        have hrear : s.rear = some last := h.rear last (by simp)
        have hlive := h.chain.live last (by simp)
        simp only [hempty, hrear, Heap.store_some (Heap.mem_malloc hint _ hlive), ok_bind]
        exact ⟨_, rfl, ⟨_, h.enqueueBehind data hint⟩, nofun⟩

theorem cpDequeue_refines (h : s.Refines queue) :
    ∃ t, s.cpDequeue = .ok ((CpLibrary.cpDequeue queue).1, t) ∧ t.Refines (CpLibrary.cpDequeue queue).2 ∧
      ((CpLibrary.cpDequeue queue).1 = none → t = s) := by
  obtain ⟨addrs, h⟩ := h
  unfold cpDequeue CpLibrary.cpDequeue
  cases addrs with
  | nil =>
      have hnodes : queue.nodes = [] := h.contents.symm
      simp only [h.isEmpty_iff.mpr rfl, if_true, hnodes]
      exact ⟨s, rfl, ⟨[], h⟩, fun _ => rfl⟩
  | cons a rest =>
      have hempty : ¬ s.cpQueueIsEmpty = true := by simp [h.isEmpty_iff]
      have hfirst := h.contents.symm
      rw [itemsAt_cons] at hfirst
      obtain ⟨hfront, hlive, -⟩ := h.chain
      simp only [hempty, hfront, Heap.load_some hlive, ok_bind, hfirst]
      refine ⟨_, rfl, ⟨rest, ?_⟩, nofun⟩
      have hdrop := @Represents.dropFront _ _ _ _ _ h (if s.items - 1 = 0 then none else s.rear) <| by
        intro hne
        have := h.items
        have := List.length_pos_iff.mpr hne
        rw [if_neg]
        simp at *
        omega
      rw [hfront, hfirst] at hdrop
      exact hdrop

theorem Represents.unlink {front rest : List Nat} {b c : Nat} (h : s.Represents queue (front ++ b :: c :: rest))
    {rear : Option Nat} (hrear : ∀ last ∈ (b :: rest).getLast?, rear = some last) :
    ({ s with
      heap := (s.heap.set b { s.heap.cell b with next := (s.heap.cell c).next }).free (some c)
      rear
      items := s.items - 1 } : LinkedQueue α).Represents
        { queue with nodes := s.itemsAt (front ++ b :: rest) } (front ++ b :: rest) where
  chain := by
    obtain ⟨mid, hfront, rfl, hb, -, hc, hrest⟩ := Heap.segment_append.mp h.chain
    have hdistinct := h.distinct
    simp only [List.nodup_append, List.nodup_cons, List.mem_cons, not_or] at hdistinct
    obtain ⟨-, ⟨⟨hbc, hbrest⟩, hcrest, -⟩, hapart⟩ := hdistinct
    have hbfront : b ∉ front := fun hmem => hapart b hmem b (.inl rfl) rfl
    have hcfront : c ∉ front := fun hmem => hapart c hmem c (.inr (.inl rfl)) rfl
    refine Heap.segment_append.mpr ⟨some b, (hfront.set hbfront _).free hcfront, rfl, ?_, ?_⟩
    · exact Finset.mem_erase.mpr ⟨hbc, hb⟩
    · rw [Heap.free_cell, Heap.set_cell_same]
      exact (hrest.set hbrest _).free hcrest
  distinct := h.distinct.sublist ((List.Sublist.refl front).append ((List.sublist_cons_self c rest).cons_cons b))
  contents := itemsAt_congr fun a _ => by simp
  rear := by
    intro last hlast
    apply hrear
    simpa using hlast
  items := by
    have := h.items
    simp at this ⊢
    omega
  size := h.size

theorem rmLoop_round [DecidableEq α] {b c : Nat} (data : α) (rounds : Nat) (hb : b ∈ s.heap.live)
    (hnext : (s.heap.cell b).next = some c) (hc : c ∈ s.heap.live) :
    s.rmLoop data (rounds + 1) (some b) =
      if (s.heap.cell c).item = data then
        .ok (some data, if some c ≠ s.rear then
          { s with
            heap := (s.heap.set b { s.heap.cell b with next := (s.heap.cell c).next }).free (some c)
            items := s.items - 1 }
        else
          { s with
            heap := (s.heap.set b { s.heap.cell b with next := none }).free (some c)
            rear := some b
            items := s.items - 1 })
      else s.rmLoop data rounds (some c) := by
  simp only [rmLoop, reduceCtorEq, if_false, Heap.load_some hb, Except.mapError, ok_bind, hnext, Heap.load_some hc,
    Heap.store_some hb]
  split
  · split <;> rfl
  · rfl

theorem rmLoop_refines [DecidableEq α] {data : α} {rest : List Nat} :
    ∀ {front : List Nat} {b rounds : Nat}, s.Represents queue (front ++ b :: rest) → rest.length < rounds →
      (data ∈ s.itemsAt rest → ∃ t, s.rmLoop data rounds (some b) = .ok (some data, t) ∧
        t.Refines { queue with nodes := s.itemsAt (front ++ [b]) ++ (s.itemsAt rest).erase data }) ∧
      (data ∉ s.itemsAt rest → s.rmLoop data rounds (some b) = .error (some .null)) := by
  induction rest with
  | nil =>
      intro front b rounds h hrounds
      obtain ⟨rounds, rfl⟩ : ∃ n, rounds = n + 1 := ⟨rounds - 1, by omega⟩
      obtain ⟨mid, -, rfl, hb, hnext⟩ := Heap.segment_append.mp h.chain
      have hnext : (s.heap.cell b).next = none := hnext
      refine ⟨nofun, fun _ => ?_⟩
      simp only [rmLoop, reduceCtorEq, if_false, Heap.load_some hb, Except.mapError, ok_bind, hnext]
      rfl
  | cons c rest ih =>
      intro front b rounds h hrounds
      obtain ⟨rounds, rfl⟩ : ∃ n, rounds = n + 1 := ⟨rounds - 1, by omega⟩
      obtain ⟨mid, -, rfl, hb, hnext, hc, hrest⟩ := Heap.segment_append.mp h.chain
      rw [rmLoop_round data rounds hb hnext hc]
      by_cases hitem : (s.heap.cell c).item = data
      · rw [if_pos hitem]
        refine ⟨fun _ => ⟨_, rfl, front ++ b :: rest, ?_⟩, fun hnot => absurd ?_ hnot⟩
        · have herase : (s.itemsAt (c :: rest)).erase data = s.itemsAt rest := by simp [hitem]
          have hitems : s.itemsAt (front ++ [b]) ++ s.itemsAt rest = s.itemsAt (front ++ b :: rest) := by simp
          rw [herase, hitems]
          cases rest with
          | nil =>
              have hrear : some c = s.rear := (h.rear c (by simp)).symm
              have hlast : (s.heap.cell c).next = none := hrest
              have hunlink := @Represents.unlink _ _ _ _ _ _ _ h (some b) (by simp)
              rw [if_neg (not_not.mpr hrear)]
              rwa [hlast] at hunlink
          | cons d rest =>
              have hrear : some c ≠ s.rear := by
                intro heq
                have hlast : s.rear = some ((d :: rest).getLast (List.cons_ne_nil d rest)) :=
                  h.rear _ (by simp [List.getLast?_eq_some_getLast])
                have hmem := List.getLast_mem (List.cons_ne_nil d rest)
                rw [← Option.some.inj (heq.trans hlast)] at hmem
                have hdistinct := (List.nodup_append.mp h.distinct).2.1
                exact (List.nodup_cons.mp (List.nodup_cons.mp hdistinct).2).1 hmem
              rw [if_pos hrear]
              exact h.unlink fun last hlast => h.rear last (by simpa using hlast)
        · simp [hitem]
      · rw [if_neg hitem]
        have hlater := @ih (front ++ [b]) c rounds (by simpa using h) (by simpa using hrounds)
        have hmem : data ∈ s.itemsAt (c :: rest) ↔ data ∈ s.itemsAt rest := by simp [Ne.symm hitem]
        have herase : s.itemsAt (front ++ [b]) ++ (s.itemsAt (c :: rest)).erase data =
            s.itemsAt (front ++ [b] ++ [c]) ++ (s.itemsAt rest).erase data := by simp [hitem]
        rwa [hmem, herase]

/-- `cp_rmqueue` faults just where the list of `CpQueue` does: in a queue that is not empty and
has no such element. -/
theorem cpRmqueue_refines [DecidableEq α] {rounds : Nat} (h : s.Refines queue) (data : α)
    (hrounds : queue.nodes.length ≤ rounds) :
    (∀ rv queue', CpLibrary.cpRmqueue queue data = .ok (rv, queue') →
      ∃ t, s.cpRmqueue rounds data = .ok (rv, t) ∧ t.Refines queue' ∧ (rv = none → t = s)) ∧
    ∀ e, CpLibrary.cpRmqueue queue data = .error e → s.cpRmqueue rounds data = .error (some e) := by
  obtain ⟨addrs, h⟩ := h
  unfold cpRmqueue CpLibrary.cpRmqueue
  rw [← h.isEmpty]
  cases addrs with
  | nil =>
      rw [if_pos (h.isEmpty_iff.mpr rfl), if_pos (h.isEmpty_iff.mpr rfl)]
      refine ⟨fun rv queue' hok => ?_, nofun⟩
      cases hok
      exact ⟨s, rfl, ⟨[], h⟩, fun _ => rfl⟩
  | cons a rest =>
      have hempty : ¬ s.cpQueueIsEmpty = true := by simp [h.isEmpty_iff]
      rw [if_neg hempty, if_neg hempty]
      obtain ⟨hfront, hlive, -⟩ := h.chain
      have hnodes := h.contents.symm
      simp only [hfront, Heap.load_some hlive, Except.mapError, ok_bind]
      by_cases hitem : (s.heap.cell a).item = data
      · have hmem : data ∈ queue.nodes := by simp [hnodes, hitem]
        rw [if_pos hmem, if_pos hitem]
        refine ⟨fun rv queue' hok => ?_, nofun⟩
        cases hok
        refine ⟨_, rfl, ⟨rest, ?_⟩, nofun⟩
        have hdrop := @Represents.dropFront _ _ _ _ _ h s.rear fun _ => rfl
        have herase : queue.nodes.erase data = queue.nodes.tail := by simp [hnodes, hitem]
        rw [hfront] at hdrop
        rwa [herase]
      · have hloop := @rmLoop_refines _ s queue _ data rest [] a rounds h (by
          rw [h.length] at hrounds
          exact hrounds)
        have hmem : data ∈ queue.nodes ↔ data ∈ s.itemsAt rest := by simp [hnodes, Ne.symm hitem]
        rw [if_neg hitem]
        by_cases hbehind : data ∈ s.itemsAt rest
        · rw [if_pos (hmem.mpr hbehind)]
          refine ⟨fun rv queue' hok => ?_, nofun⟩
          cases hok
          obtain ⟨t, ht, hrefines⟩ := hloop.1 hbehind
          refine ⟨t, ht, ?_, nofun⟩
          have herase : s.itemsAt ([] ++ [a]) ++ (s.itemsAt rest).erase data = queue.nodes.erase data := by
            simp [hnodes, hitem]
          rwa [herase] at hrefines
        · rw [if_neg fun h => hbehind (hmem.mp h)]
          refine ⟨nofun, fun e he => ?_⟩
          cases he
          exact hloop.2 hbehind

end LinkedQueue

inductive QueueOp (α : Type) where
  | enqueue (data : α) (node : Option Nat)
  | dequeue
  | rmqueue (data : α)
deriving DecidableEq

section History

variable {α : Type} [DecidableEq α]

def CpQueue.op (queue : CpQueue α) : QueueOp α → Except Fault (Option α × CpQueue α)
  | .enqueue data node => .ok (CpLibrary.cpEnqueue queue data node.isSome)
  | .dequeue => .ok (CpLibrary.cpDequeue queue)
  | .rmqueue data => CpLibrary.cpRmqueue queue data

def CpQueue.step (queue : CpQueue α) (op : QueueOp α) : Except Fault (CpQueue α) := Prod.snd <$> queue.op op

def LinkedQueue.op (rounds : Nat) (s : LinkedQueue α) : QueueOp α → Except (Option Fault) (Option α × LinkedQueue α)
  | .enqueue data node => (s.cpEnqueue data node).mapError some
  | .dequeue => s.cpDequeue.mapError some
  | .rmqueue data => s.cpRmqueue rounds data

def LinkedQueue.step (rounds : Nat) (s : LinkedQueue α) (op : QueueOp α) : Except (Option Fault) (LinkedQueue α) :=
  Prod.snd <$> s.op rounds op

/-- Only elements that are in the queue are removed. -/
def Queued (queue : CpQueue α) (op : QueueOp α) : Prop := ∀ data, op = .rmqueue data → data ∈ queue.nodes

instance (queue : CpQueue α) : ∀ op, Decidable (Queued queue op)
  | .enqueue _ _ | .dequeue => .isTrue nofun
  | .rmqueue data => decidable_of_iff (data ∈ queue.nodes)
      ⟨fun h _ heq => QueueOp.rmqueue.inj heq ▸ h, fun h => h data rfl⟩

/-- What every operation does to the list that the nodes hold. -/
structure FifoState (rounds : Nat) (size : Int) (s : LinkedQueue α) (list : List α) : Prop where
  nodes : s.Refines ⟨list, size⟩
  items : s.items = list.length
  bounded : (list.length : Int) ≤ size
  full : s.cpQueueIsFull = true ↔ (list.length : Int) = size
  empty : s.cpQueueIsEmpty = true ↔ list = []
  enqueued : ∀ data node, (list.length : Int) < size → node.isSome →
    ∃ t, s.cpEnqueue data node = .ok (some data, t) ∧ t.Refines ⟨list ++ [data], size⟩
  refused : ∀ data node, ¬ ((list.length : Int) < size ∧ node.isSome) → s.cpEnqueue data node = .ok (none, s)
  dequeued : ∀ data rest, list = data :: rest →
    ∃ t, s.cpDequeue = .ok (some data, t) ∧ t.Refines ⟨rest, size⟩
  exhausted : list = [] → s.cpDequeue = .ok (none, s)
  removed : ∀ data ∈ list, ∃ t, s.cpRmqueue rounds data = .ok (some data, t) ∧ t.Refines ⟨list.erase data, size⟩

variable {s : LinkedQueue α} {queue : CpQueue α} {size : Int} {rounds : Nat}

omit [DecidableEq α] in
theorem cpEnqueue_eq (hsize : queue.size = size) (hbounded : (queue.nodes.length : Int) ≤ size) (data : α) (node : Bool) :
    CpLibrary.cpEnqueue queue data node =
      if (queue.nodes.length : Int) < size ∧ node then (some data, ⟨queue.nodes ++ [data], size⟩) else (none, queue) := by
  subst hsize
  by_cases hfull : queue.size = queue.nodes.length
  · rw [if_neg fun h => (Int.ne_of_lt h.1) hfull.symm]
    simp [cpEnqueue, cpQueueIsFull, CpQueue.items, hfull]
  · have hroom : (queue.nodes.length : Int) < queue.size := by omega
    cases node <;> simp [cpEnqueue, cpQueueIsFull, CpQueue.items, hfull, hroom]

theorem CpQueue.op_bounded {rv : Option α} {queue' : CpQueue α} {op : QueueOp α}
    (hbounded : (queue.nodes.length : Int) ≤ queue.size) (h : queue.op op = .ok (rv, queue')) :
    (queue'.nodes.length : Int) ≤ queue'.size ∧ queue'.size = queue.size := by
  cases op with
  | enqueue data node =>
      have hput := Except.ok.inj h
      rw [cpEnqueue_eq rfl hbounded] at hput
      split at hput
      next hroom =>
        cases hput
        simp
        omega
      next =>
        cases hput
        exact ⟨hbounded, rfl⟩
  | dequeue =>
      have htaken := Except.ok.inj h
      unfold cpDequeue at htaken
      split at htaken
      next hnil =>
        cases htaken
        exact ⟨hbounded, rfl⟩
      next item rest hnodes =>
        cases htaken
        rw [hnodes, List.length_cons] at hbounded
        refine ⟨?_, rfl⟩
        dsimp only
        omega
  | rmqueue data =>
      obtain ⟨rfl, -⟩ := cpRmqueue_cases h
      have := List.length_erase_le (a := data) (l := queue.nodes)
      refine ⟨?_, rfl⟩
      dsimp only
      omega

theorem LinkedQueue.op_refines {op : QueueOp α} (h : s.Refines queue) (hrounds : queue.nodes.length ≤ rounds) :
    (∀ rv queue', queue.op op = .ok (rv, queue') → ∃ t, s.op rounds op = .ok (rv, t) ∧ t.Refines queue') ∧
      ∀ e, queue.op op = .error e → s.op rounds op = .error (some e) := by
  cases op with
  | enqueue data node =>
      obtain ⟨t, ht, hrefines, -⟩ := cpEnqueue_refines h data node
      refine ⟨fun rv queue' hok => ⟨t, ?_, ?_⟩, nofun⟩
      · rw [LinkedQueue.op, ht, Except.ok.inj hok]
        rfl
      · rwa [Except.ok.inj hok] at hrefines
  | dequeue =>
      obtain ⟨t, ht, hrefines, -⟩ := cpDequeue_refines h
      refine ⟨fun rv queue' hok => ⟨t, ?_, ?_⟩, nofun⟩
      · rw [LinkedQueue.op, ht, Except.ok.inj hok]
        rfl
      · rwa [Except.ok.inj hok] at hrefines
  | rmqueue data =>
      obtain ⟨hok, herror⟩ := cpRmqueue_refines h data hrounds
      refine ⟨fun rv queue' heq => ?_, herror⟩
      obtain ⟨t, ht, hrefines, -⟩ := hok rv queue' heq
      exact ⟨t, ht, hrefines⟩

structure SameQueue (size : Int) (s : LinkedQueue α) (queue : CpQueue α) : Prop where
  nodes : s.Refines queue
  bounded : (queue.nodes.length : Int) ≤ queue.size
  sized : queue.size = size

theorem SameQueue.step {op : QueueOp α} {queue' : CpQueue α} (h : SameQueue size s queue) (hrounds : size ≤ rounds)
    (hstep : queue.step op = .ok queue') : ∃ t, s.step rounds op = .ok t ∧ SameQueue size t queue' := by
  obtain ⟨⟨rv, next⟩, hop, rfl⟩ := map_eq_ok_iff.mp hstep
  have hlength : queue.nodes.length ≤ rounds := by
    have := h.bounded
    have := h.sized
    omega
  obtain ⟨t, ht, hrefines⟩ := (LinkedQueue.op_refines h.nodes hlength).1 rv _ hop
  obtain ⟨hbounded, hsame⟩ := CpQueue.op_bounded h.bounded hop
  exact ⟨t, map_eq_ok_iff.mpr ⟨(rv, t), ht, rfl⟩, hrefines, hbounded, hsame.trans h.sized⟩

omit [DecidableEq α] in
theorem SameQueue.init (heap : Heap (QNode α)) (hsize : 0 ≤ size) :
    SameQueue size (LinkedQueue.cpQueueInit heap size) (CpLibrary.cpQueueInit size) :=
  ⟨⟨[], LinkedQueue.represents_init heap size⟩, hsize, rfl⟩

theorem SameQueue.fifoState (h : SameQueue size s queue) (hrounds : size ≤ rounds) :
    FifoState rounds size s queue.nodes := by
  obtain ⟨hnodes, hbounded, rfl⟩ := h
  obtain ⟨addrs, hrep⟩ := hnodes
  have hrefines : s.Refines queue := ⟨addrs, hrep⟩
  have hlength : queue.nodes.length ≤ rounds := by omega
  refine ⟨hrefines, ?_, hbounded, ?_, ?_, ?_, ?_, ?_, ?_, ?_⟩
  · rw [hrep.items, hrep.length]
  · rw [hrep.isFull, cpQueueIsFull, CpQueue.items, beq_iff_eq]
    exact eq_comm
  · rw [hrep.isEmpty, cpQueueIsEmpty_iff]
  · intro data node hroom hnode
    obtain ⟨t, ht, hput, -⟩ := LinkedQueue.cpEnqueue_refines hrefines data node
    rw [cpEnqueue_eq rfl hbounded, if_pos ⟨hroom, hnode⟩] at ht hput
    exact ⟨t, ht, hput⟩
  · intro data node hno
    obtain ⟨t, ht, -, hsame⟩ := LinkedQueue.cpEnqueue_refines hrefines data node
    rw [cpEnqueue_eq rfl hbounded, if_neg hno] at ht hsame
    rw [ht, hsame rfl]
  · intro data rest hlist
    obtain ⟨t, ht, htaken, -⟩ := LinkedQueue.cpDequeue_refines hrefines
    simp only [cpDequeue, hlist] at ht htaken
    exact ⟨t, ht, htaken⟩
  · intro hlist
    obtain ⟨t, ht, -, hsame⟩ := LinkedQueue.cpDequeue_refines hrefines
    have hnone : (cpDequeue queue).1 = none := by simp [cpDequeue, hlist]
    rw [ht, hsame hnone, hnone]
  · intro data hmem
    have hrm : cpRmqueue queue data = .ok (some data, { queue with nodes := queue.nodes.erase data }) := by
      rw [cpRmqueue, if_neg, if_pos hmem]
      rw [cpQueueIsEmpty_iff]
      exact List.ne_nil_of_mem hmem
    obtain ⟨t, ht, hrest, -⟩ := (LinkedQueue.cpRmqueue_refines hrefines data hlength).1 _ _ hrm
    exact ⟨t, ht, hrest⟩

/-- Whatever is put in, taken out and removed, the nodes hold the list that the operations
make of the empty one, and no operation comes upon NULL or a freed node. -/
theorem linkedQueue_fifo (heap : Heap (QNode α)) (hsize : 0 ≤ size) (hrounds : size ≤ rounds)
    (history : List (QueueOp α)) (hqueued : Along CpQueue.step Queued (cpQueueInit size) history) :
    ∃ s queue, exec (LinkedQueue.step rounds) (LinkedQueue.cpQueueInit heap size) history = .ok s ∧
      exec CpQueue.step (cpQueueInit size) history = .ok queue ∧ FifoState rounds size s queue.nodes := by
  have hstep : ∀ (s : LinkedQueue α) (queue : CpQueue α) (op : QueueOp α), SameQueue size s queue → Queued queue op →
      ∃ s' queue', s.step rounds op = .ok s' ∧ queue.step op = .ok queue' ∧ SameQueue size s' queue' := by
    intro s queue op h hop
    have hreturns : ∃ queue', queue.step op = .ok queue' := by
      cases op with
      | enqueue data node => exact ⟨_, rfl⟩
      | dequeue => exact ⟨_, rfl⟩
      | rmqueue data =>
          have hsafe : FaultsOnly (fun _ => False) (cpRmqueue queue data) :=
            cpRmqueue_faultsOnly (.inr (.inl (hop data rfl)))
          exact (hsafe.map Prod.snd).exists_ok
    obtain ⟨queue', hqueue⟩ := hreturns
    obtain ⟨t, ht, hsame⟩ := h.step hrounds hqueue
    exact ⟨t, queue', ht, hqueue, hsame⟩
  obtain ⟨s, queue, hs, hq, hsame⟩ := exec_simulates hstep (SameQueue.init heap hsize) hqueued
  exact ⟨s, queue, hs, hq, hsame.fifoState hrounds⟩

theorem rmLoop_returns {data : α} {rv : Option α} {t : LinkedQueue α} :
    ∀ {rounds : Nat} {node : Option Nat}, s.rmLoop data rounds node = .ok (rv, t) → rv = some data
  | 0, _, h => by cases h
  | rounds + 1, node, h => by
      unfold LinkedQueue.rmLoop at h
      split at h
      · cases h
        rfl
      obtain ⟨this, -, h⟩ := bind_eq_ok_iff.mp h
      obtain ⟨ahead, -, h⟩ := bind_eq_ok_iff.mp h
      split at h
      · split at h
        · obtain ⟨heap, -, h⟩ := bind_eq_ok_iff.mp h
          cases h
          rfl
        · obtain ⟨heap, -, h⟩ := bind_eq_ok_iff.mp h
          cases h
          rfl
      · exact rmLoop_returns h

theorem cpRmqueue_null {n : Nat} {data : α} {t : LinkedQueue α} (h : s.cpRmqueue n data = .ok (none, t)) :
    s.cpQueueIsEmpty = true := by
  unfold LinkedQueue.cpRmqueue at h
  split at h
  · assumption
  obtain ⟨first, -, h⟩ := bind_eq_ok_iff.mp h
  split at h
  · cases h
  · cases rmLoop_returns h

theorem SameQueue.reached {heap : Heap (QNode α)} (hsize : 0 ≤ size) (hrounds : size ≤ rounds)
    {history : List (QueueOp α)}
    (hrun : exec (LinkedQueue.step rounds) (LinkedQueue.cpQueueInit heap size) history = .ok s) :
    ∃ queue, SameQueue size s queue := by
  have hkeeps : ∀ (s : LinkedQueue α) (op : QueueOp α) (t : LinkedQueue α), True →
      (∃ queue, SameQueue size s queue) → s.step rounds op = .ok t → ∃ queue, SameQueue size t queue := by
    rintro s op t - ⟨queue, h⟩ hstep
    cases hqueue : queue.op op with
    | ok out =>
        obtain ⟨t', ht', hsame⟩ := h.step hrounds (map_eq_ok_iff.mpr ⟨out, hqueue, rfl⟩)
        rw [Except.ok.inj (hstep.symm.trans ht')]
        exact ⟨out.2, hsame⟩
    | error e =>
        have hlength : queue.nodes.length ≤ rounds := by
          have := h.bounded
          have := h.sized
          omega
        rw [LinkedQueue.step, (LinkedQueue.op_refines h.nodes hlength).2 e hqueue] at hstep
        cases hstep
  exact exec_preserves hkeeps ⟨_, SameQueue.init heap hsize⟩ (Along.of_forall (fun _ _ => trivial) history _) hrun

/-- However long it goes on, an absent element is answered with NULL just by the empty
queue; from every other one the search goes on to the NULL behind the last node. -/
theorem rmqueue_absent_iff (heap : Heap (QNode α)) (hsize : 0 ≤ size) (hrounds : size ≤ rounds)
    {history : List (QueueOp α)}
    (hrun : exec (LinkedQueue.step rounds) (LinkedQueue.cpQueueInit heap size) history = .ok s) :
    ∃ list, s.Refines ⟨list, size⟩ ∧ ∀ data, data ∉ list →
      ((∃ n, s.cpRmqueue n data = .ok (none, s)) ↔ s.cpQueueIsEmpty = true) ∧
      (s.cpQueueIsEmpty = false → s.cpRmqueue rounds data = .error (some .null)) := by
  obtain ⟨queue, hnodes, hbounded, rfl⟩ := SameQueue.reached hsize hrounds hrun
  refine ⟨queue.nodes, hnodes, fun data habsent => ⟨⟨fun ⟨n, hn⟩ => cpRmqueue_null hn, fun hempty => ?_⟩, ?_⟩⟩
  · exact ⟨0, if_pos hempty⟩
  · intro hempty
    have hne : ¬ cpQueueIsEmpty queue = true := by
      obtain ⟨addrs, hrep⟩ := hnodes
      simp [← hrep.isEmpty, hempty]
    have hrm : cpRmqueue queue data = .error .null := by rw [cpRmqueue, if_neg hne, if_neg habsent]
    exact (LinkedQueue.cpRmqueue_refines hnodes data (by omega)).2 _ hrm

private def emptyHeap : Heap (QNode Nat) := ⟨∅, fun _ => ⟨0, none⟩⟩

theorem linkedQueue_fifo_three : ∃ s queue,
    exec (LinkedQueue.step 3) (LinkedQueue.cpQueueInit emptyHeap 3)
      [.enqueue 7 (some 1), .enqueue 8 (some 2), .enqueue 9 none, .enqueue 9 (some 2), .rmqueue 8, .dequeue] = .ok s ∧
    exec CpQueue.step (cpQueueInit 3)
      [.enqueue 7 (some 1), .enqueue 8 (some 2), .enqueue 9 none, .enqueue 9 (some 2), .rmqueue 8, .dequeue] =
        .ok queue ∧ FifoState 3 3 s queue.nodes :=
  linkedQueue_fifo emptyHeap (by decide) (by decide) _ (by decide)

/-- Without memory for the node NULL is returned while there is room. -/
theorem enqueue_refused_with_room : ¬ ∀ (s : LinkedQueue Nat) (list : List Nat) (size : Int),
    s.Refines ⟨list, size⟩ → (list.length : Int) < size → ∀ data node t rv,
      s.cpEnqueue data node = .ok (rv, t) → rv = some data := by
  intro h
  have hrv := h (LinkedQueue.cpQueueInit emptyHeap 1) [] 1 ⟨[], LinkedQueue.represents_init emptyHeap 1⟩
    (by decide) 7 none _ none rfl
  cases hrv

private def oneQueued : LinkedQueue Nat := ⟨emptyHeap.malloc 1 ⟨7, none⟩, some 1, some 1, 1, 3⟩

theorem rmqueue_absent_iff_one : ∃ list, oneQueued.Refines ⟨list, 3⟩ ∧ ∀ data, data ∉ list →
    ((∃ n, oneQueued.cpRmqueue n data = .ok (none, oneQueued)) ↔ oneQueued.cpQueueIsEmpty = true) ∧
    (oneQueued.cpQueueIsEmpty = false → oneQueued.cpRmqueue 3 data = .error (some .null)) :=
  @rmqueue_absent_iff Nat _ oneQueued 3 3 emptyHeap (by decide) (by decide) [.enqueue 7 (some 1)] rfl

/-- The loop does not come back when it is asked to remove 8. -/
theorem rmqueue_follows_null :
    exec (LinkedQueue.step 3) (LinkedQueue.cpQueueInit emptyHeap 3) [.enqueue 7 (some 1)] = .ok oneQueued ∧
      oneQueued.Refines ⟨[7], 3⟩ ∧ 8 ∉ [7] ∧ ¬ ∃ n, oneQueued.cpRmqueue n 8 = .ok (none, oneQueued) := by
  refine ⟨rfl, ⟨[1], ?_⟩, by decide, fun ⟨_, hn⟩ => absurd (cpRmqueue_null hn) (by decide)⟩
  exact ⟨⟨rfl, by decide, rfl⟩, by decide, rfl, by simp [oneQueued], rfl, rfl⟩

end History

end Fl2440.CpLibrary
