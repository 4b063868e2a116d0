import Fl2440.CpLibrary.CpRingbuf

/-! `circ_buf.c`: the same queue with the macros of the kernel, in a ring of 32 bytes. -/
namespace Fl2440.Apue

open Fl2440.Lib Fl2440.CpLibrary

structure CircBuf where
  buf : Mem
  head : Nat
  tail : Nat

def CIRC_BUF_SIZE : Nat := 32

def circCnt (head tail : Nat) : Nat :=
  ((BitVec.ofNat 32 head - BitVec.ofNat 32 tail) &&& (BitVec.ofNat 32 CIRC_BUF_SIZE - 1)).toNat

def circSpace (head tail : Nat) : Nat := circCnt tail (head + 1)

def circCntToEnd (head tail : Nat) : Nat :=
  let stop := CIRC_BUF_SIZE - tail
  let n := (head + stop) &&& (CIRC_BUF_SIZE - 1)
  if n < stop then n else stop

def circSpaceToEnd (head tail : Nat) : Nat :=
  let stop := CIRC_BUF_SIZE - 1 - head
  let n := (stop + tail) &&& (CIRC_BUF_SIZE - 1)
  if n ≤ stop then n else stop + 1

/-- `produce_item` of all of `data` -/
def produceItem (ring : CircBuf) (data : List Byte) : Nat × CircBuf :=
  let size := circSpace ring.head ring.tail
  if size ≥ 1 then
    let len := if data.length ≤ size then data.length else size
    let toEndSpace := circSpaceToEnd ring.head ring.tail
    if len > toEndSpace then
      let buf := ring.buf.blit ring.head (data.take toEndSpace)
      let head := (ring.head + toEndSpace) &&& (CIRC_BUF_SIZE - 1)
      let left := len - toEndSpace
      (len, { ring with
        buf := buf.blit head ((data.drop toEndSpace).take left), head := (head + left) &&& (CIRC_BUF_SIZE - 1) })
    else (len, { ring with
      buf := ring.buf.blit ring.head (data.take len), head := (ring.head + len) &&& (CIRC_BUF_SIZE - 1) })
  else (0, ring)

def consumeItem (ring : CircBuf) (count : Nat) : (Nat × List Byte) × CircBuf :=
  let size := circCnt ring.head ring.tail
  if size ≥ 1 then
    let len := if count ≤ size then count else size
    let toEndSpace := circCntToEnd ring.head ring.tail
    if len > toEndSpace then
      let first := ring.buf.bytes ring.tail toEndSpace
      let tail := (ring.tail + toEndSpace) &&& (CIRC_BUF_SIZE - 1)
      let left := len - toEndSpace
      ((len, first ++ ring.buf.bytes tail left), { ring with tail := (tail + left) &&& (CIRC_BUF_SIZE - 1) })
    else ((len, ring.buf.bytes ring.tail len), { ring with tail := (ring.tail + len) &&& (CIRC_BUF_SIZE - 1) })
  else ((0, []), ring)

inductive CircOp where
  | produce (data : List Byte)
  | consume (count : Nat)

def CircBuf.step (ring : CircBuf) : CircOp → RingAnswer × CircBuf
  | .produce data => let (n, ring) := produceItem ring data; (.count n, ring)
  | .consume count => let ((n, buf), ring) := consumeItem ring count; (.bytes n buf, ring)

def CircOp.toRing : CircOp → RingOp
  | .produce data => .write data
  | .consume count => .read count

structure CircBuf.Refines (ring : CircBuf) (q : Fifo Byte) : Prop where
  holds : Cyclic.Holds ring.buf CIRC_BUF_SIZE ring.tail ring.head q.items
  capacity : q.capacity = CIRC_BUF_SIZE - 1
  head : ring.head < CIRC_BUF_SIZE
  tail : ring.tail < CIRC_BUF_SIZE

namespace CircBuf.Refines

variable {ring : CircBuf} {q : Fifo Byte}

theorem cnt (h : ring.Refines q) : circCnt ring.head ring.tail = q.items.length :=
  Cyclic.masked_distance (b := 5) (by decide) h.holds.room h.holds.head

theorem space (h : ring.Refines q) : circSpace ring.head ring.tail = q.capacity - q.items.length := by
  have hroom := h.holds.room
  have hhead := h.holds.head
  have hcapacity := h.capacity
  unfold CIRC_BUF_SIZE at hroom hhead hcapacity
  refine Cyclic.masked_distance (b := 5) (by decide) (by omega) ?_
  omega

theorem mask (n : Nat) : n &&& (CIRC_BUF_SIZE - 1) = n % CIRC_BUF_SIZE := Nat.and_two_pow_sub_one_eq_mod n 5

theorem spaceToEnd (h : ring.Refines q) : circSpaceToEnd ring.head ring.tail ≤ CIRC_BUF_SIZE - ring.head ∧
    (circSpaceToEnd ring.head ring.tail = q.capacity - q.items.length ∨
      circSpaceToEnd ring.head ring.tail = CIRC_BUF_SIZE - ring.head) := by
  have hroom := h.holds.room
  have hhead := h.holds.head
  have hcapacity := h.capacity
  have hlt := h.head
  have htail := h.tail
  unfold circSpaceToEnd
  simp only [mask]
  unfold CIRC_BUF_SIZE at *
  split_ifs <;> omega

theorem cntToEnd (h : ring.Refines q) : circCntToEnd ring.head ring.tail ≤ CIRC_BUF_SIZE - ring.tail ∧
    (circCntToEnd ring.head ring.tail = q.items.length ∨
      circCntToEnd ring.head ring.tail = CIRC_BUF_SIZE - ring.tail) := by
  have hroom := h.holds.room
  have hhead := h.holds.head
  have hlt := h.head
  have htail := h.tail
  unfold circCntToEnd
  simp only [mask]
  unfold CIRC_BUF_SIZE at *
  split_ifs <;> omega

theorem produce (h : ring.Refines q) (data : List Byte) :
    (produceItem ring data).1 = (q.put data).1 ∧ (produceItem ring data).2.Refines (q.put data).2 := by
  obtain ⟨hend, hpiece⟩ := h.spaceToEnd
  have hhead := h.head
  have hcapacity := h.capacity
  have hroom := h.holds.room
  unfold produceItem Fifo.put
  rw [h.space]
  dsimp only
  generalize hfree : q.capacity - q.items.length = free at hpiece
  by_cases hfull : free ≥ 1
  · have hlen : (if data.length ≤ free then data.length else free) = (data.take free).length := by
      rw [List.length_take]
      split_ifs <;> omega
    have hput : q.items.length + (data.take free).length < CIRC_BUF_SIZE := by
      rw [List.length_take]
      unfold CIRC_BUF_SIZE at *
      omega
    rw [if_pos hfull, hlen]
    split_ifs with hwrap
    · have hstop : circSpaceToEnd ring.head ring.tail = CIRC_BUF_SIZE - ring.head := by
        rw [List.length_take] at hwrap
        omega
      have hfirst : data.take (CIRC_BUF_SIZE - ring.head) = (data.take free).take (CIRC_BUF_SIZE - ring.head) := by
        rw [List.take_take, Nat.min_eq_left]
        rw [List.length_take] at hwrap
        omega
      have hsecond : (data.drop (CIRC_BUF_SIZE - ring.head)).take ((data.take free).length - (CIRC_BUF_SIZE - ring.head)) =
          (data.take free).drop (CIRC_BUF_SIZE - ring.head) := by
        rw [List.drop_take, List.take_eq_take_iff, List.length_drop, List.length_take]
        omega
      have hzero : (ring.head + (CIRC_BUF_SIZE - ring.head)) % CIRC_BUF_SIZE = 0 := by
        rw [Nat.add_sub_cancel' hhead.le, Nat.mod_self]
      rw [hstop] at hwrap ⊢
      rw [mask, mask, hzero, hfirst, hsecond]
      generalize data.take free = data at hput hwrap
      have hnew : (0 + (data.length - (CIRC_BUF_SIZE - ring.head))) % CIRC_BUF_SIZE =
          (ring.head + data.length) % CIRC_BUF_SIZE := by
        rw [← Nat.add_mod_right]
        congr 1
        omega
      refine ⟨rfl, h.holds.put (stored_blit_blit hhead.le (by omega) (by omega)) hput ?_, h.capacity, Nat.mod_lt _ (by decide),
        h.tail⟩
      rw [Nat.mod_mod, hnew]
    · have hall : data.take (data.take free).length = data.take free := by
        rw [List.length_take, List.take_eq_take_iff]
        omega
      rw [hall, mask]
      refine ⟨rfl, h.holds.put (stored_blit (by omega)) hput (Nat.mod_mod _ _), h.capacity, Nat.mod_lt _ (by decide), h.tail⟩
  · have hzero : free = 0 := by omega
    rw [if_neg hfull, hzero, List.take_zero, List.append_nil]
    exact ⟨rfl, h⟩

theorem consume (h : ring.Refines q) (count : Nat) :
    (consumeItem ring count).1 = ((q.get count).1.length, (q.get count).1) ∧
      (consumeItem ring count).2.Refines (q.get count).2 := by
  obtain ⟨hend, hpiece⟩ := h.cntToEnd
  have htail := h.tail
  have hroom := h.holds.room
  unfold consumeItem Fifo.get
  rw [h.cnt]
  dsimp only
  by_cases hsome : q.items.length ≥ 1
  · have hlen : (if count ≤ q.items.length then count else q.items.length) = min count q.items.length := by
      split_ifs <;> omega
    rw [if_pos hsome, hlen, List.length_take, List.take_eq_take_min (i := count), List.drop_eq_drop_min (i := count)]
    have hle : min count q.items.length ≤ q.items.length := Nat.min_le_right _ _
    generalize min count q.items.length = len at hle
    have hwindow := h.holds.take hle
    split_ifs with hwrap
    · have hstop : circCntToEnd ring.head ring.tail = CIRC_BUF_SIZE - ring.tail := by omega
      have hzero : (ring.tail + (CIRC_BUF_SIZE - ring.tail)) % CIRC_BUF_SIZE = 0 := by
        rw [Nat.add_sub_cancel' htail.le, Nat.mod_self]
      have hnew : (0 + (len - (CIRC_BUF_SIZE - ring.tail))) % CIRC_BUF_SIZE = (ring.tail + len) % CIRC_BUF_SIZE := by
        rw [← Nat.add_mod_right]
        congr 1
        omega
      rw [hstop, mask, mask, hzero, bytes_append_window htail.le (by omega) (by omega), hwindow]
      exact ⟨rfl, h.holds.get hle (by rw [Nat.mod_mod, hnew]), h.capacity, h.head, Nat.mod_lt _ (by decide)⟩
    · have hfit : ring.tail + len ≤ CIRC_BUF_SIZE := by omega
      rw [mask, bytes_window hfit, hwindow]
      exact ⟨rfl, h.holds.get hle (Nat.mod_mod _ _), h.capacity, h.head, Nat.mod_lt _ (by decide)⟩
  · have hnil : q.items = [] := List.length_eq_zero_iff.mp (by omega)
    have hnone : q.items.take count = [] := by rw [hnil, List.take_nil]
    have hrest : q.items.drop count = q.items := by rw [hnil, List.drop_nil]
    rw [if_neg hsome, hnone, hrest]
    exact ⟨rfl, h⟩

theorem step (h : ring.Refines q) (op : CircOp) :
    (ring.step op).1 = (fifoStep q op.toRing).1 ∧ (ring.step op).2.Refines (fifoStep q op.toRing).2 := by
  cases op with
  | produce data => exact ⟨congrArg RingAnswer.count (h.produce data).1, (h.produce data).2⟩
  | consume count =>
      obtain ⟨hret, hrefines⟩ := h.consume count
      exact ⟨congrArg (fun r : Nat × List Byte => RingAnswer.bytes r.1 r.2) hret, hrefines⟩

end CircBuf.Refines

/-- A ring of 32 bytes answers like a queue of 31, from wherever it starts empty. -/
theorem circBuf_fifo (buf : Mem) (at' : Fin 32) (ops : List CircOp) :
    answers CircBuf.step ⟨buf, at', at'⟩ ops = answers fifoStep ⟨31, []⟩ (ops.map CircOp.toRing) := by
  have hstart : CircBuf.Refines ⟨buf, at', at'⟩ ⟨31, []⟩ := ⟨Cyclic.holds_nil _ (by decide) _, rfl, at'.isLt, at'.isLt⟩
  generalize (⟨buf, at', at'⟩ : CircBuf) = ring at hstart
  generalize (⟨31, []⟩ : Fifo Byte) = q at hstart
  induction ops generalizing ring q with
  | nil => rfl
  | cons op ops ih =>
      obtain ⟨hanswer, hrefines⟩ := hstart.step op
      rw [List.map_cons, answers, answers, hanswer, ih _ _ hrefines]

end Fl2440.Apue
