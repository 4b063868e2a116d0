import Mathlib.Data.Nat.Bitwise
import Mathlib.Data.Nat.Find
import Fl2440.Lib.Ring

/-! `cp_ringbuf.c`: bytes in a ring, one cell of which is always free. -/
namespace Fl2440.CpLibrary

open Fl2440.Lib

structure RingBuffer where
  buffer : Mem
  wrPointer : Nat
  rdPointer : Nat
  size : Nat

def rbInit (buff : Mem) (size : Nat) : RingBuffer := ⟨buff, 0, 0, size⟩

/-- The difference may be negative: it is that of two `int`. -/
def rbDataSize (rb : RingBuffer) : Nat :=
  ((BitVec.ofNat 32 rb.wrPointer - BitVec.ofNat 32 rb.rdPointer) &&& (BitVec.ofNat 32 rb.size - 1)).toNat

def rbFreeSize (rb : RingBuffer) : Nat := rb.size - 1 - rbDataSize rb

def rbWrite (rb : RingBuffer) (buf : List Byte) : Nat × RingBuffer :=
  let total := min buf.length (rbFreeSize rb)
  let buf := buf.take total
  let i := rb.wrPointer
  if i + buf.length > rb.size then
    let buffer := rb.buffer.blit i (buf.take (rb.size - i))
    let buf := buf.drop (rb.size - i)
    (total, { rb with buffer := buffer.blit 0 buf, wrPointer := 0 + buf.length })
  else (total, { rb with buffer := rb.buffer.blit i buf, wrPointer := i + buf.length })

def rbRead (rb : RingBuffer) (max : Nat) : (Nat × List Byte) × RingBuffer :=
  let total := min max (rbDataSize rb)
  let i := rb.rdPointer
  if i + total > rb.size then
    let rest := total - (rb.size - i)
    ((total, rb.buffer.bytes i (rb.size - i) ++ rb.buffer.bytes 0 rest), { rb with rdPointer := 0 + rest })
  else ((total, rb.buffer.bytes i total), { rb with rdPointer := i + total })

def rbClear (rb : RingBuffer) : RingBuffer :=
  { rb with buffer := rb.buffer.blit 0 (List.replicate rb.size 0), rdPointer := 0, wrPointer := 0 }

/-- `rb_peek`; `none` where the assertion fails. -/
def rbPeek (rb : RingBuffer) (index : Nat) : Option Byte :=
  if index < rbDataSize rb then some (rb.buffer ((rb.rdPointer + index) % rb.size)) else none

inductive RingOp where
  | write (buf : List Byte)
  | read (max : Nat)
  | peek (index : Nat)
  | dataSize
  | freeSize
  | clear

inductive RingAnswer where
  | count (n : Nat)
  | bytes (n : Nat) (buf : List Byte)
  | byte (b : Option Byte)
  | done

def RingBuffer.step (rb : RingBuffer) : RingOp → RingAnswer × RingBuffer
  | .write buf => let (n, rb) := rbWrite rb buf; (.count n, rb)
  | .read max => let ((n, buf), rb) := rbRead rb max; (.bytes n buf, rb)
  | .peek index => (.byte (rbPeek rb index), rb)
  | .dataSize => (.count (rbDataSize rb), rb)
  | .freeSize => (.count (rbFreeSize rb), rb)
  | .clear => (.done, rbClear rb)

def fifoStep (q : Fifo Byte) : RingOp → RingAnswer × Fifo Byte
  | .write buf => let (n, q) := q.put buf; (.count n, q)
  | .read max => let (buf, q) := q.get max; (.bytes buf.length buf, q)
  | .peek index => (.byte q.items[index]?, q)
  | .dataSize => (.count q.items.length, q)
  | .freeSize => (.count (q.capacity - q.items.length), q)
  | .clear => (.done, { q with items := [] })

def answers {σ ι ο : Type} (step : σ → ι → ο × σ) (s : σ) : List ι → List ο
  | [] => []
  | op :: ops => (step s op).1 :: answers step (step s op).2 ops

structure RingBuffer.Refines (rb : RingBuffer) (q : Fifo Byte) : Prop where
  holds : Cyclic.Holds rb.buffer rb.size rb.rdPointer rb.wrPointer q.items
  capacity : q.capacity = rb.size - 1
  wr : rb.wrPointer ≤ rb.size
  rd : rb.rdPointer ≤ rb.size
  pow : ∃ b < 32, rb.size = 2 ^ b

namespace RingBuffer.Refines

variable {rb : RingBuffer} {q : Fifo Byte}

theorem dataSize (h : rb.Refines q) : rbDataSize rb = q.items.length := by
  obtain ⟨b, hb, hpow⟩ := h.pow
  have hroom := h.holds.room
  have hhead := h.holds.head
  rw [hpow] at hroom hhead
  rw [rbDataSize, hpow, Cyclic.masked_distance hb hroom hhead]

theorem freeSize (h : rb.Refines q) : rbFreeSize rb = q.capacity - q.items.length := by
  rw [rbFreeSize, h.dataSize, h.capacity]

theorem write (h : rb.Refines q) (buf : List Byte) :
    (rbWrite rb buf).1 = (q.put buf).1 ∧ (rbWrite rb buf).2.Refines (q.put buf).2 := by
  have hroom := h.holds.room
  have hwr := h.wr
  have htake : buf.take (min buf.length (rbFreeSize rb)) = buf.take (q.capacity - q.items.length) := by
    rw [h.freeSize, List.take_eq_take_iff]
    omega
  have hcount : min buf.length (rbFreeSize rb) = (buf.take (q.capacity - q.items.length)).length := by
    rw [← htake, List.length_take]
    omega
  have hcapacity := h.capacity
  have hlength : q.items.length + (buf.take (q.capacity - q.items.length)).length < rb.size := by
    rw [List.length_take]
    omega
  unfold rbWrite Fifo.put
  dsimp only
  rw [htake, hcount]
  generalize buf.take (q.capacity - q.items.length) = data at hlength
  split_ifs with hend
  · have hrest : 0 + (data.drop (rb.size - rb.wrPointer)).length + rb.size = rb.wrPointer + data.length := by
      rw [List.length_drop]
      omega
    have hmod : (0 + (data.drop (rb.size - rb.wrPointer)).length) % rb.size = (rb.wrPointer + data.length) % rb.size := by
      rw [← hrest, Nat.add_mod_right]
    exact ⟨rfl, h.holds.put (stored_blit_blit hwr hend.le (by omega)) hlength hmod, h.capacity, by dsimp only; omega, h.rd, h.pow⟩
  · have hfit := Nat.le_of_not_lt hend
    exact ⟨rfl, h.holds.put (stored_blit hfit) hlength rfl, h.capacity, hfit, h.rd, h.pow⟩

theorem read (h : rb.Refines q) (max : Nat) :
    (rbRead rb max).1 = ((q.get max).1.length, (q.get max).1) ∧ (rbRead rb max).2.Refines (q.get max).2 := by
  have hroom := h.holds.room
  have hrd := h.rd
  have htotal : min max (rbDataSize rb) ≤ q.items.length := by
    rw [h.dataSize]
    omega
  have htake : q.items.take max = q.items.take (min max (rbDataSize rb)) := by
    rw [h.dataSize]
    exact List.take_eq_take_min
  have hdrop : q.items.drop max = q.items.drop (min max (rbDataSize rb)) := by
    rw [h.dataSize]
    exact List.drop_eq_drop_min
  have hwindow := h.holds.take htotal
  unfold rbRead Fifo.get
  dsimp only
  rw [htake, hdrop, List.length_take, Nat.min_eq_left htotal]
  generalize min max (rbDataSize rb) = total at htotal hwindow
  split_ifs with hend
  · have hrest : 0 + (total - (rb.size - rb.rdPointer)) + rb.size = rb.rdPointer + total := by omega
    have hmod : (0 + (total - (rb.size - rb.rdPointer))) % rb.size = (rb.rdPointer + total) % rb.size := by
      rw [← hrest, Nat.add_mod_right]
    refine ⟨?_, h.holds.get htotal hmod, h.capacity, h.wr, by dsimp only; omega, h.pow⟩
    rw [bytes_append_window hrd hend.le (by omega), hwindow]
  · have hfit := Nat.le_of_not_lt hend
    refine ⟨?_, h.holds.get htotal rfl, h.capacity, h.wr, hfit, h.pow⟩
    rw [bytes_window hfit, hwindow]

theorem peek (h : rb.Refines q) (index : Nat) : rbPeek rb index = q.items[index]? := by
  rw [rbPeek, h.dataSize]
  split_ifs with hindex
  · rw [h.holds.getElem hindex, List.getElem?_eq_getElem hindex]
  · rw [List.getElem?_eq_none (Nat.le_of_not_lt hindex)]

theorem clear (h : rb.Refines q) : (rbClear rb).Refines { q with items := [] } :=
  ⟨Cyclic.holds_nil _ (Nat.zero_lt_of_lt h.holds.room) 0, h.capacity, Nat.zero_le _, Nat.zero_le _, h.pow⟩

theorem step (h : rb.Refines q) (op : RingOp) :
    (rb.step op).1 = (fifoStep q op).1 ∧ (rb.step op).2.Refines (fifoStep q op).2 := by
  cases op with
  | write buf => exact ⟨congrArg RingAnswer.count (h.write buf).1, (h.write buf).2⟩
  | read max =>
      obtain ⟨hret, hrefines⟩ := h.read max
      exact ⟨congrArg (fun r : Nat × List Byte => RingAnswer.bytes r.1 r.2) hret, hrefines⟩
  | peek index => exact ⟨congrArg RingAnswer.byte (h.peek index), h⟩
  | dataSize => exact ⟨congrArg RingAnswer.count h.dataSize, h⟩
  | freeSize => exact ⟨congrArg RingAnswer.count h.freeSize, h⟩
  | clear => exact ⟨rfl, h.clear⟩

theorem answers (h : rb.Refines q) (ops : List RingOp) : answers RingBuffer.step rb ops = answers fifoStep q ops := by
  induction ops generalizing rb q with
  | nil => rfl
  | cons op ops ih =>
      obtain ⟨hanswer, hrefines⟩ := h.step op
      rw [CpLibrary.answers, CpLibrary.answers, hanswer, ih hrefines]

end RingBuffer.Refines

theorem rbInit_refines (buff : Mem) {b : Nat} (hb : b < 32) : (rbInit buff (2 ^ b)).Refines ⟨2 ^ b - 1, []⟩ :=
  ⟨Cyclic.holds_nil _ (Nat.two_pow_pos b) 0, rfl, Nat.zero_le _, Nat.zero_le _, b, hb, rfl⟩

theorem mod_of_testBit {s b : Nat} (h : ∀ i < b, s.testBit i = true) : s % 2 ^ b = 2 ^ b - 1 := by
  apply Nat.eq_of_testBit_eq
  intro i
  rw [Nat.testBit_mod_two_pow, Nat.testBit_two_pow_sub_one]
  by_cases hi : i < b
  · simp [hi, h i hi]
  · simp [hi]

theorem exists_clear_bit {size : Nat} (hpos : 0 < size) (h : ∀ b, size ≠ 2 ^ b) :
    ∃ b, 2 ^ b < size - 1 ∧ (size - 1).testBit b = false := by
  have hsome : ∃ b, (size - 1).testBit b = false := ⟨size - 1, Nat.testBit_lt_two_pow Nat.lt_two_pow_self⟩
  refine ⟨Nat.find hsome, ?_, Nat.find_spec hsome⟩
  have hclear := Nat.find_spec hsome
  have hmod := mod_of_testBit fun i hi => Bool.eq_true_of_not_eq_false (Nat.find_min hsome hi)
  generalize Nat.find hsome = b at hclear hmod
  have hpow := Nat.two_pow_pos b
  have hdiv := Nat.mod_add_div (size - 1) (2 ^ b)
  have hself : size - 1 ≠ 2 ^ b := fun heq => by
    rw [heq, Nat.testBit_two_pow_self] at hclear
    cases hclear
  have hquot : (size - 1) / 2 ^ b ≠ 0 := fun hzero => by
    rw [hzero, hmod] at hdiv
    exact h b (by omega)
  have hle : 2 ^ b * 1 ≤ 2 ^ b * ((size - 1) / 2 ^ b) := Nat.mul_le_mul_left _ (Nat.pos_of_ne_zero hquot)
  omega

theorem two_pow_and_eq_zero {n b : Nat} (h : n.testBit b = false) : 2 ^ b &&& n = 0 := by
  apply Nat.eq_of_testBit_eq
  intro i
  rw [Nat.testBit_and, Nat.testBit_two_pow, Nat.zero_testBit]
  by_cases hi : b = i
  · rw [← hi, h, Bool.and_false]
  · rw [decide_eq_false hi, Bool.false_and]

theorem dataSize_hidden {size b : Nat} (buff : Mem) (hsize : size < 2 ^ 31) (hb : 2 ^ b < size - 1)
    (hclear : (size - 1).testBit b = false) (buf : List Byte) (hbuf : buf.length = 2 ^ b) :
    rbDataSize (rbWrite (rbInit buff size) buf).2 = 0 := by
  have hval : ∀ n < 2 ^ 31, (BitVec.ofNat 32 n).toNat = n := fun n hn => by
    rw [BitVec.toNat_ofNat, Nat.mod_eq_of_lt (by omega)]
  have hmask : (BitVec.ofNat 32 size - 1).toNat = size - 1 := by
    have hone : (1 : BitVec 32) ≤ BitVec.ofNat 32 size := by
      rw [BitVec.le_def, hval size hsize]
      exact (by omega : 1 ≤ size)
    rw [BitVec.toNat_sub_of_le hone, hval size hsize]
    rfl
  have hfree : rbFreeSize (rbInit buff size) = size - 1 := by simp [rbFreeSize, rbDataSize, rbInit]
  have hmin : min buf.length (size - 1) = buf.length := by omega
  have hfit : ¬ (rbInit buff size).wrPointer + buf.length > (rbInit buff size).size := by
    simp only [rbInit]
    omega
  have hwritten : (rbWrite (rbInit buff size) buf).2 = ⟨buff.blit 0 buf, 0 + buf.length, 0, size⟩ := by
    unfold rbWrite
    rw [hfree, hmin]
    dsimp only
    rw [List.take_length, if_neg hfit]
    rfl
  rw [hwritten, rbDataSize]
  dsimp only
  rw [BitVec.toNat_and, hmask, BitVec.sub_zero, Nat.zero_add, hval _ (by omega), hbuf, two_pow_and_eq_zero hclear]

/-- The ring answers like a queue of one byte less than its length exactly where that length is a power of two. -/
theorem rbInit_fifo_iff (size : Nat) (hpos : 0 < size) (hsize : size < 2 ^ 31) :
    (∀ buff ops, answers RingBuffer.step (rbInit buff size) ops = answers fifoStep ⟨size - 1, []⟩ ops) ↔
      ∃ b, size = 2 ^ b := by
  constructor
  · intro h
    by_contra hnot
    obtain ⟨b, hlt, hclear⟩ := exists_clear_bit hpos fun b hb => hnot ⟨b, hb⟩
    have hhidden := dataSize_hidden (fun _ => 0) hsize hlt hclear (List.replicate (2 ^ b) 0) List.length_replicate
    have hanswers := h (fun _ => 0) [.write (List.replicate (2 ^ b) 0), .dataSize]
    simp only [answers, RingBuffer.step, fifoStep, hhidden, List.cons.injEq, RingAnswer.count.injEq] at hanswers
    have hpow := Nat.two_pow_pos b
    have hsecond := hanswers.2.1
    simp [Fifo.put] at hsecond
    omega
  · rintro ⟨b, rfl⟩ buff ops
    have hb : b < 31 := (Nat.pow_lt_pow_iff_right (by decide)).mp hsize
    exact (rbInit_refines buff (by omega)).answers ops

theorem rbInit_fifo_thousand : (∀ buff ops, answers RingBuffer.step (rbInit buff 1000) ops = answers fifoStep ⟨999, []⟩ ops) ↔
    ∃ b, 1000 = 2 ^ b := rbInit_fifo_iff 1000 (by decide) (by decide)

end Fl2440.CpLibrary
