import Fl2440.MyBoot.RoundTrip

/-! The XMODEM receiver. It is a machine that is fed one byte at a time; where it
stands between two bytes is the call of `serial_recv_byte` that it waits in. -/
namespace Fl2440.MyBoot

open Fl2440.Lib

namespace Xmodem

def SOH : Byte := 0x01
def EOT : Byte := 0x04
def ACK : Byte := 0x06
def NAK : Byte := 0x15
def CAN : Byte := 0x18
def EOF : Byte := 0x1a

def blockSize : Nat := 128

inductive Point where
  /-- the loop of `xmodem_recv` -/
  | command
  /-- `xmodem_read_block`, byte by byte -/
  | number
  | complement (block_num : Byte)
  | data (i : Nat) (check_sum : Byte)
  | checksum (check_sum : Byte)
  | returned (size : Word)
  /-- the count of padding bytes went past the range of `long` -/
  | overrun
deriving DecidableEq

end Xmodem

open Xmodem

structure Receiver where
  ram : Ram
  buf : Word
  size : Word
  receiving : Nat
  block_number : Byte
  point : Point

namespace Receiver

def start (ram : Ram) (buf : Word) : Receiver := ⟨ram, buf, 0, 0, 1, .command⟩

/-- How many 0x1a bytes stand right before `buf`, counted from `cnt` on. -/
def countEof (ram : Ram) (buf : Word) : Nat → Nat → Option Nat
  | 0, _ => none
  | fuel + 1, cnt =>
      if ram (buf - BitVec.ofNat 32 cnt - 1) = EOF then countEof ram buf fuel (cnt + 1) else some cnt

/-- The padding that is taken off at the end: only if it is three bytes or more. -/
def padding (s : Receiver) : Option Nat :=
  if s.ram (s.buf - 1) = EOF ∧ s.ram (s.buf - 2) = EOF ∧ s.ram (s.buf - 3) = EOF then
    if s.size = 0 then some 0 else countEof s.ram s.buf (2 ^ 31) 0
  else some 0

def finish (s : Receiver) : Point :=
  match s.padding with
  | some cnt => .returned (s.size - BitVec.ofNat 32 cnt)
  | none => .overrun

def reject (s : Receiver) : Receiver × List Byte := ({ s with point := .command }, [NAK])

/-- What the receiver does with a byte, and what it answers. -/
def feed (s : Receiver) (c : Byte) : Receiver × List Byte :=
  match s.point with
  | .command =>
      if c = EOT then ({ s with point := s.finish }, [ACK])
      else if c = CAN then ({ s with point := .returned failure }, [])
      else if c = SOH then ({ s with receiving := s.receiving + 1, point := .number }, [])
      else if s.receiving > 0 then ({ s with point := .returned failure }, [])
      else (s, [])
  | .number => if c ≠ s.block_number then s.reject else ({ s with point := .complement c }, [])
  | .complement block_num =>
      if block_num ^^^ c ≠ 0xff then s.reject else ({ s with point := .data 0 0 }, [])
  | .data i check_sum =>
      ({ s with ram := Function.update s.ram (s.buf + BitVec.ofNat 32 i) c
                point := if i + 1 < blockSize then .data (i + 1) (check_sum + c)
                  else .checksum (check_sum + c) }, [])
  | .checksum check_sum =>
      if check_sum ^^^ c ≠ 0 then s.reject
      else ({ s with block_number := s.block_number + 1
                     size := s.size + BitVec.ofNat 32 blockSize
                     buf := s.buf + BitVec.ofNat 32 blockSize
                     point := .command }, [ACK])
  | .returned _ => (s, [])
  | .overrun => (s, [])

/-- `xmodem_wait` polls often enough without a byte: the receiver asks again. -/
def waits (s : Receiver) : Bool := s.point == .command && s.receiving == 0

def feedAll (s : Receiver) : List Byte → Receiver × List Byte
  | [] => (s, [])
  | c :: input =>
      let (t, answers) := s.feed c
      let (u, later) := feedAll t input
      (u, answers ++ later)

end Receiver

def xmodemRecv (ram : Ram) (buf : Word) (input : List Byte) : Receiver :=
  ((Receiver.start ram buf).feedAll input).1

def Ram.Holds (ram : Ram) (p : Word) (data : List Byte) : Prop :=
  ∀ i (h : i < data.length), ram (p + BitVec.ofNat 32 i) = data[i]

theorem Ram.Holds.append {ram : Ram} {p : Word} {data : List Byte} (h : ram.Holds p data)
    (hlen : data.length < 2 ^ 32) (c : Byte) :
    Ram.Holds (Function.update ram (p + BitVec.ofNat 32 data.length) c) p (data ++ [c]) := by
  intro i hi
  rw [List.length_append, List.length_singleton] at hi
  rcases Nat.lt_or_eq_of_le (Nat.le_of_lt_succ hi) with hlt | rfl
  · rw [Function.update_of_ne, h i hlt, List.getElem_append_left hlt]
    rw [Ne, add_ofNat_inj p (by omega) hlen]
    omega
  · rw [Function.update_self, List.getElem_concat_length rfl]

theorem Ram.Holds.initial {ram : Ram} {p : Word} {data more : List Byte} (h : ram.Holds p (data ++ more)) :
    ram.Holds p data := by
  intro i hi
  rw [h i (by rw [List.length_append]; omega), List.getElem_append_left hi]

theorem Ram.Holds.store {ram : Ram} {p : Word} {data more : List Byte} (h : ram.Holds p data)
    (hlen : data.length + more.length < 2 ^ 32) :
    Ram.Holds (ram.store (p + BitVec.ofNat 32 data.length) more) p (data ++ more) := by
  intro i hi
  rw [List.length_append] at hi
  rcases Nat.lt_or_ge i data.length with hlt | hge
  · rw [Ram.store_other, h i hlt, List.getElem_append_left hlt]
    intro j hj
    rw [BitVec.add_assoc, ← BitVec.ofNat_add, Ne, add_ofNat_inj p (by omega) (by omega)]
    omega
  · obtain ⟨j, rfl⟩ := Nat.exists_eq_add_of_le hge
    rw [BitVec.ofNat_add, ← BitVec.add_assoc, Ram.store_inside (by omega) (by omega),
      List.getElem_append_right hge]
    simp

namespace Receiver

def Pending (s : Receiver) (pending : List Byte) : Prop :=
  match s.point with
  | .data i _ => pending.length = i ∧ i < blockSize
  | .checksum _ => pending.length = blockSize
  | _ => pending = []

/-- Up to now the receiver has stored `payload` from `base` on, out of the bytes
that came in, and `pending` behind it. -/
structure Storing (base : Word) (input payload pending : List Byte) (s : Receiver) : Prop where
  buf : s.buf = base + BitVec.ofNat 32 payload.length
  size : s.size = BitVec.ofNat 32 payload.length
  received : (payload ++ pending).Sublist input
  holds : input.length ≤ 2 ^ 32 → s.ram.Holds base (payload ++ pending)
  pending : s.Pending pending

theorem storing_start (ram : Ram) (base : Word) : Storing base [] [] [] (start ram base) where
  buf := (add_ofNat_zero base).symm
  size := rfl
  received := List.Sublist.refl []
  holds := fun _ i hi => absurd hi (Nat.not_lt_zero i)
  pending := rfl

variable {base : Word} {input payload pending : List Byte} {s : Receiver}

theorem Storing.drop (h : Storing base input payload pending s) (c : Byte) {point : Point} {n : Nat}
    (hpoint : ({ s with receiving := n, point := point } : Receiver).Pending []) :
    Storing base (input ++ [c]) payload [] { s with receiving := n, point := point } where
  buf := h.buf
  size := h.size
  received := by
    rw [List.append_nil]
    exact ((List.sublist_append_left payload pending).trans h.received).trans
      (List.sublist_append_left input [c])
  holds := fun hlen => by
    rw [List.append_nil]
    refine (h.holds ?_).initial
    rw [List.length_append] at hlen
    omega
  pending := hpoint

theorem pending_finish (s : Receiver) (n : Nat) :
    ({ s with receiving := n, point := s.finish } : Receiver).Pending [] := by
  rw [finish]
  cases s.padding <;> rfl

theorem Storing.feed_data (h : Storing base input payload pending s) {i : Nat} {check_sum : Byte}
    (hpoint : s.point = .data i check_sum) (c : Byte) :
    Storing base (input ++ [c]) payload (pending ++ [c]) (s.feed c).1 := by
  obtain ⟨hlen, hi⟩ : pending.length = i ∧ i < blockSize := by
    have := h.pending
    rwa [Pending, hpoint] at this
  have hfeed : (s.feed c).1 = { s with
      ram := Function.update s.ram (s.buf + BitVec.ofNat 32 i) c
      point := if i + 1 < blockSize then .data (i + 1) (check_sum + c) else .checksum (check_sum + c) } := by
    rw [Receiver.feed, hpoint]
  rw [hfeed]
  refine ⟨h.buf, h.size, ?_, ?_, ?_⟩
  · rw [← List.append_assoc]
    exact h.received.append (List.Sublist.refl [c])
  · intro hinput
    rw [List.length_append, List.length_singleton] at hinput
    have hall := h.received.length_le
    have happend := (h.holds (by omega)).append (by omega) c
    rwa [List.length_append, hlen, BitVec.ofNat_add, ← BitVec.add_assoc, ← h.buf, List.append_assoc]
      at happend
  · rw [Pending]
    rcases Nat.lt_or_ge (i + 1) blockSize with hlt | hge
    · rw [if_pos hlt]
      exact ⟨by simp [hlen], hlt⟩
    · rw [if_neg (Nat.not_lt.mpr hge)]
      show (pending ++ [c]).length = blockSize
      rw [List.length_append, hlen]
      exact Nat.le_antisymm hi hge

theorem Storing.accept (h : Storing base input payload pending s) {check_sum : Byte}
    (hpoint : s.point = .checksum check_sum) (c : Byte) :
    Storing base (input ++ [c]) (payload ++ pending) []
      { s with block_number := s.block_number + 1
               size := s.size + BitVec.ofNat 32 blockSize
               buf := s.buf + BitVec.ofNat 32 blockSize
               point := .command } := by
  have hlen : pending.length = blockSize := by
    have := h.pending
    rwa [Pending, hpoint] at this
  refine ⟨?_, ?_, ?_, ?_, rfl⟩
  · rw [List.length_append, hlen, BitVec.ofNat_add, ← BitVec.add_assoc, ← h.buf]
  · rw [List.length_append, hlen, BitVec.ofNat_add, ← h.size]
  · rw [List.append_nil]
    exact h.received.trans (List.sublist_append_left input [c])
  · intro hinput
    rw [List.append_nil]
    rw [List.length_append] at hinput
    exact h.holds (by omega)

theorem Storing.feed (h : Storing base input payload pending s) (c : Byte) :
    ∃ payload pending, Storing base (input ++ [c]) payload pending (s.feed c).1 := by
  have hstay : Storing base (input ++ [c]) payload [] { s with receiving := s.receiving, point := .command } :=
    h.drop c rfl
  have hsame : ∀ {point : Point}, s.point = point → ({ s with receiving := s.receiving, point := point } : Receiver) = s := by
    rintro _ rfl
    rfl
  cases hpoint : s.point with
  | data i check_sum => exact ⟨_, _, h.feed_data hpoint c⟩
  | command =>
      rw [Receiver.feed, hpoint]
      refine ⟨payload, [], ?_⟩
      dsimp only
      split_ifs
      · exact h.drop c (pending_finish s s.receiving)
      · exact h.drop c rfl
      · exact h.drop c rfl
      · exact h.drop c rfl
      · exact hsame hpoint ▸ hstay
  | number =>
      rw [Receiver.feed, hpoint]
      refine ⟨payload, [], ?_⟩
      dsimp only
      split
      · exact hstay
      · exact h.drop c rfl
  | complement block_num =>
      rw [Receiver.feed, hpoint]
      refine ⟨payload, [], ?_⟩
      dsimp only
      split
      · exact hstay
      · exact h.drop c ⟨rfl, by decide⟩
  | checksum check_sum =>
      rw [Receiver.feed, hpoint]
      dsimp only
      split
      · exact ⟨payload, [], hstay⟩
      · exact ⟨_, _, h.accept hpoint c⟩
  | returned size =>
      rw [Receiver.feed, hpoint]
      exact ⟨payload, [], hsame hpoint ▸ h.drop c rfl⟩
  | overrun =>
      rw [Receiver.feed, hpoint]
      exact ⟨payload, [], hsame hpoint ▸ h.drop c rfl⟩

theorem Storing.feedAll (h : Storing base input payload pending s) (more : List Byte) :
    ∃ payload pending, Storing base (input ++ more) payload pending (s.feedAll more).1 := by
  induction more generalizing input payload pending s with
  | nil => exact ⟨payload, pending, by rwa [List.append_nil]⟩
  | cons c more ih =>
      obtain ⟨payload', pending', h'⟩ := h.feed c
      rw [List.append_cons]
      exact ih h'

theorem storing_xmodemRecv (ram : Ram) (base : Word) (input : List Byte) :
    ∃ payload pending, Storing base input payload pending (xmodemRecv ram base input) :=
  (storing_start ram base).feedAll input

/-! What is returned -/

theorem countEof_eq {ram : Ram} {buf : Word} {fuel cnt k : Nat} (h : countEof ram buf fuel cnt = some k) :
    cnt ≤ k ∧ k < cnt + fuel ∧ ∀ i, cnt ≤ i → i < k → ram (buf - BitVec.ofNat 32 i - 1) = EOF := by
  induction fuel generalizing cnt with
  | zero => cases h
  | succ fuel ih =>
      rw [countEof] at h
      split at h
      next heof =>
        obtain ⟨hle, hlt, hall⟩ := ih h
        refine ⟨by omega, by omega, fun i hi hk => ?_⟩
        rcases Nat.eq_or_lt_of_le hi with rfl | hi
        · exact heof
        · exact hall i hi hk
      next =>
        cases h
        exact ⟨le_rfl, by omega, fun i hi hk => by omega⟩

theorem padding_eq {cnt : Nat} (h : s.padding = some cnt) :
    cnt < 2 ^ 31 ∧ ∀ i < cnt, s.ram (s.buf - BitVec.ofNat 32 i - 1) = EOF := by
  have hzero : 0 < 2 ^ 31 ∧ ∀ i < 0, s.ram (s.buf - BitVec.ofNat 32 i - 1) = EOF :=
    ⟨by decide, fun i hi => by omega⟩
  rw [padding] at h
  split_ifs at h
  · cases h
    exact hzero
  · obtain ⟨-, hlt, hall⟩ := countEof_eq h
    exact ⟨by omega, fun i hi => hall i (Nat.zero_le i) hi⟩
  · cases h
    exact hzero

/-- A value is returned for a protocol error, or is the size less the padding. -/
def Returns (s : Receiver) : Prop :=
  ∀ n, s.point = .returned n → n = failure ∨ ∃ cnt, s.padding = some cnt ∧ n = s.size - BitVec.ofNat 32 cnt

theorem returns_finish (s : Receiver) : Returns { s with point := s.finish } := by
  intro n hn
  have hfinish : s.finish = .returned n := hn
  rw [finish] at hfinish
  split at hfinish
  next cnt hcnt => exact .inr ⟨cnt, hcnt, (Point.returned.inj hfinish).symm⟩
  next => cases hfinish

theorem Returns.feed (h : Returns s) (c : Byte) : Returns (s.feed c).1 := by
  have hother : ∀ {t : Receiver}, (∀ n, t.point = .returned n → n = failure) → Returns t :=
    fun ht n hn => .inl (ht n hn)
  rw [Receiver.feed]
  split
  case h_1 =>
    split_ifs
    · exact returns_finish s
    · exact hother fun n hn => (Point.returned.inj hn).symm
    · exact hother fun n hn => nomatch hn
    · exact hother fun n hn => (Point.returned.inj hn).symm
    · exact h
  case h_2 => split <;> exact hother fun n hn => nomatch hn
  case h_3 => split <;> exact hother fun n hn => nomatch hn
  case h_4 i check_sum _ =>
    refine hother fun n hn => ?_
    dsimp only at hn
    split at hn <;> cases hn
  case h_5 => split <;> exact hother fun n hn => nomatch hn
  case h_6 => exact h
  case h_7 => exact h

theorem Returns.feedAll (h : Returns s) (input : List Byte) : Returns (s.feedAll input).1 := by
  induction input generalizing s with
  | nil => exact h
  | cons c input ih => exact ih (h.feed c)

theorem returns_xmodemRecv (ram : Ram) (base : Word) (input : List Byte) :
    Returns (xmodemRecv ram base input) := by
  have hstart : Returns (start ram base) := fun n (hn : Point.command = .returned n) => nomatch hn
  exact hstart.feedAll input

theorem Storing.returned (h : Storing base input payload pending s) (hreturns : Returns s) {n : Word}
    (hpoint : s.point = .returned n) (hpos : n.slt 0 = false) (hlen : input.length < 2 ^ 31) :
    n.toNat ≤ payload.length ∧ ∀ i (hi : i < payload.length), n.toNat ≤ i → payload[i] = EOF := by
  have hpayload : payload.length < 2 ^ 31 := by
    have := h.received.length_le
    rw [List.length_append] at this
    omega
  have hholds : s.ram.Holds base payload := (h.holds (by omega)).initial
  rcases hreturns n hpoint with rfl | ⟨cnt, hcnt, hn⟩
  · rw [show failure.slt 0 = true by decide] at hpos
    cases hpos
  · obtain ⟨hlt, heof⟩ := padding_eq hcnt
    rw [h.size] at hn
    have hle : cnt ≤ payload.length := by
      by_contra hgt
      have hnat : n.toNat = 2 ^ 32 - cnt + payload.length := by
        rw [hn, BitVec.toNat_sub, toNat_ofNat_of_lt (by omega), toNat_ofNat_of_lt (by omega)]
        exact Nat.mod_eq_of_lt (by omega)
      have := (slt_zero_iff n).not.mp (by rw [hpos]; exact Bool.false_ne_true)
      omega
    rw [ofNat_sub_ofNat hle] at hn
    have hnat : n.toNat = payload.length - cnt := by
      rw [hn, toNat_ofNat_of_lt (by omega)]
    refine ⟨by omega, fun i hi hni => ?_⟩
    have hbyte := heof (payload.length - 1 - i) (by omega)
    have haddr : s.buf - BitVec.ofNat 32 (payload.length - 1 - i) - 1 = base + BitVec.ofNat 32 i := by
      rw [h.buf, BitVec.sub_eq_iff_eq_add, BitVec.sub_eq_iff_eq_add, BitVec.add_assoc, BitVec.add_assoc,
        show (1 : Word) = BitVec.ofNat 32 1 from rfl, ← BitVec.ofNat_add, ← BitVec.ofNat_add]
      congr 2
      omega
    rw [← hholds i hi, ← haddr, hbyte]

end Receiver

end Fl2440.MyBoot
