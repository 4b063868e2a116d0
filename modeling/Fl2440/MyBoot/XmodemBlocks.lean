import Fl2440.MyBoot.XmodemPacket

/-! The receiver between two packets: how far it is after so many blocks, what it does
with a block that it has already, and what it takes off at the end. -/
namespace Fl2440.MyBoot

open Fl2440.Lib Xmodem

namespace Receiver

def acks (answers : List Byte) : Nat := answers.count ACK

def Ended (s : Receiver) : Prop := s.point = .overrun ∨ ∃ n, s.point = .returned n

structure Counted (base : Word) (blocks : Nat) (s : Receiver) : Prop where
  buf : s.buf = base + BitVec.ofNat 32 (blockSize * blocks)
  size : s.size = BitVec.ofNat 32 (blockSize * blocks)
  number : s.block_number = BitVec.ofNat 8 (blocks + 1)

variable {base : Word} {blocks : Nat} {s : Receiver}

theorem counted_start (ram : Ram) (base : Word) : Counted base 0 (start ram base) := ⟨(add_ofNat_zero base).symm, rfl, rfl⟩

theorem Counted.next (h : Counted base blocks s) (ram : Ram) (receiving : Nat) (point : Point) :
    Counted base (blocks + 1) ⟨ram, s.buf + BitVec.ofNat 32 blockSize, s.size + BitVec.ofNat 32 blockSize, receiving,
      s.block_number + 1, point⟩ where
  buf := by rw [h.buf, Nat.mul_add_one, BitVec.ofNat_add, BitVec.add_assoc]
  size := by rw [h.size, Nat.mul_add_one, BitVec.ofNat_add]
  number := (congrArg (· + 1) h.number).trans (BitVec.ofNat_add (blocks + 1) 1).symm

theorem Counted.feed (h : Counted base blocks s) (c : Byte) :
    Ended (s.feed c).1 ∨ Counted base (blocks + acks (s.feed c).2) (s.feed c).1 := by
  have hsame : ∀ ram receiving point, Counted base blocks ⟨ram, s.buf, s.size, receiving, s.block_number, point⟩ :=
    fun _ _ _ => ⟨h.buf, h.size, h.number⟩
  have hreject : Counted base (blocks + acks s.reject.2) s.reject.1 := hsame _ _ _
  cases hpoint : s.point with
  | command =>
      rw [Receiver.feed, hpoint]
      dsimp only
      split_ifs
      · left
        unfold Ended finish
        dsimp only
        cases s.padding with
        | none => exact .inl rfl
        | some cnt => exact .inr ⟨_, rfl⟩
      · exact .inl (.inr ⟨_, rfl⟩)
      · exact .inr (hsame _ _ _)
      · exact .inl (.inr ⟨_, rfl⟩)
      · exact .inr h
  | number =>
      rw [Receiver.feed, hpoint]
      dsimp only
      split_ifs
      · exact .inr hreject
      · exact .inr (hsame _ _ _)
  | complement block_num =>
      rw [Receiver.feed, hpoint]
      dsimp only
      split_ifs
      · exact .inr hreject
      · exact .inr (hsame _ _ _)
  | data i check_sum =>
      rw [Receiver.feed, hpoint]
      exact .inr (hsame _ _ _)
  | checksum check_sum =>
      rw [Receiver.feed, hpoint]
      dsimp only
      split_ifs
      · exact .inr hreject
      · exact .inr (h.next _ _ _)
  | returned n =>
      rw [Receiver.feed, hpoint]
      exact .inl (.inr ⟨n, hpoint⟩)
  | overrun =>
      rw [Receiver.feed, hpoint]
      exact .inl (.inl hpoint)

theorem Ended.feedAll (h : Ended s) (input : List Byte) : (s.feedAll input).1 = s := by
  rcases h with hpoint | ⟨n, hpoint⟩
  · rw [feedAll_overrun hpoint]
  · rw [feedAll_returned hpoint]

theorem Counted.feedAll (h : Counted base blocks s) (input : List Byte) :
    Ended (s.feedAll input).1 ∨ Counted base (blocks + acks (s.feedAll input).2) (s.feedAll input).1 := by
  induction input generalizing s blocks with
  | nil => exact .inr h
  | cons c input ih =>
      have hfeed : s.feed c = ((s.feed c).1, (s.feed c).2) := rfl
      rw [feedAll_cons hfeed]
      rcases h.feed c with hended | hcounted
      · left
        rwa [hended.feedAll]
      · rcases ih hcounted with hended | hlater
        · exact .inl hended
        · rw [acks, List.count_append, ← Nat.add_assoc]
          exact .inr hlater

theorem counted_xmodemRecv (ram : Ram) (base : Word) {input : List Byte}
    (hpoint : (xmodemRecv ram base input).point = .command) :
    Counted base (acks ((start ram base).feedAll input).2) (xmodemRecv ram base input) := by
  rcases (counted_start ram base).feedAll input with hended | hcounted
  · rcases hended with hover | ⟨n, hreturned⟩
    · exact absurd (hpoint.symm.trans hover) Point.noConfusion
    · exact absurd (hpoint.symm.trans hreturned) Point.noConfusion
  · rwa [Nat.zero_add] at hcounted

/-! A block that comes again -/

/-- A packet that repeats a block is acknowledged and changes nothing, and the block
that is due is taken next. -/
def ToleratesRepeat (s : Receiver) (again : Packet) : Prop :=
  (s.feedAll again.bytes).2 = [ACK] ∧
    (s.feedAll again.bytes).1.buf = s.buf ∧ (s.feedAll again.bytes).1.size = s.size ∧
    (s.feedAll again.bytes).1.block_number = s.block_number ∧
    ∀ next : Packet, next.Passes s.block_number →
      (s.feedAll again.bytes).1.feedAll next.bytes = ((s.feedAll again.bytes).1.taking next, [ACK])

theorem feedAll_passes (hpoint : s.point = .command) {p : Packet} (hpasses : p.Passes s.block_number) :
    s.feedAll p.bytes = (s.taking p, [ACK]) :=
  (feedAll_packet hpoint p hpasses.1 hpasses.2.1).trans (if_pos hpasses.2.2)

theorem number_taken_ne (s : Receiver) (p : Packet) : s.block_number ≠ (s.taking p).block_number := by
  intro h
  have hnat := congrArg BitVec.toNat h
  rw [taking, BitVec.toNat_add, show (1 : Byte).toNat = 1 from rfl] at hnat
  have hlt := s.block_number.isLt
  omega

/-- The block just taken, when it comes again, is refused after its number, and its other
bytes are read as commands. -/
theorem repeat_refused (ram : Ram) (base : Word) {input : List Byte} {p again : Packet}
    (hpoint : (xmodemRecv ram base input).point = .command)
    (hpasses : p.Passes (xmodemRecv ram base input).block_number) (hsame : again.number = p.number) :
    ¬ ToleratesRepeat (xmodemRecv ram base (input ++ p.bytes)) again := by
  have htaken : xmodemRecv ram base (input ++ p.bytes) = (xmodemRecv ram base input).taking p := by
    have hpacket := feedAll_passes hpoint hpasses
    rw [xmodemRecv, feedAll_append]
    exact congrArg Prod.fst hpacket
  rw [htaken]
  rintro ⟨hanswers, -⟩
  have hne : again.number ≠ ((xmodemRecv ram base input).taking p).block_number := by
    rw [hsame, hpasses.1]
    exact number_taken_ne _ p
  rw [Packet.bytes, feedAll_number rfl hne] at hanswers
  exact absurd (List.cons.inj hanswers).1 (by decide)

theorem repeat_refused_first_block :
    ¬ ToleratesRepeat (xmodemRecv (fun _ => 0) 0 ([] ++ Packet.bytes ⟨1, 0xfe, List.replicate 128 0, 0, rfl⟩))
      ⟨1, 0xfe, List.replicate 128 0, 0, rfl⟩ :=
  repeat_refused (fun _ => 0) 0 rfl (by decide +kernel) rfl

/-- The first block, sent a second time because its ACK was lost. -/
theorem lost_ack_not_tolerated :
    ¬ ∀ ram base (input : List Byte) (p : Packet), (xmodemRecv ram base input).point = .command →
      p.Passes (xmodemRecv ram base input).block_number → ToleratesRepeat (xmodemRecv ram base (input ++ p.bytes)) p := by
  intro h
  have hanswers := (h (fun _ => 0) 0 [] ⟨1, 0xfe, List.replicate 128 0, 0, rfl⟩ rfl (by decide +kernel)).1
  exact absurd hanswers (by decide +kernel)

/-! Padding -/

/-- How far before `buf` the bytes stand that the loop over the padding reads. -/
def eofReads (ram : Ram) (buf : Word) : Nat → Nat → List Nat
  | 0, _ => []
  | fuel + 1, cnt =>
      (cnt + 1) :: if ram (buf - BitVec.ofNat 32 cnt - 1) = EOF then eofReads ram buf fuel (cnt + 1) else []

/-- The reads of `padding`: three at most, then those of the loop. -/
def paddingReads (s : Receiver) : List Nat :=
  1 :: if s.ram (s.buf - 1) = EOF then
    2 :: if s.ram (s.buf - 2) = EOF then
      3 :: if s.ram (s.buf - 3) = EOF ∧ s.size ≠ 0 then eofReads s.ram s.buf (2 ^ 31) 0 else []
    else []
  else []

/-- What EOT does with the padding: only bytes of this transfer are read, and exactly the
trailing 0x1a bytes are taken off, unless nothing is. -/
def TrimsOwnBytes (base : Word) (s : Receiver) : Prop :=
  (∀ back ∈ s.paddingReads, back ≤ s.size.toNat) ∧
    ∃ cnt n, s.padding = some cnt ∧ (s.feed EOT).1.point = .returned n ∧
      cnt ≤ s.size.toNat ∧ n.slt 0 = false ∧ n.toNat = s.size.toNat - cnt ∧
      (∀ i, n.toNat ≤ i → i < s.size.toNat → s.ram (base + BitVec.ofNat 32 i) = EOF) ∧
      (0 < cnt → 0 < n.toNat → s.ram (base + BitVec.ofNat 32 (n.toNat - 1)) ≠ EOF)

theorem countEof_stops {ram : Ram} {buf : Word} {fuel m : Nat} (cnt : Nat) (hfuel : m < fuel)
    (heof : ∀ i < m, ram (buf - BitVec.ofNat 32 (cnt + i) - 1) = EOF)
    (hstop : ram (buf - BitVec.ofNat 32 (cnt + m) - 1) ≠ EOF) :
    countEof ram buf fuel cnt = some (cnt + m) ∧ ∀ back ∈ eofReads ram buf fuel cnt, back ≤ cnt + m + 1 := by
  induction fuel generalizing cnt m with
  | zero => exact absurd hfuel (Nat.not_lt_zero _)
  | succ fuel ih =>
      rw [countEof, eofReads]
      cases m with
      | zero =>
          rw [Nat.add_zero] at hstop
          rw [if_neg hstop, if_neg hstop]
          simp
      | succ m =>
          have hfirst := heof 0 (Nat.succ_pos m)
          rw [Nat.add_zero] at hfirst
          have hshift : ∀ i, cnt + 1 + i = cnt + (i + 1) := by omega
          obtain ⟨hcount, hreads⟩ := ih (cnt + 1) (Nat.lt_of_succ_lt_succ hfuel)
            (fun i hi => by rw [hshift]; exact heof (i + 1) (Nat.succ_lt_succ hi)) (by rwa [hshift])
          rw [if_pos hfirst, if_pos hfirst, hcount, hshift]
          refine ⟨rfl, fun back hback => ?_⟩
          rcases List.mem_cons.mp hback with rfl | hback
          · omega
          · have := hreads back hback
            omega

theorem mem_eofReads {ram : Ram} {buf : Word} {fuel m : Nat} (cnt : Nat) (hfuel : m < fuel)
    (heof : ∀ i < m, ram (buf - BitVec.ofNat 32 (cnt + i) - 1) = EOF) : cnt + m + 1 ∈ eofReads ram buf fuel cnt := by
  induction fuel generalizing cnt m with
  | zero => exact absurd hfuel (Nat.not_lt_zero _)
  | succ fuel ih =>
      rw [eofReads]
      cases m with
      | zero => exact List.mem_cons_self
      | succ m =>
          have hfirst := heof 0 (Nat.succ_pos m)
          rw [Nat.add_zero] at hfirst
          have hshift : ∀ i, cnt + 1 + i = cnt + (i + 1) := by omega
          have hmem := ih (cnt + 1) (Nat.lt_of_succ_lt_succ hfuel)
            (fun i hi => by rw [hshift]; exact heof (i + 1) (Nat.succ_lt_succ hi))
          rw [hshift] at hmem
          rw [if_pos hfirst]
          exact List.mem_cons_of_mem _ hmem

section Padding

variable {len : Nat}

structure Stored (base : Word) (len : Nat) (s : Receiver) : Prop where
  buf : s.buf = base + BitVec.ofNat 32 len
  size : s.size = BitVec.ofNat 32 len
  long : len < 2 ^ 31

def byteBack (s : Receiver) (i : Nat) : Byte := s.ram (s.buf - BitVec.ofNat 32 i - 1)

theorem Stored.byteBack (h : Stored base len s) {i : Nat} (hi : i < len) :
    s.byteBack i = s.ram (base + BitVec.ofNat 32 (len - 1 - i)) := by
  have haddr : s.buf - BitVec.ofNat 32 i - 1 = base + BitVec.ofNat 32 (len - 1 - i) := by
    rw [h.buf, BitVec.sub_eq_iff_eq_add, BitVec.sub_eq_iff_eq_add, BitVec.add_assoc, BitVec.add_assoc,
      show (1 : Word) = BitVec.ofNat 32 1 from rfl, ← BitVec.ofNat_add, ← BitVec.ofNat_add]
    congr 2
    omega
  rw [Receiver.byteBack, haddr]

theorem Stored.toNat_size (h : Stored base len s) : s.size.toNat = len := by
  have := h.long
  rw [h.size, toNat_ofNat_of_lt (by omega)]

theorem ram_back (s : Receiver) (i : Nat) : s.ram (s.buf - BitVec.ofNat 32 (i + 1)) = s.byteBack i := by
  have haddr : s.buf - BitVec.ofNat 32 i - 1 = s.buf - BitVec.ofNat 32 (i + 1) := by
    rw [BitVec.sub_eq_iff_eq_add, BitVec.sub_eq_iff_eq_add, BitVec.add_assoc, BitVec.add_comm 1, BitVec.ofNat_add]
    exact (BitVec.sub_add_cancel _ _).symm
  rw [Receiver.byteBack, haddr]

theorem padding_eq_byteBack (s : Receiver) :
    s.padding = if s.byteBack 0 = EOF ∧ s.byteBack 1 = EOF ∧ s.byteBack 2 = EOF then
      if s.size = 0 then some 0 else countEof s.ram s.buf (2 ^ 31) 0 else some 0 := by
  simp only [← ram_back]
  rfl

theorem paddingReads_eq_byteBack (s : Receiver) :
    s.paddingReads = 1 :: if s.byteBack 0 = EOF then
      2 :: if s.byteBack 1 = EOF then
        3 :: if s.byteBack 2 = EOF ∧ s.size ≠ 0 then eofReads s.ram s.buf (2 ^ 31) 0 else []
      else []
    else [] := by
  simp only [← ram_back]
  rfl

theorem Stored.trims (h : Stored base len s) (hpoint : s.point = .command) (cnt : Nat)
    (hreads : ∀ back ∈ s.paddingReads, back ≤ len) (hpadding : s.padding = some cnt) (hcnt : cnt < len)
    (heof : ∀ j < cnt, s.byteBack j = EOF) (hstop : 0 < cnt → s.byteBack cnt ≠ EOF) : TrimsOwnBytes base s := by
  have hlong := h.long
  have hfeed : (s.feed EOT).1.point = .returned (s.size - BitVec.ofNat 32 cnt) := by
    rw [feed, hpoint]
    show s.finish = _
    rw [finish, hpadding]
  have hn : s.size - BitVec.ofNat 32 cnt = BitVec.ofNat 32 (len - cnt) := by
    rw [h.size, ofNat_sub_ofNat hcnt.le]
  have hnat : (s.size - BitVec.ofNat 32 cnt).toNat = len - cnt := by
    rw [hn, toNat_ofNat_of_lt (by omega)]
  have hpositive : (s.size - BitVec.ofNat 32 cnt).slt 0 = false := by
    rw [Bool.eq_false_iff, Ne, slt_zero_iff, hnat]
    omega
  refine ⟨by rwa [h.toNat_size], cnt, _, hpadding, hfeed, ?_, hpositive, ?_, ?_, ?_⟩
  · rw [h.toNat_size]
    exact hcnt.le
  · rw [hnat, h.toNat_size]
  · intro i hi hlast
    rw [hnat] at hi
    rw [h.toNat_size] at hlast
    have hbyte := heof (len - 1 - i) (by omega)
    rwa [h.byteBack (by omega), show len - 1 - (len - 1 - i) = i by omega] at hbyte
  · intro hsome _
    have hbyte := hstop hsome
    rw [h.byteBack hcnt] at hbyte
    rwa [hnat, show len - cnt - 1 = len - 1 - cnt by omega]

theorem Stored.trims_of_byte (h : Stored base len s) (hpoint : s.point = .command) (hthree : 3 ≤ len)
    (hbyte : ∃ i < len, s.byteBack i ≠ EOF) : TrimsOwnBytes base s := by
  have hlong := h.long
  have hfirst := Nat.find_spec hbyte
  have hbefore : ∀ j < Nat.find hbyte, s.byteBack j = EOF := by
    intro j hj
    by_contra hne
    exact Nat.find_min hbyte hj ⟨by omega, hne⟩
  generalize Nat.find hbyte = m at hfirst hbefore
  obtain ⟨hm, hstop⟩ := hfirst
  have hloop := countEof_stops 0 (by omega : m < 2 ^ 31)
    (fun i hi => by rw [Nat.zero_add]; exact hbefore i hi) (by rw [Nat.zero_add]; exact hstop)
  rw [Nat.zero_add] at hloop
  have hsize : s.size ≠ 0 := fun h0 => by
    have := h.toNat_size
    rw [h0] at this
    exact absurd this (by show (0 : Nat) ≠ len; omega)
  have hreads : ∀ back ∈ s.paddingReads, back ≤ len := by
    intro back hback
    rw [paddingReads_eq_byteBack] at hback
    split_ifs at hback with h0 h1 h2
    · rcases List.mem_cons.mp hback with rfl | hback
      · omega
      rcases List.mem_cons.mp hback with rfl | hback
      · omega
      rcases List.mem_cons.mp hback with rfl | hback
      · omega
      have := hloop.2 back hback
      omega
    all_goals
      simp only [List.mem_cons, List.not_mem_nil, or_false] at hback
      omega
  by_cases hthree : 3 ≤ m
  · refine h.trims hpoint m hreads ?_ hm hbefore fun _ => hstop
    rw [padding_eq_byteBack, if_pos ⟨hbefore 0 (by omega), hbefore 1 (by omega), hbefore 2 (by omega)⟩, if_neg hsize,
      hloop.1]
  · refine h.trims hpoint 0 hreads ?_ (by omega) (fun j hj => absurd hj (Nat.not_lt_zero j)) (absurd · (by omega))
    rw [padding_eq_byteBack, if_neg]
    rintro ⟨h0, h1, h2⟩
    obtain rfl | rfl | rfl : m = 0 ∨ m = 1 ∨ m = 2 := by omega
    · exact hstop h0
    · exact hstop h1
    · exact hstop h2

theorem Stored.byte_of_trims (h : Stored base len s) (hthree : len = 0 ∨ 3 ≤ len) (htrims : TrimsOwnBytes base s) :
    ∃ i < len, s.byteBack i ≠ EOF := by
  have hlong := h.long
  obtain ⟨hreads, -⟩ := htrims
  rw [h.toNat_size, paddingReads_eq_byteBack] at hreads
  by_contra hnone
  have hall : ∀ i < len, s.byteBack i = EOF := fun i hi => by
    by_contra hne
    exact hnone ⟨i, hi, hne⟩
  rcases hthree with rfl | hthree
  · exact absurd (hreads 1 List.mem_cons_self) (by decide)
  · have hsize : s.size ≠ 0 := fun h0 => by
      have := h.toNat_size
      rw [h0] at this
      exact absurd this (by show (0 : Nat) ≠ len; omega)
    have hmem := mem_eofReads 0 (by omega : len < 2 ^ 31)
      (fun i hi => by rw [Nat.zero_add]; exact hall i hi)
    rw [if_pos (hall 0 (by omega)), if_pos (hall 1 (by omega)), if_pos ⟨hall 2 (by omega), hsize⟩] at hreads
    have := hreads _ (List.mem_cons_of_mem _ (List.mem_cons_of_mem _ (List.mem_cons_of_mem _ hmem)))
    omega

/-- The padding is taken off from this transfer's own bytes just if they are not all
0x1a; with no block there is none to look at. -/
theorem trimsOwnBytes_iff (ram : Ram) (base : Word) {input : List Byte}
    (hpoint : (xmodemRecv ram base input).point = .command)
    (hlong : blockSize * acks ((start ram base).feedAll input).2 < 2 ^ 31) :
    TrimsOwnBytes base (xmodemRecv ram base input) ↔
      ∃ i < blockSize * acks ((start ram base).feedAll input).2,
        (xmodemRecv ram base input).ram (base + BitVec.ofNat 32 i) ≠ EOF := by
  have hcounted := counted_xmodemRecv ram base hpoint
  generalize acks ((start ram base).feedAll input).2 = blocks at hcounted hlong ⊢
  have hstored : Stored base (blockSize * blocks) (xmodemRecv ram base input) := ⟨hcounted.buf, hcounted.size, hlong⟩
  have hblock : blockSize * blocks = 128 * blocks := rfl
  constructor
  · intro htrims
    obtain ⟨i, hi, hbyte⟩ := hstored.byte_of_trims (by omega) htrims
    rw [hstored.byteBack hi] at hbyte
    exact ⟨_, by omega, hbyte⟩
  · rintro ⟨i, hi, hbyte⟩
    apply hstored.trims_of_byte hpoint (by omega)
    refine ⟨blockSize * blocks - 1 - i, by omega, ?_⟩
    rwa [hstored.byteBack (by omega), show blockSize * blocks - 1 - (blockSize * blocks - 1 - i) = i by omega]

theorem trimsOwnBytes_iff_one_block :
    TrimsOwnBytes 0 (xmodemRecv (fun _ => 0) 0 (Packet.bytes .padded)) := by
  apply (trimsOwnBytes_iff (fun _ => 0) 0 (by decide +kernel) (by decide +kernel)).mpr
  exact ⟨0, by decide +kernel, by decide +kernel⟩

/-- EOT comes first: the byte before the buffer is read. -/
theorem empty_transfer_not_trimmed :
    ¬ ∀ ram base input, (xmodemRecv ram base input).point = .command →
      blockSize * acks ((start ram base).feedAll input).2 < 2 ^ 31 → TrimsOwnBytes base (xmodemRecv ram base input) := by
  intro h
  obtain ⟨hreads, -⟩ := h (fun _ => 0) 0 [] rfl (by decide)
  exact absurd (hreads 1 List.mem_cons_self) (by decide)

end Padding

end Receiver

end Fl2440.MyBoot
