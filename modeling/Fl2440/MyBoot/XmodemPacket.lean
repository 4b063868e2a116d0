import Fl2440.MyBoot.Xmodem

/-! What the receiver makes of a whole packet. A packet that fails its number or its
complement is left in the middle, and its other bytes are taken for commands. -/
namespace Fl2440.MyBoot

open Fl2440.Lib

structure Packet where
  number : Byte
  complement : Byte
  data : List Byte
  check : Byte
  length_data : data.length = Xmodem.blockSize

namespace Packet

def bytes (p : Packet) : List Byte :=
  Xmodem.SOH :: p.number :: p.complement :: (p.data ++ [p.check])

def sum (data : List Byte) : Byte := data.foldl (· + ·) 0

/-- The number, complement and checksum tests. -/
def Passes (p : Packet) (block_number : Byte) : Prop :=
  p.number = block_number ∧ p.number ^^^ p.complement = 0xff ∧ sum p.data ^^^ p.check = 0

instance (p : Packet) (block_number : Byte) : Decidable (p.Passes block_number) :=
  inferInstanceAs (Decidable (_ ∧ _ ∧ _))

def padded : Packet := ⟨1, 0xfe, List.replicate 125 0x41 ++ [0x1a, 0x1a, 0x1a], 0x0b, rfl⟩

end Packet

namespace Receiver

open Xmodem

variable {s : Receiver}

theorem feedAll_cons {c : Byte} {t : Receiver} {answers : List Byte} (h : s.feed c = (t, answers))
    (input : List Byte) :
    s.feedAll (c :: input) = ((t.feedAll input).1, answers ++ (t.feedAll input).2) := by
  rw [feedAll, h]

theorem feedAll_append (s : Receiver) (first second : List Byte) :
    s.feedAll (first ++ second) = (((s.feedAll first).1.feedAll second).1,
      (s.feedAll first).2 ++ ((s.feedAll first).1.feedAll second).2) := by
  induction first generalizing s with
  | nil => rfl
  | cons c first ih =>
      rw [List.cons_append, feedAll_cons rfl, feedAll_cons rfl, ih, List.append_assoc]

theorem feedAll_returned {n : Word} (h : s.point = .returned n) (input : List Byte) :
    s.feedAll input = (s, []) := by
  induction input with
  | nil => rfl
  | cons c input ih =>
      have hfeed : s.feed c = (s, []) := by rw [feed, h]
      rw [feedAll_cons hfeed, ih]
      rfl

theorem feedAll_overrun (h : s.point = .overrun) (input : List Byte) : s.feedAll input = (s, []) := by
  induction input with
  | nil => rfl
  | cons c input ih =>
      have hfeed : s.feed c = (s, []) := by rw [feed, h]
      rw [feedAll_cons hfeed, ih]
      rfl

theorem feed_noise (hpoint : s.point = .command) (hreceiving : 0 < s.receiving) {c : Byte}
    (heot : c ≠ EOT) (hsoh : c ≠ SOH) : s.feed c = ({ s with point := .returned failure }, []) := by
  rw [feed, hpoint]
  dsimp only
  rw [if_neg heot, if_neg hsoh, if_pos hreceiving, ite_self]

theorem feed_header (hpoint : s.point = .command) :
    s.feed SOH = ({ s with receiving := s.receiving + 1, point := .number }, []) := by
  rw [feed, hpoint]
  rfl

theorem feedAll_number (hpoint : s.point = .command) {number : Byte} (h : number ≠ s.block_number)
    (rest : List Byte) :
    let t : Receiver := { s with receiving := s.receiving + 1, point := .command }
    s.feedAll (SOH :: number :: rest) = ((t.feedAll rest).1, NAK :: (t.feedAll rest).2) := by
  have hnumber : feed { s with receiving := s.receiving + 1, point := .number } number =
      ({ s with receiving := s.receiving + 1, point := .command }, [NAK]) := if_pos h
  rw [feedAll_cons (feed_header hpoint), feedAll_cons hnumber]
  rfl

theorem feedAll_complement (hpoint : s.point = .command) {number complement : Byte}
    (hnumber : number = s.block_number) (h : number ^^^ complement ≠ 0xff) (rest : List Byte) :
    let t : Receiver := { s with receiving := s.receiving + 1, point := .command }
    s.feedAll (SOH :: number :: complement :: rest) = ((t.feedAll rest).1, NAK :: (t.feedAll rest).2) := by
  have hfirst : feed { s with receiving := s.receiving + 1, point := .number } number =
      ({ s with receiving := s.receiving + 1, point := .complement number }, []) := if_neg (not_not.mpr hnumber)
  have hsecond : feed { s with receiving := s.receiving + 1, point := .complement number } complement =
      ({ s with receiving := s.receiving + 1, point := .command }, [NAK]) := if_pos h
  rw [feedAll_cons (feed_header hpoint), feedAll_cons hfirst, feedAll_cons hsecond]
  rfl

theorem feedAll_header (hpoint : s.point = .command) {number complement : Byte}
    (hnumber : number = s.block_number) (h : number ^^^ complement = 0xff) (rest : List Byte) :
    s.feedAll (SOH :: number :: complement :: rest) =
      feedAll { s with receiving := s.receiving + 1, point := .data 0 0 } rest := by
  have hfirst : feed { s with receiving := s.receiving + 1, point := .number } number =
      ({ s with receiving := s.receiving + 1, point := .complement number }, []) := if_neg (not_not.mpr hnumber)
  have hsecond : feed { s with receiving := s.receiving + 1, point := .complement number } complement =
      ({ s with receiving := s.receiving + 1, point := .data 0 0 }, []) := if_neg (not_not.mpr h)
  rw [feedAll_cons (feed_header hpoint), feedAll_cons hfirst, feedAll_cons hsecond]
  rfl

theorem feedAll_data {i : Nat} {check_sum : Byte} {data : List Byte} (hpoint : s.point = .data i check_sum)
    (hne : data ≠ []) (hlen : i + data.length = blockSize) :
    s.feedAll data = ({ s with
      ram := s.ram.store (s.buf + BitVec.ofNat 32 i) data
      point := .checksum (data.foldl (· + ·) check_sum) }, []) := by
  induction data generalizing i check_sum s with
  | nil => exact absurd rfl hne
  | cons c data ih =>
      have hfeed : s.feed c = ({ s with
          ram := Function.update s.ram (s.buf + BitVec.ofNat 32 i) c
          point := if i + 1 < blockSize then .data (i + 1) (check_sum + c)
            else .checksum (check_sum + c) }, []) := by
        rw [feed, hpoint]
      rw [feedAll_cons hfeed]
      rw [List.length_cons] at hlen
      cases data with
      | nil =>
          rw [if_neg (by simp at hlen; omega)]
          rfl
      | cons d data =>
          have hstore : s.ram.store (s.buf + BitVec.ofNat 32 i) (c :: d :: data) =
              Ram.store (Function.update s.ram (s.buf + BitVec.ofNat 32 i) c) (s.buf + BitVec.ofNat 32 (i + 1))
                (d :: data) := by
            rw [Ram.store, BitVec.ofNat_add, ← BitVec.add_assoc]
            rfl
          rw [ih (i := i + 1) (if_pos (by simp at hlen; omega)) (List.cons_ne_nil _ _) (by omega), hstore]
          rfl

theorem feed_checksum_good {check_sum c : Byte} (hpoint : s.point = .checksum check_sum)
    (h : check_sum ^^^ c = 0) :
    s.feed c = ({ s with block_number := s.block_number + 1
                         size := s.size + BitVec.ofNat 32 blockSize
                         buf := s.buf + BitVec.ofNat 32 blockSize
                         point := .command }, [ACK]) := by
  rw [feed, hpoint]
  exact if_neg (not_not.mpr h)

theorem feed_checksum_bad {check_sum c : Byte} (hpoint : s.point = .checksum check_sum)
    (h : check_sum ^^^ c ≠ 0) : s.feed c = s.reject := by
  rw [feed, hpoint]
  exact if_pos h

theorem feedAll_packet (hpoint : s.point = .command) (p : Packet) (hnumber : p.number = s.block_number)
    (hcomplement : p.number ^^^ p.complement = 0xff) :
    s.feedAll p.bytes =
      let t : Receiver := { s with
        ram := s.ram.store s.buf p.data
        receiving := s.receiving + 1
        point := .command }
      if Packet.sum p.data ^^^ p.check = 0 then
        ({ t with block_number := s.block_number + 1
                  size := s.size + BitVec.ofNat 32 blockSize
                  buf := s.buf + BitVec.ofNat 32 blockSize }, [ACK])
      else (t, [NAK]) := by
  have hne : p.data ≠ [] := by
    intro hnil
    have := p.length_data
    rw [hnil] at this
    exact absurd this (by decide)
  have hdata := feedAll_data (s := { s with receiving := s.receiving + 1, point := .data 0 0 }) rfl hne
    (by rw [Nat.zero_add]; exact p.length_data)
  rw [Packet.bytes, feedAll_header hpoint hnumber hcomplement, feedAll_append, hdata, add_ofNat_zero]
  dsimp only
  have hpoint' : ({ s with
      ram := s.ram.store s.buf p.data
      receiving := s.receiving + 1
      point := .checksum (Packet.sum p.data) } : Receiver).point = .checksum (Packet.sum p.data) := rfl
  by_cases hsum : Packet.sum p.data ^^^ p.check = 0
  · rw [if_pos hsum]
    exact feedAll_cons (feed_checksum_good hpoint' hsum) []
  · rw [if_neg hsum]
    exact feedAll_cons (feed_checksum_bad hpoint' hsum) []

/-- The bytes that are left of a packet when it fails a test. -/
def leftover (p : Packet) (block_number : Byte) : Option (List Byte) :=
  if p.number ≠ block_number then some (p.complement :: (p.data ++ [p.check]))
  else if p.number ^^^ p.complement ≠ 0xff then some (p.data ++ [p.check])
  else none

/-- The command loop ends the download within these bytes, and does not take any of
them for the end of the file or for a block. -/
def aborts (block_number : Byte) : List Byte → Bool
  | [] => false
  | c :: rest =>
      if c = EOT then false
      else if c ≠ SOH then true
      else
        match rest with
        | [] => false
        | number :: rest =>
            if number ≠ block_number then aborts block_number rest
            else
              match rest with
              | [] => false
              | complement :: rest =>
                  if number ^^^ complement ≠ 0xff then aborts block_number rest else false

theorem feedAll_aborts {block_number : Byte} {input : List Byte} (h : aborts block_number input = true)
    (hnumber : s.block_number = block_number) (hpoint : s.point = .command) (hreceiving : 0 < s.receiving) :
    (s.feedAll input).1.point = .returned failure := by
  fun_induction aborts block_number input generalizing s with
  | case1 => cases h
  | case2 => cases h
  | case3 c rest heot hsoh =>
      rw [feedAll_cons (feed_noise hpoint hreceiving heot hsoh), feedAll_returned rfl]
  | case4 => cases h
  | case5 c heot hsoh number rest hne ih =>
      rw [not_not.mp hsoh, feedAll_number hpoint (hnumber ▸ hne)]
      exact ih h hnumber rfl (Nat.succ_pos _)
  | case6 => cases h
  | case7 c heot hsoh number hnumber' complement rest hne ih =>
      rw [not_not.mp hsoh, feedAll_complement hpoint ((not_not.mp hnumber').trans hnumber.symm) hne]
      exact ih h hnumber rfl (Nat.succ_pos _)
  | case8 => cases h

/-- What the receiver leaves of a packet that it gives up makes it give up the download. -/
def LeavesNoCommand (s : Receiver) (p : Packet) : Prop :=
  ∀ rest ∈ leftover p s.block_number, aborts s.block_number rest = true

instance (s : Receiver) (p : Packet) : Decidable (s.LeavesNoCommand p) :=
  inferInstanceAs (Decidable (∀ rest ∈ leftover p s.block_number, aborts s.block_number rest = true))

def taking (s : Receiver) (p : Packet) : Receiver where
  ram := s.ram.store s.buf p.data
  buf := s.buf + BitVec.ofNat 32 blockSize
  size := s.size + BitVec.ofNat 32 blockSize
  receiving := s.receiving + 1
  block_number := s.block_number + 1
  point := .command

def refusing (s : Receiver) (p : Packet) : Receiver :=
  { s with ram := s.ram.store s.buf p.data, receiving := s.receiving + 1, point := .command }

theorem feedAll_packet_cases (hpoint : s.point = .command) {p : Packet} (hclean : s.LeavesNoCommand p) :
    (p.Passes s.block_number ∧ s.feedAll p.bytes = (s.taking p, [ACK])) ∨
      (¬ p.Passes s.block_number ∧ (s.feedAll p.bytes = (s.refusing p, [NAK]) ∨
        (s.feedAll p.bytes).1.point = .returned failure)) := by
  by_cases hnumber : p.number = s.block_number
  · by_cases hcomplement : p.number ^^^ p.complement = 0xff
    · have hall := feedAll_packet hpoint p hnumber hcomplement
      by_cases hsum : Packet.sum p.data ^^^ p.check = 0
      · exact .inl ⟨⟨hnumber, hcomplement, hsum⟩, hall.trans (if_pos hsum)⟩
      · exact .inr ⟨fun h => hsum h.2.2, .inl (hall.trans (if_neg hsum))⟩
    · refine .inr ⟨fun h => hcomplement h.2.1, .inr ?_⟩
      have hleft : leftover p s.block_number = some (p.data ++ [p.check]) := by
        rw [leftover, if_neg (not_not.mpr hnumber), if_pos hcomplement]
      rw [Packet.bytes, feedAll_complement hpoint hnumber hcomplement]
      exact feedAll_aborts (hclean _ hleft) rfl rfl (Nat.succ_pos _)
  · refine .inr ⟨fun h => hnumber h.1, .inr ?_⟩
    rw [Packet.bytes, feedAll_number hpoint hnumber]
    exact feedAll_aborts (hclean _ (if_pos hnumber)) rfl rfl (Nat.succ_pos _)

variable {base : Word} {taken : List Byte}

theorem Storing.taking (h : Storing base taken taken [] s) (p : Packet)
    (hlen : (taken ++ p.data).length < 2 ^ 32) :
    Storing base (taken ++ p.data) (taken ++ p.data) [] (s.taking p) where
  buf := by
    rw [Receiver.taking, h.buf, List.length_append, p.length_data, BitVec.ofNat_add, BitVec.add_assoc]
  size := by
    rw [Receiver.taking, h.size, List.length_append, p.length_data, BitVec.ofNat_add]
  received := by rw [List.append_nil]
  holds := fun _ => by
    have hholds := h.holds (by rw [List.length_append] at hlen; omega)
    rw [List.append_nil] at hholds ⊢
    rw [Receiver.taking, h.buf]
    exact hholds.store (by rwa [← List.length_append])
  pending := rfl

theorem Storing.refusing (h : Storing base taken taken [] s) (p : Packet)
    (hlen : (taken ++ p.data).length < 2 ^ 32) : Storing base taken taken [] (s.refusing p) where
  buf := h.buf
  size := h.size
  received := h.received
  holds := fun _ => by
    have hholds := h.holds (by rw [List.length_append] at hlen; omega)
    rw [List.append_nil] at hholds ⊢
    rw [Receiver.refusing, h.buf]
    exact (hholds.store (by rwa [← List.length_append])).initial
  pending := rfl

end Receiver

end Fl2440.MyBoot
