import Fl2440.Gprs.ComPort
import Fl2440.Lib.CString

/-! `comport_send` writes a buffer in fragments, and gives up at the first write that does
not take all it is given. -/
namespace Fl2440.Gprs

open Fl2440.Lib

structure SendPort extends ComPort where
  frag_size : Nat

/-- `comport_init` -/
def sendPortInit (dev_name : String) : SendPort := { comportInit dev_name with frag_size := 128 }

structure Write where
  chunk : List Byte
  result : Int

namespace Write

def Whole (w : Write) : Prop := w.result = w.chunk.length

instance (w : Write) : Decidable w.Whole :=
  inferInstanceAs (Decidable (_ = _))

def accepted (w : Write) : List Byte := w.chunk.take w.result.toNat

end Write

/-- The result of the next call, with the calls there have been. -/
def write (results : Nat → Int) (writes : List Write) (chunk : List Byte) : Int × List Write :=
  (results writes.length, writes ++ [⟨chunk, results writes.length⟩])

/-- One round: where `ptr` stands after it, or a jump to `CleanUp`. -/
def sendFragment (frag_size : Nat) (buf : List Byte) (results : Nat → Int) (ptr : Nat) (writes : List Write) :
    Option Nat × List Write :=
  if frag_size < buf.length - ptr then
    let (send, writes) := write results writes ((buf.drop ptr).take frag_size)
    if 0 ≥ send ∨ frag_size ≠ send then (none, writes) else (some (ptr + frag_size), writes)
  else
    let (send, writes) := write results writes (buf.drop ptr)
    if 0 ≥ send ∨ (buf.length - ptr : Nat) ≠ send then (none, writes)
    else (some (ptr + (buf.length - ptr)), writes)

/-- `do … while (ptr < end)`, for at most so many rounds. -/
def sendLoop (frag_size : Nat) (buf : List Byte) (results : Nat → Int) :
    (rounds ptr : Nat) → List Write → Option (Int × List Write)
  | 0, _, _ => none
  | rounds + 1, ptr, writes =>
      match sendFragment frag_size buf results ptr writes with
      | (none, writes) => some (-4, writes)
      | (some ptr, writes) =>
          if ptr < buf.length then sendLoop frag_size buf results rounds ptr writes else some (0, writes)

/-- `comport_send`; the buffer has `send_bytes` bytes. -/
def comportSend (comport : SendPort) (buf : Option (List Byte)) (results : Nat → Int) (rounds : Nat) :
    Option (Int × List Write) :=
  match buf with
  | none | some [] => some (-1, [])
  | some buf =>
      if ¬ comport.is_connted then some (-3, [])
      else if comport.frag_size < buf.length then sendLoop comport.frag_size buf results rounds 0 []
      else
        let (send, writes) := write results [] buf
        if 0 ≥ send ∨ buf.length ≠ send then some (-5, writes) else some (0, writes)

/-- What holds of the writes when `comport_send` has returned. -/
structure Sent (frag_size : Nat) (buf : List Byte) (ret : Int) (writes : List Write) : Prop where
  zero_iff : ret = 0 ↔ ∀ w ∈ writes, w.Whole
  tiles : ret = 0 → writes.flatMap Write.chunk = buf
  sized : ∀ w ∈ writes, w.chunk ≠ [] ∧ w.chunk.length ≤ frag_size
  accepts : writes.flatMap Write.accepted <+: buf
  stops : ret ≠ 0 → ∃ before failing, writes = before ++ [failing] ∧ (∀ w ∈ before, w.Whole) ∧ ¬ failing.Whole

structure Tiled (frag_size : Nat) (buf : List Byte) (ptr : Nat) (writes : List Write) : Prop where
  whole : ∀ w ∈ writes, w.Whole
  sized : ∀ w ∈ writes, w.chunk ≠ [] ∧ w.chunk.length ≤ frag_size
  front : writes.flatMap Write.chunk = buf.take ptr

variable {frag_size ptr : Nat} {buf : List Byte} {results : Nat → Int} {writes : List Write}

theorem refused_iff {chunk : List Byte} (h : chunk ≠ []) (send : Int) :
    0 ≥ send ∨ chunk.length ≠ send ↔ ¬ Write.Whole ⟨chunk, send⟩ := by
  have hpos : 0 < chunk.length := List.length_pos_of_ne_nil h
  unfold Write.Whole
  simp only
  omega

theorem sendFragment_eq (results : Nat → Int) (writes : List Write) (hfrag : 0 < frag_size) (hptr : ptr < buf.length) :
    ∃ chunk, chunk ≠ [] ∧ chunk.length ≤ frag_size ∧ buf.take (ptr + chunk.length) = buf.take ptr ++ chunk ∧
      sendFragment frag_size buf results ptr writes =
        (if Write.Whole ⟨chunk, results writes.length⟩ then some (ptr + chunk.length) else none,
          writes ++ [⟨chunk, results writes.length⟩]) := by
  have hrest : (buf.drop ptr).length = buf.length - ptr := List.length_drop
  unfold sendFragment
  by_cases hlong : frag_size < buf.length - ptr
  · have hlength : ((buf.drop ptr).take frag_size).length = frag_size := List.length_take_of_le (by omega)
    have hne : (buf.drop ptr).take frag_size ≠ [] := List.ne_nil_of_length_pos (by omega)
    refine ⟨(buf.drop ptr).take frag_size, hne, hlength.le, ?_, ?_⟩
    · rw [hlength, List.take_add]
    · have hrefused := refused_iff hne (results writes.length)
      rw [hlength] at hrefused
      rw [if_pos hlong]
      simp only [write, hrefused, hlength, ite_not]
      split <;> rfl
  · have hne : buf.drop ptr ≠ [] := List.ne_nil_of_length_pos (by omega)
    refine ⟨buf.drop ptr, hne, by omega, ?_, ?_⟩
    · rw [List.take_append_drop, List.take_of_length_le (by omega)]
    · have hrefused := refused_iff hne (results writes.length)
      rw [hrest] at hrefused
      rw [if_neg hlong]
      simp only [write, hrefused, hrest, ite_not]
      split <;> rfl

theorem Tiled.accepted (h : Tiled frag_size buf ptr writes) : writes.flatMap Write.accepted = buf.take ptr := by
  rw [← h.front]
  apply List.flatMap_congr
  intro w hw
  have hwhole : w.result = w.chunk.length := h.whole w hw
  simp [Write.accepted, hwhole]

theorem Tiled.snoc {chunk : List Byte} {result : Int} (h : Tiled frag_size buf ptr writes) (hne : chunk ≠ [])
    (hsize : chunk.length ≤ frag_size) (hfront : buf.take (ptr + chunk.length) = buf.take ptr ++ chunk)
    (hwhole : Write.Whole ⟨chunk, result⟩) :
    Tiled frag_size buf (ptr + chunk.length) (writes ++ [⟨chunk, result⟩]) := by
  constructor
  · rw [List.forall_mem_append, List.forall_mem_singleton]
    exact ⟨h.whole, hwhole⟩
  · rw [List.forall_mem_append, List.forall_mem_singleton]
    exact ⟨h.sized, hne, hsize⟩
  · simp [h.front, hfront]

theorem Tiled.sent (h : Tiled frag_size buf ptr writes) (hend : buf.length ≤ ptr) : Sent frag_size buf 0 writes := by
  have hall : buf.take ptr = buf := List.take_of_length_le hend
  constructor
  · exact iff_of_true rfl h.whole
  · intro _
    rw [h.front, hall]
  · exact h.sized
  · rw [h.accepted, hall]
  · intro hne
    exact absurd rfl hne

theorem Tiled.refused {chunk : List Byte} {result ret : Int} (h : Tiled frag_size buf ptr writes) (hne : chunk ≠ [])
    (hsize : chunk.length ≤ frag_size) (hfront : buf.take (ptr + chunk.length) = buf.take ptr ++ chunk)
    (hrefused : ¬ Write.Whole ⟨chunk, result⟩) (hret : ret ≠ 0) :
    Sent frag_size buf ret (writes ++ [⟨chunk, result⟩]) := by
  constructor
  · refine iff_of_false hret ?_
    intro hall
    exact hrefused (hall _ (by simp))
  · intro hzero
    exact absurd hzero hret
  · rw [List.forall_mem_append, List.forall_mem_singleton]
    exact ⟨h.sized, hne, hsize⟩
  · have htaken : buf.take ptr ++ chunk <+: buf := hfront ▸ List.take_prefix _ _
    rw [List.flatMap_append, h.accepted, List.flatMap_singleton]
    exact (List.prefix_append_right_inj _).mpr (List.take_prefix _ _) |>.trans htaken
  · intro _
    exact ⟨writes, _, rfl, h.whole, hrefused⟩

theorem sendLoop_succ (results : Nat → Int) (writes : List Write) (hfrag : 0 < frag_size)
    (hptr : ptr < buf.length) :
    ∃ chunk, chunk ≠ [] ∧ chunk.length ≤ frag_size ∧ buf.take (ptr + chunk.length) = buf.take ptr ++ chunk ∧
      ∀ rounds, sendLoop frag_size buf results (rounds + 1) ptr writes =
        if Write.Whole ⟨chunk, results writes.length⟩ then
          if ptr + chunk.length < buf.length then
            sendLoop frag_size buf results rounds (ptr + chunk.length) (writes ++ [⟨chunk, results writes.length⟩])
          else some (0, writes ++ [⟨chunk, results writes.length⟩])
        else some (-4, writes ++ [⟨chunk, results writes.length⟩]) := by
  obtain ⟨chunk, hne, hsize, hfront, hround⟩ := sendFragment_eq results writes hfrag hptr
  refine ⟨chunk, hne, hsize, hfront, fun rounds => ?_⟩
  rw [sendLoop, hround]
  by_cases hwhole : Write.Whole ⟨chunk, results writes.length⟩
  · simp only [if_pos hwhole]
  · simp only [if_neg hwhole]

theorem sendLoop_sent (results : Nat → Int) (hfrag : 0 < frag_size) (k : Nat) (hptr : ptr < buf.length)
    (hk : buf.length ≤ ptr + k) (h : Tiled frag_size buf ptr writes) :
    ∃ ret all, Sent frag_size buf ret all ∧
      ∀ rounds ≥ k, sendLoop frag_size buf results rounds ptr writes = some (ret, all) := by
  induction k generalizing ptr writes with
  | zero => omega
  | succ k ih =>
      obtain ⟨chunk, hne, hsize, hfront, hround⟩ := sendLoop_succ results writes hfrag hptr
      have hpos : 0 < chunk.length := List.length_pos_of_ne_nil hne
      have hsucc : ∀ {rounds}, rounds ≥ k + 1 → ∃ more ≥ k, rounds = more + 1 := fun {rounds} hle =>
        ⟨rounds - 1, by omega, by omega⟩
      by_cases hwhole : Write.Whole ⟨chunk, results writes.length⟩
      · have hnext := h.snoc hne hsize hfront hwhole
        by_cases hmore : ptr + chunk.length < buf.length
        · obtain ⟨ret, all, hsent, hrest⟩ := ih hmore (by omega) hnext
          refine ⟨ret, all, hsent, fun rounds hle => ?_⟩
          obtain ⟨more, hmoreRounds, rfl⟩ := hsucc hle
          rw [hround, if_pos hwhole, if_pos hmore]
          exact hrest more hmoreRounds
        · refine ⟨0, _, hnext.sent (by omega), fun rounds hle => ?_⟩
          obtain ⟨more, -, rfl⟩ := hsucc hle
          rw [hround, if_pos hwhole, if_neg hmore]
      · refine ⟨-4, _, h.refused hne hsize hfront hwhole (by decide), fun rounds hle => ?_⟩
        obtain ⟨more, -, rfl⟩ := hsucc hle
        rw [hround, if_neg hwhole]

theorem tiled_nil : Tiled frag_size buf 0 [] := by
  constructor <;> simp

/-- On an open port `comport_send` ends, and what it returns tells what has been written. -/
theorem comportSend_sent (comport : SendPort) (buf : List Byte) (results : Nat → Int) (hbuf : 0 < buf.length)
    (hfrag : 0 < comport.frag_size) (hopen : comport.is_connted = true) :
    ∃ ret writes, Sent comport.frag_size buf ret writes ∧
      ∀ rounds ≥ buf.length, comportSend comport (some buf) results rounds = some (ret, writes) := by
  have hne : buf ≠ [] := List.ne_nil_of_length_pos hbuf
  by_cases hlong : comport.frag_size < buf.length
  · obtain ⟨ret, writes, hsent, hloop⟩ := sendLoop_sent results hfrag buf.length hbuf (by omega) tiled_nil
    refine ⟨ret, writes, hsent, fun rounds hle => ?_⟩
    rw [← hloop rounds hle]
    simp [comportSend, hopen, hlong]
  · have hsize : buf.length ≤ comport.frag_size := Nat.le_of_not_lt hlong
    have hall : buf.take (0 + buf.length) = buf.take 0 ++ buf := by simp
    have hrefused := refused_iff hne (results 0)
    by_cases hwhole : Write.Whole ⟨buf, results 0⟩
    · have hsent := tiled_nil.snoc hne hsize hall hwhole
      refine ⟨0, [⟨buf, results 0⟩], hsent.sent (by omega), fun rounds _ => ?_⟩
      simp [comportSend, hopen, hlong, write, hrefused, hwhole]
    · have hsent := tiled_nil.refused hne hsize hall hwhole (by decide : (-5 : Int) ≠ 0)
      refine ⟨-5, [⟨buf, results 0⟩], hsent, fun rounds _ => ?_⟩
      simp [comportSend, hopen, hlong, write, hrefused, hwhole]

theorem comportSend_sent_two_fragments :
    ∃ ret writes, Sent 2 (ascii "AT\r\n") ret writes ∧ ∀ rounds ≥ 4,
      comportSend { sendPortInit "/dev/ttyUSB0" with is_connted := true, frag_size := 2 } (some (ascii "AT\r\n"))
        (fun _ => 2) rounds = some (ret, writes) :=
  comportSend_sent { sendPortInit "/dev/ttyUSB0" with is_connted := true, frag_size := 2 } (ascii "AT\r\n") (fun _ => 2)
    (by decide) (by decide) rfl

end Fl2440.Gprs
