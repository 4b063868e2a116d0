import Fl2440.CpLibrary.CpSock

/-! One direction of a relay: what comes in on one socket goes out on another,
through the receive buffer of the first and the send buffer of the second. -/
namespace Fl2440.CpLibrary

open Fl2440.Lib

/-- The two sockets, all bytes received so far and all bytes sent so far. -/
structure Relay where
  src : Sock
  dst : Sock
  received : List Byte
  sent : List Byte

inductive RelayCall where
  | recv (recv : Recv) (now : ULong)
  | move
  | send (os : SendOs)

namespace Relay

def step (r : Relay) : RelayCall → Except Fault Relay
  | .recv recv now =>
      let (_, src, got) := cpSockRecv r.src recv now
      .ok { r with src, received := r.received ++ got }
  | .move => do
      let (_, sbuf, rbuf) ← cpStringMove r.dst.sbuf r.src.rbuf
      return { r with dst.sbuf := sbuf, src.rbuf := rbuf }
  | .send os => do
      let (_, dst, accepted) ← cpSockSend r.dst os
      return { r with dst, sent := r.sent ++ accepted }

/-- Both buffers are within bounds, and what is not sent yet stands in them in
the order it came. -/
structure Conserves (r : Relay) (sbuf rbuf : CpString) : Prop where
  dst_sbuf : r.dst.sbuf = some sbuf
  src_rbuf : r.src.rbuf = some rbuf
  sbuf_bounded : sbuf.Bounded
  rbuf_bounded : rbuf.Bounded
  stream : r.received = r.sent ++ sbuf.contents ++ rbuf.contents

def start (src dst : Sock) (rsize ssize : Nat) (rdata sdata : Mem) : Relay where
  src := { src with rbuf := some ⟨rsize, 0, rdata⟩ }
  dst := { dst with sbuf := some ⟨ssize, 0, sdata⟩ }
  received := []
  sent := []

end Relay

theorem cpSockRecv_cases {s : Sock} {rbuf : CpString} (hbuf : s.rbuf = some rbuf) (recv : Recv)
    (now : ULong) :
    (∃ rv, cpSockRecv s recv now = (rv, s, [])) ∨
      ∃ (rv : Int) (got : List Byte), (got.length : Int) ≤ rbuf.size - rbuf.len ∧ cpSockRecv s recv now =
        (rv, { s with rbuf := some (rbuf.append got), actvTime := now, msgTime := now }, got) := by
  unfold cpSockRecv
  rw [hbuf]
  simp only
  split
  · exact Or.inl ⟨_, rfl⟩
  · split
    · exact Or.inl ⟨_, rfl⟩
    · cases recv with
      | again => exact Or.inl ⟨_, rfl⟩
      | failed => exact Or.inl ⟨_, rfl⟩
      | data bytes =>
          simp only
          split
          · exact Or.inl ⟨_, rfl⟩
          · refine Or.inr ⟨_, _, ?_, rfl⟩
            have hlen := List.length_take_le (rbuf.size - rbuf.len).toNat bytes
            omega

theorem cpSockSend_cases {s : Sock} {sbuf : CpString} (hbuf : s.sbuf = some sbuf) (os : SendOs) :
    (∃ rv, cpSockSend s os = .ok (rv, s, [])) ∨
      ∃ (rv : Int) (n : Nat), (n : Int) ≤ sbuf.len ∧ cpSockSend s os = .ok
        (rv, { s with sbuf := some (sbuf.drop n), actvTime := os.now }, sbuf.contents.take n) := by
  unfold cpSockSend
  split
  · exact Or.inl ⟨_, rfl⟩
  · rw [hbuf]
    simp only
    split
    · exact Or.inl ⟨_, rfl⟩
    · split
      · cases os.send with
        | again => exact Or.inl ⟨_, rfl⟩
        | failed => exact Or.inl ⟨_, rfl⟩
        | sent n =>
            refine Or.inr ⟨_, min n sbuf.len.toNat, ?_, rfl⟩
            omega
      · exact Or.inl ⟨_, rfl⟩

namespace Relay

theorem Conserves.recv {r : Relay} {sbuf rbuf : CpString} (h : r.Conserves sbuf rbuf)
    (recv : Recv) (now : ULong) :
    ∃ r' rbuf', r.step (.recv recv now) = .ok r' ∧ r'.Conserves sbuf rbuf' := by
  rcases cpSockRecv_cases h.src_rbuf recv now with ⟨rv, heq⟩ | ⟨rv, got, hroom, heq⟩
  · have hstep : r.step (.recv recv now) = .ok { r with received := r.received ++ [] } := by
      simp only [step, heq]
    rw [List.append_nil] at hstep
    exact ⟨r, rbuf, hstep, h⟩
  · have hstep : r.step (.recv recv now) = .ok { r with
        src := { r.src with rbuf := some (rbuf.append got), actvTime := now, msgTime := now }
        received := r.received ++ got } := by
      simp only [step, heq]
    refine ⟨_, rbuf.append got, hstep, h.dst_sbuf, rfl, h.sbuf_bounded,
      h.rbuf_bounded.append hroom, ?_⟩
    calc r.received ++ got
        = r.sent ++ sbuf.contents ++ rbuf.contents ++ got := by rw [h.stream]
      _ = r.sent ++ sbuf.contents ++ (rbuf.contents ++ got) := List.append_assoc ..
      _ = r.sent ++ sbuf.contents ++ (rbuf.append got).contents := by
          rw [CpString.contents_append rbuf h.rbuf_bounded.1]

theorem Conserves.move {r : Relay} {sbuf rbuf : CpString} (h : r.Conserves sbuf rbuf) :
    ∃ r' sbuf' rbuf', r.step .move = .ok r' ∧ r'.Conserves sbuf' rbuf' := by
  obtain ⟨n, sbuf', rbuf', hmove, hs, hr, hsc, hrc⟩ :=
    cpStringMove_spec h.sbuf_bounded h.rbuf_bounded
  have hstep : r.step .move = .ok { r with dst.sbuf := some sbuf', src.rbuf := some rbuf' } := by
    simp only [step, h.dst_sbuf, h.src_rbuf, hmove]
    rfl
  refine ⟨_, sbuf', rbuf', hstep, rfl, rfl, hs, hr, ?_⟩
  calc r.received
      = r.sent ++ sbuf.contents ++ rbuf.contents := h.stream
    _ = r.sent ++ sbuf.contents ++ (rbuf.contents.take n ++ rbuf.contents.drop n) := by
        rw [List.take_append_drop]
    _ = r.sent ++ sbuf'.contents ++ rbuf'.contents := by
        rw [hsc, hrc]
        simp only [List.append_assoc]

theorem Conserves.send {r : Relay} {sbuf rbuf : CpString} (h : r.Conserves sbuf rbuf)
    (os : SendOs) : ∃ r' sbuf', r.step (.send os) = .ok r' ∧ r'.Conserves sbuf' rbuf := by
  rcases cpSockSend_cases h.dst_sbuf os with ⟨rv, heq⟩ | ⟨rv, n, hn, heq⟩
  · have hstep : r.step (.send os) = .ok { r with sent := r.sent ++ [] } := by
      simp only [step, heq]
      rfl
    rw [List.append_nil] at hstep
    exact ⟨r, sbuf, hstep, h⟩
  · have hstep : r.step (.send os) = .ok { r with
        dst := { r.dst with sbuf := some (sbuf.drop n), actvTime := os.now }
        sent := r.sent ++ sbuf.contents.take n } := by
      simp only [step, heq]
      rfl
    refine ⟨_, sbuf.drop n, hstep, rfl, h.src_rbuf, h.sbuf_bounded.drop hn, h.rbuf_bounded, ?_⟩
    calc r.received
        = r.sent ++ (sbuf.contents.take n ++ sbuf.contents.drop n) ++ rbuf.contents := by
          rw [List.take_append_drop, h.stream]
      _ = r.sent ++ sbuf.contents.take n ++ (sbuf.drop n).contents ++ rbuf.contents := by
          rw [CpString.contents_drop sbuf hn]
          simp only [List.append_assoc]

theorem Conserves.step {r : Relay} {sbuf rbuf : CpString} (h : r.Conserves sbuf rbuf)
    (call : RelayCall) :
    ∃ r', r.step call = .ok r' ∧ ∃ sbuf' rbuf', r'.Conserves sbuf' rbuf' := by
  cases call with
  | recv recv now =>
      obtain ⟨r', rbuf', hstep, hr⟩ := h.recv recv now
      exact ⟨r', hstep, sbuf, rbuf', hr⟩
  | move =>
      obtain ⟨r', sbuf', rbuf', hstep, hr⟩ := h.move
      exact ⟨r', hstep, sbuf', rbuf', hr⟩
  | send os =>
      obtain ⟨r', sbuf', hstep, hr⟩ := h.send os
      exact ⟨r', hstep, sbuf', rbuf, hr⟩

theorem conserves_start (src dst : Sock) (rsize ssize : Nat) (rdata sdata : Mem) :
    (start src dst rsize ssize rdata sdata).Conserves ⟨ssize, 0, sdata⟩ ⟨rsize, 0, rdata⟩ :=
  ⟨rfl, rfl, ⟨le_rfl, Int.natCast_nonneg ssize⟩, ⟨le_rfl, Int.natCast_nonneg rsize⟩, rfl⟩

/-- Whatever the calls and their outcomes, no byte on its way through the relay
is lost, duplicated or moved. -/
theorem relay_conserves_stream (src dst : Sock) (rsize ssize : Nat) (rdata sdata : Mem)
    (calls : List RelayCall) :
    ∃ r, exec step (start src dst rsize ssize rdata sdata) calls = .ok r ∧
      ∃ sbuf rbuf, r.dst.sbuf = some sbuf ∧ r.src.rbuf = some rbuf ∧
        r.received = r.sent ++ sbuf.contents ++ rbuf.contents ∧ sbuf.Bounded ∧ rbuf.Bounded := by
  obtain ⟨r, hexec, sbuf, rbuf, h⟩ :=
    exec_total (P := fun r : Relay => ∃ sbuf rbuf, r.Conserves sbuf rbuf)
      (fun _ call ⟨_, _, h⟩ => h.step call)
      ⟨_, _, conserves_start src dst rsize ssize rdata sdata⟩ calls
  exact ⟨r, hexec, sbuf, rbuf, h.dst_sbuf, h.src_rbuf, h.stream, h.sbuf_bounded, h.rbuf_bounded⟩

end Relay

end Fl2440.CpLibrary
