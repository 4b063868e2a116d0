import Fl2440.Lib.Run
import Fl2440.MyBoot.XmodemPacket

/-! A sender and the receiver on a serial line that damages packets. The sender
answers each reply with one signal; the receiver may ask more than once before
the first byte, so that signals and replies can cross. -/
namespace Fl2440.MyBoot

open Fl2440.Lib Xmodem

structure Block where
  data : List Byte
  length_data : data.length = blockSize

inductive Signal where
  | block (k : Nat) (b : Block)
  | eot

/-- Block `k`, counted from 0, as it is sent. -/
def Block.packet (b : Block) (k : Nat) : Packet where
  number := BitVec.ofNat 8 (k + 1)
  complement := ~~~BitVec.ofNat 8 (k + 1)
  data := b.data
  check := Packet.sum b.data
  length_data := b.length_data

def Signal.bytes : Signal → List Byte
  | block k b => (b.packet k).bytes
  | eot => [EOT]

def content (blocks : List Block) : List Byte := blocks.flatMap Block.data

structure Link where
  /-- the block that the sender is at -/
  next : Nat
  /-- it has sent EOT -/
  ended : Bool
  line : List Signal
  replies : List Byte
  receiver : Receiver

inductive Event where
  /-- `xmodem_wait` asks for the first byte -/
  | wait
  /-- the sender reads a reply -/
  | answer
  | arrive
  /-- a packet comes as this one -/
  | damaged (p : Packet)

namespace Link

def start (ram : Ram) (buf : Word) : Link := ⟨0, false, [], [], .start ram buf⟩

def send (file : List Block) (s : Link) : Link :=
  match file[s.next]? with
  | some b => { s with line := s.line ++ [.block s.next b] }
  | none => { s with line := s.line ++ [.eot], ended := true }

/-- The sender: again on NAK, the next on ACK. -/
def reply (file : List Block) (s : Link) (c : Byte) : Link :=
  if c = NAK then s.send file
  else if c = ACK ∧ s.next < file.length then send file { s with next := s.next + 1 }
  else s

def receive (s : Link) (rest : List Signal) (bytes : List Byte) : Link :=
  { s with
    line := rest
    receiver := (s.receiver.feedAll bytes).1
    replies := s.replies ++ (s.receiver.feedAll bytes).2 }

def step (file : List Block) (s : Link) : Event → Except Unit Link
  | .wait => if s.receiver.waits then .ok { s with replies := s.replies ++ [NAK] } else .error ()
  | .answer =>
      match s.replies with
      | [] => .error ()
      | c :: replies => .ok (reply file { s with replies := replies } c)
  | .arrive =>
      match s.line with
      | [] => .error ()
      | signal :: rest => .ok (s.receive rest signal.bytes)
  | .damaged p =>
      match s.line with
      | .block _ _ :: rest =>
          if p.Passes s.receiver.block_number then .error () else .ok (s.receive rest p.bytes)
      | _ => .error ()

/-- What is returned without an error is the file, but for padding, and the sender
was at its end. -/
def Intact (file : List Block) (base : Word) (s : Link) : Prop :=
  ∀ n, s.receiver.point = .returned n → n.slt 0 = false →
    s.ended = true ∧ n.toNat ≤ (content file).length ∧
      s.receiver.ram.Holds base ((content file).take n.toNat) ∧
      ∀ b ∈ (content file).drop n.toNat, b = EOF

/-- No byte of a packet that is given up passes for a command. -/
def Clean (s : Link) : Event → Prop
  | .arrive =>
      match s.line with
      | .block k b :: _ => s.receiver.LeavesNoCommand (b.packet k)
      | _ => True
  | .damaged p => s.receiver.LeavesNoCommand p
  | _ => True

instance (s : Link) : (e : Event) → Decidable (Clean s e)
  | .wait => .isTrue trivial
  | .answer => .isTrue trivial
  | .arrive =>
      match h : s.line with
      | .block k b :: _ => decidable_of_iff (s.receiver.LeavesNoCommand (b.packet k)) (by rw [Clean, h])
      | .eot :: _ => .isTrue (by rw [Clean, h]; trivial)
      | [] => .isTrue (by rw [Clean, h]; trivial)
  | .damaged p => inferInstanceAs (Decidable (s.receiver.LeavesNoCommand p))

def index (file : List Block) : Signal → Nat
  | .block k _ => k
  | .eot => file.length

/-- A signal that the sender, at block `next`, may have on the line when the receiver
has `taken` blocks: at most one behind. -/
def OnLine (file : List Block) (s : Link) (taken : Nat) : Signal → Prop
  | .block k b => file[k]? = some b ∧ taken ≤ k + 1 ∧ k ≤ s.next
  | .eot => s.next = file.length ∧ s.ended = true

/-- The receiver is between packets and has taken the first blocks of the file. -/
structure Synced (file : List Block) (base : Word) (taken : Nat) (s : Link) : Prop where
  point : s.receiver.point = .command
  storing : s.receiver.Storing base (content (file.take taken)) (content (file.take taken)) []
  number : s.receiver.block_number = BitVec.ofNat 8 (taken + 1)
  taken_le : taken ≤ file.length
  next_le : s.next ≤ taken
  replies : ∀ c ∈ s.replies, c = ACK ∨ c = NAK
  acks : s.replies.count ACK + s.next = taken
  le_next : taken ≤ s.next + 1
  ordered : s.line.Pairwise fun first second => index file first ≤ index file second
  line : ∀ signal ∈ s.line, OnLine file s taken signal

variable {file : List Block} {base : Word} {taken : Nat} {s t : Link} {rest : List Signal}

theorem content_take_succ {b : Block} (h : file[taken]? = some b) :
    content (file.take (taken + 1)) = content (file.take taken) ++ b.data := by
  rw [List.take_add_one, h, content, List.flatMap_append]
  simp [content]

theorem length_content_take_le (file : List Block) (taken : Nat) :
    (content (file.take taken)).length ≤ (content file).length := by
  conv_rhs => rw [← List.take_append_drop taken file, content, List.flatMap_append, List.length_append]
  exact Nat.le_add_right _ _

theorem number_ne (taken : Nat) : BitVec.ofNat 8 taken ≠ BitVec.ofNat 8 (taken + 1) := by
  intro h
  have := congrArg BitVec.toNat h
  rw [BitVec.toNat_ofNat, BitVec.toNat_ofNat] at this
  omega

theorem passes_packet (b : Block) (k : Nat) (block_number : Byte) :
    (b.packet k).Passes block_number ↔ BitVec.ofNat 8 (k + 1) = block_number := by
  have hcomplement : ∀ x : Byte, x ^^^ ~~~x = 0xff := by decide
  refine ⟨fun h => h.1, fun h => ⟨h, hcomplement _, BitVec.xor_self⟩⟩

theorem send_cases (file : List Block) (s : Link) :
    (∃ b, file[s.next]? = some b ∧ s.send file = { s with line := s.line ++ [.block s.next b] }) ∨
      (file.length ≤ s.next ∧ s.send file = { s with line := s.line ++ [.eot], ended := true }) := by
  rw [send]
  cases h : file[s.next]? with
  | some b => exact .inl ⟨b, rfl, rfl⟩
  | none => exact .inr ⟨List.getElem?_eq_none_iff.mp h, rfl⟩

theorem Synced.send (h : Synced file base taken s) : Synced file base taken (s.send file) := by
  have hbehind : ∀ signal ∈ s.line, index file signal ≤ s.next := by
    intro signal hsignal
    have hline := h.line signal hsignal
    cases signal with
    | block k b => exact hline.2.2
    | eot => exact hline.1.ge
  rcases send_cases file s with ⟨b, hb, hsend⟩ | ⟨hend, hsend⟩
  · rw [hsend]
    refine ⟨h.point, h.storing, h.number, h.taken_le, h.next_le, h.replies, h.acks, h.le_next, ?_, ?_⟩
    · exact List.pairwise_append.mpr ⟨h.ordered, List.pairwise_singleton _ _, fun signal hsignal last hlast => by
        rw [List.mem_singleton.mp hlast]
        exact hbehind signal hsignal⟩
    · intro signal hsignal
      rcases List.mem_append.mp hsignal with hold | hnew
      · exact h.line signal hold
      · rw [List.mem_singleton.mp hnew]
        exact ⟨hb, h.le_next, le_rfl⟩
  · have hnext : s.next = file.length := Nat.le_antisymm (h.next_le.trans h.taken_le) hend
    rw [hsend]
    refine ⟨h.point, h.storing, h.number, h.taken_le, h.next_le, h.replies, h.acks, h.le_next, ?_, ?_⟩
    · exact List.pairwise_append.mpr ⟨h.ordered, List.pairwise_singleton _ _, fun signal hsignal last hlast => by
        rw [List.mem_singleton.mp hlast]
        exact (hbehind signal hsignal).trans hnext.le⟩
    · intro signal hsignal
      rcases List.mem_append.mp hsignal with hold | hnew
      · have hline := h.line signal hold
        cases signal with
        | block k b => exact hline
        | eot => exact ⟨hline.1, rfl⟩
      · rw [List.mem_singleton.mp hnew]
        exact ⟨hnext, rfl⟩

theorem Synced.reply {c : Byte} {replies : List Byte} (h : Synced file base taken s)
    (hreplies : s.replies = c :: replies) :
    Synced file base taken (reply file { s with replies := replies } c) := by
  have hlater : ∀ c ∈ replies, c = ACK ∨ c = NAK := fun c hc =>
    h.replies c (hreplies ▸ List.mem_cons_of_mem _ hc)
  have hacks := h.acks
  rw [hreplies, List.count_cons] at hacks
  rw [Link.reply]
  rcases h.replies c (hreplies ▸ List.mem_cons_self) with rfl | rfl
  · -- the sender goes on to a block that the receiver waits for already
    rw [if_pos (by decide)] at hacks
    have hle := h.taken_le
    have hlt : s.next < file.length := by omega
    rw [if_neg (by decide), if_pos ⟨rfl, hlt⟩]
    apply Synced.send
    refine ⟨h.point, h.storing, h.number, h.taken_le, ?_, hlater, ?_, ?_, h.ordered, ?_⟩
    · show s.next + 1 ≤ taken
      omega
    · show replies.count ACK + (s.next + 1) = taken
      omega
    · exact h.le_next.trans (Nat.le_succ _)
    · intro signal hsignal
      have hline := h.line signal hsignal
      cases signal with
      | block k b => exact ⟨hline.1, hline.2.1, hline.2.2.trans (Nat.le_succ _)⟩
      | eot => exact absurd hline.1 hlt.ne
  · rw [if_neg (by decide), Nat.add_zero] at hacks
    rw [if_pos rfl]
    apply Synced.send
    exact ⟨h.point, h.storing, h.number, h.taken_le, h.next_le, hlater, hacks, h.le_next, h.ordered, h.line⟩

theorem Synced.nak (h : Synced file base taken s) {receiver : Receiver} {rest : List Signal}
    (hpoint : receiver.point = .command)
    (hstoring : receiver.Storing base (content (file.take taken)) (content (file.take taken)) [])
    (hnumber : receiver.block_number = s.receiver.block_number) (hrest : rest.Sublist s.line) :
    Synced file base taken { s with line := rest, receiver := receiver, replies := s.replies ++ [NAK] } where
  point := hpoint
  storing := hstoring
  number := hnumber.trans h.number
  taken_le := h.taken_le
  next_le := h.next_le
  replies := by
    intro c hc
    rcases List.mem_append.mp hc with hold | hnew
    · exact h.replies c hold
    · exact .inr (List.mem_singleton.mp hnew)
  acks := by
    have hnone : [NAK].count ACK = 0 := by decide
    show (s.replies ++ [NAK]).count ACK + s.next = taken
    rw [List.count_append, hnone]
    exact h.acks
  le_next := h.le_next
  ordered := h.ordered.sublist hrest
  line := fun signal hsignal => h.line signal (hrest.subset hsignal)

theorem Synced.take (h : Synced file base taken s) (hlen : (content file).length < 2 ^ 31) {b : Block}
    (hline : s.line = .block taken b :: rest) :
    Synced file base (taken + 1) { s with
      line := rest
      receiver := s.receiver.taking (b.packet taken)
      replies := s.replies ++ [ACK] } := by
  obtain ⟨hb, -, hnext⟩ : OnLine file s taken (.block taken b) :=
    h.line _ (by rw [hline]; exact List.mem_cons_self)
  have hlt : taken < file.length := (List.getElem?_eq_some_iff.mp hb).1
  have hcontent := content_take_succ hb
  have hordered := h.ordered
  rw [hline, List.pairwise_cons] at hordered
  refine ⟨rfl, ?_, ?_, hlt, h.next_le.trans (Nat.le_succ _), ?_, ?_, Nat.succ_le_succ hnext, hordered.2, ?_⟩
  · rw [hcontent]
    have hall := length_content_take_le file (taken + 1)
    rw [hcontent] at hall
    exact h.storing.taking (b.packet taken) (hall.trans_lt (hlen.trans (by decide)))
  · show s.receiver.block_number + 1 = _
    rw [h.number, BitVec.ofNat_add (taken + 1) 1]
    rfl
  · intro c hc
    rcases List.mem_append.mp hc with hold | hnew
    · exact h.replies c hold
    · exact .inl (List.mem_singleton.mp hnew)
  · have hone : [ACK].count ACK = 1 := by decide
    have hacks := h.acks
    show (s.replies ++ [ACK]).count ACK + s.next = taken + 1
    rw [List.count_append, hone]
    omega
  · intro signal hsignal
    have hold := h.line signal (by rw [hline]; exact List.mem_cons_of_mem _ hsignal)
    have hbehind := hordered.1 signal hsignal
    cases signal with
    | block k b' => exact ⟨hold.1, Nat.succ_le_succ hbehind, hold.2.2⟩
    | eot => exact hold

theorem feedAll_eot {r : Receiver} (hpoint : r.point = .command) :
    r.feedAll [EOT] = ({ r with point := r.finish }, [ACK]) := by
  have hfeed : r.feed EOT = ({ r with point := r.finish }, [ACK]) := by
    rw [Receiver.feed, hpoint]
    rfl
  rw [Receiver.feedAll_cons hfeed]
  rfl

theorem Synced.finish (h : Synced file base taken s) (hlen : (content file).length < 2 ^ 31)
    (hline : s.line = .eot :: rest) : Intact file base (s.receive rest Signal.eot.bytes) := by
  obtain ⟨hnext, hended⟩ : OnLine file s taken .eot := h.line _ (by rw [hline]; exact List.mem_cons_self)
  have htaken : taken = file.length := Nat.le_antisymm h.taken_le (hnext ▸ h.next_le)
  have hstoring := h.storing
  rw [htaken, List.take_length] at hstoring
  have hholds := hstoring.holds (by omega)
  rw [List.append_nil] at hholds
  have hfed : s.receiver.feedAll Signal.eot.bytes = ({ s.receiver with point := s.receiver.finish }, [ACK]) :=
    feedAll_eot h.point
  have hend : ({ s.receiver with point := s.receiver.finish } : Receiver).Storing base (content file)
      (content file) [] :=
    ⟨hstoring.buf, hstoring.size, hstoring.received, hstoring.holds,
      Receiver.pending_finish s.receiver s.receiver.receiving⟩
  intro n hn hpos
  rw [receive, hfed] at hn ⊢
  obtain ⟨hle, heof⟩ := hend.returned (Receiver.returns_finish s.receiver) hn hpos hlen
  have hsplit := List.take_append_drop n.toNat (content file)
  refine ⟨hended, hle, ?_, fun b hb => ?_⟩
  · rw [← hsplit] at hholds
    exact hholds.initial
  · obtain ⟨i, hi, rfl⟩ := List.mem_iff_getElem.mp hb
    rw [List.getElem_drop]
    exact heof _ _ (Nat.le_add_right _ _)

def Stopped (r : Receiver) : Prop := r.point = .overrun ∨ ∃ n, r.point = .returned n

theorem Stopped.feedAll {r : Receiver} (h : Stopped r) (input : List Byte) : r.feedAll input = (r, []) := by
  rcases h with h | ⟨n, h⟩
  · exact Receiver.feedAll_overrun h input
  · exact Receiver.feedAll_returned h input

theorem stopped_finish (r : Receiver) : Stopped { r with point := r.finish } := by
  rw [Stopped, Receiver.finish]
  cases r.padding with
  | some cnt => exact .inr ⟨_, rfl⟩
  | none => exact .inl rfl

def Sound (file : List Block) (base : Word) (s : Link) : Prop :=
  (∃ taken, Synced file base taken s) ∨ (Stopped s.receiver ∧ Intact file base s)

theorem Synced.intact (h : Synced file base taken s) : Intact file base s := by
  intro n hn
  rw [h.point] at hn
  cases hn

theorem Sound.intact (h : Sound file base s) : Intact file base s := by
  rcases h with ⟨taken, h⟩ | ⟨-, h⟩
  · exact h.intact
  · exact h

theorem Sound.failed (hpoint : s.receiver.point = .returned failure) : Sound file base s := by
  refine .inr ⟨.inr ⟨_, hpoint⟩, fun n hn hpos => ?_⟩
  rw [hpoint] at hn
  cases hn
  cases hpos

theorem Intact.mono (h : Intact file base s) (hreceiver : t.receiver = s.receiver)
    (hended : s.ended = true → t.ended = true) : Intact file base t := by
  intro n hn hpos
  rw [hreceiver] at hn ⊢
  obtain ⟨hend, hrest⟩ := h n hn hpos
  exact ⟨hended hend, hrest⟩

theorem send_receiver (file : List Block) (s : Link) : (s.send file).receiver = s.receiver := by
  rw [send]
  split <;> rfl

theorem send_ended (file : List Block) (s : Link) (h : s.ended = true) : (s.send file).ended = true := by
  rw [send]
  split
  · exact h
  · rfl

theorem reply_receiver (file : List Block) (s : Link) (c : Byte) : (s.reply file c).receiver = s.receiver := by
  rw [Link.reply]
  split_ifs
  · exact send_receiver file s
  · exact send_receiver file _
  · rfl

theorem reply_ended (file : List Block) (s : Link) (c : Byte) (h : s.ended = true) :
    (s.reply file c).ended = true := by
  rw [Link.reply]
  split_ifs
  · exact send_ended file s h
  · exact send_ended file _ h
  · exact h

theorem Synced.refuse (h : Synced file base taken s) (hlen : (content file).length < 2 ^ 31) {p : Packet}
    (hrest : rest.Sublist s.line) (hclean : s.receiver.LeavesNoCommand p)
    (hpasses : ¬ p.Passes s.receiver.block_number) : Sound file base (s.receive rest p.bytes) := by
  have hall := length_content_take_le file taken
  rcases Receiver.feedAll_packet_cases h.point hclean with ⟨hpass, -⟩ | ⟨-, hrefused | hfailed⟩
  · exact absurd hpass hpasses
  · have hstoring := h.storing.refusing p (by
      rw [List.length_append, p.length_data, blockSize]
      omega)
    rw [receive, hrefused]
    exact .inl ⟨taken, h.nak rfl hstoring rfl hrest⟩
  · exact Sound.failed hfailed

theorem Synced.arrive (h : Synced file base taken s) (hlen : (content file).length < 2 ^ 31) {k : Nat}
    {b : Block} (hline : s.line = .block k b :: rest) (hclean : s.receiver.LeavesNoCommand (b.packet k)) :
    Sound file base (s.receive rest (b.packet k).bytes) := by
  obtain ⟨-, hbehind, hnext⟩ : OnLine file s taken (.block k b) :=
    h.line _ (by rw [hline]; exact List.mem_cons_self)
  have hsublist : rest.Sublist s.line := by
    rw [hline]
    exact List.sublist_cons_self _ _
  rcases Receiver.feedAll_packet_cases h.point hclean with ⟨hpass, htaking⟩ | ⟨hpass, -⟩
  · -- block numbers repeat after 256 blocks, but this one is at most one behind
    have hk : k = taken := by
      have hnumber := (passes_packet b k s.receiver.block_number).mp hpass
      rw [h.number] at hnumber
      have hne : k + 1 ≠ taken := fun heq => number_ne taken (heq ▸ hnumber)
      have := h.next_le
      omega
    subst hk
    rw [receive, htaking]
    exact .inl ⟨_, h.take hlen hline⟩
  · exact h.refuse hlen hsublist hclean hpass

theorem Synced.step (h : Synced file base taken s) (hlen : (content file).length < 2 ^ 31) {e : Event}
    (hclean : Clean s e) (hstep : s.step file e = .ok t) : Sound file base t := by
  cases e with
  | wait =>
      rw [Link.step] at hstep
      split at hstep
      · cases hstep
        exact .inl ⟨taken, h.nak h.point h.storing rfl (List.Sublist.refl _)⟩
      · cases hstep
  | answer =>
      rw [Link.step] at hstep
      split at hstep
      · cases hstep
      next hreplies =>
        cases hstep
        exact .inl ⟨taken, h.reply hreplies⟩
  | arrive =>
      rw [Clean] at hclean
      rw [Link.step] at hstep
      split at hstep
      · cases hstep
      next signal rest hline =>
        cases hstep
        cases signal with
        | block k b =>
            rw [hline] at hclean
            exact h.arrive hlen hline hclean
        | eot =>
            refine .inr ⟨?_, h.finish hlen hline⟩
            rw [receive, Signal.bytes, feedAll_eot h.point]
            exact stopped_finish s.receiver
  | damaged p =>
      rw [Link.step] at hstep
      split at hstep
      next hline =>
        split at hstep
        · cases hstep
        next hpasses =>
          cases hstep
          refine h.refuse hlen ?_ hclean hpasses
          rw [hline]
          exact List.sublist_cons_self _ _
      · cases hstep

theorem receive_stopped (h : Stopped s.receiver) (rest : List Signal) (bytes : List Byte) :
    (s.receive rest bytes).receiver = s.receiver := by
  rw [receive, h.feedAll]

theorem step_stopped (h : Stopped s.receiver) (hintact : Intact file base s) {e : Event}
    (hstep : s.step file e = .ok t) : Stopped t.receiver ∧ Intact file base t := by
  cases e with
  | wait =>
      rw [Link.step] at hstep
      split at hstep
      · cases hstep
        exact ⟨h, hintact.mono rfl id⟩
      · cases hstep
  | answer =>
      rw [Link.step] at hstep
      split at hstep
      · cases hstep
      next c replies _ =>
        cases hstep
        have hsame := reply_receiver file { s with replies := replies } c
        exact ⟨by rwa [hsame], hintact.mono hsame fun hend => reply_ended file _ c hend⟩
  | arrive =>
      rw [Link.step] at hstep
      split at hstep
      · cases hstep
      next signal rest _ =>
        cases hstep
        have hsame := receive_stopped h rest signal.bytes
        exact ⟨hsame ▸ h, hintact.mono hsame id⟩
  | damaged p =>
      rw [Link.step] at hstep
      split at hstep
      next _ _ rest _ =>
        split at hstep
        · cases hstep
        · cases hstep
          have hsame := receive_stopped h rest p.bytes
          exact ⟨hsame ▸ h, hintact.mono hsame id⟩
      · cases hstep

theorem Sound.step (h : Sound file base s) (hlen : (content file).length < 2 ^ 31) {e : Event}
    (hclean : Clean s e) (hstep : s.step file e = .ok t) : Sound file base t := by
  rcases h with ⟨taken, h⟩ | ⟨hstopped, hintact⟩
  · exact h.step hlen hclean hstep
  · exact .inr (step_stopped hstopped hintact hstep)

theorem sound_start (file : List Block) (ram : Ram) (base : Word) : Sound file base (start ram base) :=
  .inl ⟨0, {
    point := rfl
    storing := Receiver.storing_start ram base
    number := rfl
    taken_le := Nat.zero_le _
    next_le := le_rfl
    replies := List.forall_mem_nil _
    acks := rfl
    le_next := Nat.zero_le _
    ordered := List.Pairwise.nil
    line := List.forall_mem_nil _ }⟩

/-- As long as no part of a packet that is given up is taken for a command, what the
receiver returns is what the sender has sent, to its end. -/
theorem intact_of_clean (file : List Block) (ram : Ram) (base : Word) (events : List Event) (s : Link)
    (hlen : (content file).length < 2 ^ 31) (hclean : Along (step file) Clean (start ram base) events)
    (hrun : exec (step file) (start ram base) events = .ok s) : Intact file base s :=
  (exec_preserves (P := Sound file base) (fun _ _ _ hok hsound hstep => hsound.step hlen hok hstep)
    (sound_start file ram base) hclean hrun).intact

section Runs

def oneBlock (c : Byte) : Block where
  data := c :: List.replicate 127 0x41
  length_data := by rw [List.length_cons, List.length_replicate]; rfl

def resent : List Event :=
  [.wait, .answer, .damaged { (oneBlock 0x41).packet 0 with check := 0 }, .answer, .arrive, .answer, .arrive]

theorem intact_resent : ∃ s, exec (step [oneBlock 0x41]) (start (fun _ => 0) 0x33000000) resent = .ok s ∧
    s.receiver.point = .returned 128 ∧ Intact [oneBlock 0x41] 0x33000000 s := by
  have hreturned : (fun s => s.receiver.point) <$>
      exec (step [oneBlock 0x41]) (start (fun _ => 0) 0x33000000) resent = .ok (.returned 128) := by
    decide +kernel
  obtain ⟨s, hrun, hpoint⟩ := map_eq_ok_iff.mp hreturned
  exact ⟨s, hrun, hpoint, intact_of_clean _ _ _ resent s (by decide +kernel) (by decide +kernel) hrun⟩

/-- The complement comes wrong, and the first data byte is taken for the end of the file. -/
theorem data_byte_ends_transfer :
    ¬ ∀ s, exec (step [oneBlock EOT]) (start (fun _ => 0) 0x33000000)
        [.wait, .answer, .damaged { (oneBlock EOT).packet 0 with complement := 0 }] = .ok s →
      Intact [oneBlock EOT] 0x33000000 s := by
  intro h
  have hended := (h _ rfl 0 (by decide) (by decide)).1
  exact absurd hended (by decide)

end Runs

end Link

end Fl2440.MyBoot
