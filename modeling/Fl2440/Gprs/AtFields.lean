import Fl2440.Gprs.SendAtcmd
import Mathlib.Data.List.TakeWhile

/-! The functions of `cp_atcmd.c` that cut a field out of a reply. The reply is copied to
`tmp`, whose end is neither the end of the reply nor looked at. -/
namespace Fl2440.Gprs

open Fl2440.Lib

def atcmdReplyLen : Nat := 512

def carriageReturn : Byte := chr '\r'

/-- `while(*start!='\r' && i<buf_len-1)`: memory from `start` on, and how many bytes may follow. -/
def copyField : (start : List Byte) → (room : Nat) → Except Fault (List Byte)
  | [], _ => .error .bounds
  | b :: start, room =>
      if b = carriageReturn then .ok []
      else
        match room with
        | 0 => .ok []
        | room + 1 => (b :: ·) <$> copyField start room

def sendAtcmdReply (comport : ComPort) (reply_len : Option Nat) (os : AtcmdOs) : Except Fault AtcmdRet :=
  sendAtcmd comport (some (ascii "OK\r\n" ++ [0])) (some (ascii "ERROR\r\n" ++ [0])) reply_len os

/-- The value returned, and what is written to `buf`: the field starts `skip` bytes from the
first `mark`. -/
def sendAtcmdCheck (mark : Byte) (skip : Nat) (comport : ComPort) (buf_len : Nat) (os : AtcmdOs) :
    Except Fault (Int × List Byte) := do
  let ret ← sendAtcmdReply comport (some atcmdReplyLen) os
  if ret.retval ≠ 0 then return (-2, [])
  else
    let tmp := ret.reply.getD (List.replicate atcmdReplyLen 0)
    let start ← strchr mark tmp
    let field ← start.elim (pure []) fun start => copyField (start.drop skip) (buf_len - 1)
    let buf := field ++ [0]
    return (if buf.head? = some 0 then -3 else 0, buf)

def sendAtcmdCheckValue : ComPort → Nat → AtcmdOs → Except Fault (Int × List Byte) := sendAtcmdCheck (chr '\n') 1

def sendAtcmdCheckRequest : ComPort → Nat → AtcmdOs → Except Fault (Int × List Byte) := sendAtcmdCheck (chr ':') 2

/-- A reply that `send_atcmd` returns 0 for: what the modem has sent up to the first `OK`. -/
structure Accepted (comport : ComPort) (os : AtcmdOs) (reply : List Byte) : Prop where
  connted : comport.is_connted = true
  sent : os.send = 0
  nul : (0 : Byte) ∉ received comport os.recvs
  first : ∃ n, FirstMatch (ascii "OK\r\n") (ascii "ERROR\r\n") (received comport os.recvs) n ∧
    reply = (received comport os.recvs).take n ∧ Contains (ascii "OK\r\n") reply

/-- The text from `skip` bytes behind the first `mark` up to the next carriage return. -/
def fieldOf (mark : Byte) (skip : Nat) (reply : List Byte) : List Byte :=
  ((reply.dropWhile (· ≠ mark)).drop skip).takeWhile (· ≠ carriageReturn)

/-- The field is there, cut to the buffer, and no byte outside an array was looked at. -/
def FieldCopied (mark : Byte) (skip : Nat) (reply : List Byte) (buf_len : Nat)
    (result : Except Fault (Int × List Byte)) : Prop :=
  ∃ retval buf, result = .ok (retval, buf) ∧ buf.length ≤ buf_len ∧
    cstr buf = .ok ((fieldOf mark skip reply).take (buf_len - 1))

local instance : LawfulBEq Byte := inferInstance

/-- A field that ends within `tmp`, or fills `buf` before the end of `tmp`; without a field,
the end of the reply within `tmp`. -/
def FieldInside (mark : Byte) (skip : Nat) (reply : List Byte) (buf_len : Nat) : Prop :=
  if mark ∈ reply then
    carriageReturn ∈ (reply.take atcmdReplyLen).drop (reply.idxOf mark + skip) ∨
      reply.idxOf mark + skip + buf_len ≤ atcmdReplyLen
  else reply.length < atcmdReplyLen

def replyTmp (reply : List Byte) : List Byte :=
  reply.take atcmdReplyLen ++ List.replicate (atcmdReplyLen - reply.length) 0

section Send

variable {comport : ComPort} {os : AtcmdOs} {reply : List Byte}

theorem zero_notMem_reply (h : Accepted comport os reply) : (0 : Byte) ∉ reply := by
  obtain ⟨n, -, hreply, -⟩ := h.first
  rw [hreply]
  exact fun hmem => h.nul (List.mem_of_mem_take hmem)

theorem length_reply (h : Accepted comport os reply) : reply.length ≤ 1023 := by
  obtain ⟨n, hfirst, hreply, -⟩ := h.first
  rw [hreply, List.length_take]
  exact (Nat.min_le_left _ _).trans hfirst.room

theorem sendAtcmd_accepted (h : Accepted comport os reply) (reply_len : Option Nat) :
    sendAtcmdReply comport reply_len os =
      .ok ⟨0, reply_len.map fun n => reply.take n ++ List.replicate (n - reply.length) 0⟩ := by
  obtain ⟨n, hfirst, hreply, hok⟩ := h.first
  have hexpect : cstr (ascii "OK\r\n" ++ [0]) = .ok (ascii "OK\r\n") := rfl
  have herror : cstr (ascii "ERROR\r\n" ++ [0]) = .ok (ascii "ERROR\r\n") := rfl
  have hse : Short (ascii "OK\r\n") := by unfold Short; decide
  have hsr : Short (ascii "ERROR\r\n") := by unfold Short; decide
  have hnothing : ∀ m ≤ ([] : List Byte).length,
      ¬ Match (ascii "OK\r\n") (ascii "ERROR\r\n") (([] : List Byte).take m) := by
    intro m _
    rw [List.take_nil]
    exact fun hmatch => hmatch.elim (not_contains_nil _) (not_contains_nil _)
  rcases @recvReply_ends comport _ _ _ _ hexpect herror hse hsr os.recvs [] h.nul (Nat.zero_le _) hnothing with
    ⟨m, hm, hloop⟩ | ⟨hnone, -⟩
  · rw [List.nil_append] at hm hloop
    rw [hm.unique hfirst, ← hreply, if_pos hok] at hloop
    exact sendAtcmd_returns h.connted h.sent hloop (zero_notMem_reply h) (length_reply h) reply_len
  · exact absurd hfirst (hnone n)

end Send

section Field

variable {start reply before after : List Byte} {room buf_len skip : Nat} {mark : Byte}

theorem copyField_eq (start : List Byte) (room : Nat) : copyField start room =
    if carriageReturn ∈ start ∨ room < start.length then
      .ok ((start.takeWhile (· ≠ carriageReturn)).take room)
    else .error .bounds := by
  induction start generalizing room with
  | nil => simp [copyField]
  | cons b start ih =>
      by_cases hb : b = carriageReturn
      · simp [copyField, hb]
      · have hother : ¬ carriageReturn = b := fun h => hb h.symm
        cases room with
        | zero => simp [copyField, hb]
        | succ room =>
            rw [copyField, if_neg hb]
            simp only [ih, List.mem_cons, hother, false_or, List.length_cons, Nat.add_lt_add_iff_right]
            split
            · simp [hb]
            · rfl

theorem replyTmp_length (reply : List Byte) : (replyTmp reply).length = atcmdReplyLen := by
  rw [replyTmp, List.length_append, List.length_take, List.length_replicate]
  omega

theorem drop_replyTmp (reply : List Byte) (p : Nat) :
    ∃ k, (replyTmp reply).drop p = (reply.take atcmdReplyLen).drop p ++ List.replicate k 0 ∧
      (atcmdReplyLen ≤ reply.length → k = 0) := by
  refine ⟨atcmdReplyLen - reply.length - (p - (reply.take atcmdReplyLen).length), ?_, by omega⟩
  rw [replyTmp, List.drop_append, List.drop_replicate]

theorem mem_drop_replyTmp (reply : List Byte) (p : Nat) : carriageReturn ∈ (replyTmp reply).drop p ↔
    carriageReturn ∈ (reply.take atcmdReplyLen).drop p := by
  obtain ⟨k, hk, -⟩ := drop_replyTmp reply p
  have hne : ¬ carriageReturn = 0#8 := by decide
  simp [hk, hne]

theorem cstr_field (h0 : (0 : Byte) ∉ reply) {p : Nat}
    (hin : carriageReturn ∈ (reply.take atcmdReplyLen).drop p ∨ room < atcmdReplyLen - p) :
    cstr ((((replyTmp reply).drop p).takeWhile (· ≠ carriageReturn)).take room ++ [0]) =
      .ok (((reply.drop p).takeWhile (· ≠ carriageReturn)).take room) := by
  obtain ⟨k, hk, hlong⟩ := drop_replyTmp reply p
  obtain ⟨later, hsplit⟩ : ∃ later, reply.drop p = (reply.take atcmdReplyLen).drop p ++ later := by
    refine ⟨(reply.drop atcmdReplyLen).drop (p - (reply.take atcmdReplyLen).length), ?_⟩
    rw [← List.drop_append, List.take_append_drop]
  have hlater : reply.length ≤ atcmdReplyLen → later = [] := by
    intro hshort
    rw [List.take_of_length_le hshort] at hsplit
    simpa using hsplit
  have hnul : (0 : Byte) ∉ (reply.take atcmdReplyLen).drop p := fun h =>
    h0 (List.mem_of_mem_take (List.mem_of_mem_drop h))
  have hsize : ((reply.take atcmdReplyLen).drop p).length = min atcmdReplyLen reply.length - p := by
    rw [List.length_drop, List.length_take]
  rw [hk, hsplit]
  generalize (reply.take atcmdReplyLen).drop p = text at hin hnul hsize
  by_cases hcr : carriageReturn ∈ text
  · obtain ⟨first, rest, rfl, hfirst⟩ := List.eq_append_cons_of_mem hcr
    have htake : ∀ tail, ((first ++ carriageReturn :: rest) ++ tail).takeWhile (· ≠ carriageReturn) = first := by
      intro tail
      have hbefore : ∀ b ∈ first, decide (b ≠ carriageReturn) = true := fun b hb =>
        decide_eq_true fun (heq : b = carriageReturn) => hfirst (heq ▸ hb)
      rw [List.append_assoc, List.takeWhile_append_of_pos hbefore, List.cons_append,
        List.takeWhile_cons_of_neg (by simp), List.append_nil]
    rw [htake, htake]
    exact cstr_terminated fun h => hnul (List.mem_append_left _ (List.mem_of_mem_take h))
  · have hroom := hin.resolve_left hcr
    have hne : ¬ 0#8 = carriageReturn := by decide
    have hall : ∀ b ∈ text, decide (b ≠ carriageReturn) = true := fun b hb => decide_eq_true fun (heq : b = carriageReturn) => hcr (heq ▸ hb)
    have hzeros : (List.replicate k (0 : Byte)).takeWhile (· ≠ carriageReturn) = List.replicate k 0 := by
      rw [List.takeWhile_replicate, if_pos (by simp [hne])]
    rw [List.takeWhile_append_of_pos hall, List.takeWhile_append_of_pos hall, hzeros]
    rcases Nat.lt_or_ge atcmdReplyLen reply.length with hgt | hle
    · rw [hlong hgt.le, List.replicate_zero, List.append_nil, List.take_append_of_le_length (by omega)]
      exact cstr_terminated fun h => hnul (List.mem_of_mem_take h)
    · rw [hlater hle, List.takeWhile_nil, List.append_nil, List.take_append, List.take_replicate, List.append_assoc,
        ← List.replicate_one, List.replicate_append_replicate, List.replicate_succ]
      exact cstr_terminated fun h => hnul (List.mem_of_mem_take h)

theorem fieldOf_eq (hmark : mark ∉ before) (skip : Nat) (after : List Byte) :
    fieldOf mark skip (before ++ mark :: after) =
      ((before ++ mark :: after).drop (before.length + skip)).takeWhile (· ≠ carriageReturn) := by
  have hall : ∀ b ∈ before, decide (b ≠ mark) = true := fun b hb => decide_eq_true fun heq => hmark (heq ▸ hb)
  rw [fieldOf, List.dropWhile_append_of_pos hall, List.dropWhile_cons_of_neg (by simp), List.drop_length_add_append]

theorem idxOf_first (hmark : mark ∉ before) : (before ++ mark :: after).idxOf mark = before.length := by
  rw [List.idxOf_append_of_notMem hmark, List.idxOf_cons_self, Nat.add_zero]

theorem strchr_replyTmp (h0 : (0 : Byte) ∉ before ++ mark :: after) (hmark : mark ∉ before) :
    strchr mark (replyTmp (before ++ mark :: after)) =
      if before.length < atcmdReplyLen then
        .ok (some ((replyTmp (before ++ mark :: after)).drop before.length))
      else .error .bounds := by
  have hnul : (0 : Byte) ∉ before := fun h => h0 (List.mem_append_left _ h)
  split
  next hlt =>
    obtain ⟨n, hn⟩ := Nat.exists_eq_add_of_lt hlt
    have hsplit : replyTmp (before ++ mark :: after) = before ++ mark :: (after.take n ++
        List.replicate (atcmdReplyLen - (before ++ mark :: after).length) 0) := by
      rw [replyTmp, hn, Nat.add_assoc, List.take_length_add_append, List.take_succ_cons, List.append_assoc,
        List.cons_append]
    rw [hsplit, List.drop_left' rfl]
    exact strchr_found hmark hnul
  next hge =>
    have hle : atcmdReplyLen ≤ before.length := Nat.not_lt.mp hge
    have hfull : replyTmp (before ++ mark :: after) = before.take atcmdReplyLen := by
      rw [replyTmp, List.take_append_of_le_length hle, Nat.sub_eq_zero_of_le, List.replicate_zero, List.append_nil]
      rw [List.length_append]
      omega
    rw [hfull]
    exact strchr_past (fun h => hmark (List.mem_of_mem_take h)) fun h => hnul (List.mem_of_mem_take h)

theorem strchr_replyTmp_absent (h0 : (0 : Byte) ∉ reply) (hmark : mark ∉ reply) (hne : mark ≠ 0) :
    strchr mark (replyTmp reply) = if reply.length < atcmdReplyLen then .ok none else .error .bounds := by
  unfold replyTmp
  split
  next hlt =>
    obtain ⟨n, hn⟩ := Nat.exists_eq_add_of_lt hlt
    rw [List.take_of_length_le hlt.le, show atcmdReplyLen - reply.length = n + 1 by omega, List.replicate_succ]
    exact strchr_absent hne hmark h0
  next hge =>
    rw [Nat.sub_eq_zero_of_le (Nat.not_lt.mp hge), List.replicate_zero, List.append_nil]
    exact strchr_past (fun h => hmark (List.mem_of_mem_take h)) fun h => h0 (List.mem_of_mem_take h)

end Field

section Check

variable {comport : ComPort} {os : AtcmdOs} {reply : List Byte} {mark : Byte} {skip buf_len : Nat}

theorem sendAtcmdCheck_accepted (h : Accepted comport os reply) (mark : Byte) (skip buf_len : Nat) :
    sendAtcmdCheck mark skip comport buf_len os = (do
      let start ← strchr mark (replyTmp reply)
      let field ← start.elim (pure []) fun start => copyField (start.drop skip) (buf_len - 1)
      let buf := field ++ [0]
      return (if buf.head? = some 0 then -3 else 0, buf)) := by
  rw [sendAtcmdCheck, sendAtcmd_accepted h]
  rfl

theorem sendAtcmdCheck_iff (h : Accepted comport os reply) (hne : mark ≠ 0) (hbuf : 1 ≤ buf_len) (skip : Nat) :
    FieldCopied mark skip reply buf_len (sendAtcmdCheck mark skip comport buf_len os) ↔
      FieldInside mark skip reply buf_len := by
  have h0 := zero_notMem_reply h
  rw [sendAtcmdCheck_accepted h]
  unfold FieldInside
  by_cases hmark : mark ∈ reply
  · obtain ⟨before, after, rfl, hfirst⟩ := List.eq_append_cons_of_mem hmark
    have hlength := List.length_drop (i := before.length + skip) (l := replyTmp (before ++ mark :: after))
    rw [replyTmp_length] at hlength
    rw [if_pos hmark, idxOf_first hfirst, strchr_replyTmp h0 hfirst]
    have hcopied := copyField_eq ((replyTmp (before ++ mark :: after)).drop (before.length + skip)) (buf_len - 1)
    have hroom : buf_len - 1 < atcmdReplyLen - (before.length + skip) ↔
        before.length + skip + buf_len ≤ atcmdReplyLen := by omega
    simp only [mem_drop_replyTmp, hlength, hroom] at hcopied
    by_cases hin : before.length < atcmdReplyLen
    · rw [if_pos hin, ok_bind, Option.elim_some, List.drop_drop, hcopied]
      split
      next hinside =>
        refine iff_of_true ⟨_, _, rfl, ?_, ?_⟩ hinside
        · rw [List.length_append, List.length_take, List.length_singleton]
          omega
        · rw [fieldOf_eq hfirst]
          exact cstr_field h0 (hinside.imp_right hroom.mpr)
      next hout => exact iff_of_false (fun ⟨_, _, hok, _⟩ => nomatch hok) hout
    · rw [if_neg hin]
      refine iff_of_false (fun ⟨_, _, hok, _⟩ => nomatch hok) ?_
      rintro (hcr | hle)
      · rw [List.drop_eq_nil_of_le] at hcr
        · exact absurd hcr List.not_mem_nil
        · rw [List.length_take]
          omega
      · omega
  · rw [if_neg hmark, strchr_replyTmp_absent h0 hmark hne]
    split
    next hshort =>
      refine iff_of_true ⟨_, _, rfl, hbuf, ?_⟩ hshort
      have hnone : reply.dropWhile (· ≠ mark) = [] :=
        List.dropWhile_eq_nil_iff.mpr fun b hb => decide_eq_true fun (heq : b = mark) => hmark (heq ▸ hb)
      rw [fieldOf, hnone, List.drop_nil, List.takeWhile_nil, List.take_nil]
      rfl
    next hlong => exact iff_of_false (fun ⟨_, _, hok, _⟩ => nomatch hok) hlong

/-- Both functions stay in their arrays and give back the field if and only if its end is there. -/
theorem fieldCopied_iff (h : Accepted comport os reply) (hbuf : 1 ≤ buf_len) :
    (FieldCopied (chr '\n') 1 reply buf_len (sendAtcmdCheckValue comport buf_len os) ↔
      FieldInside (chr '\n') 1 reply buf_len) ∧
    (FieldCopied (chr ':') 2 reply buf_len (sendAtcmdCheckRequest comport buf_len os) ↔
      FieldInside (chr ':') 2 reply buf_len) :=
  ⟨sendAtcmdCheck_iff h (by decide) hbuf 1, sendAtcmdCheck_iff h (by decide) hbuf 2⟩

end Check

def openPort : ComPort := ⟨"/dev/ttyS2", true, true, 3⟩

/-- A modem that answers with this text, one byte in each call. -/
def replying (text : List Byte) : AtcmdOs := ⟨[], 0, text.map fun b => ⟨.ready false true, .data [b]⟩⟩

theorem received_replying (text : List Byte) : received openPort (replying text).recvs = text := by
  induction text with
  | nil => rfl
  | cons b text ih => exact congrArg (b :: ·) ih

instance (expect error text : List Byte) : Decidable (Match expect error text) :=
  inferInstanceAs (Decidable (_ ∨ _))

theorem accepted_replying {text : List Byte} (hnul : (0 : Byte) ∉ text) (hroom : text.length ≤ 1023)
    (hok : Contains (ascii "OK\r\n") text)
    (hfirst : ∀ m < text.length, ¬ Match (ascii "OK\r\n") (ascii "ERROR\r\n") (text.take m)) :
    Accepted openPort (replying text) text := by
  refine ⟨rfl, rfl, ?_, text.length, ?_⟩
  · rwa [received_replying]
  · rw [received_replying, List.take_length]
    exact ⟨⟨le_rfl, hroom, .inl (by rwa [List.take_length]), hfirst⟩, rfl, hok⟩

instance (mark : Byte) (skip : Nat) (reply : List Byte) (buf_len : Nat) :
    Decidable (FieldInside mark skip reply buf_len) :=
  inferInstanceAs (Decidable (if mark ∈ reply then
    carriageReturn ∈ (reply.take atcmdReplyLen).drop (reply.idxOf mark + skip) ∨
      reply.idxOf mark + skip + buf_len ≤ atcmdReplyLen
  else reply.length < atcmdReplyLen))

theorem fieldCopied_iff_model :
    FieldCopied (chr '\n') 1 (ascii "\r\nM10\r\nOK\r\n") 64
      (sendAtcmdCheckValue openPort 64 (replying (ascii "\r\nM10\r\nOK\r\n"))) :=
  (fieldCopied_iff (accepted_replying (by decide) (by decide) (by decide +kernel) (by decide +kernel))
    (by decide)).1.mpr (by decide +kernel)

/-- Behind the newline of a bare `OK` nothing in `tmp` ends the copying. -/
theorem bare_ok_not_inside : ¬ ∀ (comport : ComPort) (os : AtcmdOs) (reply : List Byte) (buf_len : Nat),
    Accepted comport os reply → 1 ≤ buf_len →
      FieldCopied (chr '\n') 1 reply buf_len (sendAtcmdCheckValue comport buf_len os) ∧
        FieldCopied (chr ':') 2 reply buf_len (sendAtcmdCheckRequest comport buf_len os) := by
  intro h
  have haccepted : Accepted openPort (replying (ascii "OK\r\n")) (ascii "OK\r\n") :=
    accepted_replying (by decide) (by decide) (by decide +kernel) (by decide +kernel)
  have hcopied := (h openPort _ _ 512 haccepted (by decide)).1
  rw [sendAtcmdCheckValue, sendAtcmdCheck_iff haccepted (by decide) (by decide)] at hcopied
  exact absurd hcopied (by decide +kernel)

end Fl2440.Gprs
