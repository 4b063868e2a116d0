import Fl2440.Lib.CString
import Fl2440.Gprs.ComPort

/-! `send_atcmd` of `cp_atcmd.c`: the reply of the modem is matched byte by byte against the
alternatives of two strings. -/
namespace Fl2440.Gprs

open Fl2440.Lib

def tab : Byte := 9

inductive SelectRet where
  | timeout
  | ready (except readable : Bool)
  | eintr
  | failed

inductive ReadRet where
  | data (bytes : List Byte)
  | eintr
  | failed

structure RecvOs where
  select : SelectRet
  read : ReadRet

/-- The value returned, and what stands in the buffer of `buf_size` bytes. -/
def comportRecv (comport : ComPort) (buf_size : Nat) (timeout : BitVec 32) (os : RecvOs) : Int × List Byte :=
  if buf_size = 0 then (-1, [])
  else if !comport.is_connted then (-2, [])
  else
    let checked : Option Int :=
      if timeout = 0xFFFFFFFF then none
      else
        match os.select with
        | .timeout => some 0
        | .ready true _ => some (-6)
        | .ready false false => some 0
        | .ready false true => none
        | .eintr => some 0
        | .failed => some (-7)
    match checked with
    | some retval => (retval, [])
    | none =>
        match os.read with
        | .eintr => (0, [])
        | .failed => (-3, [])
        | .data bytes => ((bytes.take buf_size).length, bytes.take buf_size)

/-- `0 != acBuf[0] && 0 != strstr(p_pcStr, acBuf)` -/
def atFound (str acBuf : List Byte) : Except Fault Bool :=
  if acBuf.head? = some 0 then .ok false
  else do
    let found ← strstr str acBuf
    return found.isSome

/-- Memory from `p_pcStr` and from `pcStart` on; 0x00 is a match. -/
def atMatch (str pcStart : List Byte) : Except Fault Byte :=
  match h : strchr tab pcStart with
  | .error e => .error e
  | .ok none => do
      let text ← cstr pcStart
      let acBuf ← overwrite (List.replicate 256 0) 0 (text ++ [0])
      if ← atFound str acBuf then return 0x00 else return 0x01
  | .ok (some pcTab) => do
      let text ← strncpy pcStart (pcStart.length - pcTab.length)
      let acBuf ← overwrite (List.replicate 256 0) 0 text
      match _ : pcTab.tail with
      | [] => .error .bounds
      | c :: next =>
          if ← atFound str acBuf then return 0x00
          -- a TAB at the very end is not followed by an alternative
          else if c ≠ 0 then atMatch str (c :: next)
          else return 0x01
termination_by pcStart.length
decreasing_by
  have hle := strchr_length h
  have hlen := congrArg List.length ‹pcTab.tail = c :: next›
  rw [List.length_tail, List.length_cons] at hlen
  rw [List.length_cons]
  omega

/-- Of a string that is NULL there is no match. -/
def atMatches (acRecv : List Byte) : Option (List Byte) → Except Fault Bool
  | none => .ok false
  | some match' => do
      let rv ← atMatch acRecv match'
      return rv = 0x00

/-- The reads before the command, into the first byte of the buffer. -/
def throwRubbish (comport : ComPort) : List RecvOs → List Byte → Except Fault (List Byte)
  | [], acRecv => .ok acRecv
  | os :: rest, acRecv => do
      let (iSize, bytes) := comportRecv comport 1 50 os
      let acRecv ← overwrite acRecv 0 bytes
      if iSize ≤ 0 then return acRecv else throwRubbish comport rest acRecv

/-- The rounds of the loop that start before the timeout. -/
def recvReply (comport : ComPort) (expect error : Option (List Byte)) :
    List RecvOs → List Byte → Nat → Except Fault (Int × List Byte)
  | [], acRecv, _ => .ok (if expect = none then 0 else -4, acRecv)
  | os :: rounds, acRecv, iRecvLen =>
      if iRecvLen < 1024 - 1 then do
        let (iSize, bytes) := comportRecv comport 1 50 os
        let acRecv ← overwrite acRecv iRecvLen bytes
        if 0 < iSize then do
          let acRecv := acRecv.set (1024 - 1) 0
          if ← atMatches acRecv expect then return (0, acRecv)
          else if ← atMatches acRecv error then return (-3, acRecv)
          else recvReply comport expect error rounds acRecv (iRecvLen + iSize.toNat)
        else recvReply comport expect error rounds acRecv iRecvLen
      else recvReply comport expect error rounds acRecv iRecvLen

structure AtcmdOs where
  rubbish : List RecvOs
  /-- What `comport_send` returns. -/
  send : Int
  recvs : List RecvOs

/-- `none` for a `reply` that is NULL or is left alone. -/
structure AtcmdRet where
  retval : Int
  reply : Option (List Byte)

/-- `expect` and `error` are memory from the pointer on, `reply_len` comes with a `reply`. -/
def sendAtcmd (comport : ComPort) (expect error : Option (List Byte)) (reply_len : Option Nat) (os : AtcmdOs) :
    Except Fault AtcmdRet :=
  if !comport.is_connted then .ok ⟨-1, none⟩
  else do
    let acRecv ← throwRubbish comport os.rubbish (List.replicate 1024 0)
    let (retval, acRecv) ←
      if os.send ≠ 0 then pure (2, acRecv)
      else recvReply comport expect error os.recvs (List.replicate 1024 0) 0
    match reply_len with
    | none => return ⟨retval, none⟩
    | some n => do
        let reply ← strncpy acRecv n
        return ⟨retval, some reply⟩

/-- One of the TAB-separated alternatives stands in the text. -/
def Contains (alternatives text : List Byte) : Prop := ∃ alt ∈ alternatives.splitOn tab, alt ≠ [] ∧ alt <:+: text

def Short (alternatives : List Byte) : Prop := ∀ alt ∈ alternatives.splitOn tab, alt.length < 256

instance (alternatives text : List Byte) : Decidable (Contains alternatives text) :=
  inferInstanceAs (Decidable (∃ alt ∈ alternatives.splitOn tab, alt ≠ [] ∧ alt <:+: text))

variable {text alt rest alternatives tail tail' str pcStart pcTab next : List Byte} {c : Byte}

theorem splitOn_alternative (ht : tab ∉ alt) : (alt ++ tab :: rest).splitOn tab = alt :: rest.splitOn tab := by
  rw [List.splitOn_append_cons_self, List.splitOn_eq_singleton ht, List.singleton_append]

theorem contains_cons (ht : tab ∉ alt) : Contains (alt ++ tab :: rest) text ↔
    (alt ≠ [] ∧ alt <:+: text) ∨ Contains rest text := by
  unfold Contains
  rw [splitOn_alternative ht]
  simp

theorem contains_single (ht : tab ∉ alt) : Contains alt text ↔ alt ≠ [] ∧ alt <:+: text := by
  unfold Contains
  rw [List.splitOn_eq_singleton ht]
  simp

theorem not_contains_nil (alternatives : List Byte) : ¬ Contains alternatives [] := by
  rintro ⟨alt, -, hne, hinfix⟩
  exact hne (List.eq_nil_of_infix_nil hinfix)

theorem atFound_eq (h : (0 : Byte) ∉ text) (h' : (0 : Byte) ∉ alt) :
    atFound (text ++ 0 :: tail) (alt ++ 0 :: tail') = .ok (decide (alt ≠ [] ∧ alt <:+: text)) := by
  unfold atFound
  cases alt with
  | nil => simp
  | cons b alt =>
      have hb : ¬ (some b = some (0 : Byte)) := fun heq => h' (Option.some.inj heq ▸ List.mem_cons_self)
      obtain ⟨found, hfound, hiff⟩ := strstr_terminated h h' tail tail'
      rw [List.cons_append, List.head?_cons, if_neg hb, ← List.cons_append, hfound, ok_bind]
      simp [← hiff, pure, Except.pure]

theorem overwrite_start {n : Nat} (h : alt.length ≤ n) :
    overwrite (List.replicate n 0) 0 alt = .ok (alt ++ List.replicate (n - alt.length) 0) := by
  simp [overwrite, h]

theorem atMatch_last (h : strchr tab pcStart = .ok none) : atMatch str pcStart = (do
    let text ← cstr pcStart
    let acBuf ← overwrite (List.replicate 256 0) 0 (text ++ [0])
    if ← atFound str acBuf then return 0x00 else return 0x01) := by
  rw [atMatch]
  split
  next heq => cases h.symm.trans heq
  next => rfl
  next heq => cases h.symm.trans heq

theorem atMatch_tab (h : strchr tab pcStart = .ok (some (tab :: c :: next))) : atMatch str pcStart = (do
    let text ← strncpy pcStart (pcStart.length - (tab :: c :: next).length)
    let acBuf ← overwrite (List.replicate 256 0) 0 text
    if ← atFound str acBuf then return 0x00
    else if c ≠ 0 then atMatch str (c :: next)
    else return 0x01) := by
  rw [atMatch]
  split
  next heq => cases h.symm.trans heq
  next heq => cases h.symm.trans heq
  next heq =>
    cases h.symm.trans heq
    rfl

theorem acBuf_eq (h : alt.length < 256) :
    alt ++ List.replicate (256 - alt.length) (0 : Byte) = alt ++ 0 :: List.replicate (255 - alt.length) 0 := by
  rw [show 256 - alt.length = (255 - alt.length) + 1 by omega, List.replicate_succ]

theorem strncpy_alternative (h : (0 : Byte) ∉ alt ++ tab :: rest) :
    strncpy ((alt ++ tab :: rest) ++ 0 :: tail) alt.length = .ok alt := by
  rw [strncpy_terminated _ h, List.take_left' rfl, List.length_append]
  simp

theorem atMatch_first (ht : (0 : Byte) ∉ text) (h0 : (0 : Byte) ∉ alt ++ tab :: rest) (hfirst : tab ∉ alt)
    (hlen : alt.length < 256) (hmore : rest ++ 0 :: tail' = c :: next) :
    atMatch (text ++ 0 :: tail) ((alt ++ tab :: rest) ++ 0 :: tail') =
      if alt ≠ [] ∧ alt <:+: text then .ok 0x00
      else if c ≠ 0 then atMatch (text ++ 0 :: tail) (c :: next)
      else .ok 0x01 := by
  have halt : (0 : Byte) ∉ alt := fun hmem => h0 (List.mem_append_left _ hmem)
  have hstrchr : strchr tab ((alt ++ tab :: rest) ++ 0 :: tail') = .ok (some (tab :: c :: next)) := by
    rw [List.append_assoc, List.cons_append, hmore]
    exact strchr_found hfirst halt
  have hsize : ((alt ++ tab :: rest) ++ 0 :: tail').length - (tab :: c :: next).length = alt.length := by
    rw [← hmore]
    simp
  rw [atMatch_tab hstrchr, hsize, strncpy_alternative h0, ok_bind, overwrite_start (Nat.le_of_lt hlen), ok_bind,
    acBuf_eq hlen, atFound_eq ht halt, ok_bind]
  simp only [decide_eq_true_eq]
  rfl

theorem atMatch_eq (ht : (0 : Byte) ∉ text) (h0 : (0 : Byte) ∉ alternatives) (hshort : Short alternatives) :
    atMatch (text ++ 0 :: tail) (alternatives ++ 0 :: tail') =
      .ok (if Contains alternatives text then 0x00 else 0x01) := by
  generalize hlength : alternatives.length = length
  induction length using Nat.strongRecOn generalizing alternatives with
  | ind length ih =>
    by_cases htab : tab ∈ alternatives
    · obtain ⟨alt, rest, rfl, hfirst⟩ := List.eq_append_cons_of_mem htab
      have hlen : alt.length < 256 := hshort alt (by simp [splitOn_alternative hfirst])
      have hfirst_found := @contains_cons text alt rest hfirst
      cases rest with
      | nil =>
          rw [atMatch_first ht h0 hfirst hlen (List.nil_append _)]
          have hrest : ¬ Contains [] text := by simp [contains_single List.not_mem_nil]
          simp only [hfirst_found, hrest, or_false, ne_eq, not_true, if_false]
          split <;> rfl
      | cons d rest =>
          have hrest : (0 : Byte) ∉ d :: rest := fun hmem =>
            h0 (List.mem_append_right _ (List.mem_cons_of_mem _ hmem))
          have hd : d ≠ 0 := fun heq => hrest (heq ▸ List.mem_cons_self)
          have hlater := ih (d :: rest).length (by simp only [← hlength, List.length_append, List.length_cons]; omega) hrest
            (fun other hother => hshort other (by simp [splitOn_alternative hfirst, hother])) rfl
          rw [atMatch_first ht h0 hfirst hlen (List.cons_append ..), if_pos hd, ← List.cons_append, hlater]
          by_cases hfound : alt ≠ [] ∧ alt <:+: text
          · rw [if_pos hfound, if_pos (hfirst_found.mpr (.inl hfound))]
          · rw [if_neg hfound]
            simp only [hfirst_found, hfound, false_or]
    · have hstrchr : strchr tab (alternatives ++ 0 :: tail') = .ok none := strchr_absent (by decide) htab h0
      have hlen : alternatives.length < 256 := hshort alternatives (by simp [List.splitOn_eq_singleton htab])
      have hroom : (alternatives ++ [(0 : Byte)]).length ≤ 256 := by
        simp only [List.length_append, List.length_singleton]
        omega
      rw [atMatch_last hstrchr, cstr_terminated h0, ok_bind, overwrite_start hroom, ok_bind, List.append_assoc,
        List.singleton_append, atFound_eq ht h0, ok_bind]
      simp only [contains_single htab, decide_eq_true_eq]
      split <;> rfl

def received (comport : ComPort) (recvs : List RecvOs) : List Byte :=
  recvs.flatMap fun os => (comportRecv comport 1 50 os).2

def Match (expect error text : List Byte) : Prop := Contains expect text ∨ Contains error text

/-- The shortest of the texts that are looked at with an alternative in it has length `n`. -/
structure FirstMatch (expect error stream : List Byte) (n : Nat) : Prop where
  received : n ≤ stream.length
  room : n ≤ 1023
  found : Match expect error (stream.take n)
  first : ∀ m < n, ¬ Match expect error (stream.take m)

def buffer (text : List Byte) : List Byte := text ++ List.replicate (1024 - text.length) 0

variable {comport : ComPort} {expect error : List Byte} {expectMem errorMem stream : List Byte} {recvs : List RecvOs}
  {os : RecvOs} {n : Nat} {b : Byte}

theorem comportRecv_one (comport : ComPort) (os : RecvOs) :
    (∃ b, comportRecv comport 1 50 os = (1, [b])) ∨
      ∃ iSize, iSize ≤ 0 ∧ comportRecv comport 1 50 os = (iSize, []) := by
  obtain ⟨select, read⟩ := os
  have htimeout : ¬ (50 : BitVec 32) = 0xFFFFFFFF := by decide
  simp only [comportRecv, Nat.one_ne_zero, if_false, htimeout]
  cases comport.is_connted with
  | false => exact .inr ⟨-2, by decide, rfl⟩
  | true =>
      cases select with
      | timeout => exact .inr ⟨0, le_rfl, rfl⟩
      | eintr => exact .inr ⟨0, le_rfl, rfl⟩
      | failed => exact .inr ⟨-7, by decide, rfl⟩
      | ready except readable =>
          cases except with
          | true => exact .inr ⟨-6, by decide, rfl⟩
          | false =>
              cases readable with
              | false => exact .inr ⟨0, le_rfl, rfl⟩
              | true =>
                  cases read with
                  | eintr => exact .inr ⟨0, le_rfl, rfl⟩
                  | failed => exact .inr ⟨-3, by decide, rfl⟩
                  | data bytes =>
                      cases bytes with
                      | nil => exact .inr ⟨0, le_rfl, rfl⟩
                      | cons b bytes => exact .inl ⟨b, rfl⟩

theorem buffer_terminated (h : text.length ≤ 1023) :
    buffer text = text ++ 0 :: List.replicate (1023 - text.length) 0 := by
  rw [buffer, show 1024 - text.length = (1023 - text.length) + 1 by omega, List.replicate_succ]

theorem atMatches_eq (hmem : cstr expectMem = .ok expect) (hshort : Short expect) (ht : (0 : Byte) ∉ text)
    (hroom : text.length ≤ 1023) : atMatches (buffer text) (some expectMem) = .ok (decide (Contains expect text)) := by
  obtain ⟨h0, tail', rfl⟩ := cstr_eq_ok_iff.mp hmem
  rw [atMatches, buffer_terminated hroom, atMatch_eq ht h0 hshort, ok_bind]
  by_cases h : Contains expect text <;> simp [h, pure, Except.pure]

theorem overwrite_buffer (hroom : text.length < 1023) (b : Byte) :
    ∃ acRecv, overwrite (buffer text) text.length [b] = .ok acRecv ∧ acRecv.set 1023 0 = buffer (text ++ [b]) := by
  have hlen : (buffer text).length = 1024 := by
    rw [buffer, List.length_append, List.length_replicate]
    omega
  have hover : overwrite (buffer text) text.length [b] = .ok (buffer (text ++ [b])) := by
    rw [overwrite, if_pos (by rw [hlen, List.length_singleton]; omega)]
    rw [buffer_terminated hroom.le, List.take_left' rfl, List.length_singleton, ← List.drop_drop, List.drop_left' rfl,
      List.drop_one, List.tail_cons, buffer, List.length_append, List.length_singleton]
    congr 3
    omega
  refine ⟨_, hover, ?_⟩
  have hbehind : (text ++ [b]).length ≤ 1023 := by
    rw [List.length_append, List.length_singleton]
    omega
  rw [buffer, List.set_append_right _ _ hbehind, List.set_replicate_self]

theorem overwrite_nothing (mem : List Byte) {off : Nat} (h : off ≤ mem.length) : overwrite mem off [] = .ok mem := by
  simp [overwrite, h]

theorem recvReply_full (hfull : ¬ n < 1023) (acRecv : List Byte) :
    recvReply comport (some expectMem) (some errorMem) recvs acRecv n = .ok (-4, acRecv) := by
  induction recvs with
  | nil => rfl
  | cons os recvs ih => rw [recvReply, if_neg hfull, ih]

theorem recvReply_idle {iSize : Int} (hos : comportRecv comport 1 50 os = (iSize, [])) (hsize : iSize ≤ 0)
    (hroom : text.length < 1023) :
    recvReply comport (some expectMem) (some errorMem) (os :: recvs) (buffer text) text.length =
      recvReply comport (some expectMem) (some errorMem) recvs (buffer text) text.length := by
  have hlen : text.length ≤ (buffer text).length := by
    rw [buffer, List.length_append]
    exact Nat.le_add_right _ _
  rw [recvReply, if_pos hroom, hos]
  simp only [overwrite_nothing _ hlen, ok_bind]
  rw [if_neg (by omega)]

theorem recvReply_byte (hos : comportRecv comport 1 50 os = (1, [b])) (hroom : text.length < 1023)
    (hexpect : cstr expectMem = .ok expect) (herror : cstr errorMem = .ok error) (hse : Short expect) (hsr : Short error)
    (ht : (0 : Byte) ∉ text ++ [b]) :
    recvReply comport (some expectMem) (some errorMem) (os :: recvs) (buffer text) text.length =
      if Contains expect (text ++ [b]) then .ok (0, buffer (text ++ [b]))
      else if Contains error (text ++ [b]) then .ok (-3, buffer (text ++ [b]))
      else recvReply comport (some expectMem) (some errorMem) recvs (buffer (text ++ [b])) (text ++ [b]).length := by
  obtain ⟨acRecv, hover, hset⟩ := overwrite_buffer hroom b
  have hlen : (text ++ [b]).length ≤ 1023 := by
    rw [List.length_append, List.length_singleton]
    omega
  rw [recvReply, if_pos hroom, hos]
  simp only [hover, ok_bind, hset, atMatches_eq hexpect hse ht hlen, atMatches_eq herror hsr ht hlen,
    decide_eq_true_eq]
  rw [if_pos (by decide), List.length_append]
  rfl

theorem recvReply_ends (hexpect : cstr expectMem = .ok expect) (herror : cstr errorMem = .ok error)
    (hse : Short expect) (hsr : Short error) :
    ∀ {recvs : List RecvOs} {text : List Byte}, (0 : Byte) ∉ text ++ received comport recvs → text.length ≤ 1023 →
      (∀ m ≤ text.length, ¬ Match expect error (text.take m)) →
      (∃ n, FirstMatch expect error (text ++ received comport recvs) n ∧
        recvReply comport (some expectMem) (some errorMem) recvs (buffer text) text.length =
          .ok (if Contains expect ((text ++ received comport recvs).take n) then 0 else -3,
            buffer ((text ++ received comport recvs).take n))) ∨
      (∀ n, ¬ FirstMatch expect error (text ++ received comport recvs) n) ∧
        recvReply comport (some expectMem) (some errorMem) recvs (buffer text) text.length =
          .ok (-4, buffer ((text ++ received comport recvs).take 1023))
  | [], text, _, hlen, hnone => by
      refine .inr ⟨fun n hn => ?_, ?_⟩
      · have hfound := hn.found
        have hle := hn.received
        simp only [received, List.flatMap_nil, List.append_nil] at hfound hle
        exact hnone n hle hfound
      · simp only [received, List.flatMap_nil, List.append_nil]
        rw [List.take_of_length_le hlen]
        rfl
  | os :: recvs, text, hnul, hlen, hnone => by
      have hreceived : received comport (os :: recvs) = (comportRecv comport 1 50 os).2 ++ received comport recvs := rfl
      by_cases hroom : text.length < 1023
      · rcases comportRecv_one comport os with ⟨b, hos⟩ | ⟨iSize, hsize, hos⟩
        · have hall : text ++ received comport (os :: recvs) = (text ++ [b]) ++ received comport recvs := by
            rw [hreceived, hos, List.append_assoc]
          have hnext : (text ++ [b]).length = text.length + 1 := by simp
          rw [hall] at hnul ⊢
          have ht : (0 : Byte) ∉ text ++ [b] := fun hmem => hnul (List.mem_append_left _ hmem)
          rw [recvReply_byte hos hroom hexpect herror hse hsr ht]
          have hbefore : ∀ m < text.length + 1, ¬ Match expect error (((text ++ [b]) ++ received comport recvs).take m) := by
            intro m hm
            rw [List.append_assoc, List.take_append_of_le_length (by omega)]
            exact hnone m (by omega)
          by_cases hmatch : Match expect error (text ++ [b])
          · have htake : ((text ++ [b]) ++ received comport recvs).take (text.length + 1) = text ++ [b] :=
              List.take_left' hnext
            refine .inl ⟨text.length + 1, ⟨?_, by omega, by rwa [htake], hbefore⟩, ?_⟩
            · rw [List.length_append, hnext]
              exact Nat.le_add_right _ _
            · rw [htake]
              by_cases hcontains : Contains expect (text ++ [b])
              · rw [if_pos hcontains, if_pos hcontains]
              · rw [if_neg hcontains, if_neg hcontains, if_pos (hmatch.resolve_left hcontains)]
          · rw [if_neg fun h => hmatch (.inl h), if_neg fun h => hmatch (.inr h)]
            refine recvReply_ends hexpect herror hse hsr hnul (by omega) fun m hm => ?_
            rcases Nat.lt_or_eq_of_le hm with hlt | heq
            · rw [List.take_append_of_le_length (by omega)]
              exact hnone m (by omega)
            · rwa [heq, List.take_length]
        · have hsame : received comport (os :: recvs) = received comport recvs := by
            rw [hreceived, hos, List.nil_append]
          rw [hsame] at hnul ⊢
          rw [recvReply_idle hos hsize hroom]
          exact recvReply_ends hexpect herror hse hsr hnul hlen hnone
      · have htake : ∀ n ≤ 1023, (text ++ received comport (os :: recvs)).take n = text.take n := fun n hn =>
          List.take_append_of_le_length (by omega)
        refine .inr ⟨fun n hn => ?_, ?_⟩
        · have hfound := hn.found
          have hle := hn.room
          rw [htake n hle] at hfound
          exact hnone n (by omega) hfound
        · rw [recvReply_full hroom, htake 1023 le_rfl, List.take_of_length_le hlen]

theorem FirstMatch.unique {m : Nat} (hm : FirstMatch expect error stream m) (hn : FirstMatch expect error stream n) :
    m = n := by
  rcases Nat.lt_trichotomy m n with hlt | heq | hgt
  · exact absurd hm.found (hn.first m hlt)
  · exact heq
  · exact absurd hn.found (hm.first n hgt)

theorem throwRubbish_returns : ∀ (rubbish : List RecvOs) {acRecv : List Byte}, 0 < acRecv.length →
    ∃ acRecv', throwRubbish comport rubbish acRecv = .ok acRecv'
  | [], acRecv, _ => ⟨acRecv, rfl⟩
  | os :: rubbish, acRecv, hlen => by
      rw [throwRubbish]
      rcases comportRecv_one comport os with ⟨b, hos⟩ | ⟨iSize, hsize, hos⟩
      · have hover : overwrite acRecv 0 [b] = .ok (b :: acRecv.drop 1) := by
          rw [overwrite, if_pos (by rw [List.length_singleton]; omega)]
          rfl
        simp only [hos, hover, ok_bind]
        exact throwRubbish_returns rubbish (Nat.zero_lt_succ _)
      · simp only [hos, overwrite_nothing acRecv (Nat.zero_le _), ok_bind]
        exact ⟨acRecv, if_pos hsize⟩

theorem sendAtcmd_returns (hconnted : comport.is_connted = true) {os : AtcmdOs} (hsend : os.send = 0) {retval : Int}
    (hloop : recvReply comport (some expectMem) (some errorMem) os.recvs (buffer []) 0 = .ok (retval, buffer text))
    (ht : (0 : Byte) ∉ text) (hlen : text.length ≤ 1023) (reply_len : Option Nat) :
    sendAtcmd comport (some expectMem) (some errorMem) reply_len os =
      .ok ⟨retval, reply_len.map fun n => text.take n ++ List.replicate (n - text.length) 0⟩ := by
  obtain ⟨acRecv, hrubbish⟩ := @throwRubbish_returns comport os.rubbish (List.replicate 1024 0)
    (by rw [List.length_replicate]; decide)
  have hempty : List.replicate 1024 (0 : Byte) = buffer [] := rfl
  have hnot : ¬ os.send ≠ 0 := not_not.mpr hsend
  rw [sendAtcmd, hconnted]
  simp only [Bool.not_true, Bool.false_eq_true, if_false, hrubbish, ok_bind, hnot]
  rw [hempty, hloop]
  cases reply_len with
  | none => rfl
  | some n =>
      rw [buffer_terminated hlen]
      simp only [ok_bind, strncpy_terminated n ht]
      rfl

/-- The reply is matched as if every prefix of it were looked at in turn. -/
theorem sendAtcmd_first_match (hconnted : comport.is_connted = true) {os : AtcmdOs} (hsend : os.send = 0)
    (hexpect : cstr expectMem = .ok expect) (herror : cstr errorMem = .ok error) (hse : Short expect)
    (hsr : Short error) (hnul : (0 : Byte) ∉ received comport os.recvs) (reply_len : Option Nat) :
    ∃ ret, sendAtcmd comport (some expectMem) (some errorMem) reply_len os = .ok ret ∧
      (ret.retval = 0 ↔ ∃ n, FirstMatch expect error (received comport os.recvs) n ∧
        Contains expect ((received comport os.recvs).take n)) ∧
      (ret.retval = -3 ↔ ∃ n, FirstMatch expect error (received comport os.recvs) n ∧
        Contains error ((received comport os.recvs).take n) ∧ ¬ Contains expect ((received comport os.recvs).take n)) ∧
      (ret.retval = -4 ↔ ¬ ∃ n, FirstMatch expect error (received comport os.recvs) n) ∧
      ∀ n, FirstMatch expect error (received comport os.recvs) n → ∀ len, reply_len = some len →
        ret.reply = some (((received comport os.recvs).take n).take len ++ List.replicate (len - n) 0) := by
  have hnothing : ∀ m ≤ ([] : List Byte).length, ¬ Match expect error (([] : List Byte).take m) := by
    intro m _
    rw [List.take_nil]
    exact fun h => h.elim (not_contains_nil expect) (not_contains_nil error)
  have htake : ∀ n, (0 : Byte) ∉ (received comport os.recvs).take n := fun n hmem => hnul (List.mem_of_mem_take hmem)
  rcases @recvReply_ends comport _ _ _ _ hexpect herror hse hsr os.recvs [] hnul (Nat.zero_le _) hnothing with
    ⟨n, hfirst, hloop⟩ | ⟨hnone, hloop⟩
  · rw [List.nil_append] at hfirst hloop
    have hlen : ((received comport os.recvs).take n).length = n := List.length_take_of_le hfirst.received
    have hroom : ((received comport os.recvs).take n).length ≤ 1023 := hlen.trans_le hfirst.room
    refine ⟨_, sendAtcmd_returns hconnted hsend hloop (htake n) hroom reply_len, ?_, ?_, ?_, ?_⟩
    · show (if Contains expect ((received comport os.recvs).take n) then (0 : Int) else -3) = 0 ↔ _
      constructor
      · intro hzero
        refine ⟨n, hfirst, Classical.byContradiction fun hnot => ?_⟩
        rw [if_neg hnot] at hzero
        exact absurd hzero (by decide)
      · rintro ⟨m, hm, hcontains⟩
        rw [hm.unique hfirst] at hcontains
        exact if_pos hcontains
    · show (if Contains expect ((received comport os.recvs).take n) then (0 : Int) else -3) = -3 ↔ _
      constructor
      · intro hthree
        have hnot : ¬ Contains expect ((received comport os.recvs).take n) := fun hcontains => by
          rw [if_pos hcontains] at hthree
          exact absurd hthree (by decide)
        exact ⟨n, hfirst, hfirst.found.resolve_left hnot, hnot⟩
      · rintro ⟨m, hm, -, hnot⟩
        rw [hm.unique hfirst] at hnot
        exact if_neg hnot
    · show (if Contains expect ((received comport os.recvs).take n) then (0 : Int) else -3) = -4 ↔ _
      refine iff_of_false (fun hfour => ?_) (not_not.mpr ⟨n, hfirst⟩)
      split at hfour <;> exact absurd hfour (by decide)
    · rintro m hm len rfl
      rw [hm.unique hfirst, Option.map_some, hlen]
  · rw [List.nil_append] at hnone hloop
    have hroom : ((received comport os.recvs).take 1023).length ≤ 1023 := List.length_take_le _ _
    refine ⟨_, sendAtcmd_returns hconnted hsend hloop (htake 1023) hroom reply_len, ?_, ?_, ?_, ?_⟩
    · exact iff_of_false (show ¬ (-4 : Int) = 0 by decide) fun ⟨n, hn, _⟩ => hnone n hn
    · exact iff_of_false (show ¬ (-4 : Int) = -3 by decide) fun ⟨n, hn, _⟩ => hnone n hn
    · exact iff_of_true rfl fun ⟨n, hn⟩ => hnone n hn
    · exact fun n hn => absurd hn (hnone n)

private def answering (reply : List Byte) : AtcmdOs :=
  ⟨[], 0, reply.map fun b => ⟨.ready false true, .data [b]⟩⟩

private def opened : ComPort := ⟨"/dev/ttyS2", true, false, 3⟩

theorem sendAtcmd_first_match_ok : ∃ ret,
    sendAtcmd opened (some (ascii "OK" ++ [0])) (some (ascii "ERROR\tBUSY" ++ [0])) (some 8)
      (answering (ascii "\r\nOK\r\n")) = .ok ret ∧
    (ret.retval = 0 ↔ ∃ n, FirstMatch (ascii "OK") (ascii "ERROR\tBUSY") (ascii "\r\nOK\r\n") n ∧
      Contains (ascii "OK") ((ascii "\r\nOK\r\n").take n)) ∧
    (ret.retval = -3 ↔ ∃ n, FirstMatch (ascii "OK") (ascii "ERROR\tBUSY") (ascii "\r\nOK\r\n") n ∧
      Contains (ascii "ERROR\tBUSY") ((ascii "\r\nOK\r\n").take n) ∧
      ¬ Contains (ascii "OK") ((ascii "\r\nOK\r\n").take n)) ∧
    (ret.retval = -4 ↔ ¬ ∃ n, FirstMatch (ascii "OK") (ascii "ERROR\tBUSY") (ascii "\r\nOK\r\n") n) ∧
    ∀ n, FirstMatch (ascii "OK") (ascii "ERROR\tBUSY") (ascii "\r\nOK\r\n") n → ∀ len, some 8 = some len →
      ret.reply = some (((ascii "\r\nOK\r\n").take n).take len ++ List.replicate (len - n) 0) :=
  @sendAtcmd_first_match opened _ _ _ _ rfl (answering (ascii "\r\nOK\r\n")) rfl rfl rfl
    (by unfold Short; decide) (by unfold Short; decide) (by decide) (some 8)

end Fl2440.Gprs
