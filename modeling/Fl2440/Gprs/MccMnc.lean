import Fl2440.Gprs.AtFields
import Fl2440.CpLibrary.SplitString

/-! `atcmd_check_gprs_mcc_mnc` of `cp_atcmd.c`. The field in which the number is looked for
still has the colon in front of it, so that the number is always 0. -/
namespace Fl2440.Gprs

open Fl2440.Lib
open Fl2440.CpLibrary

def colon : Byte := chr ':'

def sendAtcmdCheckOk (comport : ComPort) (os : AtcmdOs) : Except Fault Int := do
  let ret ← sendAtcmdReply comport none os
  return if ret.retval = 0 then 0 else -2

def mccMncText (mcc mnc : List Byte) : List Byte := mcc ++ chr '-' :: mnc

/-- A string copied into one of the arrays of five bytes; `none` is an array that is left as
it was. -/
def fiveBytes : Option SplitValue → Except Fault (Option (List Byte))
  | some (.str s) => if s.length < 5 then .ok (some s) else .error .bounds
  | _ => .ok none

/-- What is written to `mcc_mnc`, if the reply is a cell: `ptr` is the string from the last
colon on. -/
def mccMncOf (ptr : List Byte) : Except Fault (Option (List Byte)) := do
  let stores ← splitStringToValue ptr (ascii "%d,%s,%s,%s") [true, true, true, false]
  let mcc ← fiveBytes (stores[1]?.getD none)
  let mnc ← fiveBytes (stores[2]?.getD none)
  match stores[0]?.getD none with
  | some (SplitValue.num status) =>
      if status ≠ 0 then return none
      else
        match mcc, mnc with
        | some mcc, some mnc => return some (mccMncText mcc mnc)
        -- an array that nothing was written to
        | _, _ => .error .bounds
  | _ => .error .bounds

def atcmdCheckGprsMccMnc (comport : ComPort) (first second : AtcmdOs) : Except Fault (Int × Option (List Byte)) := do
  let retval ← sendAtcmdCheckOk comport first
  if retval ≠ 0 then return (retval, none)
  else
    let ret ← sendAtcmdReply comport (some atcmdReplyLen) second
    if ret.retval ≠ 0 then return (ret.retval, none)
    else
      match ← strrchr colon (ret.reply.getD []) with
      | none => return (-1, none)
      | some ptr =>
          match ← mccMncOf ptr with
          | none => return (-1, none)
          | some text => return (0, some text)

/-- The fields behind the last colon: a status of 0, and then the two codes. -/
def ServingCell (reply mcc mnc : List Byte) : Prop :=
  colon ∈ reply ∧ ∃ status rest, (reply.rtakeWhile (· ≠ colon)).splitOn comma = status :: mcc :: mnc :: rest ∧
    strtol 10 status = 0 ∧ mcc.length ≤ 4 ∧ mnc.length ≤ 4

/-- The codes are there just when the reply is a cell, and nothing is written otherwise. -/
structure CodesRead (reply : List Byte) (retval : Int) (mcc_mnc : Option (List Byte)) : Prop where
  accepted : retval = 0 ↔ ∃ mcc mnc, ServingCell reply mcc mnc
  written : ∀ mcc mnc, ServingCell reply mcc mnc → mcc_mnc = some (mccMncText mcc mnc)
  refused : retval ≠ 0 → mcc_mnc = none

section Codes

variable {reply mcc mnc : List Byte} {comport : ComPort} {first second : AtcmdOs}

theorem ServingCell.unique {mcc' mnc' : List Byte} (h : ServingCell reply mcc mnc) (h' : ServingCell reply mcc' mnc') :
    mcc = mcc' ∧ mnc = mnc' := by
  obtain ⟨-, status, rest, hfields, -⟩ := h
  obtain ⟨-, status', rest', hfields', -⟩ := h'
  cases hfields.symm.trans hfields'
  exact ⟨rfl, rfl⟩

theorem strtol_colon (text : List Byte) : strtol 10 (colon :: text) = 0 := by
  have hspace : ¬ isSpace colon = true := by decide
  have hminus : ¬ colon = chr '-' := by decide
  have hplus : ¬ colon = chr '+' := by decide
  have hradix : ¬ (10 : Nat) = 16 := by decide
  have hdigit : digitValue 10 colon = none := by decide
  rw [strtol, List.dropWhile_cons_of_neg hspace]
  simp only [hminus, hplus, hradix, if_false, digitsValue, hdigit]
  decide

def cellCall : SplitCall :=
  ⟨[(.d, true), (.s, true), (.s, true), (.s, false)], comma, by decide, comma_ne_letter⟩

theorem splitOn_colon (text : List Byte) : ∃ status rest, text.splitOn comma = status :: rest ∧
    (colon :: text).splitOn comma = (colon :: status) :: rest := by
  obtain ⟨status, rest, hfields⟩ := List.exists_cons_of_ne_nil (List.splitOn_ne_nil comma text)
  refine ⟨status, rest, hfields, ?_⟩
  have hne : ¬ (colon == comma) = true := by decide
  rw [List.splitOn_cons_eq_if_modifyHead, if_neg hne, hfields]
  rfl

theorem mccMncOf_eq {status text : List Byte} {rest : List (List Byte)} (h : text.splitOn comma = status :: rest) :
    mccMncOf (colon :: text) = (do
      let stores := storeEach [(.s, true), (.s, true), (.s, false)] (rest.filter (!·.isEmpty))
      let mcc ← fiveBytes (stores[0]?.getD none)
      let mnc ← fiveBytes (stores[1]?.getD none)
      match mcc, mnc with
      | some mcc, some mnc => return some (mccMncText mcc mnc)
      | _, _ => .error .bounds) := by
  obtain ⟨status', rest', hfields, hcolon⟩ := splitOn_colon text
  cases h.symm.trans hfields
  have htokens : cellCall.tokens (colon :: text) = (colon :: status) :: rest.filter (!·.isEmpty) := by
    rw [SplitCall.tokens, SplitCall.fields]
    show ((colon :: text).splitOn comma).filter _ = _
    rw [hcolon, List.filter_cons_of_pos rfl]
  have hsplit : splitStringToValue (colon :: text) (ascii "%d,%s,%s,%s") [true, true, true, false] =
      .ok (storeEach cellCall.args (cellCall.tokens (colon :: text))) := splitStringToValue_eq cellCall _
  rw [mccMncOf, hsplit, htokens, ok_bind]
  have hvalue : Conv.d.value (colon :: status) = .num 0 := congrArg SplitValue.num (strtol_colon status)
  simp only [cellCall, storeEach, hvalue]
  rfl

theorem mccMncOf_ok_iff {status text : List Byte} {rest : List (List Byte)} {out : Option (List Byte)}
    (h : text.splitOn comma = status :: rest) : mccMncOf (colon :: text) = .ok out ↔
      ∃ mcc mnc later, rest.filter (!·.isEmpty) = mcc :: mnc :: later ∧ mcc.length ≤ 4 ∧ mnc.length ≤ 4 ∧
        out = some (mccMncText mcc mnc) := by
  rw [mccMncOf_eq h]
  generalize rest.filter (!·.isEmpty) = codes
  match codes with
  | [] => exact iff_of_false (fun hok => nomatch hok) (fun ⟨_, _, _, heq, _⟩ => nomatch heq)
  | [mcc] =>
      refine iff_of_false (fun hok => ?_) (fun ⟨_, _, _, heq, _⟩ => nomatch heq)
      obtain ⟨stored, hstored, hok⟩ := bind_eq_ok_iff.mp hok
      cases stored <;> cases hok
  | mcc :: mnc :: later =>
      show ((if mcc.length < 5 then Except.ok (some mcc) else .error Fault.bounds) >>= fun mcc =>
        (if mnc.length < 5 then Except.ok (some mnc) else .error Fault.bounds) >>= fun mnc => _) = _ ↔ _
      by_cases hmcc : mcc.length < 5
      · by_cases hmnc : mnc.length < 5
        · rw [if_pos hmcc, if_pos hmnc]
          constructor
          · intro hok
            cases hok
            exact ⟨mcc, mnc, later, rfl, Nat.le_of_lt_succ hmcc, Nat.le_of_lt_succ hmnc, rfl⟩
          · rintro ⟨_, _, _, ⟨⟩, -, -, rfl⟩
            rfl
        · rw [if_pos hmcc, if_neg hmnc]
          refine iff_of_false (fun hok => nomatch hok) ?_
          rintro ⟨_, _, _, ⟨⟩, -, hle, -⟩
          exact hmnc (Nat.lt_succ_of_le hle)
      · rw [if_neg hmcc]
        refine iff_of_false (fun hok => nomatch hok) ?_
        rintro ⟨_, _, _, ⟨⟩, hle, -⟩
        exact hmcc (Nat.lt_succ_of_le hle)

theorem codes_of_text {mcc' mnc' : List Byte} {rest later : List (List Byte)}
    (htokens : (mcc :: mnc :: rest).filter (!·.isEmpty) = mcc' :: mnc' :: later)
    (htext : mccMncText mcc' mnc' = mccMncText mcc mnc) : mcc ≠ [] ∧ mnc ≠ [] := by
  have hlength := congrArg List.length htext
  simp only [mccMncText, List.length_append, List.length_cons] at hlength
  have hsolid : ∀ token ∈ mcc' :: mnc' :: later, 0 < token.length := by
    intro token hmem
    rw [← htokens] at hmem
    have := (List.mem_filter.mp hmem).2
    exact List.length_pos_iff.mpr (by simpa using this)
  have hmcc' := hsolid mcc' (by simp)
  have hmnc' := hsolid mnc' (by simp)
  cases mcc with
  | nil =>
      cases mnc with
      | nil =>
          simp only [List.length_nil] at hlength
          omega
      | cons b mnc =>
          rw [List.filter_cons_of_neg (by simp), List.filter_cons_of_pos (by simp)] at htokens
          obtain ⟨rfl, -⟩ := List.cons.inj htokens
          simp only [List.length_nil] at hlength
          omega
  | cons b mcc =>
      refine ⟨List.cons_ne_nil _ _, ?_⟩
      rintro rfl
      rw [List.filter_cons_of_pos (by simp), List.filter_cons_of_neg (by simp)] at htokens
      obtain ⟨rfl, -⟩ := List.cons.inj htokens
      simp only [List.length_nil] at hlength
      omega

theorem checkOk_accepted {os : AtcmdOs} {answer : List Byte} (h : Accepted comport os answer) :
    sendAtcmdCheckOk comport os = .ok 0 := by
  rw [sendAtcmdCheckOk, sendAtcmd_accepted h]
  rfl

theorem atcmdCheckGprsMccMnc_eq {answer : List Byte} (hfirst : Accepted comport first answer)
    (hsecond : Accepted comport second reply) : atcmdCheckGprsMccMnc comport first second =
      if reply.length < atcmdReplyLen then
        if colon ∈ reply then do
          match ← mccMncOf (colon :: reply.rtakeWhile (· ≠ colon)) with
          | none => return (-1, none)
          | some text => return (0, some text)
        else .ok (-1, none)
      else .error .bounds := by
  have h0 := zero_notMem_reply hsecond
  rw [atcmdCheckGprsMccMnc, checkOk_accepted hfirst, ok_bind, if_neg (not_not.mpr rfl), sendAtcmd_accepted hsecond,
    ok_bind, if_neg (not_not.mpr rfl), Option.map_some, Option.getD_some]
  have htmp : reply.take atcmdReplyLen ++ List.replicate (atcmdReplyLen - reply.length) 0 = replyTmp reply := rfl
  rw [htmp, strrchr]
  split
  next hlt =>
    have hterminated : cstr (replyTmp reply) = .ok reply := by
      rw [replyTmp, List.take_of_length_le hlt.le, show atcmdReplyLen - reply.length =
        (atcmdReplyLen - reply.length - 1) + 1 by omega, List.replicate_succ]
      exact cstr_terminated h0
    rw [hterminated, ok_bind]
    by_cases hcolon : colon ∈ reply
    · rw [if_pos hcolon, if_pos hcolon]
      rfl
    · rw [if_neg hcolon, if_neg hcolon]
      rfl
  next hge =>
    have hpast : cstr (replyTmp reply) = .error .bounds := by
      rw [replyTmp, Nat.sub_eq_zero_of_le (Nat.not_lt.mp hge), List.replicate_zero, List.append_nil]
      exact cstr_past fun h => h0 (List.mem_of_mem_take h)
    rw [hpast]
    rfl

/-- The codes are read if and only if the reply fits, and is no reply with a colon or a cell
with codes that are not empty. -/
theorem codesRead_iff {answer : List Byte} (hfirst : Accepted comport first answer)
    (hsecond : Accepted comport second reply) :
    (∃ retval mcc_mnc, atcmdCheckGprsMccMnc comport first second = .ok (retval, mcc_mnc) ∧
      CodesRead reply retval mcc_mnc) ↔
    reply.length < atcmdReplyLen ∧
      (colon ∉ reply ∨ ∃ mcc mnc, ServingCell reply mcc mnc ∧ mcc ≠ [] ∧ mnc ≠ []) := by
  rw [atcmdCheckGprsMccMnc_eq hfirst hsecond]
  by_cases hlt : reply.length < atcmdReplyLen
  · rw [if_pos hlt, and_iff_right hlt]
    by_cases hcolon : colon ∈ reply
    · rw [if_pos hcolon, or_iff_right (not_not.mpr hcolon)]
      obtain ⟨status, rest, hfields, -⟩ := splitOn_colon (reply.rtakeWhile (· ≠ colon))
      constructor
      · rintro ⟨retval, mcc_mnc, hok, hread⟩
        obtain ⟨out, hout, hok⟩ := bind_eq_ok_iff.mp hok
        obtain ⟨mcc', mnc', later, htokens, -, -, rfl⟩ := (mccMncOf_ok_iff hfields).mp hout
        cases hok
        obtain ⟨mcc, mnc, hcell⟩ := hread.accepted.mp rfl
        have htext := hread.written mcc mnc hcell
        obtain ⟨-, status', rest', hfields', -⟩ := id hcell
        cases hfields.symm.trans hfields'
        exact ⟨mcc, mnc, hcell, codes_of_text htokens (Option.some.inj htext)⟩
      · rintro ⟨mcc, mnc, hcell, hmcc, hmnc⟩
        obtain ⟨-, status', rest', hfields', -, hshort, hshort'⟩ := id hcell
        cases hfields.symm.trans hfields'
        have hout : mccMncOf (colon :: reply.rtakeWhile (· ≠ colon)) = .ok (some (mccMncText mcc mnc)) := by
          refine (mccMncOf_ok_iff hfields).mpr ⟨mcc, mnc, rest'.filter (!·.isEmpty), ?_, hshort, hshort', rfl⟩
          rw [List.filter_cons_of_pos (by simp [hmcc]), List.filter_cons_of_pos (by simp [hmnc])]
        rw [hout]
        refine ⟨0, _, rfl, iff_of_true rfl ⟨mcc, mnc, hcell⟩, fun mcc' mnc' hcell' => ?_, fun h => absurd rfl h⟩
        obtain ⟨rfl, rfl⟩ := hcell.unique hcell'
        rfl
    · rw [if_neg hcolon]
      refine iff_of_true ⟨-1, none, rfl, ?_, fun _ _ hcell => absurd hcell.1 hcolon, fun _ => rfl⟩ (.inl hcolon)
      exact iff_of_false (by decide) fun ⟨_, _, hcell⟩ => hcolon hcell.1
  · rw [if_neg hlt]
    exact iff_of_false (fun ⟨_, _, hok, _⟩ => nomatch hok) fun h => hlt h.1

end Codes

theorem codesRead_iff_serving_cell :
    ∃ retval mcc_mnc, atcmdCheckGprsMccMnc openPort (replying (ascii "\r\nOK\r\n"))
        (replying (ascii "+QENG: 0,460,00,7108\r\nOK\r\n")) = .ok (retval, mcc_mnc) ∧
      CodesRead (ascii "+QENG: 0,460,00,7108\r\nOK\r\n") retval mcc_mnc :=
  (codesRead_iff (accepted_replying (by decide) (by decide) (by decide +kernel) (by decide +kernel))
    (accepted_replying (by decide) (by decide) (by decide +kernel) (by decide +kernel))).mpr
    ⟨by decide, .inr ⟨ascii "460", ascii "00", ⟨by decide +kernel, ascii " 0", [ascii "7108\r\nOK\r\n"], by decide +kernel,
      by decide +kernel, by decide, by decide⟩, by decide, by decide⟩⟩

/-- A cell that is not served has codes as well. -/
theorem other_status_accepted : ¬ ∀ (comport : ComPort) (first second : AtcmdOs) (answer reply : List Byte),
    Accepted comport first answer → Accepted comport second reply → ∃ retval mcc_mnc,
      atcmdCheckGprsMccMnc comport first second = .ok (retval, mcc_mnc) ∧ CodesRead reply retval mcc_mnc := by
  intro h
  have hok : Accepted openPort (replying (ascii "OK\r\n")) (ascii "OK\r\n") :=
    accepted_replying (by decide) (by decide) (by decide +kernel) (by decide +kernel)
  have hcell : Accepted openPort (replying (ascii "+QENG: 1,460,00,\r\nOK\r\n")) (ascii "+QENG: 1,460,00,\r\nOK\r\n") :=
    accepted_replying (by decide) (by decide) (by decide +kernel) (by decide +kernel)
  obtain ⟨retval, mcc_mnc, hresult, hread⟩ := h _ _ _ _ _ hok hcell
  have hzero : atcmdCheckGprsMccMnc openPort (replying (ascii "OK\r\n")) (replying (ascii "+QENG: 1,460,00,\r\nOK\r\n")) =
      .ok (0, some (ascii "460-00")) := by decide +kernel
  cases hresult.symm.trans hzero
  obtain ⟨mcc, mnc, -, status, rest, hfields, hstatus, -⟩ := hread.accepted.mp rfl
  have hone : (ascii "+QENG: 1,460,00,\r\nOK\r\n").rtakeWhile (· ≠ colon) = ascii " 1,460,00,\r\nOK\r\n" := by decide +kernel
  have hsplit : (ascii " 1,460,00,\r\nOK\r\n").splitOn comma =
      [ascii " 1", ascii "460", ascii "00", ascii "\r\nOK\r\n"] := by decide +kernel
  rw [hone, hsplit] at hfields
  cases hfields
  exact absurd hstatus (by decide +kernel)

end Fl2440.Gprs
