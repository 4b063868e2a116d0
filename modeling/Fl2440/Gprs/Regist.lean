import Fl2440.Gprs.MccMnc
import Fl2440.Gprs.Module
import Fl2440.Lib.Trace

/-! `atcmd_check_regist` of `cp_gprs.c` on the replies of the modem: what it returns in a row
of calls, which share the static `fail_cnt`. -/
namespace Fl2440.Gprs

open Fl2440.Lib
open Fl2440.CpLibrary

def regHomework : Int := 1

def regDenied : Int := 3

def regRoaming : Int := 5

structure RegisterInfo where
  type : Int
  signal : Int
  carrier : List Byte
  mcc_mnc : List Byte
deriving DecidableEq

def delCharFromString (str : List Byte) (delchar : Byte) : List Byte := str.filter (· ≠ delchar)

/-- The queries that cut a field out of the reply and split it; `none` for a reply that there
is not. -/
def splitReply (comport : ComPort) (fmt : List Byte) (targets : List Bool) (os : AtcmdOs) :
    Except Fault (Int × List (Option SplitValue)) := do
  let (retval, recv_buf) ← sendAtcmdCheckRequest comport atcmdReplyLen os
  if retval ≠ 0 then return (retval, [])
  else
    let str ← cstr recv_buf
    let stores ← splitStringToValue str fmt targets
    return (0, stores)

def atcmdCheckGprsSignal (comport : ComPort) (os : AtcmdOs) : Except Fault Int := do
  let (retval, stores) ← splitReply comport (ascii "%d,%d") [true, false] os
  return if retval ≠ 0 then retval else storedInt (-1) (stores[0]?.getD none)

def atcmdCheckGprsRegister (comport : ComPort) (os : AtcmdOs) : Except Fault Int := do
  let (retval, stores) ← splitReply comport (ascii "%d,%d") [false, true] os
  return if retval ≠ 0 then -1 else storedInt (-1) (stores[1]?.getD none)

/-- The array has 64 bytes. -/
def atcmdCheckGprsCarrier (comport : ComPort) (carrier : List Byte) (os : AtcmdOs) : Except Fault (Int × List Byte) := do
  let (retval, stores) ← splitReply comport (ascii "%d,%d,%s,%d") [false, false, true, false] os
  if retval ≠ 0 then return (retval, carrier)
  else
    match stores[2]?.getD none with
    | some (SplitValue.str s) =>
        if s.length < 64 then return (0, delCharFromString s (chr '"')) else .error .bounds
    | _ => return (0, delCharFromString carrier (chr '"'))

structure RegistCall where
  comport : ComPort
  csq : AtcmdOs
  creg : AtcmdOs
  cops : AtcmdOs
  qeng : AtcmdOs
  cell : AtcmdOs

/-- Up to the label `cleanup`: `rv`, and what is known of the registration. -/
def registQueries (reg : RegisterInfo) (call : RegistCall) : Except Fault (Int × RegisterInfo) := do
  let signal ← atcmdCheckGprsSignal call.comport call.csq
  let reg := { reg with signal }
  if signal < 2 ∧ signal > 31 then return (-1, reg)
  else
    let type ← atcmdCheckGprsRegister call.comport call.creg
    let reg := { reg with type }
    if regHomework = type ∨ regRoaming = type then
      let (rv, carrier) ← atcmdCheckGprsCarrier call.comport reg.carrier call.cops
      let reg := { reg with carrier }
      if rv ≠ 0 then return (-4, reg)
      else
        let (rv, mcc_mnc) ← atcmdCheckGprsMccMnc call.comport call.qeng call.cell
        let reg := { reg with mcc_mnc := mcc_mnc.getD reg.mcc_mnc }
        return (if rv ≠ 0 then -4 else 0, reg)
    else return (if regDenied = type then -2 else -3, reg)

structure Outcome where
  signal : Int
  type : Int
  carrier : Option Int
  mcc_mnc : Option Int
deriving DecidableEq

def RegistCall.outcome (call : RegistCall) : Except Fault Outcome := do
  let signal ← atcmdCheckGprsSignal call.comport call.csq
  let type ← atcmdCheckGprsRegister call.comport call.creg
  if type = regHomework ∨ type = regRoaming then
    let (carrier, _) ← atcmdCheckGprsCarrier call.comport [] call.cops
    if carrier ≠ 0 then return ⟨signal, type, some carrier, none⟩
    else
      let (mcc_mnc, _) ← atcmdCheckGprsMccMnc call.comport call.qeng call.cell
      return ⟨signal, type, some carrier, some mcc_mnc⟩
  else return ⟨signal, type, none, none⟩

def Outcome.Registered (o : Outcome) : Prop :=
  (o.type = regHomework ∨ o.type = regRoaming) ∧ o.carrier = some 0 ∧ o.mcc_mnc = some 0

instance (o : Outcome) : Decidable o.Registered := inferInstanceAs (Decidable (_ ∧ _))

def Outcome.InRange (o : Outcome) : Prop := 2 ≤ o.signal ∧ o.signal ≤ 31

instance (o : Outcome) : Decidable o.InRange := inferInstanceAs (Decidable (_ ∧ _))

structure RegistSeen where
  outcome : Outcome
  retval : Int

def RegistSeen.Passed (seen : RegistSeen) : Prop := seen.outcome.InRange ∧ seen.outcome.Registered

instance (seen : RegistSeen) : Decidable seen.Passed := inferInstanceAs (Decidable (_ ∧ _))

def failedInRow (past : List RegistSeen) : Nat := (past.rtakeWhile fun seen => ¬ seen.Passed).length

structure Regist where
  fail_cnt : Nat
  reg : RegisterInfo
  past : List RegistSeen

def Regist.init (reg : RegisterInfo) : Regist := ⟨0, reg, []⟩

/-- The value returned, `fail_cnt`, and what is known of the registration. -/
def checkRegist (times fail_cnt : Nat) (reg : RegisterInfo) (call : RegistCall) :
    Except Fault (Int × Nat × RegisterInfo) := do
  let (rv, reg) ← registQueries reg call
  let (fail_cnt, retval) := countFailure times rv fail_cnt
  return (retval, fail_cnt, reg)

def registStep (times : Nat) (s : Regist) (call : RegistCall) : Except Fault Regist := do
  let (retval, fail_cnt, reg) ← checkRegist times s.fail_cnt s.reg call
  let outcome ← call.outcome
  return ⟨fail_cnt, reg, s.past ++ [⟨outcome, retval⟩]⟩

/-- A call returns 1 just when the registration has passed, -1 when it is the last of
`times + 1` failures in a row, and 0 for the failures before that. -/
structure Counts (times : Nat) (past : List RegistSeen) (seen : RegistSeen) : Prop where
  passed : seen.retval = 1 ↔ seen.Passed
  failed : ¬ seen.Passed → seen.retval = if failedInRow past % (times + 1) < times then 0 else -1

/-- The queries stay within their arrays, and a registration is not reported with a signal out of range. -/
def Credible (call : RegistCall) : Prop := ∃ o, call.outcome = .ok o ∧ (o.Registered → o.InRange)

def Outcome.replies (o : Outcome) : Replies where
  at_ready := 0
  sim_valid := 0
  name := 0
  version := 0
  iemi := 0
  signal := o.signal
  type := o.type
  carrier := o.carrier.getD (-1)
  mcc_mnc := o.mcc_mnc.getD (-1)

section Call

variable {call : RegistCall} {reg : RegisterInfo} {times fail_cnt : Nat} {o : Outcome}

theorem carrier_cases (comport : ComPort) (os : AtcmdOs) :
    (∃ e, ∀ carrier, atcmdCheckGprsCarrier comport carrier os = .error e) ∨
      ∃ rv, ∀ carrier, ∃ carrier', atcmdCheckGprsCarrier comport carrier os = .ok (rv, carrier') := by
  unfold atcmdCheckGprsCarrier
  cases splitReply comport (ascii "%d,%d,%s,%d") [false, false, true, false] os with
  | error e => exact .inl ⟨e, fun _ => rfl⟩
  | ok split =>
      obtain ⟨retval, stores⟩ := split
      simp only [ok_bind]
      split
      · exact .inr ⟨retval, fun carrier => ⟨carrier, rfl⟩⟩
      · split
        · split
          · exact .inr ⟨0, fun _ => ⟨_, rfl⟩⟩
          · exact .inl ⟨.bounds, fun _ => rfl⟩
        · exact .inr ⟨0, fun _ => ⟨_, rfl⟩⟩

theorem atcmdCheckRegist_of_type (hrange : ¬ (o.signal < 2 ∧ o.signal > 31))
    (htype : o.type = regHomework ∨ o.type = regRoaming) : atcmdCheckRegist o.replies times fail_cnt =
      countFailure times (if o.carrier.getD (-1) ≠ 0 then -4 else if o.mcc_mnc.getD (-1) ≠ 0 then -4 else 0) fail_cnt := by
  have hreplies : o.replies.type = 1 ∨ o.replies.type = 5 := htype
  have hsignal : ¬ (o.replies.signal < 2 ∧ o.replies.signal > 31) := hrange
  rw [atcmdCheckRegist, if_neg hsignal, if_pos hreplies]
  rfl

theorem atcmdCheckRegist_of_other (hrange : ¬ (o.signal < 2 ∧ o.signal > 31))
    (htype : ¬ (o.type = regHomework ∨ o.type = regRoaming)) : atcmdCheckRegist o.replies times fail_cnt =
      countFailure times (if o.type = regDenied then -2 else -3) fail_cnt := by
  have hreplies : ¬ (o.replies.type = 1 ∨ o.replies.type = 5) := htype
  have hsignal : ¬ (o.replies.signal < 2 ∧ o.replies.signal > 31) := hrange
  rw [atcmdCheckRegist, if_neg hsignal, if_neg hreplies]
  rfl

theorem checkRegist_eq (times fail_cnt : Nat) (reg : RegisterInfo) (call : RegistCall) :
    (∃ e, call.outcome = .error e ∧ checkRegist times fail_cnt reg call = .error e) ∨
      ∃ o reg', call.outcome = .ok o ∧ checkRegist times fail_cnt reg call =
        .ok ((atcmdCheckRegist o.replies times fail_cnt).2, (atcmdCheckRegist o.replies times fail_cnt).1, reg') := by
  have hrange : ∀ signal : Int, ¬ (signal < 2 ∧ signal > 31) := by omega
  unfold RegistCall.outcome checkRegist registQueries
  cases atcmdCheckGprsSignal call.comport call.csq with
  | error e => exact .inl ⟨e, rfl, rfl⟩
  | ok signal =>
      cases atcmdCheckGprsRegister call.comport call.creg with
      | error e =>
          simp only [ok_bind, if_neg (hrange signal)]
          exact .inl ⟨e, rfl, rfl⟩
      | ok type =>
          simp only [ok_bind, if_neg (hrange signal), eq_comm (a := regHomework), eq_comm (a := regRoaming)]
          by_cases htype : type = regHomework ∨ type = regRoaming
          · simp only [if_pos htype]
            rcases carrier_cases call.comport call.cops with ⟨e, hcarrier⟩ | ⟨rv, hcarrier⟩
            · simp only [hcarrier]
              exact .inl ⟨e, rfl, rfl⟩
            · obtain ⟨carrier, hold⟩ := hcarrier []
              obtain ⟨carrier', hnew⟩ := hcarrier reg.carrier
              simp only [hold, hnew, ok_bind]
              by_cases hrv : rv = 0
              · simp only [hrv, ne_eq, not_true_eq_false, if_false]
                cases atcmdCheckGprsMccMnc call.comport call.qeng call.cell with
                | error e => exact .inl ⟨e, rfl, rfl⟩
                | ok found =>
                    refine .inr ⟨⟨signal, type, some 0, some found.1⟩,
                      ⟨type, signal, carrier', found.2.getD reg.mcc_mnc⟩, rfl, ?_⟩
                    rw [atcmdCheckRegist_of_type (hrange signal) htype,
                      if_neg (show ¬ (some (0 : Int)).getD (-1) ≠ 0 from not_not.mpr rfl)]
                    rfl
              · simp only [ne_eq, hrv, not_false_eq_true, if_true]
                refine .inr ⟨⟨signal, type, some rv, none⟩, ⟨type, signal, carrier', reg.mcc_mnc⟩, rfl, ?_⟩
                rw [atcmdCheckRegist_of_type (hrange signal) htype, if_pos (show (some rv).getD (-1) ≠ 0 from hrv)]
                rfl
          · simp only [if_neg htype]
            refine .inr ⟨⟨signal, type, none, none⟩, ⟨type, signal, reg.carrier, reg.mcc_mnc⟩, rfl, ?_⟩
            rw [atcmdCheckRegist_of_other (hrange signal) htype]
            simp only [eq_comm (a := regDenied)]
            rfl

theorem atcmdCheckRegist_retval (o : Outcome) (times fail_cnt : Nat) : atcmdCheckRegist o.replies times fail_cnt =
    if o.Registered then (0, 1) else if fail_cnt < times then (fail_cnt + 1, 0) else (0, -1) := by
  have hrange : ¬ (o.signal < 2 ∧ o.signal > 31) := by omega
  obtain ⟨signal, type, carrier, mcc_mnc⟩ := o
  by_cases htype : type = regHomework ∨ type = regRoaming
  · rw [atcmdCheckRegist_of_type hrange htype]
    match carrier, mcc_mnc with
    | none, _ => simp [Outcome.Registered, countFailure]
    | some rv, none => by_cases hrv : rv = 0 <;> simp [Outcome.Registered, countFailure, hrv]
    | some rv, some rv' =>
        by_cases hrv : rv = 0 <;> by_cases hrv' : rv' = 0 <;>
          simp [Outcome.Registered, countFailure, hrv, hrv', htype]
  · have hnot : ¬ (⟨signal, type, carrier, mcc_mnc⟩ : Outcome).Registered := fun h => htype h.1
    rw [atcmdCheckRegist_of_other hrange htype, if_neg hnot]
    by_cases hdenied : type = regDenied <;> simp [countFailure, hdenied]

end Call

section Run

variable {times : Nat} {s t : Regist} {call : RegistCall} {past : List RegistSeen} {seen : RegistSeen} {o : Outcome}

theorem failedInRow_snoc (past : List RegistSeen) (seen : RegistSeen) :
    failedInRow (past ++ [seen]) = if seen.Passed then 0 else failedInRow past + 1 := by
  unfold failedInRow
  split
  next h => rw [List.rtakeWhile_concat_neg _ _ _ (by simp [h])]; rfl
  next h => rw [List.rtakeWhile_concat_pos _ _ _ (by simp [h]), List.length_append]; rfl

theorem registStep_ok (times : Nat) (s : Regist) (h : call.outcome = .ok o) : ∃ reg, registStep times s call =
    .ok ⟨(atcmdCheckRegist o.replies times s.fail_cnt).1, reg,
      s.past ++ [⟨o, (atcmdCheckRegist o.replies times s.fail_cnt).2⟩]⟩ := by
  rcases checkRegist_eq times s.fail_cnt s.reg call with ⟨e, herror, -⟩ | ⟨o', reg, hok, hcheck⟩
  · cases h.symm.trans herror
  · cases h.symm.trans hok
    refine ⟨reg, ?_⟩
    rw [registStep, hcheck, ok_bind]
    simp only [h]
    rfl

theorem registStep_error {e : Fault} (h : call.outcome = .error e) : registStep times s call = .error e := by
  rcases checkRegist_eq times s.fail_cnt s.reg call with ⟨e', herror, hcheck⟩ | ⟨o', reg, hok, -⟩
  · cases h.symm.trans herror
    rw [registStep, hcheck]
    rfl
  · cases h.symm.trans hok

structure Counting (times : Nat) (s : Regist) : Prop where
  counts : Follows (Counts times) s.past
  count : s.fail_cnt = failedInRow s.past % (times + 1)

theorem counting_init (times : Nat) (reg : RegisterInfo) : Counting times (Regist.init reg) :=
  ⟨follows_nil _, rfl⟩

theorem Counting.step (h : Counting times s) (hcall : Credible call) (ht : registStep times s call = .ok t) :
    Counting times t := by
  obtain ⟨o, ho, hrange⟩ := hcall
  obtain ⟨reg, hstep⟩ := registStep_ok times s ho
  cases ht.symm.trans hstep
  rw [atcmdCheckRegist_retval]
  have hlt : failedInRow s.past % (times + 1) < times + 1 := Nat.mod_lt _ (Nat.succ_pos times)
  have hnext := Nat.add_mod (failedInRow s.past) 1 (times + 1)
  by_cases hregistered : o.Registered
  · rw [if_pos hregistered]
    have hpassed : (⟨o, 1⟩ : RegistSeen).Passed := ⟨hrange hregistered, hregistered⟩
    refine ⟨h.counts.snoc ⟨iff_of_true rfl hpassed, fun hnot => absurd hpassed hnot⟩, ?_⟩
    rw [failedInRow_snoc, if_pos hpassed, Nat.zero_mod]
  · have hnot : ∀ retval, ¬ (⟨o, retval⟩ : RegistSeen).Passed := fun _ hpassed => hregistered hpassed.2
    rw [if_neg hregistered, h.count]
    split
    next hfew =>
      refine ⟨h.counts.snoc ⟨iff_of_false (show ¬ (0 : Int) = 1 by decide) (hnot 0), fun _ => (if_pos hfew).symm⟩, ?_⟩
      rw [failedInRow_snoc, if_neg (hnot 0), hnext]
      rcases Nat.eq_zero_or_pos times with rfl | hpos
      · exact absurd hfew (Nat.not_lt_zero _)
      · rw [Nat.mod_eq_of_lt (show 1 < times + 1 by omega), Nat.mod_eq_of_lt (Nat.succ_lt_succ hfew)]
    next hmany =>
      have hlast : failedInRow s.past % (times + 1) = times := by omega
      refine ⟨h.counts.snoc ⟨iff_of_false (show ¬ (-1 : Int) = 1 by decide) (hnot (-1)), fun _ => (if_neg hmany).symm⟩, ?_⟩
      rw [failedInRow_snoc, if_neg (hnot (-1)), hnext, hlast]
      rcases Nat.eq_zero_or_pos times with rfl | hpos
      · rfl
      · rw [Nat.mod_eq_of_lt (show 1 < times + 1 by omega), Nat.mod_self]

theorem registStep_breaks (s : Regist) (hcall : ¬ Credible call) :
    (∃ t, registStep times s call = .ok t ∧ ¬ Follows (Counts times) t.past) ∨
      ∃ e, registStep times s call = .error e ∧ ¬ False := by
  cases ho : call.outcome with
  | error e => exact .inr ⟨e, registStep_error ho, id⟩
  | ok o =>
      have hregistered : o.Registered := Classical.byContradiction fun hnot =>
        hcall ⟨o, ho, fun h => absurd h hnot⟩
      have hrange : ¬ o.InRange := fun h => hcall ⟨o, ho, fun _ => h⟩
      obtain ⟨reg, hstep⟩ := registStep_ok times s ho
      refine .inl ⟨_, hstep, fun hcounts => ?_⟩
      have hone := (hcounts _ _ [] rfl).passed
      rw [atcmdCheckRegist_retval, if_pos hregistered] at hone
      exact hrange (hone.mp rfl).1

def CountsThroughout (times : Nat) (reg : RegisterInfo) (calls : List RegistCall) : Prop :=
  Always (registStep times) (fun s => Follows (Counts times) s.past) (.init reg) calls ∧
    FaultsOnly (fun _ => False) (exec (registStep times) (.init reg) calls)

theorem along_credible_iff (times : Nat) {calls : List RegistCall} : ∀ {s : Regist},
    Along (registStep times) (fun _ call => Credible call) s calls ↔ ∀ call ∈ calls, Credible call := by
  induction calls with
  | nil => exact fun {s} => iff_of_true trivial fun _ h => absurd h List.not_mem_nil
  | cons call calls ih =>
      intro s
      rw [List.forall_mem_cons]
      refine and_congr_right fun hcall => ?_
      obtain ⟨o, ho, -⟩ := hcall
      obtain ⟨reg, hstep⟩ := registStep_ok times s ho
      exact ⟨fun h => ih.mp (h _ hstep), fun h t _ => ih.mpr h⟩

/-- A row of calls counts throughout if and only if no signal out of range goes with a
registration. -/
theorem countsThroughout_iff (times : Nat) (reg : RegisterInfo) (calls : List RegistCall) :
    CountsThroughout times reg calls ↔ ∀ call ∈ calls, Credible call := by
  rw [← along_credible_iff times (s := .init reg)]
  refine safe_iff_along (fun (s : Regist) (hs : Counting times s) => hs.counts) ?_ ?_ ?_ (counting_init times reg)
  · exact fun s call t hs hcall ht => hs.step hcall ht
  · intro s call _ hcall e he
    obtain ⟨o, ho, -⟩ := hcall
    obtain ⟨reg, hstep⟩ := registStep_ok times s ho
    cases hstep.symm.trans he
  · exact fun s call _ hcall => registStep_breaks s hcall

end Run

/-- No signal at all goes with a registration. -/
theorem no_signal_registered : ¬ ∀ times reg calls, CountsThroughout times reg calls := by
  intro h
  let call : RegistCall := ⟨openPort, replying (ascii "+CSQ: 99,99\r\nOK\r\n"), replying (ascii "+CREG: 0,1\r\nOK\r\n"),
    replying (ascii "+COPS: 0,0,\"CMCC\",0\r\nOK\r\n"), replying (ascii "OK\r\n"),
    replying (ascii "+QENG: 0,460,00,7108\r\nOK\r\n")⟩
  have hreported : call.outcome = .ok ⟨99, 1, some 0, some 0⟩ := by decide +kernel
  obtain ⟨reg, hstep⟩ := registStep_ok 0 (.init ⟨-1, -1, [], []⟩) hreported
  have hcounts := (h 0 ⟨-1, -1, [], []⟩ [call]).1.2 _ hstep
  have hone := (hcounts _ _ [] rfl).passed
  rw [atcmdCheckRegist_retval, if_pos (by decide)] at hone
  exact absurd (hone.mp rfl).1 (by decide)

end Fl2440.Gprs
