import Fl2440.Gprs.Ppp

/-! The threads of gsmd: the control thread of `cp_gprs.c` and the PPP thread, which
share `MODULE_INFO`. A step of the control thread is one access to what others write,
or one call of `power_on_module`; `power_off_module` is a step up to its wait, one for
each round of the wait, and its rest. -/
namespace Fl2440.Gprs

open Fl2440.Lib

inductive OffFor where
  | request
  | reset
  | term
deriving DecidableEq

inductive CtrlPoint where
  | head
  /-- `if(module->event)` -/
  | event
  | switch
  | off (why : OffFor)
  /-- `while(module->users)` -/
  | wait (why : OffFor)
  | on
  /-- `set_module_event(module, REQ_EVENT_NONE)` -/
  | clear
  | test
  | inspect
  /-- the `alloc_gsm_dataport` of `atcmd_inspect_status` -/
  | signal
  /-- the `alloc_gsm_dataport` of `atcmd_check_ready` -/
  | check
  | query (comport : Nat)
  | request (comport : Nat)
  | free (comport : Nat)
  | exited
deriving DecidableEq

inductive CtrlAct where
  | next
  | powerOff (hal_get : Int)
  | poll (hal_get : Int)
  | powerOn (calls : PowerOnCalls)
  | inspect (clock now : Nat)
  | alloc (lock : Bool)
  | query (replies : Replies)

/-- The variables `fail_cnt` of the three checks. -/
structure FailCnt where
  module_ready : Nat
  hwinfo : Nat
  regist : Nat

structure Gsmd where
  module : ModuleInfo
  /-- `g_cp_signal.stop` -/
  stop : Bool
  ctrl : CtrlPoint
  /-- of `atcmd_inspect_status` -/
  start_time : ULong
  fail_cnt : FailCnt
  ppp : Ppp
  /-- what was done to the hardware, the newest first -/
  log : List PowerEvent

inductive GsmdAct where
  /-- the process is told to stop -/
  | signal
  /-- another caller of `set_module_event` -/
  | request (request : Request)
  | ctrl (a : CtrlAct)
  | ppp (a : PppAct)

namespace Gsmd

def init : Gsmd := ⟨initGsmModule, false, .head, 0, ⟨0, 0, 0⟩, .init, []⟩

/-- The call that the `switch` of `set_module_event_power` makes first. -/
def serve : Request → CtrlPoint
  | .powerOn => .on
  | .powerOff => .off .request
  | .powerReset => .off .reset

def afterOff : OffFor → CtrlPoint
  | .request => .clear
  | .reset => .on
  | .term => .exited

/-- The checks of `atcmd_check_ready`, by how far the module is. -/
def atcmdCheckReady (s : Gsmd) (replies : Replies) : FailCnt × Option Int :=
  let fail := s.fail_cnt
  match s.module.ready with
  | .moduleReady =>
      let (fail_cnt, rv) := atcmdCheckModuleReady replies 10 fail.module_ready
      ({ fail with module_ready := fail_cnt }, some rv)
  | .checkHwinfo =>
      let (fail_cnt, rv) := atcmdCheckHwinfo replies 10 fail.hwinfo
      ({ fail with hwinfo := fail_cnt }, some rv)
  | .checkRegistry =>
      let (fail_cnt, rv) := atcmdCheckRegist replies 10 fail.regist
      ({ fail with regist := fail_cnt }, some rv)
  | .notReady => (fail, none)
  | .allReady => (fail, none)

def ctrlStep (s : Gsmd) (a : CtrlAct) : Except Halt Gsmd :=
  match s.ctrl, a with
  | .head, .next => .ok { s with ctrl := if s.stop then .off .term else .event }
  | .event, .next => .ok { s with ctrl := if s.module.event = none then .test else .switch }
  | .switch, .next => .ok { s with ctrl := (s.module.event.map serve).getD .clear }
  | .off why, .powerOff hal_get =>
      let module := { s.module with pwr_status := .ofInt 8 hal_get }
      .ok { s with
        module := module
        ctrl := if module.pwr_status = OFF then afterOff why else .wait why }
  | .wait why, .poll hal_get =>
      if s.module.users ≠ 0 then .ok s
      else .ok { s with module := turnOffModule s.module hal_get, ctrl := afterOff why }
  | .on, .powerOn calls =>
      let (module, rv, events) := powerOnModule s.module calls
      .ok { s with
        module := module
        ctrl := if rv ≠ 0 then .test else .clear
        log := events.reverse ++ s.log }
  | .clear, .next => .ok { s with module := setModuleEvent s.module none, ctrl := .test }
  | .test, .next =>
      .ok { s with
        ctrl := if s.module.ready = .allReady then .inspect
          else if s.module.pwr_status = ON then .check else .head }
  | .inspect, .inspect clock now =>
      if s.start_time ≠ 0 ∧ timeElapsed (timeNow clock) s.start_time < 10000 then .ok { s with ctrl := .head }
      else .ok { s with start_time := timeNow now, ctrl := .signal }
  | .signal, .alloc lock =>
      let (module, comport) := allocGsmDataport lock s.module
      .ok { s with module := module, ctrl := (comport.map .free).getD .head }
  | .check, .alloc lock =>
      let (module, comport) := allocGsmDataport lock s.module
      .ok { s with module := module, ctrl := (comport.map .query).getD .head }
  | .query comport, .query replies =>
      match atcmdCheckReady s replies with
      | (fail, none) => .ok { s with fail_cnt := fail, ctrl := .free comport }
      | (fail, some rv) =>
          if rv > 0 then
            .ok { s with
              fail_cnt := fail
              module := { s.module with ready := s.module.ready.next }
              ctrl := .free comport }
          else .ok { s with fail_cnt := fail, ctrl := if rv < 0 then .request comport else .free comport }
  | .request comport, .next =>
      .ok { s with module := setModuleEvent s.module (some .powerReset), ctrl := .free comport }
  | .free comport, .next => .ok { s with module := (freeGsmDataport s.module comport).1, ctrl := .head }
  | _, _ => .error .disabled

/-- What a step of the PPP thread does to the module, and whether it finds what it says.
It gets no port either while another thread is in `alloc_gsm_dataport`. -/
def pppShared (s : Gsmd) : PppAct → Except Halt ModuleInfo
  | .signal stop => if stop = s.stop then .ok s.module else .error .disabled
  | .ready ready => if ready = s.module.ready then .ok s.module else .error .disabled
  | .alloc none => .ok s.module
  | .alloc (some i) =>
      match allocGsmDataport false s.module with
      | (module, some j) => if i = j then .ok module else .error .disabled
      | (_, none) => .error .disabled
  | .free =>
      match s.ppp.ctx.comport with
      | some i =>
          match freeGsmDataport s.module i with
          | (module, none) => .ok module
          | (_, some _) => .error .disabled
      | none => .error .disabled
  | .request => .ok (setModuleEvent s.module (some .powerReset))
  | _ => .ok s.module

def pppStep (s : Gsmd) (a : PppAct) : Except Halt Gsmd := do
  let module ← pppShared s a
  let ppp ← s.ppp.step a
  .ok { s with module := module, ppp := ppp }

def step (s : Gsmd) : GsmdAct → Except Halt Gsmd
  | .signal => .ok { s with stop := true }
  | .request request => .ok { s with module := setModuleEvent s.module (some request) }
  | .ctrl a => s.ctrlStep a
  | .ppp a => s.pppStep a

inductive Controls (s : Gsmd) : CtrlAct → Gsmd → Prop
  | leave (hctrl : s.ctrl = .head) (hstop : s.stop = true) : Controls s .next { s with ctrl := .off .term }
  | loop (hctrl : s.ctrl = .head) (hstop : s.stop = false) : Controls s .next { s with ctrl := .event }
  | quiet (hctrl : s.ctrl = .event) (hevent : s.module.event = none) :
      Controls s .next { s with ctrl := .test }
  | asked (hctrl : s.ctrl = .event) (hevent : s.module.event ≠ none) :
      Controls s .next { s with ctrl := .switch }
  | serve {request} (hctrl : s.ctrl = .switch) (hevent : s.module.event = some request) :
      Controls s .next { s with ctrl := serve request }
  | skip (hctrl : s.ctrl = .switch) (hevent : s.module.event = none) :
      Controls s .next { s with ctrl := .clear }
  | already {why hal_get} (hctrl : s.ctrl = .off why) (hoff : BitVec.ofInt 8 hal_get = OFF) :
      Controls s (.powerOff hal_get)
        { s with module := { s.module with pwr_status := .ofInt 8 hal_get }, ctrl := afterOff why }
  | wait {why hal_get} (hctrl : s.ctrl = .off why) (hoff : BitVec.ofInt 8 hal_get ≠ OFF) :
      Controls s (.powerOff hal_get)
        { s with module := { s.module with pwr_status := .ofInt 8 hal_get }, ctrl := .wait why }
  | busy {why hal_get} (hctrl : s.ctrl = .wait why) (husers : s.module.users ≠ 0) : Controls s (.poll hal_get) s
  | off {why hal_get} (hctrl : s.ctrl = .wait why) (husers : s.module.users = 0) :
      Controls s (.poll hal_get) { s with module := turnOffModule s.module hal_get, ctrl := afterOff why }
  | on {calls module rv events} (hctrl : s.ctrl = .on) (hon : powerOnModule s.module calls = (module, rv, events)) :
      Controls s (.powerOn calls)
        { s with
          module := module
          ctrl := if rv ≠ 0 then .test else .clear
          log := events.reverse ++ s.log }
  | clear (hctrl : s.ctrl = .clear) :
      Controls s .next { s with module := setModuleEvent s.module none, ctrl := .test }
  | test {point} (hctrl : s.ctrl = .test) (hpoint : point = .inspect ∨ point = .check ∨ point = .head) :
      Controls s .next { s with ctrl := point }
  | early {clock now} (hctrl : s.ctrl = .inspect) : Controls s (.inspect clock now) { s with ctrl := .head }
  | due {clock now} (hctrl : s.ctrl = .inspect) :
      Controls s (.inspect clock now) { s with start_time := timeNow now, ctrl := .signal }
  | signal {lock module comport} (hctrl : s.ctrl = .signal)
      (halloc : allocGsmDataport lock s.module = (module, comport)) :
      Controls s (.alloc lock) { s with module := module, ctrl := (comport.map .free).getD .head }
  | check {lock module comport} (hctrl : s.ctrl = .check)
      (halloc : allocGsmDataport lock s.module = (module, comport)) :
      Controls s (.alloc lock) { s with module := module, ctrl := (comport.map .query).getD .head }
  | passed {comport replies fail rv} (hctrl : s.ctrl = .query comport)
      (hcheck : atcmdCheckReady s replies = (fail, some rv)) (hrv : rv > 0) :
      Controls s (.query replies)
        { s with
          fail_cnt := fail
          module := { s.module with ready := s.module.ready.next }
          ctrl := .free comport }
  | missed {comport replies fail point} (hctrl : s.ctrl = .query comport)
      (hpoint : point = .request comport ∨ point = .free comport) :
      Controls s (.query replies) { s with fail_cnt := fail, ctrl := point }
  | request {comport} (hctrl : s.ctrl = .request comport) :
      Controls s .next { s with module := setModuleEvent s.module (some .powerReset), ctrl := .free comport }
  | free {comport} (hctrl : s.ctrl = .free comport) :
      Controls s .next { s with module := (freeGsmDataport s.module comport).1, ctrl := .head }

/-- A step of the PPP thread that neither looks at what others write nor writes it. -/
def Own : PppAct → Prop
  | .signal _ => False
  | .ready _ => False
  | .free => False
  | .alloc (some _) => False
  | .request => False
  | _ => True

inductive Shares (s : Gsmd) : PppAct → ModuleInfo → Prop
  | signal : Shares s (.signal s.stop) s.module
  | ready : Shares s (.ready s.module.ready) s.module
  | own {a} (hown : Own a) : Shares s a s.module
  | alloc {i module} (halloc : allocGsmDataport false s.module = (module, some i)) :
      Shares s (.alloc (some i)) module
  | free {i module} (hport : s.ppp.ctx.comport = some i)
      (hfree : freeGsmDataport s.module i = (module, none)) : Shares s .free module
  | request : Shares s .request (setModuleEvent s.module (some .powerReset))

theorem ctrlStep_controls {s t : Gsmd} {a : CtrlAct} (h : s.ctrlStep a = .ok t) : s.Controls a t := by
  unfold ctrlStep at h
  split at h
  case h_1 hctrl =>
    cases h
    by_cases hstop : s.stop = true
    · rw [if_pos hstop]
      exact .leave hctrl hstop
    · rw [if_neg hstop]
      exact .loop hctrl (Bool.eq_false_iff.mpr hstop)
  case h_2 hctrl =>
    cases h
    by_cases hevent : s.module.event = none
    · rw [if_pos hevent]
      exact .quiet hctrl hevent
    · rw [if_neg hevent]
      exact .asked hctrl hevent
  case h_3 hctrl =>
    cases h
    cases hevent : s.module.event with
    | none => exact .skip hctrl hevent
    | some request => exact .serve hctrl hevent
  case h_4 why hal_get hctrl =>
    cases h
    by_cases hoff : BitVec.ofInt 8 hal_get = OFF
    · rw [if_pos hoff]
      exact .already hctrl hoff
    · rw [if_neg hoff]
      exact .wait hctrl hoff
  case h_5 why hal_get hctrl =>
    split_ifs at h with husers
    · cases h
      exact .busy hctrl husers
    · cases h
      exact .off hctrl (not_not.mp husers)
  case h_6 calls hctrl =>
    cases h
    exact .on hctrl rfl
  case h_7 hctrl =>
    cases h
    exact .clear hctrl
  case h_8 hctrl =>
    cases h
    refine .test hctrl ?_
    split_ifs
    · exact .inl rfl
    · exact .inr (.inl rfl)
    · exact .inr (.inr rfl)
  case h_9 hctrl =>
    split_ifs at h
    · cases h
      exact .early hctrl
    · cases h
      exact .due hctrl
  case h_10 hctrl =>
    cases h
    exact .signal hctrl rfl
  case h_11 hctrl =>
    cases h
    exact .check hctrl rfl
  case h_12 comport replies hctrl =>
    split at h
    next fail hcheck =>
      cases h
      exact .missed hctrl (.inr rfl)
    next fail rv hcheck =>
      split_ifs at h with hrv
      · cases h
        exact .passed hctrl hcheck hrv
      · cases h
        exact .missed hctrl (.inl rfl)
      · cases h
        exact .missed hctrl (.inr rfl)
  case h_13 hctrl =>
    cases h
    exact .request hctrl
  case h_14 hctrl =>
    cases h
    exact .free hctrl
  case h_15 => cases h

theorem pppShared_shares {s : Gsmd} {a : PppAct} {module : ModuleInfo} (h : s.pppShared a = .ok module) :
    s.Shares a module := by
  unfold pppShared at h
  split at h
  case h_1 =>
    split_ifs at h with hstop
    cases h
    exact hstop ▸ .signal
  case h_2 =>
    split_ifs at h with hready
    cases h
    exact hready ▸ .ready
  case h_3 =>
    cases h
    exact .own trivial
  case h_4 i =>
    split at h
    next module' j halloc =>
      split_ifs at h with hij
      cases h
      exact .alloc (hij ▸ halloc)
    next => cases h
  case h_5 =>
    split at h
    next i hport =>
      split at h
      next hfree =>
        cases h
        exact .free hport hfree
      next => cases h
    next => cases h
  case h_6 =>
    cases h
    exact .request
  case h_7 hsignal hready hnone hsome hfree hrequest =>
    cases h
    refine .own ?_
    cases a with
    | signal stop => exact hsignal stop rfl
    | ready ready => exact hready ready rfl
    | free => exact hfree rfl
    | alloc comport =>
        cases comport with
        | none => trivial
        | some i => exact hsome i rfl
    | request => exact hrequest rfl
    | _ => trivial

theorem Shares.samePorts {s : Gsmd} {a : PppAct} {module : ModuleInfo} (h : s.Shares a module) :
    a = .request ∧ module = setModuleEvent s.module (some .powerReset) ∨ a ≠ .request ∧ SamePorts s.module module := by
  cases h with
  | signal => exact .inr ⟨nofun, rfl, rfl, rfl⟩
  | ready => exact .inr ⟨nofun, rfl, rfl, rfl⟩
  | own hown =>
      refine .inr ⟨?_, rfl, rfl, rfl⟩
      rintro rfl
      exact hown.elim
  | alloc halloc => exact .inr ⟨nofun, samePorts_alloc halloc⟩
  | @free i _ _ hfree =>
      have hsame := samePorts_free s.module i
      rw [hfree] at hsame
      exact .inr ⟨nofun, hsame⟩
  | request => exact .inl ⟨rfl, rfl⟩

theorem pppStep_shares {s t : Gsmd} {a : PppAct} (h : s.pppStep a = .ok t) :
    ∃ module ppp, s.Shares a module ∧ s.ppp.step a = .ok ppp ∧ t = { s with module := module, ppp := ppp } := by
  obtain ⟨module, hmodule, hrest⟩ := bind_eq_ok_iff.mp h
  obtain ⟨ppp, hppp, hok⟩ := bind_eq_ok_iff.mp hrest
  cases hok
  exact ⟨module, ppp, pppShared_shares hmodule, hppp, rfl⟩

end Gsmd

end Fl2440.Gprs
