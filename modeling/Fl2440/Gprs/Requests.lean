import Fl2440.Lib.Trace
import Fl2440.Gprs.Gsmd

/-! What becomes of power requests. `set_module_event_power` clears the event that is
there when the power is set, whoever wrote it. -/
namespace Fl2440.Gprs

open Fl2440.Lib

namespace Gsmd

/-- What can be seen of the threads: writes of `module->event`, what the `switch` reads,
and the returns of the power functions. -/
inductive Seen where
  | wrote (request : Request)
  | read (request : Request)
  | poweredOn
  | poweredOff
  | cleared
deriving DecidableEq

def observe (s : Gsmd) : GsmdAct → Option Seen
  | .request request => some (.wrote request)
  | .ppp .request => some (.wrote .powerReset)
  | .ctrl .next =>
      match s.ctrl with
      | .switch => s.module.event.map .read
      | .clear => some .cleared
      | .request _ => some (.wrote .powerReset)
      | _ => none
  | .ctrl (.powerOff hal_get) => if BitVec.ofInt 8 hal_get = OFF then some .poweredOff else none
  | .ctrl (.poll _) => if s.module.users = 0 then some .poweredOff else none
  | .ctrl (.powerOn _) => some .poweredOn
  | _ => none

def action : Request → List Seen
  | .powerOn => [.poweredOn]
  | .powerOff => [.poweredOff]
  | .powerReset => [.poweredOff, .poweredOn]

/-- The `switch` reads the request, and its action is taken. -/
def Served (request : Request) (between : List Seen) : Prop :=
  ∃ first rest, between = first ++ .read request :: rest ∧ (action request).Sublist rest

/-- A request is served, or overwritten by a newer one, before the event is cleared. -/
def NoneLost (seen : List Seen) : Prop :=
  ∀ past request between future, seen = past ++ .wrote request :: (between ++ .cleared :: future) →
    Served request between ∨ ∃ newer, .wrote newer ∈ between

/-- From the `switch` to the clear of the same call nobody writes a request. -/
def NoneMeanwhile (seen : List Seen) : Prop :=
  ∀ past request between future, seen = past ++ .read request :: (between ++ .cleared :: future) →
    (∀ other, .read other ∉ between) → ∀ newer, .wrote newer ∉ between

def lastEvent (seen : List Seen) : Option Request :=
  seen.foldl (fun event seen =>
    match seen with
    | .wrote request => some request
    | .cleared => none
    | _ => event) (some .powerReset)

structure Since (Q : Request → List Seen → Prop) (seen : List Seen) (past : List Seen) (request : Request)
    (rest : List Seen) : Prop where
  split : seen = past ++ .read request :: rest
  not_read : ∀ other, .read other ∉ rest
  meets : Q request rest

def progress : CtrlPoint → Request → List Seen → Prop
  | .off .request, request, _ => request = .powerOff
  | .wait .request, request, _ => request = .powerOff
  | .off .reset, request, _ => request = .powerReset
  | .wait .reset, request, _ => request = .powerReset
  | .on, request, rest => request = .powerOn ∨ request = .powerReset ∧ .poweredOff ∈ rest
  | .clear, request, rest => (action request).Sublist rest
  | _, _, _ => True

def Serving : CtrlPoint → Prop
  | .off .request => True
  | .wait .request => True
  | .off .reset => True
  | .wait .reset => True
  | .on => True
  | .clear => True
  | _ => False

def Fits (past : List Seen) : Seen → Prop
  | .read request => lastEvent past = some request
  | .cleared => ∃ before request rest, Since (fun request rest => (action request).Sublist rest) past before request rest
  | _ => True

structure Traced (s : Gsmd) (seen : List Seen) : Prop where
  event : lastEvent seen = s.module.event
  asked : s.ctrl = .switch → s.module.event ≠ none
  serving : Serving s.ctrl → ∃ past request rest, Since (progress s.ctrl) seen past request rest
  follows : Follows Fits seen

theorem lastEvent_snoc (seen : List Seen) (one : Seen) :
    lastEvent (seen ++ [one]) =
      match one with
      | .wrote request => some request
      | .cleared => none
      | _ => lastEvent seen := by
  rw [lastEvent, List.foldl_append]
  rfl

theorem Since.snoc {Q Q' : Request → List Seen → Prop} {seen past rest : List Seen} {request : Request}
    {one : Seen} (h : Since Q seen past request rest) (hread : ∀ other, one ≠ .read other)
    (hQ : Q request rest → Q' request (rest ++ [one])) : Since Q' (seen ++ [one]) past request (rest ++ [one]) where
  split := by rw [h.split, List.append_assoc, List.cons_append]
  not_read := fun other hother => by
    rcases List.mem_append.mp hother with hold | hnew
    · exact h.not_read other hold
    · exact hread other (List.mem_singleton.mp hnew).symm
  meets := hQ h.meets

theorem progress_snoc {point : CtrlPoint} {request : Request} {rest : List Seen} (one : Seen)
    (h : progress point request rest) : progress point request (rest ++ [one]) := by
  unfold progress at h ⊢
  split at h
  · exact h
  · exact h
  · exact h
  · exact h
  · exact h.imp_right fun h => ⟨h.1, List.mem_append_left _ h.2⟩
  · exact h.trans (List.sublist_append_left _ _)
  · trivial

variable {s t : Gsmd} {seen : List Seen}

theorem Traced.silent (h : Traced s seen) (hevent : t.module.event = s.module.event)
    (hasked : t.ctrl = .switch → s.module.event ≠ none)
    (hserving : Serving t.ctrl → ∃ past request rest, Since (progress t.ctrl) seen past request rest) :
    Traced t seen where
  event := h.event.trans hevent.symm
  asked := fun hswitch => hevent ▸ hasked hswitch
  serving := hserving
  follows := h.follows

theorem Traced.away (h : Traced s seen) (hevent : t.module.event = s.module.event) (hswitch : t.ctrl ≠ .switch)
    (hserving : ¬ Serving t.ctrl) : Traced t seen :=
  h.silent hevent (fun heq => absurd heq hswitch) fun hin => absurd hin hserving

theorem Traced.shown {one : Seen} (h : Traced s seen) (hfits : Fits seen one)
    (hevent : lastEvent (seen ++ [one]) = t.module.event) (hasked : t.ctrl ≠ .switch ∨ t.module.event ≠ none)
    (hserving : Serving t.ctrl → ∃ past request rest, Since (progress t.ctrl) (seen ++ [one]) past request rest) :
    Traced t (seen ++ [one]) where
  event := hevent
  asked := fun hswitch => hasked.resolve_left (not_not.mpr hswitch)
  serving := hserving
  follows := h.follows.snoc hfits

theorem Traced.write (h : Traced s seen) {request : Request} (hevent : t.module.event = some request)
    (hctrl : t.ctrl = s.ctrl) : Traced t (seen ++ [.wrote request]) := by
  refine h.shown trivial ?_ (.inr ?_) fun hserving => ?_
  · rw [lastEvent_snoc, hevent]
  · rw [hevent]
    exact Option.some_ne_none _
  · rw [hctrl] at hserving ⊢
    obtain ⟨past, read, rest, hsince⟩ := h.serving hserving
    exact ⟨past, read, _, hsince.snoc nofun (progress_snoc _)⟩

theorem Traced.turningOff (h : Traced s seen) {why : OffFor} (hctrl : s.ctrl = .off why ∨ s.ctrl = .wait why)
    (hserving : Serving (.off why)) : ∃ past request rest, Since (progress (.off why)) seen past request rest := by
  have hbefore := h.serving
  rcases hctrl with hctrl | hctrl
  · rw [hctrl] at hbefore
    exact hbefore hserving
  · rw [hctrl] at hbefore
    cases why with
    | request => exact hbefore trivial
    | reset => exact hbefore trivial
    | term => exact hserving.elim

theorem Traced.poweredOff (h : Traced s seen) {why : OffFor} (hevent : t.module.event = s.module.event)
    (hctrl : s.ctrl = .off why ∨ s.ctrl = .wait why) (hnext : t.ctrl = afterOff why) :
    Traced t (seen ++ [.poweredOff]) := by
  refine h.shown trivial ?_ (.inl ?_) fun hserving => ?_
  · rw [lastEvent_snoc, hevent]
    exact h.event
  · rw [hnext]
    cases why <;> exact nofun
  · rw [hnext] at hserving ⊢
    cases why with
    | request =>
        obtain ⟨past, request, rest, hsince⟩ := h.turningOff hctrl trivial
        refine ⟨past, request, _, hsince.snoc nofun ?_⟩
        rintro rfl
        exact List.sublist_append_right _ _
    | reset =>
        obtain ⟨past, request, rest, hsince⟩ := h.turningOff hctrl trivial
        refine ⟨past, request, _, hsince.snoc nofun ?_⟩
        rintro rfl
        exact .inr ⟨rfl, List.mem_append_right _ (List.mem_singleton_self _)⟩
    | term => exact hserving.elim

theorem Traced.poweredOn (h : Traced s seen) (hevent : t.module.event = s.module.event)
    (hctrl : s.ctrl = .on) (hnext : t.ctrl = .test ∨ t.ctrl = .clear) : Traced t (seen ++ [.poweredOn]) := by
  refine h.shown trivial ?_ (.inl ?_) fun hserving => ?_
  · rw [lastEvent_snoc, hevent]
    exact h.event
  · rcases hnext with hnext | hnext <;> rw [hnext] <;> exact nofun
  · rcases hnext with hnext | hnext
    · rw [hnext] at hserving
      exact hserving.elim
    · rw [hnext]
      obtain ⟨past, request, rest, hsince⟩ := h.serving (by rw [hctrl]; trivial)
      rw [hctrl] at hsince
      refine ⟨past, request, _, hsince.snoc nofun ?_⟩
      rintro (rfl | ⟨rfl, hoff⟩)
      · exact List.sublist_append_right _ _
      · exact (List.singleton_sublist.mpr hoff).append (List.Sublist.refl [Seen.poweredOn])

theorem powerOnModule_event (module : ModuleInfo) (calls : PowerOnCalls) :
    (powerOnModule module calls).1.event = module.event := by
  unfold powerOnModule openGsmDataport
  dsimp only
  split_ifs <;> rfl

theorem observe_none {a : GsmdAct} (hnone : observe s a = none) (h : Traced t seen) :
    Traced t (seen ++ (observe s a).toList) := by
  rwa [hnone, Option.toList_none, List.append_nil]

theorem observe_some {a : GsmdAct} {one : Seen} (hsome : observe s a = some one) (h : Traced t (seen ++ [one])) :
    Traced t (seen ++ (observe s a).toList) := by
  rwa [hsome, Option.toList_some]

theorem Traced.read (h : Traced s seen) {request : Request} (hevent : s.module.event = some request) :
    Traced { s with ctrl := serve request } (seen ++ [.read request]) := by
  refine h.shown (h.event.trans hevent) ?_ (.inl ?_) fun _ => ?_
  · rw [lastEvent_snoc]
    exact h.event
  · cases request <;> exact nofun
  · refine ⟨seen, request, [], rfl, nofun, ?_⟩
    cases request with
    | powerOn => exact .inl rfl
    | powerOff => exact rfl
    | powerReset => exact rfl

theorem Traced.clear (h : Traced s seen) (hctrl : s.ctrl = .clear) :
    Traced { s with module := setModuleEvent s.module none, ctrl := .test } (seen ++ [.cleared]) := by
  refine h.shown ?_ ?_ (.inl nofun) fun hserving => hserving.elim
  · obtain ⟨past, request, rest, hsince⟩ := h.serving (by rw [hctrl]; trivial)
    rw [hctrl] at hsince
    exact ⟨past, request, rest, hsince⟩
  · rw [lastEvent_snoc]
    rfl

theorem Traced.ctrl {a : CtrlAct} (h : Traced s seen) (hcontrols : s.Controls a t) :
    Traced t (seen ++ (observe s (.ctrl a)).toList) := by
  cases hcontrols with
  | leave hctrl =>
      apply observe_none
      · rw [observe, hctrl]
      · exact h.away rfl nofun id
  | loop hctrl =>
      apply observe_none
      · rw [observe, hctrl]
      · exact h.away rfl nofun id
  | quiet hctrl =>
      apply observe_none
      · rw [observe, hctrl]
      · exact h.away rfl nofun id
  | asked hctrl hevent =>
      apply observe_none
      · rw [observe, hctrl]
      · exact h.silent rfl (fun _ => hevent) fun hserving => hserving.elim
  | serve hctrl hevent =>
      apply observe_some
      · rw [observe, hctrl, hevent]
        rfl
      · exact h.read hevent
  | skip hctrl hevent => exact absurd hevent (h.asked hctrl)
  | already hctrl hoff => exact observe_some (if_pos hoff) (h.poweredOff rfl (.inl hctrl) rfl)
  | @wait why _ hctrl hoff =>
      refine observe_none (if_neg hoff) (h.silent rfl nofun fun hserving => ?_)
      cases why with
      | request => exact h.turningOff (.inl hctrl) trivial
      | reset => exact h.turningOff (.inl hctrl) trivial
      | term => exact hserving.elim
  | busy hctrl husers => exact observe_none (if_neg husers) h
  | off hctrl husers => exact observe_some (if_pos husers) (h.poweredOff rfl (.inr hctrl) rfl)
  | @on calls module rv events hctrl hon =>
      apply observe_some rfl
      refine h.poweredOn ?_ hctrl ?_
      · have hevent := powerOnModule_event s.module calls
        rwa [hon] at hevent
      · by_cases hrv : rv = 0
        · exact .inr (if_neg (not_not.mpr hrv))
        · exact .inl (if_pos hrv)
  | clear hctrl =>
      apply observe_some
      · rw [observe, hctrl]
      · exact h.clear hctrl
  | test hctrl hpoint =>
      apply observe_none
      · rw [observe, hctrl]
      · rcases hpoint with rfl | rfl | rfl <;> exact h.away rfl nofun id
  | early hctrl => exact observe_none rfl (h.away rfl nofun id)
  | due hctrl => exact observe_none rfl (h.away rfl nofun id)
  | @signal _ _ comport _ halloc =>
      apply observe_none rfl
      cases comport <;> exact h.away (samePorts_alloc halloc).event nofun id
  | @check _ _ comport _ halloc =>
      apply observe_none rfl
      cases comport <;> exact h.away (samePorts_alloc halloc).event nofun id
  | passed => exact observe_none rfl (h.away rfl nofun id)
  | missed _ hpoint =>
      apply observe_none rfl
      rcases hpoint with rfl | rfl <;> exact h.away rfl nofun id
  | request hctrl =>
      apply observe_some
      · rw [observe, hctrl]
      · refine h.shown trivial ?_ (.inl nofun) fun hserving => hserving.elim
        rw [lastEvent_snoc]
        rfl
  | @free comport hctrl =>
      apply observe_none
      · rw [observe, hctrl]
      · exact h.away (samePorts_free s.module comport).event nofun id

theorem Traced.ppp {a : PppAct} {module : ModuleInfo} {ppp : Ppp} (h : Traced s seen) (hshares : s.Shares a module) :
    Traced { s with module := module, ppp := ppp } (seen ++ (observe s (.ppp a)).toList) := by
  rcases hshares.samePorts with ⟨rfl, rfl⟩ | ⟨hother, hsame⟩
  · exact observe_some rfl (h.write rfl rfl)
  · apply observe_none
    · cases a <;> first | rfl | exact absurd rfl hother
    · exact h.silent hsame.event h.asked h.serving

theorem Traced.step {a : GsmdAct} (h : Traced s seen) (hstep : s.step a = .ok t) :
    Traced t (seen ++ (observe s a).toList) := by
  cases a with
  | signal =>
      cases hstep
      exact observe_none rfl (h.silent rfl h.asked h.serving)
  | request request =>
      cases hstep
      exact observe_some rfl (h.write rfl rfl)
  | ctrl a => exact h.ctrl (ctrlStep_controls hstep)
  | ppp a =>
      obtain ⟨module, ppp, hshares, -, rfl⟩ := pppStep_shares hstep
      exact h.ppp hshares

theorem traced_init : Traced init [] := ⟨rfl, nofun, fun hserving => hserving.elim, follows_nil _⟩

theorem lastEvent_wrote (past : List Seen) (request : Request) (between : List Seen)
    (hwrote : ∀ newer, .wrote newer ∉ between) :
    lastEvent (past ++ .wrote request :: between) = some request ∨
      lastEvent (past ++ .wrote request :: between) = none := by
  induction between using List.reverseRecOn with
  | nil => exact .inl (lastEvent_snoc past _)
  | append_singleton between one ih =>
      have hstays := ih fun newer hnewer => hwrote newer (List.mem_append_left _ hnewer)
      rw [← List.cons_append, ← List.append_assoc, lastEvent_snoc]
      cases one with
      | wrote newer => exact absurd (List.mem_append_right _ (List.mem_singleton_self _)) (hwrote newer)
      | cleared => exact .inr rfl
      | read _ => exact hstays
      | poweredOn => exact hstays
      | poweredOff => exact hstays

theorem noneLost_of_noneMeanwhile (hfits : Follows Fits seen) (hmeanwhile : NoneMeanwhile seen) : NoneLost seen := by
  intro past request between future heq
  by_cases hnewer : ∃ newer, .wrote newer ∈ between
  · exact .inr hnewer
  have hnone : ∀ newer, .wrote newer ∉ between := fun newer h => hnewer ⟨newer, h⟩
  have hcleared : seen = (past ++ .wrote request :: between) ++ .cleared :: future := by
    rw [heq, List.append_assoc, List.cons_append]
  obtain ⟨before, read, rest, hsince⟩ := hfits _ _ _ hcleared
  have hsplit : seen = before ++ .read read :: (rest ++ .cleared :: future) := by
    rw [hcleared, hsince.split, List.append_assoc, List.cons_append]
  have hrest := hmeanwhile before read rest future hsplit hsince.not_read
  obtain ⟨first, rfl, rfl⟩ := split_earlier hsince.split nofun (hrest request)
  have hread : lastEvent (past ++ .wrote request :: first) = some read := hfits _ _ _ hsplit
  have hsame : read = request := by
    rcases lastEvent_wrote past request first fun newer h => hnone newer (List.mem_append_left _ h) with h | h
    · exact Option.some.inj (hread.symm.trans h)
    · exact nomatch hread.symm.trans h
  subst hsame
  exact .inl ⟨first, rest, rfl, hsince.meets⟩

theorem noneMeanwhile_of_noneLost (hlost : NoneLost seen) : NoneMeanwhile seen := by
  intro past request between future heq hread newer hnewer
  obtain ⟨first, last, rest, rfl, ⟨request', rfl⟩, hlast⟩ :=
    exists_last (P := fun one => ∃ request, one = .wrote request) ⟨_, hnewer, newer, rfl⟩
  have hsplit : seen = (past ++ .read request :: first) ++ .wrote request' :: (rest ++ .cleared :: future) := by
    rw [heq, List.append_assoc, List.append_assoc, List.cons_append, List.cons_append]
  rcases hlost _ _ _ _ hsplit with ⟨_, _, rfl, -⟩ | ⟨other, hother⟩
  · exact hread request' (List.mem_append_right _ (List.mem_cons_of_mem _
      (List.mem_append_right _ List.mem_cons_self)))
  · exact hlast _ hother ⟨other, rfl⟩

/-- In a run of the threads no request is lost if and only if none is written from a
`switch` to the clear that follows it. -/
theorem noneLost_iff (acts : List GsmdAct) :
    NoneLost (trace step observe init acts) ↔ NoneMeanwhile (trace step observe init acts) := by
  obtain ⟨s, hs⟩ := trace_preserves (fun _ _ _ _ h hstep => h.step hstep) acts traced_init
  exact ⟨noneMeanwhile_of_noneLost, noneLost_of_noneMeanwhile hs.follows⟩

/-- The module is turned on for a reset that was asked for at the start; while that goes on,
a request comes to turn it off. -/
def overrun : List GsmdAct :=
  [.ctrl .next, .ctrl .next, .ctrl .next, .ctrl (.powerOff 0), .request .powerOff,
    .ctrl (.powerOn ⟨1, 0, 1, ⟨3, true, true, true, true⟩, fun _ => 0, fun _ => ⟨4, true, true, true, true⟩, 1⟩),
    .ctrl .next]

theorem overrun_loses : ¬ NoneLost (trace step observe init overrun) := by
  intro h
  have htrace : trace step observe init overrun =
      [.read .powerReset, .poweredOff, .wrote .powerOff, .poweredOn, .cleared] := rfl
  rcases h [.read .powerReset, .poweredOff] .powerOff [.poweredOn] [] htrace with ⟨first, rest, hsplit, -⟩ | ⟨newer, hnewer⟩
  · have hmem : Seen.read .powerOff ∈ [Seen.poweredOn] := by
      rw [hsplit]
      exact List.mem_append_right _ List.mem_cons_self
    exact absurd hmem (by decide)
  · exact absurd (List.mem_singleton.mp hnewer) nofun

end Gsmd

end Fl2440.Gprs
