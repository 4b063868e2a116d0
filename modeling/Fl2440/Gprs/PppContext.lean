import Fl2440.Gprs.Ppp

/-! The port of a dialed connection. `stop_ppp_connect` gives the port back and leaves
the status as it is, so the thread loop may not get that far. -/
namespace Fl2440.Gprs

open Fl2440.Lib

namespace Ppp

/-- `status >= CONNECTING` implies `comport != NULL`. -/
def Held (s : Ppp) : Prop := s.ctx.status.Dialed → s.ctx.comport ≠ none

/-- The loop's `stop_ppp_connect` does not come to `free_gsm_dataport`, and the one at
the end of the thread does not find the interface without a port. -/
def KeepsPort (s : Ppp) (a : PppAct) : Prop :=
  match s.point, a with
  | .free false, .free => False
  | .stop true, .interface true => s.ctx.comport ≠ none
  | _, _ => True

structure Context (s : Ppp) : Prop where
  held : Held s
  placed : Placed s

theorem inspectPing_comport (ctx : PppCtx) (tx rx : BitVec 64) (o : Inspection) :
    (inspectPing ctx tx rx o).comport = ctx.comport := by
  unfold inspectPing checkPppStat
  dsimp only
  split_ifs <;> first | rfl | (split <;> rfl)

theorem inspectDialing_comport (ctx : PppCtx) (o : Inspection) :
    (inspectDialing ctx o).comport = ctx.comport := by
  unfold inspectDialing
  dsimp only
  split_ifs <;> rfl

theorem inspectNetworkStatus_comport {ctx ctx' : PppCtx} {o : Inspection}
    (h : inspectNetworkStatus ctx o = .ok ctx') : ctx'.comport = ctx.comport := by
  unfold inspectNetworkStatus at h
  dsimp only at h
  split_ifs at h
  · split at h
    · cases h
    · cases h
      rw [inspectPing_comport, inspectDialing_comport]
  · cases h
    exact inspectPing_comport ctx _ _ o

theorem inspectNetworkStatus_total {ctx : PppCtx} (h : ctx.comport ≠ none) (o : Inspection) :
    ∃ ctx', inspectNetworkStatus ctx o = .ok ctx' := by
  unfold inspectNetworkStatus
  dsimp only
  split_ifs
  · cases hport : ctx.comport with
    | none => exact absurd hport h
    | some i => exact ⟨_, rfl⟩
  · exact ⟨_, rfl⟩

theorem held_started {ctx : PppCtx} (hport : ctx.comport ≠ none) : Held (started ⟨.start, ctx⟩) := by
  intro _
  rwa [started_ctx]

theorem held_disconnect {point : PppPoint} {ctx : PppCtx} (h : ctx.status = .disconnect) :
    Held ⟨point, ctx⟩ := by
  intro hdialed
  rw [h] at hdialed
  exact hdialed.elim

variable {s t : Ppp} {a : PppAct}

theorem Moves.held (h : Moves s a t) (hs : Context s) (hkeeps : KeepsPort s a) : Held t := by
  obtain ⟨hheld, hplaced⟩ := hs
  cases h with
  | leave => exact hheld
  | enter => exact hheld
  | withdraw => exact hheld
  | idle => exact hheld
  | look => exact hheld
  | connect => exact hheld
  | @absent _ term =>
      cases term with
      | false => exact hheld
      | true => exact held_disconnect rfl
  | present => exact hheld
  | alive => exact hheld
  | killed => exact hheld
  | @free _ term =>
      cases term with
      | false => exact hkeeps.elim
      | true => exact held_disconnect rfl
  | keep hport => exact held_started hport
  | full => exact hheld
  | alloc => exact held_started (Option.some_ne_none _)
  | found => exact fun hdialed => hdialed.elim
  | missing => exact held_disconnect rfl
  | request => exact hheld
  | dial => exact fun _ => hplaced.2
  | @inspect ctx ctx' _ hinspect =>
      intro _
      show ctx'.comport ≠ none
      rw [inspectNetworkStatus_comport hinspect]
      exact hheld hplaced

theorem Context.step (hs : Context s) (hkeeps : KeepsPort s a) (h : Ppp.step s a = .ok t) : Context t :=
  ⟨(step_moves h).held hs hkeeps, (step_moves h).placed hs.placed⟩

theorem Context.faultsOnly (hs : Context s) (hkeeps : KeepsPort s a) :
    FaultsOnly (· = .disabled) (Ppp.step s a) := by
  obtain ⟨point, ctx⟩ := s
  obtain ⟨hheld, hplaced⟩ := hs
  have hdisabled : FaultsOnly (· = .disabled) (.error .disabled : Except Halt Ppp) := .error rfl
  unfold Ppp.step
  split
  case h_1 => exact .ok _ _
  case h_2 => split <;> exact .ok _ _
  case h_3 term present hpoint =>
    obtain rfl : point = .stop term := hpoint
    cases present with
    | false => exact .ok _ _
    | true =>
        have hport : ctx.comport ≠ none := by
          cases term with
          | false => exact hheld hplaced
          | true => exact hkeeps
        rw [if_neg (by decide), if_neg hport]
        exact .ok _ _
  case h_4 term pid hpoint =>
    obtain rfl : point = .kill term := hpoint
    have hport : ctx.comport ≠ none := by
      cases term with
      | false => exact hplaced.2
      | true => exact hplaced
    rw [if_neg hport]
    split <;> exact .ok _ _
  case h_5 => exact .ok _ _
  case h_6 =>
    split
    · exact .ok _ _
    · exact hdisabled
    · exact .ok _ _
    · exact .ok _ _
  case h_7 => split <;> exact .ok _ _
  case h_8 => exact .ok _ _
  case h_9 => exact .ok _ _
  case h_10 o hpoint =>
    obtain rfl : point = .inspect := hpoint
    obtain ⟨ctx', hctx'⟩ := inspectNetworkStatus_total (hheld hplaced) o
    rw [hctx']
    exact .ok _ _
  case h_11 => exact hdisabled

theorem Context.breaks (hs : Context s) (hkeeps : ¬ KeepsPort s a) :
    (∃ t, Ppp.step s a = .ok t ∧ ¬ Held t) ∨ ∃ e, Ppp.step s a = .error e ∧ ¬ e = .disabled := by
  obtain ⟨point, ctx⟩ := s
  unfold KeepsPort at hkeeps
  split at hkeeps
  case h_1 hpoint =>
    obtain rfl : point = .free false := hpoint
    exact .inl ⟨_, rfl, fun hheld => hheld hs.placed.1 rfl⟩
  case h_2 hpoint =>
    obtain rfl : point = .stop true := hpoint
    exact .inr ⟨.fault .null, if_pos (not_not.mp hkeeps), Halt.noConfusion⟩
  case h_3 => exact absurd trivial hkeeps

theorem context_init : Context init := ⟨fun h => h.elim, trivial⟩

/-- In every state of a run a dialed connection has its port, and no step of the run goes
to a port that is not there, if and only if each step meets the condition. -/
theorem held_iff_keepsPort (acts : List PppAct) :
    Always step Held init acts ∧ FaultsOnly (· = .disabled) (exec step init acts) ↔
      Along step KeepsPort init acts :=
  safe_iff_along (fun _ hs => hs.held) (fun _ _ _ hs hkeeps h => hs.step hkeeps h)
    (fun _ _ hs hkeeps => hs.faultsOnly hkeeps) (fun _ _ hs hkeeps => hs.breaks hkeeps) context_init

def lostPort : List PppAct :=
  [.signal false, .ready .allReady, .alloc (some 0), .select true, .dial 0,
    .signal false, .ready .moduleReady, .interface true, .kill 0, .free,
    .signal false, .ready .allReady, .inspect ⟨0, 0, none, 0, 100, none, 0⟩]

theorem held_lostPort :
    ¬ (Always step Held init lostPort ∧ FaultsOnly (· = .disabled) (exec step init lostPort)) := by
  rintro ⟨-, hsafe⟩
  have hnull : exec step init lostPort = .error (.fault .null) := rfl
  exact Halt.noConfusion (hsafe _ hnull)

end Ppp

end Fl2440.Gprs
