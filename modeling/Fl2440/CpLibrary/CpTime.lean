import Fl2440.CpLibrary.Effects

/-! `cp_time.h`: milliseconds in an `unsigned long`, and what the timeouts of the sockets make of
them. -/
namespace Fl2440.CpLibrary

open Fl2440.Lib

structure Timeval where
  tv_sec : Int
  tv_usec : Nat
  usec_lt : tv_usec < 1000000

namespace Timeval

def millis (now : Timeval) : Int := now.tv_sec * 1000 + now.tv_usec / 1000

def laps (now : Timeval) : Int := now.millis / 2 ^ 32

end Timeval

def timeNow (now : Timeval) : ULong := UInt32.ofInt now.tv_sec * 1000 + UInt32.ofNat (now.tv_usec / 1000)

variable {start now : Timeval}

theorem timeNow_toNat (now : Timeval) : ((timeNow now).toNat : Int) = now.millis % 2 ^ 32 := by
  have husec := now.usec_lt
  have hsec : (UInt32.ofInt now.tv_sec).toNat = (now.tv_sec % 2 ^ 32).toNat := by
    rw [UInt32.ofInt, UInt32.toNat_ofNat']
    omega
  rw [timeNow, Timeval.millis, UInt32.toNat_add, UInt32.toNat_mul, hsec, UInt32.toNat_ofNat']
  simp only [UInt32.reduceToNat]
  omega

/-- A wrap in between costs a millisecond. -/
theorem timeElapsed_toNat (hlater : start.millis ≤ now.millis) (hnear : now.millis - start.millis < 2 ^ 32) :
    ((timeElapsed (timeNow start) (timeNow now)).toNat : Int) =
      if start.laps = now.laps then now.millis - start.millis else now.millis - start.millis - 1 := by
  have hstart := timeNow_toNat start
  have hnow := timeNow_toNat now
  have hlt : timeNow now < timeNow start ↔ start.laps ≠ now.laps := by
    rw [UInt32.lt_iff_toNat_lt, Timeval.laps, Timeval.laps]
    omega
  unfold timeElapsed
  by_cases hlaps : start.laps = now.laps
  · rw [if_neg (fun hwrap => hlt.mp hwrap hlaps), if_pos hlaps, UInt32.toNat_sub]
    rw [Timeval.laps, Timeval.laps] at hlaps
    omega
  · rw [if_pos (hlt.mpr hlaps), if_neg hlaps, UInt32.toNat_add, UInt32.toNat_sub]
    rw [Timeval.laps, Timeval.laps] at hlaps
    simp only [UInt32.reduceToNat]
    omega

/-! The two tests of `cp_sock_detect_timeout`. -/

namespace Sock

def idleTimedOut (s : Sock) (now : ULong) : Bool := s.idleTimeout > 0 && timeElapsed s.actvTime now > s.idleTimeout

def msgTimedOut (s : Sock) (now : ULong) : Bool :=
  s.msgTimeout > 0 && s.msgTime > 0 && timeElapsed s.msgTime now > s.msgTimeout

def timeoutEvents (s : Sock) (now : Clock) : UInt32 :=
  if s.idleTimedOut now.idle then cpSockEventIdleTimeout
  else if s.msgTimedOut now.msg then cpSockEventMsgTimeout
  else s.event.events

def timers (s : Sock) : ULong × ULong × ULong × ULong := (s.actvTime, s.msgTime, s.idleTimeout, s.msgTimeout)

theorem tests_congr {s t : Sock} (h : t.timers = s.timers) (now : ULong) :
    t.idleTimedOut now = s.idleTimedOut now ∧ t.msgTimedOut now = s.msgTimedOut now := by
  simp only [timers, Prod.mk.injEq] at h
  obtain ⟨hactv, hmsg, hidleTimeout, hmsgTimeout⟩ := h
  unfold idleTimedOut msgTimedOut
  rw [hactv, hmsg, hidleTimeout, hmsgTimeout]
  exact ⟨rfl, rfl⟩

theorem timeoutEvents_again {s t : Sock} {now : Clock} (htimers : t.timers = s.timers)
    (hevents : t.event.events = s.event.events ∨ t.event.events = s.timeoutEvents now) :
    t.timeoutEvents now = s.timeoutEvents now := by
  unfold timeoutEvents at *
  rw [(tests_congr htimers now.idle).1, (tests_congr htimers now.msg).2]
  split_ifs at hevents ⊢
  · rfl
  · rfl
  · exact hevents.elim id id

end Sock

section Walk

variable {σ σ' : Sys} {p q : SockId} {clock : SockId → Clock}

theorem detectTimeoutOne_eq (σ : Sys) (p : SockId) (now : Clock) :
    detectTimeoutOne σ p now = do
      let s ← σ.load p
      if s.idleTimedOut now.idle then
        let (_, σ) ← cpFdsAddSockTask (σ.modify p fun s => { s with event.events := cpSockEventIdleTimeout }) (some p)
        return σ
      else if s.msgTimedOut now.msg then
        let (_, σ) ← cpFdsAddSockTask (σ.modify p fun s => { s with event.events := cpSockEventMsgTimeout }) (some p)
        return σ
      else return σ := rfl

theorem detectTimeoutOne_events {now : Clock} (h : detectTimeoutOne σ p now = .ok σ') (q : SockId) :
    (σ'.mem q).event.events = if q = p then (σ.mem p).timeoutEvents now else (σ.mem q).event.events := by
  have hadd : ∀ {rv : Int} {events : UInt32},
      cpFdsAddSockTask (σ.modify p fun s => { s with event.events := events }) (some p) = .ok (rv, σ') →
      (σ'.mem q).event.events = if q = p then events else (σ.mem q).event.events := by
    intro rv events hcall
    have hview : σ'.view (fun _ => ()) (fun s => s.event.events) = _ :=
      (cpFdsAddSockTask_view hcall (fun _ _ => rfl) fun _ _ _ => rfl).1
    rw [(Sys.view_eq_iff.mp hview).2.2 q]
    split
    next hq => rw [hq, Sys.modify_same]
    next hq => rw [Sys.modify_ne _ _ hq]
  rw [detectTimeoutOne_eq] at h
  obtain ⟨s, hload, h⟩ := bind_eq_ok_iff.mp h
  obtain ⟨-, rfl⟩ := load_eq_ok hload
  rw [Sock.timeoutEvents]
  split at h
  next hidle =>
    obtain ⟨⟨rv, υ⟩, hcall, h⟩ := bind_eq_ok_iff.mp h
    cases h
    rw [hadd hcall, if_pos hidle]
  next hidle =>
    rw [if_neg hidle]
    split at h
    next hmsg =>
      obtain ⟨⟨rv, υ⟩, hcall, h⟩ := bind_eq_ok_iff.mp h
      cases h
      rw [hadd hcall, if_pos hmsg]
    next hmsg =>
      cases h
      rw [if_neg hmsg]
      split
      next hq => rw [hq]
      next => rfl

structure Tested (clock : SockId → Clock) (walked : List SockId) (σ σ' : Sys) : Prop where
  view : σ'.view Fds.serverList (fun s => (s.timers, s.acceptList)) =
    σ.view Fds.serverList (fun s => (s.timers, s.acceptList))
  events : ∀ q, (σ'.mem q).event.events =
    if q ∈ walked then (σ.mem q).timeoutEvents (clock q) else (σ.mem q).event.events

namespace Tested

variable {τ : Sys} {walked list : List SockId}

theorem nil (clock : SockId → Clock) (σ : Sys) : Tested clock [] σ σ where
  view := rfl
  events q := by rw [if_neg List.not_mem_nil]

theorem one (h : detectTimeoutOne σ p (clock p) = .ok σ') : Tested clock [p] σ σ' where
  view := (detectTimeoutOne_view h (fun _ _ => rfl) fun _ _ _ _ => rfl).1
  events q := by
    rw [detectTimeoutOne_events h q]
    simp only [List.mem_singleton]
    split
    next hq => rw [hq]
    next => rfl

theorem timers (h : Tested clock walked σ τ) (q : SockId) : (τ.mem q).timers = (σ.mem q).timers :=
  congrArg Prod.fst ((Sys.view_eq_iff.mp h.view).2.2 q)

theorem acceptList (h : Tested clock walked σ τ) (q : SockId) : (τ.mem q).acceptList = (σ.mem q).acceptList :=
  congrArg Prod.snd ((Sys.view_eq_iff.mp h.view).2.2 q)

theorem timeoutEvents (h : Tested clock walked σ τ) (q : SockId) :
    (τ.mem q).timeoutEvents (clock q) = (σ.mem q).timeoutEvents (clock q) := by
  refine Sock.timeoutEvents_again (h.timers q) ?_
  rw [h.events q]
  split
  · exact .inr rfl
  · exact .inl rfl

theorem append (h : Tested clock walked σ τ) (h' : Tested clock list τ σ') : Tested clock (walked ++ list) σ σ' where
  view := h'.view.trans h.view
  events q := by
    rw [h'.events q, h.timeoutEvents q, h.events q]
    simp only [List.mem_append]
    by_cases hwalked : q ∈ walked <;> by_cases hlist : q ∈ list <;> simp [hwalked, hlist]

theorem walk (h : list.foldlM (fun σ p => detectTimeoutOne σ p (clock p)) σ = .ok σ') : Tested clock list σ σ' := by
  induction list generalizing σ with
  | nil =>
      cases h
      exact nil clock _
  | cons p list ih =>
      obtain ⟨τ, hone, h⟩ := bind_eq_ok_iff.mp h
      exact (one hone).append (ih h)

theorem servers {serverList : List SockId}
    (h : serverList.foldlM (fun σ serv => do
      let list ← σ.registry (.accept serv)
      list.foldlM (fun σ p => detectTimeoutOne σ p (clock p)) σ) σ = .ok σ') :
    Tested clock (serverList.flatMap fun serv => (σ.mem serv).acceptList.getD []) σ σ' := by
  induction serverList generalizing σ with
  | nil =>
      cases h
      exact nil clock _
  | cons serv serverList ih =>
      obtain ⟨τ, hserv, h⟩ := bind_eq_ok_iff.mp h
      obtain ⟨list, hlist, hwalk⟩ := bind_eq_ok_iff.mp hserv
      have hfirst := walk hwalk
      have hrest := ih h
      simp only [hfirst.acceptList] at hrest
      rw [List.flatMap_cons, (Sys.registry_accept_ok_iff.mp hlist).2]
      exact hfirst.append hrest

end Tested

/-- The sockets that `cp_sock_detect_timeout` comes to. -/
def Sys.timed (σ : Sys) : List SockId :=
  σ.fds.clientList ++ σ.fds.serverList.flatMap fun serv => (σ.mem serv).acceptList.getD []

theorem cpSockDetectTimeout_events (h : cpSockDetectTimeout σ clock = .ok σ') (q : SockId) :
    (σ'.mem q).event.events =
      if q ∈ σ.timed then (σ.mem q).timeoutEvents (clock q) else (σ.mem q).event.events := by
  obtain ⟨τ, hclients, hservers⟩ := bind_eq_ok_iff.mp h
  have hfirst := Tested.walk hclients
  have hrest := Tested.servers hservers
  have hlist : τ.fds.serverList = σ.fds.serverList := (Sys.view_eq_iff.mp hfirst.view).1
  simp only [hfirst.acceptList, hlist] at hrest
  exact (hfirst.append hrest).events q

end Walk

/-- The test of an idle timeout asks for the time since the last activity, at `start`. -/
def IdleExact (start now : Timeval) (s : Sock) : Prop :=
  0 < s.idleTimeout → (s.idleTimedOut (timeNow now) = true ↔ (s.idleTimeout.toNat : Int) < now.millis - start.millis)

structure KeepsTime (start now : Timeval) (s : Sock) : Prop where
  elapsed : ((timeElapsed (timeNow start) (timeNow now)).toNat : Int) = now.millis - start.millis
  idle : IdleExact start now s

variable {s : Sock}

theorem millis_lt_of_laps_ne (hlater : start.millis ≤ now.millis) (h : start.laps ≠ now.laps) :
    start.millis < now.millis := by
  rw [Timeval.laps, Timeval.laps] at h
  omega

theorem idleTimedOut_iff (hpos : 0 < s.idleTimeout) (current : ULong) :
    s.idleTimedOut current = true ↔ s.idleTimeout.toNat < (timeElapsed s.actvTime current).toNat := by
  rw [Sock.idleTimedOut, Bool.and_eq_true, decide_eq_true_iff, decide_eq_true_iff, and_iff_right hpos]
  exact UInt32.lt_iff_toNat_lt

/-- Only a socket whose time is up by one millisecond is missed, and only behind a wrap. -/
theorem idleExact_iff (hactv : s.actvTime = timeNow start) (hlater : start.millis ≤ now.millis)
    (hnear : now.millis - start.millis < 2 ^ 32) :
    IdleExact start now s ↔
      start.laps = now.laps ∨ s.idleTimeout = 0 ∨ now.millis - start.millis ≠ s.idleTimeout.toNat + 1 := by
  have helapsed := timeElapsed_toNat hlater hnear
  have hzero : s.idleTimeout = 0 ↔ ¬ 0 < s.idleTimeout := by
    rw [UInt32.lt_iff_toNat_lt, ← UInt32.toNat_inj]
    simp
  by_cases hpos : 0 < s.idleTimeout
  · rw [IdleExact, forall_prop_of_true hpos, idleTimedOut_iff hpos, hactv, hzero]
    by_cases hlaps : start.laps = now.laps
    · rw [if_pos hlaps] at helapsed
      exact iff_of_true (by omega) (.inl hlaps)
    · rw [if_neg hlaps] at helapsed
      have hlt := millis_lt_of_laps_ne hlater hlaps
      simp only [hlaps, hpos, not_true_eq_false, false_or]
      omega
  · exact iff_of_true (fun h => absurd h hpos) (.inr (.inl (hzero.mpr hpos)))

/-- Where the test is exact, the walk finds the sockets that have been idle for too long. -/
theorem cpSockDetectTimeout_idle {σ σ' : Sys} {p : SockId} {clock : SockId → Clock}
    (h : cpSockDetectTimeout σ clock = .ok σ') (hp : p ∈ σ.timed) (hclock : (clock p).idle = timeNow now)
    (hexact : IdleExact start now (σ.mem p)) (hpos : 0 < (σ.mem p).idleTimeout)
    (hnew : (σ.mem p).event.events ≠ cpSockEventIdleTimeout) :
    (σ'.mem p).event.events = cpSockEventIdleTimeout ↔
      ((σ.mem p).idleTimeout.toNat : Int) < now.millis - start.millis := by
  rw [← hexact hpos, ← hclock, cpSockDetectTimeout_events h p, if_pos hp, Sock.timeoutEvents]
  split
  next hidle => exact iff_of_true rfl hidle
  next hidle =>
    refine iff_of_false ?_ hidle
    split
    · decide
    · exact hnew

theorem keepsTime_iff (hactv : s.actvTime = timeNow start) (hlater : start.millis ≤ now.millis)
    (hnear : now.millis - start.millis < 2 ^ 32) :
    (KeepsTime start now s ↔ start.laps = now.laps) ∧
      (IdleExact start now s ↔
        start.laps = now.laps ∨ s.idleTimeout = 0 ∨ now.millis - start.millis ≠ s.idleTimeout.toNat + 1) := by
  have hidle := idleExact_iff hactv hlater hnear
  refine ⟨⟨fun h => ?_, fun hlaps => ⟨?_, hidle.mpr (.inl hlaps)⟩⟩, hidle⟩
  · by_contra hlaps
    have helapsed := h.elapsed
    rw [timeElapsed_toNat hlater hnear, if_neg hlaps] at helapsed
    omega
  · rw [timeElapsed_toNat hlater hnear, if_pos hlaps]

theorem keepsTime_within_a_lap :
    KeepsTime ⟨1717986918, 395000, by decide⟩ ⟨1717986918, 399999, by decide⟩
      { actvTime := timeNow ⟨1717986918, 395000, by decide⟩, idleTimeout := 3 } :=
  (keepsTime_iff rfl (by decide) (by decide)).1.mpr (by decide)

/-- Ten milliseconds, with a wrap in the middle of them; the socket may be idle for nine. -/
theorem wrap_loses_a_millisecond :
    (timeElapsed (timeNow ⟨1717986918, 395000, by decide⟩) (timeNow ⟨1717986918, 405000, by decide⟩)).toNat = 9 ∧
      ¬ KeepsTime ⟨1717986918, 395000, by decide⟩ ⟨1717986918, 405000, by decide⟩
        { actvTime := timeNow ⟨1717986918, 395000, by decide⟩, idleTimeout := 9 } := by
  constructor
  · decide
  · intro h
    exact absurd ((h.idle (by decide)).mpr (by decide)) (by decide)

end Fl2440.CpLibrary
