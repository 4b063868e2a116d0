import Fl2440.Gprs.ComPort
import Fl2440.Lib.Run

/-! The descriptor of a port from `comport_init` to `comport_term`, and what `is_connted`
and the result of `comport_open` tell of it. -/
namespace Fl2440.Gprs

open Fl2440.Lib

inductive FdEvent where
  | opened (fd : Int)
  | closed (fd : Int)
deriving DecidableEq

/-- `close()` of a negative number does nothing. -/
def FdEvent.real : FdEvent → Bool
  | .opened fd => 0 ≤ fd
  | .closed fd => 0 ≤ fd

def liveFds (events : List FdEvent) : List Int :=
  events.foldl (fun live e => match e with
    | .opened fd => fd :: live
    | .closed fd => live.erase fd) []

/-- Each descriptor is closed once, and before the next one is opened. -/
def ClosedOnce (events : List FdEvent) : Prop :=
  ∃ fds : List Int, events.filter FdEvent.real = fds.flatMap fun fd => [.opened fd, .closed fd]

structure PortRun where
  comport : ComPort
  events : List FdEvent
  /-- what `comport_open` has returned, if it was the last call -/
  ret : Option Int

/-- `open()` does not give out descriptor 0. -/
inductive PortCall where
  | open (calls : OpenCalls) (given : calls.fd ≠ 0)
  | close

/-- The call of `close()` in `comport_close`. -/
def closeEvents (comport : ComPort) : List FdEvent :=
  if 0 ≠ comport.fd then [.closed comport.fd] else []

def OpenCalls.Succeed (calls : OpenCalls) : Prop :=
  calls.fcntl = true ∧ calls.tcflush = true ∧ calls.tcgetattr = true ∧ calls.tcsetattr = true

instance (calls : OpenCalls) : Decidable calls.Succeed :=
  inferInstanceAs (Decidable (_ ∧ _))

namespace PortRun

def start (dev_name : String) : PortRun := ⟨comportInit dev_name, [], none⟩

def step (s : PortRun) : PortCall → Except Fault PortRun
  | .open calls _ =>
      let (comport, ret) := comportOpen s.comport calls
      .ok ⟨comport, s.events ++ closeEvents s.comport ++ if calls.fd < 0 then [] else [.opened calls.fd], some ret⟩
  | .close => .ok ⟨comportClose s.comport, s.events ++ closeEvents s.comport, none⟩

def term (s : PortRun) : List FdEvent :=
  if 0 ≠ s.comport.fd then s.events ++ closeEvents s.comport else s.events

/-- A connected port has an open descriptor, and `comport_open` has reported it. -/
def Right (s : PortRun) : Prop :=
  (s.comport.is_connted = true ↔ s.comport.fd ∈ liveFds s.events) ∧
    ∀ ret, s.ret = some ret → (0 ≤ ret ↔ s.comport.is_connted = true)

/-- What `comport_open` has to meet for a device of that name. -/
def Fits (dev_name : String) : PortCall → Prop
  | .open calls _ => calls.fd < 0 ∨ (comportInit dev_name).Tty ∧ calls.Succeed
  | .close => True

structure Owns (dev_name : String) (s : PortRun) : Prop where
  name : s.comport.dev_name = (comportInit dev_name).dev_name
  live : liveFds s.events = if 0 < s.comport.fd then [s.comport.fd] else []
  closed : ∃ fds : List Int, s.events.filter FdEvent.real =
    (fds.flatMap fun fd => [.opened fd, .closed fd]) ++ if 0 < s.comport.fd then [.opened s.comport.fd] else []

variable {dev_name : String} {s t : PortRun} {calls : OpenCalls} {call : PortCall} {acts : List PortCall}

theorem comportOpen_is_connted (comport : ComPort) (calls : OpenCalls) :
    (comportOpen comport calls).1.is_connted = true ↔ comport.Tty ∧ ¬ calls.fd < 0 ∧ calls.Succeed := by
  have htty : ({ comportClose comport with fd := calls.fd } : ComPort).Tty ↔ comport.Tty := Iff.rfl
  unfold comportOpen OpenCalls.Succeed
  dsimp only
  simp only [htty]
  split_ifs <;> simp_all [comportClose]

theorem comportOpen_ret (comport : ComPort) (calls : OpenCalls) :
    0 ≤ (comportOpen comport calls).2 ↔ ¬ calls.fd < 0 ∧ (comport.Tty → calls.Succeed) := by
  have htty : ({ comportClose comport with fd := calls.fd } : ComPort).Tty ↔ comport.Tty := Iff.rfl
  unfold comportOpen OpenCalls.Succeed
  dsimp only
  simp only [htty]
  split_ifs <;> simp_all

theorem step_open (s : PortRun) (given : calls.fd ≠ 0) :
    s.step (.open calls given) = .ok
      { comport := (comportOpen s.comport calls).1
        events := s.events ++ closeEvents s.comport ++ if calls.fd < 0 then [] else [.opened calls.fd]
        ret := some (comportOpen s.comport calls).2 } := rfl

@[simp] theorem liveFds_opened (events : List FdEvent) (fd : Int) :
    liveFds (events ++ [.opened fd]) = fd :: liveFds events := by
  simp [liveFds]

@[simp] theorem liveFds_closed (events : List FdEvent) (fd : Int) :
    liveFds (events ++ [.closed fd]) = (liveFds events).erase fd := by
  simp [liveFds]

theorem Owns.close (h : Owns dev_name s) :
    liveFds (s.events ++ closeEvents s.comport) = [] ∧ ClosedOnce (s.events ++ closeEvents s.comport) := by
  obtain ⟨fds, hclosed⟩ := h.closed
  have hlive := h.live
  by_cases hpos : 0 < s.comport.fd
  · have hne : 0 ≠ s.comport.fd := by omega
    rw [if_pos hpos] at hclosed hlive
    rw [closeEvents, if_pos hne]
    refine ⟨by simp [hlive], fds ++ [s.comport.fd], ?_⟩
    simp [hclosed, FdEvent.real, Int.le_of_lt hpos]
  · rw [if_neg hpos] at hclosed hlive
    rw [closeEvents]
    split_ifs
    · have hnot : ¬ 0 ≤ s.comport.fd := by omega
      refine ⟨by simp [hlive], fds, ?_⟩
      simp [hclosed, FdEvent.real, hnot]
    · refine ⟨by simp [hlive], fds, ?_⟩
      simp [hclosed]

theorem Owns.step (h : Owns dev_name s) (ht : s.step call = .ok t) : Owns dev_name t := by
  obtain ⟨hlive, fds, hclosed⟩ := h.close
  cases call with
  | close =>
      cases ht
      constructor
      · exact h.name
      · simp [hlive, comportClose]
      · exact ⟨fds, by simpa [comportClose] using hclosed⟩
  | «open» calls given =>
      rw [step_open] at ht
      cases ht
      generalize s.events ++ closeEvents s.comport = events at hlive hclosed
      by_cases hneg : calls.fd < 0
      · have hnot : ¬ 0 < calls.fd := by omega
        constructor
        · simp [h.name]
        · simp [hlive, hneg, hnot]
        · exact ⟨fds, by simpa [hneg, hnot] using hclosed⟩
      · have hpos : 0 < calls.fd := by omega
        constructor
        · simp [h.name]
        · simp [hlive, hneg, hpos]
        · exact ⟨fds, by simp [hclosed, hneg, hpos, FdEvent.real, Int.le_of_lt hpos]⟩

theorem step_ok (s : PortRun) (call : PortCall) : ∃ t, s.step call = .ok t := by
  cases call with
  | «open» calls given => exact ⟨_, s.step_open given⟩
  | close => exact ⟨_, rfl⟩

theorem Owns.right_iff (h : Owns dev_name s) (ht : s.step call = .ok t) : t.Right ↔ Fits dev_name call := by
  have hlive := (h.step ht).live
  cases call with
  | close =>
      cases ht
      refine iff_of_true ⟨?_, nofun⟩ trivial
      rw [hlive]
      simp [comportClose]
  | «open» calls given =>
      have htty : s.comport.Tty ↔ (comportInit dev_name).Tty := by rw [ComPort.Tty, ComPort.Tty, h.name]
      rw [step_open] at ht
      cases ht
      have hmem : calls.fd ∈ (if 0 < calls.fd then [calls.fd] else []) ↔ ¬ calls.fd < 0 := by
        split_ifs <;> simp <;> omega
      simp only [comportOpen_fd] at hlive
      simp only [Right, Fits, hlive, comportOpen_fd, comportOpen_is_connted, hmem, htty, Option.some.injEq,
        forall_eq', comportOpen_ret]
      generalize (comportInit dev_name).Tty = tty
      tauto

theorem owns_start (dev_name : String) : Owns dev_name (start dev_name) := by
  constructor
  · rfl
  · simp [start, comportInit, liveFds]
  · exact ⟨[], by simp [start, comportInit]⟩

theorem right_start (dev_name : String) : (start dev_name).Right := by
  simp [Right, start, comportInit, liveFds]

theorem along_fits_iff (dev_name : String) :
    Along step (fun _ call => Fits dev_name call) s acts ↔ ∀ call ∈ acts, Fits dev_name call := by
  induction acts generalizing s with
  | nil => simp
  | cons call acts ih =>
      obtain ⟨t, ht⟩ := s.step_ok call
      rw [Along, List.forall_mem_cons]
      simp [ht, ih]

theorem Owns.term (h : Owns dev_name s) : ClosedOnce s.term := by
  have hclosed := h.close.2
  unfold PortRun.term
  split_ifs with hne
  · exact hclosed
  · simpa [closeEvents, hne] using hclosed

theorem owns_of_exec (h : Owns dev_name s) (ht : exec step s acts = .ok t) : Owns dev_name t :=
  exec_preserves (P := Owns dev_name) (fun _ _ _ (_ : True) hs hstep => hs.step hstep) h
    (Along.of_forall (fun _ _ => trivial) _ _) ht

/-- The flag, the descriptor and the result agree after every call just when every
`comport_open` gets no descriptor, or is one of a TTY that goes through. Each descriptor is
closed once in any case. -/
theorem port_right_iff (dev_name : String) (acts : List PortCall) :
    (Always step Right (start dev_name) acts ∧ ∀ s, exec step (start dev_name) acts = .ok s → ClosedOnce s.term) ↔
      ∀ call ∈ acts, Fits dev_name call := by
  have hclosed : ∀ s, exec step (start dev_name) acts = .ok s → ClosedOnce s.term := fun s hs =>
    (owns_of_exec (owns_start dev_name) hs).term
  rw [and_iff_left hclosed, ← along_fits_iff dev_name]
  refine always_iff_along (fun s (hs : Owns dev_name s ∧ s.Right) => hs.2) ?_ ?_ ⟨owns_start dev_name, right_start dev_name⟩
  · intro s call t hs hfits ht
    exact ⟨hs.1.step ht, (hs.1.right_iff ht).mpr hfits⟩
  · intro s call hs hbad
    obtain ⟨t, ht⟩ := s.step_ok call
    exact ⟨t, ht, fun hright => hbad ((hs.1.right_iff ht).mp hright)⟩

/-- A device that is no TTY is reported as open, but not connected. -/
theorem pipe_not_connected :
    ¬ ∀ dev_name acts, Always step Right (start dev_name) acts ∧
      ∀ s, exec step (start dev_name) acts = .ok s → ClosedOnce s.term := by
  intro h
  have hright := (h "/dev/gsm" [.open ⟨3, true, true, true, true⟩ (by decide)]).1.last rfl
  exact absurd ((hright.2 3 (by decide +kernel)).mp (by decide)) (by decide +kernel)

end PortRun

end Fl2440.Gprs
