import Fl2440.Converterd.CvdMain

/-! What the converter does with the bytes it reads. `write` may take fewer than it is given,
and the rest stays in the buffer, which the next read fills again. -/
namespace Fl2440.Converterd

open Fl2440.Lib

structure Session where
  cvd : Cvd
  read : Way → List Byte
  accepted : Way → List Byte
  last : Option Moved

namespace Session

def start (cvd : Cvd) : Session := ⟨cvd, fun _ => [], fun _ => [], none⟩

def record (s : Session) (cvd : Cvd) : Option Moved → Session
  | none => { s with cvd }
  | some moved =>
      let chunk := cvd.buf.take moved.nbytes
      { cvd
        read := Function.update s.read moved.way (s.read moved.way ++ chunk)
        accepted := Function.update s.accepted moved.way (s.accepted moved.way ++ chunk.take moved.written)
        last := some moved }

def step (s : Session) (e : Event) : Except NoEvent Session :=
  let (cvd, moved) := handleEvent s.cvd e
  .ok (s.record cvd moved)

/-- What the program still holds for a side: of the bytes in the buffer those that `write`
did not take. -/
def held (s : Session) (way : Way) : List Byte :=
  match s.last with
  | none => []
  | some moved => if moved.way = way then (s.cvd.buf.take moved.nbytes).drop moved.written else []

end Session

def Link.Up (s : Link) : Prop := s.comport.is_connted = true ∧ s.sock.status = .connected

namespace Session

/-- Each way, what was read is what was accepted and what is held, as long as both sides
stay connected. -/
def Forwarded (s : Session) : Prop := s.cvd.Up → ∀ way, s.read way = s.accepted way ++ s.held way

end Session

def Event.Brings (e : Event) (s : Link) : Way → Prop
  | .toSock => e.fd = s.comport.fd ∧ e.select = true ∧ ¬ e.read.Ends
  | .toComport => e.fd ≠ s.comport.fd ∧ e.fd = s.sock.fd ∧ ¬ e.read.Ends

/-- Bytes are read when the last ones are all written. -/
def Session.ReadsEmptied (s : Session) (e : Event) : Prop :=
  s.cvd.Up → ∀ way, e.Brings s.cvd.toLink way → ∀ way', s.held way' = []

theorem up_of_handleEvent {s : Cvd} {e : Event} (h : (handleEvent s e).1.Up) : s.Up := by
  by_cases hport : e.fd = s.comport.fd
  · rwa [Link.Up, handleEvent_port s hport] at h
  · by_cases hsock : e.fd = s.sock.fd
    · rw [Link.Up, handleEvent_sock s hport hsock] at h
      split at h
      · exact nomatch h.2
      · exact h
    · rwa [handleEvent_other s hport hsock] at h

theorem readBuf_pos (buf : List Byte) {read : Read} (h : ¬ read.Ends) : 0 < (readBuf buf read).2 :=
  not_le.mp (mt (readBuf_ends buf read).mp h)

theorem handleEvent_brings {s : Cvd} {e : Event} {way : Way} (hup : s.Up) (h : e.Brings s.toLink way) :
    handleEvent s e =
      ({ s with buf := (readBuf s.buf e.read).1 },
        some ⟨way, (readBuf s.buf e.read).2.toNat, written e.write (readBuf s.buf e.read).2.toNat⟩) := by
  obtain ⟨hconnted, hconnected⟩ := hup
  cases way with
  | toSock =>
      obtain ⟨hport, hselect, hread⟩ := h
      have hpos := readBuf_pos s.buf hread
      have hrecv : comportRecv s e.select e.read = readBuf s.buf e.read := by
        simp [comportRecv, hconnted, hselect, not_lt.mpr hpos.le]
      rw [handleEvent, if_pos hport, hrecv]
      exact if_pos ⟨hpos, hconnected⟩
  | toComport =>
      obtain ⟨hport, hsock, hread⟩ := h
      have hpos := readBuf_pos s.buf hread
      rw [handleEvent, if_neg hport, if_pos hsock]
      exact (if_neg (not_le.mpr hpos)).trans (if_pos hconnted)

theorem readBuf_of_ends {buf : List Byte} {read : Read} (h : read.Ends) : (readBuf buf read).1 = buf := by
  cases read with
  | failed => rfl
  | data bytes =>
      cases h
      rfl

theorem comportRecv_quiet {s : Cvd} {select : Bool} {read : Read} (h : ¬ (select = true ∧ ¬ read.Ends)) :
    (comportRecv s select read).2 ≤ 0 ∧ (comportRecv s select read).1 = s.buf := by
  by_cases hconnted : s.comport.is_connted = true
  · cases select with
    | false => simp [comportRecv, hconnted]
    | true =>
        have hends : read.Ends := Classical.not_not.mp fun hread => h ⟨rfl, hread⟩
        have hnone := (readBuf_ends s.buf read).mpr hends
        simp only [comportRecv, hconnted, readBuf_of_ends hends]
        split_ifs <;> simp_all
  · simp [comportRecv, hconnted]

theorem handleEvent_quiet {s : Cvd} {e : Event} (h : ∀ way, ¬ e.Brings s.toLink way) :
    handleEvent s e = (s, none) ∨ ¬ (handleEvent s e).1.Up := by
  by_cases hport : e.fd = s.comport.fd
  · obtain ⟨hnone, hbuf⟩ := comportRecv_quiet (s := s) fun hboth => h .toSock ⟨hport, hboth⟩
    left
    rw [handleEvent, if_pos hport]
    dsimp only
    rw [if_neg fun hpos => absurd hpos.1 (not_lt.mpr hnone), hbuf]
  · by_cases hsock : e.fd = s.sock.fd
    · have hends : e.read.Ends := Classical.not_not.mp fun hread => h .toComport ⟨hport, hsock, hread⟩
      right
      rw [Link.Up, handleEvent_sock s hport hsock, if_pos hends]
      exact fun hup => nomatch hup.2
    · exact .inl (handleEvent_other s hport hsock)

namespace Session

variable {s t : Session} {e : Event}

theorem step_eq (s : Session) (e : Event) :
    s.step e = .ok (s.record (handleEvent s.cvd e).1 (handleEvent s.cvd e).2) := rfl

@[simp] theorem record_cvd (s : Session) (cvd : Cvd) (moved : Option Moved) : (s.record cvd moved).cvd = cvd := by
  cases moved <;> rfl

theorem step_brings {way : Way} (hup : s.cvd.Up) (h : e.Brings s.cvd.toLink way) :
    ∃ t, s.step e = .ok t ∧ t.cvd.Up ∧ ∃ chunk, t.read = Function.update s.read way (s.read way ++ chunk) ∧
      (t.accepted way ++ t.held way = s.accepted way ++ chunk) ∧
      ∀ other, other ≠ way → t.accepted other ++ t.held other = s.accepted other := by
  have heq := handleEvent_brings hup h
  refine ⟨_, step_eq s e, ?_⟩
  rw [heq]
  refine ⟨hup, _, rfl, ?_, fun other hother => ?_⟩
  · simp [record, held]
  · simp [record, held, Function.update_of_ne hother, Ne.symm hother]

theorem step_quiet (h : ∀ way, ¬ e.Brings s.cvd.toLink way) (ht : s.step e = .ok t) : t = s ∨ ¬ t.cvd.Up := by
  rw [step_eq] at ht
  rcases handleEvent_quiet h with heq | hdown
  · rw [heq] at ht
    cases ht
    exact .inl rfl
  · cases ht
    refine .inr fun hup => hdown ?_
    rwa [record_cvd] at hup

theorem step_up (ht : s.step e = .ok t) (hup : t.cvd.Up) : s.cvd.Up := by
  rw [step_eq] at ht
  cases ht
  rw [record_cvd] at hup
  exact up_of_handleEvent hup

theorem Forwarded.step (h : s.Forwarded) (hok : s.ReadsEmptied e) (ht : s.step e = .ok t) : t.Forwarded := by
  intro hup way
  have hups := step_up ht hup
  by_cases hbrings : ∃ from', e.Brings s.cvd.toLink from'
  · obtain ⟨from', hfrom⟩ := hbrings
    have hempty := hok hups from' hfrom
    obtain ⟨t', ht', -, chunk, hread, hself, hother⟩ := step_brings hups hfrom
    cases ht.symm.trans ht'
    by_cases hway : way = from'
    · subst hway
      rw [hread, Function.update_self, hself, h hups, hempty, List.append_nil]
    · rw [hread, Function.update_of_ne hway, hother way hway, h hups, hempty, List.append_nil]
  · rcases step_quiet (not_exists.mp hbrings) ht with rfl | hdown
    · exact h hups way
    · exact absurd hup hdown

theorem Forwarded.lost (h : s.Forwarded) (hbad : ¬ s.ReadsEmptied e) : ∃ t, s.step e = .ok t ∧ ¬ t.Forwarded := by
  simp only [ReadsEmptied, Classical.not_imp, not_forall] at hbad
  obtain ⟨hup, from', hfrom, way, hheld⟩ := hbad
  obtain ⟨t, ht, hup', chunk, hread, hself, hother⟩ := step_brings hup hfrom
  refine ⟨t, ht, fun hforwarded => hheld ?_⟩
  have hall := hforwarded hup' way
  by_cases hway : way = from'
  · subst hway
    rw [hread, Function.update_self, hself, h hup, List.append_assoc, List.append_cancel_left_eq] at hall
    exact List.append_left_eq_self.mp hall
  · rw [hread, Function.update_of_ne hway, hother way hway, h hup] at hall
    exact List.append_right_eq_self.mp hall

/-- Nothing is lost between two connected sides exactly when no bytes are read before the
last ones are all written. -/
theorem forwarded_iff (cvd : Cvd) (events : List Event) :
    Always step Forwarded (start cvd) events ↔ Along step ReadsEmptied (start cvd) events :=
  always_iff_along (fun _ h => h) (fun _ _ _ h hok ht => Forwarded.step h hok ht) (fun _ _ h hbad => Forwarded.lost h hbad)
    fun _ _ => rfl

def bothConnected : Cvd :=
  let s := Converterd.start {0, 1, 2, 3} "/dev/ttyS1"
  { s with toLink := prepare s.toLink ⟨some 4, true, true, true, true, true⟩ ⟨some [.socket 5 .done], .done, true⟩ }

/-- Of three bytes from the port the socket takes the first, and then, from the next read,
the fourth. -/
theorem short_write_drops : ¬ ∀ (cvd : Cvd) (events : List Event), Always step Forwarded (start cvd) events := by
  intro h
  have hrun := h bothConnected
    [⟨4, true, .data [1, 2, 3], some 1, true⟩, ⟨4, true, .data [4], some 1, true⟩]
  have hlast := (hrun.2 _ rfl).2 _ rfl ⟨rfl, rfl⟩ .toSock
  exact absurd (congrArg List.length hlast) (by decide)

end Session

end Fl2440.Converterd
