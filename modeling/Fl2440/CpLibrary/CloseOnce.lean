import Fl2440.CpLibrary.Holder
import Fl2440.Lib.Run

/-! Whether one socket closes each descriptor that it gets exactly once, and no other,
over any calls on it up to its `cp_sock_term`. -/
namespace Fl2440.CpLibrary

open Fl2440.Lib

namespace Holder

variable {d d' : Holder} {fd : Int}

inductive Act where
  | close (closed : Bool)
  | listen (lport backlog : Int) (os : ListenOs)
  | accept (listens : Bool) (accept : Option Nat)
  | connect (raddr : Bool) (rport lport : Int) (os : ConnectOs)
  | term
  | openOther (hint : Nat)
  | closeOther (fd : Int)

/-- There is no socket to call anything on after `cp_sock_term`; the rest of the process
leaves alone what the socket owns. -/
def act (d : Holder) : Act → Holder
  | .openOther hint => { d with kern := d.kern.openFd hint }
  | .closeOther fd => if fd ∈ d.owned ∨ fd = 0 then d else { d with kern := d.kern.close fd }
  | .close closed => if d.terminated then d else d.close closed
  | .listen lport backlog os => if d.terminated then d else d.listen lport backlog os
  | .accept listens accept => if d.terminated then d else d.accept listens accept
  | .connect raddr rport lport os =>
      if d.terminated then d else d.connect raddr rport lport os
  | .term => if d.terminated then d else d.term

def step (d : Holder) (a : Act) : Except Fault Holder := .ok (d.act a)

/-- After `cp_sock_init`, in a process that has 0 open: what it is handed is positive. -/
def start (kern : Kernel) : Holder where
  kern := if 0 ∈ kern.opened then kern else kern.openFd 0
  fd := -1
  status := .init
  owned := ∅
  stray := false
  terminated := false

/-- Closed exactly once: nothing that the socket got is left, and no other was closed. -/
def Settled (d : Holder) : Prop := d.stray = false ∧ d.owned = ∅

/-- The member `fd` still has the number of a descriptor that was given back. -/
def Stale (d : Holder) : Prop := 0 < d.fd ∧ d.fd ∉ d.owned

def LastBindFails (addrs : List BindAddr) : Prop :=
  (∀ hint, .socket hint true ∉ addrs) ∧ ∃ hint, addrs.getLast? = some (.socket hint false)

def Skipped (lport : Int) : ConnectAddr → Prop
  | .refused => True
  | .socket _ bind _ => 0 < lport ∧ bind = false

def LastPortFails (lport : Int) (addrs : List ConnectAddr) : Prop :=
  (∀ addr ∈ addrs, Skipped lport addr) ∧
    ∃ hint bind connect, addrs.getLast? = some (.socket hint bind connect)

/-- Where a call closes what is its own. -/
def ClosesOwn (d : Holder) : Act → Prop
  | .close _ | .term => d.terminated = false → ¬ d.Stale
  | .listen lport backlog os => d.terminated = false → ¬ d.Stale ∧
      (0 < lport → 0 < backlog → (os.addrs = none → 0 < d.fd → os.closed = true) ∧
        ∀ addrs, os.addrs = some addrs → ¬ LastBindFails addrs)
  | .accept listens accept => d.terminated = false → listens = true → accept.isSome →
      d.fd ∉ d.owned
  | .connect raddr rport lport os => d.terminated = false →
      if raddr = true ∧ 0 < rport then
        match d.status with
        | .already => True
        | .connecting => os.again = .failed → ¬ d.Stale
        | _ => ¬ d.Stale ∧ ∀ addrs, os.addrs = some addrs → ¬ LastPortFails lport addrs
      else ¬ d.Stale
  | .openOther _ | .closeOther _ => True

structure Sound (d : Holder) : Prop where
  opened : ∀ fd ∈ d.owned, 0 < fd ∧ fd ∈ d.kern.opened
  zero : 0 ∈ d.kern.opened
  fd : d.fd ≠ 0

/-- Something was closed that is not the socket's, or nobody can close what it got. -/
def Lost (d : Holder) : Prop := d.stray = true ∨ ∃ fd ∈ d.owned, fd ≠ d.fd

theorem Sound.freshFd_pos (h : d.Sound) (hint : Nat) : 0 < d.kern.freshFd hint := by
  have hnonneg := d.kern.freshFd_nonneg hint
  have hne : d.kern.freshFd hint ≠ 0 := fun heq => d.kern.freshFd_not_mem hint (heq ▸ h.zero)
  omega

theorem Sound.not_owned (h : d.Sound) (hfd : fd ∉ d.kern.opened) : fd ∉ d.owned :=
  fun hmem => hfd (h.opened fd hmem).2

theorem Sound.minus_one (h : d.Sound) : (-1 : Int) ∉ d.owned :=
  h.not_owned (d.kern.not_mem_of_neg (by decide))

theorem Sound.withStatus (h : d.Sound) (status : SockStat) : { d with status }.Sound :=
  ⟨h.opened, h.zero, h.fd⟩

theorem Sound.openFd (h : d.Sound) (hint : Nat) :
    { d.openFd hint with fd := d.kern.freshFd hint }.Sound := by
  refine ⟨fun fd hfd => ?_, Finset.mem_insert_of_mem h.zero, (h.freshFd_pos hint).ne'⟩
  rcases Finset.mem_insert.mp hfd with rfl | hfd
  · exact ⟨h.freshFd_pos hint, Finset.mem_insert_self _ _⟩
  · exact ⟨(h.opened fd hfd).1, Finset.mem_insert_of_mem (h.opened fd hfd).2⟩

theorem Sound.closeFd (h : d.Sound) (hfd : fd ≠ 0) : (d.closeFd fd).Sound where
  opened fd' hfd' := by
    obtain ⟨hne, hmem⟩ := Finset.mem_erase.mp hfd'
    exact ⟨(h.opened fd' hmem).1, Finset.mem_erase.mpr ⟨hne, (h.opened fd' hmem).2⟩⟩
  zero := Finset.mem_erase.mpr ⟨hfd.symm, h.zero⟩
  fd := h.fd

theorem Sound.noFd (h : d.Sound) : { d with fd := -1 }.Sound := ⟨h.opened, h.zero, show (-1 : Int) ≠ 0 by decide⟩

theorem Sound.openFd_closeFd (h : d.Sound) (hint : Nat) :
    (d.openFd hint).closeFd (d.kern.freshFd hint) = d := by
  have hnot := h.not_owned (d.kern.freshFd_not_mem hint)
  have hkern := d.kern.close_openFd hint
  have howned := Finset.erase_insert hnot
  simp only [Holder.closeFd, Holder.openFd, hkern, howned, Finset.mem_insert_self, not_true_eq_false,
    decide_false, Bool.and_false, Bool.or_false]

theorem lost_closeFd_fd (hpos : 0 < d.fd) : (d.closeFd d.fd).Lost ↔ d.Lost ∨ d.Stale := by
  have hne : d.fd ≠ -1 := by omega
  have hstray : (d.closeFd d.fd).stray = true ↔ d.stray = true ∨ d.fd ∉ d.owned := by
    simp [Holder.closeFd, hne]
  have howned : (∃ fd ∈ (d.closeFd d.fd).owned, fd ≠ (d.closeFd d.fd).fd) ↔
      ∃ fd ∈ d.owned, fd ≠ d.fd :=
    exists_congr fun fd => by
      simp only [Holder.closeFd, Finset.mem_erase, ne_eq]
      tauto
  rw [Lost, hstray, howned, Lost, Stale, and_iff_right hpos]
  exact or_right_comm

theorem Sound.lost_noFd (h : d.Sound) (hfd : d.fd ∉ d.owned) : { d with fd := -1 }.Lost ↔ d.Lost :=
  or_congr_right <| exists_congr fun fd => and_congr_right fun hmem =>
    iff_of_true (fun heq : fd = -1 => h.minus_one (heq ▸ hmem)) fun heq => hfd (heq ▸ hmem)

theorem not_mem_closeFd (d : Holder) (fd : Int) : fd ∉ (d.closeFd fd).owned :=
  Finset.notMem_erase fd d.owned

theorem Sound.fd_of_not_pos (h : d.Sound) (hpos : ¬ 0 < d.fd) : d.fd ∉ d.owned :=
  fun hmem => hpos (h.opened d.fd hmem).1

theorem Sound.close_not_owned (h : d.Sound) (closed : Bool) : (d.close closed).fd ∉ (d.close closed).owned := by
  unfold Holder.close
  split
  · have hnot := d.not_mem_closeFd d.fd
    split
    · exact fun hmem => (h.closeFd h.fd).minus_one hmem
    · exact hnot
  · exact h.minus_one

theorem Sound.close (h : d.Sound) (closed : Bool) : (d.close closed).Sound := by
  unfold Holder.close
  split
  · split
    · exact (h.closeFd h.fd).noFd
    · exact h.closeFd h.fd
  · exact h.noFd

theorem Sound.lost_close (h : d.Sound) (closed : Bool) : (d.close closed).Lost ↔ d.Lost ∨ d.Stale := by
  unfold Holder.close
  split
  next hpos =>
    split
    · rw [(h.closeFd h.fd).lost_noFd (d.not_mem_closeFd d.fd), lost_closeFd_fd hpos]
    · exact lost_closeFd_fd hpos
  next hpos =>
    rw [h.lost_noFd (h.fd_of_not_pos hpos)]
    exact (or_iff_left fun hstale => hpos hstale.1).symm

theorem Sound.stale_close_iff (h : d.Sound) (hstale : ¬ d.Stale) (closed : Bool) :
    (d.close closed).Stale ↔ 0 < d.fd ∧ closed = false := by
  unfold Holder.close
  split
  next hpos =>
    have hopen : d.fd ∈ d.kern.opened :=
      (h.opened d.fd (Classical.byContradiction fun hnot => hstale ⟨hpos, hnot⟩)).2
    cases closed with
    | true =>
        rw [if_pos (by simpa using hopen)]
        exact iff_of_false (fun hbad => absurd hbad.1 (show ¬ (0 : Int) < -1 by decide))
          (fun hbad => Bool.noConfusion hbad.2)
    | false =>
        rw [if_neg (fun hboth => Bool.noConfusion hboth)]
        exact iff_of_true ⟨hpos, d.not_mem_closeFd d.fd⟩ ⟨hpos, rfl⟩
  next hpos =>
    exact iff_of_false (fun hbad => absurd hbad.1 (show ¬ (0 : Int) < -1 by decide)) fun hbad => hpos hbad.1

theorem Sound.listenCleanup (h : d.Sound) (rv : Int) : (d.listenCleanup rv).Sound := by
  unfold Holder.listenCleanup
  split
  · split
    · exact h.closeFd h.fd
    · exact h
  · exact h.withStatus .already

theorem lost_listenCleanup (d : Holder) (rv : Int) :
    (d.listenCleanup rv).Lost ↔ d.Lost ∨ rv ≠ 0 ∧ d.Stale := by
  unfold Holder.listenCleanup
  split
  next hrv =>
    rw [and_iff_right hrv]
    split
    next hpos => exact lost_closeFd_fd hpos
    next hpos => exact (or_iff_left fun hstale => hpos hstale.1).symm
  next hrv => exact (or_iff_left fun hstale => hrv hstale.1).symm

theorem Sound.connectFailed (h : d.Sound) : d.connectFailed.Sound := by
  unfold Holder.connectFailed
  split
  · exact h.closeFd h.fd
  · exact h

theorem Sound.lost_connectFailed (h : d.Sound) : d.connectFailed.Lost ↔ d.Lost ∨ d.Stale := by
  unfold Holder.connectFailed
  split
  next hnonneg => exact lost_closeFd_fd (lt_of_le_of_ne hnonneg h.fd.symm)
  next hneg => exact (or_iff_left fun hstale => hneg hstale.1.le).symm

theorem closeFd_local (h : d.Sound) (hfd : fd ∉ d.kern.opened) :
    (d.closeFd fd).Lost ↔ d.Lost ∨ fd ≠ -1 := by
  have hnot := h.not_owned hfd
  have howned : (d.closeFd fd).owned = d.owned := Finset.erase_eq_of_notMem hnot
  have hstray : (d.closeFd fd).stray = true ↔ d.stray = true ∨ fd ≠ -1 := by
    simp [Holder.closeFd, hnot]
  rw [Lost, hstray, howned, Lost]
  exact or_right_comm

theorem Sound.lost_openFd (h : d.Sound) (hint : Nat) :
    { d.openFd hint with fd := d.kern.freshFd hint }.Lost ↔ d.stray = true ∨ d.owned.Nonempty := by
  refine or_congr_right ⟨?_, ?_⟩
  · rintro ⟨fd, hfd, hne⟩
    exact ⟨fd, (Finset.mem_insert.mp hfd).resolve_left hne⟩
  · rintro ⟨fd, hfd⟩
    exact ⟨fd, Finset.mem_insert_of_mem hfd, fun heq : fd = d.kern.freshFd hint =>
      h.not_owned (d.kern.freshFd_not_mem hint) (heq ▸ hfd)⟩

theorem lost_iff_of_not_owned (hfd : d.fd ∉ d.owned) :
    d.Lost ↔ d.stray = true ∨ d.owned.Nonempty :=
  or_congr_right <| exists_congr fun _ => and_iff_left_of_imp fun hmem heq => hfd (heq ▸ hmem)

def bindFd (kern : Kernel) : BindAddr → Int
  | .refused => -1
  | .socket hint _ => kern.freshFd hint

theorem Sound.bindAddrs_exhausted (h : d.Sound) :
    ∀ {addrs : List BindAddr} (rv fd : Int), (∀ hint, .socket hint true ∉ addrs) →
      ∃ rv', d.bindAddrs rv fd addrs = (rv', (addrs.getLast?.map (bindFd d.kern)).getD fd, false, d)
  | [], rv, fd, _ => ⟨rv, rfl⟩
  | addr :: rest, rv, fd, hall => by
      have hrest := fun hint hmem => hall hint (List.mem_cons_of_mem _ hmem)
      have hlast : ((addr :: rest).getLast?.map (bindFd d.kern)).getD fd =
          (rest.getLast?.map (bindFd d.kern)).getD (bindFd d.kern addr) := by
        cases rest with
        | nil => rfl
        | cons next rest => rw [List.getLast?_cons_cons, List.getLast?_cons, Option.map_some]; rfl
      rw [hlast]
      cases addr with
      | refused => exact h.bindAddrs_exhausted (-3) (-1) hrest
      | socket hint bind =>
          cases bind with
          | true => exact absurd List.mem_cons_self (hall hint)
          | false =>
              rw [bindAddrs, h.openFd_closeFd]
              exact h.bindAddrs_exhausted (-4) (d.kern.freshFd hint) hrest

theorem Sound.bindAddrs_bound (h : d.Sound) {hint : Nat} :
    ∀ {addrs : List BindAddr} (rv fd : Int), .socket hint true ∈ addrs →
      ∃ hint, d.bindAddrs rv fd addrs = (0, d.kern.freshFd hint, true, d.openFd hint)
  | addr :: rest, rv, fd, hmem => by
      cases addr with
      | refused =>
          have hrest := (List.mem_cons.mp hmem).resolve_left fun heq => nomatch heq
          exact h.bindAddrs_bound (-3) (-1) hrest
      | socket hint' bind =>
          cases bind with
          | true => exact ⟨hint', rfl⟩
          | false =>
              have hrest := (List.mem_cons.mp hmem).resolve_left fun heq => nomatch heq
              rw [bindAddrs, h.openFd_closeFd]
              exact h.bindAddrs_bound (-4) (d.kern.freshFd hint') hrest

theorem close_terminated (d : Holder) (closed : Bool) : (d.close closed).terminated = d.terminated := by
  unfold Holder.close
  split
  · split <;> rfl
  · rfl

theorem listenCleanup_terminated (d : Holder) (rv : Int) :
    (d.listenCleanup rv).terminated = d.terminated := by
  unfold Holder.listenCleanup
  split
  · split <;> rfl
  · rfl

theorem connectFailed_terminated (d : Holder) : d.connectFailed.terminated = d.terminated := by
  unfold Holder.connectFailed
  split <;> rfl

/-- What a call makes of a sound socket: it loses something unless it closes what it owns. -/
structure Follows (d d' : Holder) (own : Prop) : Prop where
  sound : d'.Sound
  there : d'.terminated = d.terminated
  lost : d'.Lost ↔ d.Lost ∨ ¬ own

theorem Sound.follows_close (h : d.Sound) (closed : Bool) : Follows d (d.close closed) (¬ d.Stale) :=
  ⟨h.close closed, d.close_terminated closed, (h.lost_close closed).trans (or_congr_right Classical.not_not.symm)⟩

theorem Follows.status {own : Prop} (h : Follows d d' own) (status : SockStat) :
    Follows d { d' with status } own := ⟨h.sound.withStatus status, h.there, h.lost⟩

theorem Sound.bindFd_ne_iff (h : d.Sound) {addrs : List BindAddr} (hall : ∀ hint, .socket hint true ∉ addrs) :
    (addrs.getLast?.map (bindFd d.kern)).getD (-1) ≠ -1 ↔ LastBindFails addrs := by
  cases hlast : addrs.getLast? with
  | none => exact iff_of_false (fun hne => hne rfl) fun ⟨_, _, hsome⟩ => nomatch hlast.symm.trans hsome
  | some addr =>
      cases addr with
      | refused =>
          exact iff_of_false (fun hne => hne rfl) fun ⟨_, _, hsome⟩ => nomatch hlast.symm.trans hsome
      | socket hint bind =>
          have hmem := List.mem_of_getLast? hlast
          cases bind with
          | true => exact absurd hmem (hall hint)
          | false =>
              have hpos := h.freshFd_pos hint
              refine iff_of_true (show d.kern.freshFd hint ≠ -1 by omega) ⟨hall, hint, hlast⟩

theorem bindFd_not_mem (kern : Kernel) (addrs : List BindAddr) :
    (addrs.getLast?.map (bindFd kern)).getD (-1) ∉ kern.opened := by
  cases addrs.getLast? with
  | none => exact kern.not_mem_of_neg (show (-1 : Int) < 0 by decide)
  | some addr =>
      cases addr with
      | refused => exact kern.not_mem_of_neg (show (-1 : Int) < 0 by decide)
      | socket hint bind => exact kern.freshFd_not_mem hint

theorem Sound.follows_exhausted (h : d.Sound) (hfd : d.fd ∉ d.owned) (hlocal : fd ∉ d.kern.opened)
    (hne : fd ≠ 0) : Follows d { d.closeFd fd with fd := -1 } (fd = -1) := by
  have hsound := h.closeFd hne
  have hnot : (d.closeFd fd).fd ∉ (d.closeFd fd).owned := fun hmem => hfd (Finset.mem_of_mem_erase hmem)
  exact ⟨hsound.noFd, rfl, (hsound.lost_noFd hnot).trans (closeFd_local h hlocal)⟩

theorem Sound.follows_openFd (h : d.Sound) (hfd : d.fd ∉ d.owned) (hint : Nat) :
    Follows d { d.openFd hint with fd := d.kern.freshFd hint } True := by
  refine ⟨h.openFd hint, rfl, (h.lost_openFd hint).trans ?_⟩
  rw [lost_iff_of_not_owned hfd]
  exact (or_iff_left fun hnot => hnot trivial).symm

theorem not_stale_openFd (d : Holder) (hint : Nat) :
    ¬ { d.openFd hint with fd := d.kern.freshFd hint }.Stale :=
  fun hstale => hstale.2 (Finset.mem_insert_self _ _)

theorem Follows.listenCleanup {own : Prop} (h : Follows d d' own) (hstale : ¬ d'.Stale) (rv : Int) :
    Follows d (d'.listenCleanup rv) own :=
  ⟨h.sound.listenCleanup rv, (d'.listenCleanup_terminated rv).trans h.there, (lost_listenCleanup d' rv).trans <|
    (or_iff_left fun hbad => hstale hbad.2).trans h.lost⟩

theorem Sound.follows_listenAddrs (h : d.Sound) (hfd : d.fd ∉ d.owned) (addrs : List BindAddr)
    (listening : Bool) :
    Follows d (match d.bindAddrs 0 (-1) addrs with
      | (rv, fd, bound, d) =>
          if !bound then { d.closeFd fd with fd := -1 }.listenCleanup rv
          else if !listening then { d with fd }.listenCleanup (-6)
          else { d with fd }.listenCleanup rv) (¬ LastBindFails addrs) := by
  by_cases hbound : ∃ hint, .socket hint true ∈ addrs
  · obtain ⟨hint, hmem⟩ := hbound
    obtain ⟨hint', heq⟩ := h.bindAddrs_bound 0 (-1) hmem
    have hown : (¬ LastBindFails addrs) = True := eq_true fun hfails => hfails.1 hint hmem
    have hopened := h.follows_openFd hfd hint'
    rw [heq, hown]
    cases listening
    · exact hopened.listenCleanup (not_stale_openFd d hint') (-6)
    · exact hopened.listenCleanup (not_stale_openFd d hint') 0
  · have hall : ∀ hint, .socket hint true ∉ addrs := fun hint hmem => hbound ⟨hint, hmem⟩
    obtain ⟨rv, heq⟩ := h.bindAddrs_exhausted 0 (-1) hall
    have hlocal := bindFd_not_mem d.kern addrs
    have hown : (¬ LastBindFails addrs) = ((addrs.getLast?.map (bindFd d.kern)).getD (-1) = -1) :=
      propext ((not_congr (h.bindFd_ne_iff hall)).symm.trans Classical.not_not)
    have hclosed := h.follows_exhausted hfd hlocal fun heq => hlocal (heq ▸ h.zero)
    rw [heq, hown]
    exact hclosed.listenCleanup (fun hstale => absurd hstale.1 (show ¬ (0 : Int) < -1 by decide)) rv

theorem Follows.trans {d'' : Holder} {own own' : Prop} (h : Follows d d' own) (h' : Follows d' d'' own') :
    Follows d d'' (own ∧ own') := by
  refine ⟨h'.sound, h'.there.trans h.there, ?_⟩
  rw [h'.lost, h.lost, Classical.not_and_iff_not_or_not, or_assoc]

theorem Follows.congr {own own' : Prop} (h : Follows d d' own) (heq : own ↔ own') : Follows d d' own' :=
  propext heq ▸ h

theorem Sound.follows_listen (h : d.Sound) (lport backlog : Int) (os : ListenOs) :
    Follows d (d.listen lport backlog os) (¬ d.Stale ∧
      (0 < lport → 0 < backlog → (os.addrs = none → 0 < d.fd → os.closed = true) ∧
        ∀ addrs, os.addrs = some addrs → ¬ LastBindFails addrs)) := by
  rw [Holder.listen]
  split
  next hargs =>
    have hclosed : Follows d (d.listenCleanup (-1)) (¬ d.Stale) :=
      ⟨h.listenCleanup (-1), d.listenCleanup_terminated (-1), (lost_listenCleanup d (-1)).trans
        (or_congr_right ((and_iff_right (by decide)).trans Classical.not_not.symm))⟩
    refine hclosed.congr (and_iff_left fun hlport hbacklog => ?_).symm
    simp only [Bool.or_eq_true, decide_eq_true_eq] at hargs
    omega
  next hargs =>
    have hvalid : 0 < lport ∧ 0 < backlog := by
      simp only [Bool.or_eq_true, decide_eq_true_eq] at hargs
      omega
    have hclose := h.follows_close os.closed
    cases haddrs : os.addrs with
    | none =>
        refine ⟨hclose.sound.listenCleanup (-2), (listenCleanup_terminated _ _).trans hclose.there, ?_⟩
        rw [lost_listenCleanup, hclose.lost]
        by_cases hstale : d.Stale
        · exact iff_of_true (.inl (.inr (not_not.mpr hstale))) (.inr fun hown => hown.1 hstale)
        · rw [h.stale_close_iff hstale os.closed]
          simp [hstale, hvalid]
    | some addrs =>
        refine (hclose.trans (hclose.sound.follows_listenAddrs (h.close_not_owned os.closed) addrs os.listen)).congr ?_
        simp [hvalid]

theorem Sound.follows_accept (h : d.Sound) (listens : Bool) (accept : Option Nat) :
    Follows d (d.accept listens accept) (listens = true → accept.isSome → d.fd ∉ d.owned) := by
  have hnothing : Follows d (d.closeFd (-1)) True :=
    ⟨h.closeFd (by decide), rfl, (closeFd_local h (d.kern.not_mem_of_neg (by decide))).trans <|
      or_congr_right (iff_of_false (fun hne => hne rfl) fun hnot => hnot trivial)⟩
  unfold Holder.accept
  cases listens with
  | false => exact hnothing.congr (iff_of_true trivial fun hlistens => Bool.noConfusion hlistens)
  | true =>
      cases accept with
      | none => exact hnothing.congr (iff_of_true trivial fun _ hsome => Bool.noConfusion hsome)
      | some hint =>
          refine ⟨(h.openFd hint).withStatus .already, rfl, (h.lost_openFd hint).trans ?_⟩
          have hown : (true = true → (some hint).isSome = true → d.fd ∉ d.owned) ↔ d.fd ∉ d.owned :=
            ⟨fun himp => himp rfl rfl, fun hnot _ _ => hnot⟩
          rw [hown, Classical.not_not]
          by_cases hmem : d.fd ∈ d.owned
          · exact iff_of_true (.inr ⟨d.fd, hmem⟩) (.inr hmem)
          · rw [lost_iff_of_not_owned hmem, or_iff_left hmem]

theorem Follows.connectFailed {own : Prop} (h : Follows d d' own) (hstale : ¬ d'.Stale) :
    Follows d d'.connectFailed own :=
  ⟨h.sound.connectFailed, d'.connectFailed_terminated.trans h.there, h.sound.lost_connectFailed.trans <| (or_iff_left hstale).trans h.lost⟩

theorem Follows.connectConnected {own : Prop} (h : Follows d d' own) (hstale : ¬ d'.Stale) :
    Follows d d'.connectConnected own := by
  unfold Holder.connectConnected
  split
  · exact h
  · exact h.connectFailed hstale

theorem Follows.connectConnecting {own : Prop} (h : Follows d d' own) (hstale : ¬ d'.Stale)
    (again : Connect) : Follows d (d'.connectConnecting again) own := by
  unfold Holder.connectConnecting
  split
  · cases again with
    | done => exact (h.status .already).connectConnected hstale
    | inProgress => exact h
    | failed => exact (h.status .disconnect).connectConnected hstale
  · exact h.connectConnected hstale

def connectFd (kern : Kernel) : ConnectAddr → Int
  | .refused => -1
  | .socket hint _ _ => kern.freshFd hint

theorem Sound.connectAddrs_exhausted (h : d.Sound) {lport : Int} :
    ∀ {addrs : List ConnectAddr} (fd : Int), (∀ addr ∈ addrs, Skipped lport addr) →
      connectAddrs lport d fd addrs = .exhausted ((addrs.getLast?.map (connectFd d.kern)).getD fd) d
  | [], fd, _ => rfl
  | addr :: rest, fd, hall => by
      have hrest := fun addr hmem => hall addr (List.mem_cons_of_mem _ hmem)
      have hlast : ((addr :: rest).getLast?.map (connectFd d.kern)).getD fd =
          (rest.getLast?.map (connectFd d.kern)).getD (connectFd d.kern addr) := by
        cases rest with
        | nil => rfl
        | cons next rest => rw [List.getLast?_cons_cons, List.getLast?_cons, Option.map_some]; rfl
      rw [hlast]
      cases addr with
      | refused => exact h.connectAddrs_exhausted (-1) hrest
      | socket hint bind connect =>
          obtain ⟨hlport, rfl⟩ := hall _ List.mem_cons_self
          simp only [connectAddrs, hlport, decide_true, Bool.not_false, Bool.and_self, if_true, h.openFd_closeFd]
          exact h.connectAddrs_exhausted (d.kern.freshFd hint) hrest

theorem Sound.connectAddrs_tried (h : d.Sound) {lport : Int} :
    ∀ {addrs : List ConnectAddr} (fd : Int), (¬ ∀ addr ∈ addrs, Skipped lport addr) →
      connectAddrs lport d fd addrs = .failed d ∨ ∃ hint,
        connectAddrs lport d fd addrs = .connected (d.kern.freshFd hint) (d.openFd hint) ∨
          connectAddrs lport d fd addrs = .connecting (d.kern.freshFd hint) (d.openFd hint)
  | [], fd, htried => absurd (fun _ hmem => nomatch hmem) htried
  | .refused :: rest, fd, htried =>
      h.connectAddrs_tried (-1) fun hrest => htried fun addr hmem => by
        rcases List.mem_cons.mp hmem with rfl | hmem
        · trivial
        · exact hrest addr hmem
  | .socket hint bind connect :: rest, fd, htried => by
      simp only [connectAddrs]
      split
      next hskip =>
        have hpassed : Skipped lport (.socket hint bind connect) := by simpa [Skipped] using hskip
        rw [h.openFd_closeFd]
        refine h.connectAddrs_tried (d.kern.freshFd hint) fun hrest => htried fun addr hmem => ?_
        rcases List.mem_cons.mp hmem with rfl | hmem
        · exact hpassed
        · exact hrest addr hmem
      next =>
        cases connect with
        | done => exact .inr ⟨hint, .inl rfl⟩
        | inProgress => exact .inr ⟨hint, .inr rfl⟩
        | failed => exact .inl (congrArg DialLoop.failed (h.openFd_closeFd hint))

theorem connectFd_not_mem (kern : Kernel) (addrs : List ConnectAddr) :
    (addrs.getLast?.map (connectFd kern)).getD (-1) ∉ kern.opened := by
  cases addrs.getLast? with
  | none => exact kern.not_mem_of_neg (show (-1 : Int) < 0 by decide)
  | some addr =>
      cases addr with
      | refused => exact kern.not_mem_of_neg (show (-1 : Int) < 0 by decide)
      | socket hint bind connect => exact kern.freshFd_not_mem hint

theorem Sound.connectFd_eq_iff (h : d.Sound) {lport : Int} {addrs : List ConnectAddr}
    (hall : ∀ addr ∈ addrs, Skipped lport addr) :
    (addrs.getLast?.map (connectFd d.kern)).getD (-1) = -1 ↔ ¬ LastPortFails lport addrs := by
  cases hlast : addrs.getLast? with
  | none => exact iff_of_true rfl fun ⟨_, _, _, _, hsome⟩ => nomatch hlast.symm.trans hsome
  | some addr =>
      cases addr with
      | refused => exact iff_of_true rfl fun ⟨_, _, _, _, hsome⟩ => nomatch hlast.symm.trans hsome
      | socket hint bind connect =>
          have hpos := h.freshFd_pos hint
          exact iff_of_false (show d.kern.freshFd hint ≠ -1 by omega)
            fun hnot => hnot ⟨hall, hint, bind, connect, hlast⟩

theorem Sound.follows_dial (h : d.Sound) (hfd : d.fd = -1) (lport : Int) (addrs : List ConnectAddr)
    (again : Connect) :
    Follows d (match connectAddrs lport d (-1) addrs with
      | .exhausted fd d => (d.closeFd fd).connectFailed
      | .failed d => d.connectFailed
      | .connected fd d => { d with
          fd
          status := .connecting }.connectConnected
      | .connecting fd d => { d with
          fd
          status := .connecting }.connectConnecting again) (¬ LastPortFails lport addrs) := by
  have hnot : d.fd ∉ d.owned := hfd ▸ h.minus_one
  have hstale : ¬ d.Stale := fun hbad => by
    have hpos := hbad.1
    omega
  by_cases hall : ∀ addr ∈ addrs, Skipped lport addr
  · have hlocal := connectFd_not_mem d.kern addrs
    have hne : (addrs.getLast?.map (connectFd d.kern)).getD (-1) ≠ 0 := fun heq => hlocal (heq ▸ h.zero)
    have hclosed : Follows d (d.closeFd ((addrs.getLast?.map (connectFd d.kern)).getD (-1)))
        (¬ LastPortFails lport addrs) :=
      Follows.congr ⟨h.closeFd hne, rfl, closeFd_local h hlocal⟩ (h.connectFd_eq_iff hall)
    rw [h.connectAddrs_exhausted (-1) hall]
    exact hclosed.connectFailed fun hbad => hstale ⟨hbad.1, fun hmem => h.minus_one (hfd ▸ hmem)⟩
  · have hown : True ↔ ¬ LastPortFails lport addrs := iff_of_true trivial fun hfails => hall hfails.1
    have hsame : Follows d d True := ⟨h, rfl, (or_iff_left fun hbad => hbad trivial).symm⟩
    rcases h.connectAddrs_tried (-1) hall with heq | ⟨hint, heq | heq⟩
    · rw [heq]
      exact (hsame.connectFailed hstale).congr hown
    · have hopened := (h.follows_openFd hnot hint).status .connecting
      rw [heq]
      exact (hopened.connectConnected (not_stale_openFd d hint)).congr hown
    · have hopened := (h.follows_openFd hnot hint).status .connecting
      rw [heq]
      exact (hopened.connectConnecting (not_stale_openFd d hint) again).congr hown

theorem Sound.follows_connectFailed (h : d.Sound) : Follows d d.connectFailed (¬ d.Stale) :=
  ⟨h.connectFailed, d.connectFailed_terminated, h.lost_connectFailed.trans (or_congr_right not_not.symm)⟩

theorem Sound.follows_again (h : d.Sound) (hstatus : d.status = .connecting) (again : Connect) :
    Follows d (d.connectConnecting again) (again = .failed → ¬ d.Stale) := by
  have hsame : Follows d d True := ⟨h, rfl, (or_iff_left fun hbad => hbad trivial).symm⟩
  unfold Holder.connectConnecting
  rw [if_pos hstatus]
  cases again with
  | done =>
      have hdone : Follows d { d with status := .already } True := hsame.status .already
      exact hdone.congr (iff_of_true trivial fun heq => nomatch heq)
  | inProgress => exact hsame.congr (iff_of_true trivial fun heq => nomatch heq)
  | failed =>
      have hfailed : Follows d ({ d with status := .disconnect }.connectFailed) (¬ d.Stale) :=
        ⟨(h.withStatus .disconnect).connectFailed, connectFailed_terminated _, (h.withStatus .disconnect).lost_connectFailed.trans
          (or_congr_right not_not.symm)⟩
      exact hfailed.congr ⟨fun hown _ => hown, fun hown => hown rfl⟩

theorem Sound.follows_addrs (h : d.Sound) (lport : Int) (os : ConnectOs) :
    Follows d (match os.addrs with
      | none => d.connectFailed
      | some addrs =>
          match connectAddrs lport { d.close os.closed with fd := -1 } (-1) addrs with
          | .exhausted fd d => (d.closeFd fd).connectFailed
          | .failed d => d.connectFailed
          | .connected fd d => { d with
              fd
              status := .connecting }.connectConnected
          | .connecting fd d => { d with
              fd
              status := .connecting }.connectConnecting os.again)
      (¬ d.Stale ∧ ∀ addrs, os.addrs = some addrs → ¬ LastPortFails lport addrs) := by
  cases haddrs : os.addrs with
  | none =>
      refine h.follows_connectFailed.congr (and_iff_left ?_).symm
      intro _ heq
      cases heq
  | some addrs =>
      have hclose := h.follows_close os.closed
      have hnone : Follows d { d.close os.closed with fd := -1 } (¬ d.Stale) :=
        ⟨hclose.sound.noFd, hclose.there, (hclose.sound.lost_noFd (h.close_not_owned os.closed)).trans hclose.lost⟩
      refine (hnone.trans (hnone.sound.follows_dial rfl lport addrs os.again)).congr ?_
      simp

theorem Sound.follows_connect (h : d.Sound) (raddr : Bool) (rport lport : Int) (os : ConnectOs) :
    Follows d (d.connect raddr rport lport os) (if raddr = true ∧ 0 < rport then
        match d.status with
        | .already => True
        | .connecting => os.again = .failed → ¬ d.Stale
        | _ => ¬ d.Stale ∧ ∀ addrs, os.addrs = some addrs → ¬ LastPortFails lport addrs
      else ¬ d.Stale) := by
  have hsame : Follows d d True := ⟨h, rfl, (or_iff_left fun hbad => hbad trivial).symm⟩
  unfold Holder.connect
  by_cases hargs : raddr = true ∧ 0 < rport
  · rw [if_neg (by simpa using hargs), if_pos hargs]
    cases hstatus : d.status with
    | already => exact hsame
    | connecting => exact h.follows_again hstatus os.again
    | init => exact h.follows_addrs lport os
    | disconnect => exact h.follows_addrs lport os
  · have hbad : (!raddr || decide (rport ≤ 0)) = true := by
      rw [Bool.or_eq_true, decide_eq_true_eq, Bool.not_eq_true', ← Bool.not_eq_true]
      exact (Decidable.not_and_iff_not_or_not.mp hargs).imp_right fun hrport => by omega
    rw [if_pos hbad, if_neg hargs]
    exact h.follows_connectFailed

theorem Sound.follows_call (h : d.Sound) {own : Prop} (hfollows : d.terminated = false → Follows d d' own) :
    Follows d (if d.terminated then d else d') (d.terminated = false → own) := by
  split
  next hgone =>
    exact ⟨h, rfl, (or_iff_left fun hbad => hbad fun hthere => Bool.noConfusion (hgone.symm.trans hthere)).symm⟩
  next hthere =>
    have hthere : d.terminated = false := Bool.eq_false_iff.mpr hthere
    exact (hfollows hthere).congr ⟨fun hown _ => hown, fun hown => hown hthere⟩

def Tidy (d : Holder) : Prop := d.Sound ∧ (d.terminated = true → d.fd ∉ d.owned)

theorem Follows.tidy {own : Prop} (h : Follows d d' (d.terminated = false → own))
    (hgone : d.terminated = true → d' = d) (htidy : d.Tidy) : d'.Tidy :=
  ⟨h.sound, fun hterminated => by
    have hsame := hgone (h.there.symm.trans hterminated)
    exact hsame ▸ htidy.2 (hsame ▸ hterminated)⟩

theorem Tidy.act (h : d.Tidy) (a : Act) :
    (d.act a).Tidy ∧ ((d.act a).Lost ↔ d.Lost ∨ ¬ ClosesOwn d a) := by
  have hcall : ∀ {d' : Holder} {own : Prop}, (d.terminated = false → Follows d d' own) →
      (if d.terminated then d else d').Tidy ∧
        ((if d.terminated then d else d').Lost ↔ d.Lost ∨ ¬ (d.terminated = false → own)) := fun hfollows => by
    have hstep := h.1.follows_call hfollows
    exact ⟨hstep.tidy (fun hgone => if_pos hgone) h, hstep.lost⟩
  cases a with
  | close closed => exact hcall fun _ => h.1.follows_close closed
  | listen lport backlog os => exact hcall fun _ => h.1.follows_listen lport backlog os
  | accept listens accept => exact hcall fun _ => h.1.follows_accept listens accept
  | connect raddr rport lport os => exact hcall fun _ => h.1.follows_connect raddr rport lport os
  | term =>
      show (if d.terminated then d else d.term).Tidy ∧
        ((if d.terminated then d else d.term).Lost ↔ d.Lost ∨ ¬ (d.terminated = false → ¬ d.Stale))
      split
      next hgone =>
        exact ⟨h, (or_iff_left fun hbad => hbad fun hthere => Bool.noConfusion (hgone.symm.trans hthere)).symm⟩
      next hthere =>
        have hclose := h.1.follows_close true
        have hthere : d.terminated = false := Bool.eq_false_iff.mpr hthere
        rw [forall_prop_of_true hthere]
        exact ⟨⟨⟨hclose.sound.opened, hclose.sound.zero, hclose.sound.fd⟩, fun _ => h.1.close_not_owned true⟩,
          hclose.lost⟩
  | openOther hint =>
      refine ⟨⟨⟨fun fd hfd => ?_, Finset.mem_insert_of_mem h.1.zero, h.1.fd⟩, h.2⟩,
        (or_iff_left fun hbad => hbad trivial).symm⟩
      exact ⟨(h.1.opened fd hfd).1, Finset.mem_insert_of_mem (h.1.opened fd hfd).2⟩
  | closeOther fd =>
      have hlost : d.Lost ↔ d.Lost ∨ ¬ ClosesOwn d (.closeOther fd) :=
        (or_iff_left fun hbad => hbad trivial).symm
      rw [Holder.act]
      split
      · exact ⟨h, hlost⟩
      next hother =>
        have hzero : (0 : Int) ≠ fd := fun heq => hother (.inr heq.symm)
        refine ⟨⟨⟨fun fd' hfd' => ⟨(h.1.opened fd' hfd').1, ?_⟩, ?_, h.1.fd⟩, h.2⟩, hlost⟩
        · have hne : fd' ≠ fd := fun heq => hother (.inl (heq ▸ hfd'))
          exact Finset.mem_erase.mpr ⟨hne, (h.1.opened fd' hfd').2⟩
        · exact Finset.mem_erase.mpr ⟨hzero, h.1.zero⟩

theorem sound_start (kern : Kernel) : (start kern).Sound := by
  refine ⟨fun fd hfd => absurd hfd (Finset.notMem_empty fd), ?_, show (-1 : Int) ≠ 0 by decide⟩
  show (0 : Int) ∈ (if 0 ∈ kern.opened then kern else kern.openFd 0).opened
  split
  next hzero => exact hzero
  next hzero =>
    have hfresh : kern.freshFd 0 = 0 := if_pos hzero
    exact hfresh ▸ Finset.mem_insert_self _ _

theorem settled_iff_not_lost (hfd : d.fd ∉ d.owned) : d.Settled ↔ ¬ d.Lost := by
  rw [lost_iff_of_not_owned hfd, not_or, Bool.not_eq_true, Finset.not_nonempty_iff_eq_empty]
  rfl

theorem Tidy.term_not_owned (h : d.Tidy) : (d.act .term).fd ∉ (d.act .term).owned := by
  rw [Holder.act]
  split
  next hgone => exact h.2 hgone
  next => exact h.1.close_not_owned true

theorem tidy_start (kern : Kernel) : (start kern).Tidy :=
  ⟨sound_start kern, fun hgone => Bool.noConfusion hgone⟩

theorem tidy_exec (kern : Kernel) (acts : List Act) :
    ∃ d, exec step (start kern) acts = .ok d ∧ d.Tidy :=
  exec_total (fun d a h => ⟨d.act a, rfl, (h.act a).1⟩) (tidy_start kern) acts

/-- Up to and with its `cp_sock_term`, a socket closes what it got exactly once and nothing
else, if and only if each call on the way closes what is the socket's own. -/
theorem settled_iff (kern : Kernel) (acts : List Act) :
    (∃ d, exec step (start kern) (acts ++ [.term]) = .ok d ∧ d.Settled) ↔
      Along step ClosesOwn (start kern) (acts ++ [.term]) := by
  obtain ⟨d, hd, htidy⟩ := tidy_exec kern acts
  have hexec : exec step (start kern) (acts ++ [.term]) = .ok (d.act .term) := exec_append hd
  have hmarked : (d.act .term).Lost ↔ (start kern).Lost ∨
      ¬ Along step ClosesOwn (start kern) (acts ++ [.term]) :=
    marked_iff_along (fun d a t (h : Tidy d) (ht : step d a = .ok t) => Except.ok.inj ht ▸ (h.act a).1)
      (fun _ a _ h ht => Except.ok.inj ht ▸ (h.act a).2) (tidy_start kern) hexec
  have hnew : ¬ (start kern).Lost := by
    rintro (hstray | ⟨fd, hfd, -⟩)
    · exact Bool.noConfusion hstray
    · exact Finset.notMem_empty fd hfd
  have hsettled : (d.act .term).Settled ↔ Along step ClosesOwn (start kern) (acts ++ [.term]) := by
    rw [settled_iff_not_lost htidy.term_not_owned, hmarked, or_iff_right hnew, not_not]
  rw [← hsettled]
  exact ⟨fun ⟨d', hd', h⟩ => Except.ok.inj (hexec.symm.trans hd') ▸ h, fun h => ⟨_, hexec, h⟩⟩

/-- A connection made at once is closed by `cp_sock_connect`, and its number, by then
another's, by `cp_sock_term`. -/
theorem connected_at_once_not_preserved :
    ¬ ∀ (kern : Kernel) (acts : List Act),
      ∃ d, exec step (start kern) (acts ++ [.term]) = .ok d ∧ d.Settled := by
  intro h
  obtain ⟨d, hd, hsettled⟩ := h Kernel.bare [.connect true 80 0
    ⟨true, some [.socket 5 true .done], .done, 0⟩, .openOther 5]
  cases hd
  exact absurd hsettled.1 (by decide)

inductive Calls (d : Holder) (p : SockId) (σ : Sys) : Act → Sys → Prop
  | close {closed : Bool} {rv : Int} {σ' : Sys} (h : cpSockClose σ (some p) closed = .ok (rv, σ')) : Calls d p σ (.close closed) σ'
  | listen {lport backlog rv : Int} {os : ListenOs} {σ' : Sys}
      (h : cpSockListen σ (some p) lport backlog os = .ok (rv, σ')) : Calls d p σ (.listen lport backlog os) σ'
  | accept {serv : SockId} {os : AcceptOs} {rv : Int} {σ' : Sys}
      (h : cpSockAccept σ (some serv) (some p) os = .ok (rv, σ')) :
      Calls d p σ (.accept (decide (0 ≤ (σ.mem serv).fd)) os.accept) σ'
  | connect {raddr : Bool} {rport lport rv : Int} {os : ConnectOs} {σ' : Sys}
      (h : cpSockConnect σ (some p) raddr rport lport os = .ok (rv, σ')) :
      Calls d p σ (.connect raddr rport lport os) σ'
  | term {σ' : Sys} (h : cpSockTerm σ (some p) = .ok σ') : Calls d p σ .term σ'
  | openOther (hint : Nat) : Calls d p σ (.openOther hint) { σ with kern := σ.kern.openFd hint }
  | closeOther {fd : Int} (h : fd ∉ d.owned) (hzero : fd ≠ 0) :
      Calls d p σ (.closeOther fd) { σ with kern := σ.kern.close fd }

/-- The calls on the socket at an address do to the kernel and to its members what the
holder's do. -/
theorem Holds.next {σ σ' : Sys} {p : SockId} {a : Act} (h : d.Holds σ p) (hthere : d.terminated = false) (hcall : Calls d p σ a σ') :
    (d.act a).kern = σ'.kern ∧ ((d.act a).terminated = false → (d.act a).Holds σ' p) := by
  have hmember : ∀ {d' : Holder}, d'.Holds σ' p →
      (if d.terminated then d else d').kern = σ'.kern ∧
        ((if d.terminated then d else d').terminated = false → (if d.terminated then d else d').Holds σ' p) :=
    fun hnext => by
      rw [hthere]
      exact ⟨hnext.2.2.1, fun _ => hnext⟩
  cases hcall with
  | close hclose => exact hmember (h.close hclose)
  | listen hlisten => exact hmember (h.listen hlisten)
  | accept haccept => exact hmember (h.accept haccept)
  | connect hconnect => exact hmember (h.connect hconnect)
  | term hterm =>
      obtain ⟨hlive, hinit, hkern, hfd, hstatus⟩ := h
      obtain ⟨-, -, -, -, hclosed⟩ := cpSockTerm_spec hterm
      have hact : d.act .term = d.term := by rw [Holder.act, hthere]; rfl
      rw [hact]
      refine ⟨?_, fun hback => Bool.noConfusion hback⟩
      have hkern' : d.term.kern = if 0 < d.fd then d.kern.close d.fd else d.kern := by
        show (d.close true).kern = _
        unfold Holder.close
        split
        · split <;> rfl
        · rfl
      rw [hclosed, hinit, ← hfd, ← hkern]
      simpa using hkern'
  | openOther hint =>
      exact ⟨congrArg (Kernel.openFd · hint) h.2.2.1, fun _ =>
        ⟨h.1, h.2.1, congrArg (Kernel.openFd · hint) h.2.2.1, h.2.2.2⟩⟩
  | closeOther hother hzero =>
      have hact : d.act (.closeOther _) = { d with kern := d.kern.close _ } :=
        if_neg fun hor => hor.elim hother hzero
      rw [hact]
      exact ⟨congrArg (Kernel.close · _) h.2.2.1, fun _ =>
        ⟨h.1, h.2.1, congrArg (Kernel.close · _) h.2.2.1, h.2.2.2⟩⟩

theorem holds_start {σ : Sys} {p : SockId} (kern : Kernel) (malloced : Bool) (now : ULong) (hkern : σ.kern = (start kern).kern) :
    (start kern).Holds { σ with
      live := insert p σ.live
      mem := Function.update σ.mem p (sockBlank malloced now) } p := by
  have hmem : Function.update σ.mem p (sockBlank malloced now) p = sockBlank malloced now :=
    Function.update_self ..
  exact ⟨Finset.mem_insert_self p σ.live, congrArg (·.flag.init) hmem, hkern.symm,
    congrArg Sock.fd hmem.symm, congrArg Sock.status hmem.symm⟩

inductive Called (p : SockId) : Holder → Sys → List Act → Sys → Prop
  | nil {d : Holder} {σ : Sys} : Called p d σ [] σ
  | cons {d : Holder} {σ σ' τ : Sys} {a : Act} {acts : List Act} (hthere : d.terminated = false)
      (hcall : Calls d p σ a σ') (hlater : Called p (d.act a) σ' acts τ) : Called p d σ (a :: acts) τ

theorem Called.exec {σ τ : Sys} {p : SockId} {acts : List Act} (hcalled : Called p d σ acts τ) (hkern : d.kern = σ.kern)
    (h : d.terminated = false → d.Holds σ p) : ∃ d', exec step d acts = .ok d' ∧ d'.kern = τ.kern := by
  induction hcalled with
  | nil => exact ⟨_, rfl, hkern⟩
  | cons hthere hcall _ ih =>
      obtain ⟨hnext, hholds⟩ := (h hthere).next hthere hcall
      obtain ⟨d', hexec, hend⟩ := ih hnext hholds
      exact ⟨d', exec_cons_iff.mpr ⟨_, rfl, hexec⟩, hend⟩

/-- From `cp_sock_init` on, the calls on a socket open and close what the holder's do. -/
theorem called_start {σ τ : Sys} {p : SockId} {acts : List Act} (kern : Kernel) (malloced : Bool) (now : ULong)
    (hkern : σ.kern = (start kern).kern)
    (hcalled : Called p (start kern) { σ with
      live := insert p σ.live
      mem := Function.update σ.mem p (sockBlank malloced now) } acts τ) :
    ∃ d, exec step (start kern) acts = .ok d ∧ d.kern = τ.kern :=
  hcalled.exec hkern.symm fun _ => holds_start kern malloced now hkern

end Holder

end Fl2440.CpLibrary
