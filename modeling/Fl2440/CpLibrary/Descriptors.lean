import Fl2440.CpLibrary.Effects

/-! What the calls of `cp_sock.c` do to a socket and its descriptor. -/
namespace Fl2440.CpLibrary

open Fl2440.Lib

variable {σ σ' : Sys} {p q : SockId} {rv : Int}

theorem cpSockInit_cases (σ : Sys) (malloced : Bool) (os : SockInitOs) :
    cpSockInit σ malloced os = (none, σ) ∨
      ∃ p, p ∉ σ.live ∧ cpSockInit σ malloced os = (some p, { σ with
        live := insert p σ.live
        mem := Function.update σ.mem p (sockBlank malloced os.now) }) := by
  unfold cpSockInit
  split
  · exact Or.inl rfl
  · exact Or.inr ⟨_, σ.freshAddr_not_mem _, rfl⟩

theorem cpSockClose_spec {closed : Bool} (h : cpSockClose σ (some p) closed = .ok (rv, σ')) :
    p ∈ σ.live ∧ ∃ fd, σ' = { σ with
      kern := if 0 < (σ.mem p).fd then σ.kern.close (σ.mem p).fd else σ.kern }.modify p
        fun s => { s with fd } := by
  unfold cpSockClose at h
  obtain ⟨s, hload, h⟩ := bind_eq_ok_iff.mp h
  obtain ⟨hlive, rfl⟩ := load_eq_ok hload
  refine ⟨hlive, ?_⟩
  split at h
  · rename_i hpos
    rw [if_pos hpos]
    split at h
    · cases h
      exact ⟨-1, rfl⟩
    · cases h
      refine ⟨(σ.mem p).fd, ?_⟩
      simp [Sys.modify]
  · rename_i hpos
    cases h
    rw [if_neg hpos]
    exact ⟨-1, rfl⟩

theorem cpSockClose_unopened {closed : Bool} (h : p ∈ σ.live) (hfd : (σ.mem p).fd = -1) :
    cpSockClose σ (some p) closed = .ok (0, σ) := by
  simp only [cpSockClose, Sys.load_of_mem h, ok_bind, hfd]
  rw [if_neg (by omega), Sys.modify_eq_self (by rw [← hfd])]
  rfl

theorem cpSockClose_faultsOnly {allowed : Fault → Prop} {closed : Bool} (h : p ∈ σ.live) :
    FaultsOnly allowed (cpSockClose σ (some p) closed) := by
  simp only [cpSockClose, Sys.load_of_mem h, ok_bind]
  split
  · split <;> exact .pure _ _
  · exact .pure _ _

theorem cpSockTerm_spec (h : cpSockTerm σ (some p) = .ok σ') :
    p ∈ σ.live ∧ σ'.fds = σ.fds ∧ σ'.live = σ.live.erase p ∧
      (∀ q, q ≠ p → σ'.mem q = σ.mem q) ∧
      σ'.kern = if (σ.mem p).flag.init = true ∧ 0 < (σ.mem p).fd then σ.kern.close (σ.mem p).fd
        else σ.kern := by
  unfold cpSockTerm at h
  obtain ⟨s, hload, h⟩ := bind_eq_ok_iff.mp h
  obtain ⟨hlive, rfl⟩ := load_eq_ok hload
  obtain ⟨⟨rv, σ₁⟩, hclose, h⟩ := bind_eq_ok_iff.mp h
  cases h
  refine ⟨hlive, ?_⟩
  split at hclose
  · rename_i hinit
    obtain ⟨_, fd, rfl⟩ := cpSockClose_spec hclose
    refine ⟨rfl, rfl, fun q hq => by rw [Sys.free_mem, Sys.modify_ne _ _ hq], ?_⟩
    simp only [Sys.free_kern, Sys.modify_kern, hinit, true_and]
  · rename_i hinit
    cases hclose
    refine ⟨rfl, rfl, fun _ _ => rfl, ?_⟩
    simp [hinit]

theorem cpSockTerm_faultsOnly {allowed : Fault → Prop} {sock : Ptr} (h : σ.Valid sock) :
    FaultsOnly allowed (cpSockTerm σ sock) := by
  cases sock with
  | none => exact .ok _ _
  | some p =>
      simp only [cpSockTerm, Sys.load_of_mem (h p rfl), ok_bind]
      refine FaultsOnly.bind ?_ fun _ _ => .pure _ _
      split
      · exact cpSockClose_faultsOnly (h p rfl)
      · exact .ok _ _

structure Rewired (σ σ' : Sys) (p : SockId) : Prop where
  fds : σ'.fds = σ.fds
  live : σ'.live = σ.live
  others : ∀ q, q ≠ p → σ'.mem q = σ.mem q
  own : ∃ fd mode status actvTime, σ'.mem p = { σ.mem p with fd, mode, status, actvTime }
  kern : σ.kern.Obtained σ'.kern (σ'.mem p).fd

theorem bindAddrs_spec (kern : Kernel) (addrs : List BindAddr) :
    ∀ rv fd : Int, (fd ∉ kern.opened) → ∀ rv' fd' bound kern',
      bindAddrs kern rv fd addrs = (rv', fd', bound, kern') →
        (bound = false ∧ kern' = kern ∧ fd' ∉ kern.opened) ∨
          (bound = true ∧ rv' = 0 ∧ ∃ hint, kern' = kern.openFd hint ∧ fd' = kern.freshFd hint) := by
  induction addrs with
  | nil =>
      intro rv fd hfd rv' fd' bound kern' h
      cases h
      exact Or.inl ⟨rfl, rfl, hfd⟩
  | cons addr rest ih =>
      intro rv fd hfd rv' fd' bound kern' h
      cases addr with
      | refused => exact ih _ _ (kern.not_mem_of_neg (by omega)) _ _ _ _ h
      | socket hint bind =>
          cases bind with
          | true =>
              cases h
              exact Or.inr ⟨rfl, rfl, hint, rfl, rfl⟩
          | false =>
              rw [bindAddrs, Kernel.close_openFd] at h
              exact ih _ _ (kern.freshFd_not_mem hint) _ _ _ _ h

theorem listenCleanup_spec {τ : Sys} {now : ULong} (hfds : τ.fds = σ.fds)
    (hlive : τ.live = σ.live) (hothers : ∀ q, q ≠ p → τ.mem q = σ.mem q)
    (hown : ∃ fd mode, τ.mem p = { σ.mem p with fd, mode })
    (hkern : σ.kern.Obtained τ.kern (τ.mem p).fd) (h : listenCleanup τ p rv now = (rv', σ')) :
    Rewired σ σ' p ∧ (rv' = 0 → (σ'.mem p).status = .already) ∧
      (σ'.mem p).mode = (τ.mem p).mode := by
  obtain ⟨fd, mode, hmem⟩ := hown
  unfold listenCleanup at h
  split at h
  · rename_i hrv
    cases h
    refine ⟨?_, fun h0 => absurd h0 hrv, ?_⟩
    · split
      · refine ⟨hfds, hlive, hothers, ⟨fd, mode, _, _, hmem⟩, ?_⟩
        simp only [hkern.close_eq]
        exact .nothing hkern.not_mem
      · exact ⟨hfds, hlive, hothers, ⟨fd, mode, _, _, hmem⟩, hkern⟩
    · split <;> rfl
  · cases h
    refine ⟨⟨hfds, hlive, fun q hq => ?_, ⟨fd, mode, .already, now, ?_⟩, ?_⟩, fun _ => ?_, ?_⟩
    · rw [Sys.modify_ne _ _ hq, hothers q hq]
    · rw [Sys.modify_same, hmem]
    · rw [Sys.modify_same, Sys.modify_kern]
      exact hkern
    · rw [Sys.modify_same]
    · rw [Sys.modify_same]

theorem cpSockListen_spec {lport backlog : Int} {os : ListenOs} (hfd : (σ.mem p).fd = -1)
    (h : cpSockListen σ (some p) lport backlog os = .ok (rv, σ')) :
    Rewired σ σ' p ∧ (rv = 0 → (σ'.mem p).status = .already) ∧
      ((σ.mem p).mode = .listen → (σ'.mem p).mode = .listen) := by
  have hunbound : (-1 : Int) ∉ σ.kern.opened := σ.kern.not_mem_of_neg (by omega)
  unfold cpSockListen at h
  obtain ⟨s, hload, h⟩ := bind_eq_ok_iff.mp h
  obtain ⟨hlive, rfl⟩ := load_eq_ok hload
  split at h
  · obtain ⟨hwired, hstat, hmode⟩ := listenCleanup_spec (σ := σ) rfl rfl (fun _ _ => rfl)
      ⟨_, _, rfl⟩ (.nothing (hfd ▸ hunbound)) (Except.ok.inj h)
    exact ⟨hwired, hstat, fun hlisten => hmode.trans hlisten⟩
  · rw [cpSockClose_unopened hlive hfd, ok_bind] at h
    cases haddrs : os.addrs with
    | none =>
        simp only [haddrs] at h
        obtain ⟨hwired, hstat, hmode⟩ := listenCleanup_spec (σ := σ) rfl rfl (fun _ _ => rfl)
          ⟨_, _, rfl⟩ (.nothing (hfd ▸ hunbound)) (Except.ok.inj h)
        exact ⟨hwired, hstat, fun hlisten => hmode.trans hlisten⟩
    | some addrs =>
        simp only [haddrs] at h
        rcases hloop : bindAddrs σ.kern 0 (-1) addrs with ⟨rv', fd, bound, kern⟩
        rcases bindAddrs_spec σ.kern addrs 0 (-1) hunbound _ _ _ _ hloop with
          ⟨rfl, rfl, hfree⟩ | ⟨rfl, rfl, hint, rfl, rfl⟩
        · simp only [hloop, Bool.not_false, if_true, Kernel.close_of_not_mem hfree] at h
          have hself : ({ σ with kern := σ.kern }.modify p fun s => { s with fd := -1 }) = σ :=
            Sys.modify_eq_self (by rw [← hfd])
          rw [hself] at h
          obtain ⟨hwired, hstat, hmode⟩ := listenCleanup_spec (σ := σ) rfl rfl (fun _ _ => rfl)
            ⟨_, _, rfl⟩ (.nothing (hfd ▸ hunbound)) (Except.ok.inj h)
          exact ⟨hwired, hstat, fun hlisten => hmode.trans hlisten⟩
        · simp only [hloop, Bool.not_true, Bool.false_eq_true, if_false] at h
          let σ₁ := { σ with kern := σ.kern.openFd hint }.modify p fun s =>
            { s with fd := σ.kern.freshFd hint }
          have hmem₁ : σ₁.mem p = { σ.mem p with fd := σ.kern.freshFd hint } := Sys.modify_same ..
          have hothers₁ : ∀ q, q ≠ p → σ₁.mem q = σ.mem q := fun q hq => Sys.modify_ne _ _ hq
          split at h
          · obtain ⟨hwired, hstat, hmode⟩ := listenCleanup_spec (σ := σ) (τ := σ₁) rfl rfl hothers₁
              ⟨_, _, hmem₁⟩ (by rw [hmem₁]; exact .opened hint) (Except.ok.inj h)
            refine ⟨hwired, hstat, fun hlisten => hmode.trans ?_⟩
            rw [hmem₁]
            exact hlisten
          · obtain ⟨hwired, hstat, hmode⟩ := listenCleanup_spec (σ := σ)
              (τ := σ₁.modify p fun s => { s with mode := .listen }) rfl rfl
              (fun q hq => by rw [Sys.modify_ne _ _ hq, hothers₁ q hq])
              ⟨σ.kern.freshFd hint, .listen, by rw [Sys.modify_same, hmem₁]⟩
              (by rw [Sys.modify_same, hmem₁]; exact .opened hint) (Except.ok.inj h)
            refine ⟨hwired, hstat, fun _ => hmode.trans ?_⟩
            rw [Sys.modify_same]

theorem cpSockAccept_cases {serv : SockId} {os : AcceptOs}
    (h : cpSockAccept σ (some serv) (some p) os = .ok (rv, σ')) :
    (rv ≠ 0 ∧ σ' = σ) ∨
      (rv = 0 ∧ ∃ hint, os.accept = some hint ∧
        σ' = { σ with kern := σ.kern.openFd hint }.modify p fun s => { s with
          fd := σ.kern.freshFd hint, mode := .accept, status := .already, actvTime := os.now }) := by
  have hclose : σ.kern.close (-1) = σ.kern :=
    Kernel.close_of_not_mem (σ.kern.not_mem_of_neg (by omega))
  unfold cpSockAccept at h
  obtain ⟨s, -, h⟩ := bind_eq_ok_iff.mp h
  dsimp only at h
  split at h
  · cases h
    exact Or.inl ⟨by omega, by rw [hclose]⟩
  · split at h
    · cases h
      exact Or.inl ⟨by omega, by rw [hclose]⟩
    · rename_i hint haccept
      obtain ⟨_, -, h⟩ := bind_eq_ok_iff.mp h
      cases h
      exact Or.inr ⟨rfl, hint, haccept, rfl⟩

theorem cpSockAccept_faultsOnly {allowed : Fault → Prop} {serv : SockId} {os : AcceptOs}
    (hserv : serv ∈ σ.live) (hp : p ∈ σ.live) :
    FaultsOnly allowed (cpSockAccept σ (some serv) (some p) os) := by
  simp only [cpSockAccept, Sys.load_of_mem hserv, Sys.load_of_mem hp, ok_bind]
  split
  · exact .pure _ _
  · split
    · exact .pure _ _
    · exact .pure _ _

/-! Connecting for the first time and again. -/

def ConnectLoop.Leaves (kern : Kernel) : ConnectLoop → Prop
  | .exhausted _ fd kern' => kern' = kern ∧ fd ∉ kern.opened
  | .failed kern' => kern' = kern
  | .connected fd kern' => ∃ hint, kern' = kern.openFd hint ∧ fd = kern.freshFd hint
  | .connecting fd kern' => ∃ hint, kern' = kern.openFd hint ∧ fd = kern.freshFd hint

theorem connectAddrs_leaves (lport : Int) (kern : Kernel) (addrs : List ConnectAddr) :
    ∀ rv fd : Int, fd ∉ kern.opened → (connectAddrs lport kern rv fd addrs).Leaves kern := by
  induction addrs with
  | nil =>
      intro rv fd hfd
      exact ⟨rfl, hfd⟩
  | cons addr rest ih =>
      intro rv fd hfd
      cases addr with
      | refused => exact ih _ _ (kern.not_mem_of_neg (by omega))
      | socket hint bind connect =>
          simp only [connectAddrs, Kernel.close_openFd]
          split
          · exact ih _ _ (kern.freshFd_not_mem hint)
          · cases connect with
            | done => exact ⟨hint, rfl, rfl⟩
            | inProgress => exact ⟨hint, rfl, rfl⟩
            | failed => rfl

theorem connectConnecting_cases {again : Connect} {now : ULong}
    (hstat : (σ.mem p).status = .connecting)
    (h : connectConnecting σ p 0 again now = (rv, σ')) :
    (rv = 0 ∧ again ≠ .failed ∧ ∃ status actvTime, (status = .connecting ∨ status = .already) ∧
      σ' = σ.modify p fun s => { s with status, actvTime }) ∨
    (rv ≠ 0 ∧ again = .failed ∧ σ' = { σ with
      kern := if 0 ≤ (σ.mem p).fd then σ.kern.close (σ.mem p).fd else σ.kern }.modify p
        fun s => { s with status := .disconnect }) := by
  unfold connectConnecting at h
  rw [if_pos hstat] at h
  cases again with
  | done =>
      simp only [connectConnected, Sys.modify_same, if_true] at h
      cases h
      refine Or.inl ⟨rfl, by simp, .already, now, Or.inr rfl, ?_⟩
      exact Sys.modify_modify σ p (fun s => { s with status := .already })
        (fun s => { s with actvTime := now })
  | inProgress =>
      cases h
      refine Or.inl ⟨rfl, by simp, _, _, Or.inl hstat, (Sys.modify_eq_self rfl).symm⟩
  | failed =>
      simp only [connectConnected, connectFailed, Sys.modify_same, Sys.modify_kern] at h
      cases h
      refine Or.inr ⟨by omega, rfl, ?_⟩
      split <;> rfl

theorem cpSockConnect_again {raddr : Bool} {rport lport : Int} {os : ConnectOs}
    (hstat : (σ.mem p).status = .connecting)
    (h : cpSockConnect σ (some p) raddr rport lport os = .ok (rv, σ')) :
    (rv = 0 ∧ ∃ status actvTime, (status = .connecting ∨ status = .already) ∧
      σ' = σ.modify p fun s => { s with status, actvTime }) ∨
    (rv ≠ 0 ∧ ((σ.mem p).flag.init = false ∨ raddr = false ∨ rport ≤ 0 ∨ os.again = .failed) ∧
      ∃ status, σ' = { σ with
        kern := if 0 ≤ (σ.mem p).fd then σ.kern.close (σ.mem p).fd else σ.kern }.modify p
          fun s => { s with status }) := by
  unfold cpSockConnect at h
  obtain ⟨s, hload, h⟩ := bind_eq_ok_iff.mp h
  obtain ⟨hlive, rfl⟩ := load_eq_ok hload
  split at h
  · rename_i hguard
    cases h
    simp only [Bool.or_eq_true, Bool.not_eq_eq_eq_not, Bool.not_true, decide_eq_true_eq] at hguard
    refine Or.inr ⟨by omega, ?_, (σ.mem p).status, ?_⟩
    · rcases hguard with (hguard | hguard) | hguard
      · exact Or.inl hguard
      · exact Or.inr (Or.inl hguard)
      · exact Or.inr (Or.inr (Or.inl hguard))
    · rw [Sys.modify_eq_self rfl]
      split <;> rfl
  · rw [if_neg (by rw [hstat]; simp)] at h
    have hpair : connectConnecting σ p 0 os.again os.now = (rv, σ') := Except.ok.inj h
    rcases connectConnecting_cases hstat hpair with
      ⟨hrv, _, status, actvTime, hstatus, hσ'⟩ | ⟨hrv, hagain, hσ'⟩
    · exact Or.inl ⟨hrv, status, actvTime, hstatus, hσ'⟩
    · exact Or.inr ⟨hrv, Or.inr (Or.inr (Or.inr hagain)), _, hσ'⟩

/-- A first call leaves a descriptor that is still open only in a socket that
is connecting or connected. -/
theorem cpSockConnect_first {raddr : Bool} {rport lport : Int} {os : ConnectOs}
    (hstat : (σ.mem p).status = .init) (hfd : (σ.mem p).fd = -1)
    (h : cpSockConnect σ (some p) raddr rport lport os = .ok (rv, σ')) :
    Rewired σ σ' p ∧ (σ'.mem p).mode = (σ.mem p).mode ∧
      ((σ'.mem p).fd ∈ σ'.kern.opened →
        (σ'.mem p).status = .connecting ∨ (σ'.mem p).status = .already) := by
  have hunbound : (-1 : Int) ∉ σ.kern.opened := σ.kern.not_mem_of_neg (by omega)
  have hnothing : Rewired σ σ p :=
    ⟨rfl, rfl, fun _ _ => rfl, ⟨_, _, _, _, rfl⟩, .nothing (hfd ▸ hunbound)⟩
  have hidle : ∀ rv, connectFailed σ p rv = (rv, σ) := by
    intro rv
    unfold connectFailed
    rw [if_neg (by omega)]
  have hunused : (σ.mem p).fd ∉ σ.kern.opened := hfd ▸ hunbound
  unfold cpSockConnect at h
  obtain ⟨s, hload, h⟩ := bind_eq_ok_iff.mp h
  obtain ⟨hlive, rfl⟩ := load_eq_ok hload
  split at h
  · rw [hidle] at h
    cases h
    exact ⟨hnothing, rfl, fun hopen => absurd hopen hunused⟩
  · rw [if_neg (by rw [hstat]; simp), if_neg (by rw [hstat]; simp)] at h
    cases haddrs : os.addrs with
    | none =>
        simp only [haddrs, hidle] at h
        cases h
        exact ⟨hnothing, rfl, fun hopen => absurd hopen hunused⟩
    | some addrs =>
        simp only [haddrs] at h
        rw [cpSockClose_unopened hlive hfd, ok_bind] at h
        have hself : (σ.modify p fun s => { s with fd := -1 }) = σ :=
          Sys.modify_eq_self (by rw [← hfd])
        simp only [hself] at h
        have hleaves := connectAddrs_leaves lport σ.kern addrs 0 (-1) hunbound
        split at h
        · rename_i rv' fd kern hloop
          rw [hloop] at hleaves
          obtain ⟨rfl, hfree⟩ := hleaves
          rw [Kernel.close_of_not_mem hfree, hidle] at h
          cases h
          exact ⟨hnothing, rfl, fun hopen => absurd hopen hunused⟩
        · rename_i kern hloop
          rw [hloop] at hleaves
          obtain rfl : kern = σ.kern := hleaves
          rw [hidle] at h
          cases h
          exact ⟨hnothing, rfl, fun hopen => absurd hopen hunused⟩
        · rename_i fd kern hloop
          rw [hloop] at hleaves
          obtain ⟨hint, rfl, rfl⟩ := hleaves
          let σ₁ := { σ with kern := σ.kern.openFd hint }.modify p fun s =>
            { s with fd := σ.kern.freshFd hint, status := .connecting }
          have hmem₁ : σ₁.mem p =
            { σ.mem p with fd := σ.kern.freshFd hint, status := .connecting } := Sys.modify_same ..
          have hothers₁ : ∀ q, q ≠ p → σ₁.mem q = σ.mem q := fun q hq => Sys.modify_ne _ _ hq
          have hpair : connectConnected σ₁ p 0 os.now = (rv, σ') := Except.ok.inj h
          simp only [connectConnected, connectFailed, hmem₁, reduceCtorEq, if_false,
            if_pos (σ.kern.freshFd_nonneg hint)] at hpair
          cases hpair
          refine ⟨⟨rfl, rfl, hothers₁, ⟨_, _, _, _, hmem₁⟩, ?_⟩, ?_, ?_⟩
          · simp only [hmem₁]
            rw [show σ₁.kern.close (σ.kern.freshFd hint) = σ.kern from σ.kern.close_openFd hint]
            exact .nothing (σ.kern.freshFd_not_mem hint)
          · simp only [hmem₁]
          · simp only [hmem₁]
            rw [show σ₁.kern.close (σ.kern.freshFd hint) = σ.kern from σ.kern.close_openFd hint]
            exact fun hopen => absurd hopen (σ.kern.freshFd_not_mem hint)
        · rename_i fd kern hloop
          rw [hloop] at hleaves
          obtain ⟨hint, rfl, rfl⟩ := hleaves
          let σ₁ := { σ with kern := σ.kern.openFd hint }.modify p fun s =>
            { s with fd := σ.kern.freshFd hint, status := .connecting }
          have hmem₁ : σ₁.mem p =
            { σ.mem p with fd := σ.kern.freshFd hint, status := .connecting } := Sys.modify_same ..
          have hothers₁ : ∀ q, q ≠ p → σ₁.mem q = σ.mem q := fun q hq => Sys.modify_ne _ _ hq
          have hpair : connectConnecting σ₁ p 0 os.again os.now = (rv, σ') := Except.ok.inj h
          rcases connectConnecting_cases (by rw [hmem₁]) hpair with
            ⟨_, _, status, actvTime, hstatus, rfl⟩ | ⟨_, _, rfl⟩
          · refine ⟨⟨rfl, rfl, fun q hq => by rw [Sys.modify_ne _ _ hq, hothers₁ q hq], ?_, ?_⟩,
              ?_, fun _ => ?_⟩
            · exact ⟨_, _, status, actvTime, by rw [Sys.modify_same, hmem₁]⟩
            · rw [Sys.modify_same, hmem₁]
              exact .opened hint
            · rw [Sys.modify_same, hmem₁]
            · rw [Sys.modify_same]
              exact hstatus
          · rw [hmem₁, if_pos (σ.kern.freshFd_nonneg hint),
              show σ₁.kern.close (σ.kern.freshFd hint) = σ.kern from σ.kern.close_openFd hint]
            refine ⟨⟨rfl, rfl, fun q hq => ?_, ⟨σ.kern.freshFd hint, (σ.mem p).mode, .disconnect,
              (σ.mem p).actvTime, ?_⟩, ?_⟩, ?_, ?_⟩
            · rw [Sys.modify_ne _ _ hq]
              exact hothers₁ q hq
            · rw [Sys.modify_same]
              simp only [hmem₁]
            · rw [Sys.modify_same]
              simp only [hmem₁]
              exact .nothing (σ.kern.freshFd_not_mem hint)
            · rw [Sys.modify_same]
              simp only [hmem₁]
            · rw [Sys.modify_same]
              simp only [hmem₁]
              exact fun hopen => absurd hopen (σ.kern.freshFd_not_mem hint)

end Fl2440.CpLibrary
