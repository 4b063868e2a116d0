import Fl2440.CpLibrary.Descriptors
import Fl2440.Lib.Marked

/-! The registry lists, `FLAG_SOCK_REGISTRY` and the links in the sockets; and what
a listen socket counts of its accepted clients. -/
namespace Fl2440.CpLibrary

open Fl2440.Lib

variable {σ σ' τ : Sys} {p : SockId} {sock : Ptr} {rv : Int}

def Sys.LinkedTo (σ : Sys) (head : ListHead) (p : SockId) : Prop :=
  p ∈ σ.live ∧ (σ.mem p).rlist = some head

/-- A list has exactly the live sockets that are linked to its head, a linked
socket is in the list of its mode, and the flag says whether it is linked. -/
structure RegistryOk (σ : Sys) : Prop where
  holds : ∀ (head : ListHead) (list : List SockId),
    σ.registry head = .ok list → Holds list (σ.LinkedTo head)
  head : ∀ p ∈ σ.live, ∀ head, (σ.mem p).rlist = some head → ∃ list, σ.registry head = .ok list
  flag : ∀ p ∈ σ.live, (σ.mem p).flag.registry = (σ.mem p).rlist.isSome
  home : ∀ p ∈ σ.live, ∀ head, (σ.mem p).rlist = some head → (σ.mem p).home = some head

def Sys.registryView (σ : Sys) :
    (List SockId × List SockId) × Finset SockId ×
      (SockId → Option (List SockId) × Option ListHead × Bool × Option ListHead) :=
  σ.view (fun fds => (fds.clientList, fds.serverList)) fun s =>
    (s.acceptList, s.rlist, s.flag.registry, s.home)

theorem registryView_eq_iff : τ.registryView = σ.registryView ↔
    (τ.fds.clientList = σ.fds.clientList ∧ τ.fds.serverList = σ.fds.serverList) ∧
      τ.live = σ.live ∧ ∀ p, (τ.mem p).acceptList = (σ.mem p).acceptList ∧
        (τ.mem p).rlist = (σ.mem p).rlist ∧ (τ.mem p).flag.registry = (σ.mem p).flag.registry ∧
          (τ.mem p).home = (σ.mem p).home := by
  unfold Sys.registryView
  rw [Sys.view_eq_iff]
  simp only [Prod.mk.injEq]

theorem registry_of_registryView (hview : τ.registryView = σ.registryView) :
    τ.registry = σ.registry := by
  obtain ⟨⟨hclient, hserver⟩, hlive, hmem⟩ := registryView_eq_iff.mp hview
  exact registry_congr (Sys.view_eq_iff.mpr
    ⟨by simp only [hclient, hserver], hlive, fun p => (hmem p).1⟩)

theorem RegistryOk.congr_live (h : RegistryOk σ) (hreg : τ.registry = σ.registry)
    (hlive : τ.live = σ.live) (hmem : ∀ p ∈ σ.live, (τ.mem p).rlist = (σ.mem p).rlist ∧
      (τ.mem p).flag.registry = (σ.mem p).flag.registry ∧ (τ.mem p).home = (σ.mem p).home) :
    RegistryOk τ := by
  constructor
  · intro head list hlist
    rw [hreg] at hlist
    refine (h.holds head list hlist).congr fun p => ?_
    unfold Sys.LinkedTo
    rw [hlive]
    exact and_congr_right fun hp => by rw [(hmem p hp).1]
  · intro p hp head hlink
    rw [hlive] at hp
    rw [hreg]
    exact h.head p hp head ((hmem p hp).1 ▸ hlink)
  · intro p hp
    rw [hlive] at hp
    rw [(hmem p hp).2.1, (hmem p hp).1]
    exact h.flag p hp
  · intro p hp head hlink
    rw [hlive] at hp
    rw [(hmem p hp).2.2]
    exact h.home p hp head ((hmem p hp).1 ▸ hlink)

theorem RegistryOk.congr (h : RegistryOk σ) (hview : τ.registryView = σ.registryView) :
    RegistryOk τ := by
  obtain ⟨-, hlive, hmem⟩ := registryView_eq_iff.mp hview
  exact h.congr_live (registry_of_registryView hview) hlive fun p _ => (hmem p).2

/-! Writing one list. -/

theorem setRegistry_registry_self {head : ListHead} {list : List SockId}
    (hhead : σ.registry head = .ok list) (list' : List SockId) :
    (σ.setRegistry head list').registry head = .ok list' := by
  cases head with
  | client => rfl
  | server => rfl
  | accept serv =>
      obtain ⟨hserv, _⟩ := Sys.registry_accept_ok_iff.mp hhead
      exact Sys.registry_accept_ok_iff.mpr ⟨hserv, by rw [Sys.setRegistry, Sys.modify_same]⟩

theorem setRegistry_registry_ne (σ : Sys) {head head' : ListHead} (list' : List SockId)
    (hne : head' ≠ head) : (σ.setRegistry head list').registry head' = σ.registry head' := by
  cases head with
  | client => cases head' <;> first | rfl | contradiction
  | server => cases head' <;> first | rfl | contradiction
  | accept serv =>
      cases head' with
      | client => rfl
      | server => rfl
      | accept serv' =>
          have hserv : serv' ≠ serv := fun heq => hne (heq ▸ rfl)
          simp only [Sys.registry, Sys.load, Sys.setRegistry_live]
          rw [show ((σ.setRegistry (.accept serv) list').mem serv') = σ.mem serv' from
            Sys.modify_ne σ (fun s => { s with acceptList := some list' }) hserv]

theorem modify_registry (σ : Sys) (p : SockId) (f : Sock → Sock)
    (hf : (f (σ.mem p)).acceptList = (σ.mem p).acceptList) :
    (σ.modify p f).registry = σ.registry :=
  registry_congr (σ.modify_view p f _ _ hf)

/-! The calls. -/

theorem RegistryOk.unlinked (h : RegistryOk σ) (hp : p ∈ σ.live)
    (hflag : (σ.mem p).flag.registry = false) : (σ.mem p).rlist = none := by
  have hflag' := h.flag p hp
  rw [hflag] at hflag'
  cases hlink : (σ.mem p).rlist with
  | none => rfl
  | some head =>
      rw [hlink] at hflag'
      contradiction

theorem RegistryOk.link {head : ListHead} {list : List SockId} (h : RegistryOk σ)
    (hlive : p ∈ σ.live) (hfree : (σ.mem p).rlist = none) (hlist : σ.registry head = .ok list)
    (hregistry : τ.registry = (σ.setRegistry head (list ++ [p])).registry) (hlive' : τ.live = σ.live)
    (hkeep : ∀ q ∈ σ.live, q ≠ p → (τ.mem q).rlist = (σ.mem q).rlist ∧
      (τ.mem q).flag.registry = (σ.mem q).flag.registry ∧ (τ.mem q).home = (σ.mem q).home)
    (hlink : (τ.mem p).rlist = some head) (hflag : (τ.mem p).flag.registry = true)
    (hhome : (τ.mem p).home = some head) : RegistryOk τ := by
  have hlinked : ∀ head' q, τ.LinkedTo head' q ↔ (q = p ∧ head' = head) ∨ σ.LinkedTo head' q := by
    intro head' q
    unfold Sys.LinkedTo
    rw [hlive']
    by_cases hq : q = p
    · subst hq
      simp [hlive, hlink, hfree, eq_comm]
    · simp only [hq, false_and, false_or]
      exact and_congr_right fun hmem => by rw [(hkeep q hmem hq).1]
  constructor
  · intro head' list' hlist'
    rw [hregistry] at hlist'
    by_cases hne : head' = head
    · subst hne
      rw [setRegistry_registry_self hlist] at hlist'
      cases hlist'
      refine (h.holds head' list hlist).append (fun hmark => ?_) fun q => ?_
      · rw [hmark.2] at hfree
        contradiction
      · rw [hlinked]
        simp
    · rw [setRegistry_registry_ne σ _ hne] at hlist'
      refine (h.holds head' list' hlist').congr fun q => ?_
      rw [hlinked]
      simp [hne]
  · intro q hq head' hqlink
    rw [hregistry]
    by_cases hne : head' = head
    · rw [hne]
      exact ⟨_, setRegistry_registry_self hlist _⟩
    · rw [setRegistry_registry_ne σ _ hne]
      obtain ⟨_, hhead⟩ | ⟨hmem, hold⟩ := (hlinked head' q).mp ⟨hq, hqlink⟩
      · exact absurd hhead hne
      · exact h.head q hmem head' hold
  · intro q hq
    rw [hlive'] at hq
    by_cases hqp : q = p
    · rw [hqp, hflag, hlink]
      rfl
    · rw [(hkeep q hq hqp).1, (hkeep q hq hqp).2.1]
      exact h.flag q hq
  · intro q hq head' hqlink
    rw [hlive'] at hq
    by_cases hqp : q = p
    · rw [hqp] at hqlink ⊢
      rw [hhome, ← hlink, hqlink]
    · rw [(hkeep q hq hqp).1] at hqlink
      rw [(hkeep q hq hqp).2.2]
      exact h.home q hq head' hqlink

theorem RegistryOk.addSockRegistry (h : RegistryOk σ)
    (hcall : cpFdsAddSockRegistry σ sock = .ok (rv, σ')) : RegistryOk σ' := by
  cases sock with
  | none => cases hcall; exact h
  | some p =>
      obtain ⟨hlive, ⟨rfl, _⟩ | ⟨_, _, hflag, head, list, hhome, hlist, rfl⟩⟩ :=
        cpFdsAddSockRegistry_cases hcall
      · exact h
      · let σ₁ := (σ.setRegistry head (list ++ [p])).countAccept head 1
        have hkeep : ∀ q, (σ₁.mem q).rlist = (σ.mem q).rlist ∧
            (σ₁.mem q).flag.registry = (σ.mem q).flag.registry ∧
              (σ₁.mem q).home = (σ.mem q).home := by
          intro q
          have hcount := countAccept_field (σ.setRegistry head (list ++ [p])) head 1
            (fun s => (s.rlist, s.flag.registry, s.home)) (fun _ _ => rfl) q
          have hset := Sys.setRegistry_field σ head (list ++ [p])
            (fun s => (s.rlist, s.flag.registry, s.home)) (fun _ _ => rfl) q
          have hboth := hcount.trans hset
          simp only [Prod.mk.injEq] at hboth
          exact hboth
        refine h.link hlive (h.unlinked hlive hflag) hlist ?_ (by simp) (fun q _ hq => ?_) ?_ ?_ ?_
        · rw [modify_registry σ₁ p _ rfl]
          exact countAccept_registry _ _ _
        · rw [Sys.modify_ne _ _ hq]
          exact hkeep q
        all_goals rw [Sys.modify_same]
        exact (hkeep p).2.2.trans hhome

theorem RegistryOk.delSockRegistry_cases (h : RegistryOk σ)
    (hcall : cpFdsDelSockRegistry σ (some p) = .ok σ') :
    p ∈ σ.live ∧ (((σ.mem p).flag.registry = false ∧ σ' = σ) ∨
      ∃ head list, (σ.mem p).rlist = some head ∧ σ.registry head = .ok list ∧
        σ' = ((σ.countAccept head (-1)).setRegistry head (list.erase p)).modify p fun s =>
          { s with rlist := none, flag.registry := false }) := by
  obtain ⟨hlive, hout | ⟨_, head, list, hlink, hlist, hσ'⟩⟩ := cpFdsDelSockRegistry_cases hcall
  · exact ⟨hlive, Or.inl hout⟩
  · refine ⟨hlive, Or.inr ⟨head, list, hlink, hlist, ?_⟩⟩
    rwa [Sys.uncount, h.home p hlive head hlink] at hσ'

theorem RegistryOk.delSockRegistry (h : RegistryOk σ)
    (hcall : cpFdsDelSockRegistry σ sock = .ok σ') : RegistryOk σ' := by
  cases sock with
  | none => cases hcall; exact h
  | some p =>
      obtain ⟨hlive, ⟨_, rfl⟩ | ⟨head, list, hlink, hlist, rfl⟩⟩ := h.delSockRegistry_cases hcall
      · exact h
      · let σ₀ := σ.countAccept head (-1)
        let σ₁ := σ₀.setRegistry head (list.erase p)
        have hlist₀ : σ₀.registry head = .ok list := by
          rw [countAccept_registry]
          exact hlist
        have hkeep : ∀ q, (σ₁.mem q).rlist = (σ.mem q).rlist ∧
            (σ₁.mem q).flag.registry = (σ.mem q).flag.registry ∧
              (σ₁.mem q).home = (σ.mem q).home := by
          intro q
          have hset := Sys.setRegistry_field σ₀ head (list.erase p)
            (fun s => (s.rlist, s.flag.registry, s.home)) (fun _ _ => rfl) q
          have hcount := countAccept_field σ head (-1)
            (fun s => (s.rlist, s.flag.registry, s.home)) (fun _ _ => rfl) q
          have hboth := hset.trans hcount
          simp only [Prod.mk.injEq] at hboth
          exact hboth
        have hlive₁ : σ₁.live = σ.live := by simp [σ₁, σ₀]
        have hregistry : (σ₁.modify p fun s =>
            { s with rlist := none, flag.registry := false }).registry = σ₁.registry :=
          modify_registry σ₁ p _ rfl
        constructor
        · intro head' list' hlist'
          rw [hregistry] at hlist'
          by_cases hne : head' = head
          · subst hne
            rw [setRegistry_registry_self hlist₀] at hlist'
            cases hlist'
            refine (h.holds head' list hlist).erase fun q => ?_
            unfold Sys.LinkedTo
            by_cases hq : q = p
            · subst hq
              simp
            · rw [Sys.modify_ne _ _ hq, (hkeep q).1, Sys.modify_live, hlive₁]
              simp [hq]
          · rw [setRegistry_registry_ne σ₀ _ hne, countAccept_registry] at hlist'
            refine (h.holds head' list' hlist').congr fun q => ?_
            unfold Sys.LinkedTo
            by_cases hq : q = p
            · subst hq
              simp [hlink, Ne.symm hne]
            · rw [Sys.modify_ne _ _ hq, (hkeep q).1, Sys.modify_live, hlive₁]
        · intro q hq head' hlink'
          rw [hregistry]
          by_cases hne : head' = head
          · rw [hne]
            exact ⟨_, setRegistry_registry_self hlist₀ _⟩
          · rw [setRegistry_registry_ne σ₀ _ hne, countAccept_registry]
            have hqp : q ≠ p := by
              rintro rfl
              rw [Sys.modify_same] at hlink'
              contradiction
            rw [Sys.modify_ne _ _ hqp, (hkeep q).1] at hlink'
            rw [Sys.modify_live, hlive₁] at hq
            exact h.head q hq head' hlink'
        · intro q hq
          by_cases hqp : q = p
          · subst hqp
            rw [Sys.modify_same]
            rfl
          · rw [Sys.modify_ne _ _ hqp, (hkeep q).1, (hkeep q).2.1]
            rw [Sys.modify_live, hlive₁] at hq
            exact h.flag q hq
        · intro q hq head' hlink'
          have hqp : q ≠ p := by
            rintro rfl
            rw [Sys.modify_same] at hlink'
            contradiction
          rw [Sys.modify_ne _ _ hqp] at hlink' ⊢
          rw [(hkeep q).1] at hlink'
          rw [Sys.modify_live, hlive₁] at hq
          exact (hkeep q).2.2.trans (h.home q hq head' hlink')

theorem RegistryOk.delSockRegistry_unlinked (h : RegistryOk σ)
    (hcall : cpFdsDelSockRegistry σ (some p) = .ok σ') : (σ'.mem p).rlist = none := by
  obtain ⟨hlive, ⟨hflag, rfl⟩ | ⟨_, _, _, _, rfl⟩⟩ := h.delSockRegistry_cases hcall
  · exact h.unlinked hlive hflag
  · rw [Sys.modify_same]

theorem RegistryOk.delSockRegistry_faultsOnly {allowed : Fault → Prop} (h : RegistryOk σ)
    (hvalid : σ.Valid sock) : FaultsOnly allowed (cpFdsDelSockRegistry σ sock) := by
  refine cpFdsDelSockRegistry_faultsOnly hvalid fun p hp hflag => ?_
  have hlive := hvalid p hp
  have hsome := h.flag p hlive
  rw [hflag] at hsome
  obtain ⟨head, hlink⟩ := Option.isSome_iff_exists.mp hsome.symm
  obtain ⟨list, hlist⟩ := h.head p hlive head hlink
  exact ⟨head, list, hlink, h.home p hlive head hlink, hlist⟩

theorem registry_shrink {head : ListHead} (hfds : τ.fds = σ.fds) (hlive : τ.live = σ.live.erase p)
    (hmem : ∀ q, q ≠ p → τ.mem q = σ.mem q) (hne : head ≠ .accept p) :
    τ.registry head = σ.registry head := by
  cases head with
  | client => exact congrArg (fun fds : Fds => Except.ok fds.clientList) hfds
  | server => exact congrArg (fun fds : Fds => Except.ok fds.serverList) hfds
  | accept serv =>
      have hserv : serv ≠ p := fun heq => hne (heq ▸ rfl)
      simp only [Sys.registry, Sys.load, hlive, hmem serv hserv, Finset.mem_erase, ne_eq, hserv,
        not_false_eq_true, true_and]

theorem RegistryOk.shrink (h : RegistryOk σ) (hunlinked : (σ.mem p).rlist = none)
    (hchildless : ∀ q ∈ σ.live, (σ.mem q).rlist ≠ some (.accept p)) (hfds : τ.fds = σ.fds)
    (hlive : τ.live = σ.live.erase p) (hmem : ∀ q, q ≠ p → τ.mem q = σ.mem q) : RegistryOk τ := by
  have hother : ∀ head, head ≠ .accept p → τ.registry head = σ.registry head := fun head hne =>
    registry_shrink hfds hlive hmem hne
  have hlinked : ∀ head q, τ.LinkedTo head q ↔ σ.LinkedTo head q := by
    intro head q
    unfold Sys.LinkedTo
    rw [hlive]
    by_cases hq : q = p
    · subst hq
      simp [hunlinked]
    · rw [hmem q hq]
      simp [hq]
  constructor
  · intro head list hlist
    have hne : head ≠ .accept p := by
      rintro rfl
      have hdead := (Sys.registry_accept_ok_iff.mp hlist).1
      rw [hlive] at hdead
      simp at hdead
    rw [hother head hne] at hlist
    exact (h.holds head list hlist).congr (hlinked head)
  · intro q hq head hlink
    rw [hlive] at hq
    obtain ⟨hqp, hq⟩ := Finset.mem_erase.mp hq
    rw [hmem q hqp] at hlink
    rw [hother head fun heq => hchildless q hq (heq ▸ hlink)]
    exact h.head q hq head hlink
  · intro q hq
    rw [hlive] at hq
    obtain ⟨hqp, hq⟩ := Finset.mem_erase.mp hq
    rw [hmem q hqp]
    exact h.flag q hq
  · intro q hq head hlink
    rw [hlive] at hq
    obtain ⟨hqp, hq⟩ := Finset.mem_erase.mp hq
    rw [hmem q hqp] at hlink ⊢
    exact h.home q hq head hlink

theorem RegistryOk.term (h : RegistryOk σ) (hunlinked : (σ.mem p).rlist = none)
    (hchildless : ∀ q ∈ σ.live, (σ.mem q).rlist ≠ some (.accept p))
    (hcall : cpSockTerm σ (some p) = .ok σ') : RegistryOk σ' := by
  obtain ⟨_, hfds, hlive, hmem, _⟩ := cpSockTerm_spec hcall
  exact h.shrink hunlinked hchildless hfds hlive hmem

theorem RegistryOk.grow (h : RegistryOk σ) (hp : p ∉ σ.live) (hlive : τ.live = insert p σ.live)
    (hclient : τ.fds.clientList = σ.fds.clientList) (hserver : τ.fds.serverList = σ.fds.serverList)
    (hmem : ∀ q ∈ σ.live, τ.mem q = σ.mem q) (hlink : (τ.mem p).rlist = none)
    (hflag : (τ.mem p).flag.registry = false)
    (hlist : (τ.mem p).acceptList = none ∨ (τ.mem p).acceptList = some []) : RegistryOk τ := by
  have hnobody : ∀ q ∈ σ.live, (σ.mem q).rlist ≠ some (.accept p) := by
    intro q hq hqlink
    obtain ⟨list, hhead⟩ := h.head q hq _ hqlink
    exact hp (Sys.registry_accept_ok_iff.mp hhead).1
  have hregistry : ∀ head, head ≠ .accept p → τ.registry head = σ.registry head := by
    intro head hne
    cases head with
    | client => exact congrArg Except.ok hclient
    | server => exact congrArg Except.ok hserver
    | accept serv =>
        have hserv : serv ≠ p := fun heq => hne (heq ▸ rfl)
        by_cases hmemserv : serv ∈ σ.live
        · simp only [Sys.registry, Sys.load, hlive, Finset.mem_insert, hmemserv, or_true, if_true,
            hmem serv hmemserv]
        · simp only [Sys.registry, Sys.load, hlive, Finset.mem_insert, hmemserv, hserv, or_self,
            if_false]
  have hlinked : ∀ head q, τ.LinkedTo head q ↔ σ.LinkedTo head q := by
    intro head q
    unfold Sys.LinkedTo
    rw [hlive]
    by_cases hq : q = p
    · subst hq
      simp [hlink, hp]
    · simp only [Finset.mem_insert, hq, false_or]
      exact and_congr_right fun hqlive => by rw [hmem q hqlive]
  have hcases : ∀ q ∈ τ.live, (q = p ∧ (τ.mem q).rlist = none) ∨ (q ∈ σ.live ∧ τ.mem q = σ.mem q) := by
    intro q hq
    rw [hlive] at hq
    rcases Finset.mem_insert.mp hq with rfl | hq
    · exact Or.inl ⟨rfl, hlink⟩
    · exact Or.inr ⟨hq, hmem q hq⟩
  constructor
  · intro head list hhead
    by_cases hne : head = .accept p
    · subst hne
      obtain ⟨_, hsome⟩ := Sys.registry_accept_ok_iff.mp hhead
      have hnil : list = [] := by
        rcases hlist with hnone | hempty
        · rw [hnone] at hsome
          contradiction
        · exact Option.some.inj (hsome.symm.trans hempty)
      rw [hnil]
      refine ⟨Marked.nil _, fun q hmark => ?_⟩
      obtain ⟨hq, hqlink⟩ := (hlinked _ q).mp hmark
      exact absurd hqlink (hnobody q hq)
    · rw [hregistry head hne] at hhead
      exact (h.holds head list hhead).congr (hlinked head)
  · intro q hq head hqlink
    obtain ⟨_, hnone⟩ | ⟨hq, hsame⟩ := hcases q hq
    · rw [hnone] at hqlink
      contradiction
    · rw [hsame] at hqlink
      have hne : head ≠ .accept p := by
        rintro rfl
        exact hnobody q hq hqlink
      rw [hregistry head hne]
      exact h.head q hq head hqlink
  · intro q hq
    obtain ⟨rfl, hnone⟩ | ⟨hq, hsame⟩ := hcases q hq
    · rw [hflag, hnone]
      rfl
    · rw [hsame]
      exact h.flag q hq
  · intro q hq head hqlink
    obtain ⟨_, hnone⟩ | ⟨hq, hsame⟩ := hcases q hq
    · rw [hnone] at hqlink
      contradiction
    · rw [hsame] at hqlink ⊢
      exact h.home q hq head hqlink

theorem RegistryOk.delSockRegistry_rlist (h : RegistryOk σ)
    (hcall : cpFdsDelSockRegistry σ (some p) = .ok σ') {q : SockId} (hq : q ≠ p) :
    (σ'.mem q).rlist = (σ.mem q).rlist := by
  obtain ⟨_, ⟨_, rfl⟩ | ⟨head, list, _, _, rfl⟩⟩ := h.delSockRegistry_cases hcall
  · rfl
  · rw [Sys.modify_ne _ _ hq]
    exact (Sys.setRegistry_field _ head _ (·.rlist) (fun _ _ => rfl) q).trans
      (countAccept_field σ head _ (·.rlist) (fun _ _ => rfl) q)

theorem delSockRegistry_live (h : cpFdsDelSockRegistry σ sock = .ok σ') : σ'.live = σ.live := by
  have hview : σ'.view (fun _ => ()) (fun _ => ()) = σ.view _ _ :=
    (cpFdsDelSockRegistry_view h (fun _ _ _ => rfl) fun _ _ _ _ _ => rfl).1
  exact (Sys.view_eq_iff.mp hview).2.1

def Sys.Childless (σ : Sys) (p : SockId) : Prop :=
  ∀ q ∈ σ.live, q ≠ p → (σ.mem q).rlist ≠ some (.accept p)

theorem Sys.Childless.congr (h : σ.Childless p) (hview : τ.registryView = σ.registryView) :
    τ.Childless p := by
  obtain ⟨-, hlive, hmem⟩ := registryView_eq_iff.mp hview
  intro q hq hne
  rw [(hmem q).2.1]
  exact h q (hlive ▸ hq) hne

theorem RegistryOk.delSockRegistry_childless (h : RegistryOk σ) (hchildless : σ.Childless p)
    (hdel : cpFdsDelSockRegistry σ (some p) = .ok σ') :
    ∀ q ∈ σ'.live, (σ'.mem q).rlist ≠ some (.accept p) := by
  intro q hq hlink
  by_cases hne : q = p
  · rw [hne, h.delSockRegistry_unlinked hdel] at hlink
    contradiction
  · rw [h.delSockRegistry_rlist hdel hne] at hlink
    exact hchildless q (delSockRegistry_live hdel ▸ hq) hne hlink

theorem RegistryOk.delSockRegistry_term (h : RegistryOk σ) (hchildless : σ.Childless p)
    (hdel : cpFdsDelSockRegistry σ (some p) = .ok σ') (hterm : cpSockTerm σ' (some p) = .ok τ) :
    RegistryOk τ :=
  (h.delSockRegistry hdel).term (h.delSockRegistry_unlinked hdel)
    (h.delSockRegistry_childless hchildless hdel) hterm

theorem RegistryOk.destroySock (h : RegistryOk σ)
    (hchildless : ∀ p, sock = some p → σ.Childless p)
    (hcall : cpFdsDestroySock σ sock = .ok σ') : RegistryOk σ' := by
  obtain ⟨σ₁, data, σ₂, σ₃, σ₄, h₁, h₂, h₃, h₄, h₅⟩ := cpFdsDestroySock_cases hcall
  have hview₁ : σ₁.registryView = σ.registryView :=
    (cpFdsDelSockTask_view h₁ (fun _ _ => rfl) fun _ _ _ _ => rfl).1
  have hview₂ : σ₂.registryView = σ.registryView :=
    (cpFdsSockRmqueue_view h₂ (fun _ _ => rfl) fun _ _ => rfl).1.trans hview₁
  have hview₃ : σ₃.registryView = σ.registryView :=
    (cpDelEpollEvent_view h₃ (fun _ _ => rfl) fun _ _ => rfl).trans hview₂
  have hr₃ := h.congr hview₃
  cases sock with
  | none => cases h₅; exact hr₃.delSockRegistry h₄
  | some p => exact hr₃.delSockRegistry_term ((hchildless p rfl).congr hview₃) h₄ h₅

end Fl2440.CpLibrary
