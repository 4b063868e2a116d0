import Fl2440.CpLibrary.Accounting

/-! The registry lists over whole histories, and what a listen socket counts: its
accepted clients, one for one, and never more than it may have. -/
namespace Fl2440.CpLibrary

open Fl2440.Lib

variable {σ σ' τ : Sys} {p : SockId} {sock : Ptr} {rv : Int} {n : Nat}
variable {head : ListHead} {list : List SockId}

/-! The registry. -/

theorem setRegistry_self (h : σ.registry head = .ok list) : σ.setRegistry head list = σ := by
  cases head with
  | client =>
      cases Except.ok.inj h
      rfl
  | server =>
      cases Except.ok.inj h
      rfl
  | accept serv =>
      obtain ⟨_, hlist⟩ := Sys.registry_accept_ok_iff.mp h
      exact Sys.modify_eq_self (f := fun s => { s with acceptList := some list }) (by rw [← hlist])

theorem Undone.same (h : RegistryOk σ) (hundone : Undone σ τ) : Same σ τ := by
  cases hundone with
  | unlisted hsame => exact hsame
  | listed p head list fresh hlist hsame =>
      have hnew : p ∉ list := fun hmem => fresh ((h.holds head list hlist).marked p hmem).1
      have hback : (list ++ [p]).erase p = list := by
        rw [List.erase_append_right _ hnew]
        simp
      rwa [hback, setRegistry_self hlist] at hsame

theorem RegistryOk.same (h : RegistryOk σ) (hsame : Same σ τ) : RegistryOk τ := by
  refine h.congr_live (registry_congr_live (by rw [hsame.fds]) (by rw [hsame.fds]) hsame.live ?_)
    hsame.live fun q hq => ?_
  · intro q hq
    rw [hsame.mem q hq]
  · rw [hsame.mem q hq]
    exact ⟨rfl, rfl, rfl⟩

theorem Joined.head_ne (h : Joined σ σ' p head list) : head ≠ .accept p := by
  rintro rfl
  exact h.fresh (Sys.registry_accept_ok_iff.mp h.registry).1

theorem RegistryOk.joined (h : RegistryOk σ) (hjoined : Joined σ σ' p head list)
    (hlist : (σ'.mem p).acceptList = none ∨ (σ'.mem p).acceptList = some []) : RegistryOk σ' := by
  -- first it comes to life outside all lists, then it is linked
  obtain ⟨β, hβ⟩ : ∃ β : Sys, β = { σ with
      live := insert p σ.live
      mem := Function.update σ.mem p { σ'.mem p with rlist := none, flag.registry := false } } :=
    ⟨_, rfl⟩
  have hβp : β.mem p = { σ'.mem p with rlist := none, flag.registry := false } := by
    rw [hβ]
    exact Function.update_self ..
  have hβq : ∀ q ∈ σ.live, β.mem q = σ.mem q := by
    intro q hq
    have hne : q ≠ p := fun heq => hjoined.fresh (heq ▸ hq)
    rw [hβ]
    exact Function.update_of_ne hne _ _
  have hβlive : β.live = insert p σ.live := by rw [hβ]
  have hβfds : β.fds = σ.fds := by rw [hβ]
  have hgrown : RegistryOk β := h.grow hjoined.fresh hβlive (by rw [hβfds]) (by rw [hβfds]) hβq
    (by rw [hβp]) (by rw [hβp]) (by rw [hβp]; exact hlist)
  have hβlist : β.registry head = .ok list := by
    rw [← hjoined.registry]
    cases head with
    | client => exact congrArg (fun fds : Fds => Except.ok fds.clientList) hβfds
    | server => exact congrArg (fun fds : Fds => Except.ok fds.serverList) hβfds
    | accept serv =>
        obtain ⟨hserv, hsome⟩ := Sys.registry_accept_ok_iff.mp hjoined.registry
        rw [hjoined.registry]
        refine Sys.registry_accept_ok_iff.mpr ⟨?_, by rw [hβq serv hserv, hsome]⟩
        rw [hβlive]
        exact Finset.mem_insert_of_mem hserv
  have hregistry : σ'.registry = (β.setRegistry head (list ++ [p])).registry := by
    refine registry_congr_live ?_ ?_ (by rw [hjoined.live, Sys.setRegistry_live, hβlive]) ?_
    · rw [hjoined.fds, setRegistry_fds_congr hβfds]
      cases head <;> rfl
    · rw [hjoined.fds, setRegistry_fds_congr hβfds]
      cases head <;> rfl
    · intro q hq
      rw [Sys.setRegistry_live, hβlive] at hq
      rcases Finset.mem_insert.mp hq with rfl | hq
      · rw [setRegistry_mem_of_ne _ _ hjoined.head_ne, hβp]
      · rw [hjoined.mem q hq, setRegistry_mem_congr (hβq q hq) head, Sys.listed]
        exact countAccept_field _ head 1 (·.acceptList) (fun _ _ => rfl) q
  refine hgrown.link (by rw [hβlive]; exact Finset.mem_insert_self p _) (by rw [hβp]) hβlist hregistry
    (by rw [hβlive, hjoined.live]) (fun q hq hne => ?_) hjoined.rlist hjoined.registered hjoined.home
  rw [hβlive] at hq
  have hold := (Finset.mem_insert.mp hq).resolve_left hne
  rw [hβq q hold]
  exact ⟨hjoined.others (·.rlist) (fun _ _ _ => rfl) hold,
    hjoined.others (·.flag.registry) (fun _ _ _ => rfl) hold,
    hjoined.others Sock.home (fun _ _ _ => rfl) hold⟩

/-! The counters. -/

/-- A socket with a list of clients counts them; one without has no room for any. -/
structure Sock.Counted (s : Sock) : Prop where
  listening : ∀ list, s.acceptList = some list → s.acceptCnt = list.length ∧
    s.acceptCnt ≤ s.maxClient ∧ s.fds = true ∧ s.status = .already ∧ s.mode = .listen
  closed : s.acceptList = none → s.maxClient ≤ s.acceptCnt ∧ s.mode ≠ .listen

def Sock.accepting (s : Sock) : Option (List SockId) × Int × Int × Bool × SockStat × SockMode :=
  (s.acceptList, s.acceptCnt, s.maxClient, s.fds, s.status, s.mode)

theorem Sock.Counted.congr {s t : Sock} (h : s.Counted) (heq : t.accepting = s.accepting) :
    t.Counted := by
  simp only [Sock.accepting, Prod.mk.injEq] at heq
  obtain ⟨hlist, hcnt, hmax, hfds, hstatus, hmode⟩ := heq
  constructor
  · intro list hsome
    rw [hcnt, hmax, hfds, hstatus, hmode]
    exact h.listening list (hlist ▸ hsome)
  · intro hnone
    rw [hcnt, hmax, hmode]
    exact h.closed (hlist ▸ hnone)

theorem Sock.Counted.acceptList_none {s : Sock} (h : s.Counted)
    (hother : s.fds = false ∨ s.status ≠ .already ∨ s.mode ≠ .listen) : s.acceptList = none := by
  cases hlist : s.acceptList with
  | none => rfl
  | some list =>
      obtain ⟨_, _, hfds, hstatus, hmode⟩ := h.listening list hlist
      rcases hother with hother | hother | hother
      · rw [hfds] at hother
        contradiction
      · exact absurd hstatus hother
      · exact absurd hmode hother

def ListenOk (σ : Sys) : Prop := ∀ p ∈ σ.live, (σ.mem p).Counted

theorem ListenOk.congr {γ : Type} {g : Fds → γ} (h : ListenOk σ)
    (hview : τ.view g Sock.accepting = σ.view g Sock.accepting) : ListenOk τ := by
  obtain ⟨_, hlive, hmem⟩ := Sys.view_eq_iff.mp hview
  exact fun p hp => (h p (hlive ▸ hp)).congr (hmem p)

theorem ListenOk.same (h : ListenOk σ) (hsame : Same σ τ) : ListenOk τ := by
  intro p hp
  rw [hsame.live] at hp
  rw [hsame.mem p hp]
  exact h p hp

theorem sockBlank_counted (malloced : Bool) (now : ULong) : (sockBlank malloced now).Counted :=
  ⟨fun _ hlist => (nomatch hlist), fun _ => ⟨le_refl _, fun hmode => nomatch hmode⟩⟩

theorem ListenOk.built (h : ListenOk σ) (hbuilt : Building σ σ' p) (hnew : (σ'.mem p).Counted) :
    ListenOk σ' := by
  intro q hq
  rw [hbuilt.live] at hq
  rcases Finset.mem_insert.mp hq with rfl | hq
  · exact hnew
  · rw [hbuilt.mem q hq]
    exact h q hq

theorem ListenOk.joined (h : ListenOk σ) (hjoined : Joined σ σ' p head list)
    (hroom : ∀ serv, head = .accept serv → (σ.mem serv).acceptCnt < (σ.mem serv).maxClient)
    (hnew : (σ'.mem p).Counted) : ListenOk σ' := by
  intro q hq
  rw [hjoined.live] at hq
  rcases Finset.mem_insert.mp hq with rfl | hq
  · exact hnew
  · rw [hjoined.mem q hq]
    by_cases hserv : head = .accept q
    · subst hserv
      obtain ⟨_, hlist⟩ := Sys.registry_accept_ok_iff.mp hjoined.registry
      obtain ⟨hcnt, _, hfds, hstatus⟩ := (h q hq).listening list hlist
      have hlt := hroom q rfl
      have hmem : (σ.listed (.accept q) list p).mem q = { σ.mem q with
          acceptList := some (list ++ [p]), acceptCnt := (σ.mem q).acceptCnt + 1 } := by
        simp only [Sys.listed, Sys.setRegistry, Sys.countAccept, Sys.modify_modify, Sys.modify_same]
      rw [hmem]
      refine ⟨fun list' hlist' => ?_, fun hnone => absurd hnone (Option.some_ne_none _)⟩
      cases hlist'
      refine ⟨?_, by simp only; omega, hfds, hstatus⟩
      simp only [List.length_append, List.length_singleton]
      push_cast
      omega
    · rw [Sys.listed, countAccept_mem_of_ne _ _ hserv, setRegistry_mem_of_ne _ _ hserv]
      exact h q hq

theorem ListenOk.delSockRegistry (h : ListenOk σ) (hregistry : RegistryOk σ)
    (hcall : cpFdsDelSockRegistry σ (some p) = .ok σ') : ListenOk σ' := by
  obtain ⟨hp, ⟨_, rfl⟩ | ⟨head, list, hlink, hlist, rfl⟩⟩ := hregistry.delSockRegistry_cases hcall
  · exact h
  · intro q hq
    have hown := Sys.modify_field ((σ.countAccept head (-1)).setRegistry head (list.erase p)) p
      (fun s => { s with rlist := none, flag.registry := false }) Sock.accepting rfl q
    refine Sock.Counted.congr ?_ hown
    simp only [Sys.modify_live, Sys.setRegistry_live, countAccept_live] at hq
    by_cases hserv : head = .accept q
    · subst hserv
      obtain ⟨_, hsome⟩ := Sys.registry_accept_ok_iff.mp hlist
      obtain ⟨hcnt, hmax, hfds, hstatus⟩ := (h q hq).listening list hsome
      have hmem : p ∈ list := (hregistry.holds _ list hlist).complete p ⟨hp, hlink⟩
      have hlength := List.length_erase_of_mem hmem
      have hpos := List.length_pos_of_mem hmem
      have hq' : ((σ.countAccept (.accept q) (-1)).setRegistry (.accept q) (list.erase p)).mem q =
          { σ.mem q with
            acceptList := some (list.erase p), acceptCnt := (σ.mem q).acceptCnt + -1 } := by
        simp only [Sys.setRegistry, Sys.countAccept, Sys.modify_modify, Sys.modify_same]
      rw [hq']
      refine ⟨fun list' hlist' => ?_, fun hnone => absurd hnone (Option.some_ne_none _)⟩
      cases hlist'
      refine ⟨?_, by simp only; omega, hfds, hstatus⟩
      rw [hlength]
      simp only
      omega
    · rw [setRegistry_mem_of_ne _ _ hserv, countAccept_mem_of_ne _ _ hserv]
      exact h q hq

theorem ListenOk.term (h : ListenOk σ) (hcall : cpSockTerm σ (some p) = .ok σ') : ListenOk σ' := by
  obtain ⟨_, _, hlive, hmem, _⟩ := cpSockTerm_spec hcall
  intro q hq
  rw [hlive] at hq
  obtain ⟨hne, hq⟩ := Finset.mem_erase.mp hq
  rw [hmem q hne]
  exact h q hq

theorem ListenOk.destroySock (h : ListenOk σ) (hregistry : RegistryOk σ)
    (hcall : cpFdsDestroySock σ sock = .ok σ') : ListenOk σ' := by
  obtain ⟨σ₁, data, σ₂, σ₃, σ₄, h₁, h₂, h₃, h₄, h₅⟩ := cpFdsDestroySock_cases hcall
  have hview₁ : σ₁.view (fun _ => ()) Sock.accepting = σ.view _ _ :=
    (cpFdsDelSockTask_view h₁ (fun _ _ => rfl) fun _ _ _ _ => rfl).1
  have hview₂ : σ₂.view (fun _ => ()) Sock.accepting = σ₁.view _ _ :=
    (cpFdsSockRmqueue_view h₂ (fun _ _ => rfl) fun _ _ => rfl).1
  have hview₃ : σ₃.view (fun _ => ()) Sock.accepting = σ₂.view _ _ :=
    cpDelEpollEvent_view h₃ (fun _ _ => rfl) fun _ _ => rfl
  have hlisten₃ := h.congr ((hview₃.trans hview₂).trans hview₁)
  have hreg₁ : σ₁.registryView = σ.registryView :=
    (cpFdsDelSockTask_view h₁ (fun _ _ => rfl) fun _ _ _ _ => rfl).1
  have hreg₂ : σ₂.registryView = σ₁.registryView :=
    (cpFdsSockRmqueue_view h₂ (fun _ _ => rfl) fun _ _ => rfl).1
  have hreg₃ : σ₃.registryView = σ₂.registryView :=
    cpDelEpollEvent_view h₃ (fun _ _ => rfl) fun _ _ => rfl
  have hregistry₃ := hregistry.congr ((hreg₃.trans hreg₂).trans hreg₁)
  cases sock with
  | none =>
      cases h₄
      cases h₅
      exact hlisten₃
  | some p => exact (hlisten₃.delSockRegistry hregistry₃ h₄).term h₅

/-! The calls that may build a socket. -/

theorem RegistryOk.nobody (h : RegistryOk σ) (hlist : (σ.mem p).acceptList = none) :
    ∀ q ∈ σ.live, (σ.mem q).rlist ≠ some (.accept p) := by
  intro q hq hlink
  obtain ⟨list, hhead⟩ := h.head q hq _ hlink
  rw [(Sys.registry_accept_ok_iff.mp hhead).2] at hlist
  contradiction

theorem RegistryOk.offered {s : Sock} (h : RegistryOk σ) (hlisten : ListenOk σ)
    (hoffered : Offered σ p τ s) : RegistryOk τ := by
  cases hoffered with
  | fresh => exact h
  | given hp hidle =>
      exact h.shrink (h.unlinked hp hidle.registry)
        (h.nobody ((hlisten p hp).acceptList_none (Or.inl hidle.fds))) rfl rfl fun _ _ => rfl

theorem ListenOk.offered {s : Sock} (h : ListenOk σ) (hoffered : Offered σ p τ s) :
    ListenOk τ ∧ s.Counted ∧ s.acceptList = none := by
  cases hoffered with
  | fresh => exact ⟨h, sockBlank_counted _ _, rfl⟩
  | given hp hidle =>
      exact ⟨fun q hq => h q (Finset.mem_of_mem_erase hq), h p hp,
        (h p hp).acceptList_none (Or.inl hidle.fds)⟩

theorem lost_keeps {status : SockStat} {kern : Kernel} {ret : Ptr} (hregistry : RegistryOk σ)
    (hlisten : ListenOk σ) (hp : p ∈ σ.live) (hold : (σ.mem p).status = .connecting)
    (hτ : τ = { σ with kern }.modify p fun s => { s with status })
    (hdel : connectDelRegist τ p = .ok (ret, σ')) : RegistryOk σ' ∧ ListenOk σ' := by
  have hlist : (σ.mem p).acceptList = none := by
    refine (hlisten p hp).acceptList_none (Or.inr (Or.inl ?_))
    rw [hold]
    simp
  have hviewτ : τ.registryView = σ.registryView := by
    rw [hτ]
    exact Sys.modify_view _ p _ _ _ rfl
  have hregistryτ := hregistry.congr hviewτ
  have hlistenτ : ListenOk τ := by
    intro q hq
    rw [hτ] at hq ⊢
    by_cases hne : q = p
    · subst hne
      rw [Sys.modify_same]
      refine ⟨fun list hsome => ?_, (hlisten q hp).closed⟩
      rw [hlist] at hsome
      contradiction
    · rw [Sys.modify_ne _ _ hne]
      exact hlisten q hq
  obtain ⟨σ₁, σ₂, h₁, h₂, h₃⟩ := connectDelRegist_cases hdel
  have hview₂ : σ₂.registryView = σ₁.registryView :=
    (cpFdsDelSockTask_view h₂ (fun _ _ => rfl) fun _ _ _ _ => rfl).1
  have hlink₂ : ∀ q, (σ₂.mem q).rlist = (σ₁.mem q).rlist := fun q =>
    ((registryView_eq_iff.mp hview₂).2.2 q).2.1
  have hchildless : τ.Childless p := fun q hq _ => hregistryτ.nobody
    (((registryView_eq_iff.mp hviewτ).2.2 p).1.trans hlist) q hq
  have hnobody := hregistryτ.delSockRegistry_childless hchildless h₁
  constructor
  · refine RegistryOk.term ((hregistryτ.delSockRegistry h₁).congr hview₂) ?_ (fun q hq => ?_) h₃
    · rw [hlink₂]
      exact hregistryτ.delSockRegistry_unlinked h₁
    · rw [hlink₂]
      exact hnobody q (Sys.live_of_view hview₂ ▸ hq)
  · have hview : σ₂.view (fun _ => ()) Sock.accepting = σ₁.view _ _ :=
      (cpFdsDelSockTask_view h₂ (fun _ _ => rfl) fun _ _ _ _ => rfl).1
    exact ((hlistenτ.delSockRegistry hregistryτ h₁).congr hview).term h₃

theorem connectRegist_keeps {raddr : Bool} {rport : Int} {os : ConnectRegistOs} {ret : Ptr}
    (hregistry : RegistryOk σ) (hlisten : ListenOk σ)
    (houtcome : ConnectOutcome σ sock raddr rport os ret σ') : RegistryOk σ' ∧ ListenOk σ' := by
  cases houtcome with
  | nothing => exact ⟨hregistry, hlisten⟩
  | failed p τ σ' s hoffered hundone =>
      have hsame := hundone.same (hregistry.offered hlisten hoffered)
      exact ⟨(hregistry.offered hlisten hoffered).same hsame, (hlisten.offered hoffered).1.same hsame⟩
  | joined p τ σ' s list hoffered _ _ _ hjoined _ hmode hconfig =>
      obtain ⟨hlistenτ, hcounted, hlist⟩ := hlisten.offered hoffered
      simp only [Sock.config, Prod.mk.injEq] at hconfig
      obtain ⟨_, _, hmax, hcnt, hsame⟩ := hconfig
      have hnone := hsame.trans hlist
      refine ⟨(hregistry.offered hlisten hoffered).joined hjoined (Or.inl hnone),
        hlistenτ.joined hjoined (fun serv hserv => nomatch hserv) ⟨fun list hsome => ?_, fun _ => ?_⟩⟩
      · rw [hnone] at hsome
        contradiction
      · rw [hmax, hcnt, hmode]
        exact ⟨(hcounted.closed hlist).1, fun h => nomatch h⟩
  | progressed p status actvTime hlive hold hactive hnew =>
      refine ⟨hregistry.congr (Sys.modify_view σ p _ _ _ rfl), fun q hq => ?_⟩
      by_cases hne : q = p
      · subst hne
        rw [Sys.modify_same]
        refine ⟨fun list hsome => ?_, (hlisten q hlive).closed⟩
        obtain ⟨_, _, _, hstatus, _⟩ := (hlisten q hlive).listening list hsome
        rw [hold] at hstatus
        contradiction
      · rw [Sys.modify_ne _ _ hne]
        exact hlisten q hq
  | lost p status τ σ' _ hlive hold _ _ _ hτ hdel =>
      exact lost_keeps hregistry hlisten hlive hold hτ hdel

/-! All of it together. -/

structure Intact (σ : Sys) (n : Nat) : Prop extends Consistent σ n where
  registry : RegistryOk σ
  listen : ListenOk σ

/-- A destroyed listen socket has no accepted client left. -/
def KeepsClients (σ : Sys) : Call → Prop
  | .destroySock sock => ∀ p, sock = some p → σ.Childless p
  | _ => True

theorem serverRegist_keeps {port maxClient : Int} {serviceRoute : Option Callback}
    {data : Option Nat} {os : ServerRegistOs} (hregistry : RegistryOk σ) (hlisten : ListenOk σ)
    (hcall : cpSockServerRegist σ port maxClient serviceRoute data os = .ok (sock, σ')) :
    RegistryOk σ' ∧ ListenOk σ' := by
  rcases cpSockServerRegist_cases hcall with
    ⟨_, hundone⟩ | ⟨p, list, _, _, hjoined, hstatus, hmode, _, clients, hclients, hconfig⟩
  · have hsame := hundone.same hregistry
    exact ⟨hregistry.same hsame, hlisten.same hsame⟩
  · simp only [Sock.config, Prod.mk.injEq] at hconfig
    obtain ⟨hfds, _, hmax, hcnt, hlist⟩ := hconfig
    refine ⟨hregistry.joined hjoined (Or.inr hlist),
      hlisten.joined hjoined (fun serv hserv => nomatch hserv) ⟨fun list hsome => ?_, fun hnone => ?_⟩⟩
    · rw [hlist] at hsome
      cases hsome
      rw [hcnt, hmax]
      exact ⟨rfl, hclients, hfds, hstatus, hmode⟩
    · rw [hlist] at hnone
      contradiction

theorem acceptRegist_outcome {serv : SockId} {os : AcceptRegistOs} (hregistry : RegistryOk σ)
    (hcall : cpSockAcceptRegist σ (some serv) os = .ok (rv, σ')) :
    serv ∈ σ.live ∧ ((∃ τ, Same σ τ ∧ cpFdsDelSockTask τ (some serv) = .ok σ' ∧
        ((∀ hint, os.accept.accept = some hint → 0 < hint) → τ.kern = σ.kern)) ∨
      ((σ.mem serv).acceptCnt < (σ.mem serv).maxClient ∧
        ∃ p list, Joined σ σ' p (.accept serv) list ∧ (σ'.mem p).mode = .accept ∧
          (σ'.mem p).config = (true, some serv, 0, 0, none))) := by
  obtain ⟨hserv, ⟨τ, hundone, hdel, hkern⟩ | ⟨_, _, hroom, p, list, hjoined, _, hmode, _, hconfig⟩⟩ :=
    cpSockAcceptRegist_cases hcall
  · exact ⟨hserv, Or.inl ⟨τ, hundone.same hregistry, hdel, hkern⟩⟩
  · exact ⟨hserv, Or.inr ⟨hroom, p, list, hjoined, hmode, hconfig⟩⟩

theorem acceptRegist_keeps {os : AcceptRegistOs} (hregistry : RegistryOk σ) (hlisten : ListenOk σ)
    (hcall : cpSockAcceptRegist σ sock os = .ok (rv, σ')) : RegistryOk σ' ∧ ListenOk σ' := by
  cases sock with
  | none => cases hcall; exact ⟨hregistry, hlisten⟩
  | some serv =>
      obtain ⟨_, ⟨τ, hsame, hdel, _⟩ | ⟨hroom, p, list, hjoined, hmode, hconfig⟩⟩ :=
        acceptRegist_outcome hregistry hcall
      · exact ⟨(hregistry.same hsame).congr
          (cpFdsDelSockTask_view hdel (fun _ _ => rfl) fun _ _ _ _ => rfl).1,
          (hlisten.same hsame).congr (g := fun _ => ())
            (cpFdsDelSockTask_view hdel (fun _ _ => rfl) fun _ _ _ _ => rfl).1⟩
      · simp only [Sock.config, Prod.mk.injEq] at hconfig
        obtain ⟨_, _, hmax, hcnt, hlist⟩ := hconfig
        refine ⟨hregistry.joined hjoined (Or.inl hlist),
          hlisten.joined hjoined (fun s hs => ?_) ⟨fun list hsome => ?_, fun _ => ?_⟩⟩
        · cases hs
          exact hroom
        · rw [hlist] at hsome
          contradiction
        · rw [hmax, hcnt, hmode]
          exact ⟨le_refl _, fun h => nomatch h⟩

theorem sockInit_keeps {malloced : Bool} {os : SockInitOs} (hregistry : RegistryOk σ)
    (hlisten : ListenOk σ) :
    RegistryOk (cpSockInit σ malloced os).2 ∧ ListenOk (cpSockInit σ malloced os).2 := by
  rcases cpSockInit_cases σ malloced os with hnone | ⟨p, _, hsome⟩
  · rw [hnone]
    exact ⟨hregistry, hlisten⟩
  · obtain ⟨hbuilt, hmem⟩ := Building.of_cpSockInit hsome
    rw [hsome]
    refine ⟨hregistry.grow hbuilt.fresh hbuilt.live (by rw [hbuilt.fds]) (by rw [hbuilt.fds])
      hbuilt.mem ?_ ?_ (Or.inl ?_), hlisten.built hbuilt ?_⟩
    all_goals rw [hmem]
    · rfl
    · rfl
    · rfl
    · exact sockBlank_counted malloced os.now

def Sys.listView (σ : Sys) :=
  σ.view (fun fds => (fds.clientList, fds.serverList)) fun s =>
    ((s.acceptList, s.rlist, s.flag.registry, s.home), s.accepting)

theorem keeps_of_view (hregistry : RegistryOk σ) (hlisten : ListenOk σ)
    (hview : τ.listView = σ.listView) : RegistryOk τ ∧ ListenOk τ := by
  obtain ⟨hfds, hlive, hmem⟩ := Sys.view_eq_iff.mp hview
  refine ⟨hregistry.congr ?_, ListenOk.congr (g := fun _ => ()) hlisten ?_⟩
  · exact Sys.view_eq_iff.mpr ⟨hfds, hlive, fun p => (Prod.mk.inj (hmem p)).1⟩
  · exact Sys.view_eq_iff.mpr ⟨rfl, hlive, fun p => (Prod.mk.inj (hmem p)).2⟩

theorem Sys.termAllTask_listView (h : cpSockTermAllTask σ = .ok σ') : σ'.listView = σ.listView := by
  obtain ⟨σ₁, hloop, hdrain⟩ := bind_eq_ok_iff.mp h
  cases hdrain
  exact foldlM_preserves (P := fun τ => τ.listView = σ.listView)
    (fun τ i υ _ hτ hdel =>
      (cpFdsDelSockTask_view hdel (fun _ _ => rfl) fun _ _ _ _ => rfl).1.trans hτ) rfl hloop

theorem Intact.of_keeps {m : Nat} (h : Consistent σ m) (hkeeps : RegistryOk σ ∧ ListenOk σ) :
    Intact σ m := ⟨h, hkeeps.1, hkeeps.2⟩

theorem Intact.call {c : Call} (h : Intact σ n) (hok : InHistory σ c) (hclients : KeepsClients σ c)
    (hcall : σ.call c = .ok σ') : ∃ m, Intact σ' m := by
  obtain ⟨m, hm, _⟩ := h.toConsistent.call hok hcall
  refine ⟨m, .of_keeps hm ?_⟩
  cases c with
  | modEpollEvent | delEpollEvent | delSockRegistry => exact absurd hok id
  | sockInit malloced os =>
      cases hcall
      exact sockInit_keeps h.registry h.listen
  | serverRegist port maxClient serviceRoute data os =>
      obtain ⟨⟨sock, τ⟩, hret, rfl⟩ := map_eq_ok_iff.mp hcall
      exact serverRegist_keeps h.registry h.listen hret
  | acceptRegist servSock os =>
      obtain ⟨⟨rv, τ⟩, hret, rfl⟩ := map_eq_ok_iff.mp hcall
      exact acceptRegist_keeps h.registry h.listen hret
  | connectRegist sock raddr rport lport serviceRoute os =>
      obtain ⟨⟨ret, τ⟩, hret, rfl⟩ := map_eq_ok_iff.mp hcall
      exact connectRegist_keeps h.registry h.listen
        (h.ledger.connectRegist_cases (fun p hp ht => (h.tasks.tasked p hp ht).1) hret)
  | addEpollEvent sock accept =>
      obtain ⟨⟨rv, τ⟩, hret, rfl⟩ := map_eq_ok_iff.mp hcall
      rw [h.toConsistent.addEpollEvent hret]
      exact ⟨h.registry, h.listen⟩
  | addSockRegistry sock =>
      obtain ⟨⟨rv, τ⟩, hret, rfl⟩ := map_eq_ok_iff.mp hcall
      rw [h.toConsistent.addSockRegistry hret]
      exact ⟨h.registry, h.listen⟩
  | addSockTask sock =>
      obtain ⟨⟨rv, τ⟩, hret, rfl⟩ := map_eq_ok_iff.mp hcall
      exact keeps_of_view h.registry h.listen
        (cpFdsAddSockTask_view hret (fun _ _ => rfl) fun _ _ _ => rfl).1
  | delSockTask sock =>
      exact keeps_of_view h.registry h.listen
        (cpFdsDelSockTask_view hcall (fun _ _ => rfl) fun _ _ _ _ => rfl).1
  | sockEnqueue sock node =>
      obtain ⟨⟨data, τ⟩, hret, rfl⟩ := map_eq_ok_iff.mp hcall
      exact keeps_of_view h.registry h.listen
        (cpFdsSockEnqueue_view hret (fun _ _ => rfl) fun _ _ => rfl).1
  | sockDequeue =>
      obtain ⟨⟨data, τ⟩, hret, rfl⟩ := map_eq_ok_iff.mp hcall
      exact keeps_of_view h.registry h.listen
        (cpFdsSockDequeue_view hret (fun _ _ => rfl) fun _ _ => rfl).1
  | sockRmqueue sock =>
      obtain ⟨⟨data, τ⟩, hret, rfl⟩ := map_eq_ok_iff.mp hcall
      exact keeps_of_view h.registry h.listen
        (cpFdsSockRmqueue_view hret (fun _ _ => rfl) fun _ _ => rfl).1
  | destroySock sock =>
      exact ⟨h.registry.destroySock hclients hcall, h.listen.destroySock h.registry hcall⟩
  | detectEvent wait =>
      obtain ⟨⟨rv, τ⟩, hret, rfl⟩ := map_eq_ok_iff.mp hcall
      exact keeps_of_view h.registry h.listen
        (cpFdsDetectEvent_view hret (fun _ _ => rfl) fun _ _ _ _ => rfl).1
  | detectTimeout now =>
      exact keeps_of_view h.registry h.listen
        (cpSockDetectTimeout_view hcall (fun _ _ => rfl) fun _ _ _ _ => rfl).1
  | termAllTask => exact keeps_of_view h.registry h.listen (Sys.termAllTask_listView hcall)

theorem intact_start {kern kern' : Kernel} {malloced : Bool} {maxevents timeout : Int}
    {os : InitOs} {fds : Fds} (hinit : cpFdsInit kern malloced maxevents timeout os = some (fds, kern'))
    (hempty : ∀ fd, kern.epoll fd = none) (mem : SockId → Sock) : Intact ⟨fds, mem, ∅, kern'⟩ 0 where
  toConsistent := consistent_start hinit hempty mem
  registry := by
    obtain ⟨_, _, hserver, hclient, _⟩ := cpFdsInit_spec hinit
    refine ⟨fun head list hlist => ?_, fun p hp => absurd hp (Finset.notMem_empty p),
      fun p hp => absurd hp (Finset.notMem_empty p), fun p hp => absurd hp (Finset.notMem_empty p)⟩
    have hnil : list = [] := by
      cases head with
      | client => exact (Except.ok.inj hlist).symm.trans hclient
      | server => exact (Except.ok.inj hlist).symm.trans hserver
      | accept serv =>
          exact absurd (Sys.registry_accept_ok_iff.mp hlist).1 (Finset.notMem_empty serv)
    rw [hnil]
    exact ⟨Marked.nil _, fun p hp => absurd hp.1 (Finset.notMem_empty p)⟩
  listen p hp := absurd hp (Finset.notMem_empty p)

/-! An accept returns, whatever it comes to. -/

theorem acceptExitOut_faultsOnly {allowed : Fault → Prop} {serv : SockId} (h : TaskOk σ)
    (hserv : serv ∈ σ.live) : FaultsOnly allowed (acceptExitOut σ serv rv) := by
  refine (h.delSockTask_faultsOnly fun p hp => ?_).bind fun _ _ => .pure _ _
  cases hp
  exact hserv

theorem Listed.acceptDelRegist_faultsOnly {allowed : Fault → Prop} {serv : SockId}
    (h : Listed σ σ' p head list) (hregistry : RegistryOk σ) (htasks : TaskOk σ)
    (hserv : serv ∈ σ.live) : FaultsOnly allowed (CpLibrary.acceptDelRegist σ' serv p rv) := by
  refine FaultsOnly.bind ?_ fun σ₁ h₁ => FaultsOnly.bind ?_ fun σ₂ h₂ => ?_
  · refine cpFdsDelSockRegistry_faultsOnly (fun q hq => ?_) fun q hq _ => ?_
    · cases hq
      exact h.mem_live
    · cases hq
      refine ⟨head, list ++ [p], h.rlist, h.home, ?_⟩
      rw [h.registry_eq h.other, Sys.listed, countAccept_registry,
        setRegistry_registry_self h.registry]
  · refine cpSockTerm_faultsOnly fun q hq => ?_
    cases hq
    rw [delSockRegistry_live h₁]
    exact h.mem_live
  · have hsame := (h.delSockRegistry_term h₁ h₂).1.same hregistry
    exact acceptExitOut_faultsOnly (htasks.same hsame) (by rwa [hsame.live])

theorem Intact.acceptRegist_faultsOnly {allowed : Fault → Prop} {os : AcceptRegistOs}
    (h : Intact σ n) (hvalid : σ.Valid sock) : FaultsOnly allowed (cpSockAcceptRegist σ sock os) := by
  cases sock with
  | none => exact .ok _ _
  | some serv =>
      have hserv := hvalid serv rfl
      simp only [cpSockAcceptRegist, Sys.load_of_mem hserv, ok_bind]
      split
      · exact acceptExitOut_faultsOnly h.tasks hserv
      · rename_i hroom
        split
        · rename_i σ₁ hinit
          rcases cpSockInit_cases σ true os.init with hnone | ⟨q, _, hsome⟩
          · rw [hnone] at hinit
            cases hinit
            exact acceptExitOut_faultsOnly h.tasks hserv
          · rw [hsome] at hinit
            cases hinit
        · rename_i p σ₁ hinit
          obtain ⟨hblank, hmem₁⟩ := Building.of_cpSockInit hinit
          have hbuilt := hblank.modify (f := fun new => { new with
            servSock := some serv, fds := (σ.mem serv).fds, privt := (σ.mem serv).privt,
            cbfunc := (σ.mem serv).clientFunc, mode := .accept }) rfl rfl rfl rfl rfl
          have hmem₂ := Sys.modify_same σ₁ p fun new => { new with
            servSock := some serv, fds := (σ.mem serv).fds, privt := (σ.mem serv).privt,
            cbfunc := (σ.mem serv).clientFunc, mode := .accept }
          generalize (σ₁.modify p fun new => { new with
            servSock := some serv, fds := (σ.mem serv).fds, privt := (σ.mem serv).privt,
            cbfunc := (σ.mem serv).clientFunc, mode := .accept }) = σ₂ at hbuilt hmem₂
          rw [hmem₁] at hmem₂
          have hne : serv ≠ p := hbuilt.ne hserv
          have hhome₂ : (σ₂.mem p).home = some (.accept serv) := by
            rw [hmem₂]
            rfl
          have hvalid₂ : σ₂.Valid (some p) := by
            intro q hq
            cases hq
            exact hbuilt.mem_live
          -- a socket with room for a client has a list
          have hlist : ∃ list, σ.registry (.accept serv) = .ok list := by
            cases hsome : (σ.mem serv).acceptList with
            | none =>
                have hfull := ((h.listen serv hserv).closed hsome).1
                omega
            | some list => exact ⟨list, Sys.registry_accept_ok_iff.mpr ⟨hserv, hsome⟩⟩
          refine FaultsOnly.bind (cpFdsAddSockRegistry_faultsOnly hvalid₂ ?_) fun r hadd => ?_
          · intro q head hq _ _ hhome
            cases hq
            rw [hhome₂] at hhome
            cases hhome
            rw [hbuilt.registry_eq (by simp [hne])]
            exact hlist
          obtain ⟨rv₃, σ₃⟩ := r
          rcases hbuilt.addSockRegistry (by rw [hmem₂]; rfl) (by rw [hhome₂]; simp [hne]) hadd with
            ⟨hrv, rfl⟩ | ⟨rfl, _, head, list, hhome, hlisted, hmem₃⟩
          · simp only [ne_eq, hrv, not_false_eq_true, if_true]
            refine FaultsOnly.bind (cpSockTerm_faultsOnly hvalid₂) fun τ hterm => ?_
            have hsame := (hbuilt.term hterm).1
            exact acceptExitOut_faultsOnly (h.tasks.same hsame) (by rwa [hsame.live])
          · simp only [ne_eq, not_true_eq_false, if_false]
            have hserv₃ : serv ∈ σ₃.live := by
              rw [hlisted.live, listed_live]
              exact Finset.mem_insert_of_mem hserv
            refine FaultsOnly.bind (cpSockAccept_faultsOnly hserv₃ hlisted.mem_live) fun r hacc => ?_
            obtain ⟨rv₄, σ₄⟩ := r
            have hfd : (σ₃.mem p).fd = -1 := by rw [hmem₃, hmem₂]; rfl
            obtain ⟨hrv₄, rfl⟩ | ⟨hrv₄, hint, _, hσ₄⟩ := cpSockAccept_cases hacc
            · simp only [hrv₄, not_false_eq_true, if_true]
              exact hlisted.acceptDelRegist_faultsOnly h.registry h.tasks hserv
            · have hmem₄ : σ₄.mem p = { σ₃.mem p with
                  fd := σ₃.kern.freshFd hint, mode := .accept, status := .already,
                  actvTime := os.accept.now } := by
                rw [hσ₄, Sys.modify_same]
              have hwired : Rewired σ₃ σ₄ p := by
                refine ⟨by rw [hσ₄]; rfl, by rw [hσ₄]; rfl, fun q hq => ?_, ⟨_, _, _, _, hmem₄⟩, ?_⟩
                · rw [hσ₄, Sys.modify_ne _ _ hq]
                · rw [hmem₄, hσ₄]
                  exact .opened hint
              have hlisted₄ := hlisted.rewired hfd hwired (by rw [hmem₄, hmem₃, hmem₂])
              simp only [hrv₄, not_true_eq_false, if_false]
              refine FaultsOnly.bind (cpAddEpollEvent_faultsOnly fun q hq => ?_) fun r hctl => ?_
              · cases hq
                exact hlisted₄.mem_live
              obtain ⟨rv₅, σ₅⟩ := r
              obtain ⟨_, ⟨hrv₅, hlisted₅⟩ | ⟨hrv₅, _⟩⟩ := hlisted₄.addEpollEvent hctl
              · simp only [hrv₅, not_false_eq_true, if_true]
                exact hlisted₅.acceptDelRegist_faultsOnly h.registry h.tasks hserv
              · simp only [hrv₅, not_true_eq_false, if_false]
                exact .pure _ _

/-- Every listen socket of every history counts its clients; and an accept, which
always returns, either has one client more, under epoll, or changes neither the
list nor a count and leaves no descriptor behind. -/
theorem listen_sockets_count_their_clients {kern kern' : Kernel} {malloced : Bool}
    {maxevents timeout : Int} {os : InitOs} {fds : Fds}
    (hinit : cpFdsInit kern malloced maxevents timeout os = some (fds, kern'))
    (hempty : ∀ fd, kern.epoll fd = none) (mem : SockId → Sock) {calls : List Call}
    (hcalls : Along Sys.call (fun σ c => InHistory σ c ∧ KeepsClients σ c) ⟨fds, mem, ∅, kern'⟩ calls)
    {σ : Sys} (hrun : exec Sys.call ⟨fds, mem, ∅, kern'⟩ calls = .ok σ) {serv : SockId}
    (hserv : serv ∈ σ.live) (hmode : (σ.mem serv).mode = .listen) :
    ∃ list, (σ.mem serv).acceptList = some list ∧ (σ.mem serv).acceptCnt = list.length ∧
      (σ.mem serv).acceptCnt ≤ (σ.mem serv).maxClient ∧
      ∀ os : AcceptRegistOs, (∀ hint, os.accept.accept = some hint → 0 < hint) →
        ∃ rv σ', cpSockAcceptRegist σ (some serv) os = .ok (rv, σ') ∧
          ((∃ p, p ∉ σ.live ∧ σ'.live = insert p σ.live ∧ (σ'.mem p).flag.epolled = true ∧
              (σ'.mem serv).acceptList = some (list ++ [p]) ∧
              (σ'.mem serv).acceptCnt = (σ.mem serv).acceptCnt + 1 ∧
              σ'.fds.eventCnt = σ.fds.eventCnt + 1) ∨
            (σ'.live = σ.live ∧ (σ'.mem serv).acceptList = some list ∧
              (σ'.mem serv).acceptCnt = (σ.mem serv).acceptCnt ∧
              σ'.fds.eventCnt = σ.fds.eventCnt ∧ σ'.kern = σ.kern)) := by
  obtain ⟨n, hσ⟩ : ∃ n, Intact σ n := exec_preserves (P := fun τ => ∃ n, Intact τ n)
    (fun τ c υ hok ⟨m, hτ⟩ hcall => hτ.call hok.1 hok.2 hcall)
    ⟨0, intact_start hinit hempty mem⟩ hcalls hrun
  have hcounted := hσ.listen serv hserv
  obtain ⟨list, hlist⟩ : ∃ list, (σ.mem serv).acceptList = some list := by
    cases hsome : (σ.mem serv).acceptList with
    | none => exact absurd hmode (hcounted.closed hsome).2
    | some list => exact ⟨list, rfl⟩
  obtain ⟨hcnt, hmax, _⟩ := hcounted.listening list hlist
  refine ⟨list, hlist, hcnt, hmax, fun os hpositive => ?_⟩
  have hvalid : σ.Valid (some serv) := by
    intro q hq
    cases hq
    exact hserv
  obtain ⟨⟨rv, σ'⟩, hcall⟩ := (hσ.acceptRegist_faultsOnly hvalid).exists_ok
  refine ⟨rv, σ', hcall, ?_⟩
  obtain ⟨_, ⟨τ, hsame, hdel, hkern⟩ | ⟨_, p, list', hjoined, _⟩⟩ :=
    acceptRegist_outcome hσ.registry hcall
  · have hview : σ'.view (·.eventCnt) (fun s => (s.acceptList, s.acceptCnt)) = τ.view _ _ ∧
        σ'.kern = τ.kern := cpFdsDelSockTask_view hdel (fun _ _ => rfl) fun _ _ _ _ => rfl
    obtain ⟨hcnt', hlive', hmem'⟩ := Sys.view_eq_iff.mp hview.1
    obtain ⟨hlist', hacc'⟩ := Prod.mk.inj (hmem' serv)
    rw [hsame.mem serv hserv] at hlist' hacc'
    refine Or.inr ⟨hlive'.trans hsame.live, hlist'.trans hlist, hacc', ?_,
      hview.2.trans (hkern hpositive)⟩
    rw [hcnt', hsame.fds]
  · obtain ⟨_, hlist'⟩ := Sys.registry_accept_ok_iff.mp hjoined.registry
    rw [hlist] at hlist'
    cases hlist'
    have hmem : (σ.listed (.accept serv) list p).mem serv = { σ.mem serv with
        acceptList := some (list ++ [p]), acceptCnt := (σ.mem serv).acceptCnt + 1 } := by
      simp only [Sys.listed, Sys.setRegistry, Sys.countAccept, Sys.modify_modify, Sys.modify_same]
    refine Or.inl ⟨p, hjoined.fresh, hjoined.live, hjoined.epolled, ?_, ?_, ?_⟩
    · rw [hjoined.mem serv hserv, hmem]
    · rw [hjoined.mem serv hserv, hmem]
    · rw [hjoined.fds]

private def freshContext : Sys :=
  ⟨⟨false, 3, 0, 8, 0, [], [], cpQueueInit 8, cpArrayInit 8⟩, fun _ => {}, ∅, Kernel.bare.openFd 3⟩

private def listenOnFour : Call :=
  .serverRegist 80 2 none none ⟨⟨some 1, 0⟩, ⟨true, some [.socket 4 true], true, 0⟩, true⟩

private def acceptOs (hint : Nat) (ctlAdd : Bool) : AcceptRegistOs :=
  ⟨⟨some hint, 0⟩, ⟨some (hint + 10), 0⟩, ctlAdd⟩

/-- One client is accepted, the next one refused by epoll. -/
private def acceptTwice : List Call :=
  [listenOnFour, .acceptRegist (some 1) (acceptOs 2 true), .acceptRegist (some 1) (acceptOs 3 false)]

theorem listen_socket_counts_one :
    cpFdsInit .bare false 8 0 ⟨true, true, some 3⟩ = some (freshContext.fds, freshContext.kern) ∧
      ∃ σ, exec Sys.call freshContext acceptTwice = .ok σ ∧ 1 ∈ σ.live ∧
        (σ.mem 1).mode = .listen ∧ ∃ list, (σ.mem 1).acceptList = some list ∧
          (σ.mem 1).acceptCnt = list.length ∧ (σ.mem 1).acceptCnt = 1 := by
  have hcalls : Along Sys.call (fun σ c => InHistory σ c ∧ KeepsClients σ c) freshContext
      acceptTwice :=
    ⟨⟨trivial, trivial⟩, fun _ _ => ⟨⟨trivial, trivial⟩, fun _ _ => ⟨⟨trivial, trivial⟩,
      fun _ _ => trivial⟩⟩⟩
  have hinit : cpFdsInit .bare false 8 0 ⟨true, true, some 3⟩ = some (freshContext.fds, _) := rfl
  obtain ⟨list, hlist, hcnt, _⟩ := listen_sockets_count_their_clients hinit (fun _ => rfl)
    (fun _ => {}) hcalls rfl (show 1 ∈ _ by decide) rfl
  exact ⟨rfl, _, rfl, by decide, rfl, list, hlist, hcnt, rfl⟩

end Fl2440.CpLibrary
