import Mathlib.Data.List.Nodup
import Fl2440.Lib.Run
import Fl2440.Gprs.Module

/-! The pool of data ports. `alloc_gsm_dataport` gives any caller the first port that is
free, the one that its comments keep for the PPP thread among them. -/
namespace Fl2440.Gprs

open Fl2440.Lib

/-- The module and who holds which of its ports. -/
structure DataPorts (α : Type) where
  module : ModuleInfo
  held : List (α × Nat)

inductive PortAct (α : Type) where
  | alloc (who : α)
  | free (who : α) (comport : Nat)

inductive NotHeld where
  | notHeld
deriving DecidableEq

namespace DataPorts

variable {α : Type}

def init (comport_cnt : Nat) : DataPorts α :=
  ⟨{ initGsmModule with comport := (List.range comport_cnt).map fun i => comportInit (dataportName i) }, []⟩

def ports (s : DataPorts α) : List Nat := s.held.map Prod.snd

def usedCount (module : ModuleInfo) : Nat := module.comport.countP ComPort.used

section Step

variable [DecidableEq α]

def step (s : DataPorts α) : PortAct α → Except NotHeld (DataPorts α)
  | .alloc who =>
      match allocGsmDataport false s.module with
      | (module, some i) => .ok ⟨module, s.held ++ [(who, i)]⟩
      | (module, none) => .ok ⟨module, s.held⟩
  | .free who comport =>
      if (who, comport) ∈ s.held then
        .ok ⟨(freeGsmDataport s.module comport).1, s.held.erase (who, comport)⟩
      else .error .notHeld

end Step

/-- `users` counts the used ports and the held ones, and no port is held twice. -/
structure Counted (s : DataPorts α) : Prop where
  used : s.module.users = usedCount s.module
  held : s.module.users = s.held.length
  exclusive : s.ports.Nodup

/-- The PPP thread gets a port when it has none. -/
def Reserved (ppp : α) (s : DataPorts α) : PortAct α → Prop
  | .alloc who => who = ppp → (∀ i, (ppp, i) ∉ s.held) → (allocGsmDataport false s.module).2 ≠ none
  | .free _ _ => True

/-- When the PPP thread asks for its port, the others have left one. -/
def LeavesPort (ppp : α) (comport_cnt : Nat) (s : DataPorts α) : PortAct α → Prop
  | .alloc who => who = ppp → (∀ i, (ppp, i) ∉ s.held) → s.held.length < comport_cnt
  | .free _ _ => True

structure Tracked (comport_cnt : Nat) (s : DataPorts α) : Prop where
  counted : Counted s
  length : s.module.comport.length = comport_cnt
  marked : ∀ i comport, s.module.comport[i]? = some comport → (comport.used = true ↔ i ∈ s.ports)
  ofModule : ∀ i ∈ s.ports, i < comport_cnt

theorem countP_modify {ports : List ComPort} {i : Nat} {comport : ComPort} (used : Bool)
    (hi : ports[i]? = some comport) (hused : comport.used = !used) :
    ((ports.modify i (setUsed used)).countP ComPort.used : Int) =
      ports.countP ComPort.used + if used then 1 else -1 := by
  induction ports generalizing i with
  | nil => cases hi
  | cons first rest ih =>
      cases i with
      | zero =>
          cases hi
          rw [List.modify_zero_cons, List.countP_cons, List.countP_cons, hused]
          cases used with
          | true => simp [setUsed]
          | false =>
              simp only [setUsed, Bool.not_false, if_true, Bool.false_eq_true, if_false]
              omega
      | succ i =>
          have hrest := ih hi
          rw [List.modify_succ_cons, List.countP_cons, List.countP_cons]
          omega

theorem allocGsmDataport_some {module module' : ModuleInfo} {i : Nat}
    (h : allocGsmDataport false module = (module', some i)) :
    (∃ comport, module.comport[i]? = some comport ∧ comport.used = false) ∧
      module' = { module with comport := module.comport.modify i (setUsed true), users := module.users + 1 } := by
  unfold allocGsmDataport at h
  rw [if_neg (by decide)] at h
  split at h
  next j hfind =>
    cases h
    obtain ⟨hlt, hfree, -⟩ := List.findIdx?_eq_some_iff_getElem.mp hfind
    exact ⟨⟨_, List.getElem?_eq_getElem hlt, by simpa using hfree⟩, rfl⟩
  next => cases h

theorem allocGsmDataport_none {module module' : ModuleInfo} (h : allocGsmDataport false module = (module', none)) :
    (∀ comport ∈ module.comport, comport.used = true) ∧ module' = module := by
  unfold allocGsmDataport at h
  rw [if_neg (by decide)] at h
  split at h
  next => cases h
  next hfind =>
    cases h
    refine ⟨fun comport hcomport => ?_, rfl⟩
    simpa using List.findIdx?_eq_none_iff.mp hfind comport hcomport

variable {comport_cnt : Nat} {s t : DataPorts α} {who : α} {i : Nat}

theorem Tracked.not_held (h : Tracked comport_cnt s) {comport : ComPort} (hi : s.module.comport[i]? = some comport)
    (hfree : comport.used = false) : i ∉ s.ports := by
  intro hmem
  rw [(h.marked i comport hi).mpr hmem] at hfree
  cases hfree

theorem ports_append (module : ModuleInfo) (held : List (α × Nat)) :
    ports ⟨module, held ++ [(who, i)]⟩ = held.map Prod.snd ++ [i] := List.map_append

theorem marked_modify {module : List ComPort} {ports ports' : List Nat} (used : Bool)
    (h : ∀ j comport, module[j]? = some comport → (comport.used = true ↔ j ∈ ports))
    (hself : i ∈ ports' ↔ used = true) (hother : ∀ j, j ≠ i → (j ∈ ports' ↔ j ∈ ports)) :
    ∀ j comport, (module.modify i (setUsed used))[j]? = some comport → (comport.used = true ↔ j ∈ ports') := by
  intro j comport hj
  rw [List.getElem?_modify] at hj
  by_cases hij : i = j
  · subst hij
    rw [hself]
    cases hmodule : module[i]? with
    | none => simp [hmodule] at hj
    | some before =>
        simp only [hmodule, Option.map_eq_map, Option.map_some, Option.some.injEq] at hj
        rw [← hj]
        exact Iff.rfl
  · rw [hother j (Ne.symm hij)]
    cases hmodule : module[j]? with
    | none => simp [hmodule] at hj
    | some before =>
        simp only [hmodule, if_neg hij, Option.map_eq_map, Option.map_some, Option.some.injEq] at hj
        exact hj ▸ h j before hmodule

theorem Tracked.alloc (h : Tracked comport_cnt s) {comport : ComPort} (hi : s.module.comport[i]? = some comport)
    (hfree : comport.used = false) :
    Tracked comport_cnt ⟨{ s.module with
        comport := s.module.comport.modify i (setUsed true)
        users := s.module.users + 1 }, s.held ++ [(who, i)]⟩ := by
  have hnot : i ∉ s.held.map Prod.snd := h.not_held hi hfree
  have hlt := (List.getElem?_eq_some_iff.mp hi).1
  refine ⟨⟨?_, ?_, ?_⟩, ?_, ?_, ?_⟩
  · show s.module.users + 1 = _
    rw [usedCount, countP_modify true hi hfree, h.counted.used]
    rfl
  · show s.module.users + 1 = _
    rw [List.length_append, h.counted.held]
    rfl
  · rw [ports_append]
    exact List.nodup_append.mpr ⟨h.counted.exclusive, List.nodup_singleton i,
      fun j hj k hk heq => hnot (by rw [List.mem_singleton] at hk; rwa [← hk, ← heq])⟩
  · exact (List.length_modify _ _ _).trans h.length
  · refine marked_modify true h.marked ?_ fun j hne => ?_
    · rw [ports_append]
      exact iff_of_true (List.mem_append_right _ List.mem_cons_self) rfl
    · rw [ports_append, List.mem_append, List.mem_singleton]
      exact ⟨fun hj => hj.resolve_right hne, .inl⟩
  · intro j hj
    rw [ports_append, List.mem_append, List.mem_singleton] at hj
    rcases hj with hj | rfl
    · exact h.ofModule j hj
    · exact h.length ▸ hlt

section Free

variable [DecidableEq α]

theorem map_erase_of_nodup {held : List (α × Nat)} (h : (held.map Prod.snd).Nodup) (hheld : (who, i) ∈ held) :
    (held.erase (who, i)).map Prod.snd = (held.map Prod.snd).erase i := by
  induction held with
  | nil => cases hheld
  | cons first rest ih =>
      rw [List.map_cons, List.nodup_cons] at h
      by_cases hfirst : first = (who, i)
      · subst hfirst
        rw [List.erase_cons_head, List.map_cons, List.erase_cons_head]
      · have hrest : (who, i) ∈ rest := (List.mem_cons.mp hheld).resolve_left (Ne.symm hfirst)
        have hport : first.2 ≠ i := fun heq => h.1 (heq ▸ List.mem_map_of_mem hrest)
        rw [List.erase_cons_tail (by simpa using hfirst), List.map_cons, List.map_cons,
          List.erase_cons_tail (by simpa using hport), ih h.2 hrest]

theorem ports_erase (h : s.ports.Nodup) (hheld : (who, i) ∈ s.held) (module : ModuleInfo) :
    ports ⟨module, s.held.erase (who, i)⟩ = s.ports.erase i := map_erase_of_nodup h hheld

theorem Tracked.free (h : Tracked comport_cnt s) (hheld : (who, i) ∈ s.held) :
    Tracked comport_cnt ⟨{ s.module with
        comport := s.module.comport.modify i (setUsed false)
        users := s.module.users - 1 }, s.held.erase (who, i)⟩ := by
  have hmem : i ∈ s.ports := List.mem_map_of_mem hheld
  have hlt : i < s.module.comport.length := h.length ▸ h.ofModule i hmem
  have hi := List.getElem?_eq_getElem hlt
  have hused := (h.marked i _ hi).mpr hmem
  have hpos : 0 < s.held.length := List.length_pos_of_mem hheld
  refine ⟨⟨?_, ?_, ?_⟩, ?_, ?_, ?_⟩
  · show s.module.users - 1 = _
    rw [usedCount, countP_modify false hi hused, h.counted.used]
    rfl
  · show s.module.users - 1 = _
    rw [List.length_erase_of_mem hheld, h.counted.held]
    omega
  · rw [ports_erase h.counted.exclusive hheld]
    exact h.counted.exclusive.erase i
  · exact (List.length_modify _ _ _).trans h.length
  · refine marked_modify false h.marked ?_ fun j hne => ?_
    · rw [ports_erase h.counted.exclusive hheld]
      exact iff_of_false h.counted.exclusive.not_mem_erase (by decide)
    · rw [ports_erase h.counted.exclusive hheld]
      exact List.mem_erase_of_ne hne
  · intro j hj
    rw [ports_erase h.counted.exclusive hheld] at hj
    exact h.ofModule j (List.mem_of_mem_erase hj)

theorem Tracked.next (h : Tracked comport_cnt s) {act : PortAct α} (ht : s.step act = .ok t) :
    Tracked comport_cnt t := by
  cases act with
  | alloc who =>
      rw [step] at ht
      split at ht
      next module i halloc =>
        cases ht
        obtain ⟨⟨comport, hi, hfree⟩, rfl⟩ := allocGsmDataport_some halloc
        exact h.alloc hi hfree
      next module halloc =>
        cases ht
        obtain ⟨-, rfl⟩ := allocGsmDataport_none halloc
        exact h
  | free who i =>
      rw [step] at ht
      split at ht
      next hheld =>
        cases ht
        have hlt : i < s.module.comport.length := h.length ▸ h.ofModule i (List.mem_map_of_mem hheld)
        rw [freeGsmDataport, if_pos hlt]
        exact h.free hheld
      next => cases ht

end Free

theorem tracked_init (comport_cnt : Nat) : Tracked comport_cnt (init comport_cnt : DataPorts α) := by
  have hnone : ∀ comport ∈ (init comport_cnt : DataPorts α).module.comport, comport.used = false := by
    intro comport hcomport
    obtain ⟨i, -, rfl⟩ := List.mem_map.mp hcomport
    rfl
  refine ⟨⟨?_, rfl, List.nodup_nil⟩, ?_, fun i comport hi => ?_, fun i hi => nomatch hi⟩
  · refine congrArg Nat.cast (Eq.symm ?_ : 0 = usedCount _)
    exact List.countP_eq_zero.mpr fun comport hcomport => by rw [hnone comport hcomport]; decide
  · exact (List.length_map _).trans List.length_range
  · rw [hnone comport (List.mem_of_getElem? hi)]
    exact iff_of_false (by decide) (fun hmem => nomatch hmem)

theorem Tracked.alloc_eq_none_iff (h : Tracked comport_cnt s) :
    (allocGsmDataport false s.module).2 = none ↔ comport_cnt ≤ s.held.length := by
  have hcount : (s.held.length : Int) = usedCount s.module := h.counted.held ▸ h.counted.used
  have hlength := h.length
  cases halloc : allocGsmDataport false s.module with
  | mk module comport =>
      cases comport with
      | none =>
          have hall := List.countP_eq_length.mpr (allocGsmDataport_none halloc).1
          rw [usedCount] at hcount
          exact iff_of_true rfl (by omega)
      | some i =>
          obtain ⟨⟨comport, hi, hfree⟩, -⟩ := allocGsmDataport_some halloc
          have hne : usedCount s.module ≠ s.module.comport.length := fun hall => by
            have hused := List.countP_eq_length.mp hall comport (List.mem_of_getElem? hi)
            rw [hfree] at hused
            cases hused
          have hle : usedCount s.module ≤ s.module.comport.length := List.countP_le_length
          exact iff_of_false (fun hnone => nomatch hnone) (by omega)

theorem Tracked.reserved_iff [DecidableEq α] (h : Tracked comport_cnt s) (ppp : α) (act : PortAct α) :
    Reserved ppp s act ↔ LeavesPort ppp comport_cnt s act := by
  cases act with
  | alloc who =>
      refine forall_congr' fun _ => forall_congr' fun _ => ?_
      rw [Ne, h.alloc_eq_none_iff, Nat.not_le]
  | free who i => exact Iff.rfl

theorem always_counted [DecidableEq α] (acts : List (PortAct α)) :
    ∀ {s : DataPorts α}, Tracked comport_cnt s → Always step Counted s acts := by
  induction acts with
  | nil => exact fun h => h.counted
  | cons act acts ih => exact fun h => ⟨h.counted, fun t ht => ih (h.next ht)⟩

/-- The counters are always right; the PPP thread gets its port when the others have left
it one. -/
theorem counted_reserved_iff [DecidableEq α] (ppp : α) (comport_cnt : Nat) (acts : List (PortAct α)) :
    Always step Counted (init comport_cnt) acts ∧ Along step (Reserved ppp) (init comport_cnt) acts ↔
      Along step (LeavesPort ppp comport_cnt) (init comport_cnt) acts := by
  have htracked := tracked_init (α := α) comport_cnt
  rw [and_iff_right (always_counted acts htracked)]
  exact along_iff_along (fun _ _ _ h => h.next) (fun _ act h => h.reserved_iff ppp act) htracked

/-- The only port goes to another caller, and the PPP thread gets none. -/
theorem first_port_not_preserved :
    ¬ ∀ (comport_cnt : Nat) (acts : List (PortAct String)), 1 ≤ comport_cnt →
      Always step Counted (init comport_cnt) acts ∧
        Along step (Reserved "start_ppp_connect()") (init comport_cnt) acts := by
  intro h
  obtain ⟨-, hfirst⟩ := h 1 [.alloc "atcmd_check_ready()", .alloc "start_ppp_connect()"] (by decide)
  have hsecond := (hfirst.2 _ rfl).1
  exact hsecond rfl (by simp [init]) rfl

end DataPorts

end Fl2440.Gprs
