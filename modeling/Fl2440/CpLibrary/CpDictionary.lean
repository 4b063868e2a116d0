import Fl2440.Lib.Slots
import Fl2440.Ini.Entries

/-! `cp_dictionary.c`: the arrays `key`, `val` and `hash` of a dictionary, slot by slot. Memory is
always there, and `size` stays an `int`. -/
namespace Fl2440.CpLibrary.Dictionary

open Fl2440.Lib Fl2440.Lib.Slots

structure Slot where
  key : Option (List Byte)
  val : Option (List Byte)
  hash : BitVec 32
deriving DecidableEq, Inhabited

def Slot.free : Slot := ⟨none, none, 0⟩

def Slot.entry (s : Slot) : Option (List Byte × Option (List Byte)) := s.key.map (·, s.val)

structure Dict where
  n : Nat
  slots : List Slot
deriving DecidableEq

def dictminsz : Int := 128

def dictionaryHash (key : List Byte) : BitVec 32 :=
  let hash := key.foldl (fun (hash : BitVec 32) c =>
    let hash := hash + c.zeroExtend 32
    let hash := hash + (hash <<< 10)
    hash ^^^ (hash >>> 6)) 0
  let hash := hash + (hash <<< 3)
  let hash := hash ^^^ (hash >>> 11)
  hash + (hash <<< 15)

def dictionaryNew (size : Int) : Dict :=
  ⟨0, List.replicate (if size < dictminsz then dictminsz else size).toNat Slot.free⟩

/-- The loop over the slots in `dictionary_get`, `dictionary_set` and `dictionary_unset`. -/
def findSlot (key : List Byte) (slots : List Slot) : Option Nat :=
  slots.findIdx? fun s => s.key.isSome && dictionaryHash key == s.hash && s.key == some key

def dictionaryGet (d : Dict) (key : List Byte) (dflt : Option (List Byte)) : Option (List Byte) :=
  ((findSlot key d.slots).bind (d.slots[·]?)).elim dflt (·.val)

def memDouble (slots : List Slot) : List Slot := slots ++ List.replicate slots.length Slot.free

/-- `dictionary_set`; `none` where the search for a free slot does not end or leaves the arrays. -/
def dictionarySet (d : Dict) (key : Option (List Byte)) (val : Option (List Byte)) : Option (Int × Dict) :=
  key.elim (some (-1, d)) fun key =>
    let found := if d.n > 0 then findSlot key d.slots else none
    match found with
    | some i => some (0, { d with slots := d.slots.modify i ({ · with val }) })
    | none =>
        let slots := if d.n = d.slots.length then memDouble d.slots else d.slots
        (probe Slot.entry slots slots.length d.n).map fun i =>
          (0, ⟨d.n + 1, slots.set i ⟨some key, val, dictionaryHash key⟩⟩)

def dictionaryUnset (d : Dict) (key : Option (List Byte)) : Dict :=
  (key.bind (findSlot · d.slots)).elim d fun i => ⟨d.n - 1, d.slots.set i Slot.free⟩

inductive DictOp where
  | set (key val : Option (List Byte))
  | unset (key : Option (List Byte))
  | get (key : List Byte) (dflt : Option (List Byte))

inductive Reply where
  | code (rv : Int)
  | done
  | pointer (val : Option (List Byte))
deriving DecidableEq

def dictStep (d : Dict) : DictOp → Option (Reply × Dict)
  | .set key val => (dictionarySet d key val).map fun r => (.code r.1, r.2)
  | .unset key => some (.done, dictionaryUnset d key)
  | .get key dflt => some (.pointer (dictionaryGet d key dflt), d)

def dictRun (d : Dict) : List DictOp → Option (List Reply × Dict)
  | [] => some ([], d)
  | op :: ops =>
      (dictStep d op).bind fun r => (dictRun r.2 ops).map fun rest => (r.1 :: rest.1, rest.2)

/-- What a dictionary stands for. A key that is there may have no value. -/
abbrev Contents := List Byte → Option (Option (List Byte))

def contentsStep (m : Contents) : DictOp → Reply × Contents
  | .set none _ => (.code (-1), m)
  | .set (some key) val => (.code 0, Function.update m key (some val))
  | .unset none => (.done, m)
  | .unset (some key) => (.done, Function.update m key none)
  | .get key dflt => (.pointer ((m key).getD dflt), m)

def contentsRun (m : Contents) : List DictOp → List Reply × Contents
  | [] => ([], m)
  | op :: ops =>
      let r := contentsStep m op
      let rest := contentsRun r.2 ops
      (r.1 :: rest.1, rest.2)

structure Dict.Holds (d : Dict) (m : Contents) : Prop where
  size_pos : 0 < d.slots.length
  count : d.n = (entries Slot.entry d.slots).length
  hashed : ∀ s ∈ d.slots, ∀ k, s.key = some k → s.hash = dictionaryHash k
  contents : Represents (entries Slot.entry d.slots) m

variable {d d' : Dict} {m : Contents} {key k : List Byte} {val dflt v : Option (List Byte)} {slots : List Slot}
  {i : Nat} {s : Slot}

@[simp]
theorem entry_free : Slot.free.entry = none := rfl

@[simp]
theorem entry_key : Slot.entry ⟨some k, v, dictionaryHash key⟩ = some (k, v) := rfl

theorem entry_of_key (h : s.key = some k) : s.entry = some (k, s.val) := by
  rw [Slot.entry, h]
  rfl

theorem key_of_entry (h : s.entry = some (k, v)) : s.key = some k := by
  obtain ⟨k', hk, heq⟩ := Option.map_eq_some_iff.mp h
  rw [hk, (Prod.mk.inj heq).1]

theorem findSlot_some (h : findSlot key slots = some i) : ∃ s, slots[i]? = some s ∧ s.key = some key := by
  obtain ⟨hi, hmatch, -⟩ := List.findIdx?_eq_some_iff_getElem.mp h
  simp only [Bool.and_eq_true, beq_iff_eq] at hmatch
  exact ⟨_, List.getElem?_eq_getElem hi, hmatch.2⟩

theorem findSlot_none (hashed : ∀ s ∈ slots, ∀ k, s.key = some k → s.hash = dictionaryHash k)
    (h : findSlot key slots = none) : ∀ s ∈ slots, s.key ≠ some key := by
  intro s hs hkey
  have hmatch := List.findIdx?_eq_none_iff.mp h s hs
  simp [hkey, hashed s hs key hkey] at hmatch

namespace Dict.Holds

theorem of_found (h : d.Holds m) (hfound : findSlot key d.slots = some i) :
    ∃ s, d.slots[i]? = some s ∧ s.key = some key ∧ m key = some s.val := by
  obtain ⟨s, hs, hkey⟩ := findSlot_some hfound
  have hmem := mem_entries.mpr ⟨s, List.mem_of_getElem? hs, entry_of_key hkey⟩
  exact ⟨s, hs, hkey, (h.contents.mem key s.val).mp hmem⟩

theorem of_not_found (h : d.Holds m) (hfound : findSlot key d.slots = none) : m key = none := by
  refine h.contents.eq_none fun p hp heq => ?_
  obtain ⟨s, hs, hentry⟩ := mem_entries.mp hp
  exact findSlot_none h.hashed hfound s hs (heq ▸ key_of_entry hentry)

theorem get_eq (h : d.Holds m) : dictionaryGet d key dflt = (m key).getD dflt := by
  rw [dictionaryGet]
  cases hfound : findSlot key d.slots with
  | none => rw [h.of_not_found hfound]; rfl
  | some i =>
      obtain ⟨s, hs, -, hval⟩ := h.of_found hfound
      rw [Option.bind_some, hs, hval]
      rfl

theorem double (h : d.Holds m) : Dict.Holds ⟨d.n, memDouble d.slots⟩ m where
  size_pos := by
    rw [memDouble, List.length_append]
    exact Nat.add_pos_left h.size_pos _
  count := h.count.trans (by rw [memDouble, entries_append_empty entry_free])
  hashed := by
    intro s hs k hkey
    rcases List.mem_append.mp hs with hold | hnew
    · exact h.hashed s hold k hkey
    · rw [List.eq_of_mem_replicate hnew] at hkey
      cases hkey
  contents := by
    rw [memDouble, entries_append_empty entry_free]
    exact h.contents

theorem hashed_set (h : d.Holds m) (new : Slot) (hnew : ∀ k, new.key = some k → new.hash = dictionaryHash k)
    (i : Nat) :
    ∀ s ∈ d.slots.set i new, ∀ k, s.key = some k → s.hash = dictionaryHash k := by
  intro s hs
  rcases List.mem_or_eq_of_mem_set hs with hold | rfl
  · exact h.hashed s hold
  · exact hnew

theorem modify (h : d.Holds m) (hs : d.slots[i]? = some s) (hkey : s.key = some key) (val : Option (List Byte)) :
    Dict.Holds ⟨d.n, d.slots.set i { s with val }⟩ (Function.update m key (some val)) := by
  have hnew : Slot.entry { s with val } = some (key, val) := entry_of_key hkey
  obtain ⟨a, b, hold, hset⟩ := entries_replace hs (entry_of_key hkey) hnew
  refine ⟨by rw [List.length_set]; exact h.size_pos, ?_,
    h.hashed_set { s with val } (h.hashed s (List.mem_of_getElem? hs)) i, ?_⟩
  · rw [h.count, hold, hset, List.length_append, List.length_append]
    rfl
  · have hcontents := h.contents
    rw [hold] at hcontents
    rw [hset]
    exact hcontents.replace val

theorem fill (h : d.Holds m) (hs : d.slots[i]? = some s) (hfree : s.entry = none) (hkey : m key = none)
    (val : Option (List Byte)) :
    Dict.Holds ⟨d.n + 1, d.slots.set i ⟨some key, val, dictionaryHash key⟩⟩
      (Function.update m key (some val)) := by
  have hentry : Slot.entry ⟨some key, val, dictionaryHash key⟩ = some (key, val) := entry_key
  have hperm := entries_fill hs hfree hentry
  refine ⟨by rw [List.length_set]; exact h.size_pos, ?_,
    h.hashed_set ⟨some key, val, dictionaryHash key⟩ (fun k hk => by rw [Option.some.inj hk]) i, ?_⟩
  · rw [hperm.length_eq, h.count, List.length_cons]
  · exact (h.contents.insert hkey val).perm hperm

theorem clear (h : d.Holds m) (hs : d.slots[i]? = some s) (hkey : s.key = some key) :
    Dict.Holds ⟨d.n - 1, d.slots.set i Slot.free⟩ (Function.update m key none) := by
  have hperm := entries_clear hs (entry_of_key hkey) entry_free
  refine ⟨by rw [List.length_set]; exact h.size_pos, ?_, h.hashed_set .free (fun k hk => by cases hk) i, ?_⟩
  · rw [h.count, hperm.length_eq, List.length_cons, Nat.add_sub_cancel]
  · exact (h.contents.perm hperm.symm).erase

theorem probe_free (h : d.Holds m) (hn : d.n < d.slots.length) :
    ∃ i s, probe Slot.entry d.slots d.slots.length d.n = some i ∧ d.slots[i]? = some s ∧ s.entry = none := by
  obtain ⟨j, t, hj, hfree⟩ := exists_free (h.count ▸ hn)
  obtain ⟨i, hprobe⟩ := probe_length hn hj hfree
  obtain ⟨s, hs, hempty⟩ := probe_some hprobe
  exact ⟨i, s, hprobe, hs, hempty⟩

theorem add (h : d.Holds m) (hn : d.n < d.slots.length) (hkey : m key = none) (val : Option (List Byte)) :
    ∃ slots, (probe Slot.entry d.slots d.slots.length d.n).map (fun i =>
        ((0 : Int), (⟨d.n + 1, d.slots.set i ⟨some key, val, dictionaryHash key⟩⟩ : Dict))) =
        some (0, ⟨d.n + 1, slots⟩) ∧
      Dict.Holds ⟨d.n + 1, slots⟩ (Function.update m key (some val)) := by
  obtain ⟨i, s, hprobe, hs, hfree⟩ := h.probe_free hn
  exact ⟨_, by rw [hprobe]; rfl, h.fill hs hfree hkey val⟩

theorem count_le (h : d.Holds m) : d.n ≤ d.slots.length := h.count ▸ length_entries_le

theorem found_eq (h : d.Holds m) :
    (if d.n > 0 then findSlot key d.slots else none) = findSlot key d.slots := by
  split_ifs with hn
  · rfl
  · cases hfound : findSlot key d.slots with
    | none => rfl
    | some i =>
        obtain ⟨s, hs, hkey, -⟩ := h.of_found hfound
        have hmem := mem_entries.mpr ⟨s, List.mem_of_getElem? hs, entry_of_key hkey⟩
        have := List.length_pos_of_mem hmem
        have := h.count
        omega

theorem lt_double (h : d.Holds m) (hfull : d.n = d.slots.length) : d.n < (memDouble d.slots).length := by
  have := h.size_pos
  rw [memDouble, List.length_append, List.length_replicate]
  omega

theorem set_spec (h : d.Holds m) (key : List Byte) (val : Option (List Byte)) :
    ∃ d', dictionarySet d (some key) val = some (0, d') ∧ d'.Holds (Function.update m key (some val)) := by
  simp only [dictionarySet, Option.elim_some, h.found_eq]
  cases hfound : findSlot key d.slots with
  | some i =>
      obtain ⟨s, hs, hkey, -⟩ := h.of_found hfound
      refine ⟨_, rfl, ?_⟩
      rw [List.modify_eq_set, hs]
      exact h.modify hs hkey val
  | none =>
      have hnew := h.of_not_found hfound
      by_cases hfull : d.n = d.slots.length
      · obtain ⟨slots, hset, hholds⟩ := h.double.add (h.lt_double hfull) hnew val
        rw [if_pos hfull]
        exact ⟨_, hset, hholds⟩
      · obtain ⟨slots, hset, hholds⟩ := h.add (lt_of_le_of_ne h.count_le hfull) hnew val
        rw [if_neg hfull]
        exact ⟨_, hset, hholds⟩

theorem unset_spec (h : d.Holds m) (key : List Byte) :
    (dictionaryUnset d (some key)).Holds (Function.update m key none) := by
  rw [dictionaryUnset, Option.bind_some]
  cases hfound : findSlot key d.slots with
  | some i =>
      obtain ⟨s, hs, hkey, -⟩ := h.of_found hfound
      exact h.clear hs hkey
  | none =>
      rw [Function.update_eq_self_iff.mpr (h.of_not_found hfound).symm]
      exact h

theorem step (h : d.Holds m) (op : DictOp) :
    ∃ d', dictStep d op = some ((contentsStep m op).1, d') ∧ d'.Holds (contentsStep m op).2 := by
  match op with
  | .set none val => exact ⟨d, rfl, h⟩
  | .set (some key) val =>
      obtain ⟨d', hset, hholds⟩ := h.set_spec key val
      exact ⟨d', by rw [dictStep, hset]; rfl, hholds⟩
  | .unset none => exact ⟨d, rfl, h⟩
  | .unset (some key) => exact ⟨_, rfl, h.unset_spec key⟩
  | .get key dflt => exact ⟨d, by rw [dictStep, h.get_eq]; rfl, h⟩

theorem run (h : d.Holds m) (ops : List DictOp) :
    ∃ d', dictRun d ops = some ((contentsRun m ops).1, d') ∧ d'.Holds (contentsRun m ops).2 := by
  induction ops generalizing d m with
  | nil => exact ⟨d, rfl, h⟩
  | cons op ops ih =>
      obtain ⟨d₁, hstep, h₁⟩ := h.step op
      obtain ⟨d₂, hrest, h₂⟩ := ih h₁
      exact ⟨d₂, by rw [dictRun, hstep, Option.bind_some, hrest]; rfl, h₂⟩

end Dict.Holds

theorem dictionaryNew_holds (size : Int) : (dictionaryNew size).Holds fun _ => none where
  size_pos := by
    rw [dictionaryNew, List.length_replicate, dictminsz]
    split_ifs <;> omega
  count := by rw [dictionaryNew, entries, List.filterMap_replicate_of_none entry_free]; rfl
  hashed := by
    intro s hs k hkey
    rw [List.eq_of_mem_replicate hs] at hkey
    cases hkey
  contents := by
    rw [dictionaryNew, entries, List.filterMap_replicate_of_none entry_free]
    exact represents_nil

/-- Whatever is asked of a new dictionary, every search for a slot ends, the answers are those of the
map, and the slots hold each of its keys once. -/
theorem dictionaryNew_run (size : Int) (ops : List DictOp) :
    ∃ d, dictRun (dictionaryNew size) ops = some ((contentsRun (fun _ => none) ops).1, d) ∧
      d.n = (entries Slot.entry d.slots).length ∧
      Represents (entries Slot.entry d.slots) (contentsRun (fun _ => none) ops).2 := by
  obtain ⟨d, hrun, hholds⟩ := (dictionaryNew_holds size).run ops
  exact ⟨d, hrun, hholds.count, hholds.contents⟩

/-- Nothing stands behind the first `n` slots, as long as no key has been removed. -/
def Dict.Packed (d : Dict) : Prop := d.slots.drop d.n = List.replicate (d.slots.length - d.n) Slot.free

namespace Dict.Packed

theorem free_at (hp : d.Packed) (hi : d.n ≤ i) (hs : d.slots[i]? = some s) : s = Slot.free := by
  have hdrop : (d.slots.drop d.n)[i - d.n]? = some s := by rw [List.getElem?_drop, Nat.add_sub_cancel' hi, hs]
  rw [hp] at hdrop
  exact List.eq_of_mem_replicate (List.mem_of_getElem? hdrop)

theorem double (hp : d.Packed) (hfull : d.n = d.slots.length) : Dict.Packed ⟨d.n, memDouble d.slots⟩ := by
  rw [Packed, memDouble, List.drop_append_of_le_length (Nat.le_of_eq hfull), hp, List.length_append,
    List.length_replicate, List.replicate_append_replicate, Nat.sub_add_comm (Nat.le_of_eq hfull)]

theorem probe_eq (hp : d.Packed) (hn : d.n < d.slots.length) :
    probe Slot.entry d.slots d.slots.length d.n = some d.n := by
  have hs := List.getElem?_eq_getElem hn
  have hlen : d.slots.length = d.slots.length - 1 + 1 := by omega
  rw [hlen]
  exact probe_here hs (by rw [hp.free_at (Nat.le_refl _) hs]; rfl) _

theorem fill (hp : d.Packed) (new : Slot) :
    Dict.Packed ⟨d.n + 1, d.slots.set d.n new⟩ := by
  rw [Packed, List.drop_set_of_lt (Nat.lt_succ_self _), List.length_set, Nat.succ_eq_add_one, ← List.drop_drop, hp,
    List.drop_replicate, Nat.sub_sub]

theorem entries_fill (hp : d.Packed) (hn : d.n < d.slots.length) {new : Slot} {e : List Byte × Option (List Byte)}
    (hnew : new.entry = some e) :
    entries Slot.entry (d.slots.set d.n new) = entries Slot.entry d.slots ++ [e] := by
  have htail := hp.fill new
  have hold : d.slots = d.slots.take d.n ++ List.replicate (d.slots.length - d.n) Slot.free := by
    conv_lhs => rw [← List.take_append_drop d.n d.slots, hp]
  have hset : d.slots.set d.n new = (d.slots.take d.n ++ [new]) ++
      List.replicate (d.slots.length - (d.n + 1)) Slot.free := by
    rw [Packed, List.length_set] at htail
    rw [← htail, List.drop_set_of_lt (Nat.lt_succ_self _), List.set_eq_take_append_cons_drop, if_pos hn,
      List.append_assoc, List.singleton_append]
  conv_rhs => rw [hold, entries_append_empty entry_free]
  rw [hset, entries_append_empty entry_free, entries, entries, List.filterMap_append,
    List.filterMap_cons_some hnew, List.filterMap_nil]

theorem modify (hp : d.Packed) (hs : d.slots[i]? = some s) (hkey : s.key = some key) (new : Slot) :
    Dict.Packed ⟨d.n, d.slots.set i new⟩ := by
  have hi : i < d.n := by
    by_contra hge
    rw [hp.free_at (by omega) hs] at hkey
    cases hkey
  rw [Packed, List.drop_set_of_lt hi, List.length_set]
  exact hp

end Dict.Packed

theorem dictionarySet_middle {a b : Ini.Dictionary} {old : Option (List Byte)}
    (hnodup : ((a ++ (key, old) :: b).map (·.1)).Nodup) (val : Option (List Byte)) :
    Ini.dictionarySet (a ++ (key, old) :: b) key val = a ++ (key, val) :: b := by
  induction a with
  | nil => exact if_pos rfl
  | cons entry a ih =>
      obtain ⟨hnew, hrest⟩ := List.nodup_cons.mp hnodup
      have hne : entry.1 ≠ key := fun heq => hnew (by simp [heq])
      rw [List.cons_append, Ini.dictionarySet, if_neg hne, ih hrest]
      rfl

theorem dictionarySet_new {l : Ini.Dictionary} (hnew : ∀ e ∈ l, e.1 ≠ key) (val : Option (List Byte)) :
    Ini.dictionarySet l key val = l ++ [(key, val)] := by
  induction l with
  | nil => rfl
  | cons entry l ih =>
      rw [Ini.dictionarySet, if_neg (hnew entry List.mem_cons_self),
        ih fun e he => hnew e (List.mem_cons_of_mem _ he)]
      rfl

namespace Dict.Holds

theorem forall_ne_of_none (h : d.Holds m) (hkey : m key = none) :
    ∀ e ∈ entries Slot.entry d.slots, e.1 ≠ key := by
  rintro ⟨k, v⟩ he rfl
  rw [h.contents.mem, hkey] at he
  cases he

theorem add_packed (h : d.Holds m) (hp : d.Packed) (hn : d.n < d.slots.length) (hkey : m key = none)
    (val : Option (List Byte)) :
    ∃ d', (probe Slot.entry d.slots d.slots.length d.n).map (fun i =>
        ((0 : Int), (⟨d.n + 1, d.slots.set i ⟨some key, val, dictionaryHash key⟩⟩ : Dict))) = some (0, d') ∧
      d'.Packed ∧ entries Slot.entry d'.slots = Ini.dictionarySet (entries Slot.entry d.slots) key val := by
  refine ⟨_, by rw [hp.probe_eq hn]; rfl, hp.fill _, ?_⟩
  rw [dictionarySet_new (h.forall_ne_of_none hkey)]
  exact hp.entries_fill hn rfl

theorem set_packed (h : d.Holds m) (hp : d.Packed) (key : List Byte) (val : Option (List Byte)) :
    ∃ d', dictionarySet d (some key) val = some (0, d') ∧ d'.Packed ∧
      entries Slot.entry d'.slots = Ini.dictionarySet (entries Slot.entry d.slots) key val := by
  simp only [dictionarySet, Option.elim_some, h.found_eq]
  cases hfound : findSlot key d.slots with
  | some i =>
      obtain ⟨s, hs, hkey, -⟩ := h.of_found hfound
      have hnew : Slot.entry { s with val } = some (key, val) := entry_of_key hkey
      obtain ⟨a, b, hold, hset⟩ := entries_replace hs (entry_of_key hkey) hnew
      have hnodup := h.contents.nodup
      rw [hold] at hnodup
      refine ⟨_, rfl, ?_⟩
      rw [List.modify_eq_set, hs]
      exact ⟨hp.modify hs hkey _, by rw [hold, dictionarySet_middle hnodup]; exact hset⟩
  | none =>
      have hnew := h.of_not_found hfound
      by_cases hfull : d.n = d.slots.length
      · have hsame : entries Slot.entry (memDouble d.slots) = entries Slot.entry d.slots :=
          entries_append_empty entry_free _
        rw [if_pos hfull, ← hsame]
        exact h.double.add_packed (hp.double hfull) (h.lt_double hfull) hnew val
      · rw [if_neg hfull]
        exact h.add_packed hp (lt_of_le_of_ne h.count_le hfull) hnew val

theorem run_set (h : d.Holds m) (hp : d.Packed) (given : Ini.Dictionary) :
    ∃ replies d', dictRun d (given.map fun e => .set (some e.1) e.2) = some (replies, d') ∧
      entries Slot.entry d'.slots = Ini.setAll (entries Slot.entry d.slots) given := by
  induction given generalizing d m with
  | nil => exact ⟨[], d, rfl, rfl⟩
  | cons e given ih =>
      obtain ⟨d₁, hset, hp₁, hentries⟩ := h.set_packed hp e.1 e.2
      obtain ⟨d₂, hset', h₁⟩ := h.set_spec e.1 e.2
      obtain rfl : d₁ = d₂ := (Prod.mk.inj (Option.some.inj (hset.symm.trans hset'))).2
      obtain ⟨replies, d', hrun, hall⟩ := ih h₁ hp₁
      refine ⟨.code 0 :: replies, d', ?_, ?_⟩
      · rw [List.map_cons, dictRun, dictStep, hset, Option.map_some, Option.bind_some, hrun]
        rfl
      · rw [hall, hentries]
        rfl

end Dict.Holds

/-- The slots that `iniparser_load` fills one entry after the other. -/
theorem dictionaryNew_sets (size : Int) (given : Ini.Dictionary) :
    ∃ replies d, dictRun (dictionaryNew size) (given.map fun e => .set (some e.1) e.2) = some (replies, d) ∧
      entries Slot.entry d.slots = Ini.setAll [] given := by
  have hpacked : (dictionaryNew size).Packed := by
    rw [Dict.Packed, dictionaryNew, List.drop_zero, List.length_replicate]
    rfl
  obtain ⟨replies, d, hrun, hentries⟩ := (dictionaryNew_holds size).run_set hpacked given
  have hempty : entries Slot.entry (dictionaryNew size).slots = [] :=
    List.filterMap_replicate_of_none entry_free
  exact ⟨replies, d, hrun, hempty ▸ hentries⟩

end Fl2440.CpLibrary.Dictionary
