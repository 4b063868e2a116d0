import Fl2440.Ini.OneLine

/-! `get_apn_conf` of `cp_ppp.c`: the account of an operator, out of a table with one operator
on each line. -/
namespace Fl2440.Gprs

open Fl2440.Lib
open Fl2440.Ini

def apnLen : Nat := 128

def uidLen : Nat := 64

def pwdLen : Nat := 64

structure ApnAccount where
  apn : List Byte
  uid : List Byte
  pwd : List Byte
  auth : List Byte
deriving DecidableEq

def ApnAccount.zero : ApnAccount where
  apn := List.replicate apnLen 0
  uid := List.replicate uidLen 0
  pwd := List.replicate pwdLen 0
  auth := List.replicate 10 0

/-- `iniparser_getstring` with NULL as its default. -/
def iniparserGetstring (d : Dictionary) (key : List Byte) : Option (List Byte) := (dictionaryGet d (strlwc key)).join

def apn3g : BitVec 8 := 3

def apnName (type : BitVec 8) : List Byte := if apn3g = type then ascii "3g_apn" else ascii "apn"

def uidName (type : BitVec 8) : List Byte := if apn3g = type then ascii "3g_uid" else ascii "uid"

def pwdName (type : BitVec 8) : List Byte := if apn3g = type then ascii "3g_pwd" else ascii "pwd"

/-- `snprintf` into `tmp[64]`. -/
def apnKey (ini_key name : List Byte) : List Byte := (ini_key ++ chr ':' :: name).take 63

def copyString (str : Option (List Byte)) (size : Nat) : Except Fault (List Byte) :=
  match str with
  | none => .error .null
  | some str => strncpy (str ++ [0]) size

def getApnConf (ini_name : Option (List Byte)) (ini_key : List Byte) (apn : ApnAccount) (type : BitVec 8) :
    Except Fault (Int × ApnAccount) := do
  let some file := ini_name | return (-2, apn)
  let some ini ← iniparserLoad file | return (-2, apn)
  let str := iniparserGetstring ini (apnKey ini_key (apnName type))
  if str.isNone then return (-1, .zero)
  else
    let apn := { apn with apn := ← copyString str apnLen }
    let str := iniparserGetstring ini (apnKey ini_key (uidName type))
    let apn := { apn with uid := ← copyString str uidLen }
    let str := iniparserGetstring ini (apnKey ini_key (pwdName type))
    let apn := { apn with pwd := ← copyString str pwdLen }
    return (0, apn)

/-- The value that the lines of a section give for a name, without blanks at its ends. -/
def valueGiven (table : List OneLine) (sect name : List Byte) : Option (List Byte) :=
  ((((table.filter fun l => strlwc l.sect.bytes = strlwc sect).flatMap (·.items)).reverse).find?
    fun i => strlwc i.key = name).map fun i => strstrip i.value

def FieldHolds (field : List Byte) (value : Option (List Byte)) : Prop := ∃ v, value = some v ∧ cstr field = .ok v

/-- An account is that of the section; where there is none, it is left alone or cleared. -/
structure AccountFound (table : List OneLine) (ini_key : List Byte) (old : ApnAccount) (type : BitVec 8) (retval : Int)
    (found : ApnAccount) : Prop where
  apn : retval = 0 → FieldHolds found.apn (valueGiven table ini_key (apnName type))
  uid : retval = 0 → FieldHolds found.uid (valueGiven table ini_key (uidName type))
  pwd : retval = 0 → FieldHolds found.pwd (valueGiven table ini_key (pwdName type))
  failed : retval ≠ 0 → found = old ∨ found = .zero

/-- What is stored for a name: behind a value with blanks at its ends the end of that value
is a part of the key. -/
def valueRead (table : List OneLine) (ini_key name : List Byte) : Option (List Byte) :=
  (lastGiven (table.flatMap OneLine.entries) (strlwc (apnKey ini_key name))).join

def ReadAsGiven (table : List OneLine) (ini_key name : List Byte) (size : Nat) : Prop :=
  ∃ v, valueRead table ini_key name = some v ∧ valueGiven table ini_key name = some v ∧ v.length < size

/-- The table ends in a syntax error, or there is no name of an access point, or all three
values are read as they are given. -/
def Answerable (table : List OneLine) (ini_key : List Byte) (type : BitVec 8) : Prop :=
  lastErrs table ≠ 0 ∨ valueRead table ini_key (apnName type) = none ∨
    ReadAsGiven table ini_key (apnName type) apnLen ∧
      ReadAsGiven table ini_key (uidName type) uidLen ∧
        ReadAsGiven table ini_key (pwdName type) pwdLen

section Field

variable {v : List Byte}

theorem copyString_some (hnul : (0 : Byte) ∉ v) (size : Nat) : ∃ field, copyString (some v) size = .ok field ∧
    ∀ w, cstr field = .ok w ↔ w = v ∧ v.length < size := by
  refine ⟨_, strncpy_terminated size hnul, fun w => ?_⟩
  by_cases hshort : v.length < size
  · obtain ⟨left, hleft⟩ : ∃ left, size - v.length = left + 1 := ⟨size - v.length - 1, by omega⟩
    rw [List.take_of_length_le (Nat.le_of_lt hshort), hleft, List.replicate_succ, cstr_terminated hnul]
    simp [hshort, eq_comm]
  · have hpast : cstr (v.take size) = .error .bounds := cstr_past fun hmem => hnul (List.mem_of_mem_take hmem)
    rw [Nat.sub_eq_zero_of_le (Nat.le_of_not_lt hshort), List.replicate_zero, List.append_nil, hpast]
    simp [hshort]

theorem fieldHolds_iff {given : Option (List Byte)} {field : List Byte} {size : Nat}
    (h : ∀ w, cstr field = .ok w ↔ w = v ∧ v.length < size) :
    FieldHolds field given ↔ given = some v ∧ v.length < size := by
  constructor
  · rintro ⟨w, hgiven, hw⟩
    obtain ⟨rfl, hshort⟩ := (h w).mp hw
    exact ⟨hgiven, hshort⟩
  · exact fun ⟨hgiven, hshort⟩ => ⟨v, hgiven, (h v).mpr ⟨rfl, hshort⟩⟩

end Field

section Table

variable {table : List OneLine} {ini_key name : List Byte} {old : ApnAccount} {type : BitVec 8}

theorem getstring_eq (table : List OneLine) (ini_key name : List Byte) :
    iniparserGetstring (setAll [] (table.flatMap OneLine.entries)) (apnKey ini_key name) = valueRead table ini_key name := by
  rw [iniparserGetstring, dictionaryGet_setAll_eq, valueRead]
  exact congrArg Option.join Option.or_none

theorem itemEntries_value {sect junk : List Byte} {items : List Item} {entry : List Byte × Option (List Byte)}
    (h : entry ∈ itemEntries sect junk items) : ∃ i ∈ items, entry.2 = some (strstrip i.value) := by
  induction items generalizing junk with
  | nil => cases h
  | cons i items ih =>
      rcases List.mem_cons.mp h with rfl | h
      · exact ⟨i, List.mem_cons_self, rfl⟩
      · obtain ⟨j, hj, hvalue⟩ := ih h
        exact ⟨j, List.mem_cons_of_mem i hj, hvalue⟩

theorem valueRead_plain {v : List Byte} (h : valueRead table ini_key name = some v) : (0 : Byte) ∉ v := by
  obtain ⟨value, hlast, hjoin⟩ : ∃ value, lastGiven (table.flatMap OneLine.entries) (strlwc (apnKey ini_key name)) =
      some value ∧ value = some v := by
    simpa [valueRead, Option.join_eq_some_iff] using h
  obtain ⟨entry, hfind, rfl⟩ := Option.map_eq_some_iff.mp hlast
  have hmem := List.mem_reverse.mp (List.mem_of_find?_eq_some hfind)
  obtain ⟨l, -, hentry⟩ := List.mem_flatMap.mp hmem
  rcases List.mem_cons.mp hentry with rfl | hentry
  · cases hjoin
  · obtain ⟨i, -, hvalue⟩ := itemEntries_value hentry
    cases hvalue.symm.trans hjoin
    exact fun hnul => (i.value_plain _ (strstrip_subset i.value hnul)).2.2.2 rfl

theorem getApnConf_eq (h : ∀ l ∈ table, ∀ i ∈ l.items, Harmless i.junk) :
    getApnConf (some (confFile table)) ini_key old type =
      if lastErrs table ≠ 0 then .ok (-2, old)
      else if (valueRead table ini_key (apnName type)).isNone then .ok (-1, .zero)
      else do
        let apn ← copyString (valueRead table ini_key (apnName type)) apnLen
        let uid ← copyString (valueRead table ini_key (uidName type)) uidLen
        let pwd ← copyString (valueRead table ini_key (pwdName type)) pwdLen
        return (0, ⟨apn, uid, pwd, old.auth⟩) := by
  have hload := iniparserLoad_oneLine h
  simp only [getApnConf, hload, ok_bind]
  by_cases herrs : lastErrs table ≠ 0
  · simp only [if_pos herrs]
    rfl
  · simp only [if_neg herrs, getstring_eq]
    split <;> rfl

theorem not_readAsGiven {size : Nat} (h : valueRead table ini_key name = none) :
    ¬ ReadAsGiven table ini_key name size := by
  rintro ⟨v, hread, -⟩
  cases h.symm.trans hread

theorem readAsGiven_iff {v field : List Byte} {size : Nat} (hread : valueRead table ini_key name = some v)
    (hfield : ∀ w, cstr field = .ok w ↔ w = v ∧ v.length < size) :
    ReadAsGiven table ini_key name size ↔ FieldHolds field (valueGiven table ini_key name) := by
  rw [fieldHolds_iff hfield, ReadAsGiven, hread]
  simp

/-- An account is found, or reported to be missing, if and only if the table answers. -/
theorem accountFound_iff (h : ∀ l ∈ table, ∀ i ∈ l.items, Harmless i.junk) (ini_key : List Byte) (old : ApnAccount)
    (type : BitVec 8) : (∃ retval found, getApnConf (some (confFile table)) ini_key old type = .ok (retval, found) ∧
      AccountFound table ini_key old type retval found) ↔ Answerable table ini_key type := by
  rw [getApnConf_eq h, Answerable]
  by_cases herrs : lastErrs table ≠ 0
  · rw [if_pos herrs]
    exact iff_of_true ⟨-2, old, rfl, fun h => absurd h (by decide), fun h => absurd h (by decide),
      fun h => absurd h (by decide), fun _ => .inl rfl⟩ (.inl herrs)
  rw [if_neg herrs, or_iff_right herrs]
  cases hapn : valueRead table ini_key (apnName type) with
  | none =>
      rw [if_pos (show (none : Option (List Byte)).isNone = true from rfl)]
      exact iff_of_true ⟨-1, .zero, rfl, fun h => absurd h (by decide), fun h => absurd h (by decide),
        fun h => absurd h (by decide), fun _ => .inr rfl⟩ (.inl rfl)
  | some apn =>
      obtain ⟨apnField, hapnCopy, hapnHolds⟩ := copyString_some (valueRead_plain hapn) apnLen
      rw [if_neg (by simp), or_iff_right (Option.some_ne_none apn), hapnCopy, ok_bind]
      cases huid : valueRead table ini_key (uidName type) with
      | none => exact iff_of_false (fun ⟨_, _, hok, _⟩ => nomatch hok) fun h => not_readAsGiven huid h.2.1
      | some uid =>
          obtain ⟨uidField, huidCopy, huidHolds⟩ := copyString_some (valueRead_plain huid) uidLen
          rw [huidCopy, ok_bind]
          cases hpwd : valueRead table ini_key (pwdName type) with
          | none => exact iff_of_false (fun ⟨_, _, hok, _⟩ => nomatch hok) fun h => not_readAsGiven hpwd h.2.2
          | some pwd =>
              obtain ⟨pwdField, hpwdCopy, hpwdHolds⟩ := copyString_some (valueRead_plain hpwd) pwdLen
              rw [hpwdCopy, ok_bind, readAsGiven_iff hapn hapnHolds, readAsGiven_iff huid huidHolds,
                readAsGiven_iff hpwd hpwdHolds]
              constructor
              · rintro ⟨_, _, ⟨rfl, rfl⟩, hfound⟩
                exact ⟨hfound.apn rfl, hfound.uid rfl, hfound.pwd rfl⟩
              · rintro ⟨ha, hu, hp⟩
                exact ⟨0, _, rfl, fun _ => ha, fun _ => hu, fun _ => hp, fun h => absurd rfl h⟩

end Table

section Examples

def noUid : Item := ⟨ascii " ", ascii "uid", [], by decide +kernel, by decide +kernel, by decide +kernel, by decide +kernel, by decide +kernel⟩

def noPwd : Item := ⟨ascii " ", ascii "pwd", [], by decide +kernel, by decide +kernel, by decide +kernel, by decide +kernel, by decide +kernel⟩

def cmnet : OneLine where
  sect := ⟨ascii "460-00", by decide +kernel, ⟨⟨_, rfl, by decide +kernel⟩, _, rfl, by decide +kernel⟩⟩
  items := [⟨ascii "  ", ascii "apn", ascii "cmnet", by decide +kernel, by decide +kernel, by decide +kernel, by decide +kernel, by decide +kernel⟩, noUid, noPwd]
  trailing := ascii " "
  blank := by decide +kernel
  short := by decide +kernel

/-- Its access point has a blank in front. -/
def fastweb : OneLine where
  sect := ⟨ascii "222-99", by decide +kernel, ⟨⟨_, rfl, by decide +kernel⟩, _, rfl, by decide +kernel⟩⟩
  items := [⟨ascii "  ", ascii "apn", ascii " apn.fastweb.it", by decide +kernel, by decide +kernel, by decide +kernel, by decide +kernel, by decide +kernel⟩,
    noUid, noPwd]
  trailing := []
  blank := by decide +kernel
  short := by decide +kernel

def uninet : OneLine where
  sect := ⟨ascii "460-01", by decide +kernel, ⟨⟨_, rfl, by decide +kernel⟩, _, rfl, by decide +kernel⟩⟩
  items := [⟨ascii "  ", ascii "apn", ascii "uninet", by decide +kernel, by decide +kernel, by decide +kernel, by decide +kernel, by decide +kernel⟩,
    ⟨ascii " ", ascii "uid", ascii "wap", by decide +kernel, by decide +kernel, by decide +kernel, by decide +kernel, by decide +kernel⟩,
    ⟨ascii " ", ascii "pwd", ascii "none", by decide +kernel, by decide +kernel, by decide +kernel, by decide +kernel, by decide +kernel⟩]
  trailing := ascii " "
  blank := by decide +kernel
  short := by decide +kernel

def carriers : List OneLine := [fastweb, cmnet, uninet]

theorem accountFound_iff_carriers : (∃ retval found,
    getApnConf (some (confFile carriers)) (ascii "460-01") .zero 2 = .ok (retval, found) ∧
      AccountFound carriers (ascii "460-01") .zero 2 retval found) ↔ Answerable carriers (ascii "460-01") 2 := by
  have hplain : ∀ l ∈ carriers, ∀ i ∈ l.items, chr '=' ∉ i.junk := by decide +kernel
  have hhead : ∀ l ∈ carriers, ∀ i ∈ l.items, ∀ b ∈ (i.junk.dropWhile isSpace).head?,
      b ≠ chr '[' ∧ b ≠ chr ';' ∧ b ≠ chr '#' := by decide +kernel
  have hlast : ∀ l ∈ carriers, ∀ i ∈ l.items, i.junk = [] ∨ i.junk.getLast? = some quote := by decide +kernel
  exact accountFound_iff (fun l hl i hi => ⟨hplain l hl i hi, hhead l hl i hi, hlast l hl i hi⟩) (ascii "460-01") .zero 2

/-- Without a user name it passes NULL on. -/
theorem fastweb_not_found : ¬ ∀ (table : List OneLine) (ini_key : List Byte) (old : ApnAccount) (type : BitVec 8),
    ∃ retval found, getApnConf (some (confFile table)) ini_key old type = .ok (retval, found) ∧
      AccountFound table ini_key old type retval found := by
  intro h
  obtain ⟨retval, found, hok, -⟩ := h [fastweb] (ascii "222-99") .zero 2
  have hnull : getApnConf (some (confFile [fastweb])) (ascii "222-99") .zero 2 = .error .null := by decide +kernel
  cases hok.symm.trans hnull

end Examples

end Fl2440.Gprs
