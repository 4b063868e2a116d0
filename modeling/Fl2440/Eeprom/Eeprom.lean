import Mathlib.Data.List.Induction
import Fl2440.Lib.CString
import Fl2440.Lib.Trace

/-! `eeprom.c`. Serial number, MAC address and user name stand in one device of 256 bytes.
The device works: what is written or read is cut short only at its end. -/
namespace Fl2440.Eeprom

open Fl2440.Lib

abbrev eepromSize : Nat := 256

abbrev snOffset : Nat := 0x0

abbrev snLen : Nat := 14

abbrev macOffset : Nat := 0x10

abbrev macLen : Nat := 18

abbrev userOffset : Nat := 0x30

abbrev userLen : Nat := 24

def zeros : Mem := fun _ => 0

/-- An error is a failed write, with what the device holds after it. -/
def writeEeprom (dev : Mem) (offset : Nat) (data : Mem) (len : Nat) : Except Mem Mem :=
  if eepromSize ≤ offset ∨ len = 0 then .error dev
  else
    let written := min len (eepromSize - offset)
    if written ≠ len then .error (dev.copy offset data written) else .ok (dev.copy offset data written)

def readEeprom (dev : Mem) (offset : Nat) (buf : Mem) (size : Nat) : Except Unit Mem :=
  if eepromSize ≤ offset ∨ size = 0 then .error ()
  else
    let got := min size (eepromSize - offset)
    if got ≠ size then .error () else .ok (buf.copy 0 (fun i => dev (offset + i)) got)

def snText (sn : BitVec 32) : List Byte := ascii "LY-FL2440-" ++ formatHex 3 sn

def macText (sn : BitVec 32) : List Byte := ascii "00:05:69:00:00:" ++ formatInt 2 sn

/-- The buffer is cleared with the device, and is what is written into both. -/
def clearEeprom (dev buf : Mem) (sn : BitVec 32) (user : Option (List Byte)) : Except Mem (Mem × Mem) :=
  if sn ≠ 0 ∧ user ≠ none then do
    let dev ← writeEeprom dev 0 zeros eepromSize
    pure (dev, zeros)
  else pure (dev, buf)

def writeSn (dev buf : Mem) (sn : BitVec 32) : Except Mem Mem :=
  if sn ≠ 0 then do
    let buf := snprintf buf snLen (snText sn)
    let dev ← writeEeprom dev snOffset buf snLen
    let buf := snprintf buf macLen (macText sn)
    writeEeprom dev macOffset buf macLen
  else pure dev

def writeUser (dev : Mem) : Option (List Byte) → Except Mem Mem
  | none => pure dev
  | some name => writeEeprom dev userOffset (Mem.ofBytes name) name.length

/-- `main` with `-w`. `buf` is what stands on the stack, and `sn` is 0 and `user` NULL without
their options; an error is a jump to `cleanup`. -/
def writeMode (dev buf : Mem) (sn : BitVec 32) (user : Option (List Byte)) : Except Mem Mem := do
  let (dev, buf) ← clearEeprom dev buf sn user
  let dev ← writeSn dev buf sn
  writeUser dev user

def writeHwinfoFile (sn mac user : List Byte) : List Byte :=
  (ascii "SN=" ++ sn ++ ascii "\nMAC=" ++ mac ++ ascii "\nUSER=" ++ user ++ ascii "\n").take (256 - 1)

/-- The strings that are printed, where they end before their arrays do, and `HWINFO_FILE`. -/
structure Report where
  sn : Except Fault (List Byte)
  mac : Except Fault (List Byte)
  user : Except Fault (List Byte)
  hwinfo : Except Fault (List Byte)

def readMode (dev : Mem) : Except Unit Report := do
  let sn ← readEeprom dev snOffset zeros snLen
  let mac ← readEeprom dev macOffset zeros macLen
  let user ← readEeprom dev userOffset zeros userLen
  let sn := cstr (sn.bytes 0 snLen)
  let mac := cstr (mac.bytes 0 macLen)
  let user := cstr (user.bytes 0 userLen)
  pure ⟨sn, mac, user, do pure (writeHwinfoFile (← sn) (← mac) (← user))⟩

structure WriteRun where
  sn : BitVec 32
  user : Option (List Byte)
  buf : Mem
  given : sn ≠ 0 ∨ user ≠ none
  named : ∀ name, user = some name → 0 < name.length ∧ name.length < userLen ∧ (0 : Byte) ∉ name

namespace WriteRun

/-- What the device holds after the run, also after a failed one. -/
def after (dev : Mem) (run : WriteRun) : Mem :=
  match writeMode dev run.buf run.sn run.user with
  | .ok dev => dev
  | .error dev => dev

def Clears (run : WriteRun) : Prop := run.sn ≠ 0 ∧ run.user ≠ none

def nameLength (run : WriteRun) : Nat := (run.user.getD []).length

end WriteRun

def serialNumber (sn : BitVec 32) : List Byte := (snText sn).take (snLen - 1)

def macAddress (sn : BitVec 32) : List Byte := (macText sn).take (macLen - 1)

def lastSn (runs : List WriteRun) : Option (BitVec 32) :=
  runs.reverse.findSome? fun run => if run.sn ≠ 0 then some run.sn else none

def lastUser (runs : List WriteRun) : Option (List Byte) := runs.reverse.findSome? WriteRun.user

/-- What a read after the runs reports, beside what it would have reported before them. -/
def RoundTrips (dev : Mem) (runs : List WriteRun) : Prop :=
  ∃ before report, readMode dev = .ok before ∧ readMode (runs.foldl WriteRun.after dev) = .ok report ∧
    (∀ sn, lastSn runs = some sn → report.sn = .ok (serialNumber sn) ∧ report.mac = .ok (macAddress sn)) ∧
    (∀ name, lastUser runs = some name → report.user = .ok name) ∧
    ((∀ run ∈ runs, run.user = none) → report.user = before.user) ∧
    ((∀ run ∈ runs, run.sn = 0) → report.sn = before.sn ∧ report.mac = before.mac)

/-- A byte of the user name that is not NUL: a longer name has been written, or it was there
from the start, and the device has not been cleared since. -/
def Stale (dev : Mem) (runs : List WriteRun) (p : Nat) : Prop :=
  (∃ past run future, runs = past ++ run :: future ∧ p < run.nameLength ∧ ∀ later ∈ future, ¬ later.Clears) ∨
    dev (userOffset + p) ≠ 0 ∧ ∀ run ∈ runs, ¬ run.Clears

variable {dev data buf : Mem} {offset len size : Nat} {sn : BitVec 32} {run : WriteRun} {runs : List WriteRun}

theorem writeEeprom_eq (hlen : 0 < len) (hsize : offset + len ≤ eepromSize) :
    writeEeprom dev offset data len = .ok (dev.copy offset data len) := by
  have hmin : min len (eepromSize - offset) = len := by omega
  simp only [writeEeprom, hmin]
  rw [if_neg (by omega), if_neg (by simp)]

theorem readEeprom_eq (hlen : 0 < size) (hsize : offset + size ≤ eepromSize) :
    readEeprom dev offset buf size = .ok (buf.copy 0 (fun i => dev (offset + i)) size) := by
  have hmin : min size (eepromSize - offset) = size := by omega
  simp only [readEeprom, hmin]
  rw [if_neg (by omega), if_neg (by simp)]

theorem bytes_copy_block (offset size : Nat) :
    (buf.copy 0 (fun i => dev (offset + i)) size).bytes 0 size = dev.bytes offset size := by
  apply List.map_congr_left
  intro i hi
  rw [Mem.copy_inside _ _ (List.mem_range.mp hi)]

theorem readMode_eq (dev : Mem) : readMode dev = .ok
    { sn := cstr (dev.bytes snOffset snLen)
      mac := cstr (dev.bytes macOffset macLen)
      user := cstr (dev.bytes userOffset userLen)
      hwinfo := do pure (writeHwinfoFile (← cstr (dev.bytes snOffset snLen))
        (← cstr (dev.bytes macOffset macLen)) (← cstr (dev.bytes userOffset userLen))) } := by
  rw [readMode, readEeprom_eq (by decide) (by decide), readEeprom_eq (by decide) (by decide),
    readEeprom_eq (by decide) (by decide)]
  simp only [ok_bind, bytes_copy_block]
  rfl

def withSn (dev buf : Mem) (sn : BitVec 32) : Mem :=
  (dev.copy snOffset (snprintf buf snLen (snText sn)) snLen).copy macOffset
    (snprintf (snprintf buf snLen (snText sn)) macLen (macText sn)) macLen

theorem writeSn_eq (h : sn ≠ 0) : writeSn dev buf sn = .ok (withSn dev buf sn) := by
  simp only [writeSn, writeEeprom_eq (by decide : 0 < snLen) (by decide : snOffset + snLen ≤ eepromSize), ok_bind]
  rw [if_pos h, writeEeprom_eq (by decide) (by decide)]
  rfl

theorem writeUser_eq {name : List Byte} (huser : run.user = some name) :
    writeUser dev (some name) = .ok (dev.copy userOffset (Mem.ofBytes name) name.length) := by
  have hname := run.named name huser
  apply writeEeprom_eq hname.1
  simp only [userOffset, eepromSize, userLen] at hname ⊢
  omega

theorem after_user {name : List Byte} (hsn : run.sn = 0) (huser : run.user = some name) :
    run.after dev = dev.copy userOffset (Mem.ofBytes name) name.length := by
  rw [WriteRun.after, writeMode, clearEeprom, if_neg fun h => h.1 hsn, huser]
  simp only [pure, Except.pure, ok_bind, writeSn]
  rw [if_neg fun h => h hsn, ok_bind, writeUser_eq huser]

theorem after_sn (hsn : run.sn ≠ 0) (huser : run.user = none) : run.after dev = withSn dev run.buf run.sn := by
  rw [WriteRun.after, writeMode, clearEeprom, if_neg fun h => h.2 huser, huser]
  simp only [pure, Except.pure, ok_bind, writeSn_eq hsn, writeUser]

theorem after_both {name : List Byte} (hsn : run.sn ≠ 0) (huser : run.user = some name) :
    run.after dev = (withSn (dev.copy 0 zeros eepromSize) zeros run.sn).copy userOffset
      (Mem.ofBytes name) name.length := by
  rw [WriteRun.after, writeMode, clearEeprom, if_pos ⟨hsn, by simp [huser]⟩,
    writeEeprom_eq (by decide) (by decide), huser]
  simp only [pure, Except.pure, ok_bind, writeSn_eq hsn, writeUser_eq huser]

theorem bytes_withSn_sn (dev buf : Mem) (sn : BitVec 32) :
    (withSn dev buf sn).bytes snOffset snLen = serialNumber sn ++ [0] := by
  have htext : 13 ≤ (snText sn).length := by
    have := le_length_zeroPadded 3 (numeral 16 sn.toNat)
    simp [snText, formatHex, ascii]
    omega
  rw [withSn, Mem.bytes_copy_outside _ _ (.inl (by decide)), Mem.bytes_copy_same, bytes_snprintf buf htext]
  rfl

theorem bytes_withSn_mac (dev buf : Mem) (sn : BitVec 32) :
    (withSn dev buf sn).bytes macOffset macLen = macAddress sn ++ [0] := by
  have htext : 17 ≤ (macText sn).length := by
    have := le_length_formatInt 2 sn
    simp [macText, ascii]
    omega
  rw [withSn, Mem.bytes_copy_same, bytes_snprintf _ htext]
  rfl

theorem withSn_behind {i : Nat} (dev buf : Mem) (sn : BitVec 32) (h : userOffset ≤ i) : withSn dev buf sn i = dev i := by
  rw [withSn, Mem.copy_outside _ _ (.inr (Nat.le_trans (by decide) h)),
    Mem.copy_outside _ _ (.inr (Nat.le_trans (by decide) h))]

theorem after_behind {i : Nat} (hsn : run.sn ≠ 0) (huser : run.user = none) (h : userOffset ≤ i) :
    run.after dev i = dev i := by
  rw [after_sn hsn huser, withSn_behind dev run.buf run.sn h]

theorem bytes_after_front {value : BitVec 32 → List Byte} (hfront : offset + size ≤ userOffset)
    (hvalue : ∀ dev buf sn, (withSn dev buf sn).bytes offset size = value sn) (dev : Mem) (run : WriteRun) :
    (run.after dev).bytes offset size = if run.sn = 0 then dev.bytes offset size else value run.sn := by
  by_cases hsn : run.sn = 0
  · obtain ⟨name, huser⟩ := Option.ne_none_iff_exists'.mp (run.given.resolve_left fun h => h hsn)
    rw [if_pos hsn, after_user hsn huser, Mem.bytes_copy_outside _ _ (.inl hfront)]
  · rw [if_neg hsn]
    cases huser : run.user with
    | none => rw [after_sn hsn huser, hvalue]
    | some name => rw [after_both hsn huser, Mem.bytes_copy_outside _ _ (.inl hfront), hvalue]

theorem bytes_after_sn (dev : Mem) (run : WriteRun) :
    (run.after dev).bytes snOffset snLen =
      if run.sn = 0 then dev.bytes snOffset snLen else serialNumber run.sn ++ [0] :=
  bytes_after_front (by decide) bytes_withSn_sn dev run

theorem bytes_after_mac (dev : Mem) (run : WriteRun) :
    (run.after dev).bytes macOffset macLen =
      if run.sn = 0 then dev.bytes macOffset macLen else macAddress run.sn ++ [0] :=
  bytes_after_front (by decide) bytes_withSn_mac dev run

theorem bytes_after_user (dev : Mem) (run : WriteRun) (k : Nat) :
    (run.user = none → (run.after dev).bytes userOffset k = dev.bytes userOffset k) ∧
      ∀ name, run.user = some name → (run.after dev).bytes userOffset name.length = name := by
  constructor
  · intro huser
    have hsn := run.given.resolve_right fun h => h huser
    apply List.map_congr_left
    intro i _
    exact after_behind hsn huser (Nat.le_add_right _ i)
  · intro name huser
    by_cases hsn : run.sn = 0
    · rw [after_user hsn huser, Mem.bytes_copy_same, Mem.bytes_ofBytes]
    · rw [after_both hsn huser, Mem.bytes_copy_same, Mem.bytes_ofBytes]

theorem after_user_ne_zero_iff {p : Nat} (dev : Mem) (run : WriteRun) (hp : p < userLen) :
    run.after dev (userOffset + p) ≠ 0 ↔
      p < run.nameLength ∨ ¬ run.Clears ∧ dev (userOffset + p) ≠ 0 := by
  cases huser : run.user with
  | none =>
      have hsn := run.given.resolve_right fun h => h huser
      rw [after_behind hsn huser (Nat.le_add_right _ p)]
      simp [WriteRun.nameLength, WriteRun.Clears, huser]
  | some name =>
      have hname := run.named name huser
      have hlength : run.nameLength = name.length := by simp [WriteRun.nameLength, huser]
      have hsource : p < name.length → Mem.ofBytes name p ≠ 0 := fun h hzero => hname.2.2 <| by
        rw [Mem.ofBytes, List.getD_eq_getElem?_getD, List.getElem?_eq_getElem h, Option.getD_some] at hzero
        exact hzero ▸ List.getElem_mem h
      by_cases hlt : p < name.length
      · have hinside : run.after dev (userOffset + p) = Mem.ofBytes name p := by
          by_cases hsn : run.sn = 0
          · rw [after_user hsn huser, Mem.copy_inside _ _ hlt]
          · rw [after_both hsn huser, Mem.copy_inside _ _ hlt]
        rw [hinside, hlength]
        exact iff_of_true (hsource hlt) (.inl hlt)
      · have hbehind : userOffset + p < userOffset ∨ userOffset + name.length ≤ userOffset + p := by omega
        by_cases hsn : run.sn = 0
        · rw [after_user hsn huser, Mem.copy_outside _ _ hbehind]
          simp [hlength, hlt, WriteRun.Clears, hsn]
        · have hclears : run.Clears := ⟨hsn, by simp [huser]⟩
          have hcleared : dev.copy 0 zeros eepromSize (0 + (userOffset + p)) = 0 := by
            apply Mem.copy_inside
            simp only [userOffset, eepromSize, userLen] at hp ⊢
            omega
          rw [Nat.zero_add] at hcleared
          rw [after_both hsn huser, Mem.copy_outside _ _ hbehind, withSn_behind _ _ _ (Nat.le_add_right _ p),
            hcleared, hlength]
          exact iff_of_false (fun h => h rfl) (not_or.mpr ⟨hlt, fun h => h.1 hclears⟩)

@[simp] theorem lastSn_snoc (runs : List WriteRun) (run : WriteRun) :
    lastSn (runs ++ [run]) = if run.sn = 0 then lastSn runs else some run.sn := by
  rw [lastSn, List.reverse_append, List.reverse_singleton, List.singleton_append, List.findSome?_cons, lastSn]
  by_cases hsn : run.sn = 0
  · rw [if_neg fun h => h hsn, if_pos hsn]
  · rw [if_pos hsn, if_neg hsn]

@[simp] theorem lastUser_snoc (runs : List WriteRun) (run : WriteRun) :
    lastUser (runs ++ [run]) = run.user.or (lastUser runs) := by
  cases huser : run.user <;> simp [lastUser, huser]

theorem bytes_runs_front {value : BitVec 32 → List Byte}
    (hstep : ∀ dev (run : WriteRun), (run.after dev).bytes offset size =
      if run.sn = 0 then dev.bytes offset size else value run.sn) (dev : Mem) (runs : List WriteRun) :
    (runs.foldl WriteRun.after dev).bytes offset size = (lastSn runs).elim (dev.bytes offset size) value := by
  induction runs using List.reverseRecOn with
  | nil => rfl
  | append_singleton runs run ih =>
      rw [List.foldl_append, List.foldl_cons, List.foldl_nil, hstep, ih, lastSn_snoc]
      split <;> rfl

theorem bytes_runs_user (dev : Mem) (runs : List WriteRun) (k : Nat) :
    (lastUser runs = none → (runs.foldl WriteRun.after dev).bytes userOffset k = dev.bytes userOffset k) ∧
      ∀ name, lastUser runs = some name →
        (runs.foldl WriteRun.after dev).bytes userOffset name.length = name := by
  induction runs using List.reverseRecOn generalizing k with
  | nil => exact ⟨fun _ => rfl, fun _ h => nomatch h⟩
  | append_singleton runs run ih =>
      rw [List.foldl_append, List.foldl_cons, List.foldl_nil, lastUser_snoc]
      have hafter := fun k => bytes_after_user (runs.foldl WriteRun.after dev) run k
      cases huser : run.user with
      | none =>
          refine ⟨fun h => ((hafter k).1 huser).trans ((ih k).1 h), fun name h => ?_⟩
          exact ((hafter name.length).1 huser).trans ((ih k).2 name h)
      | some last =>
          refine ⟨fun h => (nomatch h), fun name h => ?_⟩
          cases h
          exact (hafter k).2 last huser

theorem stale_snoc (dev : Mem) (runs : List WriteRun) (run : WriteRun) (p : Nat) :
    Stale dev (runs ++ [run]) p ↔ p < run.nameLength ∨ ¬ run.Clears ∧ Stale dev runs p := by
  constructor
  · rintro (⟨past, long, future, hruns, hlong, hkept⟩ | ⟨hdev, hkept⟩)
    · rcases split_snoc hruns with ⟨between, rfl, hfirst⟩ | ⟨rfl, -, -⟩
      · refine .inr ⟨hkept run (by simp), .inl ⟨past, long, between, hfirst, hlong, fun later h => ?_⟩⟩
        exact hkept later (List.mem_append_left _ h)
      · exact .inl hlong
    · exact .inr ⟨hkept run (by simp), .inr ⟨hdev, fun one h => hkept one (List.mem_append_left _ h)⟩⟩
  · rintro (hlong | ⟨hkeep, hstale⟩)
    · exact .inl ⟨runs, run, [], rfl, hlong, nofun⟩
    · have hsnoc : ∀ {list : List WriteRun}, (∀ one ∈ list, ¬ one.Clears) → ∀ one ∈ list ++ [run], ¬ one.Clears := by
        intro list hlist one hone
        rcases List.mem_append.mp hone with h | h
        · exact hlist one h
        · rwa [List.mem_singleton.mp h]
      rcases hstale with ⟨past, long, future, rfl, hlong, hkept⟩ | ⟨hdev, hkept⟩
      · exact .inl ⟨past, long, future ++ [run], by simp, hlong, hsnoc hkept⟩
      · exact .inr ⟨hdev, hsnoc hkept⟩

theorem runs_user_ne_zero_iff {p : Nat} (dev : Mem) (runs : List WriteRun) (hp : p < userLen) :
    runs.foldl WriteRun.after dev (userOffset + p) ≠ 0 ↔ Stale dev runs p := by
  induction runs using List.reverseRecOn with
  | nil => simp [Stale]
  | append_singleton runs run ih =>
      rw [List.foldl_append, List.foldl_cons, List.foldl_nil, after_user_ne_zero_iff _ _ hp, stale_snoc, ih]

theorem lastUser_named {name : List Byte} (h : lastUser runs = some name) : name.length < userLen ∧ (0 : Byte) ∉ name := by
  obtain ⟨run, -, huser⟩ := List.exists_of_findSome?_eq_some h
  exact (run.named name huser).2

theorem user_reported_iff {name : List Byte} (h : lastUser runs = some name) :
    cstr ((runs.foldl WriteRun.after dev).bytes userOffset userLen) = .ok name ↔ ¬ Stale dev runs name.length := by
  obtain ⟨hlen, hnul⟩ := lastUser_named h
  obtain ⟨k, hk⟩ := Nat.exists_eq_add_of_lt hlen
  rw [← runs_user_ne_zero_iff dev runs hlen, not_not]
  rw [hk, Nat.add_assoc, Mem.bytes_add, (bytes_runs_user dev runs 0).2 name h, Mem.bytes_succ]
  exact cstr_append_iff hnul

theorem zero_notMem_serialNumber (sn : BitVec 32) : (0 : Byte) ∉ serialNumber sn := by
  intro h
  rcases List.mem_append.mp (List.mem_of_mem_take h) with h | h
  · exact absurd h (by decide)
  · exact zero_notMem_formatHex 3 sn h

theorem zero_notMem_macAddress (sn : BitVec 32) : (0 : Byte) ∉ macAddress sn := by
  intro h
  rcases List.mem_append.mp (List.mem_of_mem_take h) with h | h
  · exact absurd h (by decide)
  · exact zero_notMem_formatInt 2 sn h

theorem bytes_runs_sn (dev : Mem) (runs : List WriteRun) :
    (runs.foldl WriteRun.after dev).bytes snOffset snLen =
      (lastSn runs).elim (dev.bytes snOffset snLen) fun sn => serialNumber sn ++ [0] :=
  bytes_runs_front bytes_after_sn dev runs

theorem bytes_runs_mac (dev : Mem) (runs : List WriteRun) :
    (runs.foldl WriteRun.after dev).bytes macOffset macLen =
      (lastSn runs).elim (dev.bytes macOffset macLen) fun sn => macAddress sn ++ [0] :=
  bytes_runs_front bytes_after_mac dev runs

/-- Only the name can come back wrong: it is written without its NUL. -/
theorem readBack_iff (dev : Mem) (runs : List WriteRun) :
    RoundTrips dev runs ↔ ∀ name, lastUser runs = some name → ¬ Stale dev runs name.length := by
  have hsn := bytes_runs_sn dev runs
  have hmac := bytes_runs_mac dev runs
  constructor
  · rintro ⟨before, report, -, hreport, -, hname, -⟩ name hlast
    rw [readMode_eq] at hreport
    cases hreport
    exact (user_reported_iff hlast).mp (hname name hlast)
  · intro hclean
    refine ⟨_, _, readMode_eq dev, readMode_eq _, ?_, ?_, ?_, ?_⟩
    · intro sn hlast
      rw [hlast] at hsn hmac
      exact ⟨(congrArg cstr hsn).trans (cstr_terminated (zero_notMem_serialNumber sn)),
        (congrArg cstr hmac).trans (cstr_terminated (zero_notMem_macAddress sn))⟩
    · intro name hlast
      exact (user_reported_iff hlast).mpr (hclean name hlast)
    · intro hnone
      apply congrArg cstr
      apply (bytes_runs_user dev runs userLen).1
      simpa [lastUser] using hnone
    · intro hzero
      have hlast : lastSn runs = none := by simpa [lastSn] using hzero
      rw [hlast] at hsn hmac
      exact ⟨congrArg cstr hsn, congrArg cstr hmac⟩

def shorterName : List WriteRun :=
  [⟨0, some (ascii "lingyun"), zeros, by decide, by intro name h; cases h; decide⟩,
   ⟨0, some (ascii "gw"), zeros, by decide, by intro name h; cases h; decide⟩]

theorem shorter_name_not_reported : ¬ ∀ dev runs, RoundTrips dev runs := by
  intro h
  obtain ⟨-, report, -, hreport, -, hname, -⟩ := h zeros shorterName
  have hread := hname (ascii "gw") rfl
  rw [readMode_eq] at hreport
  cases hreport
  exact absurd hread (by decide)

end Fl2440.Eeprom
