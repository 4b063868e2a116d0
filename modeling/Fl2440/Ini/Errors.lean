import Fl2440.Ini.Lines

/-! Whether `iniparser_load` reports the syntax errors of a file: what each line is, what
the parser makes of the sequence of them, and when that is what it should be. -/
namespace Fl2440.Ini

open Fl2440.Lib

/-- What a joined line, or what is left of one, comes to: nothing, an entry, a syntax error
or an empty value; also a joined line that does not fit into the array, and a step that
looks at what was not written or writes past the end of an array. -/
inductive Mark where
  | skip
  | store
  | error
  | bare
  | long
  | undefined
deriving DecidableEq, Repr

def statusMark : LineStatus → Left → Mark
  | .empty, _ | .comment, _ => .skip
  | .section, _ => .store
  | .value .., .kept => .bare
  | .value .., _ => .store
  | .error, _ => .error

def leftOutside (line : List Byte) : Left → Bool
  | .from offset => line.length < offset
  | _ => false

def tmpOverflows (sect : List Byte) : LineStatus → Bool
  | .value key _ => asciilinesz < sect.length + 1 + key.length
  | _ => false

/-- `errs` over a sequence; `none` is a load that gives up at once. -/
def report : Nat → List Mark → Except Fault (Option Nat)
  | errs, [] => .ok (some errs)
  | errs, .skip :: marks => report errs marks
  | _, .store :: marks => report 0 marks
  | errs, .error :: marks => report (errs + 1) marks
  | _, .bare :: _ | _, .long :: _ => .ok none
  | _, .undefined :: _ => .error .bounds

section Report

variable {errs : Nat} {marks : List Mark}

def stops : Mark → Bool
  | .bare | .long | .undefined => true
  | _ => false

end Report

section Parser

variable {s : Loading} {text : List Byte}

theorem scanLine_from {line sect sect' : List Byte} {sta : LineStatus} {offset : Nat}
    (h : scanLine line sect = (sta, sect', .from offset)) : 0 < offset := by
  unfold scanLine at h
  split at h
  · cases h
  · split at h
    · cases h
    split at h
    · cases h
      exact Nat.succ_pos _
    split at h
    · cases h
      omega
    · split at h <;> cases h

theorem store_cases (s : Loading) (sta : LineStatus) (left : Left) (hleft : left ≠ .kept) :
    (tmpOverflows s.sect sta = true ∧ s.store sta = .error .bounds) ∨
      (tmpOverflows s.sect sta = false ∧ ∃ s', s.store sta = .ok s' ∧ s'.sect = s.sect ∧ s'.line = s.line ∧
        s'.last = s.last ∧ ∀ later, report s.errs (statusMark sta left :: later) = report s'.errs later) := by
  cases sta with
  | empty | comment | «section» | error => exact .inr ⟨rfl, _, rfl, rfl, rfl, rfl, fun _ => rfl⟩
  | value key value =>
      have hmark : statusMark (.value key value) left = .store := by
        cases left with
        | kept => exact absurd rfl hleft
        | cleared | «from» => rfl
      by_cases hfits : s.sect.length + 1 + key.length ≤ asciilinesz
      · refine .inr ⟨decide_eq_false (Nat.not_lt.mpr hfits), _, if_pos hfits, rfl, rfl, rfl, fun later => ?_⟩
        rw [hmark]
        rfl
      · exact .inl ⟨decide_eq_true (Nat.not_le.mp hfits), if_neg hfits⟩

theorem strstrip_ne_nil {line : List Byte} (h : line.rdropWhile isSpace = line) (hne : line ≠ []) :
    strstrip line ≠ [] := by
  intro hnil
  have hlast := List.rdropWhile_eq_self_iff.mp h hne
  have hall := List.rdropWhile_eq_nil_iff.mp hnil
  have hdrop : line.dropWhile isSpace ≠ [] := fun hempty =>
    hlast (List.dropWhile_eq_nil_iff.mp hempty _ (List.getLast_mem hne))
  have hsame : (line.dropWhile isSpace).getLast hdrop = line.getLast hne :=
    (line.dropWhile_suffix isSpace).getLast hdrop
  exact hlast (hsame ▸ hall _ (List.getLast_mem hdrop))

end Parser

section Lines

variable {s : Loading} {sect pending : List Byte} {line : TextLine}

inductive Agrees : Except Fault (Option Nat) → Except Fault (Option Loading) → Prop
  | fault : Agrees (.error .bounds) (.error .bounds)
  | null : Agrees (.ok none) (.ok none)
  | loaded (s : Loading) : Agrees (.ok (some s.errs)) (.ok (some s))

end Lines

end Fl2440.Ini
