import Fl2440.Ini.CpIniparser

/-! `iniparser_load` line by line: what one `fgets` takes of a file of short lines, and how
often the parser goes back for what is left of a line. -/
namespace Fl2440.Ini

open Fl2440.Lib

variable {s s' : Loading} {line rest text : List Byte}

def Loading.joined (s : Loading) (line : List Byte) : List Byte := s.line.take s.last ++ line

/-- One line of the file, and the way back for all that is left of it. -/
def lineStep (s : Loading) (line : List Byte) : Except Fault (Option Loading) :=
  continueParser (s.joined line ++ [newline]).length { s with line := s.joined line ++ [newline] }

theorem takeWhile_nul {text : List Byte} (h : (0 : Byte) ∉ text) : text.takeWhile (· ≠ 0) = text :=
  List.takeWhile_eq_self_iff.mpr fun b hb => decide_eq_true fun heq : b = 0 => h (heq ▸ hb)

theorem loadLoop_line (h : newline ∉ line) (hnul : (0 : Byte) ∉ line) (hfits : line.length + 1 < asciilinesz - s.last)
    (rounds : Nat) : loadLoop (rounds + 1) (line ++ newline :: rest) s = (do
      let some s ← lineStep s line | return none
      loadLoop rounds rest s) := by
  have hstring : (0 : Byte) ∉ line ++ [newline] := by
    have hnewline : ¬ (0 : Byte) = newline := by decide
    rw [List.mem_append, List.mem_singleton, not_or]
    exact ⟨hnul, hnewline⟩
  have hround : max 1 (s.joined line ++ [newline]).length = (s.joined line ++ [newline]).length :=
    Nat.max_eq_right (by simp)
  have hjoined : s.line.take s.last ++ (line ++ [newline]) = s.joined line ++ [newline] := by
    rw [Loading.joined, List.append_assoc]
  rw [loadLoop, fgets_line h hfits]
  simp only [takeWhile_nul hstring, hjoined, hround]
  rfl

theorem loadLoop_short (h : newline ∉ line) (hnul : (0 : Byte) ∉ line) (hlast : s.last = 0)
    (hshort : line.length < 1000) (rounds : Nat) : loadLoop (rounds + 1) (line ++ newline :: rest) s = (do
      let some s ← lineStep s line | return none
      loadLoop rounds rest s) :=
  loadLoop_line h hnul (by rw [hlast]; show line.length + 1 < 1024; omega) rounds

theorem rdropWhile_length_le (text : List Byte) : (text.rdropWhile isSpace).length ≤ text.length :=
  List.IsPrefix.length_le <| List.rdropWhile_prefix isSpace text

theorem strstrip_length_le (line : List Byte) : (strstrip line).length ≤ line.length :=
  (rdropWhile_length_le _).trans (line.dropWhile_suffix _).length_le

theorem isSpace_newline : isSpace newline = true := by decide

theorem rdropWhile_newline (text : List Byte) :
    (text ++ [newline]).rdropWhile isSpace = text.rdropWhile isSpace :=
  List.rdropWhile_concat_pos _ _ _ isSpace_newline

theorem firstPair_length {formats : List (List Directive)} {line key value : List Byte}
    (h : firstPair formats line = some (key, value)) : ∃ format ∈ formats, sscanf format line = [key, value] := by
  obtain ⟨format, hmem, hpair⟩ := List.exists_of_findSome?_eq_some h
  refine ⟨format, hmem, ?_⟩
  split at hpair
  next heq =>
    cases hpair
    exact heq
  next => cases hpair

theorem firstPair_eq_none {formats : List (List Directive)}
    (h : ∀ format ∈ formats, (sscanf format line).length ≤ 1) : firstPair formats line = none := by
  refine List.findSome?_eq_none_iff.mpr fun format hmem => ?_
  have hshort := h format hmem
  split
  next heq =>
    rw [heq] at hshort
    exact absurd hshort (by simp)
  next => rfl

theorem continueParser_text {rounds : Nat} {b : Byte}
    (hlast : (text.rdropWhile isSpace).getLast? = some b) :
    continueParser (rounds + 1) { s with line := text ++ [newline] } =
      if b = chr '\\' then
        .ok (some { s with
          line := text.rdropWhile isSpace
          last := (text.rdropWhile isSpace).length - 1 })
      else do
        let (sta, sect, line) ← iniparserLine (text.rdropWhile isSpace) s.sect
        let s ← { s with
          line
          last := 0
          sect }.store sta
        if s.line ≠ [] then continueParser rounds s else return some s := by
  have hne : text ≠ [] := by
    rintro rfl
    cases hlast
  obtain ⟨first, rest, rfl⟩ := List.exists_cons_of_ne_nil hne
  have hnewline : (first :: rest ++ [newline]).getLast? = some newline := List.getLast?_concat
  rw [continueParser]
  split
  next heq => cases heq
  next heq => cases rest <;> cases heq
  next =>
    simp only [hnewline, rdropWhile_newline, hlast, ne_eq, not_true_eq_false, if_false]

end Fl2440.Ini
