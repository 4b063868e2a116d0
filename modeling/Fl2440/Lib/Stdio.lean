import Fl2440.Lib.CString

/-! A text file, as `fgets` takes it line by line. -/
namespace Fl2440.Lib

def newline : Byte := chr '\n'

/-- At most so many bytes less one, up to and with a newline. -/
def fgets (size : Nat) (file : List Byte) : Option (List Byte × List Byte) :=
  if file = [] then none
  else
    let limit := min (size - 1) ((file.takeWhile (· ≠ newline)).length + 1)
    some (file.take limit, file.drop limit)

/-- What one call after the other takes; each takes a byte, which bounds the rounds. -/
def fgetsAll (size : Nat) : Nat → List Byte → List (List Byte)
  | 0, _ => []
  | rounds + 1, file =>
      match fgets size file with
      | none => []
      | some (got, file) => got :: fgetsAll size rounds file

theorem split_nul {got : List Byte} (h : (0 : Byte) ∈ got) : ∃ tail, got = got.takeWhile (· ≠ 0) ++ 0 :: tail := by
  induction got with
  | nil => cases h
  | cons b got ih =>
      by_cases hb : b = 0
      · exact ⟨got, by simp [hb]⟩
      · obtain ⟨tail, ih⟩ := ih ((List.mem_cons.mp h).resolve_left fun heq => hb heq.symm)
        have htake : (b :: got).takeWhile (· ≠ 0) = b :: got.takeWhile (· ≠ 0) :=
          List.takeWhile_cons_of_pos (decide_eq_true hb)
        exact ⟨tail, by rw [htake, List.cons_append, ← ih]⟩

theorem append_nul (got : List Byte) : ∃ tail, got ++ [0] = got.takeWhile (· ≠ 0) ++ 0 :: tail := by
  by_cases h : (0 : Byte) ∈ got
  · obtain ⟨tail, htail⟩ := split_nul h
    refine ⟨tail ++ [0], ?_⟩
    rw [← List.cons_append, ← List.append_assoc, ← htail]
  · have hall : ∀ b ∈ got, decide (b ≠ 0) = true := fun b hb => decide_eq_true fun heq : b = 0 => h (heq ▸ hb)
    exact ⟨[], by rw [List.takeWhile_eq_self_iff.mpr hall]⟩

theorem nul_notMem_takeWhile (got : List Byte) : (0 : Byte) ∉ got.takeWhile (· ≠ 0) := fun h => by
  simpa using List.mem_takeWhile_imp h

variable {line rest : List Byte}

theorem fgets_line (h : newline ∉ line) {size : Nat} (hfits : line.length + 1 < size) :
    fgets size (line ++ newline :: rest) = some (line ++ [newline], rest) := by
  have hsplit : line ++ newline :: rest = (line ++ [newline]) ++ rest := by simp
  have hlimit : min (size - 1) (line.length + 1) = (line ++ [newline]).length := by
    rw [List.length_append, List.length_singleton]
    omega
  rw [fgets, if_neg (by simp), takeWhile_append_cons h, hlimit, hsplit]
  show some (List.take _ _, List.drop _ _) = _
  rw [List.take_left, List.drop_left]

end Fl2440.Lib
