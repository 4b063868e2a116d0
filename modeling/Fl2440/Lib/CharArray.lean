import Fl2440.Lib.Stdio

/-! A `char` array of fixed size with a string in it. The functions of `string.h` and `stdio.h`
that write one return the array as it is afterwards. Text made of blanks and graphic
characters is what most of them are given. -/
namespace Fl2440.Lib

def sprintf (buf text : List Byte) : Except Fault (List Byte) := overwrite buf 0 (text ++ [0])

/-- At most `n` bytes of a string are put behind the one in the array, and then a NUL. -/
def strncat (buf src : List Byte) (n : Nat) : Except Fault (List Byte) := do
  let dest ← cstr buf
  overwrite buf dest.length (src.take n ++ [0])

/-- The array has so many bytes, and a string that ends within them. -/
structure StringIn (size : Nat) (buf s : List Byte) : Prop where
  length : buf.length = size
  nul : (0 : Byte) ∉ s
  front : ∃ tail, buf = s ++ 0 :: tail

variable {size : Nat} {buf s text : List Byte}

theorem StringIn.cstr_eq (h : StringIn size buf s) : cstr buf = .ok s :=
  cstr_eq_ok_iff.mpr ⟨h.nul, h.front⟩

theorem cstr_takeWhile (s tail : List Byte) : cstr (s ++ 0 :: tail) = .ok (s.takeWhile (· ≠ 0)) := by
  induction s with
  | nil => rfl
  | cons b s ih =>
      by_cases hb : b = 0
      · simp [cstr, hb]
      · have htake : (b :: s).takeWhile (· ≠ 0) = b :: s.takeWhile (· ≠ 0) :=
          List.takeWhile_cons_of_pos (decide_eq_true hb)
        rw [List.cons_append, cstr, if_neg hb, ih, htake]
        rfl

theorem stringIn_sprintf (hbuf : buf.length = size) (hroom : text.length < size) (hnul : (0 : Byte) ∉ text) :
    ∃ printed, sprintf buf text = .ok printed ∧ StringIn size printed text := by
  have hfits : 0 + (text ++ [0]).length ≤ buf.length := by
    rw [List.length_append, List.length_singleton]
    omega
  refine ⟨_, if_pos hfits, ⟨?_, hnul, buf.drop (text.length + 1), ?_⟩⟩
  · simp
    omega
  · simp

theorem StringIn.strncat (h : StringIn size buf s) (n : Nat) (hroom : s.length + text.length < size)
    (hnul : (0 : Byte) ∉ text) (hn : text.length ≤ n) :
    ∃ joined, strncat buf text n = .ok joined ∧ StringIn size joined (s ++ text) := by
  obtain ⟨tail, rfl⟩ := h.front
  have hsize : s.length + (tail.length + 1) = size := by simpa using h.length
  have hfits : s.length + (text.take n ++ [0]).length ≤ (s ++ 0 :: tail).length := by
    simp
    omega
  have hjoined : Lib.strncat (s ++ 0 :: tail) text n =
      .ok ((s ++ 0 :: tail).take s.length ++ (text.take n ++ [0]) ++
        (s ++ 0 :: tail).drop (s.length + (text.take n ++ [0]).length)) := by
    rw [Lib.strncat, h.cstr_eq]
    exact if_pos hfits
  rw [List.take_of_length_le hn, List.take_left] at hjoined
  refine ⟨_, hjoined, ⟨?_, ?_, (s ++ 0 :: tail).drop (s.length + (text ++ [0]).length), ?_⟩⟩
  · simp
    omega
  · exact fun hmem => (List.mem_append.mp hmem).elim h.nul hnul
  · simp only [List.append_assoc, List.cons_append, List.nil_append]

/-- No NUL and no newline: only blanks and what is graphic. -/
def Graphic (s : List Byte) : Prop := ∀ b ∈ s, 32 ≤ b.toNat

namespace Graphic

theorem nul (h : Graphic s) : (0 : Byte) ∉ s := fun hmem => absurd (h 0 hmem) (by decide)

theorem append (hs : Graphic s) (htext : Graphic text) : Graphic (s ++ text) :=
  List.forall_mem_append.mpr ⟨hs, htext⟩

theorem take (h : Graphic s) (n : Nat) : Graphic (s.take n) := fun b hmem => h b (List.mem_of_mem_take hmem)

theorem map {f : Byte → Byte} (h : ∀ b, 32 ≤ (f b).toNat) (bytes : List Byte) : Graphic (bytes.map f) := by
  intro b hmem
  obtain ⟨c, -, rfl⟩ := List.mem_map.mp hmem
  exact h c

theorem replicate {b : Byte} (h : 32 ≤ b.toNat) (n : Nat) : Graphic (List.replicate n b) := by
  intro c hmem
  rw [List.eq_of_mem_replicate hmem]
  exact h

end Graphic

theorem digitChar_graphic {d : Nat} (h : d < 16) : 32 ≤ (digitChar d).toNat := by
  unfold digitChar
  rw [BitVec.toNat_ofNat]
  split <;> simp <;> omega

theorem graphic_numeral {radix : Nat} (n : Nat) (hlow : 1 < radix) (hhigh : radix ≤ 16) : Graphic (numeral radix n) := by
  intro b hmem
  unfold numeral at hmem
  split at hmem
  · rw [List.mem_singleton.mp hmem]
    exact digitChar_graphic (by decide)
  · obtain ⟨d, hd, rfl⟩ := List.mem_map.mp hmem
    have hdigit : d < radix := Nat.digits_lt_base hlow (List.mem_reverse.mp hd)
    exact digitChar_graphic (by omega)

theorem graphic_formatHex (width : Nat) (n : BitVec 32) : Graphic (formatHex width n) :=
  (Graphic.replicate (by decide) _).append (graphic_numeral _ (by decide) (by decide))

theorem length_digits_le {radix : Nat} (hlow : 1 < radix) {width n : Nat} (h : n < radix ^ width) :
    (Nat.digits radix n).length ≤ width := by
  induction width generalizing n with
  | zero =>
      have hzero : n = 0 := by simpa using h
      simp [hzero]
  | succ width ih =>
      rcases n.eq_zero_or_pos with rfl | hpos
      · simp
      · rw [Nat.digits_def' hlow hpos, List.length_cons]
        exact Nat.succ_le_succ (ih (Nat.div_lt_of_lt_mul (by rwa [pow_succ'] at h)))

theorem length_formatHex {width : Nat} {n : BitVec 32} (hwidth : 0 < width) (h : n.toNat < 16 ^ width) :
    (formatHex width n).length = width := by
  have hle : (numeral 16 n.toNat).length ≤ width := by
    by_cases hzero : n.toNat = 0
    · simpa [numeral, hzero] using Nat.succ_le_of_lt hwidth
    · rw [length_numeral hzero]
      exact length_digits_le (by decide) h
  rw [formatHex, zeroPadded, List.length_append, List.length_replicate]
  omega

end Fl2440.Lib
