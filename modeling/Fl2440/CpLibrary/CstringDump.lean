import Fl2440.CpLibrary.HexDump

/-! `cp_cstring_dump` counts every byte in the loop, and ends each line as `cp_log_dump` should. -/
namespace Fl2440.CpLibrary

open Fl2440.Lib

variable {data bytes text front rest stale : List Byte} {line : Line} {idx rc len j : Nat}

theorem cstringBytes_succ (data : List Byte) (rc idx : Nat) (line : Line) :
    cstringBytes data (rc + 1) idx line = do
      let line ← dumpByte data 4 line idx
      if 0 < rc ∧ (idx + 1) % charsPerLine ≠ 0 then cstringBytes data rc (idx + 1) line
      else return (rc, idx + 1, line) := by
  rw [cstringBytes]

theorem LineAt.cstringBytes (h : LineAt line text front rest) (hchunk : Chunk data rc idx front rest bytes)
    (hroom : text.length + 3 * bytes.length < lineLen) :
    ∃ line', cstringBytes data rc idx line = .ok (rc - bytes.length, idx + bytes.length, line') ∧
      LineAt line' (text ++ bytes.flatMap hexText) (front ++ bytes.map image) (rest.drop bytes.length) := by
  have hpos := List.length_pos_of_ne_nil hchunk.ne_nil
  obtain ⟨line', hrun, h'⟩ := h.takesBytes (fun _ idx => idx + 1) (by decide : 3 ≤ 4)
    (cstringBytes_succ data) hchunk hroom
  refine ⟨line', ?_, h'⟩
  rw [hrun, Nat.sub_add_cancel (by omega)]

namespace AtLine

theorem cstringRound_full (h : AtLine data len j rc idx line stale) (hrc : charsPerLine ≤ rc) (out : List Byte) :
    ∃ line', cstringRound data ⟨rc, idx, line, true, out⟩ =
        .ok ⟨rc - charsPerLine, idx + charsPerLine, line', true,
          out ++ (dumpLine idx (lineBytes data len j) ++ [newline])⟩ ∧
      AtLine data len (j + 1) (rc - charsPerLine) (idx + charsPerLine) line' ((lineBytes data len j).map image) := by
  obtain ⟨prn, hprint, hat, hchunk⟩ := h.begin (Nat.lt_of_lt_of_le (by decide) hrc)
  obtain ⟨line', hrun, h'⟩ := hat.cstringBytes hchunk h.room
  obtain ⟨htext, hnext⟩ := h.next hrc h'
  rw [h.length_lineBytes, Nat.min_eq_left hrc] at hrun
  exact ⟨line', by simp [cstringRound, hprint, hrun, h.next_column, htext], hnext⟩

theorem cstringRound_last (h : AtLine data len j rc idx line stale) (hpos : 0 < rc) (hrc : rc < charsPerLine)
    (out : List Byte) :
    ∃ s, cstringRound data ⟨rc, idx, line, true, out⟩ = .ok s ∧ s.rc = 0 ∧
      cstringRest s = .ok (out ++ (dumpLine idx (lineBytes data len j) ++ [newline])) := by
  obtain ⟨prn, hprint, hat, hchunk⟩ := h.begin hpos
  have hlength : (lineBytes data len j).length = rc := by
    rw [h.length_lineBytes]
    omega
  obtain ⟨line', hrun, h'⟩ := hat.cstringBytes hchunk h.room
  have hroom := h.room
  rw [hlength, Nat.sub_self] at hrun
  rw [hlength, List.nil_append] at h'
  rw [hlength] at hroom
  have hcolumn : (idx + rc) % charsPerLine = rc := by rw [h.idx, Nat.mul_add_mod, Nat.mod_eq_of_lt hrc]
  have hblanks : ascii "   " = List.replicate (3 * 1) (chr ' ') := by decide
  have hwidth : (ascii "   ").length = 3 := by rw [hblanks, List.length_replicate]
  have hhex := length_flatMap_hexText (lineBytes data len j)
  have hoffset := length_offsetText idx
  obtain ⟨joined, hjoin, hjoined⟩ := h'.prn.strncat lineLen
    (by rw [List.length_append, hhex, hoffset, hlength, hwidth, charsPerLine, lineLen] at *; omega)
    graphic_ascii_blanks.2.1.nul (hwidth.trans_le (by decide))
  obtain ⟨b, rest, hrest⟩ := h.drop_lit hrc.le
  rw [hrest] at h'
  rw [hblanks] at hjoined
  have hdone : LineAt ⟨joined, line'.lit⟩ (offsetText idx ++ (lineBytes data len j).flatMap hexText ++
      List.replicate (3 * 1) (chr ' ')) ((lineBytes data len j).map image) (b :: rest) := ⟨hjoined, h'.lit⟩
  obtain ⟨padded, hpad, htext⟩ := hdone.text_padded
    (show _ + 1 + (charsPerLine - 1 - (idx + rc) % charsPerLine) = _ by omega)
  rw [hlength] at htext
  refine ⟨⟨0, idx + rc, ⟨joined, line'.lit⟩, false, out⟩, ?_, rfl, ?_⟩
  · simp [cstringRound, hprint, hrun, hcolumn, hpos.ne', hjoin]
  · simp [cstringRest, hcolumn, hpad]
    exact map_eq_ok_iff.mpr ⟨_, htext, rfl⟩

end AtLine

structure CstringDump.Begins (data : List Byte) (len j : Nat) (s : CstringDump) : Prop where
  line : ∃ stale, AtLine data len j s.rc s.idx s.line stale
  line_done : s.line_done = true
  stdout : s.stdout = dumpLines data len j

theorem CstringDump.Begins.next {s : CstringDump} (h : s.Begins data len j) (hmore : charsPerLine * (j + 1) ≤ len) :
    ∃ s', cstringRound data s = .ok s' ∧ s'.Begins data len (j + 1) := by
  obtain ⟨rc, idx, line, line_done, out⟩ := s
  obtain ⟨⟨stale, hline⟩, rfl, rfl⟩ := h
  have hleft : charsPerLine * j + rc = len := hline.left
  have hidx : idx = charsPerLine * j := hline.idx
  rw [Nat.mul_succ] at hmore
  obtain ⟨line', hround, hnext⟩ := hline.cstringRound_full (by change charsPerLine ≤ rc; omega) (dumpLines data len j)
  refine ⟨_, hround, ⟨_, hnext⟩, rfl, ?_⟩
  rw [dumpLines_succ, ← hidx]

theorem cstringRound_text (frame : Frame (charsPerLine + 1)) (hbuf : len ≤ data.length) :
    ∃ s, whileLoopE (fun s => 0 < s.rc) (cstringRound data) len
        ⟨len, 0, { frame.toLine with lit := frame.lit.set charsPerLine 0 }, true, []⟩ = .ok s ∧
      cstringRest s = .ok (dumpText data len) := by
  obtain ⟨lines, hlines⟩ : ∃ lines, lines = len / charsPerLine := ⟨_, rfl⟩
  obtain ⟨rounds, hrounds⟩ : ∃ rounds, len = rounds + lines := ⟨len - lines, by
    simp only [charsPerLine] at *
    omega⟩
  have hfirst : CstringDump.Begins data len 0
      ⟨len, 0, { frame.toLine with lit := frame.lit.set charsPerLine 0 }, true, []⟩ :=
    ⟨⟨_, frame.atLine (by decide) hbuf⟩, rfl, rfl⟩
  have hstep : ∀ (j : Nat) (s : CstringDump), j < lines → s.Begins data len j →
      decide (0 < s.rc) = true ∧ ∃ s', cstringRound data s = .ok s' ∧ s'.Begins data len (j + 1) := by
    intro j s hj h
    have hle : charsPerLine * (j + 1) ≤ charsPerLine * lines := Nat.mul_le_mul_left _ hj
    have hin : charsPerLine * lines ≤ len := by rw [hlines]; exact Nat.mul_div_le _ _
    obtain ⟨stale, hline⟩ := h.line
    have hleft := hline.left
    refine ⟨decide_eq_true ?_, h.next (by omega)⟩
    simp only [charsPerLine] at *
    omega
  obtain ⟨⟨rc, idx, line, line_done, out⟩, hloop, ⟨stale, hline⟩, rfl, rfl⟩ :=
    whileLoopE_stages hstep hfirst rounds
  rw [← hrounds] at hloop
  rw [hloop]
  have hleft : charsPerLine * lines + rc = len := hline.left
  have hidx : idx = charsPerLine * lines := hline.idx
  have hrc : rc < charsPerLine := by
    simp only [charsPerLine] at *
    omega
  rcases Nat.eq_zero_or_pos rc with rfl | hpos
  · have hend : (len + (charsPerLine - 1)) / charsPerLine = lines := by
      simp only [charsPerLine] at *
      omega
    refine ⟨_, whileLoopE_done rfl rounds, ?_⟩
    rw [dumpText, hend]
    rfl
  · have hend : (len + (charsPerLine - 1)) / charsPerLine = lines + 1 := by
      simp only [charsPerLine] at *
      omega
    obtain ⟨rounds, rfl⟩ : ∃ k, rounds = k + 1 := ⟨rounds - 1, by
      simp only [charsPerLine] at *
      omega⟩
    obtain ⟨s, hround, hdone, hrest⟩ := hline.cstringRound_last hpos hrc (dumpLines data len lines)
    refine ⟨s, whileLoopE_last (by simpa using hpos) hround (by simp [hdone]) rounds, ?_⟩
    rw [hrest, dumpText, hend, dumpLines_succ, ← hidx]

/-- Whatever the length is, the dump has a line for each sixteen bytes, and nothing else. -/
theorem cpCstringDump_eq {len : Int} (frame : Frame (charsPerLine + 1)) (hbuf : len ≤ data.length) :
    cpCstringDump data len frame.toLine = .ok (dumpText data len.toNat) := by
  obtain ⟨s, hloop, hrest⟩ := cstringRound_text frame (show len.toNat ≤ data.length by omega)
  rw [cpCstringDump]
  exact bind_eq_ok_iff.mpr ⟨s, hloop, hrest⟩

end Fl2440.CpLibrary
