import Fl2440.CpLibrary.CpLogger

/-! What the hex dumps print. -/
namespace Fl2440.CpLibrary

open Fl2440.Lib

/-- Bytes `16 * j` to `min (16 * j + 16) len - 1`. -/
def lineBytes (buf : List Byte) (len j : Nat) : List Byte := ((buf.take len).drop (charsPerLine * j)).take charsPerLine

/-- An offset, the bytes in sixteen columns, and their images. -/
def dumpLine (offset : Nat) (bytes : List Byte) : List Byte :=
  offsetText offset ++ bytes.flatMap hexText ++ List.replicate (3 * (charsPerLine - bytes.length)) (chr ' ') ++
    ascii "  " ++ bytes.map image

def dumpLines (buf : List Byte) (len lines : Nat) : List Byte :=
  (List.range lines).flatMap fun j => dumpLine (charsPerLine * j) (lineBytes buf len j) ++ [newline]

/-- A line for each sixteen bytes, the last for those that are left. -/
def dumpText (buf : List Byte) (len : Nat) : List Byte := dumpLines buf len ((len + (charsPerLine - 1)) / charsPerLine)

/-- A line of one byte as `cp_log_dump` ends it: no column behind the byte, and behind its image
what `lit` still had. -/
def strayLine (offset : Nat) (bytes stale : List Byte) : List Byte :=
  offsetText offset ++ bytes.flatMap hexText ++ ascii "  " ++ bytes.map image ++ stale.tail.takeWhile (· ≠ 0)

/-- What `lit` has in it where line `j` begins: nothing that was written, or the line before. -/
def staleImages (first buf : List Byte) (len : Nat) : Nat → List Byte
  | 0 => first
  | j + 1 => (lineBytes buf len j).map image

/-- All that `cp_log_dump` prints; `first` is what its `lit` has in it before. -/
def logText (first buf : List Byte) (len : Nat) : List Byte :=
  if len % charsPerLine = 1 then
    dumpLines buf len (len / charsPerLine) ++ (strayLine (charsPerLine * (len / charsPerLine))
      (lineBytes buf len (len / charsPerLine)) (staleImages first buf len (len / charsPerLine)) ++ [newline])
  else dumpText buf len

structure Frame (size : Nat) extends Line where
  prn_length : prn.length = lineLen
  lit_length : lit.length = size

variable {buf file bytes text front rest : List Byte} {line : Line} {c : Byte} {idx rc n len j : Nat}

theorem graphic_ascii_blanks : Graphic (ascii "  ") ∧ Graphic (ascii "   ") ∧ Graphic (ascii ": ") := by
  unfold Graphic
  decide +kernel

theorem graphic_hexText (c : Byte) : Graphic (hexText c) :=
  ((graphic_formatHex _ _).append (Graphic.replicate (n := 1) (by decide))).take 3

theorem length_hexText (c : Byte) : (hexText c).length = 3 := by
  have hc : (c.setWidth 32).toNat < 16 ^ 2 := by
    rw [BitVec.toNat_setWidth]
    omega
  rw [hexText, List.length_take, List.length_append, length_formatHex (by decide) hc]
  rfl

theorem length_flatMap_hexText (bytes : List Byte) : (bytes.flatMap hexText).length = 3 * bytes.length := by
  induction bytes with
  | nil => rfl
  | cons c bytes ih =>
      rw [List.flatMap_cons, List.length_append, length_hexText, ih, List.length_cons]
      omega

theorem graphic_offsetText (idx : Nat) : Graphic (offsetText idx) :=
  (graphic_formatHex _ _).append graphic_ascii_blanks.2.2

theorem length_offsetText (idx : Nat) : (offsetText idx).length = 10 := by
  rw [offsetText, List.length_append, length_formatHex (by decide) (BitVec.isLt _)]
  rfl

theorem graphic_images (bytes : List Byte) : Graphic (bytes.map image) := Graphic.map image_graphic bytes

theorem dumpLines_succ (buf : List Byte) (len lines : Nat) :
    dumpLines buf len (lines + 1) =
      dumpLines buf len lines ++ (dumpLine (charsPerLine * lines) (lineBytes buf len lines) ++ [newline]) := by
  rw [dumpLines, List.range_succ, List.flatMap_append, List.flatMap_singleton]
  rfl

structure LineAt (line : Line) (text front rest : List Byte) : Prop where
  prn : StringIn lineLen line.prn text
  lit : line.lit = front ++ rest

theorem LineAt.dumpByte {b : Byte} (h : LineAt line text front (b :: rest)) (hc : buf[idx]? = some c)
    (hidx : idx % charsPerLine = front.length) (hroom : text.length + 3 < lineLen) (hn : 3 ≤ n) :
    ∃ line', dumpByte buf n line idx = .ok line' ∧ LineAt line' (text ++ hexText c) (front ++ [image c]) rest := by
  have hlength := length_hexText c
  obtain ⟨prn, hprn, hjoined⟩ := h.prn.strncat n (by omega) (graphic_hexText c).nul (by omega)
  refine ⟨⟨prn, line.lit.set (idx % charsPerLine) (image c)⟩, ?_, hjoined, ?_⟩
  · simp [CpLibrary.dumpByte, hc, hprn]
  · simp [h.lit, hidx]

structure Chunk (buf : List Byte) (rc idx : Nat) (front rest bytes : List Byte) : Prop where
  ne_nil : bytes ≠ []
  buf : bytes <+: buf.drop idx
  column : idx % charsPerLine = front.length
  fits : front.length + bytes.length ≤ charsPerLine
  rest : bytes.length ≤ rest.length
  ends : rc = bytes.length ∨ bytes.length < rc ∧ front.length + bytes.length = charsPerLine

namespace Chunk

variable {b : Byte}

theorem head (h : Chunk buf rc idx front rest (c :: bytes)) : buf[idx]? = some c := by
  obtain ⟨later, hlater⟩ := h.buf
  have hhead : (buf.drop idx)[0]? = some c := by rw [← hlater]; rfl
  rwa [List.getElem?_drop, Nat.add_zero] at hhead

theorem tail (h : Chunk buf rc idx front (b :: rest) (c :: bytes)) (hne : bytes ≠ []) :
    Chunk buf (rc - 1) (idx + 1) (front ++ [image c]) rest bytes where
  ne_nil := hne
  buf := by
    obtain ⟨later, hlater⟩ := h.buf
    refine ⟨later, ?_⟩
    rw [← List.drop_drop, ← hlater]
    rfl
  column := by
    have hpos := List.length_pos_of_ne_nil hne
    have := h.column
    have := h.fits
    simp only [charsPerLine, List.length_cons, List.length_append, List.length_nil] at *
    omega
  fits := by
    have := h.fits
    simp only [List.length_cons, List.length_append, List.length_nil] at *
    omega
  rest := Nat.le_of_succ_le_succ h.rest
  ends := by
    have := h.ends
    simp only [List.length_cons, List.length_append, List.length_nil] at *
    omega

theorem last (h : Chunk buf rc idx front rest bytes) :
    ∃ c, bytes[bytes.length - 1]? = some c ∧ buf[idx + bytes.length - 1]? = some c := by
  have hpos := List.length_pos_of_ne_nil h.ne_nil
  obtain ⟨later, hlater⟩ := h.buf
  have hlast : (buf.drop idx)[bytes.length - 1]? = bytes[bytes.length - 1]? := by
    rw [← hlater, List.getElem?_append_left (by omega)]
  refine ⟨bytes[bytes.length - 1], List.getElem?_eq_getElem (by omega), ?_⟩
  rw [Nat.add_sub_assoc hpos, ← List.getElem?_drop, hlast, List.getElem?_eq_getElem (by omega)]

end Chunk

theorem LineAt.takesBytes {loop : Nat → Nat → Line → Except Fault (Nat × Nat × Line)} (stop : Nat → Nat → Nat)
    (hn : 3 ≤ n)
    (hloop : ∀ rc idx line, loop (rc + 1) idx line = do
      let line ← CpLibrary.dumpByte buf n line idx
      if 0 < rc ∧ (idx + 1) % charsPerLine ≠ 0 then loop rc (idx + 1) line else return (rc, stop rc idx, line))
    (h : LineAt line text front rest) (hchunk : Chunk buf rc idx front rest bytes)
    (hroom : text.length + 3 * bytes.length < lineLen) :
    ∃ line', loop rc idx line = .ok (rc - bytes.length, stop (rc - bytes.length) (idx + bytes.length - 1), line') ∧
      LineAt line' (text ++ bytes.flatMap hexText) (front ++ bytes.map image) (rest.drop bytes.length) := by
  induction bytes generalizing idx rc line text front rest with
  | nil => exact absurd rfl hchunk.ne_nil
  | cons c bytes ih =>
      obtain ⟨b, rest, rfl⟩ := List.exists_cons_of_length_pos (Nat.lt_of_lt_of_le (Nat.succ_pos _) hchunk.rest)
      have hcolumn := hchunk.column
      have hends := hchunk.ends
      rw [List.length_cons] at hroom hends
      obtain ⟨line₁, hstep, h₁⟩ := h.dumpByte hchunk.head hcolumn (by omega) hn
      obtain ⟨rc, rfl⟩ : ∃ k, rc = k + 1 := ⟨rc - 1, by omega⟩
      rw [hloop, hstep, ok_bind]
      by_cases hlast : bytes = []
      · subst hlast
        have hstops : ¬ (0 < rc ∧ (idx + 1) % charsPerLine ≠ 0) := by
          simp only [charsPerLine, List.length_nil] at *
          omega
        rw [if_neg hstops]
        exact ⟨line₁, rfl, by simpa using h₁⟩
      · have hpos := List.length_pos_of_ne_nil hlast
        have hgoes : 0 < rc ∧ (idx + 1) % charsPerLine ≠ 0 := by
          have := hchunk.fits
          simp only [charsPerLine, List.length_cons] at *
          omega
        have hlength := length_hexText c
        obtain ⟨line', hrun, h'⟩ := ih h₁ (hchunk.tail hlast) (by rw [List.length_append]; omega)
        refine ⟨line', ?_, by simpa using h'⟩
        rw [Nat.add_sub_cancel] at hrun
        rw [if_pos hgoes, hrun, List.length_cons, Nat.add_sub_add_right,
          show idx + (bytes.length + 1) = idx + 1 + bytes.length by omega]

theorem logBytes_succ (buf : List Byte) (rc idx : Nat) (line : Line) :
    logBytes buf (rc + 1) idx line = do
      let line ← dumpByte buf lineLen line idx
      if 0 < rc ∧ (idx + 1) % charsPerLine ≠ 0 then logBytes buf rc (idx + 1) line
      else return (rc, if 0 < rc then idx + 1 else idx, line) := by
  rw [logBytes]
  by_cases hrc : 0 < rc <;> simp [hrc]

theorem LineAt.logBytes (h : LineAt line text front rest) (hchunk : Chunk buf rc idx front rest bytes)
    (hroom : text.length + 3 * bytes.length < lineLen) :
    ∃ line', logBytes buf rc idx line =
        .ok (rc - bytes.length, if rc = bytes.length then idx + bytes.length - 1 else idx + bytes.length, line') ∧
      LineAt line' (text ++ bytes.flatMap hexText) (front ++ bytes.map image) (rest.drop bytes.length) := by
  have hpos := List.length_pos_of_ne_nil hchunk.ne_nil
  have hends := hchunk.ends
  obtain ⟨line', hrun, h'⟩ := h.takesBytes (fun rc idx => if 0 < rc then idx + 1 else idx)
    (by decide : 3 ≤ lineLen) (logBytes_succ buf) hchunk hroom
  have hstop : (if 0 < rc - bytes.length then idx + bytes.length - 1 + 1 else idx + bytes.length - 1) =
      if rc = bytes.length then idx + bytes.length - 1 else idx + bytes.length := by
    split_ifs <;> omega
  exact ⟨line', hstop ▸ hrun, h'⟩

theorem LineAt.text_eq (h : LineAt line text front (0 :: rest)) (hfront : Graphic front) :
    line.text = .ok (text ++ ascii "  " ++ front ++ [newline]) := by
  rw [Line.text, h.prn.cstr_eq, h.lit, cstr_terminated hfront.nul]
  rfl

theorem padLine_eq {prn : List Byte} {rounds : Nat} (h : StringIn lineLen prn text)
    (hrounds : charsPerLine - 1 - idx % charsPerLine < rounds)
    (hroom : text.length + 3 * (charsPerLine - 1 - idx % charsPerLine) < lineLen) :
    ∃ padded, padLine rounds idx prn = .ok padded ∧
      StringIn lineLen padded (text ++ List.replicate (3 * (charsPerLine - 1 - idx % charsPerLine)) (chr ' ')) := by
  induction rounds generalizing idx prn text with
  | zero => contradiction
  | succ rounds ih =>
      have hblanks : ascii "   " = List.replicate 3 (chr ' ') := by decide
      rw [padLine]
      by_cases hend : (idx + 1) % charsPerLine = 0
      · have hcolumn : charsPerLine - 1 - idx % charsPerLine = 0 := by
          simp only [charsPerLine] at *
          omega
        rw [if_neg (not_not.mpr hend), hcolumn]
        exact ⟨prn, rfl, by simpa using h⟩
      · have hcolumn : charsPerLine - 1 - idx % charsPerLine = charsPerLine - 1 - (idx + 1) % charsPerLine + 1 := by
          simp only [charsPerLine] at *
          omega
        rw [hcolumn] at hrounds hroom
        have hlength : (ascii "   ").length = 3 := by rw [hblanks, List.length_replicate]
        obtain ⟨joined, hjoin, hjoined⟩ :=
          h.strncat lineLen (by omega) graphic_ascii_blanks.2.1.nul (hlength.trans_le (by decide))
        obtain ⟨padded, hpad, hpadded⟩ := ih hjoined
          (show charsPerLine - 1 - (idx + 1) % charsPerLine < rounds by omega) (by rw [List.length_append]; omega)
        refine ⟨padded, ?_, ?_⟩
        · rw [if_pos hend, hjoin]
          exact hpad
        · rwa [hcolumn, Nat.mul_add, Nat.add_comm (3 * _), List.replicate_add, ← List.append_assoc, ← hblanks]

theorem LineAt.text_padded {b : Byte} {offset done : Nat}
    (h : LineAt line (offsetText offset ++ bytes.flatMap hexText ++ List.replicate (3 * done) (chr ' ')) (bytes.map image)
      (b :: rest))
    (hcolumns : bytes.length + done + (charsPerLine - 1 - idx % charsPerLine) = charsPerLine) :
    ∃ padded, padLine charsPerLine idx line.prn = .ok padded ∧
      Line.text ⟨padded, line.lit.set bytes.length 0⟩ = .ok (dumpLine offset bytes ++ [newline]) := by
  have hoffset := length_offsetText offset
  have hhex := length_flatMap_hexText bytes
  obtain ⟨padded, hpad, hpadded⟩ := padLine_eq h.prn
    (show charsPerLine - 1 - idx % charsPerLine < charsPerLine by rw [charsPerLine]; omega) (by
      simp only [List.length_append, List.length_replicate, charsPerLine, lineLen] at *
      omega)
  have hlit : line.lit.set bytes.length 0 = bytes.map image ++ 0 :: rest := by
    have hlength : (bytes.map image).length = bytes.length := List.length_map image
    rw [h.lit, ← hlength, List.set_append_right _ _ le_rfl, Nat.sub_self]
    rfl
  have hpads : 3 * (charsPerLine - bytes.length) = 3 * done + 3 * (charsPerLine - 1 - idx % charsPerLine) := by omega
  refine ⟨padded, hpad, ?_⟩
  rw [LineAt.text_eq ⟨hpadded, hlit⟩ (graphic_images bytes), dumpLine, hpads, List.replicate_add]
  simp only [List.append_assoc]

structure AtLine (buf : List Byte) (len j rc idx : Nat) (line : Line) (stale : List Byte) : Prop where
  left : charsPerLine * j + rc = len
  inside : len ≤ buf.length
  idx : idx = charsPerLine * j
  prn : line.prn.length = lineLen
  lit : ∃ tail, line.lit = stale ++ 0 :: tail
  stale : stale.length = charsPerLine

namespace AtLine

variable {stale : List Byte}

theorem length_lineBytes (h : AtLine buf len j rc idx line stale) : (lineBytes buf len j).length = min charsPerLine rc := by
  have := h.left
  have := h.inside
  rw [lineBytes, List.length_take, List.length_drop, List.length_take]
  omega

theorem begin (h : AtLine buf len j rc idx line stale) (hrc : 0 < rc) :
    ∃ prn, sprintf line.prn (offsetText idx) = .ok prn ∧
      LineAt { line with prn } (offsetText idx) [] line.lit ∧
      Chunk buf rc idx [] line.lit (lineBytes buf len j) := by
  have hlength := h.length_lineBytes
  have hoffset := length_offsetText idx
  obtain ⟨prn, hprint, hprinted⟩ := stringIn_sprintf h.prn (by rw [hoffset]; decide) (graphic_offsetText idx).nul
  obtain ⟨tail, htail⟩ := h.lit
  have hstale := h.stale
  refine ⟨prn, hprint, ⟨hprinted, rfl⟩, ?_⟩
  constructor
  · exact List.ne_nil_of_length_pos (by rw [hlength, charsPerLine]; omega)
  · rw [lineBytes, ← h.idx]
    exact (List.take_prefix _ _).trans ((List.take_prefix _ _).drop _)
  · rw [h.idx, Nat.mul_mod_right]
    rfl
  · rw [hlength, List.length_nil]
    omega
  · rw [hlength, htail, List.length_append, List.length_cons]
    omega
  · rw [hlength, List.length_nil]
    omega

theorem room (h : AtLine buf len j rc idx line stale) :
    (offsetText idx).length + 3 * (lineBytes buf len j).length < lineLen := by
  have hlength := h.length_lineBytes
  rw [length_offsetText]
  simp only [charsPerLine, lineLen] at *
  omega

theorem drop_lit (h : AtLine buf len j rc idx line stale) (hn : n ≤ charsPerLine) :
    ∃ b rest, line.lit.drop n = b :: rest := by
  obtain ⟨tail, htail⟩ := h.lit
  refine List.exists_cons_of_length_pos ?_
  rw [htail, List.length_drop, List.length_append, List.length_cons, h.stale]
  omega

theorem next {line' : Line} (h : AtLine buf len j rc idx line stale) (hrc : charsPerLine ≤ rc)
    (h' : LineAt line' (offsetText idx ++ (lineBytes buf len j).flatMap hexText) ([] ++ (lineBytes buf len j).map image)
      (line.lit.drop (lineBytes buf len j).length)) :
    line'.text = .ok (dumpLine idx (lineBytes buf len j) ++ [newline]) ∧
      AtLine buf len (j + 1) (rc - charsPerLine) (idx + charsPerLine) line' ((lineBytes buf len j).map image) := by
  have hlength : (lineBytes buf len j).length = charsPerLine := by
    rw [h.length_lineBytes]
    omega
  obtain ⟨tail, htail⟩ := h.lit
  have hlit : line.lit.drop charsPerLine = 0 :: tail := by rw [htail, ← h.stale, List.drop_left]
  rw [hlength, hlit, List.nil_append] at h'
  constructor
  · rw [h'.text_eq (graphic_images _), dumpLine, hlength, Nat.sub_self, Nat.mul_zero, List.replicate_zero, List.append_nil]
  · have hleft := h.left
    exact
      { left := by rw [Nat.mul_succ]; omega
        inside := h.inside
        idx := by rw [h.idx, Nat.mul_succ]
        prn := h'.prn.length
        lit := ⟨tail, h'.lit⟩
        stale := by rw [List.length_map, hlength] }

theorem next_column (h : AtLine buf len j rc idx line stale) : (idx + charsPerLine) % charsPerLine = 0 := by
  rw [h.idx, ← Nat.mul_succ, Nat.mul_mod_right]

theorem logRound_more (h : AtLine buf len j rc idx line stale) (hrc : charsPerLine < rc) (out : List Byte) :
    ∃ line', logRound buf ⟨rc, idx, line, true, some out⟩ =
        .ok ⟨rc - charsPerLine, idx + charsPerLine, line', true,
          some (out ++ (dumpLine idx (lineBytes buf len j) ++ [newline]))⟩ ∧
      AtLine buf len (j + 1) (rc - charsPerLine) (idx + charsPerLine) line' ((lineBytes buf len j).map image) := by
  obtain ⟨prn, hprint, hat, hchunk⟩ := h.begin (by omega)
  obtain ⟨line', hrun, h'⟩ := hat.logBytes hchunk h.room
  obtain ⟨htext, hnext⟩ := h.next hrc.le h'
  rw [h.length_lineBytes, Nat.min_eq_left hrc.le, if_neg hrc.ne'] at hrun
  exact ⟨line', by simp [logRound, hprint, hrun, h.next_column, logLine, htext], hnext⟩

theorem logRound_last (h : AtLine buf len j rc idx line stale) (hmany : 1 < rc) (hrc : rc ≤ charsPerLine)
    (out : List Byte) :
    ∃ s, logRound buf ⟨rc, idx, line, true, some out⟩ = .ok s ∧ s.rc = 0 ∧
      logRest buf s = .ok (some (out ++ (dumpLine idx (lineBytes buf len j) ++ [newline]))) := by
  obtain ⟨prn, hprint, hat, hchunk⟩ := h.begin (by omega)
  have hlength : (lineBytes buf len j).length = rc := by
    rw [h.length_lineBytes]
    omega
  obtain ⟨line', hrun, h'⟩ := hat.logBytes hchunk h.room
  rw [hlength, if_pos rfl, Nat.sub_self] at hrun
  rw [hlength, List.nil_append] at h'
  have hmore : (idx + rc - 1) % charsPerLine = rc - 1 := by
    rw [h.idx, Nat.add_sub_assoc (by omega), Nat.mul_add_mod, Nat.mod_eq_of_lt (by omega)]
  have hnot : ¬ (idx + rc - 1) % charsPerLine = 0 := by omega
  obtain ⟨c, hlast, hbyte⟩ := hchunk.last
  rw [hlength] at hlast hbyte
  obtain ⟨b, rest, hrest⟩ := h.drop_lit hrc
  rw [hrest] at h'
  have hset : line'.lit.set (rc - 1) (image c) = line'.lit := by
    have himage : line'.lit[rc - 1]? = some (image c) := by
      rw [h'.lit, List.getElem?_append_left (by rw [List.length_map]; omega), List.getElem?_map, hlast]
      rfl
    obtain ⟨hin, heq⟩ := List.getElem?_eq_some_iff.mp himage
    rw [← heq, List.set_getElem_self]
  have hdone : LineAt line' (offsetText idx ++ (lineBytes buf len j).flatMap hexText ++ List.replicate (3 * 0) (chr ' '))
      ((lineBytes buf len j).map image) (b :: rest) := by
    simpa using h'
  obtain ⟨padded, hpad, htext⟩ := hdone.text_padded
    (show _ + 0 + (charsPerLine - 1 - (idx + rc - 1) % charsPerLine) = _ by omega)
  rw [hlength] at htext
  have hnext : rc - 1 + 1 = rc := by omega
  refine ⟨⟨0, idx + rc - 1, line', false, some out⟩, ?_, rfl, ?_⟩
  · simp [logRound, hprint, hrun, hnot]
    rfl
  · simp [logRest, hbyte, hmore, hset, hnext, hpad, logLine]
    exact map_eq_ok_iff.mpr ⟨_, htext, rfl⟩

/-- One byte left: its index is a multiple of sixteen, and the line counts as done. The images of
the line before are shown behind its own. -/
theorem logRound_stray (h : AtLine buf len j 1 idx line stale) (out : List Byte) :
    ∃ s, logRound buf ⟨1, idx, line, true, some out⟩ = .ok s ∧ s.rc = 0 ∧
      logRest buf s = .ok (some (out ++ (strayLine idx (lineBytes buf len j) stale ++ [newline]))) := by
  obtain ⟨prn, hprint, hat, hchunk⟩ := h.begin (by omega)
  have hlength : (lineBytes buf len j).length = 1 := by
    rw [h.length_lineBytes]
    rfl
  obtain ⟨c, hbytes⟩ := List.length_eq_one_iff.mp hlength
  obtain ⟨line', hrun, h'⟩ := hat.logBytes hchunk h.room
  obtain ⟨tail, htail⟩ := h.lit
  rw [hbytes] at hrun h'
  have hlit : line'.lit = (image c :: stale.tail) ++ 0 :: tail := by
    have hstale : stale ≠ [] := List.ne_nil_of_length_pos (by rw [h.stale]; decide)
    rw [h'.lit, htail, List.length_singleton, List.drop_one, List.tail_append_of_ne_nil hstale]
    rfl
  have hgraphic : image c ≠ 0 := fun hzero => absurd (hzero ▸ image_graphic c) (by decide)
  have htext : line'.text = .ok (strayLine idx (lineBytes buf len j) stale ++ [newline]) := by
    have htake : (image c :: stale.tail).takeWhile (· ≠ 0) = image c :: stale.tail.takeWhile (· ≠ 0) :=
      List.takeWhile_cons_of_pos (decide_eq_true hgraphic)
    rw [Line.text, h'.prn.cstr_eq, hlit, cstr_takeWhile, htake, hbytes, strayLine]
    simp
  have hdone : idx % charsPerLine = 0 := by rw [h.idx, Nat.mul_mod_right]
  refine ⟨⟨0, idx, line', true, some (out ++ _)⟩, ?_, rfl, rfl⟩
  rw [List.length_singleton, if_pos rfl, Nat.add_sub_cancel] at hrun
  simp [logRound, hprint, hrun, hdone, logLine]
  exact map_eq_ok_iff.mpr ⟨_, htext, by simp⟩

end AtLine

structure LogDump.Begins (first buf file : List Byte) (len j : Nat) (s : LogDump) : Prop where
  line : AtLine buf len j s.rc s.idx s.line (staleImages first buf len j)
  line_done : s.line_done = true
  fp : s.fp = some (file ++ dumpLines buf len j)

theorem LogDump.Begins.next {first : List Byte} {s : LogDump} (h : s.Begins first buf file len j)
    (hmore : charsPerLine * (j + 1) < len) : ∃ s', logRound buf s = .ok s' ∧ s'.Begins first buf file len (j + 1) := by
  obtain ⟨rc, idx, line, line_done, fp⟩ := s
  obtain ⟨hline, rfl, rfl⟩ := h
  have hleft := hline.left
  have hidx := hline.idx
  rw [Nat.mul_succ] at hmore
  obtain ⟨line', hround, hnext⟩ := hline.logRound_more (by omega) (file ++ dumpLines buf len j)
  refine ⟨_, hround, hnext, rfl, ?_⟩
  rw [dumpLines_succ, List.append_assoc, ← hidx]

theorem Frame.atLine {size : Nat} (frame : Frame size) (hsize : charsPerLine < size) (hbuf : len ≤ buf.length) :
    AtLine buf len 0 len 0 { frame.toLine with lit := frame.lit.set charsPerLine 0 }
      (staleImages (frame.lit.take charsPerLine) buf len 0) := by
  have hlit : charsPerLine < frame.lit.length := by rwa [frame.lit_length]
  exact
    { left := Nat.zero_add len
      inside := hbuf
      idx := rfl
      prn := frame.prn_length
      lit := ⟨frame.lit.drop (charsPerLine + 1), by rw [staleImages, List.set_eq_take_append_cons_drop, if_pos hlit]⟩
      stale := List.length_take_of_le hlit.le }

theorem logRound_text (frame : Frame (charsPerLine + 2)) (file : List Byte) (hbuf : len ≤ buf.length) :
    ∃ s, whileLoopE (fun s => 0 < s.rc) (logRound buf) len
        ⟨len, 0, { frame.toLine with lit := frame.lit.set charsPerLine 0 }, true, some file⟩ = .ok s ∧
      logRest buf s = .ok (some (file ++ logText (frame.lit.take charsPerLine) buf len)) := by
  have hbegin := frame.atLine (by decide) hbuf
  rcases Nat.eq_zero_or_pos len with rfl | hpos
  · exact ⟨_, rfl, by simp [logRest, logText, dumpText, dumpLines, charsPerLine]⟩
  · obtain ⟨lines, hlines⟩ : ∃ lines, lines = (len - 1) / charsPerLine := ⟨_, rfl⟩
    obtain ⟨rounds, hrounds⟩ : ∃ rounds, len = rounds + 1 + lines := ⟨len - 1 - lines, by
      simp only [charsPerLine] at *
      omega⟩
    have hlast : charsPerLine * lines < len ∧ len ≤ charsPerLine * lines + charsPerLine := by
      simp only [charsPerLine] at *
      omega
    have hfirst : LogDump.Begins (frame.lit.take charsPerLine) buf file len 0
        ⟨len, 0, { frame.toLine with lit := frame.lit.set charsPerLine 0 }, true, some file⟩ :=
      ⟨hbegin, rfl, (congrArg some (List.append_nil file)).symm⟩
    have hstep : ∀ (j : Nat) (s : LogDump), j < lines → s.Begins (frame.lit.take charsPerLine) buf file len j →
        decide (0 < s.rc) = true ∧
          ∃ s', logRound buf s = .ok s' ∧ s'.Begins (frame.lit.take charsPerLine) buf file len (j + 1) := by
      intro j s hj h
      have hle : charsPerLine * (j + 1) ≤ charsPerLine * lines := Nat.mul_le_mul_left _ hj
      have hleft := h.line.left
      exact ⟨decide_eq_true (by rw [Nat.mul_succ] at hle; omega), h.next (by omega)⟩
    obtain ⟨⟨rc, idx, line, line_done, fp⟩, hloop, hline, rfl, rfl⟩ := whileLoopE_stages hstep hfirst (rounds + 1)
    rw [← hrounds] at hloop
    rw [hloop]
    have hleft : charsPerLine * lines + rc = len := hline.left
    have hidx : idx = charsPerLine * lines := hline.idx
    by_cases hstray : rc = 1
    · have hmod : len % charsPerLine = 1 ∧ len / charsPerLine = lines := by
        simp only [charsPerLine] at *
        omega
      subst hstray
      obtain ⟨s, hround, hdone, hrest⟩ := hline.logRound_stray (file ++ dumpLines buf len lines)
      refine ⟨s, whileLoopE_last rfl hround (by simp [hdone]) rounds, ?_⟩
      rw [hrest, logText, if_pos hmod.1, hmod.2, List.append_assoc, ← hidx]
    · have hmod : ¬ len % charsPerLine = 1 ∧ (len + (charsPerLine - 1)) / charsPerLine = lines + 1 := by
        simp only [charsPerLine] at *
        omega
      obtain ⟨s, hround, hdone, hrest⟩ :=
        hline.logRound_last (show 1 < rc by omega) (show rc ≤ charsPerLine by omega) (file ++ dumpLines buf len lines)
      refine ⟨s, whileLoopE_last (by simp; omega) hround (by simp [hdone]) rounds, ?_⟩
      rw [hrest, logText, if_neg hmod.1, dumpText, hmod.2, dumpLines_succ, List.append_assoc, ← hidx]

/-- All that a call prints at an enabled level, whatever the length. -/
theorem cpLogDump_eq {enabled level len : Int} (frame : Frame (charsPerLine + 2)) (file : List Byte)
    (hlevel : level ≤ enabled) (hbuf : len ≤ buf.length) :
    cpLogDump (some ⟨enabled, some file⟩) level buf len frame.toLine =
      .ok (some ⟨enabled, some (file ++ logText (frame.lit.take charsPerLine) buf len.toNat)⟩) := by
  obtain ⟨s, hloop, hrest⟩ := logRound_text frame file (show len.toNat ≤ buf.length by omega)
  rw [cpLogDump, if_neg (not_lt.mpr hlevel)]
  exact bind_eq_ok_iff.mpr ⟨s, hloop, bind_eq_ok_iff.mpr ⟨_, hrest, rfl⟩⟩

theorem length_lineBytes_le (buf : List Byte) (len j : Nat) : (lineBytes buf len j).length ≤ charsPerLine :=
  List.length_take_le _ _

theorem length_dumpLine (offset : Nat) (h : bytes.length ≤ charsPerLine) :
    (dumpLine offset bytes).length = 60 + bytes.length := by
  have hblanks : (ascii "  ").length = 2 := by decide
  simp only [dumpLine, List.length_append, List.length_replicate, List.length_map, length_offsetText,
    length_flatMap_hexText, hblanks, charsPerLine] at *
  omega

theorem length_strayLine_le (offset : Nat) (bytes stale : List Byte) :
    (strayLine offset bytes stale).length ≤ 12 + 4 * bytes.length + stale.length := by
  have hblanks : (ascii "  ").length = 2 := by decide
  have hshown : (stale.tail.takeWhile (· ≠ 0)).length ≤ stale.length := by
    have hle := (List.takeWhile_prefix (· ≠ 0) (l := stale.tail)).length_le
    rw [List.length_tail] at hle
    omega
  simp only [strayLine, List.length_append, List.length_map, length_offsetText, length_flatMap_hexText, hblanks]
  omega

theorem strayLine_ne_dumpLine {offset : Nat} {stale : List Byte} (hbytes : bytes.length = 1)
    (hstale : stale.length ≤ charsPerLine) : strayLine offset bytes stale ≠ dumpLine offset bytes := by
  intro heq
  have hstray := length_strayLine_le offset bytes stale
  have hline := length_dumpLine offset (show bytes.length ≤ charsPerLine by rw [hbytes]; decide)
  rw [heq, hbytes] at hstray
  simp only [charsPerLine] at *
  omega

theorem length_staleImages_le {first : List Byte} (h : first.length ≤ charsPerLine) (buf : List Byte) (len j : Nat) :
    (staleImages first buf len j).length ≤ charsPerLine := by
  cases j with
  | zero => exact h
  | succ j =>
      rw [staleImages, List.length_map]
      exact length_lineBytes_le buf len j

/-- The call leaves in the file what was there and the lines of the dump, and nothing else. -/
def LogDumps (enabled level : Int) (file buf : List Byte) (len : Int) (frame : Frame (charsPerLine + 2)) : Prop :=
  cpLogDump (some ⟨enabled, some file⟩) level buf len frame.toLine =
    .ok (some ⟨enabled, some (file ++ dumpText buf len.toNat)⟩)

theorem logDumps_iff {enabled level len : Int} (file : List Byte) (frame : Frame (charsPerLine + 2))
    (hlevel : level ≤ enabled) (hlen : 0 ≤ len) (hbuf : len ≤ buf.length) :
    LogDumps enabled level file buf len frame ↔ len % 16 ≠ 1 := by
  have hmod : len % 16 = 1 ↔ len.toNat % charsPerLine = 1 := by
    rw [charsPerLine]
    omega
  rw [LogDumps, cpLogDump_eq frame file hlevel hbuf, Ne, hmod]
  simp only [Except.ok.injEq, Option.some.injEq, Logger.mk.injEq, true_and, List.append_cancel_left_eq]
  by_cases hstray : len.toNat % charsPerLine = 1
  · refine iff_of_false (fun heq => ?_) (not_not.mpr hstray)
    have hlines : (len.toNat + (charsPerLine - 1)) / charsPerLine = len.toNat / charsPerLine + 1 := by
      rw [charsPerLine] at *
      omega
    have hbytes : (lineBytes buf len.toNat (len.toNat / charsPerLine)).length = 1 := by
      rw [lineBytes, List.length_take, List.length_drop, List.length_take, charsPerLine] at *
      omega
    rw [logText, if_pos hstray, dumpText, hlines, dumpLines_succ, List.append_cancel_left_eq,
      List.append_cancel_right_eq] at heq
    exact strayLine_ne_dumpLine hbytes (length_staleImages_le (List.length_take_le _ _) _ _ _) heq
  · exact iff_of_true (if_neg hstray) hstray

def filledFrame (b : Byte) (size : Nat) : Frame size where
  prn := List.replicate lineLen b
  lit := List.replicate size b
  prn_length := List.length_replicate
  lit_length := List.length_replicate

theorem logDumps_two_bytes : LogDumps 8 5 [] (ascii "AB") 2 (filledFrame (chr 'x') (charsPerLine + 2)) :=
  (logDumps_iff [] (filledFrame (chr 'x') (charsPerLine + 2)) (by decide) (by decide) (by decide)).mpr (by decide)

/-- The seventeenth byte is followed by fifteen images of the line before. -/
theorem seventeenth_byte_not_alone :
    cpLogDump (some ⟨8, some []⟩) 5 (ascii "ABCDEFGHIJKLMNOPQ") 17 (filledFrame (chr 'x') (charsPerLine + 2)).toLine =
        .ok (some ⟨8, some (ascii "00000000: 41 42 43 44 45 46 47 48 49 4A 4B 4C 4D 4E 4F 50   ABCDEFGHIJKLMNOP" ++
          newline :: ascii "00000010: 51   QBCDEFGHIJKLMNOP" ++ [newline])⟩) ∧
      ¬ LogDumps 8 5 [] (ascii "ABCDEFGHIJKLMNOPQ") 17 (filledFrame (chr 'x') (charsPerLine + 2)) := by
  unfold LogDumps
  decide +kernel

end Fl2440.CpLibrary
