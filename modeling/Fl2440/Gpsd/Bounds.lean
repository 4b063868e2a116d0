import Fl2440.Gpsd.Chunking
import Fl2440.Gpsd.LineBounds

/-! Whether `nmea_parse` stays inside of the bytes that were received and of its arrays: the
received bytes have to be lines up to their end, or to hold a NUL behind the last line, and each
line has to be one that the parser of its kind has room for. -/
namespace Fl2440.Gpsd

open Fl2440.Lib

section Parse

variable {F : Type} [CDouble F]

/-- `nmea_parse` comes to its end, of `data` nothing is read but what is there, and each line
fits into `line` with its NUL. -/
inductive ParsesInside (stack : List Byte → List Byte) : List Byte → Nat → NmeaInfo F → NmeaInfo F → Prop
  | done (data : List Byte) (info : NmeaInfo F) : ParsesInside stack data 0 info info
  | noLine {data : List Byte} {len : Nat} (hlen : 0 < len) (h : nmeaGetItemLine data len = .ok none)
      (info : NmeaInfo F) : ParsesInside stack data len info info
  | line {data line start : List Byte} {len nbytes : Nat} {info info' info'' : NmeaInfo F} (hlen : 0 < len)
      (h : nmeaGetItemLine data len = .ok (some (line, start, nbytes))) (hfits : line.length < lineSize)
      (hline : nmeaParseLine line (stack start) info = .ok info')
      (hlater : ParsesInside stack (data.drop nbytes) (len - nbytes) info' info'') : ParsesInside stack data len info info''

def LineFits (stack : List Byte → List Byte) (info : NmeaInfo F) (start : List Byte) : Prop :=
  (lineAt start).length < lineSize ∧ SentenceFits F (lineAt start) (stack start) info.satinfo.inview

def Recv.stackInside (r : Recv) (start : List Byte) : List Byte := r.stack (start ++ r.pad)

/-- One read is parsed as if `buf` ended with what was received. -/
def InBounds (info : NmeaInfo F) (r : Recv) : Prop :=
  ∃ info', ParsesInside r.stackInside r.bytes r.bytes.length info info' ∧ recvStep info r = .ok info'

/-- The received bytes are lines up to their end, with four bytes behind each `*` that are passed
over, or a NUL comes before any search is over; and each line fits, in the state before it. -/
def ReadFits (info : NmeaInfo F) (r : Recv) : Prop :=
  ∃ starts, Walk [] r.bytes starts ∧ Along (takeLine r.stackInside) (LineFits r.stackInside) info starts

def StaysInBounds (info : NmeaInfo F) (reads : List Recv) : Prop := Along recvStep InBounds info reads

def ReadsFit (info : NmeaInfo F) (reads : List Recv) : Prop := Along recvStep ReadFits info reads

end Parse

section Lines

variable {F : Type} [CDouble F] {stack : List Byte → List Byte} {info info' : NmeaInfo F} {pad text : List Byte}
  {starts : List (List Byte)}

theorem lineAt_head? {body after : List Byte} (h : chr '*' ∉ body) :
    (lineAt (chr '$' :: (body ++ chr '*' :: after))).head? = some (chr '$') := by
  rw [lineAt_eq h]
  rfl

theorem Walk.starts_head? (h : Walk pad text starts) : ∀ start ∈ starts, (lineAt start).head? = some (chr '$') := by
  intro start hmem
  obtain ⟨before, body, after, -, rfl, hend, -⟩ := h.mem_starts start hmem
  exact lineAt_head? hend

theorem takeLine_of_fits {start : List Byte} (h : (lineAt start).length < lineSize) (info : NmeaInfo F) :
    takeLine stack info start = nmeaParseLine (lineAt start) (stack start) info := if_pos (Nat.le_of_lt h)

theorem parsesInside_of_walk_nil (h : Walk pad text []) (info : NmeaInfo F) :
    ParsesInside stack (text ++ pad) text.length info info := by
  by_cases hne : text = []
  · subst hne
    exact .done _ info
  · exact .noLine (List.length_pos_iff.mpr hne) (getItemLine_of_walk_nil h hne _) info

theorem getItemLine_lineAt {before body after : List Byte} (hstart : chr '$' ∉ before) (hnul : (0 : Byte) ∉ before)
    (hend : chr '*' ∉ body) (hnul' : (0 : Byte) ∉ body) (pad : List Byte) (len : Nat) :
    nmeaGetItemLine (before ++ chr '$' :: (body ++ chr '*' :: after) ++ pad) len =
      if (lineAt (chr '$' :: (body ++ chr '*' :: (after ++ pad)))).length ≤ lineSize then
        .ok (some (lineAt (chr '$' :: (body ++ chr '*' :: (after ++ pad))),
          chr '$' :: (body ++ chr '*' :: (after ++ pad)), min (before.length + body.length + 6) len))
      else .error .bounds := by
  have hmem : before ++ chr '$' :: (body ++ chr '*' :: after) ++ pad =
      before ++ chr '$' :: (body ++ chr '*' :: (after ++ pad)) := by simp
  have hlength : (chr '$' :: (body ++ [chr '*'])).length = body.length + 2 := by simp
  rw [hmem, getItemLine_line hstart hnul hend hnul', lineAt_eq hend, hlength]

theorem parsesInside_of_walk (h : Walk pad text starts) :
    ∀ {info info' : NmeaInfo F}, Along (takeLine stack) (LineFits stack) info starts →
      exec (takeLine stack) info starts = .ok info' → ParsesInside stack (text ++ pad) text.length info info' := by
  induction h with
  | done =>
      intro info info' _ hexec
      cases hexec
      exact .done _ info
  | @noStart text before tail h hstart hnul =>
      intro info info' _ hexec
      cases hexec
      exact parsesInside_of_walk_nil (.noStart h hstart hnul) info
  | @noEnd text before body tail h hstart hnul hend hnul' =>
      intro info info' _ hexec
      cases hexec
      exact parsesInside_of_walk_nil (.noEnd h hstart hnul hend hnul') info
  | @line before body after starts hstart hnul hend hnul' rest ih =>
      intro info info'' along hexec
      obtain ⟨info', hline, hexec⟩ := exec_cons_iff.mp hexec
      obtain ⟨⟨hfits, -⟩, hlater⟩ := along
      have hfound := (getItemLine_lineAt hstart hnul hend hnul' pad
        (before ++ chr '$' :: (body ++ chr '*' :: after)).length).trans (if_pos (Nat.le_of_lt hfits))
      have hrest := ih (hlater info' hline) hexec
      rw [takeLine_of_fits hfits] at hline
      refine .line (by rw [length_line]; omega) hfound hfits hline ?_
      rw [length_line, length_sub_line, List.append_assoc, List.cons_append, List.append_assoc, List.cons_append, drop_line]
      exact hrest

theorem walk_of_parsesInside (hpad : pad = [] ∨ ∃ tail, pad = 0 :: tail) {data : List Byte} {len : Nat}
    (h : ParsesInside stack data len info info') : ∀ text, data = text ++ pad → len = text.length →
      ∃ starts, Walk pad text starts ∧ Along (takeLine stack) (LineFits stack) info starts := by
  induction h with
  | done data info =>
      intro text _ hlength
      cases List.length_eq_zero_iff.mp hlength.symm
      exact ⟨[], .done, trivial⟩
  | @noLine data len hlen h info =>
      rintro text rfl rfl
      rcases walk_step hpad text with ⟨before, body, after, rfl, hstart, hnul, hend, hnul'⟩ | hwalk | ⟨rfl, -, hpast⟩
      · rw [getItemLine_lineAt hstart hnul hend hnul'] at h
        split at h <;> cases h
      · exact ⟨[], hwalk, trivial⟩
      · rw [List.append_nil, hpast] at h
        cases h
  | @line data line start len nbytes info info' info'' hlen h hfits hline hlater ih =>
      rintro text rfl rfl
      rcases walk_step hpad text with ⟨before, body, after, rfl, hstart, hnul, hend, hnul'⟩ | hwalk | ⟨rfl, -, hpast⟩
      · rw [getItemLine_lineAt hstart hnul hend hnul'] at h
        split at h
        next =>
          cases h
          rw [length_line, length_sub_line, List.append_assoc, List.cons_append, List.append_assoc, List.cons_append,
            drop_line] at ih
          obtain ⟨starts, hwalk, along⟩ := ih _ rfl rfl
          have htake : takeLine stack info _ = .ok info' := (takeLine_of_fits hfits info).trans hline
          have hsentence := (nmeaParseLine_ok_iff (lineAt_head? hend) (stack _) info).mp ⟨info', hline⟩
          refine ⟨_, .line hstart hnul hend hnul' hwalk, ⟨hfits, hsentence⟩, fun t ht => ?_⟩
          cases htake.symm.trans ht
          exact along
        next => cases h
      · rw [getItemLine_of_walk_nil hwalk (List.ne_nil_of_length_pos hlen)] at h
        cases h
      · rw [List.append_nil, hpast] at h
        cases h

theorem exec_of_along : ∀ {starts : List (List Byte)} {info : NmeaInfo F},
    (∀ start ∈ starts, (lineAt start).head? = some (chr '$')) →
      Along (takeLine stack) (LineFits stack) info starts → ∃ info', exec (takeLine stack) info starts = .ok info'
  | [], info, _, _ => ⟨info, rfl⟩
  | start :: starts, info, hstarts, along => by
      obtain ⟨⟨hfits, hsentence⟩, hlater⟩ := along
      obtain ⟨info', hline⟩ := (nmeaParseLine_ok_iff (hstarts start List.mem_cons_self) _ info).mpr hsentence
      have htake := (takeLine_of_fits hfits info).trans hline
      obtain ⟨info'', hexec⟩ := exec_of_along (fun start hmem => hstarts start (List.mem_cons_of_mem _ hmem))
        (hlater info' htake)
      exact ⟨info'', exec_cons_iff.mpr ⟨info', htake, hexec⟩⟩

theorem Walk.append (h : Walk [] text starts) (pad : List Byte) : Walk pad text (starts.map (· ++ pad)) := by
  induction h with
  | done => exact .done
  | @noStart text before tail h hstart hnul =>
      rw [List.append_nil] at h
      exact .noStart (show text ++ pad = before ++ 0 :: (tail ++ pad) by rw [h]; simp) hstart hnul
  | @noEnd text before body tail h hstart hnul hend hnul' =>
      rw [List.append_nil] at h
      exact .noEnd (show text ++ pad = before ++ chr '$' :: (body ++ 0 :: (tail ++ pad)) by rw [h]; simp)
        hstart hnul hend hnul'
  | @line before body after starts hstart hnul hend hnul' rest ih =>
      have hline := Walk.line hstart hnul hend hnul' ih
      rw [List.append_nil, List.map_cons]
      simpa using hline

end Lines

section Reads

variable {F : Type} [CDouble F] {info info' : NmeaInfo F} {r : Recv} {starts : List (List Byte)}

theorem recvStep_of_walk_inside (h : Walk [] r.bytes starts) (info : NmeaInfo F) :
    recvStep info r = exec (takeLine r.stackInside) info starts := by
  have hsame : ∀ start ∈ starts, ∀ info : NmeaInfo F,
      takeLine r.stack info (start ++ r.pad) = takeLine r.stackInside info start := by
    intro start hmem info
    obtain ⟨before, body, after, -, rfl, hend, -⟩ := h.mem_starts start hmem
    have hline : lineAt (chr '$' :: (body ++ chr '*' :: (after ++ [])) ++ r.pad) =
        lineAt (chr '$' :: (body ++ chr '*' :: (after ++ []))) := by
      rw [lineAt_eq hend, List.cons_append, List.append_assoc, List.cons_append, lineAt_eq hend]
    rw [takeLine, takeLine, hline]
    rfl
  rw [recvStep_of_walk (h.append r.pad), List.foldlM_map, ← foldlM_eq_exec]
  exact foldlM_congr hsame

theorem inBounds_iff (info : NmeaInfo F) (r : Recv) : InBounds info r ↔ ReadFits info r := by
  constructor
  · rintro ⟨info', hparses, -⟩
    exact walk_of_parsesInside (.inl rfl) hparses r.bytes (List.append_nil _).symm rfl
  · rintro ⟨starts, hwalk, along⟩
    obtain ⟨info', hexec⟩ := exec_of_along hwalk.starts_head? along
    have hparses := parsesInside_of_walk hwalk along hexec
    rw [List.append_nil] at hparses
    exact ⟨info', hparses, (recvStep_of_walk_inside hwalk info).trans hexec⟩

end Reads

/-- A run stays inside of what it receives and of its arrays if and only if every read fits. -/
theorem staysInBounds_iff {F : Type} [CDouble F] (info : NmeaInfo F) (reads : List Recv) :
    StaysInBounds info reads ↔ ReadsFit info reads :=
  along_iff_along (fun _ _ _ (_ : True) _ => trivial) (fun info r _ => inBounds_iff info r) trivial

def fullRead : Recv where
  bytes := List.replicate bufSize (chr 'A')
  stack := fun _ => [0]
  pos := by
    rw [List.length_replicate]
    decide
  fits := List.length_replicate.le

/-- The search for a `$` goes on behind a full buffer. -/
theorem full_buffer_not_inBounds :
    ¬ ∀ (F : Type) (_ : CDouble F) (info : NmeaInfo F) (reads : List Recv), StaysInBounds info reads := by
  intro h
  let := noDouble
  have hstart : chr '$' ∉ fullRead.bytes := fun hmem => absurd (List.eq_of_mem_replicate hmem) (by decide)
  have hnul : (0 : Byte) ∉ fullRead.bytes := fun hmem => absurd (List.eq_of_mem_replicate hmem) (by decide)
  have hpast : ∀ len, nmeaGetItemLine fullRead.bytes len = .error .bounds := by
    intro len
    rw [nmeaGetItemLine, strchr_past hstart hnul]
    rfl
  have hpos := fullRead.pos
  obtain ⟨info', hparses, -⟩ := (h Int noDouble coldStart [fullRead]).1
  generalize fullRead.bytes.length = len at hparses hpos
  cases hparses with
  | done => exact Nat.lt_irrefl 0 hpos
  | noLine _ hnone =>
      rw [hpast] at hnone
      cases hnone
  | line _ hline =>
      rw [hpast] at hline
      cases hline

end Fl2440.Gpsd
