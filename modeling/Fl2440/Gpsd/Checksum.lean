import Fl2440.Gpsd.Chunking
import Mathlib.Data.List.Sort

/-! The control sum that ends a sentence, which `nmea_get_item_line` does not look at: what
that does to a buffer with damaged sentences in it. -/
namespace Fl2440.Gpsd

open Fl2440.Lib

def checksum (body : List Byte) : Byte := body.foldl (· ^^^ ·) 0

def hexPair (high low : Byte) : Option Byte := do
  let high ← digitValue 16 high
  let low ← digitValue 16 low
  return BitVec.ofNat 8 (16 * high + low)

/-- `$`, a body with neither `$` nor `*`, `*`, and the control sum of the body. -/
def isSentence : List Byte → Bool
  | [] => false
  | dollar :: mem =>
      let body := mem.takeWhile (· ≠ chr '*')
      match mem.dropWhile (· ≠ chr '*') with
      | _ :: high :: low :: _ =>
          dollar = chr '$' && !body.contains (chr '$') && hexPair high low = some (checksum body)
      | _ => false

/-- The sentences of a buffer, each as what starts with it in memory. -/
def sentences : List Byte → List (List Byte)
  | [] => []
  | b :: mem => if isSentence (b :: mem) then (b :: mem) :: sentences mem else sentences mem

/-- Nothing of a line gets into `nmeaINFO`. -/
def Ignored (F : Type) [CDouble F] (line : List Byte) : Prop :=
  ∀ (stack : List Byte) (info : NmeaInfo F), nmeaParseLine line stack info = .ok info

/-- Every line that is cut out of the buffer fits, and is a sentence or of no effect; and
every sentence that is not cut out is of no effect. -/
def Genuine (F : Type) [CDouble F] (text : List Byte) : Prop :=
  ∃ starts, Walk [0] text starts ∧
    (∀ start ∈ starts, (lineAt start).length ≤ lineSize ∧ (isSentence start ∨ Ignored F (lineAt start))) ∧
    ∀ start ∈ sentences (text ++ [0]), start ∈ starts ∨ Ignored F (lineAt start)

section Sentences

variable {F : Type} [CDouble F] {pad text mem start : List Byte} {starts : List (List Byte)}

theorem mem_sentences_iff : start ∈ sentences mem ↔ start <:+ mem ∧ isSentence start = true := by
  induction mem with
  | nil =>
      refine iff_of_false List.not_mem_nil fun h => ?_
      rw [List.suffix_nil.mp h.1] at h
      exact Bool.noConfusion h.2
  | cons b mem ih =>
      have htail : (if isSentence (b :: mem) then (b :: mem) :: sentences mem else sentences mem) =
          sentences (b :: mem) := rfl
      rw [← htail, List.suffix_cons_iff]
      split
      next hsentence =>
        rw [List.mem_cons, ih]
        constructor
        · rintro (rfl | ⟨hsuffix, hstart⟩)
          · exact ⟨.inl rfl, hsentence⟩
          · exact ⟨.inr hsuffix, hstart⟩
        · rintro ⟨rfl | hsuffix, hstart⟩
          · exact .inl rfl
          · exact .inr ⟨hsuffix, hstart⟩
      next hnot =>
        rw [ih]
        constructor
        · exact fun ⟨hsuffix, hstart⟩ => ⟨.inr hsuffix, hstart⟩
        · rintro ⟨rfl | hsuffix, hstart⟩
          · exact absurd hstart hnot
          · exact ⟨hsuffix, hstart⟩

theorem pairwise_sentences : ∀ mem : List Byte,
    (sentences mem).Pairwise fun start later => later.length < start.length
  | [] => .nil
  | b :: mem => by
      rw [sentences]
      split
      · refine .cons (fun later hlater => ?_) (pairwise_sentences mem)
        exact Nat.lt_succ_of_le (mem_sentences_iff.mp hlater).1.length_le
      · exact pairwise_sentences mem

theorem Walk.suffix (h : Walk pad text starts) : ∀ start ∈ starts, start <:+ text ++ pad := by
  intro start hmem
  obtain ⟨before, body, after, rfl, rfl, -⟩ := h.mem_starts start hmem
  exact ⟨before, by simp⟩

theorem Walk.pairwise (h : Walk pad text starts) :
    starts.Pairwise fun start later => later.length < start.length := by
  induction h with
  | done | noStart | noEnd => exact .nil
  | @line before body after starts hstart hnul hend hnul' rest ih =>
      refine .cons (fun later hlater => ?_) ih
      have hle := (rest.suffix later hlater).length_le
      simp only [List.length_append, List.length_drop, List.length_cons] at hle ⊢
      omega

theorem eq_of_mem_iff {first second : List (List Byte)}
    (hfirst : first.Pairwise fun start later => later.length < start.length)
    (hsecond : second.Pairwise fun start later => later.length < start.length)
    (hmem : ∀ start, start ∈ first ↔ start ∈ second) : first = second := by
  have hnodup : ∀ {list : List (List Byte)}, (list.Pairwise fun start later => later.length < start.length) →
      list.Nodup := fun hlist =>
    List.Pairwise.imp (fun {start later} hlt (heq : start = later) => Nat.lt_irrefl start.length
      (by rwa [← heq] at hlt)) hlist
  exact List.Perm.eq_of_pairwise (fun _ _ _ _ hlt hgt => absurd hlt (Nat.lt_asymm hgt)) hfirst hsecond
    ((List.perm_ext_iff_of_nodup (hnodup hfirst) (hnodup hsecond)).mpr hmem)

/-- The lines that matter are the sentences that matter, in the same order, if and only if
there is none too many on either side. -/
theorem Walk.matters_eq_iff [DecidablePred fun start => Ignored F (lineAt start)] (h : Walk [0] text starts) :
    starts.filter (fun start => ¬ Ignored F (lineAt start)) =
        (sentences (text ++ [0])).filter (fun start => ¬ Ignored F (lineAt start)) ↔
      (∀ start ∈ starts, isSentence start ∨ Ignored F (lineAt start)) ∧
        ∀ start ∈ sentences (text ++ [0]), start ∈ starts ∨ Ignored F (lineAt start) := by
  constructor
  · intro heq
    have hmem : ∀ start, ¬ Ignored F (lineAt start) → (start ∈ starts ↔ start ∈ sentences (text ++ [0])) := by
      intro start hmatters
      have hboth := iff_of_eq (congrArg (start ∈ ·) heq)
      simpa [List.mem_filter, hmatters] using hboth
    refine ⟨fun start hstart => ?_, fun start hstart => ?_⟩
    · refine or_iff_not_imp_right.mpr fun hmatters => ?_
      exact (mem_sentences_iff.mp ((hmem start hmatters).mp hstart)).2
    · exact or_iff_not_imp_right.mpr fun hmatters => (hmem start hmatters).mpr hstart
  · rintro ⟨hstarts, hsentences⟩
    refine eq_of_mem_iff (h.pairwise.filter _) ((pairwise_sentences _).filter _) fun start => ?_
    rw [List.mem_filter, List.mem_filter]
    constructor
    · rintro ⟨hmem, hmatters⟩
      have hsentence := (hstarts start hmem).resolve_right (of_decide_eq_true hmatters)
      exact ⟨mem_sentences_iff.mpr ⟨h.suffix start hmem, hsentence⟩, hmatters⟩
    · rintro ⟨hmem, hmatters⟩
      exact ⟨(hsentences start hmem).resolve_right (of_decide_eq_true hmatters), hmatters⟩

/-- What is cut out of such a buffer is what should be. -/
theorem parse_eq_sentences (h : Genuine F text) (stack : List Byte → List Byte) (info : NmeaInfo F) :
    nmeaParse stack (text ++ [0]) text.length info = (sentences (text ++ [0])).foldlM
      (fun info start => nmeaParseLine (lineAt start) (stack start) info) info := by
  classical
  obtain ⟨starts, hwalk, hstarts, hsentences⟩ := h
  have hsame := hwalk.matters_eq_iff.mpr ⟨fun start hmem => (hstarts start hmem).2, hsentences⟩
  have hskip : ∀ start : List Byte, decide (¬ Ignored F (lineAt start)) = false →
      ∀ info : NmeaInfo F, nmeaParseLine (lineAt start) (stack start) info = .ok info := fun start hignored =>
    not_not.mp (of_decide_eq_false hignored) (stack start)
  have htake : starts.foldlM (takeLine stack) info =
      starts.foldlM (fun info start => nmeaParseLine (lineAt start) (stack start) info) info :=
    foldlM_congr fun start hmem info => if_pos (hstarts start hmem).1
  rw [nmeaParse, loop_of_walk hwalk info (Nat.le_refl _), htake,
    ← foldlM_filter_of_skip fun start _ => hskip start, hsame, foldlM_filter_of_skip fun start _ => hskip start]

end Sentences

theorem parse_eq_sentences_unknown_line :
    let := noDouble
    let text := ascii "$GPTXT*00\r\n" ++ ascii "$GPGSV,1,1,01,05,40,083,46*40\r\n"
    nmeaParse (fun _ => []) (text ++ [0]) text.length coldStart = (sentences (text ++ [0])).foldlM
      (fun info start => nmeaParseLine (lineAt start) [] info) coldStart := by
  let := noDouble
  have hwalk : Walk [0] (ascii "$GPTXT*00\r\n" ++ ascii "$GPGSV,1,1,01,05,40,083,46*40\r\n")
      [ascii "$GPTXT*00\r\n$GPGSV,1,1,01,05,40,083,46*40\r\n" ++ [0],
        ascii "$GPGSV,1,1,01,05,40,083,46*40\r\n" ++ [0]] :=
    @Walk.line [0] [] (ascii "GPTXT") (ascii "00\r\n" ++ ascii "$GPGSV,1,1,01,05,40,083,46*40\r\n") _ (by decide) (by decide) (by decide)
      (by decide) <| @Walk.line [0] [] (ascii "GPGSV,1,1,01,05,40,083,46") (ascii "40\r\n") _ (by decide) (by decide) (by decide) (by decide) .done
  refine parse_eq_sentences ⟨_, hwalk, ?_, ?_⟩ (fun _ => []) coldStart
  · intro start hstart
    rcases List.mem_cons.mp hstart with rfl | hstart
    · exact ⟨by decide, .inr fun _ _ => rfl⟩
    · rw [List.mem_singleton.mp hstart]
      exact ⟨by decide, .inl (by decide)⟩
  · have hone : sentences (ascii "$GPTXT*00\r\n" ++ ascii "$GPGSV,1,1,01,05,40,083,46*40\r\n" ++ [0]) =
        [ascii "$GPGSV,1,1,01,05,40,083,46*40\r\n" ++ [0]] := by decide +kernel
    rw [hone]
    exact fun start hstart => .inl (List.mem_cons_of_mem _ hstart)

/-- A sentence whose control sum is wrong gets into `nmeaINFO`. -/
theorem damaged_sentence_not_preserved :
    ¬ ∀ (F : Type) (_ : CDouble F) (stack : List Byte → List Byte) (text : List Byte) (info : NmeaInfo F),
      (0 : Byte) ∉ text → nmeaParse stack (text ++ [0]) text.length info =
        (sentences (text ++ [0])).foldlM
          (fun info start => nmeaParseLine (lineAt start) (stack start) info) info := by
  intro h
  let := noDouble
  have heq := h Int noDouble (fun _ => []) (ascii "$GPGSV,1,1,01,05,40,083,46*00\r\n") coldStart (by decide)
  have hmask := congrArg (fun result => result.toOption.map NmeaInfo.smask) heq
  exact absurd hmask (by decide +kernel)

end Fl2440.Gpsd
