import Fl2440.Gpsd.NmeaParse

/-! Which lines `nmea_parse` takes out of a buffer: `text` is the part that is left, `pad`
what follows it in the array. -/
namespace Fl2440.Gpsd

open Fl2440.Lib

/-- The lines, each as what starts with it in memory. Of the bytes that follow a `*` the
next four are passed over; the walk ends with the text or where a NUL comes first. -/
inductive Walk (pad : List Byte) : (text : List Byte) → (starts : List (List Byte)) → Prop
  | done : Walk pad [] []
  | noStart {text before tail : List Byte} (h : text ++ pad = before ++ 0 :: tail)
      (hstart : chr '$' ∉ before) (hnul : (0 : Byte) ∉ before) : Walk pad text []
  | noEnd {text before body tail : List Byte} (h : text ++ pad = before ++ chr '$' :: (body ++ 0 :: tail))
      (hstart : chr '$' ∉ before) (hnul : (0 : Byte) ∉ before) (hend : chr '*' ∉ body)
      (hnul' : (0 : Byte) ∉ body) : Walk pad text []
  | line {before body after : List Byte} {starts : List (List Byte)} (hstart : chr '$' ∉ before)
      (hnul : (0 : Byte) ∉ before) (hend : chr '*' ∉ body) (hnul' : (0 : Byte) ∉ body)
      (rest : Walk pad (after.drop 4) starts) :
      Walk pad (before ++ chr '$' :: (body ++ chr '*' :: after))
        ((chr '$' :: (body ++ chr '*' :: (after ++ pad))) :: starts)

def lineAt (start : List Byte) : List Byte := start.takeWhile (· ≠ chr '*') ++ [chr '*']

theorem lineAt_eq {body : List Byte} (h : chr '*' ∉ body) (after : List Byte) :
    lineAt (chr '$' :: (body ++ chr '*' :: after)) = chr '$' :: (body ++ [chr '*']) := by
  have hall : ∀ b ∈ chr '$' :: body, decide (b ≠ chr '*') = true := by
    intro b hb
    rcases List.mem_cons.mp hb with rfl | hb
    · decide
    · exact decide_eq_true fun heq => h (heq ▸ hb)
  have htake : (chr '$' :: (body ++ chr '*' :: after)).takeWhile (· ≠ chr '*') = chr '$' :: body := by
    rw [← List.cons_append, List.takeWhile_append_of_pos hall, List.takeWhile_cons_of_neg (by decide),
      List.append_nil]
  rw [lineAt, htake, List.cons_append]

variable {pad text : List Byte} {starts : List (List Byte)}

theorem Walk.mem_starts (h : Walk pad text starts) :
    ∀ start ∈ starts, ∃ before body after, text = before ++ chr '$' :: (body ++ chr '*' :: after) ∧
      start = chr '$' :: (body ++ chr '*' :: (after ++ pad)) ∧ chr '*' ∉ body ∧ (0 : Byte) ∉ body := by
  induction h with
  | done | noStart | noEnd => exact fun start hmem => absurd hmem List.not_mem_nil
  | @line before body after starts hstart hnul hend hnul' rest ih =>
      intro start hmem
      rcases List.mem_cons.mp hmem with rfl | hmem
      · exact ⟨before, body, after, rfl, rfl, hend, hnul'⟩
      · obtain ⟨before', body', after', htext, hstart', hbody⟩ := ih start hmem
        refine ⟨before ++ chr '$' :: (body ++ chr '*' :: (after.take 4 ++ before')), body', after', ?_, hstart',
          hbody⟩
        have hafter : after = after.take 4 ++ (before' ++ chr '$' :: (body' ++ chr '*' :: after')) := by
          rw [← htext, List.take_append_drop]
        conv => lhs; rw [hafter]
        simp

theorem not_mem_dollar {c : Byte} {body : List Byte} (hne : c ≠ chr '$') (h : c ∉ body) :
    c ∉ chr '$' :: body := fun hmem => h ((List.mem_cons.mp hmem).resolve_left hne)

theorem walk_step (hpad : pad = [] ∨ ∃ tail, pad = 0 :: tail) (text : List Byte) :
    (∃ before body after, text = before ++ chr '$' :: (body ++ chr '*' :: after) ∧ chr '$' ∉ before ∧
        (0 : Byte) ∉ before ∧ chr '*' ∉ body ∧ (0 : Byte) ∉ body) ∨
      Walk pad text [] ∨
      (pad = [] ∧ text ≠ [] ∧ ∀ len, nmeaGetItemLine text len = .error .bounds) := by
  rcases strchr_cases (chr '$') text with
    ⟨before, rest, htext, hstart, hnul⟩ | ⟨before, tail, htext, -, hstart, hnul⟩ | ⟨hstart, hnul⟩
  · rcases strchr_cases (chr '*') rest with
      ⟨body, after, hrest, hend, hnul'⟩ | ⟨body, tail, hrest, -, hend, hnul'⟩ | ⟨hend, hnul'⟩
    · exact .inl ⟨before, body, after, by rw [htext, hrest], hstart, hnul, hend, hnul'⟩
    · exact .inr (.inl (.noEnd (show text ++ pad = before ++ chr '$' :: (body ++ 0 :: (tail ++ pad)) by
        simp [htext, hrest]) hstart hnul hend hnul'))
    · rcases hpad with rfl | ⟨tail, rfl⟩
      · refine .inr (.inr ⟨rfl, by simp [htext], fun len => ?_⟩)
        rw [htext, nmeaGetItemLine, strchr_found hstart hnul, ok_bind]
        show (strchr (chr '*') _ >>= _) = _
        rw [strchr_past (not_mem_dollar (by decide) hend) (not_mem_dollar (by decide) hnul')]
        rfl
      · exact .inr (.inl (.noEnd (show text ++ 0 :: tail = before ++ chr '$' :: (rest ++ 0 :: tail) by
          simp [htext]) hstart hnul hend hnul'))
  · exact .inr (.inl (.noStart (show text ++ pad = before ++ 0 :: (tail ++ pad) by simp [htext]) hstart hnul))
  · rcases hpad with rfl | ⟨tail, rfl⟩
    · by_cases hempty : text = []
      · exact .inr (.inl (by rw [hempty]; exact .done))
      · refine .inr (.inr ⟨rfl, hempty, fun len => ?_⟩)
        rw [nmeaGetItemLine, strchr_past hstart hnul]
        rfl
    · exact .inr (.inl (.noStart (show text ++ 0 :: tail = text ++ 0 :: tail from rfl) hstart hnul))

theorem exists_walk (tail text : List Byte) : ∃ starts, Walk (0 :: tail) text starts := by
  rcases walk_step (.inr ⟨tail, rfl⟩) text with
    ⟨before, body, after, rfl, hstart, hnul, hend, hnul'⟩ | hwalk | ⟨hpad, -⟩
  · have hshorter : (after.drop 4).length < (before ++ chr '$' :: (body ++ chr '*' :: after)).length := by
      simp only [List.length_drop, List.length_append, List.length_cons]
      omega
    obtain ⟨starts, hrest⟩ := exists_walk tail (after.drop 4)
    exact ⟨_, .line hstart hnul hend hnul' hrest⟩
  · exact ⟨[], hwalk⟩
  · exact absurd hpad (List.cons_ne_nil 0 tail)
termination_by text.length

section Lines

variable {F : Type} [CDouble F] {stack : List Byte → List Byte} {info info' : NmeaInfo F}

def takeLine (stack : List Byte → List Byte) (info : NmeaInfo F) (start : List Byte) :
    Except Fault (NmeaInfo F) :=
  if (lineAt start).length ≤ lineSize then nmeaParseLine (lineAt start) (stack start) info
  else .error .bounds

theorem getItemLine_line {before body after : List Byte} {len : Nat} (hstart : chr '$' ∉ before)
    (hnul : (0 : Byte) ∉ before) (hend : chr '*' ∉ body) (hnul' : (0 : Byte) ∉ body) :
    nmeaGetItemLine (before ++ chr '$' :: (body ++ chr '*' :: after)) len =
      if body.length + 2 ≤ lineSize then
        .ok (some (chr '$' :: (body ++ [chr '*']), chr '$' :: (body ++ chr '*' :: after),
          min (before.length + body.length + 6) len))
      else .error .bounds := by
  have hstar : strchr (chr '*') (chr '$' :: (body ++ chr '*' :: after)) =
      .ok (some (chr '*' :: after)) := by
    show strchr (chr '*') ((chr '$' :: body) ++ chr '*' :: after) = _
    exact strchr_found (not_mem_dollar (by decide) hend)
      (not_mem_dollar (by decide) hnul')
  have hlen : (chr '$' :: (body ++ chr '*' :: after)).length - (chr '*' :: after).length + 1 =
      body.length + 2 := by
    simp only [List.length_cons, List.length_append]
    omega
  have hread : (before ++ chr '$' :: (body ++ chr '*' :: after)).length - (chr '*' :: after).length + 5 =
      before.length + body.length + 6 := by
    simp only [List.length_cons, List.length_append]
    omega
  have htake : (chr '$' :: (body ++ chr '*' :: after)).take (body.length + 2) =
      chr '$' :: (body ++ [chr '*']) := by
    have hsplit : chr '$' :: (body ++ chr '*' :: after) = (chr '$' :: (body ++ [chr '*'])) ++ after := by
      simp
    rw [hsplit]
    exact List.take_left' (by simp)
  rw [nmeaGetItemLine, strchr_found hstart hnul, ok_bind]
  show (strchr (chr '*') _ >>= _) = _
  rw [hstar, ok_bind]
  simp only [hlen, hread, htake]
  rfl

theorem drop_line (before body after pad : List Byte) :
    (before ++ chr '$' :: (body ++ chr '*' :: (after ++ pad))).drop
      (min (before.length + body.length + 6) (before.length + body.length + 2 + after.length)) = after.drop 4 ++ pad := by
  have hsplit : before ++ chr '$' :: (body ++ chr '*' :: (after ++ pad)) =
      (before ++ chr '$' :: (body ++ [chr '*'])) ++ (after ++ pad) := by simp
  have hmin : min (before.length + body.length + 6) (before.length + body.length + 2 + after.length) =
      (before ++ chr '$' :: (body ++ [chr '*'])).length + min 4 after.length := by
    simp only [List.length_append, List.length_cons, List.length_nil]
    omega
  rw [hsplit, hmin, List.drop_length_add_append, List.drop_append_of_le_length (Nat.min_le_right ..)]
  rcases Nat.le_total 4 after.length with hle | hle
  · rw [Nat.min_eq_left hle]
  · rw [Nat.min_eq_right hle, List.drop_eq_nil_of_le hle, List.drop_length]

theorem length_line (before body after : List Byte) :
    (before ++ chr '$' :: (body ++ chr '*' :: after)).length = before.length + body.length + 2 + after.length := by
  simp only [List.length_append, List.length_cons]
  omega

theorem length_sub_line (before body after : List Byte) :
    before.length + body.length + 2 + after.length -
      min (before.length + body.length + 6) (before.length + body.length + 2 + after.length) = (after.drop 4).length := by
  rw [List.length_drop]
  omega

theorem getItemLine_of_walk_nil (h : Walk pad text []) (hne : text ≠ []) (len : Nat) :
    nmeaGetItemLine (text ++ pad) len = .ok none := by
  cases h with
  | done => exact absurd rfl hne
  | noStart h hstart hnul =>
      rw [nmeaGetItemLine, h, strchr_absent (by decide) hstart hnul]
      rfl
  | @noEnd _ before body tail h hstart hnul hend hnul' =>
      have hstar : strchr (chr '*') (chr '$' :: (body ++ 0 :: tail)) = .ok none := by
        show strchr (chr '*') ((chr '$' :: body) ++ 0 :: tail) = _
        exact strchr_absent (by decide) (not_mem_dollar (by decide) hend)
          (not_mem_dollar (by decide) hnul')
      rw [nmeaGetItemLine, h, strchr_found hstart hnul, ok_bind]
      show (strchr (chr '*') _ >>= _) = _
      rw [hstar]
      rfl

theorem loop_line {before body after : List Byte} (hstart : chr '$' ∉ before) (hnul : (0 : Byte) ∉ before)
    (hend : chr '*' ∉ body) (hnul' : (0 : Byte) ∉ body) (fuel : Nat) (info : NmeaInfo F) :
    nmeaParseLoop stack (fuel + 1) (before ++ chr '$' :: (body ++ chr '*' :: after) ++ pad)
        (before ++ chr '$' :: (body ++ chr '*' :: after)).length info =
      takeLine stack info (chr '$' :: (body ++ chr '*' :: (after ++ pad))) >>= fun info =>
        nmeaParseLoop stack fuel (after.drop 4 ++ pad) (after.drop 4).length info := by
  have hmem : before ++ chr '$' :: (body ++ chr '*' :: after) ++ pad =
      before ++ chr '$' :: (body ++ chr '*' :: (after ++ pad)) := by simp
  have hpos : 0 < before.length + body.length + 2 + after.length := by omega
  have hsize : (chr '$' :: (body ++ [chr '*'])).length = body.length + 2 := by simp
  rw [hmem, length_line, nmeaParseLoop, if_pos hpos, getItemLine_line hstart hnul hend hnul', takeLine,
    lineAt_eq hend, hsize]
  split
  · rw [ok_bind]
    show (nmeaParseLine _ _ _ >>= _) = _
    refine congrArg _ (funext fun next => ?_)
    rw [drop_line, length_sub_line]
  · rfl

theorem loop_of_walk_nil (h : Walk pad text []) (fuel : Nat) (info : NmeaInfo F) :
    nmeaParseLoop stack fuel (text ++ pad) text.length info = .ok info := by
  cases fuel with
  | zero => rfl
  | succ fuel =>
      rw [nmeaParseLoop]
      split
      next hpos =>
        rw [getItemLine_of_walk_nil h (List.ne_nil_of_length_pos hpos)]
        rfl
      next => rfl

theorem loop_of_walk (h : Walk pad text starts) :
    ∀ {fuel : Nat} (info : NmeaInfo F), text.length ≤ fuel →
      nmeaParseLoop stack fuel (text ++ pad) text.length info = starts.foldlM (takeLine stack) info := by
  induction h with
  | done =>
      intro fuel info _
      cases fuel <;> rfl
  | @noStart text before tail h hstart hnul =>
      exact fun info _ => loop_of_walk_nil (.noStart h hstart hnul) _ info
  | @noEnd text before body tail h hstart hnul hend hnul' =>
      exact fun info _ => loop_of_walk_nil (.noEnd h hstart hnul hend hnul') _ info
  | @line before body after starts hstart hnul hend hnul' rest ih =>
      intro fuel info hfuel
      simp only [List.length_append, List.length_cons] at hfuel
      obtain ⟨fuel, rfl⟩ : ∃ n, fuel = n + 1 := ⟨fuel - 1, by omega⟩
      have hfuel' : (after.drop 4).length ≤ fuel := by
        rw [List.length_drop]
        omega
      rw [loop_line hstart hnul hend hnul', List.foldlM_cons]
      exact congrArg _ (funext fun next => ih next hfuel')

theorem walk_of_loop (hpad : pad = [] ∨ ∃ tail, pad = 0 :: tail) :
    ∀ (fuel : Nat) (text : List Byte) (info : NmeaInfo F), text.length ≤ fuel →
      nmeaParseLoop stack fuel (text ++ pad) text.length info = .ok info' → ∃ starts, Walk pad text starts
  | fuel, text, info, hfuel, h => by
      rcases walk_step hpad text with
        ⟨before, body, after, rfl, hstart, hnul, hend, hnul'⟩ | hwalk | ⟨rfl, hne, hpast⟩
      · simp only [List.length_append, List.length_cons] at hfuel
        obtain ⟨fuel, rfl⟩ : ∃ n, fuel = n + 1 := ⟨fuel - 1, by omega⟩
        rw [loop_line hstart hnul hend hnul'] at h
        obtain ⟨next, -, h⟩ := bind_eq_ok_iff.mp h
        have hfuel' : (after.drop 4).length ≤ fuel := by
          rw [List.length_drop]
          omega
        obtain ⟨starts, hrest⟩ := walk_of_loop hpad fuel (after.drop 4) next hfuel' h
        exact ⟨_, .line hstart hnul hend hnul' hrest⟩
      · exact ⟨[], hwalk⟩
      · have hpos := List.length_pos_of_ne_nil hne
        obtain ⟨fuel, rfl⟩ : ∃ n, fuel = n + 1 := ⟨fuel - 1, by omega⟩
        rw [List.append_nil, nmeaParseLoop, if_pos hpos, hpast] at h
        cases h

end Lines

end Fl2440.Gpsd
