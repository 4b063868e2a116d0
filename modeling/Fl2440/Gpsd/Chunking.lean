import Fl2440.Gpsd.Walk

/-! `start_gpsd_service`: what it makes of the stream depends on where the reads cut it,
unless nothing in the stream would have changed anything. -/
namespace Fl2440.Gpsd

open Fl2440.Lib

def bufSize : Nat := 1024

/-- One `comport_recv` that gets something, and what the stack holds when it is parsed. -/
structure Recv where
  bytes : List Byte
  stack : List Byte → List Byte
  pos : 0 < bytes.length
  fits : bytes.length ≤ bufSize

/-- What `memset` and `comport_recv` leave in `buf` behind what was received. -/
def Recv.pad (r : Recv) : List Byte := List.replicate (bufSize - r.bytes.length) 0

section Service

variable {F : Type} [CDouble F] {info info' : NmeaInfo F}

def recvStep (info : NmeaInfo F) (r : Recv) : Except Fault (NmeaInfo F) :=
  nmeaParse r.stack (r.bytes ++ r.pad) r.bytes.length info

def startGpsdService (info : NmeaInfo F) (reads : List Recv) : Except Fault (NmeaInfo F) :=
  exec recvStep info reads

end Service

def Cuts (stream : List Byte) (reads : List Recv) : Prop := reads.flatMap Recv.bytes = stream

/-- Every line of the stream that can come in one read fits into `line` and changes nothing;
and where 1024 bytes come at once, the search for lines stays inside `buf`. -/
structure Inert {F : Type} [CDouble F] (info : NmeaInfo F) (stream : List Byte) : Prop where
  line : ∀ before body after, stream = before ++ chr '$' :: (body ++ chr '*' :: after) → chr '*' ∉ body →
    (0 : Byte) ∉ body → body.length + 2 ≤ bufSize → body.length + 2 ≤ lineSize ∧
      ∀ stack, nmeaParseLine (chr '$' :: (body ++ [chr '*'])) stack info = .ok info
  full : ∀ before text after, stream = before ++ text ++ after → text.length = bufSize →
    ∃ starts, Walk [] text starts

section Chunks

variable {F : Type} [CDouble F] {info info' : NmeaInfo F} {stream : List Byte} {reads : List Recv}

theorem Recv.pad_cases (r : Recv) :
    (r.pad = [] ∧ r.bytes.length = bufSize) ∨ ∃ tail, r.pad = 0 :: tail := by
  have hfits := r.fits
  rcases Nat.lt_or_ge r.bytes.length bufSize with hlt | hge
  · obtain ⟨n, hn⟩ : ∃ n, bufSize - r.bytes.length = n + 1 := ⟨bufSize - r.bytes.length - 1, by omega⟩
    exact .inr ⟨List.replicate n 0, by rw [Recv.pad, hn, List.replicate_succ]⟩
  · refine .inl ⟨?_, by omega⟩
    rw [Recv.pad, Nat.sub_eq_zero_of_le hge, List.replicate_zero]

theorem recvStep_of_walk {r : Recv} {starts : List (List Byte)} (h : Walk r.pad r.bytes starts)
    (info : NmeaInfo F) : recvStep info r = starts.foldlM (takeLine r.stack) info :=
  loop_of_walk h info (Nat.le_refl _)

theorem exists_walk_of_recvStep {r : Recv} (h : recvStep info r = .ok info') :
    ∃ starts, Walk r.pad r.bytes starts :=
  walk_of_loop (r.pad_cases.imp_left And.left) _ _ info (Nat.le_refl _) h

theorem recvStep_single {r : Recv} (h : r.bytes.length = 1) (info : NmeaInfo F) :
    recvStep info r = .ok info := by
  obtain ⟨tail, hpad⟩ := r.pad_cases.resolve_left fun hfull => by
    have hsize : bufSize = 1024 := rfl
    omega
  obtain ⟨starts, hwalk⟩ := exists_walk tail r.bytes
  rw [← hpad] at hwalk
  cases starts with
  | nil => exact recvStep_of_walk hwalk info
  | cons start starts =>
      obtain ⟨before, body, after, htext, -⟩ := hwalk.mem_starts start List.mem_cons_self
      rw [htext] at h
      simp only [List.length_append, List.length_cons] at h
      omega

def singles (stack : List Byte → List Byte) (bytes : List Byte) : List Recv :=
  bytes.map fun b => ⟨[b], stack, Nat.one_pos, show 1 ≤ bufSize by decide⟩

theorem cuts_singles (stack : List Byte → List Byte) (bytes : List Byte) :
    Cuts bytes (singles stack bytes) := by
  induction bytes with
  | nil => rfl
  | cons b bytes ih => exact congrArg (b :: ·) ih

theorem service_singles (stack : List Byte → List Byte) (bytes : List Byte) (info : NmeaInfo F) :
    startGpsdService info (singles stack bytes) = .ok info := by
  induction bytes with
  | nil => rfl
  | cons b bytes ih =>
      show (recvStep info _ >>= _) = _
      rw [recvStep_single rfl, ok_bind]
      exact ih

theorem takeLine_inert (hinert : Inert info stream) {before body after pad : List Byte}
    (hstream : stream = before ++ chr '$' :: (body ++ chr '*' :: after)) (hend : chr '*' ∉ body)
    (hnul : (0 : Byte) ∉ body) (hlen : body.length + 2 ≤ bufSize) (stack : List Byte → List Byte) :
    takeLine stack info (chr '$' :: (body ++ chr '*' :: pad)) = .ok info := by
  obtain ⟨hsize, hsame⟩ := hinert.line before body after hstream hend hnul hlen
  have hlength : (chr '$' :: (body ++ [chr '*'])).length = body.length + 2 := by
    rw [List.length_cons, List.length_append]
    rfl
  rw [takeLine, lineAt_eq hend, if_pos (hlength.le.trans hsize)]
  exact hsame _

theorem recvStep_inert (hinert : Inert info stream) {r : Recv} {before after : List Byte}
    (hstream : stream = before ++ r.bytes ++ after) : recvStep info r = .ok info := by
  have hwalk : ∃ starts, Walk r.pad r.bytes starts := by
    rcases r.pad_cases with ⟨hpad, hfull⟩ | ⟨tail, hpad⟩
    · rw [hpad]
      exact hinert.full before r.bytes after hstream hfull
    · rw [hpad]
      exact exists_walk tail r.bytes
  obtain ⟨starts, hwalk⟩ := hwalk
  rw [recvStep_of_walk hwalk]
  refine foldlM_const fun start hmem => ?_
  obtain ⟨before', body, after', htext, rfl, hend, hnul⟩ := hwalk.mem_starts start hmem
  have hfits := r.fits
  rw [htext, List.length_append, List.length_cons, List.length_append, List.length_cons] at hfits
  have hline : stream = (before ++ before') ++ chr '$' :: (body ++ chr '*' :: (after' ++ after)) := by
    rw [hstream, htext]
    simp
  exact takeLine_inert hinert hline hend hnul (by omega) r.stack

theorem service_inert (hinert : Inert info stream) (hcuts : Cuts stream reads) :
    startGpsdService info reads = .ok info := by
  rw [startGpsdService, ← foldlM_eq_exec]
  refine foldlM_const fun r hr => ?_
  obtain ⟨first, later, rfl⟩ := List.append_of_mem hr
  have hread : stream = first.flatMap Recv.bytes ++ r.bytes ++ later.flatMap Recv.bytes := by
    rw [← hcuts, List.flatMap_append, List.flatMap_cons, List.append_assoc]
  exact recvStep_inert hinert hread

theorem service_alone (stack : List Byte → List Byte) (before after : List Byte) (r : Recv)
    (info : NmeaInfo F) :
    startGpsdService info (singles stack before ++ r :: singles stack after) = recvStep info r := by
  rw [startGpsdService, exec_append (service_singles stack before info)]
  show (recvStep info r >>= _) = _
  cases recvStep info r with
  | error e => rfl
  | ok next => exact service_singles stack after next

theorem cuts_alone (stack : List Byte → List Byte) (before after : List Byte) (r : Recv) :
    Cuts (before ++ r.bytes ++ after) (singles stack before ++ r :: singles stack after) := by
  have hbefore := cuts_singles stack before
  have hafter := cuts_singles stack after
  unfold Cuts at hbefore hafter ⊢
  rw [List.flatMap_append, List.flatMap_cons, hbefore, hafter, List.append_assoc]

/-- What a stream does to `nmeaINFO` is the same however it is cut, and whatever the stack holds. -/
def Unchunked (info : NmeaInfo F) (stream : List Byte) : Prop :=
  ∀ reads reads', Cuts stream reads → Cuts stream reads' → ∃ result,
    startGpsdService info reads = .ok result ∧ startGpsdService info reads' = .ok result

theorem Unchunked.alone (h : Unchunked info stream) {before after : List Byte} {r : Recv}
    (hstream : stream = before ++ r.bytes ++ after) : recvStep info r = .ok info := by
  subst hstream
  obtain ⟨result, halone, hsingle⟩ :=
    h _ _ (cuts_alone r.stack before after r) (cuts_singles r.stack (before ++ r.bytes ++ after))
  rw [service_alone] at halone
  rw [service_singles] at hsingle
  cases hsingle
  exact halone

theorem recvStep_line {r : Recv} {body : List Byte} (hbytes : r.bytes = chr '$' :: (body ++ [chr '*']))
    (hend : chr '*' ∉ body) (hnul : (0 : Byte) ∉ body) (info : NmeaInfo F) :
    recvStep info r = takeLine r.stack info (chr '$' :: (body ++ chr '*' :: r.pad)) := by
  have hwalk : Walk r.pad r.bytes [chr '$' :: (body ++ chr '*' :: r.pad)] := by
    rw [hbytes]
    show Walk r.pad ([] ++ chr '$' :: (body ++ chr '*' :: [])) [chr '$' :: (body ++ chr '*' :: ([] ++ r.pad))]
    exact .line List.not_mem_nil List.not_mem_nil hend hnul .done
  rw [recvStep_of_walk hwalk, List.foldlM_cons]
  exact bind_pure _

theorem Unchunked.line (h : Unchunked info stream) {before body after : List Byte}
    (hstream : stream = before ++ chr '$' :: (body ++ chr '*' :: after)) (hend : chr '*' ∉ body)
    (hnul : (0 : Byte) ∉ body) (hlen : body.length + 2 ≤ bufSize) (stack : List Byte) :
    body.length + 2 ≤ lineSize ∧ nmeaParseLine (chr '$' :: (body ++ [chr '*'])) stack info = .ok info := by
  have hsize : (chr '$' :: (body ++ [chr '*'])).length = body.length + 2 := by simp
  let r : Recv := ⟨chr '$' :: (body ++ [chr '*']), fun _ => stack, by omega, by omega⟩
  have halone : recvStep info r = .ok info :=
    h.alone (show stream = before ++ r.bytes ++ after by simp [r, hstream])
  rw [recvStep_line rfl hend hnul, takeLine, lineAt_eq hend, hsize] at halone
  split at halone
  next hfits => exact ⟨hfits, halone⟩
  next => cases halone

theorem Unchunked.full (h : Unchunked info stream) {before text after : List Byte}
    (hstream : stream = before ++ text ++ after) (hfull : text.length = bufSize) :
    ∃ starts, Walk [] text starts := by
  let r : Recv := ⟨text, fun _ => [], hfull ▸ show 0 < bufSize by decide, hfull.le⟩
  have hpad : r.pad = [] := by rw [Recv.pad, hfull, Nat.sub_self, List.replicate_zero]
  have halone : recvStep info r = .ok info := h.alone hstream
  exact hpad ▸ exists_walk_of_recvStep halone

/-- The reads can be cut anywhere if and only if no line would change anything. -/
theorem unchunked_iff (info : NmeaInfo F) (stream : List Byte) :
    Unchunked info stream ↔ Inert info stream :=
  ⟨fun h => ⟨fun _ _ _ hstream hend hnul hlen =>
      ⟨(h.line hstream hend hnul hlen []).1, fun stack => (h.line hstream hend hnul hlen stack).2⟩,
    fun _ _ _ hstream hfull => h.full hstream hfull⟩,
  fun hinert _ _ hcuts hcuts' => ⟨info, service_inert hinert hcuts, service_inert hinert hcuts'⟩⟩

end Chunks

@[reducible] def noDouble : CDouble Int := ⟨0, fun _ => 0, Int.neg, id⟩

def coldStart : NmeaInfo Int where
  smask := 0
  utc := {}
  sig := nmeaSigBad
  fix := nmeaFixBad
  PDOP := 0
  HDOP := 0
  VDOP := 0
  lat := 0
  lon := 0
  elv := 0
  speed := 0
  direction := 0
  declination := 0
  satinfo := ⟨0, 0, Vector.replicate nmeaMaxsat {}⟩

/-- A sentence in one read, and the same byte by byte. -/
theorem split_sentence_not_preserved :
    ¬ ∀ (F : Type) (_ : CDouble F) (info : NmeaInfo F) (stream : List Byte), Unchunked info stream := by
  intro h
  let whole : Recv := ⟨ascii "$GPGSV,1,1,01,05,40,083,46*40", fun _ => [], by decide, by decide⟩
  let := noDouble
  obtain ⟨result, hwhole, hsingle⟩ := h Int noDouble coldStart whole.bytes [whole]
    (singles whole.stack whole.bytes) (List.append_nil _) (cuts_singles _ _)
  rw [service_singles] at hsingle
  cases hsingle
  have hmask : (startGpsdService coldStart [whole]).toOption.map (·.smask) = some 0 :=
    congrArg (fun result => result.toOption.map NmeaInfo.smask) hwhole
  exact absurd hmask (by decide +kernel)

end Fl2440.Gpsd
