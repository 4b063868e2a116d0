import Fl2440.Gpsd.NmeaParse
import Fl2440.Lib.Stdio

/-! Which lines `nmea_parse_line` can parse inside of its arrays: `time_buff` takes the first
field, whatever its length; a GSA sentence goes over as many satellites as an earlier sentence
said there are, and a GSV sentence writes where its own index and total say. -/
namespace Fl2440.Gpsd

open Fl2440.Lib

def timeField (line : List Byte) : List Byte := (line.drop 7).takeWhile (· ≠ chr ',')

/-- The first field fits into `time_buff`; if it is empty and all fields are there, the stack
holds a NUL where `time_buff` is. -/
structure TimeFits (line stack : List Byte) (complete : Prop) : Prop where
  room : (line.drop 6).head? = some (chr ',') → (timeField line).length < nmeaTimeparseBuf
  nul : complete → timeField line = [] → (0 : Byte) ∈ stack

def ggaFormat : List Byte := ascii "$GPGGA,%s,%f,%C,%f,%C,%d,%d,%f,%f,%C,%f,%C,%f,%d*"

def rmcFormat : List Byte := ascii "$GPRMC,%s,%C,%f,%C,%f,%C,%f,%f,%2d%2d%2d,%f,%C,%C*"

def ggaComplete (line : List Byte) : Prop := (nmeaScanf .compare ggaFormat line).length = 14

def rmcComplete (line : List Byte) : Prop :=
  (nmeaScanf .compare rmcFormat line).length = 13 ∨ (nmeaScanf .compare rmcFormat line).length = 14

/-- Where in `sat` the satellites of a GSV sentence with this index go. -/
def gsvFirst (packIndex : Int) : Int := cint (cint ((if packIndex < 1 then 1 else packIndex) - 1) * nmeaSatinpack)

/-- A GSV sentence is refused; or its satellites start at one of the first three packs, and
the total is not so far below zero that the number of them overflows; or it has none. -/
def GsvFits (pack : NmeaGPGSV) : Prop :=
  pack.packIndex > pack.packCount ∨ cint (pack.packIndex * nmeaSatinpack) > nmeaMaxsat ∨
    (0 ≤ gsvFirst pack.packIndex ∧ gsvFirst pack.packIndex ≤ 8 ∧ gsvFirst pack.packIndex - 2 ^ 31 ≤ pack.satCount) ∨
      (gsvFirst pack.packIndex < 0 ∧ pack.satCount ≤ gsvFirst pack.packIndex)

def SentenceFits (F : Type) [CDouble F] (line stack : List Byte) (inview : Int) : Prop :=
  match nmeaPackType (line.drop 1) line.length with
  | .gga => TimeFits line stack (ggaComplete line)
  | .rmc => TimeFits line stack (rmcComplete line)
  | .gsa => ∀ pack : NmeaGPGSA F, nmeaParseGPGSA line = some pack → (∃ prn ∈ pack.satPrn, prn ≠ 0) → inview ≤ nmeaMaxsat
  | .gsv => ∀ pack, nmeaParseGPGSV line = some pack → GsvFits pack
  | .vtg | .non => True

section Time

variable {line stack rest : List Byte}

theorem nmeaScanf_text {text : List Byte} (h : chr '%' ∉ text) (format rest : List Byte) :
    nmeaScanf .compare (text ++ format) (text ++ rest) = nmeaScanf .compare format rest := by
  induction text with
  | nil => rfl
  | cons b text ih =>
      have hb : b ≠ chr '%' := fun heq => h (heq ▸ List.mem_cons_self)
      rw [List.cons_append, List.cons_append, nmeaScanf, if_neg hb, if_pos rfl,
        ih fun hmem => h (List.mem_cons_of_mem b hmem)]

def storedText (field : List Byte) : Stored := if field = [] then .nothing else .str field

theorem storeField_text (field : List Byte) : storeField (chr 's') field = some (storedText field) := by
  have hchar : ¬ (chr 's' = chr 'c' || chr 's' = chr 'C') = true := by decide
  have htext : (chr 's' = chr 's' || chr 's' = chr 'S') = true := by decide
  rw [storeField, storedText]
  by_cases h : field = []
  · rw [if_pos h, if_pos h]
  · rw [if_neg h, if_neg h, if_neg hchar, if_pos htext]

theorem scanField_text (next : Byte) (buff : List Byte) :
    scanField (chr 's') (some next) [] buff = some (buff.takeWhile (· ≠ next), buff.dropWhile (· ≠ next)) := by
  have hchar : (chr 's' = chr 'c' || chr 's' = chr 'C') = false := by decide
  simp [scanField, hchar]

theorem nmeaScanf_field (format : List Byte) {b next : Byte} :
    nmeaScanf .compare (chr ',' :: chr '%' :: chr 's' :: chr ',' :: format) (b :: next :: rest) =
      if b = chr ',' then storedText ((next :: rest).takeWhile (· ≠ chr ',')) ::
        nmeaScanf .compare (chr ',' :: format) ((next :: rest).dropWhile (· ≠ chr ','))
      else [] := by
  have hcomma : ¬ chr ',' = chr '%' := by decide
  have hdigit : ¬ isDigit (chr 's') = true := by decide
  rw [nmeaScanf, if_neg hcomma]
  by_cases hb : b = chr ','
  · rw [if_pos hb, if_pos hb, nmeaScanf, if_pos rfl, nmeaScanf, if_neg hdigit]
    simp only [List.head?_cons, scanField_text, storeField_text]
  · rw [if_neg hb, if_neg hb]

theorem drop_kind {kind : List Byte} (hlength : kind.length = 6) (rest : List Byte) :
    (kind ++ rest).drop 7 = rest.drop 1 := by
  have hdrop : (kind ++ rest).drop (kind.length + 1) = rest.drop 1 := List.drop_length_add_append 1
  rwa [hlength] at hdrop

theorem head?_nmeaScanf {kind : List Byte} (hlength : kind.length = 6) (hkind : chr '%' ∉ kind) (format rest : List Byte) :
    (nmeaScanf .compare (kind ++ chr ',' :: chr '%' :: chr 's' :: chr ',' :: format) (kind ++ rest)).head? =
      if rest.head? = some (chr ',') ∧ 2 ≤ rest.length then some (storedText (timeField (kind ++ rest))) else none := by
  have hfield : timeField (kind ++ rest) = (rest.drop 1).takeWhile (· ≠ chr ',') := by
    rw [timeField, drop_kind hlength]
  rw [nmeaScanf_text hkind, hfield]
  match rest with
  | [] => rfl
  | [b] =>
      rw [if_neg fun h => absurd h.2 (by simp), nmeaScanf, if_neg (by decide)]
      split <;> rfl
  | b :: next :: rest =>
      rw [nmeaScanf_field]
      by_cases hb : b = chr ','
      · rw [if_pos hb, if_pos ⟨congrArg some hb, by simp⟩]
        rfl
      · rw [if_neg hb, if_neg fun h => hb (Option.some.inj h.1)]
        rfl

theorem cstr_ok_iff (mem : List Byte) : (∃ s, cstr mem = .ok s) ↔ (0 : Byte) ∈ mem := by
  constructor
  · rintro ⟨s, hs⟩
    obtain ⟨-, tail, rfl⟩ := cstr_eq_ok_iff.mp hs
    simp
  · intro h
    obtain ⟨tail, htail⟩ := split_nul h
    refine ⟨mem.takeWhile (· ≠ 0), cstr_eq_ok_iff.mpr ⟨nul_notMem_takeWhile mem, tail, htail⟩⟩

theorem timeParse_ok_iff {α : Type} (kind : List Byte) {format : List Byte} (hlength : kind.length = 6)
    (hkind : chr '%' ∉ kind) {stored : List Stored}
    (hstored : stored = nmeaScanf .compare (kind ++ chr ',' :: chr '%' :: chr 's' :: chr ',' :: format) (kind ++ rest))
    {short complete : Prop} [Decidable short] (hshort : short ↔ ¬ complete) (hcomplete : complete → stored ≠ [])
    (finish : List Byte → Option α) :
    (∃ pack, (do
        let time ← timeBuff stack stored
        if short then return none
        else
          let time ← cstr time
          return finish time) = .ok pack) ↔ TimeFits (kind ++ rest) stack complete := by
  have hhead := head?_nmeaScanf hlength hkind format rest
  rw [← hstored] at hhead
  have hcomma : ((kind ++ rest).drop 6).head? = rest.head? := by
    rw [← hlength, List.drop_left]
  by_cases hthere : rest.head? = some (chr ',') ∧ 2 ≤ rest.length
  · rw [if_pos hthere, storedText] at hhead
    by_cases hempty : timeField (kind ++ rest) = []
    · rw [if_pos hempty] at hhead
      have htime : timeBuff stack stored = .ok stack := by simp only [timeBuff, hhead]
      have hroom : (timeField (kind ++ rest)).length < nmeaTimeparseBuf := by
        rw [hempty]
        decide
      rw [htime, ok_bind]
      by_cases hcounted : complete
      · rw [if_neg fun h => hshort.mp h hcounted]
        constructor
        · rintro ⟨pack, hpack⟩
          obtain ⟨time, htime, -⟩ := bind_eq_ok_iff.mp hpack
          exact ⟨fun _ => hroom, fun _ _ => (cstr_ok_iff stack).mp ⟨time, htime⟩⟩
        · intro h
          obtain ⟨time, htime⟩ := (cstr_ok_iff stack).mpr (h.nul hcounted hempty)
          exact ⟨finish time, by rw [htime]; rfl⟩
      · rw [if_pos (hshort.mpr hcounted)]
        exact iff_of_true ⟨none, rfl⟩ ⟨fun _ => hroom, fun h => absurd h hcounted⟩
    · rw [if_neg hempty] at hhead
      have hfits : TimeFits (kind ++ rest) stack complete ↔ (timeField (kind ++ rest)).length < nmeaTimeparseBuf :=
        ⟨fun h => h.room (hcomma.trans hthere.1), fun h => ⟨fun _ => h, fun _ heq => absurd heq hempty⟩⟩
      rw [hfits]
      by_cases hroom : (timeField (kind ++ rest)).length < nmeaTimeparseBuf
      · have htime : timeBuff stack stored = .ok (timeField (kind ++ rest) ++
            0 :: stack.drop ((timeField (kind ++ rest)).length + 1)) := by
          simp only [timeBuff, hhead, if_pos hroom]
        refine iff_of_true ?_ hroom
        rw [htime, ok_bind]
        by_cases hcounted : complete
        · obtain ⟨time, htime⟩ := (cstr_ok_iff (timeField (kind ++ rest) ++
            0 :: stack.drop ((timeField (kind ++ rest)).length + 1))).mpr (by simp)
          exact ⟨finish time, by rw [if_neg fun h => hshort.mp h hcounted, htime]; rfl⟩
        · exact ⟨none, if_pos (hshort.mpr hcounted)⟩
      · have htime : timeBuff stack stored = .error .bounds := by
          simp only [timeBuff, hhead, if_neg hroom]
        rw [htime]
        exact iff_of_false (fun ⟨_, heq⟩ => nomatch heq) hroom
  · rw [if_neg hthere] at hhead
    have hnone := List.head?_eq_none_iff.mp hhead
    have hcounted : ¬ complete := fun h => hcomplete h hnone
    have htime : timeBuff stack stored = .ok stack := by simp only [timeBuff, hhead]
    rw [htime, ok_bind, if_pos (hshort.mpr hcounted)]
    refine iff_of_true ⟨none, rfl⟩ ⟨fun hsign => ?_, fun h => absurd h hcounted⟩
    rw [hcomma] at hsign
    obtain ⟨later, rfl⟩ := List.head?_eq_some_iff.mp hsign
    have hlast : later = [] := by
      cases later with
      | nil => rfl
      | cons next later => exact absurd ⟨rfl, by simp⟩ hthere
    rw [hlast, timeField, drop_kind hlength]
    decide

end Time

section Satellites

variable {F : Type} [CDouble F] {prn inview : Int}

theorem range_below_iff (inview : Int) :
    (∀ j ∈ List.range inview.toNat, j < nmeaMaxsat) ↔ inview ≤ nmeaMaxsat := by
  simp only [List.mem_range]
  constructor
  · intro h
    by_contra hmany
    exact absurd (h nmeaMaxsat (by omega)) (Nat.lt_irrefl _)
  · intro h j hj
    omega

theorem markUsed_ok_iff (prn inview : Int) (marked : Vector NmeaSatellite nmeaMaxsat × Int) :
    (∃ marked', markUsed prn inview marked = .ok marked') ↔ (prn ≠ 0 → inview ≤ nmeaMaxsat) := by
  rw [markUsed]
  by_cases hprn : prn = 0
  · rw [if_pos hprn]
    exact iff_of_true ⟨marked, rfl⟩ fun hne => absurd hprn hne
  · rw [if_neg hprn, imp_iff_right hprn, ← range_below_iff]
    apply foldlM_ok_iff
    rintro ⟨sat, nuse⟩ j
    dsimp only
    by_cases hj : j < nmeaMaxsat
    · rw [dif_pos hj]
      refine iff_of_true ?_ hj
      split
      · exact ⟨_, rfl⟩
      · exact ⟨_, rfl⟩
    · rw [dif_neg hj]
      exact iff_of_false (fun ⟨_, heq⟩ => nomatch heq) hj

omit [CDouble F] in
theorem nmeaGPGSA2info_ok_iff (pack : NmeaGPGSA F) (info : NmeaInfo F) :
    (∃ info', nmeaGPGSA2info pack info = .ok info') ↔
      ((∃ prn ∈ pack.satPrn, prn ≠ 0) → info.satinfo.inview ≤ nmeaMaxsat) := by
  have hmem : ((∃ prn ∈ pack.satPrn, prn ≠ 0) → info.satinfo.inview ≤ nmeaMaxsat) ↔
      ∀ prn ∈ pack.satPrn, prn ≠ 0 → info.satinfo.inview ≤ nmeaMaxsat :=
    ⟨fun h prn hprn hne => h ⟨prn, hprn, hne⟩, fun h ⟨prn, hprn, hne⟩ => h prn hprn hne⟩
  rw [hmem, nmeaGPGSA2info]
  refine (exists_bind_ok_iff fun marked => ⟨_, rfl⟩).trans ?_
  exact foldlM_ok_iff fun marked prn => markUsed_ok_iff prn info.satinfo.inview marked

theorem strtol_bounds (radix : Nat) (s : List Byte) : -2 ^ 31 ≤ strtol radix s ∧ strtol radix s < 2 ^ 31 := by
  rw [strtol]
  dsimp only
  split <;> omega

theorem nmeaAtoi_bounds (str : List Byte) (radix : Nat) : -2 ^ 31 ≤ nmeaAtoi str radix ∧ nmeaAtoi str radix < 2 ^ 31 := by
  rw [nmeaAtoi]
  split
  · exact strtol_bounds radix str
  · decide

theorem storeField_bounds {conv : Byte} {field : List Byte} {n : Int} (h : storeField conv field = some (.int n)) :
    -2 ^ 31 ≤ n ∧ n < 2 ^ 31 := by
  have hint : ∀ radix, some (Stored.int (nmeaAtoi field radix)) = some (.int n) → -2 ^ 31 ≤ n ∧ n < 2 ^ 31 := by
    intro radix heq
    cases heq
    exact nmeaAtoi_bounds field radix
  rw [storeField] at h
  split at h
  · cases h
  split at h
  · cases hfield : field.head? with
    | none => simp [hfield] at h
    | some b => simp [hfield] at h
  split at h
  · cases h
  split at h
  · cases h
  split at h
  · exact hint 10 h
  split at h
  · exact hint 16 h
  split at h
  · exact hint 8 h
  · cases h

theorem nmeaScanf_bounds {tok : TokType} {format buff : List Byte} {n : Int} :
    Stored.int n ∈ nmeaScanf tok format buff → -2 ^ 31 ≤ n ∧ n < 2 ^ 31 := by
  fun_induction nmeaScanf tok format buff with
  | case1 | case2 | case5 | case7 => exact fun h => nomatch h
  | case3 _ _ _ ih => exact ih
  | case4 _ _ _ _ ih => exact ih
  | case6 _ _ _ _ _ _ ih => exact ih
  | case8 =>
      intro h
      cases List.mem_singleton.mp h
  | case9 _ _ _ _ _ _ _ _ _ _ hstored ih =>
      intro h
      rcases List.mem_cons.mp h with rfl | h
      · exact storeField_bounds hstored
      · exact ih h

theorem intAt_bounds {stored : List Stored} (h : ∀ n, Stored.int n ∈ stored → -2 ^ 31 ≤ n ∧ n < 2 ^ 31) (i : Nat) :
    -2 ^ 31 ≤ intAt stored i ∧ intAt stored i < 2 ^ 31 := by
  rw [intAt]
  split
  next n hn => exact h n (List.mem_of_getElem? hn)
  next => decide

theorem gsvFirst_cases {packIndex : Int} (hpacks : cint (packIndex * nmeaSatinpack) ≤ nmeaMaxsat) :
    (0 ≤ gsvFirst packIndex ∧ gsvFirst packIndex ≤ 8) ∨ (-2 ^ 31 ≤ gsvFirst packIndex ∧ gsvFirst packIndex < 0) ∨
      gsvFirst packIndex = 2 ^ 31 - 4 := by
  have hpack : nmeaSatinpack = 4 := rfl
  have hmax : (nmeaMaxsat : Int) = 12 := rfl
  unfold gsvFirst
  rw [hpack] at hpacks ⊢
  rw [hmax] at hpacks
  obtain ⟨k, hk, hlow, hhigh⟩ := cint_eq (packIndex * 4)
  generalize hi : (if packIndex < 1 then 1 else packIndex) = i
  obtain ⟨k₁, hk₁, hlow₁, hhigh₁⟩ := cint_eq (i - 1)
  obtain ⟨k₂, hk₂, hlow₂, hhigh₂⟩ := cint_eq (cint (i - 1) * 4)
  split at hi <;> omega

theorem gsv_loop_iff {packIndex satCount : Int} (hlow : -2 ^ 31 ≤ satCount)
    (hhigh : satCount < 2 ^ 31) (hpacks : cint (packIndex * nmeaSatinpack) ≤ nmeaMaxsat) :
    (∀ isat ∈ List.range (gsvCount (if packIndex < 1 then 1 else packIndex) satCount).toNat,
      isat < 4 ∧ 0 ≤ gsvFirst packIndex + isat ∧ (gsvFirst packIndex + isat).toNat < nmeaMaxsat) ↔
      (0 ≤ gsvFirst packIndex ∧ gsvFirst packIndex ≤ 8 ∧ gsvFirst packIndex - 2 ^ 31 ≤ satCount) ∨
        (gsvFirst packIndex < 0 ∧ satCount ≤ gsvFirst packIndex) := by
  have hcount : gsvCount (if packIndex < 1 then 1 else packIndex) satCount =
      if satCount < cint (gsvFirst packIndex + nmeaSatinpack) then cint (satCount - gsvFirst packIndex)
      else nmeaSatinpack := rfl
  have hpack : nmeaSatinpack = 4 := rfl
  have hmax : nmeaMaxsat = 12 := rfl
  have hcases := gsvFirst_cases hpacks
  rw [hcount, hpack, hmax]
  generalize gsvFirst packIndex = first at hcases
  obtain ⟨k₁, hk₁, hlow₁, hhigh₁⟩ := cint_eq (first + 4)
  obtain ⟨k₂, hk₂, hlow₂, hhigh₂⟩ := cint_eq (satCount - first)
  simp only [List.mem_range]
  constructor
  · intro h
    have hnone := h 0
    have hfour := h 4
    split at hnone <;> omega
  · intro h isat hisat
    split at hisat <;> omega
omit [CDouble F] in
theorem nmeaGPGSV2info_ok_iff {pack : NmeaGPGSV} (hlow : -2 ^ 31 ≤ pack.satCount) (hhigh : pack.satCount < 2 ^ 31)
    (info : NmeaInfo F) : (∃ info', nmeaGPGSV2info pack info = .ok info') ↔ GsvFits pack := by
  rw [nmeaGPGSV2info, GsvFits]
  split
  next hrefused =>
    rw [Bool.or_eq_true, decide_eq_true_eq, decide_eq_true_eq] at hrefused
    exact iff_of_true ⟨info, rfl⟩ (hrefused.imp_right .inl)
  next hrefused =>
    rw [Bool.or_eq_true, decide_eq_true_eq, decide_eq_true_eq, not_or] at hrefused
    obtain ⟨hindex, hpacks⟩ := hrefused
    rw [or_iff_right hindex, or_iff_right hpacks, ← gsv_loop_iff hlow hhigh (Int.not_lt.mp hpacks)]
    refine (exists_bind_ok_iff fun sat => ⟨_, rfl⟩).trans (foldlM_ok_iff fun sat isat => ?_)
    by_cases hin : isat < 4 ∧ 0 ≤ gsvFirst pack.packIndex + (isat : Int) ∧
        (gsvFirst pack.packIndex + (isat : Int)).toNat < nmeaMaxsat
    · exact iff_of_true ⟨_, dif_pos hin⟩ hin
    · exact iff_of_false (fun ⟨_, heq⟩ => nomatch (dif_neg hin).symm.trans heq) hin

end Satellites

section Line

variable {F : Type} [CDouble F] {line stack : List Byte}

theorem nmeaPackType_cases (buff : List Byte) (size : Nat) :
    (nmeaPackType buff size = .gga → buff.take 5 = ascii "GPGGA") ∧
      (nmeaPackType buff size = .rmc → buff.take 5 = ascii "GPRMC") := by
  rw [nmeaPackType]
  split
  next => simp
  split
  next hgga => simp [hgga]
  split
  next => simp
  split
  next => simp
  split
  next hrmc => simp [hrmc]
  split <;> simp

theorem nmeaParseGPGSV_bounds {pack : NmeaGPGSV} (h : nmeaParseGPGSV line = some pack) :
    -2 ^ 31 ≤ pack.satCount ∧ pack.satCount < 2 ^ 31 := by
  rw [nmeaParseGPGSV] at h
  split at h
  · cases h
  · cases h
    exact intAt_bounds (fun _ => nmeaScanf_bounds) 2

theorem nmeaParseGPGGA_ok_iff (rest stack : List Byte) :
    (∃ pack : Option (NmeaGPGGA F), nmeaParseGPGGA (ascii "$GPGGA" ++ rest) stack = .ok pack) ↔
      TimeFits (ascii "$GPGGA" ++ rest) stack (ggaComplete (ascii "$GPGGA" ++ rest)) := by
  have hformat : ggaFormat = ascii "$GPGGA" ++ chr ',' :: chr '%' :: chr 's' :: chr ',' :: ggaFormat.drop 10 := by
    decide +kernel
  have hstored := congrArg (fun format => nmeaScanf .compare format (ascii "$GPGGA" ++ rest)) hformat
  have hshort : (nmeaScanf .compare ggaFormat (ascii "$GPGGA" ++ rest)).length ≠ 14 ↔
      ¬ ggaComplete (ascii "$GPGGA" ++ rest) := Iff.rfl
  refine timeParse_ok_iff (ascii "$GPGGA") (by decide +kernel) (by decide +kernel) hstored hshort ?_ _
  intro hcount hnil
  have hcount : (nmeaScanf .compare ggaFormat (ascii "$GPGGA" ++ rest)).length = 14 := hcount
  rw [hnil] at hcount
  cases hcount

theorem nmeaParseGPRMC_ok_iff (rest stack : List Byte) :
    (∃ pack : Option (NmeaGPRMC F), nmeaParseGPRMC (ascii "$GPRMC" ++ rest) stack = .ok pack) ↔
      TimeFits (ascii "$GPRMC" ++ rest) stack (rmcComplete (ascii "$GPRMC" ++ rest)) := by
  have hformat : rmcFormat = ascii "$GPRMC" ++ chr ',' :: chr '%' :: chr 's' :: chr ',' :: rmcFormat.drop 10 := by
    decide +kernel
  have hstored := congrArg (fun format => nmeaScanf .compare format (ascii "$GPRMC" ++ rest)) hformat
  have hshort : ((nmeaScanf .compare rmcFormat (ascii "$GPRMC" ++ rest)).length ≠ 13 ∧
      (nmeaScanf .compare rmcFormat (ascii "$GPRMC" ++ rest)).length ≠ 14) ↔
        ¬ rmcComplete (ascii "$GPRMC" ++ rest) := not_or.symm
  refine timeParse_ok_iff (ascii "$GPRMC") (by decide +kernel) (by decide +kernel) hstored hshort ?_ _
  intro hcount hnil
  have hcount : (nmeaScanf .compare rmcFormat (ascii "$GPRMC" ++ rest)).length = 13 ∨
      (nmeaScanf .compare rmcFormat (ascii "$GPRMC" ++ rest)).length = 14 := hcount
  rw [hnil] at hcount
  simp at hcount

/-- A line is parsed inside of the arrays if and only if it fits. -/
theorem nmeaParseLine_ok_iff (hstart : line.head? = some (chr '$')) (stack : List Byte) (info : NmeaInfo F) :
    (∃ info', nmeaParseLine line stack info = .ok info') ↔ SentenceFits F line stack info.satinfo.inview := by
  have hkind : ∀ kind, (line.drop 1).take 5 = kind → line = (chr '$' :: kind) ++ line.drop 6 := by
    intro kind hkind
    obtain ⟨rest, rfl⟩ := List.head?_eq_some_iff.mp hstart
    rw [← hkind]
    exact (congrArg (chr '$' :: ·) (List.take_append_drop 5 rest)).symm
  rw [nmeaParseLine, SentenceFits]
  obtain ⟨hgga, hrmc⟩ := nmeaPackType_cases (line.drop 1) line.length
  cases htype : nmeaPackType (line.drop 1) line.length with
  | gga =>
      refine (exists_bind_ok_iff fun pack => ⟨_, rfl⟩).trans ?_
      rw [hkind _ (hgga htype)]
      exact nmeaParseGPGGA_ok_iff (line.drop 6) stack
  | rmc =>
      refine (exists_bind_ok_iff fun pack => ⟨_, rfl⟩).trans ?_
      rw [hkind _ (hrmc htype)]
      exact nmeaParseGPRMC_ok_iff (line.drop 6) stack
  | gsa =>
      dsimp only
      cases hpack : nmeaParseGPGSA (F := F) line with
      | none => exact iff_of_true ⟨info, rfl⟩ fun _ h => nomatch h
      | some pack =>
          refine (nmeaGPGSA2info_ok_iff pack info).trans ⟨fun h pack' heq => ?_, fun h => h pack rfl⟩
          cases heq
          exact h
  | gsv =>
      dsimp only
      cases hpack : nmeaParseGPGSV line with
      | none => exact iff_of_true ⟨info, rfl⟩ fun _ h => nomatch h
      | some pack =>
          have hcount := nmeaParseGPGSV_bounds hpack
          refine (nmeaGPGSV2info_ok_iff hcount.1 hcount.2 info).trans ⟨fun h pack' heq => ?_, fun h => h pack rfl⟩
          cases heq
          exact h
  | vtg | non => exact iff_of_true ⟨_, rfl⟩ trivial

end Line

end Fl2440.Gpsd
