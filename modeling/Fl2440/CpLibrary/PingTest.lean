import Fl2440.CpLibrary.SplitString
import Fl2440.Lib.Stdio

/-! `network_ping_test` of `cp_network.c`: the loss of packets, split out of what `ping`
prints. -/
namespace Fl2440.CpLibrary

open Fl2440.Lib

/-- `snprintf` into `cmd[256]`. -/
def pingCmd (nic : Option (List Byte)) (ping_ip : List Byte) : List Byte :=
  match nic with
  | some nic => (ascii "ping -W1 -c5 -s4 " ++ ping_ip ++ ascii " -I " ++ nic).take 255
  | none => (ascii "ping -W1 -c5 -s4 " ++ ping_ip).take 255

def pingLoop : Nat → List Byte → Except Fault Int
  | 0, _ => .ok 100
  | rounds + 1, output =>
      match fgets 512 output with
      | none => .ok 100
      | some (got, output) => do
          let buf := got ++ [0]
          if (← strstr buf (ascii "transmitted" ++ [0])).isSome then
            let stores ← splitStringToValue (← cstr buf) (ascii "%l,%l,%d") [true, true, true]
            return storedInt 100 (stores[2]?.getD none)
          else pingLoop rounds output

/-- `popen` gives what the command prints, where it can be run. -/
def networkPingTest (popen : List Byte → Option (List Byte)) (nic : Option (List Byte)) (ping_ip : List Byte) :
    Except Fault Int :=
  match popen (pingCmd nic ping_ip) with
  | none => .ok (-2)
  | some output => pingLoop output.length output

/-- Neither the end of a field nor of a line. -/
structure Label where
  bytes : List Byte
  comma_not_mem : comma ∉ bytes
  newline_not_mem : newline ∉ bytes
  nul_not_mem : (0 : Byte) ∉ bytes

/-- As `+5 errors`. -/
structure Counter where
  plus : Bool
  count : Nat
  label : Label

def Counter.text (c : Counter) : List Byte :=
  chr ' ' :: ((if c.plus then [chr '+'] else []) ++ (numeral 10 c.count ++ chr ' ' :: c.label.bytes))

/-- `T packets transmitted, R ... received`, further counters, and `L% packet loss`. -/
structure Statistics where
  transmitted : Nat
  received : Nat
  word : Label
  counters : List Counter
  lost : Nat
  percent : lost ≤ 100

def Statistics.sent (s : Statistics) : List Byte := numeral 10 s.transmitted ++ ascii " packets transmitted"

def Statistics.answered (s : Statistics) : List Byte :=
  chr ' ' :: (numeral 10 s.received ++ s.word.bytes ++ ascii "received")

def Statistics.loss (s : Statistics) : List Byte := chr ' ' :: (numeral 10 s.lost ++ ascii "% packet loss")

def Statistics.text (s : Statistics) : List Byte :=
  s.sent ++ comma :: (s.answered ++ comma :: (s.counters.flatMap (fun c => c.text ++ [comma]) ++ s.loss))

def Statistics.Shown (s : Statistics) (output : List Byte) : Prop := ∃ line ∈ output.splitOn newline, s.text <+: line

/-- The loss of the statistics is returned, and 100 without them. -/
structure LossRead (output : List Byte) (result : Except Fault Int) : Prop where
  shown : ∀ s : Statistics, s.Shown output → result = .ok s.lost
  absent : (∀ s : Statistics, ¬ s.Shown output) → result = .ok 100

def transmittedLine (output : List Byte) : Option (List Byte) :=
  ((fgetsAll 512 output.length output).map fun got => got.takeWhile (· ≠ 0)).find? fun line =>
    ascii "transmitted" <:+: line

def ThirdReads (line : List Byte) (n : Int) : Prop :=
  ∃ field, (tokens [comma].contains line)[2]? = some field ∧ strtol 10 field = n

def TakenFor (line : List Byte) (n : Int) : Prop :=
  (tokens [comma].contains line).length < 3 ∧ n = 100 ∨ ThirdReads line n

/-- It comes first, with no other counter in the place of the loss; or something else comes
first that is taken for the same, or nothing does and all was lost. -/
structure Statistics.InPlace (s : Statistics) (output : List Byte) : Prop where
  first : ∀ line ∈ transmittedLine output,
    if s.text <+: line then ∀ c ∈ s.counters.head?, c.count = s.lost else TakenFor line s.lost
  absent : transmittedLine output = none → s.lost = 100

/-- Without statistics nothing comes first, or it is taken for a loss of all. -/
def NoneInPlace (output : List Byte) : Prop := ∀ line ∈ transmittedLine output, TakenFor line 100

section Loop

variable {output line : List Byte} {n : Nat}

def lossCall : SplitCall where
  args := [(.l, true), (.l, true), (.d, true)]
  delim := comma
  two := by decide
  plain := comma_ne_letter

def lossOf (line : List Byte) : Int :=
  match (tokens [comma].contains line)[2]? with
  | none => 100
  | some field => strtol 10 field

theorem splitLoss (line : List Byte) : ∃ stores,
    splitStringToValue line (ascii "%l,%l,%d") [true, true, true] = .ok stores ∧
      storedInt 100 (stores[2]?.getD none) = lossOf line := by
  refine ⟨_, splitStringToValue_eq lossCall line, ?_⟩
  rw [storeEach_getElem?, SplitCall.tokens_eq, lossOf]
  show storedInt 100 (Option.map Conv.d.value (tokens [comma].contains line)[2]?) = _
  cases (tokens [comma].contains line)[2]? <;> rfl

theorem lossOf_eq_iff (n : Int) :
    lossOf line = n ↔ TakenFor line n := by
  unfold lossOf TakenFor ThirdReads
  cases hthird : (tokens [comma].contains line)[2]? with
  | none =>
      have hfew := List.getElem?_eq_none_iff.mp hthird
      simp only [reduceCtorEq, false_and, exists_false, or_false]
      exact ⟨fun h => ⟨by omega, h.symm⟩, fun h => h.2.symm⟩
  | some field =>
      have hmany := (List.getElem?_eq_some_iff.mp hthird).1
      simp only [Option.some.injEq, exists_eq_left']
      exact ⟨.inr, fun h => h.resolve_left fun hfew => absurd hfew.1 (by omega)⟩

theorem pingLoop_eq (n : Nat) (output : List Byte) :
    pingLoop n output = .ok ((((fgetsAll 512 n output).map fun got => got.takeWhile (· ≠ 0)).find? fun line =>
      ascii "transmitted" <:+: line).elim 100 lossOf) := by
  induction n generalizing output with
  | zero => rfl
  | succ n ih =>
      rw [pingLoop, fgetsAll]
      cases fgets 512 output with
      | none => rfl
      | some taken =>
          obtain ⟨got, rest⟩ := taken
          obtain ⟨tail, hstring⟩ := append_nul got
          have hnul := nul_notMem_takeWhile got
          obtain ⟨found, hfound, hword⟩ := strstr_terminated hnul
            (show (0 : Byte) ∉ ascii "transmitted" by decide) tail []
          obtain ⟨stores, hstores, hloss⟩ := splitLoss (got.takeWhile (· ≠ 0))
          simp only [hstring, hfound, ok_bind, cstr_terminated hnul, hstores, hloss, List.map_cons]
          by_cases hhere : ascii "transmitted" <:+: got.takeWhile (· ≠ 0)
          · rw [if_pos (hword.mpr hhere), List.find?_cons_of_pos (by simpa using hhere)]
            rfl
          · rw [if_neg (fun h => hhere (hword.mp h)), List.find?_cons_of_neg (by simpa using hhere)]
            exact ih rest

end Loop

section Statistics

variable {s : Statistics} {output line : List Byte}

theorem comma_notMem_numeral (n : Nat) : comma ∉ numeral 10 n := by
  have hall : ∀ d : Fin 10, digitChar d ≠ comma := by decide
  unfold numeral
  split
  next => decide
  next =>
    intro h
    obtain ⟨d, hd, hcomma⟩ := List.mem_map.mp h
    exact hall ⟨d, Nat.digits_lt_base (by decide) (List.mem_reverse.mp hd)⟩ hcomma

theorem Counter.comma_notMem (c : Counter) : comma ∉ c.text := by
  have hblank : comma ≠ chr ' ' := by decide
  have hplus : comma ≠ chr '+' := by decide
  rw [Counter.text]
  split <;> simp [comma_notMem_numeral, c.label.comma_not_mem, hblank, hplus]

theorem Statistics.comma_notMem (s : Statistics) : comma ∉ s.sent ∧ comma ∉ s.answered ∧ comma ∉ s.loss := by
  have hblank : comma ≠ chr ' ' := by decide
  have hsent : comma ∉ ascii " packets transmitted" := by decide
  have hanswered : comma ∉ ascii "received" := by decide
  have hloss : comma ∉ ascii "% packet loss" := by decide
  refine ⟨?_, ?_, ?_⟩
  · simp [Statistics.sent, comma_notMem_numeral, hsent]
  · simp [Statistics.answered, comma_notMem_numeral, s.word.comma_not_mem, hblank, hanswered]
  · simp [Statistics.loss, comma_notMem_numeral, hblank, hloss]

theorem contains_eq_false {field : List Byte} (h : comma ∉ field) : ∀ b ∈ field, [comma].contains b = false := by
  intro b hb
  have hne : b ≠ comma := fun heq => h (heq ▸ hb)
  simpa using hne

theorem tokens_statistics (s : Statistics) (rest : List Byte) : (tokens [comma].contains (s.text ++ rest))[2]? =
    (tokens [comma].contains (s.counters.flatMap (fun c => c.text ++ [comma]) ++ s.loss ++ rest))[0]? := by
  obtain ⟨hsent, hanswered, -⟩ := s.comma_notMem
  have hcomma : [comma].contains comma := by decide
  have hsome : s.sent ≠ [] := by simp [Statistics.sent, ascii]
  have hanswer : s.answered ≠ [] := List.cons_ne_nil _ _
  rw [Statistics.text, List.append_assoc, List.cons_append, List.append_assoc, List.cons_append,
    tokens_append_cons _ _ hcomma, tokens_append_cons _ _ hcomma, tokens_single hsome (contains_eq_false hsent),
    tokens_single hanswer (contains_eq_false hanswered)]
  rfl

theorem strtol_loss (s : Statistics) (rest : List Byte) : strtol 10 (s.loss ++ rest) = s.lost := by
  have hstop : ∀ b ∈ (ascii "% packet loss" ++ rest).head?, digitValue 10 b = none := by
    rintro b ⟨rfl⟩
    decide
  have hvalue := strtol_numeral s.lost false hstop
  have hpercent := s.percent
  rw [Statistics.loss, List.cons_append, List.append_assoc]
  refine hvalue.trans ?_
  omega

theorem Counter.strtol_text (c : Counter) : strtol 10 c.text = min (2 ^ 31 - 1) c.count :=
  strtol_numeral c.count c.plus (by rintro b ⟨rfl⟩; decide)

theorem takenFor_statistics (h : s.text <+: line) :
    TakenFor line s.lost ↔ ∀ c ∈ s.counters.head?, c.count = s.lost := by
  obtain ⟨rest, rfl⟩ := h
  have hpercent := s.percent
  have hthird := tokens_statistics s rest
  rw [← lossOf_eq_iff, lossOf, hthird]
  cases hcounters : s.counters with
  | nil =>
      have hsome : s.loss ≠ [] := List.cons_ne_nil _ _
      rw [List.flatMap_nil, List.nil_append, tokens_append rest hsome (contains_eq_false s.comma_notMem.2.2)]
      exact iff_of_true (strtol_loss s _) fun c hc => nomatch hc
  | cons c counters =>
      have hsome : c.text ≠ [] := List.cons_ne_nil _ _
      have hcomma : [comma].contains comma := by decide
      rw [List.flatMap_cons, List.append_assoc, List.append_assoc, List.append_assoc, List.singleton_append,
        tokens_append_cons _ _ hcomma, tokens_single hsome (contains_eq_false c.comma_notMem)]
      show strtol 10 c.text = s.lost ↔ ∀ c' ∈ some c, c'.count = s.lost
      rw [c.strtol_text]
      simp only [Option.mem_some_iff, forall_eq']
      omega

theorem lossOf_iff_inPlace (s : Statistics) (output : List Byte) :
    (transmittedLine output).elim 100 lossOf = (s.lost : Int) ↔ s.InPlace output := by
  have hpercent := s.percent
  cases hline : transmittedLine output with
  | none =>
      refine ⟨fun h => ⟨fun line hmem => ?_, fun _ => ?_⟩, fun h => ?_⟩
      · cases hline.symm.trans hmem
      · exact (Int.ofNat_inj.mp h).symm
      · exact congrArg Int.ofNat (h.absent hline).symm
  | some line =>
      have hfirst : (s.InPlace output ↔
          if s.text <+: line then ∀ c ∈ s.counters.head?, c.count = s.lost else TakenFor line s.lost) := by
        refine ⟨fun h => h.first line hline, fun h => ⟨fun line' hmem => ?_, fun hnone => ?_⟩⟩
        · cases hline.symm.trans hmem
          exact h
        · cases hline.symm.trans hnone
      rw [hfirst]
      show lossOf line = s.lost ↔ _
      rw [lossOf_eq_iff]
      split
      next htext => exact takenFor_statistics htext
      next => rfl

/-- Statistics are reported as they are if and only if they come first, without a counter
in the place of the loss, or what comes first reads the same. -/
theorem lossRead_iff {popen : List Byte → Option (List Byte)} {nic : Option (List Byte)} {ping_ip : List Byte}
    (h : popen (pingCmd nic ping_ip) = some output) : LossRead output (networkPingTest popen nic ping_ip) ↔
      (∀ s : Statistics, s.Shown output → s.InPlace output) ∧
        ((∀ s : Statistics, ¬ s.Shown output) → NoneInPlace output) := by
  have hresult : networkPingTest popen nic ping_ip = .ok ((transmittedLine output).elim 100 lossOf) := by
    rw [networkPingTest, h]
    exact pingLoop_eq _ _
  have hnone : (transmittedLine output).elim 100 lossOf = 100 ↔ NoneInPlace output := by
    rw [NoneInPlace]
    cases transmittedLine output with
    | none => exact iff_of_true rfl fun line hmem => nomatch hmem
    | some line => simp [lossOf_eq_iff]
  rw [hresult]
  constructor
  · exact fun hread => ⟨fun s hs => (lossOf_iff_inPlace s output).mp (Except.ok.inj (hread.shown s hs)),
      fun habsent => hnone.mp (Except.ok.inj (hread.absent habsent))⟩
  · exact fun hplace => ⟨fun s hs => congrArg Except.ok ((lossOf_iff_inPlace s output).mpr (hplace.1 s hs)),
      fun habsent => congrArg Except.ok (hnone.mpr (hplace.2 habsent))⟩

def unreachable : List Byte :=
  ascii "PING 10.0.0.9\n\n5 packets transmitted, 0 received, +5 errors, 100% packet loss, time 4004ms\n"

theorem lossRead_iff_unreachable :
    LossRead unreachable (networkPingTest (fun _ => some unreachable) none (ascii "10.0.0.9")) ↔
      (∀ s : Statistics, s.Shown unreachable → s.InPlace unreachable) ∧
        ((∀ s : Statistics, ¬ s.Shown unreachable) → NoneInPlace unreachable) :=
  lossRead_iff rfl

/-- The number of the errors is returned. -/
theorem errors_for_loss : ¬ ∀ (popen : List Byte → Option (List Byte)) (nic : Option (List Byte))
    (ping_ip output : List Byte), popen (pingCmd nic ping_ip) = some output →
      LossRead output (networkPingTest popen nic ping_ip) := by
  intro h
  have hread := h (fun _ => some unreachable) none (ascii "10.0.0.9") unreachable rfl
  have hshown : (⟨5, 0, ⟨ascii " ", by decide, by decide, by decide⟩,
      [⟨true, 5, ⟨ascii "errors", by decide, by decide, by decide⟩⟩], 100, by decide⟩ : Statistics).Shown unreachable :=
    ⟨ascii "5 packets transmitted, 0 received, +5 errors, 100% packet loss, time 4004ms", by decide +kernel,
      by decide +kernel⟩
  have hfive : networkPingTest (fun _ => some unreachable) none (ascii "10.0.0.9") = .ok 5 := by decide +kernel
  cases hfive.symm.trans (hread.shown _ hshown)

end Statistics

end Fl2440.CpLibrary
