import Fl2440.Lib.CString
import Fl2440.Lib.Tokens

/-! `split_string_to_value` of `cp_string.c`: a format and a tokenizer advance side by side.
The tokenizer passes over empty fields, the format does not. -/
namespace Fl2440.CpLibrary

open Fl2440.Lib

def comma : Byte := chr ','

inductive SplitValue where
  | str (s : List Byte)
  | num (n : Int)
deriving DecidableEq

/-- The token, and where the next call goes on. -/
def strtok (delim s : List Byte) : Option (List Byte × List Byte) := nextToken delim.contains s

/-- The cases of the `switch`; any other character is passed over. -/
def splitCase (f : Byte) : Option (List Byte → SplitValue) :=
  if f = chr 's' then some .str
  else if f = chr 'd' then some fun result => .num (strtol 10 result)
  else if f = chr 'l' then some fun result => .num (strtol 10 result)
  else if f = chr 'x' then some fun result => .num (strtol 16 result)
  else none

/-- One entry for each target, a pointer that may be NULL: what is written there, if it is. -/
def splitLoop (delim : List Byte) :
    (fmt : List Byte) → (result : Option (List Byte × List Byte)) → (targets : List Bool) →
      Except Fault (List (Option SplitValue))
  | [], _, targets => .ok (targets.map fun _ => none)
  | f :: fmt, result, targets =>
      match splitCase f with
      | none => splitLoop delim fmt result targets
      | some convert =>
          match targets, result with
          | [], _ => .error .bounds
          -- `goto OUT`
          | target :: targets, none => .ok ((target :: targets).map fun _ => none)
          | target :: targets, some (token, rest) => do
              let stores ← splitLoop delim fmt (strtok delim rest) targets
              return (if target then some (convert token) else none) :: stores

/-- The third character of the format is the delimiter; there is none in a format of two. -/
def splitStringToValue (str fmt : List Byte) (targets : List Bool) : Except Fault (List (Option SplitValue)) :=
  if fmt.length < 2 then .error .bounds
  else
    let delim := fmt[2]?.toList
    splitLoop delim fmt (strtok delim str) targets

def storedInt (value : Int) : Option SplitValue → Int
  | some (.num n) => n
  | _ => value

inductive Conv where
  | s
  | d
  | l
  | x
deriving DecidableEq

def Conv.letter : Conv → Byte
  | s => chr 's'
  | d => chr 'd'
  | l => chr 'l'
  | x => chr 'x'

def Conv.value : Conv → List Byte → SplitValue
  | s, field => .str field
  | d, field | l, field => .num (strtol 10 field)
  | x, field => .num (strtol 16 field)

structure SplitCall where
  args : List (Conv × Bool)
  delim : Byte
  two : 2 ≤ args.length
  plain : ∀ conv : Conv, delim ≠ conv.letter

theorem comma_ne_letter (conv : Conv) : comma ≠ conv.letter := by
  cases conv <;> decide

def formatText (delim : Byte) : List (Conv × Bool) → List Byte
  | [] => []
  | [arg] => [chr '%', arg.1.letter]
  | arg :: args => chr '%' :: arg.1.letter :: delim :: formatText delim args

def SplitCall.fmt (call : SplitCall) : List Byte := formatText call.delim call.args

def SplitCall.targets (call : SplitCall) : List Bool := call.args.map (·.2)

/-- The fields of an input, empty ones among them. -/
def SplitCall.fields (call : SplitCall) (str : List Byte) : List (List Byte) := str.splitOn call.delim

def SplitCall.tokens (call : SplitCall) (str : List Byte) : List (List Byte) :=
  (call.fields str).filter (!·.isEmpty)

structure Positional (call : SplitCall) (str : List Byte) (stores : List (Option SplitValue)) : Prop where
  length : stores.length = call.args.length
  stored : ∀ (i : Nat) (conv : Conv) (target : Bool), call.args[i]? = some (conv, target) →
    stores[i]? = some (if target then ((call.fields str)[i]?).map conv.value else none)

/-- Up to a field that is asked for no field is empty, or the one that takes its place reads
the same. -/
def InPlace (call : SplitCall) (str : List Byte) : Prop :=
  ∀ (i : Nat) (conv : Conv) (field : List Byte), call.args[i]? = some (conv, true) →
    (call.fields str)[i]? = some field → [] ∉ (call.fields str).take (i + 1) ∨
      ∃ token, (call.tokens str)[i]? = some token ∧ conv.value token = conv.value field

section Loop

variable {delim : Byte} {str : List Byte} {args : List (Conv × Bool)}

theorem splitCase_letter (conv : Conv) : splitCase conv.letter = some conv.value := by
  cases conv <;> rfl

theorem splitCase_delim (h : ∀ conv : Conv, delim ≠ conv.letter) : splitCase delim = none := by
  have hs : delim ≠ chr 's' := h .s
  have hd : delim ≠ chr 'd' := h .d
  have hl : delim ≠ chr 'l' := h .l
  have hx : delim ≠ chr 'x' := h .x
  rw [splitCase, if_neg hs, if_neg hd, if_neg hl, if_neg hx]

def storeEach : List (Conv × Bool) → List (List Byte) → List (Option SplitValue)
  | [], _ => []
  | _ :: args, [] => none :: storeEach args []
  | (conv, target) :: args, field :: fields =>
      (if target then some (conv.value field) else none) :: storeEach args fields

theorem storeEach_nil (args : List (Conv × Bool)) : storeEach args [] = (args.map (·.2)).map fun _ => none := by
  induction args with
  | nil => rfl
  | cons arg args ih => simp [storeEach, ih]

theorem storeEach_getElem? : ∀ (args : List (Conv × Bool)) (fields : List (List Byte)) (i : Nat),
    (storeEach args fields)[i]? = args[i]?.map fun arg => if arg.2 then (fields[i]?).map arg.1.value else none
  | [], _, _ => rfl
  | arg :: args, [], 0 => by simp [storeEach]
  | arg :: args, [], i + 1 => by
      have := storeEach_getElem? args [] i
      simpa [storeEach] using this
  | arg :: args, field :: fields, 0 => by simp [storeEach]
  | arg :: args, field :: fields, i + 1 => by
      have := storeEach_getElem? args fields i
      simpa [storeEach] using this

theorem storeEach_length (args : List (Conv × Bool)) (fields : List (List Byte)) :
    (storeEach args fields).length = args.length := by
  induction args generalizing fields with
  | nil => rfl
  | cons arg args ih => cases fields <;> simp [storeEach, ih]

theorem splitLoop_conv (fmt : List Byte) (args : List (Conv × Bool)) (h : ∀ str, splitLoop [delim] fmt (strtok [delim] str) (args.map (·.2)) =
      .ok (storeEach args (tokens [delim].contains str))) (arg : Conv × Bool) :
    splitLoop [delim] (arg.1.letter :: fmt) (strtok [delim] str) ((arg :: args).map (·.2)) =
      .ok (storeEach (arg :: args) (tokens [delim].contains str)) := by
  obtain ⟨conv, target⟩ := arg
  rw [splitLoop, splitCase_letter, List.map_cons]
  cases htoken : strtok [delim] str with
  | none =>
      rw [tokens_of_nextToken_none htoken, storeEach_nil]
      rfl
  | some found =>
      obtain ⟨token, rest⟩ := found
      rw [tokens_of_nextToken htoken, storeEach]
      show (splitLoop [delim] fmt (strtok [delim] rest) (args.map (·.2)) >>= _) = _
      rw [h rest]
      rfl

theorem splitLoop_eq (hplain : ∀ conv : Conv, delim ≠ conv.letter) :
    ∀ (args : List (Conv × Bool)) (str : List Byte),
      splitLoop [delim] (formatText delim args) (strtok [delim] str) (args.map (·.2)) =
        .ok (storeEach args (tokens [delim].contains str))
  | [], _ => rfl
  | [arg], str => splitLoop_conv [] [] (fun _ => rfl) arg
  | arg :: next :: args, str => by
      refine splitLoop_conv (delim :: formatText delim (next :: args)) (next :: args) (fun str => ?_) arg
      rw [splitLoop, splitCase_delim hplain]
      exact splitLoop_eq hplain (next :: args) str

end Loop

section Call

variable {call : SplitCall} {str : List Byte}

theorem SplitCall.fields_eq (call : SplitCall) (str : List Byte) :
    call.fields str = str.splitOnP [call.delim].contains := by
  rw [SplitCall.fields, List.splitOn_eq_splitOnP]
  congr 1
  funext b
  simp [beq_eq_decide]

theorem SplitCall.tokens_eq (call : SplitCall) (str : List Byte) :
    call.tokens str = Lib.tokens [call.delim].contains str := by
  rw [SplitCall.tokens, SplitCall.fields_eq, Lib.tokens]

theorem splitStringToValue_eq (call : SplitCall) (str : List Byte) :
    splitStringToValue str call.fmt call.targets = .ok (storeEach call.args (call.tokens str)) := by
  obtain ⟨args, delim, two, plain⟩ := call
  obtain ⟨first, second, args, rfl⟩ : ∃ first second later, args = first :: second :: later := by
    match args, two with
    | first :: second :: later, _ => exact ⟨first, second, later, rfl⟩
  rw [SplitCall.tokens_eq]
  exact splitLoop_eq plain (first :: second :: args) str

/-- The fields come to their places if and only if no empty one displaces what is asked for. -/
theorem positional_iff (call : SplitCall) (str : List Byte) :
    (∃ stores, splitStringToValue str call.fmt call.targets = .ok stores ∧ Positional call str stores) ↔
      InPlace call str := by
  rw [splitStringToValue_eq]
  constructor
  · rintro ⟨_, ⟨rfl⟩, hlength, hstored⟩ i conv field harg hfield
    have hvalue := hstored i conv true harg
    rw [storeEach_getElem?, harg, hfield] at hvalue
    obtain ⟨token, htoken, hsame⟩ : ∃ token, (call.tokens str)[i]? = some token ∧ conv.value token = conv.value field := by
      simpa using hvalue
    exact .inr ⟨token, htoken, hsame⟩
  · intro h
    refine ⟨_, rfl, storeEach_length _ _, fun i conv target harg => ?_⟩
    rw [storeEach_getElem?, harg]
    cases target with
    | false => rfl
    | true =>
        simp only [Option.map_some, if_true, Option.some.injEq]
        cases hfield : (call.fields str)[i]? with
        | none =>
            have hle := length_tokens_le [call.delim].contains str
            rw [← SplitCall.tokens_eq, ← SplitCall.fields_eq] at hle
            rw [List.getElem?_eq_none (hle.trans (List.getElem?_eq_none_iff.mp hfield))]
        | some field =>
            rcases h i conv field harg hfield with hfull | ⟨token, htoken, hsame⟩
            · rw [SplitCall.fields_eq] at hfull hfield
              rw [SplitCall.tokens_eq, tokens_getElem? hfull, hfield]
            · rw [htoken, Option.map_some, Option.map_some, hsame]

private def threeNumbers : SplitCall := ⟨[(.d, true), (.d, true), (.d, true)], chr ',', by decide, by intro conv; cases conv <;> decide⟩

/-- Of `1,,3` the 3 comes to the second place. -/
theorem splitStringToValue_not_positional : ¬ ∀ (call : SplitCall) (str : List Byte), ∃ stores,
    splitStringToValue str call.fmt call.targets = .ok stores ∧ Positional call str stores := by
  intro h
  obtain ⟨stores, hstores, -, hstored⟩ := h threeNumbers (ascii "1,,3")
  have hthird := hstored 2 .d true rfl
  cases (show stores = [some (.num 1), some (.num 3), none] from
    (Except.ok.inj (hstores.symm.trans (by decide +kernel))))
  exact absurd hthird (by decide +kernel)

end Call

end Fl2440.CpLibrary
