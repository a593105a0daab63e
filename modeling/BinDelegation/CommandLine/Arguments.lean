import BinDelegation.Number.Digits

/-! # Arguments

What the words behind the program's name ask for. A command is named by the first word that is no
option; options stand before or after it and are given at most once on each side. Words that ask for
nothing known are refused as a whole, with no account of why.
-/

namespace BinDelegation

/-- How a delegation is to be built. -/
structure BuildOptions where
  count : Nat
  /-- The directory whose files become targets. -/
  targets : String
  /-- The directory that documents are written to. -/
  out : String
  /-- The directory that the keys are read from; without it, new keys are made. -/
  keys : Option String
  parentDays : Int
  binDays : Int
  attempts : UInt32
deriving DecidableEq, Repr

/-- A command of the program. -/
inductive Command where
  /-- Makes a key for the parent and one for the bins. -/
  | keygen (out : String) (force : Bool)
  /-- Shows the bins. -/
  | bins (count : Nat)
  /-- Shows the bin of each path. -/
  | assign (count : Nat) (paths : List String)
  /-- Builds, signs and writes a delegation. -/
  | build (options : BuildOptions)
deriving DecidableEq, Repr

/-- What arguments ask for. -/
inductive Request where
  /-- The version of the program. -/
  | version
  /-- A command, and whether its report is to be JSON. -/
  | run (json : Bool) (command : Command)
deriving DecidableEq, Repr

namespace Arguments

/-- What a single word is. -/
inductive Word where
  | operand (text : String)
  /-- The word behind which all are operands. -/
  | endOfOptions
  /-- An option with a long name, and the text behind its equals sign. -/
  | long (name : String) (attached : Option String)
  /-- One-letter options. -/
  | short (letters : List Char)
deriving DecidableEq, Repr

/-- Tells what a word is. A lone minus sign is an operand. -/
def Word.of (text : String) : Word :=
  match text.toList with
  | ['-', '-'] => .endOfOptions
  | '-' :: '-' :: rest =>
    let name := String.ofList (rest.takeWhile (· ≠ '='))
    match rest.dropWhile (· ≠ '=') with
    | [] => .long name none
    | _ :: attached => .long name (some (String.ofList attached))
  | '-' :: letter :: rest => .short (letter :: rest)
  | _ => .operand text

/-- The options of a command. -/
structure Vocabulary where
  flags : List String
  valued : List String

/-- The options that every command knows: JSON reports and JSON logs. -/
def commonFlags : List String := ["json", "log-json"]

/-- What the words behind a command say. -/
structure Reading where
  flags : List String := []
  values : List (String × String) := []
  operands : List String := []
deriving DecidableEq, Repr

namespace Reading

/-- The reading with a flag that was not given yet. -/
def addFlag? (r : Reading) (name : String) : Option Reading :=
  if name ∈ r.flags then none else some { r with flags := name :: r.flags }

/-- The reading with the value of an option that was not given yet. -/
def addValue? (r : Reading) (name value : String) : Option Reading :=
  if (r.values.lookup name).isSome then none
  else some { r with values := (name, value) :: r.values }

/-- The reading with one more operand. -/
def addOperand (r : Reading) (text : String) : Reading :=
  { r with operands := r.operands ++ [text] }

end Reading

/-- Reads the words behind a command. With `pending`, the next word is the value of that option. -/
def readWords (v : Vocabulary) (pending : Option String) (r : Reading) :
    List String → Option Reading
  | [] => if pending.isNone then some r else none
  | text :: rest =>
    match pending, Word.of text with
    | some name, .operand value => do readWords v none (← r.addValue? name value) rest
    | some _, _ => none
    | none, .operand text => readWords v none (r.addOperand text) rest
    | none, .endOfOptions => some { r with operands := r.operands ++ rest }
    | none, .short _ => none
    | none, .long name attached =>
      if name ∈ v.flags then
        match attached with
        | none => do readWords v none (← r.addFlag? name) rest
        | some _ => none
      else if name ∈ v.valued then
        match attached with
        | some value => do readWords v none (← r.addValue? name value) rest
        | none => readWords v (some name) r rest
      else none

/-- The whole number that a text denotes, with or without a sign. -/
def whole? (s : String) : Option Int :=
  match s.toList with
  | '+' :: digits => (Digits.number? digits).map fun n => n
  | '-' :: digits => (Digits.number? digits).map fun n => -n
  | digits => (Digits.number? digits).map fun n => n

/-- The whole number that a text denotes, within bounds. -/
def wholeWithin? (low high : Int) (s : String) : Option Int := do
  let n ← whole? s
  if low ≤ n ∧ n ≤ high then some n else none

/-- The largest number that a count can be. -/
def maxCount : Int := 4294967295

/-- The count that a text denotes. -/
def count? (s : String) : Option Nat := (wholeWithin? 0 maxCount s).map Int.toNat

/-- The greatest lifetime of a document in days. -/
def maxDays : Int := 36500

/-- The lifetime in days that a text denotes. -/
def days? (s : String) : Option Int := wholeWithin? 1 maxDays s

/-- The value of an option as it is understood, or what holds without the option. -/
def Reading.get? {α : Type} (r : Reading) (name : String) (understand : String → Option α)
    (otherwise : α) : Option α :=
  match r.values.lookup name with
  | some value => understand value
  | none => some otherwise

/-- The number of bins without an option. -/
def defaultCount : Nat := 32

/-- The options of a command, and what a reading of its words asks for, by the command's name. -/
def grammar? : (name : String) → Option (Vocabulary × (Reading → Option Command))
  | "keygen" => some (⟨["force"], ["out"]⟩, fun r => do
    let out ← r.get? "out" some "./keys"
    if r.operands.isEmpty then some (.keygen out ("force" ∈ r.flags)) else none)
  | "bins" => some (⟨[], ["count"]⟩, fun r => do
    let count ← r.get? "count" count? defaultCount
    if r.operands.isEmpty then some (.bins count) else none)
  | "assign" => some (⟨[], ["count"]⟩, fun r => do
    let count ← r.get? "count" count? defaultCount
    if r.operands.isEmpty then none else some (.assign count r.operands))
  | "build" => some (⟨[], ["count", "targets", "out", "keys", "parent-expiry-days",
      "bin-expiry-days", "attempts"]⟩, fun r => do
    let count ← r.get? "count" count? defaultCount
    let targets ← r.values.lookup "targets"
    let out ← r.get? "out" some "./metadata"
    let parentDays ← r.get? "parent-expiry-days" days? 365
    let binDays ← r.get? "bin-expiry-days" days? 7
    let attempts ← r.get? "attempts" count? 3
    if r.operands.isEmpty then
      some (.build ⟨count, targets, out, r.values.lookup "keys", parentDays, binDays,
        UInt32.ofNat attempts⟩)
    else none)
  | _ => none

/-- Reads the words of a command, with the flags that were given before it. -/
def readCommand (before : Reading) (name : String) (words : List String) : Option Request := do
  let (vocabulary, understand) ← grammar? name
  let reading ← readWords ⟨commonFlags ++ vocabulary.flags, vocabulary.valued⟩ none {} words
  return .run ("json" ∈ before.flags ++ reading.flags) (← understand reading)

/-- Reads the words up to the command, and the command. -/
def readBefore (before : Reading) : List String → Option Request
  | [] => none
  | text :: rest =>
    match Word.of text with
    | .operand name => readCommand before name rest
    | .endOfOptions => none
    | .short ('V' :: _) => some .version
    | .short _ => none
    | .long "version" none => some .version
    | .long name none =>
      if name ∈ commonFlags then do readBefore (← before.addFlag? name) rest else none
    | .long _ (some _) => none

end Arguments

/-- What the words behind the program's name ask for. -/
def Request.ofArguments? (words : List String) : Option Request := Arguments.readBefore {} words

end BinDelegation
