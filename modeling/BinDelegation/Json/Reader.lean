import BinDelegation.Json.Form
import BinDelegation.Text.Hex
import BinDelegation.Text.Lossy

/-! # Reading JSON

From a text to its form, strictly: no comments, no trailing commas, no control characters inside
strings, and only space, tab and line ends between tokens. `maxDepth` limits the nesting of the
values that are understood.
-/

namespace BinDelegation.Json

/-- How many containers a value may have open at once. -/
def maxDepth : Nat := 127

/-- The blanks of JSON. -/
def isBlank (c : Char) : Bool := c == ' ' || c == '\n' || c == '\t' || c == '\r'

/-- Leaves out blanks in front. -/
def skipBlanks (cs : List Char) : List Char := cs.dropWhile isBlank

/-- The unit that four hexadecimal digits denote. -/
def unit? (a b c d : Char) : Option Nat := Hex.value? [a, b, c, d]

/-- The character that a one-letter escape stands for. -/
def letterEscape? (c : Char) : Option Char :=
  match c with
  | '"' => some '"'
  | '\\' => some '\\'
  | '/' => some '/'
  | 'b' => some '\x08'
  | 'f' => some '\x0c'
  | 'n' => some '\n'
  | 'r' => some '\r'
  | 't' => some '\t'
  | _ => none

/-- A part in front of what was read of a string. -/
def prepend (part : StringPart) :
    Option (List StringPart × List Char) → Option (List StringPart × List Char)
  | some (parts, rest) => some (part :: parts, rest)
  | none => none

/-- Reads a string behind its opening quotation mark. -/
def readString : List Char → Option (List StringPart × List Char)
  | [] => none
  | '"' :: rest => some ([], rest)
  | '\\' :: 'u' :: a :: b :: c :: d :: rest =>
    match unit? a b c d with
    | some n => prepend (.unit n) (readString rest)
    | none => none
  | '\\' :: c :: rest =>
    match letterEscape? c with
    | some c => prepend (.char c) (readString rest)
    | none => none
  | c :: rest => if c.toNat < 0x20 then none else prepend (.char c) (readString rest)

/-- Splits off the digits in front. -/
def readDigits (cs : List Char) : List Char × List Char :=
  (cs.takeWhile Digits.isDigit, cs.dropWhile Digits.isDigit)

/-- Reads the digits before the point: one zero, or digits that begin with none. -/
def readWhole : List Char → Option (List Char × List Char)
  | '0' :: rest => some (['0'], rest)
  | c :: rest => if Digits.isDigit c then some (readDigits (c :: rest)) else none
  | [] => none

/-- Reads a point and the digits behind it, if there is a point. -/
def readFraction : List Char → Option (Option (List Char) × List Char)
  | '.' :: rest =>
    let (digits, rest) := readDigits rest
    if digits.isEmpty then none else some (some digits, rest)
  | cs => some (none, cs)

/-- Reads the sign of an exponent; without one it is positive. -/
def readSign : List Char → Bool × List Char
  | '+' :: rest => (false, rest)
  | '-' :: rest => (true, rest)
  | cs => (false, cs)

/-- Reads an exponent, if there is one. -/
def readExponent : List Char → Option (Option (Bool × List Char) × List Char)
  | c :: rest =>
    if c = 'e' ∨ c = 'E' then
      let (down, rest) := readSign rest
      let (digits, rest) := readDigits rest
      if digits.isEmpty then none else some (some (down, digits), rest)
    else some (none, c :: rest)
  | [] => some (none, [])

/-- Reads a numeral behind its sign. -/
def readNumeral (negative : Bool) (cs : List Char) : Option (Numeral × List Char) :=
  match readWhole cs with
  | none => none
  | some (whole, rest) =>
    match readFraction rest with
    | none => none
    | some (fraction, rest) =>
      match readExponent rest with
      | none => none
      | some (exponent, rest) => some (⟨negative, whole, fraction, exponent⟩, rest)

/-- Reads a value that is no container. -/
def readScalar : List Char → Option (Form × List Char)
  | 'n' :: 'u' :: 'l' :: 'l' :: rest => some (.null, rest)
  | 't' :: 'r' :: 'u' :: 'e' :: rest => some (.bool true, rest)
  | 'f' :: 'a' :: 'l' :: 's' :: 'e' :: rest => some (.bool false, rest)
  | '"' :: rest => (readString rest).map fun read => (.string read.1, read.2)
  | '-' :: rest => (readNumeral true rest).map fun read => (.number read.1, read.2)
  | cs => (readNumeral false cs).map fun read => (.number read.1, read.2)

/-- Reads a key and the colon behind it. -/
def readKey (cs : List Char) : Option (List StringPart × List Char) :=
  match skipBlanks cs with
  | '"' :: rest =>
    match readString rest with
    | none => none
    | some (key, rest) =>
      match skipBlanks rest with
      | ':' :: rest => some (key, rest)
      | _ => none
  | _ => none

mutual

/-- Reads a value. Each call on a part of a text comes with a character of its own, so the length of
the text bounds the calls, and with them `fuel`. -/
def readValue : (fuel : Nat) → List Char → Option (Form × List Char)
  | 0, _ => none
  | fuel + 1, cs =>
    match skipBlanks cs with
    | '[' :: rest =>
      match skipBlanks rest with
      | ']' :: rest => some (.array [], rest)
      | cs =>
        match readValue fuel cs with
        | none => none
        | some (item, rest) =>
          (readItems fuel rest).map fun read => (.array (item :: read.1), read.2)
    | '\x7b' :: rest =>
      match skipBlanks rest with
      | '\x7d' :: rest => some (.object [], rest)
      | cs =>
        match readMember fuel cs with
        | none => none
        | some (member, rest) =>
          (readMembers fuel rest).map fun read => (.object (member :: read.1), read.2)
    | cs => readScalar cs

/-- Reads a key and its value. -/
def readMember : (fuel : Nat) → List Char → Option ((List StringPart × Form) × List Char)
  | 0, _ => none
  | fuel + 1, cs =>
    match readKey cs with
    | none => none
    | some (key, rest) => (readValue fuel rest).map fun read => ((key, read.1), read.2)

/-- Reads the items behind the first and the closing bracket. -/
def readItems : (fuel : Nat) → List Char → Option (List Form × List Char)
  | 0, _ => none
  | fuel + 1, cs =>
    match skipBlanks cs with
    | ']' :: rest => some ([], rest)
    | ',' :: rest =>
      match readValue fuel rest with
      | none => none
      | some (item, rest) => (readItems fuel rest).map fun read => (item :: read.1, read.2)
    | _ => none

/-- Reads the members behind the first and the closing brace. -/
def readMembers : (fuel : Nat) → List Char → Option (List (List StringPart × Form) × List Char)
  | 0, _ => none
  | fuel + 1, cs =>
    match skipBlanks cs with
    | '\x7d' :: rest => some ([], rest)
    | ',' :: rest =>
      match readMember fuel rest with
      | none => none
      | some (member, rest) => (readMembers fuel rest).map fun read => (member :: read.1, read.2)
    | _ => none

end

/-- The form of a whole text. -/
def formOf? (cs : List Char) : Option Form :=
  match readValue (cs.length + 1) cs with
  | some (form, rest) => if rest.all isBlank then some form else none
  | none => none

/-- What stands for bytes that are no character: a replacement character, with which no escape
and no token goes on, and half of a pair. A string that holds this is well formed and denotes no
text. -/
def strayMark : List Char := Lossy.replacement :: ['\\', 'u', 'd', 'c', '0', '0']

/-- The characters of a text that is given by its bytes. Bytes that are no character do harm only
outside strings and in strings that are understood. -/
def charsOfBytes (bytes : ByteArray) : List Char :=
  match String.fromUTF8? bytes with
  | some s => s.toList
  | none => (Lossy.chars? 0 bytes.data.toList).flatMap (·.elim strayMark ([·]))

/-- The value that a text denotes. -/
def read? (s : String) : Option Json := (formOf? s.toList).bind (Form.value? maxDepth)

end BinDelegation.Json
