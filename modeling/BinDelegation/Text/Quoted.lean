import BinDelegation.Text.Printable

/-! # Quoted text

How messages show a name or a character: between quotes, with everything that would not be seen,
or that would end the quotation, written as an escape.
-/

namespace BinDelegation.Quoted

/-- The hexadecimal digits of a number, without leading zeros. -/
def hexDigits (n : Nat) : List Char := Nat.toDigits 16 n

/-- A character inside quotes: the short escapes, then the code point of what is not plain. -/
def escape (quote c : Char) : List Char :=
  if c = Char.ofNat 0 then ['\\', '0']
  else if c = '\t' then ['\\', 't']
  else if c = '\r' then ['\\', 'r']
  else if c = '\n' then ['\\', 'n']
  else if c = '\\' || c = quote then ['\\', c]
  else if Printable.isPlain c then [c]
  else ['\\', 'u', '\x7b'] ++ hexDigits c.toNat ++ ['\x7d']

/-- A text between double quotes. -/
def text (s : String) : String :=
  String.ofList ('"' :: s.toList.flatMap (escape '"') ++ ['"'])

/-- A single quotation mark. -/
def apostrophe : Char := Char.ofNat 39

/-- A character between single quotes. -/
def char (c : Char) : String :=
  String.ofList (apostrophe :: escape apostrophe c ++ [apostrophe])

end BinDelegation.Quoted
