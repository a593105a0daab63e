import BinDelegation.Json.Basic
import BinDelegation.Number.Shortest
import BinDelegation.Text.Hex

/-! # Writing JSON

One writer serves every written form. A style says how the characters of a string are written and
how the parts of a container are set apart.
-/

namespace BinDelegation.Json

/-- How values are laid out. -/
inductive Layout where
  /-- Without any blank. -/
  | compact
  /-- Each item on a line of its own, two blanks further in than its container. -/
  | indented
deriving DecidableEq, Repr

namespace Layout

/-- What stands in front of an item at a nesting level, and of the bracket that closes one. -/
def lead (layout : Layout) (level : Nat) : String :=
  match layout with
  | compact => ""
  | indented => String.ofList ('\n' :: List.replicate (2 * level) ' ')

/-- What stands between a key and its value. -/
def colon : Layout → String
  | compact => ":"
  | indented => ": "

end Layout

/-- A written form. -/
structure Style where
  layout : Layout
  /-- How a character is written inside a string. -/
  escape : Char → List Char

/-- Only the quotation mark and the backslash are escaped. -/
def escapeMinimal (c : Char) : List Char := if c = '"' ∨ c = '\\' then ['\\', c] else [c]

/-- The quotation mark, the backslash and every control character are escaped, the last by a letter
where there is one. -/
def escapeControls (c : Char) : List Char :=
  if c = '"' ∨ c = '\\' then ['\\', c]
  else if c = '\n' then ['\\', 'n']
  else if c = '\r' then ['\\', 'r']
  else if c = '\t' then ['\\', 't']
  else if c = '\x08' then ['\\', 'b']
  else if c = '\x0c' then ['\\', 'f']
  else if c.toNat < 0x20 then
    ['\\', 'u'] ++ Hex.fixed 4 c.toNat
  else [c]

/-- The form that signatures cover. -/
def Style.canonical : Style := ⟨.compact, escapeMinimal⟩

/-- The short form for people and programs. -/
def Style.compact : Style := ⟨.compact, escapeControls⟩

/-- The form of published documents. -/
def Style.pretty : Style := ⟨.indented, escapeControls⟩

/-- A string between quotation marks. -/
def Style.quoted (style : Style) (s : String) : String :=
  String.ofList ('"' :: s.toList.flatMap style.escape ++ ['"'])

/-- A key and what separates it from its value. -/
def Style.key (style : Style) (key : String) : String := style.quoted key ++ style.layout.colon

mutual

/-- Writes a value at a nesting level behind the text `out`. -/
def write (style : Style) (level : Nat) (out : String) : Json → String
  | null => out ++ "null"
  | bool b => out ++ if b then "true" else "false"
  | integer n => out ++ String.ofList n.text
  | real x => out ++ x.text
  | string s => out ++ style.quoted s
  | array [] => out ++ "[]"
  | array (item :: rest) =>
    let out := write style (level + 1) (out ++ "[" ++ style.layout.lead (level + 1)) item
    writeItems style (level + 1) out rest ++ style.layout.lead level ++ "]"
  | object [] => out ++ "\x7b\x7d"
  | object ((key, value) :: rest) =>
    let out := out ++ "\x7b" ++ style.layout.lead (level + 1) ++ style.key key
    let out := write style (level + 1) out value
    writeMembers style (level + 1) out rest ++ style.layout.lead level ++ "\x7d"

/-- Writes the items after the first. -/
def writeItems (style : Style) (level : Nat) (out : String) : List Json → String
  | [] => out
  | item :: rest =>
    let out := write style level (out ++ "," ++ style.layout.lead level) item
    writeItems style level out rest

/-- Writes the members after the first. -/
def writeMembers (style : Style) (level : Nat) (out : String) : List (String × Json) → String
  | [] => out
  | (key, value) :: rest =>
    let out := out ++ "," ++ style.layout.lead level ++ style.key key
    let out := write style level out value
    writeMembers style level out rest

end

/-- A value without any blank. -/
def compact (j : Json) : String := write .compact 0 "" j

/-- A value with one item on each line. -/
def pretty (j : Json) : String := write .pretty 0 "" j

end BinDelegation.Json
