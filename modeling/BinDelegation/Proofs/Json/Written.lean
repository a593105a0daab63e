import BinDelegation.Json.Writer
import Mathlib.Data.Nat.Notation

/-!
# What the writer writes

The writer puts its text behind what was written before. `written` is the text alone, as the
characters that the writer adds, so that a statement on texts can follow the structure of a value.

The writer is a fold with an accumulator: it appends strings to a string, one after the other, as a
program does that writes into a buffer. Proofs about its text would have to carry that buffer along.
`written` returns the characters of a value instead, by the same cases, and `toList_write` proves
the two equal. Nothing else in the development opens the writer.

The `…_append` lemmas put a rest behind the text and associate everything to the right, so that the
next token is always in front.
-/

namespace BinDelegation.Json

/-- A string between quotation marks, as characters. -/
def quotedChars (style : Style) (s : String) : List Char :=
  '"' :: s.toList.flatMap style.escape ++ ['"']

mutual

/-- The characters that a value is written with. -/
def written (style : Style) (level : Nat) : Json → List Char
  | null => "null".toList
  | bool b => (if b then "true" else "false").toList
  | integer n => n.text
  | real x => x.text.toList
  | string s => quotedChars style s
  | array [] => ['[', ']']
  | array (item :: rest) =>
    '[' :: (style.layout.lead (level + 1)).toList ++ written style (level + 1) item
      ++ writtenItems style (level + 1) rest ++ (style.layout.lead level).toList ++ [']']
  | object [] => ['\x7b', '\x7d']
  | object ((key, value) :: rest) =>
    '\x7b' :: (style.layout.lead (level + 1)).toList ++ quotedChars style key
      ++ style.layout.colon.toList ++ written style (level + 1) value
      ++ writtenMembers style (level + 1) rest ++ (style.layout.lead level).toList ++ ['\x7d']

/-- The characters of the items after the first. -/
def writtenItems (style : Style) (level : Nat) : List Json → List Char
  | [] => []
  | item :: rest =>
    ',' :: (style.layout.lead level).toList ++ written style level item
      ++ writtenItems style level rest

/-- The characters of the members after the first. -/
def writtenMembers (style : Style) (level : Nat) : List (String × Json) → List Char
  | [] => []
  | (key, value) :: rest =>
    ',' :: (style.layout.lead level).toList ++ quotedChars style key
      ++ style.layout.colon.toList ++ written style level value
      ++ writtenMembers style level rest

end

/-! ## Strings and containers

The text of a string or a container and the text behind it, one part after the other. -/

theorem quotedChars_append (style : Style) (s : String) (rest : List Char) :
    quotedChars style s ++ rest = '"' :: (s.toList.flatMap style.escape ++ '"' :: rest) := by
  simp [quotedChars]

theorem written_array_append (style : Style) (level : Nat) (item : Json) (items : List Json)
    (rest : List Char) :
    written style level (array (item :: items)) ++ rest
      = '[' :: ((style.layout.lead (level + 1)).toList ++ (written style (level + 1) item
        ++ (writtenItems style (level + 1) items
          ++ ((style.layout.lead level).toList ++ ']' :: rest)))) := by
  simp [written]

theorem written_object_append (style : Style) (level : Nat) (member : String × Json)
    (members : List (String × Json)) (rest : List Char) :
    written style level (object (member :: members)) ++ rest
      = '\x7b' :: ((style.layout.lead (level + 1)).toList ++ (quotedChars style member.1
        ++ (style.layout.colon.toList ++ (written style (level + 1) member.2
          ++ (writtenMembers style (level + 1) members
            ++ ((style.layout.lead level).toList ++ '\x7d' :: rest)))))) := by
  simp [written]

theorem writtenItems_append (style : Style) (level : Nat) (item : Json) (items : List Json)
    (rest : List Char) :
    writtenItems style level (item :: items) ++ rest
      = ',' :: ((style.layout.lead level).toList ++ (written style level item
        ++ (writtenItems style level items ++ rest))) := by
  simp [writtenItems]

theorem writtenMembers_append (style : Style) (level : Nat) (member : String × Json)
    (members : List (String × Json)) (rest : List Char) :
    writtenMembers style level (member :: members) ++ rest
      = ',' :: ((style.layout.lead level).toList ++ (quotedChars style member.1
        ++ (style.layout.colon.toList ++ (written style level member.2
          ++ (writtenMembers style level members ++ rest))))) := by
  simp [writtenMembers]

/-! ## The writer -/

theorem toList_quoted (style : Style) (s : String) :
    (style.quoted s).toList = quotedChars style s := by
  rw [Style.quoted, String.toList_ofList, quotedChars]

/-- The writer's key has the quoted characters and the colon of the layout. -/
theorem toList_key (style : Style) (key : String) :
    (style.key key).toList = quotedChars style key ++ style.layout.colon.toList := by
  rw [Style.key, String.toList_append, toList_quoted]

mutual

/-- The writer adds the characters of the value to what was written before. -/
theorem toList_write (style : Style) (level : Nat) (out : String) : (j : Json) →
    (write style level out j).toList = out.toList ++ written style level j
  | null => by simp [write, written]
  | bool b => by cases b <;> simp [write, written]
  | integer n => by simp [write, written]
  | real x => by simp [write, written]
  | string s => by simp [write, written, toList_quoted]
  | array [] => by simp [write, written]
  | array (item :: rest) => by
    simp [write, written, toList_writeItems style (level + 1) _ rest,
      toList_write style (level + 1) _ item]
  | object [] => by simp [write, written]
  | object ((key, value) :: rest) => by
    simp [write, written, toList_writeMembers style (level + 1) _ rest,
      toList_write style (level + 1) _ value, toList_key]

/-- The same for further items. -/
theorem toList_writeItems (style : Style) (level : Nat) (out : String) : (items : List Json) →
    (writeItems style level out items).toList = out.toList ++ writtenItems style level items
  | [] => by simp [writeItems, writtenItems]
  | item :: rest => by
    simp [writeItems, writtenItems, toList_writeItems style level _ rest,
      toList_write style level _ item]

/-- The same for further members. -/
theorem toList_writeMembers (style : Style) (level : Nat) (out : String) :
    (members : List (String × Json)) →
    (writeMembers style level out members).toList = out.toList ++ writtenMembers style level members
  | [] => by simp [writeMembers, writtenMembers]
  | (key, value) :: rest => by
    simp [writeMembers, writtenMembers, toList_writeMembers style level _ rest,
      toList_write style level _ value, toList_key]

end

end BinDelegation.Json
