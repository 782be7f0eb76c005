import DocFilter.Text.Sorted
import DocFilter.Text.Utf8

/-!
Interchange documents as trees, and their two written forms. Members keep their order and numbers
keep the text they were written with, so that writing decides nothing but layout and escapes.

Escapes: a quote, a backslash and the three common line controls have short escapes; other controls,
the three characters that matter inside web pages and the two Unicode line separators are written by
number; a byte that belongs to no character is written as the replacement character.

This is what `scan.Marshal` and `printJSON` write.
-/

set_option autoImplicit false

namespace DocFilter

/-- A tree of interchange values. -/
inductive Json where
  | null
  | bool (b : Bool)
  | number (literal : Text)
  | string (t : Text)
  | array (items : List Json)
  | object (members : List (Text × Json))
  deriving Inhabited, Repr

namespace Json

open Text (byte)

/-- A character inside a string. -/
def escapedChar (c : Char) : Text :=
  let n := c.toNat
  if c == '"' || c == '\\' then byte '\\' :: Text.ofChar c
  else if c == '\n' then "\\n"
  else if c == '\r' then "\\r"
  else if c == '\t' then "\\t"
  else if n < 0x20 || c == '<' || c == '>' || c == '&' || n == 0x2028 || n == 0x2029 then
    "\\u" ++ Text.hex 4 n
  else Text.ofChar c

/-- A piece of a text inside a string. -/
def escapedPiece : Text.Piece → Text
  | .char c => escapedChar c
  | .stray _ => "\\ufffd"

/-- A string with its quotes. -/
def quoted (t : Text) : Text :=
  byte '"' :: (Text.pieces t).flatMap escapedPiece ++ [byte '"']

/-- Entries in the order of their names as they are written. Quotes and escapes count: a name comes
behind its continuation by a blank, and a stray byte comes before the replacement character that it is
read as. -/
def byWrittenName {α : Type} (entries : List (Text × α)) : List (Text × α) :=
  sortByKey (fun e => quoted e.1) entries

mutual

/-- The form without blanks. -/
def compact : Json → Text
  | .null => "null"
  | .bool b => if b then "true" else "false"
  | .number literal => literal
  | .string t => quoted t
  | .array items => "[" ++ compactItems items ++ "]"
  | .object members => "\x7b" ++ compactMembers members ++ "\x7d"

/-- Elements with commas between them. -/
def compactItems : List Json → Text
  | [] => []
  | [j] => j.compact
  | j :: rest => j.compact ++ "," ++ compactItems rest

/-- Members with commas between them. -/
def compactMembers : List (Text × Json) → Text
  | [] => []
  | [(k, j)] => quoted k ++ ":" ++ j.compact
  | (k, j) :: rest => quoted k ++ ":" ++ j.compact ++ "," ++ compactMembers rest

end

/-- A new line at a depth of nesting; every level is two blanks. -/
def newline (depth : Nat) : Text := byte '\n' :: List.replicate (2 * depth) (byte ' ')

mutual

/-- The form with one element or member on a line. Empty collections stay on theirs. -/
def indented (depth : Nat) : Json → Text
  | .null => "null"
  | .bool b => if b then "true" else "false"
  | .number literal => literal
  | .string t => quoted t
  | .array [] => "[]"
  | .array (j :: rest) =>
    "[" ++ newline (depth + 1) ++ indentedItems (depth + 1) (j :: rest) ++ newline depth ++ "]"
  | .object [] => "\x7b\x7d"
  | .object (m :: rest) =>
    "\x7b" ++ newline (depth + 1) ++ indentedMembers (depth + 1) (m :: rest) ++ newline depth ++ "\x7d"

/-- Elements on lines of their own. -/
def indentedItems (depth : Nat) : List Json → Text
  | [] => []
  | [j] => j.indented depth
  | j :: rest => j.indented depth ++ "," ++ newline depth ++ indentedItems depth rest

/-- Members on lines of their own. -/
def indentedMembers (depth : Nat) : List (Text × Json) → Text
  | [] => []
  | [(k, j)] => quoted k ++ ": " ++ j.indented depth
  | (k, j) :: rest =>
    quoted k ++ ": " ++ j.indented depth ++ "," ++ newline depth ++ indentedMembers depth rest

end

end Json
end DocFilter
