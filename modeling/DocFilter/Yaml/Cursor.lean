import DocFilter.Text.Utf8

/-!
Where a reader of YAML stands: the characters that are still to come, and the place of the first of
them by line and column. Structure in YAML is carried by columns, so every reader below moves a
cursor and nothing else.
-/

set_option autoImplicit false

namespace DocFilter.Yaml

/-- Whether a character ends a line. -/
def isBreak (c : Char) : Bool :=
  c == '\r' || c == '\n' || c.toNat == 0x85 || c.toNat == 0x2028 || c.toNat == 0x2029

/-- Whether a character separates words on a line. -/
def isBlank (c : Char) : Bool := c == ' ' || c == '\t'

/-- Whether a character may stand in a YAML text at all. -/
def isAllowed (c : Char) : Bool :=
  let n := c.toNat
  n == 0x09 || n == 0x0A || n == 0x0D || (0x20 ≤ n && n ≤ 0x7E) || n == 0x85 ||
    (0xA0 ≤ n && n ≤ 0xD7FF) || (0xE000 ≤ n && n ≤ 0xFFFD) || 0x10000 ≤ n

/-- Whether a character may stand in the name of an anchor, a directive or a tag handle. -/
def isNameChar (c : Char) : Bool := c.isAlphanum || c == '_' || c == '-'

/-- The mark that may begin a text to tell its encoding. -/
def byteOrderMark : Char := Char.ofNat 0xFEFF

/-- The units of sixteen bits of a text, the high byte of each first or last. -/
def units? (highFirst : Bool) : Text → Option (List Nat)
  | [] => some []
  | [_] => none
  | a :: b :: rest => do
    let unit := if highFirst then a.toNat * 256 + b.toNat else b.toNat * 256 + a.toNat
    return unit :: (← units? highFirst rest)

/-- The characters of units of sixteen bits; halves of pairs have to come in pairs. -/
def pairUp? : List Nat → Option (List Char)
  | [] => some []
  | [n] => if 0xD800 ≤ n && n < 0xE000 then none else some [Char.ofNat n]
  | n :: m :: rest =>
    if 0xD800 ≤ n && n < 0xDC00 then
      if 0xDC00 ≤ m && m < 0xE000 then do
        return Char.ofNat (0x10000 + (n - 0xD800) * 0x400 + (m - 0xDC00)) :: (← pairUp? rest)
      else none
    else if 0xDC00 ≤ n && n < 0xE000 then none
    else do return Char.ofNat n :: (← pairUp? (m :: rest))

/-- The characters of a text. A mark at its beginning tells how it is encoded and is no part of it. -/
def decode? (t : Text) : Option (List Char) :=
  match t with
  | 0xFF :: 0xFE :: rest => (units? false rest).bind pairUp?
  | 0xFE :: 0xFF :: rest => (units? true rest).bind pairUp?
  | t => do
    let cs ← (Text.pieces t).mapM fun
      | .char c => some c
      | .stray _ => none
    match cs with
    | c :: rest => return if c == byteOrderMark then rest else cs
    | [] => return []

/-- The characters of a YAML text, if all of them are allowed. -/
def characters? (t : Text) : Option (List Char) := do
  let cs ← decode? t
  if cs.all isAllowed then return cs else none

/-- A place in a text, with the characters from there on. Lines and columns count from zero. -/
structure Cursor where
  rest : List Char
  line : Nat
  column : Nat
  index : Nat

namespace Cursor

/-- The beginning of a text. -/
def start (cs : List Char) : Cursor := ⟨cs, 0, 0, 0⟩

/-- The character at the cursor. -/
def head? (c : Cursor) : Option Char := c.rest.head?

/-- One character further on the same line. -/
def skip (c : Cursor) : Cursor := ⟨c.rest.drop 1, c.line, c.column + 1, c.index + 1⟩

/-- Several characters further on the same line. -/
def skipMany (c : Cursor) (n : Nat) : Cursor :=
  ⟨c.rest.drop n, c.line, c.column + n, c.index + n⟩

/-- The beginning of the next line, at the end of a line. A carriage return and the line feed after
it end a line together. -/
def skipLine (c : Cursor) : Cursor :=
  match c.rest with
  | '\r' :: '\n' :: rest => ⟨rest, c.line + 1, 0, c.index + 2⟩
  | _ :: rest => ⟨rest, c.line + 1, 0, c.index + 1⟩
  | [] => c

/-- The line break at the cursor as it counts in a scalar: one line feed, except for the separators
of lines and paragraphs, which stay. -/
def lineBreak (c : Cursor) : List Char :=
  match c.rest with
  | b :: _ => if b.toNat == 0x2028 || b.toNat == 0x2029 then [b] else ['\n']
  | [] => []

/-- Whether the character at the cursor satisfies `p`. -/
def headIs (c : Cursor) (p : Char → Bool) : Bool := c.head?.any p

/-- The end of the line. -/
def toLineEnd (c : Cursor) : Cursor := c.skipMany (c.rest.takeWhile (!isBreak ·)).length

end Cursor

/-- Whether what follows is a blank, a line break or the end. -/
def blankNext : List Char → Bool
  | [] => true
  | c :: _ => isBlank c || isBreak c

/-- Whether a document marker, three times `c`, stands at the cursor: it takes a line of its own or
is followed by a blank. -/
def atMarker (c : Char) (cur : Cursor) : Bool :=
  cur.column == 0 &&
    match cur.rest with
    | c₁ :: c₂ :: c₃ :: rest => c₁ == c && c₂ == c && c₃ == c && blankNext rest
    | _ => false

/-- Whether a document begins or ends at the cursor. -/
def atDocumentMarker (cur : Cursor) : Bool := atMarker '-' cur || atMarker '.' cur

end DocFilter.Yaml
