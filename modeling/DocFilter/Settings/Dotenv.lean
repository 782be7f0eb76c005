import DocFilter.Text.Blank
import DocFilter.Text.Quoted

/-!
Files of variables, one `NAME=value` a line. A name may be marked for export and may be followed by
a colon instead of an equals sign. A value in single quotes is taken as it is, one in double quotes
may hold escapes, and outside single quotes a dollar sign and a name stand for the value of a
variable from further up in the same file.
-/

set_option autoImplicit false

namespace DocFilter.Dotenv

open Text (byte)

/-- What can be wrong with a file of variables. -/
inductive ParseError where
  /-- A byte that no name has, with the text from the beginning of the name on. -/
  | badName (b : UInt8) (near : Text)
  /-- A marker for export with no name after it. -/
  | noName
  /-- A quote that is not closed, with the line it stands on. -/
  | openQuote (line : Text)
  deriving DecidableEq, Repr

/-- The words of the error. -/
def ParseError.message : ParseError → Text
  | .badName b near =>
    "unexpected character " ++ Text.quoted (Text.ofChar (Char.ofNat b.toNat)) ++
      " in variable name near " ++ Text.quoted near
  | .noName => "zero length string"
  | .openQuote line => "unterminated quoted value " ++ line

/-- Variables in the order in which they were first set. -/
abbrev Variables := List (Text × Text)

/-- Sets a variable, in place of an earlier value. -/
def set : Variables → Text → Text → Variables
  | [], name, value => [(name, value)]
  | (n, old) :: rest, name, value =>
    if n == name then (name, value) :: rest else (n, old) :: set rest name value

/-- A blank that does not end a line, by its number. -/
def isBlankNumber (n : Nat) : Bool :=
  n == 0x09 || n == 0x0B || n == 0x0C || n == 0x0D || n == 0x20 || n == 0x85 || n == 0xA0

/-- A piece of a text that is a blank on its line. -/
def isBlankPiece : Text.Piece → Bool
  | .char c => isBlankNumber c.toNat
  | .stray _ => false

/-- The text without blanks in front. -/
def skipBlanks (t : Text) : Text :=
  ((Text.pieces t).dropWhile isBlankPiece).flatMap Text.Piece.bytes

/-- Every carriage return before a line feed is dropped. -/
def unixLines : Text → Text
  | a :: b :: rest =>
    if a == 0x0D && b == 0x0A then b :: unixLines rest else a :: unixLines (b :: rest)
  | t => t

/-- The beginning of the next line that is neither empty nor a comment. -/
def nextStatement : (fuel : Nat) → Text → Text
  | 0, _ => []
  | fuel + 1, t =>
    let t := ((Text.pieces t).dropWhile Text.Piece.isBlank).flatMap Text.Piece.bytes
    if t.head? == some (byte '#') then nextStatement fuel (t.dropWhile (· != 0x0A)) else t

/-! ## Names -/

/-- Whether a byte can stand in a name; a byte counts as the character with its number. -/
def isNameByte (b : UInt8) : Bool :=
  Text.isLetter b || Text.isDigit b || b == byte '_' || b == byte '.' ||
    b == 0xAA || b == 0xB5 || b == 0xBA || b == 0xB2 || b == 0xB3 || b == 0xB9 ||
    (0xBC ≤ b && b ≤ 0xBE) || (0xC0 ≤ b && b != 0xD7 && b != 0xF7)

/-- How far a name goes: up to its equals sign or colon, to the end of the text if there is none, or
to a byte that no name has. -/
def nameLength : Text → Except UInt8 (Option Nat)
  | [] => .ok none
  | b :: rest =>
    if b == byte '=' || b == byte ':' then .ok (some 0)
    else if isNameByte b || isBlankNumber b.toNat then
      match nameLength rest with
      | .ok n => .ok (n.map (· + 1))
      | .error bad => .error bad
    else .error b

/-- The text after a marker for export. -/
def skipExport (t : Text) : Text :=
  let marker := Text.ofString "export"
  let rest := t.drop marker.length
  if marker.isPrefixOf t && (Text.pieces rest).head?.any isBlankPiece then skipBlanks rest else t

/-- Reads a name: the name, and the text from its value on. Without a sign to end it the name is
empty and everything is value. -/
def readName (t : Text) : Except ParseError (Text × Text) :=
  let t := skipExport (skipBlanks t)
  match nameLength t with
  | .error b => .error (.badName b t)
  | .ok none => if t.isEmpty then .error .noName else .ok ([], skipBlanks t)
  | .ok (some n) =>
    let name := ((Text.pieces (t.take n)).reverse.dropWhile Text.Piece.isBlank).reverse
    .ok (name.flatMap Text.Piece.bytes, skipBlanks (t.drop (n + 1)))

/-! ## Values -/

/-- The bytes of the names that can be referred to. -/
def isReferenceByte (b : UInt8) : Bool := (0x41 ≤ b && b ≤ 0x5A) || Text.isDigit b || b == byte '_'

/-- A reference after its dollar sign: what stands before the name, the name, and what stands after
it. `parens` tells whether a parenthesis may stand before it. -/
def reference (parens : Bool) (t : Text) : Text × Text × Text :=
  let paren := if parens && t.head? == some (byte '(') then t.take 1 else []
  let t := t.drop paren.length
  let brace := if t.head? == some (byte '\x7b') then t.take 1 else []
  let t := t.drop brace.length
  let name := t.takeWhile isReferenceByte
  let t := t.drop name.length
  let close := if t.head? == some (byte '\x7d') then t.take 1 else []
  (paren ++ brace, name, close)

/-- The text with what names stand for in place of references, after its first `skip` bytes. A
backslash keeps a dollar sign from being a reference. -/
def expandFrom (parens : Bool) (meaning : Text → Text) : (skip : Nat) → Text → Text
  | _, [] => []
  | skip + 1, _ :: rest => expandFrom parens meaning skip rest
  | 0, b :: rest =>
    if b == byte '\\' && rest.head? == some (byte '$') then
      let (before, name, close) := reference parens (rest.drop 1)
      let matched := byte '$' :: before ++ name ++ close
      matched ++ expandFrom parens meaning matched.length rest
    else if b == byte '$' then
      let (before, name, close) := reference parens rest
      let width := before.length + name.length + close.length
      if name.isEmpty then b :: before ++ close ++ expandFrom parens meaning width rest
      else meaning name ++ expandFrom parens meaning width rest
    else b :: expandFrom parens meaning 0 rest

/-- The text with the values of variables in place of references. -/
def expand (vars : Variables) (t : Text) : Text :=
  expandFrom true (fun name => (vars.lookup name).getD []) 0 t

/-- Line ends for their escapes; other escapes stay. -/
def lineEscapes : Text → Text
  | a :: b :: rest =>
    if a == byte '\\' then
      if b == byte 'n' then 0x0A :: lineEscapes rest
      else if b == byte 'r' then 0x0D :: lineEscapes rest
      else if b == 0x0A then a :: lineEscapes (b :: rest)
      else a :: b :: lineEscapes rest
    else a :: lineEscapes (b :: rest)
  | t => t

/-- Backslashes are dropped, except before a dollar sign. -/
def dropBackslashes : Text → Text
  | a :: b :: rest =>
    if a == byte '\\' && b != byte '$' then b :: dropBackslashes rest
    else a :: dropBackslashes (b :: rest)
  | t => t

/-- The number of bytes up to the closing quote; a quote after a backslash does not close. -/
def quotedLength? (quote : UInt8) : (previous : UInt8) → Text → Option Nat
  | _, [] => none
  | previous, b :: rest =>
    if b == quote && previous != byte '\\' then some 0
    else (quotedLength? quote b rest).map (· + 1)

/-- The characters of a line before its comment: a number sign after a blank begins one. -/
def beforeComment : List Char → List Char
  | a :: b :: rest =>
    if b == '#' && isBlankNumber a.toNat then [a] else a :: beforeComment (b :: rest)
  | cs => cs

/-- A value without quotes: the line up to a comment, without blanks around it. -/
def bareValue (line : Text) : Text :=
  let isBlank (c : Char) : Bool := isBlankNumber c.toNat
  let cs := (Text.pieces line).map fun
    | .char c => c
    | .stray _ => Text.replacement
  Text.ofChars (((beforeComment cs).dropWhile isBlank).reverse.dropWhile isBlank).reverse

/-- Reads a value: the value, and the text after it. -/
def readValue (vars : Variables) (t : Text) : Except ParseError (Text × Text) :=
  match t with
  | [] => .ok ([], [])
  | q :: rest =>
    if q == byte '"' || q == byte '\'' then
      match quotedLength? q q rest with
      | none => .error (.openQuote (t.takeWhile (· != 0x0A)))
      | some n =>
        let inner := Text.dropEndWhile (· == q) ((rest.take n).dropWhile (· == q))
        let value := if q == byte '"' then expand vars (dropBackslashes (lineEscapes inner)) else inner
        .ok (value, rest.drop (n + 1))
    else
      let line := t.takeWhile fun b => b != 0x0A && b != 0x0D
      .ok (expand vars (bareValue line), t.drop line.length)

/-- Reads statement after statement. Each takes a byte, so the length of the text is enough fuel. -/
def readAll : (fuel : Nat) → Variables → Text → Except ParseError Variables
  | 0, vars, _ => .ok vars
  | fuel + 1, vars, t =>
    match nextStatement (t.length + 1) t with
    | [] => .ok vars
    | b :: rest => do
      let (name, t) ← readName (b :: rest)
      let (value, t) ← readValue vars t
      readAll fuel (set vars name value) t

/-- Reads a file of variables. -/
def parse (t : Text) : Except ParseError Variables :=
  let t := unixLines t
  readAll (t.length + 1) [] t

end DocFilter.Dotenv
