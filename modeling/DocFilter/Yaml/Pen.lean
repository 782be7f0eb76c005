import DocFilter.Yaml.Form

/-!
A pen that writes YAML. It knows the column at which it stands, whether a space is needed before the
next word, and whether the line is still fresh, that is, has nothing but indicators on it. What is
indented below an indicator goes on its line while that is fresh and short enough, and on a line of
its own otherwise; this one rule puts an item right behind its dash and the value of a long key right
behind its colon.
-/

set_option autoImplicit false

namespace DocFilter.Yaml

open Text (byte)

/-- What is written, and where the pen stands. -/
structure Pen where
  /-- What is written, the last byte first. -/
  backwards : Text
  column : Nat
  /-- Whether a word can follow without a space. -/
  spaced : Bool
  /-- Whether only indicators stand on the line. -/
  fresh : Bool

namespace Pen

/-- The pen at the beginning of a text. -/
def start : Pen := ⟨[], 0, true, true⟩

/-- What is written. -/
def text (p : Pen) : Text := p.backwards.reverse

/-- Writes a character. -/
def put (p : Pen) (c : Char) : Pen :=
  { p with backwards := (Text.ofChar c).reverse ++ p.backwards, column := p.column + 1 }

/-- Writes characters. -/
def putAll (p : Pen) (cs : List Char) : Pen := cs.foldl put p

/-- Ends the line with one of the characters that do so. -/
def endLine (p : Pen) (c : Char) : Pen :=
  { p with backwards := (Text.ofChar c).reverse ++ p.backwards, column := 0, fresh := true }

/-- Goes to a column of a fresh line, which is the present one if it has not come that far. -/
def indentTo (p : Pen) (indent : Nat) : Pen :=
  let p :=
    if !p.fresh || indent < p.column || (p.column == indent && !p.spaced) then p.endLine '\n' else p
  { p.putAll (List.replicate (indent - p.column) ' ') with spaced := true }

/-- Writes a space if one is needed. -/
def space (p : Pen) : Pen := if p.spaced then p else p.put ' '

/-- Writes a word that ends the freshness of the line. -/
def word (p : Pen) (cs : List Char) : Pen :=
  { p.space.putAll cs with spaced := false, fresh := false }

/-- Writes an indicator after which the line is as fresh as before. -/
def mark (p : Pen) (c : Char) : Pen := { p.space.put c with spaced := false }

/-- Writes the colon after a key on its line. -/
def colon (p : Pen) : Pen := { p.put ':' with spaced := false, fresh := false }

end Pen

/-! ## What a text allows -/

/-- Whether a character can be written as it is. -/
def isShown (c : Char) : Bool :=
  let n := c.toNat
  n == 0x0A || (0x20 ≤ n && n ≤ 0x7E) || (0xA0 ≤ n && n < 0x10000 && n != 0xFEFF && n < 0xFFFE)

/-- What matters about a text for the ways to write it. -/
structure Shape where
  empty : Bool
  /-- Indicators that are not possible in a plain scalar. -/
  indicators : Bool
  leadingSpace : Bool
  trailingSpace : Bool
  /-- A line break at either end. -/
  outerBreak : Bool
  hasBreak : Bool
  /-- A blank after a line break. -/
  breakThenSpace : Bool
  /-- A blank before a line break. -/
  spaceThenBreak : Bool
  hasTab : Bool
  hasHidden : Bool

/-- Whether `p` holds of two neighbours. -/
def anyNeighbours (p : Char → Char → Bool) : List Char → Bool
  | a :: b :: rest => p a b || anyNeighbours p (b :: rest)
  | _ => false

/-- Whether the first character is an indicator there. -/
def beginsWithIndicator : List Char → Bool
  | [] => false
  | c :: rest =>
    "#,[]\x7b\x7d&*!|>'\"%@\x60".toList.contains c ||
      ((c == '?' || c == ':' || c == '-') && (rest.isEmpty || rest.head?.any isBlank))

/-- Whether a later character is an indicator: a colon before a blank or the end, a number sign after
a blank. -/
def hasInnerIndicator : List Char → Bool
  | [] => false
  | a :: rest =>
    (match rest with
      | ':' :: after => after.isEmpty || after.head?.any isBlank
      | '#' :: _ => isBlank a || isBreak a
      | _ => false) || hasInnerIndicator rest

/-- The shape of a text. -/
def Shape.of (cs : List Char) : Shape :=
  let isMark := ["---".toList, "...".toList].any (·.isPrefixOf cs)
  { empty := cs.isEmpty
    indicators := isMark || beginsWithIndicator cs || hasInnerIndicator cs
    leadingSpace := cs.head? == some ' '
    trailingSpace := cs.getLast? == some ' '
    outerBreak := cs.head?.any isBreak || cs.getLast?.any isBreak
    hasBreak := cs.any isBreak
    breakThenSpace := anyNeighbours (fun a b => isBreak a && b == ' ') cs
    spaceThenBreak := anyNeighbours (fun a b => a == ' ' && isBreak b) cs
    hasTab := cs.contains '\t'
    hasHidden := cs.any fun c => c != '\t' && !isShown c }

/-- Whether a text can be written plain. -/
def Shape.plainOk (s : Shape) : Bool :=
  !(s.leadingSpace || s.trailingSpace || s.outerBreak || s.breakThenSpace || s.spaceThenBreak ||
    s.hasTab || s.hasHidden || s.hasBreak || s.indicators)

/-- Whether a text can be written in single quotes. -/
def Shape.singleOk (s : Shape) : Bool :=
  !(s.breakThenSpace || s.spaceThenBreak || s.hasTab || s.hasHidden)

/-- Whether a text can be written as a block of lines. -/
def Shape.blockOk (s : Shape) : Bool :=
  !(s.empty || s.trailingSpace || s.spaceThenBreak || s.hasHidden)

/-- The style in which a scalar is written: the one it wants, or the next that its text allows. A key
that stands before its colon on one line is neither empty nor a block. -/
def Style.allowed (isKey : Bool) (s : Shape) : Style → Style
  | .plain =>
    if s.empty then (if isKey then .single else .plain)
    else if s.plainOk then .plain
    else if s.singleOk then .single
    else .double
  | .single => if s.singleOk then .single else .double
  | .double => .double
  | .literal | .folded => if s.blockOk && !isKey then .literal else .double

/-! ## Scalars -/

/-- The capital hexadecimal digits of a number. -/
def hexChars (width n : Nat) : List Char :=
  (Text.hex width n).map fun b => Char.ofNat (if 0x61 ≤ b then b - 0x20 else b).toNat

/-- The escape for a character inside double quotes. -/
def escaped (c : Char) : List Char :=
  let n := c.toNat
  let named : List (Nat × Char) :=
    [(0x00, '0'), (0x07, 'a'), (0x08, 'b'), (0x09, 't'), (0x0A, 'n'), (0x0B, 'v'), (0x0C, 'f'),
      (0x0D, 'r'), (0x1B, 'e'), (0x22, '"'), (0x5C, '\\'), (0x85, 'N'), (0xA0, '_'), (0x2028, 'L'),
      (0x2029, 'P')]
  '\\' ::
    match named.lookup n with
    | some letter => [letter]
    | none =>
      if n ≤ 0xFF then 'x' :: hexChars 2 n
      else if n ≤ 0xFFFF then 'u' :: hexChars 4 n
      else 'U' :: hexChars 8 n

/-- A text in double quotes. In a text that begins with a byte order mark every character is
escaped. -/
def doubleQuoted (cs : List Char) : List Char :=
  let marked := cs.head? == some byteOrderMark
  let written (c : Char) : List Char :=
    if isShown c && !isBreak c && c != '"' && c != '\\' && !marked then [c] else escaped c
  '"' :: cs.flatMap written ++ ['"']

/-- The indicators of a block: its indentation if the first line does not show it, and what becomes
of the breaks at its end. -/
def blockIndicators (cs : List Char) : List Char :=
  let indentation := if cs.head?.any (fun c => c == ' ' || isBreak c) then ['4'] else []
  let chomping :=
    match cs.reverse with
    | [] => ['-']
    | a :: before =>
      if !isBreak a then ['-']
      else if before.isEmpty || before.head?.any isBreak then ['+']
      else []
  '|' :: indentation ++ chomping

namespace Pen

/-- Writes the inside of single quotes. A quote is doubled, the first of several line feeds is
written twice, and a word after a line break is indented. -/
def singleQuotedChars (indent : Nat) : (afterBreak : Bool) → List Char → Pen → Pen
  | _, [], p => p
  | afterBreak, c :: rest, p =>
    if isBreak c then
      let p := if !afterBreak && c == '\n' then p.endLine c else p
      singleQuotedChars indent true rest (p.endLine c)
    else if c == ' ' then singleQuotedChars indent afterBreak rest (p.put c)
    else
      let p := if afterBreak then p.indentTo indent else p
      let p := if c == '\'' then p.put c else p
      singleQuotedChars indent false rest { p.put c with fresh := false }

/-- Writes a text in single quotes. -/
def singleQuoted (p : Pen) (indent : Nat) (cs : List Char) : Pen :=
  let p := singleQuotedChars indent false cs (p.word ['\''])
  { p.put '\'' with spaced := false, fresh := false }

/-- Writes the lines of a block, those that are not empty with their indentation. The pen goes to a
new line for the first word only if none has ended before it. -/
def blockChars (indent : Nat) : (afterBreak : Bool) → List Char → Pen → Pen
  | _, [], p => p
  | afterBreak, c :: rest, p =>
    if isBreak c then blockChars indent true rest (p.endLine c)
    else
      let p := if afterBreak then p.indentTo indent else p
      blockChars indent false rest { p.put c with fresh := false }

/-- Writes a text as a block of lines. -/
def block (p : Pen) (indent : Nat) (cs : List Char) : Pen :=
  blockChars indent true cs { p.word (blockIndicators cs) with spaced := true }

/-- Writes a scalar; its further lines have the given indentation. -/
def scalar (p : Pen) (isKey : Bool) (indent : Nat) (s : ScalarForm) : Pen :=
  let cs := charsOf s.content
  let p := if s.tag.isEmpty then p else p.word (charsOf s.tag)
  match s.style.allowed isKey (Shape.of cs) with
  | .plain => if cs.isEmpty then { p with fresh := false } else p.word cs
  | .single => p.singleQuoted indent cs
  | .double => p.word (doubleQuoted cs)
  | .literal | .folded => p.block indent cs

end Pen

end DocFilter.Yaml
