import DocFilter.Yaml.Scalar

/-!
The tokens of a YAML text. Block structure is written by indentation alone, so the tokens that open
and close block collections are derived from columns: a line that goes deeper opens a collection, a
line that goes back closes those it leaves.

A mapping is recognised late: `a` is a scalar until the colon after it shows that it was a key. The
lexer therefore remembers, for each level of flow brackets, where the last possible key began, and
puts the tokens for it in front of what it has already written. A token is handed over only when two
more are known and when it is decided whether a key begins with it, so a malformed text is noticed
some way before the place where it is malformed.
-/

set_option autoImplicit false

namespace DocFilter.Yaml

/-- The ways to write a scalar. Only a plain one can mean anything but its text. -/
inductive Style where
  | plain
  | single
  | double
  | literal
  | folded
  deriving DecidableEq, Repr

/-- A tag as it is written: the handle that stands for a stem, and what follows it. -/
structure TagName where
  handle : Text
  suffix : Text
  deriving DecidableEq, Repr

/-- What a token is. -/
inductive TokenKind where
  | blockSequenceStart
  | blockMappingStart
  | blockEnd
  | flowSequenceStart
  | flowSequenceEnd
  | flowMappingStart
  | flowMappingEnd
  | blockEntry
  | flowEntry
  | key
  | value
  | alias (name : Text)
  | anchor (name : Text)
  | tag (name : TagName)
  | scalar (style : Style) (content : Text)
  | documentStart
  | documentEnd
  | versionDirective (major minor : Nat)
  | tagDirective (handle stem : Text)
  | streamEnd
  deriving DecidableEq, Repr

/-- A token and the line on which it begins. -/
structure Token where
  kind : TokenKind
  line : Nat
  deriving DecidableEq, Repr

/-- A place where a key may have begun. -/
structure PossibleKey where
  /-- Whether the text is malformed if no key began there. -/
  required : Bool
  /-- How many tokens stand before it. -/
  position : Nat
  line : Nat
  column : Nat
  index : Nat
  /-- Whether the tokens from there on are held back until it is decided. -/
  awaited : Bool

/-- What is known about keys inside one pair of flow brackets, or outside all of them. -/
structure Level where
  /-- The possible key. -/
  key : Option PossibleKey
  /-- How many tokens stand before the last possible key, or before the bracket while there was
  none. -/
  position : Nat

/-- Whether a possible key is out of reach: a key stays on its line and is not longer than 1024
characters. -/
def PossibleKey.isStale (k : PossibleKey) (cur : Cursor) : Bool :=
  k.line < cur.line || k.index + 1024 < cur.index

/-- What the lexer knows between two tokens. -/
structure Lexer where
  cursor : Cursor
  tokens : Array Token
  /-- How many of the tokens have been handed over. -/
  taken : Nat
  /-- The column of the innermost block collection, and of those around it. -/
  indents : List Nat
  /-- The level outside all flow brackets. -/
  block : Level
  /-- The levels of the open flow collections, the innermost first. -/
  flow : List Level
  /-- Whether a key may begin here. -/
  keyAllowed : Bool

namespace Lexer

/-- The lexer at the beginning of a text. -/
def start (cs : List Char) : Lexer := ⟨.start cs, #[], 0, [], ⟨none, 0⟩, [], true⟩

/-- Whether the lexer is inside a flow collection. -/
def inFlow (lx : Lexer) : Bool := !lx.flow.isEmpty

/-- The current level. -/
def level (lx : Lexer) : Level := lx.flow.headD lx.block

/-- The lexer with another current level. -/
def withLevel (lx : Lexer) (l : Level) : Lexer :=
  match lx.flow with
  | _ :: outer => { lx with flow := l :: outer }
  | [] => { lx with block := l }

/-- The lexer without a possible key at the current level. -/
def withoutKey (lx : Lexer) : Lexer := lx.withLevel { lx.level with key := none }

/-- The lexer with one token more, which begins at the cursor. -/
def push (lx : Lexer) (kind : TokenKind) : Lexer :=
  { lx with tokens := lx.tokens.push ⟨kind, lx.cursor.line⟩ }

/-- The lexer with a token put before those from `position` on. Where that token has been handed over
already, the new one comes last. -/
def insert (lx : Lexer) (position : Nat) (t : Token) : Lexer :=
  if position < lx.taken then { lx with tokens := lx.tokens.push t }
  else { lx with tokens := lx.tokens.insertIdxIfInBounds position t }

/-- The lexer moved to another place. -/
def moveTo (lx : Lexer) (cur : Cursor) : Lexer := { lx with cursor := cur }

/-- Whether a key may begin from now on. -/
def allowKey (lx : Lexer) (allowed : Bool) : Lexer := { lx with keyAllowed := allowed }

/-- Gives up the possible key of the current level, which fails if it was required. -/
def dropKey (lx : Lexer) : Option Lexer :=
  match lx.level.key with
  | some k => if k.required then none else some lx.withoutKey
  | none => some lx

/-- Notes that a key may begin at the cursor, if one may. It is required if the cursor stands right
at the indentation of the current block collection. -/
def noteKey (lx : Lexer) : Option Lexer :=
  if lx.keyAllowed then do
    let dropped ← lx.dropKey
    let required := !lx.inFlow && lx.indents.head? == some lx.cursor.column
    let position := lx.tokens.size
    return dropped.withLevel
      ⟨some ⟨required, position, lx.cursor.line, lx.cursor.column, lx.cursor.index, true⟩, position⟩
  else some lx

/-- Opens a block collection at a column that is deeper than the current one. -/
def openBlock (lx : Lexer) (column position line : Nat) (kind : TokenKind) : Lexer :=
  if lx.inFlow || lx.indents.head?.any (column ≤ ·) then lx
  else { lx.insert position ⟨kind, line⟩ with indents := column :: lx.indents }

/-- How many block collections are deeper than a column. -/
def deeperThan (column : Nat) (indents : List Nat) : Nat :=
  (indents.takeWhile (column < ·)).length

/-- Closes the innermost `count` block collections. -/
def closeBlocks (lx : Lexer) (count : Nat) : Lexer :=
  { lx with
    tokens := lx.tokens ++ Array.replicate count ⟨.blockEnd, lx.cursor.line⟩
    indents := lx.indents.drop count }

/-- Closes the block collections that the cursor has left. -/
def closeLeft (lx : Lexer) : Lexer :=
  if lx.inFlow then lx else lx.closeBlocks (deeperThan lx.cursor.column lx.indents)

/-- Closes all block collections; inside a flow collection there is nothing to close. -/
def closeAll (lx : Lexer) : Lexer := if lx.inFlow then lx else lx.closeBlocks lx.indents.length

/-! ## Between the tokens -/

/-- How many characters are looked at to find a comment. -/
def lookAhead : Nat := 512

/-- Whether a comment comes next, after characters that satisfy `between`. -/
def commentFollows (between : Char → Bool) (cs : List Char) : Bool :=
  ((cs.take lookAhead).dropWhile between).head? == some '#'

/-- Skips the comment on the rest of a token's line. -/
def skipLineComment (lx : Lexer) : Lexer :=
  if commentFollows isBlank lx.cursor.rest then { lx with cursor := lx.cursor.toLineEnd } else lx

/-- Skips a comment, and the comments on the lines after it, whatever blanks stand before them. -/
def skipComments : (fuel : Nat) → Cursor → Cursor
  | 0, cur => cur
  | fuel + 1, cur =>
    let cur := cur.toLineEnd
    if commentFollows (fun c => isBlank c || c == '\r' || c == '\n') cur.rest then
      match scanGap 0 (cur.rest.length + 1) .none cur with
      | some (_, next) => skipComments fuel next
      | none => cur
    else cur

/-- Moves to the next token: over blanks, comments and line breaks. Where a key may begin in block
context, a tab is no blank. -/
def skipToToken : (fuel : Nat) → Lexer → Lexer
  | 0, lx => lx
  | fuel + 1, lx =>
    let skipped (c : Char) : Bool := c == ' ' || ((lx.inFlow || !lx.keyAllowed) && c == '\t')
    let cur := lx.cursor.skipMany (lx.cursor.rest.takeWhile skipped).length
    let cur := if cur.headIs (· == '#') then skipComments (cur.rest.length + 1) cur else cur
    if cur.headIs isBreak then
      skipToToken fuel { lx with cursor := cur.skipLine, keyAllowed := lx.keyAllowed || !lx.inFlow }
    else lx.moveTo cur

/-! ## Indicators -/

/-- A token of one or more characters that is no scalar and after which a key may begin or not. -/
def indicator (lx : Lexer) (kind : TokenKind) (width : Nat) (keyAfter : Bool) : Lexer :=
  ((lx.push kind).moveTo (lx.cursor.skipMany width)).allowKey keyAfter

/-- A document marker. -/
def marker (lx : Lexer) (kind : TokenKind) : Option Lexer := do
  return (← lx.closeAll.dropKey).indicator kind 3 false

/-- The beginning of a flow collection. -/
def openFlow (lx : Lexer) (kind : TokenKind) : Option Lexer := do
  let lx ← lx.noteKey
  let inner : Level := ⟨none, lx.tokens.size⟩
  return { lx.indicator kind 1 true with flow := inner :: lx.flow }.skipLineComment

/-- The lexer that no longer waits for the decision on a key at `position`. -/
def release (lx : Lexer) (position : Nat) : Lexer :=
  match lx.level.key with
  | some k =>
    if k.position == position then lx.withLevel { lx.level with key := some { k with awaited := false } }
    else lx
  | none => lx

/-- The end of a flow collection. The last possible key inside it is no longer awaited; if there was
none, this goes for the key that the bracket itself may begin. -/
def closeFlow (lx : Lexer) (kind : TokenKind) : Option Lexer := do
  let lx ← lx.dropKey
  let closed := match lx.flow with
    | inner :: outer => { lx with flow := outer }.release inner.position
    | [] => lx
  return (closed.indicator kind 1 false).skipLineComment

/-- A comma. -/
def flowEntry (lx : Lexer) : Option Lexer := do
  return ((← lx.dropKey).indicator .flowEntry 1 true).skipLineComment

/-- A dash before an item. A comment after it belongs to the item. -/
def blockEntry (lx : Lexer) : Option Lexer := do
  if !lx.inFlow && !lx.keyAllowed then none
  let lx := lx.openBlock lx.cursor.column lx.tokens.size lx.cursor.line .blockSequenceStart
  return (← lx.dropKey).indicator .blockEntry 1 true

/-- A question mark before a key. -/
def explicitKey (lx : Lexer) : Option Lexer := do
  if !lx.inFlow && !lx.keyAllowed then none
  let lx := lx.openBlock lx.cursor.column lx.tokens.size lx.cursor.line .blockMappingStart
  let lx ← lx.dropKey
  return (lx.indicator .key 1 (!lx.inFlow)).skipLineComment

/-- A colon. It turns the possible key of its level into a key, or it follows an explicit key. -/
def value (lx : Lexer) : Option Lexer :=
  let afterKey (k : PossibleKey) : Option Lexer :=
    let lx := lx.insert k.position ⟨.key, k.line⟩
    let lx := lx.openBlock k.column k.position k.line .blockMappingStart
    some (lx.withoutKey.indicator .value 1 false).skipLineComment
  let alone (lx : Lexer) : Option Lexer :=
    if !lx.inFlow && !lx.keyAllowed then none
    else
      let lx := lx.openBlock lx.cursor.column lx.tokens.size lx.cursor.line .blockMappingStart
      some (lx.indicator .value 1 (!lx.inFlow)).skipLineComment
  match lx.level.key with
  | none => alone lx
  | some k =>
    if k.isStale lx.cursor then (if k.required then none else alone lx.withoutKey)
    else afterKey k

/-! ## Names and tags -/

/-- Whether a name may end before these characters. -/
def endsName : List Char → Bool
  | [] => true
  | c :: _ => isBlank c || isBreak c || "?:,]\x7d%@\x60".toList.contains c

/-- An anchor or an alias. -/
def name (lx : Lexer) (kind : Text → TokenKind) : Option Lexer := do
  let lx ← lx.noteKey
  let rest := lx.cursor.rest.drop 1
  let chars := rest.takeWhile isNameChar
  if chars.isEmpty || !endsName (rest.drop chars.length) then none
  return (lx.indicator (kind (Text.ofChars chars)) (chars.length + 1) false).skipLineComment

/-- The other characters of a tag. -/
def isTagChar (c : Char) : Bool :=
  isNameChar c || ";/?:@&=+$,.!~*'()[]%".toList.contains c

/-- How many bytes a character takes that begins with this one. -/
def byteWidth? (b : Nat) : Option Nat :=
  if b < 0x80 then some 1
  else if 0xC0 ≤ b && b < 0xE0 then some 2
  else if 0xE0 ≤ b && b < 0xF0 then some 3
  else if 0xF0 ≤ b && b < 0xF8 then some 4
  else none

/-- Reads `count` further bytes of a character, each written as a percent sign and two digits. -/
def furtherBytes? : (count : Nat) → List Char → Option (Text × List Char)
  | 0, cs => some ([], cs)
  | count + 1, '%' :: cs => do
    let n ← hexNumber? 2 0 cs
    if n < 0x80 || 0xC0 ≤ n then none
    let (bytes, rest) ← furtherBytes? count (cs.drop 2)
    return (UInt8.ofNat n :: bytes, rest)
  | _ + 1, _ => none

/-- The text of tag characters, in which a percent sign and two digits stand for a byte. -/
def tagText? : (fuel : Nat) → List Char → Option Text
  | 0, _ => none
  | _ + 1, [] => some []
  | fuel + 1, '%' :: cs => do
    let n ← hexNumber? 2 0 cs
    let width ← byteWidth? n
    let (bytes, rest) ← furtherBytes? (width - 1) (cs.drop 2)
    return UInt8.ofNat n :: bytes ++ (← tagText? fuel rest)
  | fuel + 1, c :: cs => do return Text.ofChar c ++ (← tagText? fuel cs)

/-- The handle of a tag: an exclamation mark, or a name between two of them. -/
def tagHandle (cs : List Char) : List Char :=
  match cs with
  | '!' :: rest =>
    let inner := rest.takeWhile isNameChar
    if (rest.drop inner.length).head? == some '!' then '!' :: inner ++ ['!'] else ['!']
  | _ => []

/-- Reads a tag: its name, and how many characters it takes. -/
def tagName? (cs : List Char) : Option (TagName × Nat) :=
  match cs with
  | '!' :: '<' :: rest => do
    let chars := rest.takeWhile isTagChar
    let suffix ← tagText? (chars.length + 1) chars
    if chars.isEmpty || (rest.drop chars.length).head? != some '>' then none
    return (⟨[], suffix⟩, chars.length + 3)
  | _ => do
    let handle := tagHandle cs
    let chars := (cs.drop handle.length).takeWhile isTagChar
    let suffix ← tagText? (chars.length + 1) chars
    if handle.length == 1 then
      if chars.isEmpty then return (⟨[], "!"⟩, 1)
      return (⟨"!", suffix⟩, chars.length + 1)
    if chars.isEmpty then none
    return (⟨Text.ofChars handle, suffix⟩, handle.length + chars.length)

/-- A tag. -/
def tag (lx : Lexer) : Option Lexer := do
  let lx ← lx.noteKey
  let (name, width) ← tagName? lx.cursor.rest
  if !blankNext (lx.cursor.rest.drop width) then none
  return (lx.indicator (.tag name) width false).skipLineComment

/-! ## Directives -/

/-- A version number: one or two digits. -/
def versionNumber? (cs : List Char) : Option (Nat × List Char) :=
  let digits := cs.takeWhile Char.isDigit
  if digits.isEmpty || 2 < digits.length then none
  else some (digits.foldl (fun n d => n * 10 + (d.toNat - '0'.toNat)) 0, cs.drop digits.length)

/-- What a directive says, from behind its name. -/
def directiveKind? (directive : List Char) (cs : List Char) : Option (TokenKind × List Char) :=
  let cs := cs.dropWhile isBlank
  if directive == "YAML".toList then do
    let (major, cs) ← versionNumber? cs
    match cs with
    | '.' :: cs =>
      let (minor, cs) ← versionNumber? cs
      return (.versionDirective major minor, cs)
    | _ => none
  else if directive == "TAG".toList then do
    let handle := tagHandle cs
    let cs := cs.drop handle.length
    if handle.isEmpty || !cs.head?.any isBlank then none
    let cs := cs.dropWhile isBlank
    let chars := cs.takeWhile isTagChar
    let stem ← tagText? (chars.length + 1) chars
    let cs := cs.drop chars.length
    if chars.isEmpty || !blankNext cs then none
    return (.tagDirective (Text.ofChars handle) stem, cs)
  else none

/-- A directive. It takes its whole line. -/
def directive (lx : Lexer) : Option Lexer := do
  let lx ← lx.closeAll.dropKey
  let rest := lx.cursor.rest.drop 1
  let name := rest.takeWhile isNameChar
  if name.isEmpty || !blankNext (rest.drop name.length) then none
  let (kind, after) ← directiveKind? name (rest.drop name.length)
  let used := lx.cursor.rest.length - after.length
  let lx := lx.indicator kind used false
  let cur := lx.cursor.skipMany (lx.cursor.rest.takeWhile isBlank).length
  let cur := if cur.headIs (· == '#') then cur.toLineEnd else cur
  match cur.rest with
  | [] => return lx.moveTo cur
  | c :: _ => if isBreak c then return lx.moveTo cur.skipLine else none

/-! ## Scalars -/

/-- The lexer behind a scalar. A comment is on its line if no line has ended since. -/
def scalar (lx : Lexer) (style : Style) (s : Scanned) : Lexer :=
  let lx := ((lx.push (.scalar style (Text.ofChars s.content))).moveTo s.cursor).allowKey s.crossedLine
  if s.crossedLine then lx else lx.skipLineComment

/-- A block of lines. -/
def blockScalar (lx : Lexer) (literal : Bool) : Option Lexer := do
  let lx ← lx.dropKey
  return lx.scalar (if literal then .literal else .folded)
    (← scanBlock literal lx.indents.head? lx.cursor.skip)

/-- A scalar between quotes. -/
def quotedScalar (lx : Lexer) (q : Quotes) : Option Lexer := do
  let lx ← lx.noteKey
  return lx.scalar (if q == .single then .single else .double)
    (← scanQuoted q (lx.cursor.rest.length + 1) [] lx.cursor.skip)

/-- A plain scalar. -/
def plainScalar (lx : Lexer) : Option Lexer := do
  let lx ← lx.noteKey
  let indent := match lx.indents.head? with
    | some n => n + 1
    | none => 0
  return lx.scalar .plain
    (← scanPlain lx.inFlow indent (lx.cursor.rest.length + 1) [] .none lx.cursor)

/-- Whether a plain scalar may begin with `c` before `rest`. -/
def beginsPlain (inFlow : Bool) (c : Char) (rest : List Char) : Bool :=
  if c == '-' then !rest.head?.any isBlank
  else if c == '?' || c == ':' then !inFlow && !blankNext rest
  else !(isBlank c || isBreak c || ",[]\x7b\x7d#&*!|>'\"%@\x60".toList.contains c)

/-! ## All tokens -/

/-- The next token and what comes with it, or nothing if the text is malformed there. -/
def next (lx : Lexer) : Option Lexer :=
  let lx := (skipToToken (lx.cursor.rest.length + 1) lx).closeLeft
  match lx.cursor.rest with
  | [] => do return ((← lx.closeAll.dropKey).push .streamEnd).allowKey false
  | c :: rest =>
    if lx.cursor.column == 0 && c == '%' then lx.directive
    else if atMarker '-' lx.cursor then lx.marker .documentStart
    else if atMarker '.' lx.cursor then lx.marker .documentEnd
    else if c == '[' then lx.openFlow .flowSequenceStart
    else if c == '\x7b' then lx.openFlow .flowMappingStart
    else if c == ']' then lx.closeFlow .flowSequenceEnd
    else if c == '\x7d' then lx.closeFlow .flowMappingEnd
    else if c == ',' then lx.flowEntry
    else if c == '-' && blankNext rest then lx.blockEntry
    else if c == '?' && (lx.inFlow || blankNext rest) then lx.explicitKey
    else if c == ':' && (lx.inFlow || blankNext rest) then lx.value
    else if c == '*' then lx.name .alias
    else if c == '&' then lx.name .anchor
    else if c == '!' then lx.tag
    else if c == '|' && !lx.inFlow then lx.blockScalar true
    else if c == '>' && !lx.inFlow then lx.blockScalar false
    else if c == '\'' then lx.quotedScalar .single
    else if c == '"' then lx.quotedScalar .double
    else if beginsPlain lx.inFlow c rest then lx.plainScalar
    else none

/-- The possible key that begins with the next token to be handed over, if it is awaited. -/
def awaitedKey? (lx : Lexer) : Option PossibleKey :=
  (lx.block :: lx.flow).findSome? fun l => l.key.filter fun k => k.awaited && k.position == lx.taken

/-- Whether the next token can be handed over. Fails if a key was required there and there is none. -/
def isSettled? (lx : Lexer) : Option Bool :=
  if lx.taken + 2 < lx.tokens.size then
    match lx.awaitedKey? with
    | none => some true
    | some k => if k.isStale lx.cursor then (if k.required then none else some true) else some false
  else some false

/-- The tokens that have been handed over. -/
def handed (lx : Lexer) : List Token := lx.tokens.toList.take lx.taken

/-- Reads and hands over token after token up to the end of the text. The second answer tells whether
the text turned out to be malformed before the next token could be handed over. -/
def run : (fuel : Nat) → Lexer → List Token × Bool
  | 0, lx => (lx.handed, true)
  | fuel + 1, lx =>
    match lx.isSettled? with
    | none => (lx.handed, true)
    | some false =>
      match lx.next with
      | none => (lx.handed, true)
      | some lx' => run fuel lx'
    | some true =>
      let lx' := { lx with taken := lx.taken + 1 }
      if lx.tokens[lx.taken]?.any (·.kind == .streamEnd) then (lx'.handed, false) else run fuel lx'

end Lexer

/-- The tokens of a text, up to the place where it is known to be malformed if there is one. Every
character makes at most one token with two that announce it and one that closes a block, and each is
read once and handed over once. -/
def tokenize (cs : List Char) : List Token × Bool :=
  Lexer.run (5 * cs.length + 20) (Lexer.start cs)

end DocFilter.Yaml
