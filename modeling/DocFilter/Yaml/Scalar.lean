import DocFilter.Yaml.Cursor

/-!
The four ways to write a scalar: plain, between single or double quotes, and as a block of lines.
Lines of a plain or quoted scalar are folded: what stands between two words is a `Gap`, and a gap
with one line break counts as a space, a gap with more counts as the further breaks.

The loops count down `fuel`; each turn consumes a character, so the number of characters left is
always enough.
-/

set_option autoImplicit false

namespace DocFilter.Yaml

/-- What stands between two words of a scalar. -/
inductive Gap where
  /-- Blanks on one line. -/
  | blanks (cs : List Char)
  /-- A line break, and the further breaks after it. -/
  | lines (first : List Char) (more : List Char)

namespace Gap

/-- Nothing. -/
def none : Gap := .blanks []

/-- Whether the gap goes over the end of a line. -/
def crossesLine : Gap → Bool
  | .blanks _ => false
  | .lines _ _ => true

/-- What the gap counts as when a word follows it. -/
def folded : Gap → List Char
  | .blanks cs => cs
  | .lines [] more => more
  | .lines ['\n'] [] => [' ']
  | .lines ['\n'] more => more
  | .lines first more => first ++ more

/-- The gap with one more blank; after a line break blanks are indentation. -/
def addBlank (c : Char) : Gap → Gap
  | .blanks cs => .blanks (cs ++ [c])
  | .lines first more => .lines first more

/-- The gap with one more line break, which makes the blanks before it meaningless. -/
def addBreak (b : List Char) : Gap → Gap
  | .blanks _ => .lines b []
  | .lines first more => .lines first (more ++ b)

end Gap

/-- Reads the blanks and line breaks at the cursor. Below the column `indent` a tab may not stand
for indentation. -/
def scanGap (indent : Nat) : (fuel : Nat) → Gap → Cursor → Option (Gap × Cursor)
  | 0, _, _ => none
  | fuel + 1, gap, cur =>
    match cur.rest with
    | [] => some (gap, cur)
    | c :: _ =>
      if isBlank c then
        if gap.crossesLine && cur.column < indent && c == '\t' then none
        else scanGap indent fuel (gap.addBlank c) cur.skip
      else if isBreak c then scanGap indent fuel (gap.addBreak cur.lineBreak) cur.skipLine
      else some (gap, cur)

/-! ## Plain scalars -/

/-- The word of a plain scalar at the beginning of the characters. A colon before a blank ends it, and
inside a flow collection so does any of its brackets. -/
def plainWord (inFlow : Bool) : List Char → List Char
  | [] => []
  | c :: rest =>
    if isBlank c || isBreak c || (c == ':' && blankNext rest) then []
    else if inFlow && (c == ',' || c == '?' || c == '[' || c == ']' || c == '\x7b' || c == '\x7d') then []
    else c :: plainWord inFlow rest

/-- A scalar that was read: its characters, the place after it, and whether a line ended after its
last word. -/
structure Scanned where
  content : List Char
  cursor : Cursor
  crossedLine : Bool

/-- Reads a plain scalar word by word; `gap` stands before the next word. In block context a line
that starts left of `indent` is no longer part of it. -/
def scanPlain (inFlow : Bool) (indent : Nat) :
    (fuel : Nat) → (content : List Char) → Gap → Cursor → Option Scanned
  | 0, _, _, _ => none
  | fuel + 1, content, gap, cur =>
    let word := if atDocumentMarker cur || cur.headIs (· == '#') then [] else plainWord inFlow cur.rest
    if word.isEmpty then some ⟨content, cur, gap.crossesLine⟩
    else
      let content := content ++ gap.folded ++ word
      let cur := cur.skipMany word.length
      if cur.rest.isEmpty || !blankNext cur.rest then some ⟨content, cur, false⟩
      else
        match scanGap indent (cur.rest.length + 1) .none cur with
        | none => none
        | some (gap, cur) =>
          if !inFlow && cur.column < indent then some ⟨content, cur, gap.crossesLine⟩
          else scanPlain inFlow indent fuel content gap cur

/-! ## Quoted scalars -/

/-- The value of a hexadecimal digit. -/
def hexDigit? (c : Char) : Option Nat :=
  if '0' ≤ c && c ≤ '9' then some (c.toNat - '0'.toNat)
  else if 'a' ≤ c && c ≤ 'f' then some (c.toNat - 'a'.toNat + 10)
  else if 'A' ≤ c && c ≤ 'F' then some (c.toNat - 'A'.toNat + 10)
  else none

/-- The value of `count` hexadecimal digits. -/
def hexNumber? : (count : Nat) → (soFar : Nat) → List Char → Option Nat
  | 0, n, _ => some n
  | count + 1, n, c :: rest => do hexNumber? count (n * 16 + (← hexDigit? c)) rest
  | _ + 1, _, [] => none

/-- The character with a number, if there is one. -/
def numbered? (n : Nat) : Option Char :=
  if (0xD800 ≤ n && n ≤ 0xDFFF) || 0x10FFFF < n then none else some (Char.ofNat n)

/-- The number of digits after the letter of a numbered escape. -/
def escapeDigits? : Char → Option Nat
  | 'x' => some 2
  | 'u' => some 4
  | 'U' => some 8
  | _ => none

/-- The character that the letter of an escape stands for. -/
def namedEscape? : Char → Option Char
  | '0' => some (Char.ofNat 0x00)
  | 'a' => some (Char.ofNat 0x07)
  | 'b' => some (Char.ofNat 0x08)
  | 't' | '\t' => some '\t'
  | 'n' => some '\n'
  | 'v' => some (Char.ofNat 0x0B)
  | 'f' => some (Char.ofNat 0x0C)
  | 'r' => some '\r'
  | 'e' => some (Char.ofNat 0x1B)
  | ' ' => some ' '
  | '"' => some '"'
  | '\'' => some '\''
  | '\\' => some '\\'
  | 'N' => some (Char.ofNat 0x85)
  | '_' => some (Char.ofNat 0xA0)
  | 'L' => some (Char.ofNat 0x2028)
  | 'P' => some (Char.ofNat 0x2029)
  | _ => none

/-- The character of an escape, and how many characters it takes after the backslash. -/
def escape? : List Char → Option (Char × Nat)
  | [] => none
  | letter :: rest =>
    match escapeDigits? letter with
    | some count => do return (← numbered? (← hexNumber? count 0 rest), count + 1)
    | none => do return (← namedEscape? letter, 1)

/-- The two kinds of quotes. -/
inductive Quotes where
  | single
  | double
  deriving DecidableEq, Repr

/-- The quote that begins and ends a scalar. -/
def Quotes.mark : Quotes → Char
  | .single => '\''
  | .double => '"'

/-- Reads the characters of a quoted scalar up to a blank, a line break or the closing quote. The
last answer tells whether the word ends with an escaped line break. -/
def scanQuotedWord (q : Quotes) :
    (fuel : Nat) → (content : List Char) → Cursor → Option (List Char × Cursor × Bool)
  | 0, _, _ => none
  | fuel + 1, content, cur =>
    match cur.rest with
    | [] => some (content, cur, false)
    | c :: rest =>
      if isBlank c || isBreak c then some (content, cur, false)
      else if q == .single && c == '\'' then
        if rest.head? == some '\'' then scanQuotedWord q fuel (content ++ ['\'']) (cur.skipMany 2)
        else some (content, cur, false)
      else if q == .double && c == '"' then some (content, cur, false)
      else if q == .double && c == '\\' then
        if rest.head?.any isBreak then some (content, cur.skip.skipLine, true)
        else
          match escape? rest with
          | none => none
          | some (e, n) => scanQuotedWord q fuel (content ++ [e]) (cur.skipMany (n + 1))
      else scanQuotedWord q fuel (content ++ [c]) cur.skip

/-- Reads a quoted scalar from behind its opening quote. No document may begin or end inside it. -/
def scanQuoted (q : Quotes) : (fuel : Nat) → (content : List Char) → Cursor → Option Scanned
  | 0, _, _ => none
  | fuel + 1, content, cur =>
    if atDocumentMarker cur || cur.rest.isEmpty then none
    else
      match scanQuotedWord q (cur.rest.length + 1) content cur with
      | none => none
      | some (content, cur, escapedBreak) =>
        if cur.headIs (· == q.mark) then some ⟨content, cur.skip, false⟩
        else
          let before : Gap := if escapedBreak then .lines [] [] else .none
          match scanGap 0 (cur.rest.length + 1) before cur with
          | none => none
          | some (gap, cur) => scanQuoted q fuel (content ++ gap.folded) cur

/-! ## Block scalars -/

/-- What becomes of the line breaks at the end of a block. -/
inductive Chomping where
  /-- None is kept. -/
  | strip
  /-- The first is kept. -/
  | clip
  /-- All are kept. -/
  | keep
  deriving DecidableEq, Repr

/-- The chomping that an indicator asks for. -/
def Chomping.ofChar? : Char → Option Chomping
  | '+' => some .keep
  | '-' => some .strip
  | _ => none

/-- The indentation that an indicator asks for; zero is no indentation. -/
def increment? (c : Char) : Option Nat :=
  if '1' ≤ c && c ≤ '9' then some (c.toNat - '0'.toNat) else none

/-- Reads the indicators at the beginning of a block, in either order: the chomping, the indentation
(zero if it is left open), and the place after them. -/
def blockHeader? (cur : Cursor) : Option (Chomping × Nat × Cursor) :=
  match cur.rest with
  | c :: rest =>
    match Chomping.ofChar? c with
    | some chomping =>
      match rest with
      | d :: _ =>
        if d.isDigit then (increment? d).map (chomping, ·, cur.skipMany 2) else some (chomping, 0, cur.skip)
      | [] => some (chomping, 0, cur.skip)
    | none =>
      if c.isDigit then do
        let n ← increment? c
        match rest.head?.bind Chomping.ofChar? with
        | some chomping => return (chomping, n, cur.skipMany 2)
        | none => return (.clip, n, cur.skip)
      else some (.clip, 0, cur)
  | [] => some (.clip, 0, cur)

/-- The end of the line of a block's indicators, where only a comment may stand. -/
def blockHeaderEnd? (cur : Cursor) : Option Cursor :=
  let cur := cur.skipMany (cur.rest.takeWhile isBlank).length
  let cur := if cur.headIs (· == '#') then cur.toLineEnd else cur
  match cur.rest with
  | [] => some cur
  | c :: _ => if isBreak c then some cur.skipLine else none

/-- Reads the empty lines and the indentation before a line of a block. With `indent` zero every
space counts as indentation. Answers the breaks, the deepest column seen and the place after. -/
def scanIndentation (indent : Nat) :
    (fuel : Nat) → (breaks : List Char) → (deepest : Nat) → Cursor → Option (List Char × Nat × Cursor)
  | 0, _, _, _ => none
  | fuel + 1, breaks, deepest, cur =>
    let spaces := (cur.rest.takeWhile (· == ' ')).length
    let cur := cur.skipMany (if indent == 0 then spaces else min spaces (indent - cur.column))
    let deepest := max deepest cur.column
    if (indent == 0 || cur.column < indent) && cur.headIs (· == '\t') then none
    else if cur.headIs isBreak then scanIndentation indent fuel (breaks ++ cur.lineBreak) deepest cur.skipLine
    else some (breaks, deepest, cur)

/-- A block up to one of its lines. -/
structure BlockState where
  content : List Char
  /-- The break at the end of the last line. -/
  lastBreak : List Char
  /-- The breaks of the empty lines after it. -/
  emptyLines : List Char
  /-- Whether the last line begins with a blank, which keeps it from being folded. -/
  indented : Bool

/-- Reads the lines of a block. -/
def scanBlockLines (literal : Bool) (indent : Nat) :
    (fuel : Nat) → BlockState → Cursor → Option (BlockState × Cursor)
  | 0, _, _ => none
  | fuel + 1, s, cur =>
    if cur.column != indent || cur.rest.isEmpty then some (s, cur)
    else
      let startsBlank := cur.headIs isBlank
      let folds := !literal && !s.indented && !startsBlank && s.lastBreak == ['\n']
      let between := if folds then (if s.emptyLines.isEmpty then [' '] else []) else s.lastBreak
      let text := cur.rest.takeWhile (!isBreak ·)
      let cur := cur.skipMany text.length
      let lastBreak := cur.lineBreak
      match scanIndentation indent (cur.rest.length + 1) [] 0 cur.skipLine with
      | none => none
      | some (emptyLines, _, cur) =>
        scanBlockLines literal indent fuel
          ⟨s.content ++ between ++ s.emptyLines ++ text, lastBreak, emptyLines, startsBlank⟩ cur

/-- Reads a block scalar from behind its first indicator, inside a collection with the given
indentation (none at the root). -/
def scanBlock (literal : Bool) (parent : Option Nat) (cur : Cursor) : Option Scanned := do
  let (chomping, increment, cur) ← blockHeader? cur
  let cur ← blockHeaderEnd? cur
  let wanted := if increment == 0 then 0 else parent.getD 0 + increment
  let (breaks, deepest, cur) ← scanIndentation wanted (cur.rest.length + 1) [] 0 cur
  let least := match parent with
    | some n => n + 1
    | none => 1
  let indent := if wanted == 0 then max deepest least else wanted
  let (s, cur) ← scanBlockLines literal indent (cur.rest.length + 1) ⟨[], [], breaks, false⟩ cur
  let ending :=
    match chomping with
    | .strip => []
    | .clip => s.lastBreak
    | .keep => s.lastBreak ++ s.emptyLines
  return ⟨s.content ++ ending, cur, true⟩

end DocFilter.Yaml
