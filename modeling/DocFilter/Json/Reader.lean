import DocFilter.Json
import DocFilter.Document.Lexeme

/-!
Reading interchange documents, as they come from stores and services. The grammar is the usual one;
two things are taken as they are: bytes of a string that belong to no character, and numbers of any
spelling, which are judged by whoever needs their value. `Json.parse` gives the tree of a text;
`Json.read` also refuses a tree whose collections stand too deep within each other.

`Json.read` is the reading below `scan.Unmarshal`, and `maxDepth` is the limit that its decoder has.
-/

set_option autoImplicit false

namespace DocFilter.Json

open Text (byte)

/-- A text that is no interchange document, or not one of the expected form. -/
inductive Malformed where
  | malformed
  deriving DecidableEq, Repr

/-- The words of the error. -/
def Malformed.message (_ : Malformed) : Text := "json: malformed document"

/-- The characters between which nothing has to stand. -/
def isSpace (b : UInt8) : Bool :=
  b == byte ' ' || b == byte '\n' || b == byte '\r' || b == byte '\t'

/-- Whether a byte is a hexadecimal digit. -/
def isHexDigit (b : UInt8) : Bool :=
  match Text.digitValue? b with
  | some n => n < 16
  | none => false

/-- What an escape stands for and how many bytes it takes after its backslash. -/
def escape? : Text → Option (Text × Nat)
  | [] => none
  | letter :: rest =>
    if letter == byte 'u' then
      match rest with
      | h₁ :: h₂ :: h₃ :: h₄ :: more =>
        if [h₁, h₂, h₃, h₄].all isHexDigit then
          let n := Lexeme.hexWord h₁ h₂ h₃ h₄
          match Lexeme.isHigh n, more with
          | true, s :: u :: l₁ :: l₂ :: l₃ :: l₄ :: _ =>
            let low := Lexeme.hexWord l₁ l₂ l₃ l₄
            if s == byte '\\' && u == byte 'u' && [l₁, l₂, l₃, l₄].all isHexDigit && Lexeme.isLow low then
              some (Text.ofChar (Char.ofNat (0x10000 + (n - 0xD800) * 0x400 + (low - 0xDC00))), 11)
            else some (Lexeme.numbered n, 5)
          | _, _ => some (Lexeme.numbered n, 5)
        else none
      | _ => none
    else (Lexeme.simpleEscape? letter).map fun b => ([b], 1)

/-- The content of a string, from `skip` bytes after its opening quote on, with the text after its
closing quote. -/
def scanString? : (skip : Nat) → Text → Option (Text × Text)
  | _, [] => none
  | skip + 1, _ :: rest => scanString? skip rest
  | 0, b :: rest =>
    if b == byte '"' then some ([], rest)
    else if b == 0 then none
    else if b == byte '\\' then do
      let (t, n) ← escape? rest
      let (more, after) ← scanString? n rest
      return (t ++ more, after)
    else do
      let (more, after) ← scanString? 0 rest
      return (b :: more, after)

/-- A lexeme of an interchange document. -/
inductive Token where
  | openObject
  | closeObject
  | openArray
  | closeArray
  | comma
  | colon
  | scalar (j : Json)
  deriving Inhabited

/-- The constants and their values. -/
def constants : List (Text × Json) := [("null", .null), ("true", .bool true), ("false", .bool false)]

/-- The first lexeme of a text that does not begin with a space, and the text after it. -/
def token? (b : UInt8) (rest : Text) : Option (Token × Text) :=
  if b == byte '\x7b' then some (.openObject, rest)
  else if b == byte '\x7d' then some (.closeObject, rest)
  else if b == byte '[' then some (.openArray, rest)
  else if b == byte ']' then some (.closeArray, rest)
  else if b == byte ',' then some (.comma, rest)
  else if b == byte ':' then some (.colon, rest)
  else if b == byte '"' then do
    let (t, after) ← scanString? 0 rest
    return (.scalar (.string t), after)
  else if Text.isDigit b || b == byte '-' then
    let more := rest.takeWhile Lexeme.continuesNumber
    some (.scalar (.number (b :: more)), rest.drop more.length)
  else
    constants.findSome? fun (word, j) =>
      (word.isPrefixOf? (b :: rest)).map fun after => (.scalar j, after)

/-- All lexemes of a text. Every lexeme takes at least one byte, so as many steps as there are bytes
are enough. -/
def tokens? : (steps : Nat) → Text → Option (List Token)
  | _, [] => some []
  | 0, _ :: _ => none
  | steps + 1, b :: rest =>
    if isSpace b then tokens? steps rest
    else do
      let (tok, after) ← token? b rest
      let more ← tokens? steps after
      return tok :: more

/-- A collection that is still open, with what it holds so far, the last first, and what has to come
next. -/
inductive Open where
  /-- An object at a place for a key; `first` if it may also end. -/
  | key (members : List (Text × Json)) (first : Bool)
  /-- An object after a key. -/
  | colon (members : List (Text × Json)) (key : Text)
  /-- An object at a place for a value. -/
  | value (members : List (Text × Json)) (key : Text)
  /-- An object after a member. -/
  | member (members : List (Text × Json))
  /-- An array at a place for an element; `first` if it may also end. -/
  | item (items : List Json) (first : Bool)
  /-- An array after an element. -/
  | element (items : List Json)

/-- What has been read: open collections from the innermost on, or the whole document. -/
inductive State where
  | start
  | within (inner : Open) (outer : List Open)
  | finished (j : Json)

/-- A complete value takes its place in the collection that waits for it. -/
def Open.put? : Open → Json → Option Open
  | .value members k, j => some (.member ((k, j) :: members))
  | .item items _, j => some (.element (j :: items))
  | _, _ => none

/-- Delivers a complete value. -/
def deliver? (j : Json) : List Open → Option State
  | [] => some (.finished j)
  | inner :: outer => (inner.put? j).map (.within · outer)

/-- A lexeme at a place for a value. -/
def begin? (stack : List Open) : Token → Option State
  | .openObject => some (.within (.key [] true) stack)
  | .openArray => some (.within (.item [] true) stack)
  | .scalar j => deliver? j stack
  | _ => none

/-- One lexeme. -/
def step? (s : State) (t : Token) : Option State :=
  match s with
  | .start => begin? [] t
  | .finished _ => none
  | .within (.key members first) outer =>
    match t with
    | .scalar (.string k) => some (.within (.colon members k) outer)
    | .closeObject => if first then deliver? (.object members.reverse) outer else none
    | _ => none
  | .within (.colon members k) outer =>
    match t with
    | .colon => some (.within (.value members k) outer)
    | _ => none
  | .within (.value members k) outer => begin? (.value members k :: outer) t
  | .within (.member members) outer =>
    match t with
    | .comma => some (.within (.key members false) outer)
    | .closeObject => deliver? (.object members.reverse) outer
    | _ => none
  | .within (.item items first) outer =>
    match t with
    | .closeArray => if first then deliver? (.array items.reverse) outer else none
    | t => begin? (.item items first :: outer) t
  | .within (.element items) outer =>
    match t with
    | .comma => some (.within (.item items false) outer)
    | .closeArray => deliver? (.array items.reverse) outer
    | _ => none

/-- The tree of an interchange document. -/
def parse (t : Text) : Except Malformed Json :=
  match (tokens? t.length t).bind fun ts => ts.foldlM step? .start with
  | some (.finished j) => .ok j
  | _ => .error .malformed

/-- How many collections may stand within each other. -/
def maxDepth : Nat := 10000

/-- Whether never more than `limit` collections are open beside those that are open already. -/
def opensWithin : (limit : Nat) → List Token → Bool
  | _, [] => true
  | limit, t :: rest =>
    match t with
    | .openObject | .openArray => decide (0 < limit) && opensWithin (limit - 1) rest
    | .closeObject | .closeArray => opensWithin (limit + 1) rest
    | _ => opensWithin limit rest

/-- Reads an interchange document. -/
def read (t : Text) : Except Malformed Json :=
  if ((tokens? t.length t).map (opensWithin maxDepth)).getD true then parse t else .error .malformed

end DocFilter.Json
