import DocFilter.Document.Lexeme

/-!
Reading a filter written with braces. The reader walks the lexemes once, with a stack of the
collections that are still open. It is as lenient as the notation: a collection is closed by either
closing bracket, provided no comma or colon stands right before it, and nothing has to stand between
members. What it insists on: keys are strings, a key has a value, every collection is closed, and
nothing follows the document.

`readBraced` is `decodeJSON` with the recursion of `jsonValue` as a stack, and `numberValue` is
`number`, which keeps integers apart from other numbers.
-/

set_option autoImplicit false

namespace DocFilter

/-- Why a text with braces is no filter. -/
inductive ReadError where
  /-- The input ends where a lexeme is needed. -/
  | endOfInput
  | fault (f : LexFault)
  | keyNotString (shown : Text)
  | unexpectedClose (bracket : Text)
  | trailingData
  deriving DecidableEq, Repr

/-- The words of a reading error. -/
def ReadError.message : ReadError → Text
  | .endOfInput => "EOF"
  | .fault f => f.message
  | .keyNotString shown => "object key " ++ shown ++ " is not a string"
  | .unexpectedClose bracket => "unexpected delimiter " ++ bracket
  | .trailingData => "trailing data after document"

/-- A lexeme as a message shows it. -/
def Lexeme.shown : Lexeme → Text
  | .openObject => "\x7b"
  | .closeObject => "\x7d"
  | .openArray => "["
  | .closeArray => "]"
  | .number digits => digits
  | .string t => t
  | .word .null => "<nil>"
  | .word w => w.spelling
  | .fault f => f.message

/-- The value of a number: an integer if it is one, else a floating-point number if it has a place
there, else its own text. -/
def numberValue (digits : Text) : Value :=
  match Number.readInt64 digits with
  | .ok n => .int .int n
  | .error _ =>
    match Number.readBinary Number.double digits with
    | .ok x => .float .double x
    | .error _ => .text digits

namespace Reader

/-- A collection that is still open, with what it holds so far, the last first. -/
inductive Frame where
  /-- An object that waits for a key or its end. -/
  | object (fields : List (Text × Value))
  /-- An object that waits for the value of a key. -/
  | member (fields : List (Text × Value)) (key : Text)
  | array (items : List Value)

/-- What the reader has so far. -/
inductive State where
  /-- Nothing was read yet. -/
  | start
  /-- Inside a collection, with the collections around it. -/
  | within (inner : Frame) (outer : List Frame)
  /-- The document is complete. -/
  | finished (v : Value)

/-- Puts a value where the collection waits for one. -/
def Frame.put : Frame → Value → Frame
  | .object fields, _ => .object fields
  | .member fields key, v => .object ((key, v) :: fields)
  | .array items, v => .array (v :: items)

/-- A complete value goes into the innermost open collection. -/
def deliver (v : Value) : List Frame → State
  | [] => .finished v
  | inner :: outer => .within (inner.put v) outer

/-- The value of a collection that is now closed. -/
def Frame.close : Frame → Value
  | .object fields => .doc fields.reverse
  | .member fields _ => .doc fields.reverse
  | .array items => .list .any items.reverse

/-- A lexeme that stands where a value is needed. -/
def beginValue (stack : List Frame) : Lexeme → Except ReadError State
  | .openObject => .ok (.within (.object []) stack)
  | .openArray => .ok (.within (.array []) stack)
  | .closeObject => .error (.unexpectedClose "\x7d")
  | .closeArray => .error (.unexpectedClose "]")
  | .number digits => .ok (deliver (numberValue digits) stack)
  | .string t => .ok (deliver (.text t) stack)
  | .word w => .ok (deliver w.value stack)
  | .fault f => .error (.fault f)

/-- Whether a lexeme ends a collection: a closing bracket with no separator right before it. -/
def endsCollection (p : Placed) : Bool :=
  !p.separated && (p.lexeme == .closeObject || p.lexeme == .closeArray)

/-- One lexeme. -/
def step (s : State) (p : Placed) : Except ReadError State :=
  match s with
  | .start => beginValue [] p.lexeme
  | .finished _ => .error .trailingData
  | .within (.member fields key) outer => beginValue (.member fields key :: outer) p.lexeme
  | .within (.object fields) outer =>
    if endsCollection p then .ok (deliver (Frame.close (.object fields)) outer)
    else
      match p.lexeme with
      | .string key => .ok (.within (.member fields key) outer)
      | .fault f => .error (.fault f)
      | other => .error (.keyNotString other.shown)
  | .within (.array items) outer =>
    if endsCollection p then .ok (deliver (Frame.close (.array items)) outer)
    else beginValue (.array items :: outer) p.lexeme

/-- All lexemes, one after the other. -/
def run : State → List Placed → Except ReadError State
  | s, [] => .ok s
  | s, p :: rest => do
    let s' ← step s p
    run s' rest

end Reader

/-- The value of a text with braces. -/
def readBraced (t : Text) : Except ReadError Value := do
  match ← Reader.run .start (Lexeme.lex t) with
  | .finished v => return v
  | _ => .error .endOfInput

end DocFilter
