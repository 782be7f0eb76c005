import DocFilter.Text.Quoted
import DocFilter.Yaml.Document
import DocFilter.Yaml.Pen

/-!
Writing values as YAML. Collections are written as blocks, four columns deeper at every level; an
item of a sequence begins right after its dash. The value of a field of a document is written and
read back before the document is written, so what reading makes of it is what the document shows,
and a value that cannot be read back cannot be written.

A document is written as `MarshalYAML` gives it.
-/

set_option autoImplicit false

namespace DocFilter.Yaml

/-! ## Layout -/

/-- Where something is written. -/
inductive Position where
  | root
  /-- After the dash of an item at a column. -/
  | item (column : Nat)
  /-- After a key at a column, or as one. -/
  | member (column : Nat)

/-- The column of what a collection there contains. -/
def Position.indent : Position → Nat
  | .root => 0
  | .item column => column + 2
  | .member column => 4 * ((column + 4) / 4)

/-- The column of the further lines of a scalar there. -/
def Position.scalarIndent : Position → Nat
  | .root => 4
  | p => p.indent

/-- Whether a key fits before its colon on one line. -/
def ScalarForm.fitsLine (s : ScalarForm) : Bool :=
  !(charsOf s.content).any isBreak && s.tag.length + s.content.length ≤ 128

/-- Writes a key and its colon at a column. -/
def Pen.key (p : Pen) (column : Nat) (k : ScalarForm) : Pen :=
  let indent := (Position.member column).scalarIndent
  let p := p.indentTo column
  if k.fitsLine then (p.scalar true indent k).colon
  else (((p.mark '?').scalar false indent k).indentTo column).mark ':'

mutual

/-- Writes a form at a position. -/
def Form.draw (place : Position) : Form → Pen → Pen
  | .scalar s, p => p.scalar false place.scalarIndent s
  | .sequence [], p => p.word "[]".toList
  | .sequence (f :: rest), p => Form.drawItems place.indent (f :: rest) p
  | .mapping [], p => p.word "\x7b\x7d".toList
  | .mapping (e :: rest), p => Form.drawEntries place.indent (e :: rest) p

/-- Writes items at a column. -/
def Form.drawItems (column : Nat) : List Form → Pen → Pen
  | [], p => p
  | f :: rest, p =>
    Form.drawItems column rest (f.draw (.item column) ((p.indentTo column).mark '-'))

/-- Writes entries at a column. -/
def Form.drawEntries (column : Nat) : List (ScalarForm × Form) → Pen → Pen
  | [], p => p
  | (k, f) :: rest, p =>
    Form.drawEntries column rest (f.draw (.member column) (p.key column k))

end

/-- The text of a form. It ends with a line end. -/
def Form.text (f : Form) : Text := ((f.draw .root .start).indentTo 0).text

/-! ## Values -/

/-- Why a value cannot be written. -/
inductive WriteError where
  /-- The value of a field cannot be read back. -/
  | unreadable
  /-- The error arose in the field of a document. -/
  | inField (key : Text) (cause : WriteError)
  deriving DecidableEq, Repr

/-- The words of a writing error. -/
def WriteError.message : WriteError → Text
  | .unreadable => ReadError.malformed.message
  | .inField key cause => "query: encode " ++ Text.quoted key ++ ": " ++ cause.message

/-- What a form is after it was written and read. -/
def Form.readBack (f : Form) : Except WriteError Form :=
  match parse? f.text with
  | some (some n) =>
    match Form.ofNode? n with
    | some g => .ok g
    | none => .error .unreadable
  | _ => .error .unreadable

/-- The form of a field of a document, from that of its value. -/
def fieldForm (key : Text) (value : Except WriteError Form) : Except WriteError (ScalarForm × Form) :=
  match value.bind Form.readBack with
  | .ok f => .ok (.ofKey key, f)
  | .error e => .error (.inField key e)

/-- A floating-point number. -/
def floatWord (ty : FloatType) : Number.Binary → Text
  | .nan => ".nan"
  | .infinite negative => if negative then "-.inf" else ".inf"
  | x => Number.Layout.compact.write ty.format x

/-- A scalar that is no text. -/
def Form.word (t : Text) : Form := .scalar (.word t)

/-- The form of a table; of several entries that have none the first in order decides. -/
def Form.ofTable (ty : TableType) (entries : List (Text × Except WriteError Form)) :
    Except WriteError Form := do
  let ordered ← (orderedEntries ty entries).mapM fun (k, f) => f.map fun f => (TableType.keyForm ty k, f)
  return .mapping ordered

mutual

/-- How a value is written. -/
def Form.ofValue : Value → Except WriteError Form
  | .null | .ref none => .ok (.word "null")
  | .bool b => .ok (.word (if b then "true" else "false"))
  | .text t | .numeral t | .label t => .ok (.scalar (.ofText t))
  | .int _ n | .ref (some n) => .ok (.word (Text.ofInt n))
  | .float ty x => .ok (.word (floatWord ty x))
  | .bytes b => .ok (.sequence (b.map fun x => .word (Text.ofNat x.toNat)))
  | .time t => .ok (.word t.interchange)
  | .doc fields => (Form.ofFields fields).map .mapping
  | .list _ items => (Form.ofItems items).map .sequence
  | .table ty entries => Form.ofTable ty (Form.ofEntries entries)
  | .noTable => .ok (.mapping [])

/-- How items are written. -/
def Form.ofItems : List Value → Except WriteError (List Form)
  | [] => .ok []
  | v :: rest => do
    let f ← Form.ofValue v
    return f :: (← Form.ofItems rest)

/-- How the fields of a document are written. -/
def Form.ofFields : List (Text × Value) → Except WriteError (List (ScalarForm × Form))
  | [] => .ok []
  | (k, v) :: rest => do
    let field ← fieldForm k (Form.ofValue v)
    return field :: (← Form.ofFields rest)

/-- How the values of the entries of a table are written. -/
def Form.ofEntries : List (Text × Value) → List (Text × Except WriteError Form)
  | [] => []
  | (k, v) :: rest => (k, Form.ofValue v) :: Form.ofEntries rest

end

/-- A value as a YAML text. -/
def write (v : Value) : Except WriteError Text := (Form.ofValue v).map Form.text

end DocFilter.Yaml
