import DocFilter.Value
import DocFilter.Json
import DocFilter.Number.Numeral
import DocFilter.Text.Base64
import DocFilter.Text.Quoted

/-!
Values as interchange documents. Documents keep the order of their fields, tables are sorted by
their keys as these are written, numbers have their shortest text. Two things cannot be written: a
floating-point number that is no number on the line, and a kept numeral that is none. The error says,
for every document around the culprit, under which key it was found.

`Document.encode` is `MarshalJSON`, whose output is checked once more by the encoder that called it.
-/

set_option autoImplicit false

namespace DocFilter

/-- Why a value cannot be written. -/
inductive EncodeError where
  /-- An infinity, or not a number. -/
  | notFinite (x : Number.Binary)
  /-- A kept numeral with a character that no number has. -/
  | badNumeral (t : Text)
  /-- A kept numeral in a document that starts like no number. -/
  | badStart (c : UInt8)
  /-- A kept numeral in a document that cannot be read back. -/
  | unreadable (t : Text) (cause : Number.NumeralError)
  /-- The error arose in the field of a document. -/
  | inField (key : Text) (cause : EncodeError)
  /-- The error arose in a document that is part of another value. -/
  | inDocument (cause : EncodeError)
  deriving Repr

namespace EncodeError

/-- The words of an encoding error. -/
def message : EncodeError → Text
  | .notFinite x => "json: unsupported value: " ++ Number.Layout.compact.write Number.double x
  | .badNumeral t => "json: invalid number literal " ++ Text.quoted t
  | .badStart c => "unexpected character '" ++ Text.ofChar (Char.ofNat c.toNat) ++ "'"
  | .unreadable t cause =>
    "strconv.ParseFloat: parsing " ++ Text.quoted t ++ ": " ++ cause.message
  | .inField key cause => "query: encode " ++ Text.quoted key ++ ": " ++ cause.message
  | .inDocument cause =>
    "json: error calling MarshalJSON for type query.Document: " ++ cause.message

end EncodeError

/-- The bytes that occur in numbers. -/
def isNumberByte (b : UInt8) : Bool :=
  Text.isDigit b || b == Text.byte '.' || b == Text.byte 'e' || b == Text.byte 'E' ||
    b == Text.byte '+' || b == Text.byte '-'

/-- A kept numeral; an empty one is zero. -/
def numeralJson (t : Text) : Except EncodeError Json :=
  if t.isEmpty then .ok (.number "0")
  else if t.all isNumberByte then .ok (.number t)
  else .error (.badNumeral t)

/-- Checks that a number inside a document can be read back. -/
def checkNumber (t : Text) : Except EncodeError Unit :=
  match t with
  | [] => .ok ()
  | b :: _ =>
    if Text.isDigit b || b == Text.byte '-' then
      match Number.readBinary Number.double t with
      | .ok _ => .ok ()
      | .error e => .error (.unreadable t e)
    else .error (.badStart b)

mutual

/-- Checks every number of a tree. -/
def checkNumbers : Json → Except EncodeError Unit
  | .number t => checkNumber t
  | .array items => checkItems items
  | .object members => checkMembers members
  | _ => .ok ()

/-- Checks every number of the elements. -/
def checkItems : List Json → Except EncodeError Unit
  | [] => .ok ()
  | j :: rest => do
    checkNumbers j
    checkItems rest

/-- Checks every number of the members. -/
def checkMembers : List (Text × Json) → Except EncodeError Unit
  | [] => .ok ()
  | (_, j) :: rest => do
    checkNumbers j
    checkMembers rest

end

namespace Value

mutual

/-- The tree of a value. -/
def toJson : Value → Except EncodeError Json
  | .null => .ok .null
  | .bool b => .ok (.bool b)
  | .text t => .ok (.string t)
  | .int _ n => .ok (.number (Text.ofInt n))
  | .float ty x =>
    match x with
    | .finite .. => .ok (.number (Number.Layout.interchange.write ty.format x))
    | _ => .error (.notFinite x)
  | .numeral t => numeralJson t
  | .label t => .ok (.string t)
  | .bytes b => .ok (.string (Text.toBase64 b))
  | .time t => .ok (.string t.interchange)
  | .ref none => .ok .null
  | .ref (some n) => .ok (.number (Text.ofInt n))
  | .doc fields => do
    let members ← (fieldsToJson fields).mapError .inDocument
    (checkMembers members).mapError .inDocument
    return .object members
  | .list _ items => return .array (← itemsToJson items)
  | .table _ entries => return .object (Json.byWrittenName (← entriesToJson entries))
  | .noTable => .ok .null

/-- The trees of the elements of a list. -/
def itemsToJson : List Value → Except EncodeError (List Json)
  | [] => .ok []
  | v :: rest => do return (← v.toJson) :: (← itemsToJson rest)

/-- The trees of the entries of a table. -/
def entriesToJson : List (Text × Value) → Except EncodeError (List (Text × Json))
  | [] => .ok []
  | (k, v) :: rest => do return (k, ← v.toJson) :: (← entriesToJson rest)

/-- The trees of the fields of a document; an error names the field. -/
def fieldsToJson : List (Text × Value) → Except EncodeError (List (Text × Json))
  | [] => .ok []
  | (k, v) :: rest => do
    let j ← v.toJson.mapError (.inField k)
    return (k, j) :: (← fieldsToJson rest)

end

end Value

/-- The written form of a document on its own. -/
def Document.encode (d : Document) : Except EncodeError Text := do
  return (Json.object (← Value.fieldsToJson d)).compact

/-- The written form of a value. -/
def Value.encode (v : Value) : Except EncodeError Text := do
  return (← v.toJson).compact

end DocFilter
