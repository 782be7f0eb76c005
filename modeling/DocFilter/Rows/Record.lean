import DocFilter.Rows.Stored
import DocFilter.Value.Coerce

/-!
Rows as typed records. A record type lists its fields, and for each the key of a row it is filled
from and its shape. Numbers, texts and truth values are coerced; everything else either has the
right type already or is written as an interchange document and read back into the shape. Integers
are cut to the width of their field.

`decodeRows` is `scan.Decode`, `decodeFields` is `assign`, `FieldSpec.assign` is `set`, and a
`Record` is what `buildMeta` finds out about a type.
-/

set_option autoImplicit false

namespace DocFilter

/-- The shape of a field. -/
inductive Shape where
  | text
  | bool
  | int (ty : IntType)
  | float (ty : FloatType)
  | any
  | bytes
  /-- A reference, which may be to nothing. -/
  | ref (target : Shape)
  | list (item : Shape)
  | array (size : Nat) (item : Shape)
  | table (item : Shape)
  /-- A record with its name; its members are found by name. -/
  | record (name : Text) (members : List (Text × Text × Shape))
  /-- The record around this place. -/
  | enclosing
  deriving Inhabited

/-- A value of a shape. -/
inductive Datum where
  | absent
  | text (t : Text)
  | bool (b : Bool)
  | int (n : Int)
  | float (ty : FloatType) (x : Number.Binary)
  | any (v : Value)
  | items (ds : List Datum)
  | entries (es : List (Text × Datum))
  | fields (fs : List (Text × Datum))
  deriving Inhabited

namespace Shape

/-- The name of a shape in messages. -/
def name : Shape → Text
  | .text => "string"
  | .bool => "bool"
  | .int ty => ty.name
  | .float ty => ty.name
  | .any => "interface \x7b\x7d"
  | .bytes => "[]uint8"
  | .ref target => "*" ++ target.name
  | .list item => "[]" ++ item.name
  | .array size item => "[" ++ Text.ofNat size ++ "]" ++ item.name
  | .table item => "map[string]" ++ item.name
  | .record name _ => name
  | .enclosing => []

mutual

/-- The value of a field that nothing was put into. -/
def zero : Shape → Datum
  | .text => .text []
  | .bool => .bool false
  | .int _ => .int 0
  | .float ty => .float ty (ty.format.ofInt 0)
  | .any => .any .null
  | .bytes => .items []
  | .ref _ => .absent
  | .list _ => .items []
  | .array size item => .items (List.replicate size item.zero)
  | .table _ => .entries []
  | .record _ members => .fields (zeros members)
  | .enclosing => .absent

/-- The values of members that nothing was put into. -/
def zeros : List (Text × Text × Shape) → List (Text × Datum)
  | [] => []
  | (field, _, shape) :: rest => (field, shape.zero) :: zeros rest

end

/-- What stands behind references and behind the name of the enclosing record. -/
def core (outer : Shape) : Shape → Shape
  | .ref target => core outer target
  | .enclosing => outer
  | shape => shape

end Shape

/-- Reads an integer from its digits. Words of 64 bits take what fits into their number of digits
and wrap around; narrower words have to hold the number. -/
def readInteger (ty : IntType) (literal : Text) : Except Json.Malformed Int :=
  let negative := literal.head? == some (Text.byte '-')
  let digits := if negative then literal.drop 1 else literal
  let limit := if ty.isSigned then 19 else 20
  let canonical := digits.length == 1 || digits.head? != some (Text.byte '0')
  if digits.isEmpty || !digits.all Text.isDigit || !canonical || limit < digits.length
      || (negative && !ty.isSigned) then .error .malformed
  else
    let n : Int := Text.digitsToNat digits
    let wide : IntType := if ty.isSigned then .int64 else .uint64
    let n := wide.wrap (if negative then -n else n)
    if ty.holds n then .ok n else .error .malformed

namespace Datum

/-- Puts the value of a member in place of an earlier one. -/
def setField (fs : List (Text × Datum)) (field : Text) (d : Datum) : List (Text × Datum) :=
  fs.map fun (f, old) => if f == field then (f, d) else (f, old)

/-- Puts the value of a table in place of an earlier one with the same key. -/
def setEntry : List (Text × Datum) → Text → Datum → List (Text × Datum)
  | [], key, d => [(key, d)]
  | (k, old) :: rest, key, d =>
    if k == key then (key, d) :: rest else (k, old) :: setEntry rest key d

end Datum

/-- Letters A to Z in lower case; names of members are found without regard to their case. -/
def foldName (t : Text) : Text :=
  t.map fun b => if 0x41 ≤ b && b ≤ 0x5A then b + 0x20 else b

namespace Json

mutual

/-- Reads an interchange document into a shape. Nothing leaves the field as it is. -/
def toDatum (outer : Shape) (shape : Shape) : Json → Except Malformed Datum
  | .null => .ok shape.zero
  | .bool b =>
    match Shape.core outer shape with
    | .bool => .ok (.bool b)
    | .any => .ok (.any (.bool b))
    | _ => .error .malformed
  | .number literal =>
    match Shape.core outer shape with
    | .int ty => do return .int (← readInteger ty literal)
    | .float ty =>
      match Number.readBinary ty.format literal with
      | .ok x => .ok (.float ty x)
      | .error _ => .error .malformed
    | .any => do return .any (← toValue (.number literal))
    | _ => .error .malformed
  | .string t =>
    match Shape.core outer shape with
    | .text => .ok (.text t)
    | .bytes =>
      match Text.fromBase64? t with
      | some bytes => .ok (.items (bytes.map fun b => .int b.toNat))
      | none => .error .malformed
    | .any => .ok (.any (.text t))
    | _ => .error .malformed
  | .array items =>
    match Shape.core outer shape with
    | .list item => do return .items (← toData outer item items)
    | .bytes => do return .items (← toData outer (.int .uint8) items)
    | .array size item => do
      let ds ← toData outer item items
      return .items (ds.take size ++ List.replicate (size - ds.length) item.zero)
    | .any => do return .any (← toValue (.array items))
    | _ => .error .malformed
  | .object members =>
    match Shape.core outer shape with
    | .table item => do return .entries (← toTable outer item members [])
    | .record name fields => do
      return .fields (← toFields (.record name fields) fields members (Shape.zeros fields))
    | .any => do return .any (← toValue (.object members))
    | _ => .error .malformed

/-- Reads elements into a shape. -/
def toData (outer : Shape) (shape : Shape) : List Json → Except Malformed (List Datum)
  | [] => .ok []
  | j :: rest => do
    let d ← toDatum outer shape j
    return d :: (← toData outer shape rest)

/-- Reads members into a table. -/
def toTable (outer : Shape) (shape : Shape) :
    List (Text × Json) → List (Text × Datum) → Except Malformed (List (Text × Datum))
  | [], soFar => .ok soFar
  | (k, j) :: rest, soFar => do
    let d ← toDatum outer shape j
    toTable outer shape rest (Datum.setEntry soFar k d)

/-- Reads members into the fields of a record; unknown members are passed over. -/
def toFields (outer : Shape) (fields : List (Text × Text × Shape)) :
    List (Text × Json) → List (Text × Datum) → Except Malformed (List (Text × Datum))
  | [], soFar => .ok soFar
  | (k, j) :: rest, soFar =>
    match fields.find? fun (_, key, _) => foldName key == foldName k with
    | none => toFields outer fields rest soFar
    | some (field, _, shape) =>
      match j with
      | .null => toFields outer fields rest soFar
      | j => do
        let d ← toDatum outer shape j
        toFields outer fields rest (Datum.setField soFar field d)

end

end Json

/-- A field of a record type: its name, the key of a row it is filled from, if any, and its shape. -/
structure FieldSpec where
  name : Text
  key : Option Text
  shape : Shape

/-- A record of decoded fields. -/
abbrev Record := List (Text × Datum)

/-- Why a value does not fit into a field. -/
inductive AssignError where
  | coerce (cause : CoerceError)
  | encode (cause : EncodeError)
  | mismatch (type target : Text) (cause : Json.Malformed)

/-- The words of the error. -/
def AssignError.message : AssignError → Text
  | .coerce cause => cause.message
  | .encode cause => cause.message
  | .mismatch type target cause =>
    "cannot assign " ++ type ++ " to " ++ target ++ ": " ++ cause.message

namespace FieldSpec

mutual

/-- A value that has the type of its field already. -/
def ofValue : Value → Datum
  | .text t => .text t
  | .int _ n => .int n
  | .list _ items => .items (ofValues items)
  | .table _ entries => .entries (ofEntries entries)
  | v => .any v

/-- Elements that have the type of their field already. -/
def ofValues : List Value → List Datum
  | [] => []
  | v :: rest => ofValue v :: ofValues rest

/-- Entries that have the type of their field already. -/
def ofEntries : List (Text × Value) → List (Text × Datum)
  | [] => []
  | (k, v) :: rest => (k, ofValue v) :: ofEntries rest

end

/-- The bytes as a list of small numbers. -/
def ofBytes (bytes : List UInt8) : Datum := .items (bytes.map fun b => .int b.toNat)

/-- A value that fits into a shape as it is. -/
def direct? (shape : Shape) (v : Value) : Option Datum :=
  match shape, v with
  | .any, v => some (.any v)
  | .bytes, .bytes b => some (ofBytes b)
  | .bytes, .text t | .bytes, .label t | .bytes, .numeral t => some (ofBytes t)
  | .list .text, .list .texts items => some (ofValue (.list .texts items))
  | .list (.int .int), .list .ints items => some (ofValue (.list .ints items))
  | .array 2 (.int .int), .list .pair items => some (ofValue (.list .pair items))
  | .table .text, .table .texts entries => some (ofValue (.table .texts entries))
  | _, _ => none

/-- Puts a value into a shape. -/
def assign (shape : Shape) (v : Value) : Except AssignError Datum :=
  match shape with
  | .text => do return .text (← v.toText.mapError .coerce)
  | .bool => do return .bool (← v.toBool.mapError .coerce)
  | .int ty =>
    if ty.isSigned then do return .int (ty.wrap (← v.toInt64.mapError .coerce))
    else do return .int (ty.wrap (← v.toUInt64.mapError .coerce))
  | .float ty => do return .float ty ((← v.toFloat.mapError .coerce).convert ty.format)
  | shape =>
    match direct? shape v with
    | some d => .ok d
    | none => do
      let raw ← v.encode.mapError .encode
      ((Json.read raw).bind (Json.toDatum shape shape)).mapError
        (.mismatch v.typeName shape.name)

end FieldSpec

/-- Why rows cannot be decoded. -/
inductive DecodeError where
  | field (row : Nat) (key : Text) (cause : AssignError)
  | unsupportedTarget (row : Nat) (target : Text)

/-- The words of the error. -/
def DecodeError.message : DecodeError → Text
  | .field row key cause =>
    "scan: row " ++ Text.ofNat row ++ ": field " ++ key ++ ": " ++ cause.message
  | .unsupportedTarget row target =>
    "scan: row " ++ Text.ofNat row ++ ": unsupported target " ++ target

/-- What rows are decoded into. -/
inductive Target where
  /-- Rows as they are. -/
  | rows
  | record (fields : List FieldSpec)
  /-- Something that is no record. -/
  | other (name : Text)

/-- What rows were decoded into. -/
inductive Decoded where
  | rows (rows : List (Option Row))
  | records (records : List Record)

/-- Fills the fields of a record from a row, in order. -/
def decodeFields (index : Nat) (row : Row) : List FieldSpec → Except DecodeError Record
  | [] => .ok []
  | spec :: rest => do
    let d ←
      match spec.key with
      | none => .ok spec.shape.zero
      | some key =>
        match row.get? key with
        | none | some .null => .ok spec.shape.zero
        | some v => (FieldSpec.assign spec.shape v).mapError (.field index key)
    let more ← decodeFields index row rest
    return (spec.name, d) :: more

/-- Decodes rows into records; `index` is the number of the first row. -/
def decodeRecords (fields : List FieldSpec) : (index : Nat) → List (Option Row) → Except DecodeError (List Record)
  | _, [] => .ok []
  | index, row :: rest => do
    let r ← decodeFields index (row.getD []) fields
    let more ← decodeRecords fields (index + 1) rest
    return r :: more

/-- Decodes rows. A target that is no record is refused with the first row. -/
def decodeRows (target : Target) (rows : List (Option Row)) : Except DecodeError Decoded :=
  match target with
  | .rows => .ok (.rows rows)
  | .record fields => do return .records (← decodeRecords fields 0 rows)
  | .other name => if rows.isEmpty then .ok (.records []) else .error (.unsupportedTarget 0 name)

end DocFilter
