import DocFilter.Json.Reader
import DocFilter.Value.Encode

/-!
Stored documents: a row written as an interchange document and read back. All numbers come back as
floating-point numbers, and of two members with one name the later counts.

`Row.encode` is `scan.Marshal`, `Row.decode` is `scan.Unmarshal`, and `stripAll` is `scan.Strip`.
-/

set_option autoImplicit false

namespace DocFilter

/-- Why a stored document cannot be read: it is malformed, it holds a number that has no place, or
it is no object. -/
abbrev StoredError := Json.Malformed

namespace Json

mutual

/-- The value of an interchange document. -/
def toValue : Json → Except Malformed Value
  | .null => .ok .null
  | .bool b => .ok (.bool b)
  | .number literal =>
    match Number.readBinary Number.double literal with
    | .ok x => .ok (.float .double x)
    | .error _ => .error .malformed
  | .string t => .ok (.text t)
  | .array items => do return .list .any (← toValues items)
  | .object members => do return .table .any (Row.ofList (← toEntries members))

/-- The values of elements. -/
def toValues : List Json → Except Malformed (List Value)
  | [] => .ok []
  | j :: rest => do
    let v ← j.toValue
    return v :: (← toValues rest)

/-- The values of members. -/
def toEntries : List (Text × Json) → Except Malformed (List (Text × Value))
  | [] => .ok []
  | (k, j) :: rest => do
    let v ← j.toValue
    return (k, v) :: (← toEntries rest)

end

/-- The row of an interchange document that is an object; nothing stands for a missing row. -/
def toRow : Json → Except Malformed (Option Row)
  | .null => .ok none
  | .object members => do return some (Row.ofList (← toEntries members))
  | _ => .error .malformed

end Json

namespace Row

/-- Why a row cannot be written or a stored document cannot be read. -/
inductive StorageError where
  | encode (cause : EncodeError)
  | decode (cause : Json.Malformed)

/-- The words of the error. -/
def StorageError.message : StorageError → Text
  | .encode cause => "scan: encode document: " ++ cause.message
  | .decode cause => "scan: decode document: " ++ cause.message

/-- The value of a row that may be missing. -/
def asValue : Option Row → Value
  | none => .noTable
  | some row => .table .any row

/-- Writes a row for storage. -/
def encode (row : Option Row) : Except StorageError Text :=
  (asValue row).encode.mapError .encode

/-- Reads a stored document. -/
def decode (raw : Text) : Except StorageError (Option Row) :=
  ((Json.read raw).bind Json.toRow).mapError .decode

/-- A row with the selected keys only. -/
def strip (selected : List Text) (row : Row) : Row := row.filter (selected.contains ·.1)

/-- Rows with the selected keys only; a missing row becomes an empty one. -/
def stripAll (selected : List Text) (rows : List (Option Row)) : List (Option Row) :=
  rows.map fun row => some (Row.strip selected (row.getD []))

end Row
end DocFilter
