import DocFilter.Timestamp
import DocFilter.Text.Sorted
import DocFilter.Number.Layout

/-!
The values that filters, rows and stored documents are made of. Values are dynamic: a filter comes
from text or from a program, and both may put any of these anywhere. Collections keep the type of
their elements, because messages name it and because record decoding treats a list of texts and a
list of values differently.

A *document* is an ordered list of fields in which a key may occur twice. A *table* is a finite map:
its entries have distinct keys and their order means nothing, so whoever walks a table sorts it.

`Value.kind` is `Classify`; `fields` and `elements` are `entries` and `elements`.
-/

set_option autoImplicit false

namespace DocFilter

/-- The integer types. -/
inductive IntType where
  | int
  | int8
  | int16
  | int32
  | int64
  | uint
  | uint8
  | uint16
  | uint32
  | uint64
  deriving DecidableEq, Repr

namespace IntType

/-- The number of bits of a word. -/
def bits : IntType → Nat
  | .int8 | .uint8 => 8
  | .int16 | .uint16 => 16
  | .int32 | .uint32 => 32
  | .int | .int64 | .uint | .uint64 => 64

/-- Whether a word has a sign. -/
def isSigned : IntType → Bool
  | .int | .int8 | .int16 | .int32 | .int64 => true
  | _ => false

/-- The name of the type in messages. -/
def name : IntType → Text
  | .int => "int"
  | .int8 => "int8"
  | .int16 => "int16"
  | .int32 => "int32"
  | .int64 => "int64"
  | .uint => "uint"
  | .uint8 => "uint8"
  | .uint16 => "uint16"
  | .uint32 => "uint32"
  | .uint64 => "uint64"

/-- The word with the same low bits as an integer. -/
def wrap (ty : IntType) (n : Int) : Int :=
  if ty.isSigned then Int.bmod n (Nat.pow 2 ty.bits) else n % (Nat.pow 2 ty.bits : Nat)

/-- Whether an integer is a word of the type. -/
def holds (ty : IntType) (n : Int) : Bool := ty.wrap n == n

end IntType

/-- The floating-point types. -/
inductive FloatType where
  | double
  | single
  deriving DecidableEq, Repr

namespace FloatType

/-- The format of the numbers of the type. -/
def format : FloatType → Number.Format
  | .double => Number.double
  | .single => Number.single

/-- The name of the type in messages. -/
def name : FloatType → Text
  | .double => "float64"
  | .single => "float32"

end FloatType

/-- What the elements of a list are. -/
inductive ListType where
  | any
  | texts
  | ints
  | documents
  | tables
  | pair
  deriving DecidableEq, Repr

/-- What the keys and elements of a table are. -/
inductive TableType where
  | any
  | texts
  | counts
  | numbered
  deriving DecidableEq, Repr

/-- A value. -/
inductive Value where
  | null
  | bool (b : Bool)
  | text (t : Text)
  | int (ty : IntType) (n : Int)
  | float (ty : FloatType) (x : Number.Binary)
  /-- A number kept as the text it was written in. -/
  | numeral (t : Text)
  /-- A text of a type of its own. -/
  | label (t : Text)
  | bytes (b : List UInt8)
  | time (t : Timestamp)
  /-- A reference to an integer, or to nothing. -/
  | ref (target : Option Int)
  /-- A document: fields in order, keys may repeat. -/
  | doc (fields : List (Text × Value))
  | list (ty : ListType) (items : List Value)
  /-- A table: entries with distinct keys, in no particular order. -/
  | table (ty : TableType) (entries : List (Text × Value))
  /-- A table that was never made. -/
  | noTable
  deriving Inhabited, Repr

/-- A document: fields in order, keys may repeat. -/
abbrev Document := List (Text × Value)

/-- A row of a query result or a stored document: a table of values. -/
abbrev Row := List (Text × Value)

/-- The kinds of values the interpreter tells apart. -/
inductive Kind where
  | null
  | scalar
  | array
  | object
  deriving DecidableEq, Repr

/-- The name of a kind. -/
def Kind.name : Kind → Text
  | .null => "null"
  | .scalar => "scalar"
  | .array => "array"
  | .object => "object"

namespace Value

/-- An integer of the default type. -/
def ofInt (n : Int) : Value := .int .int n

/-- The kind of a value. A table is an object if its keys are texts. -/
def kind : Value → Kind
  | .null | .ref none => .null
  | .doc _ | .noTable | .table .any _ | .table .texts _ | .table .counts _ => .object
  | .list _ _ => .array
  | _ => .scalar

/-- Whether a value is nothing at all; a reference to nothing is still a reference. -/
def isNull : Value → Bool
  | .null => true
  | _ => false

end Value

/-- Entries in increasing order of their keys. -/
def sortedByKey (entries : List (Text × Value)) : List (Text × Value) := sortByKey (·.1) entries

namespace Value

/-- The fields of an object in the order in which they are walked: a document in its own order, a
table by increasing keys. -/
def fields : Value → List (Text × Value)
  | .doc fs => fs
  | .table .any es | .table .texts es | .table .counts es => sortedByKey es
  | _ => []

/-- The elements of an array. -/
def elements : Value → List Value
  | .list _ items => items
  | _ => []

end Value

namespace Row

/-- The value under a key. -/
def get? (row : Row) (key : Text) : Option Value := row.lookup key

/-- The row with a value under a key, in place of one that was there. -/
def set (row : Row) (key : Text) (v : Value) : Row :=
  match row with
  | [] => [(key, v)]
  | (k, old) :: rest => if k == key then (key, v) :: rest else (k, old) :: Row.set rest key v

/-- The row with the entries of another one on top. -/
def merge (row : Row) (changes : Row) : Row := changes.foldl (fun r (k, v) => Row.set r k v) row

/-- The row of a list of entries; the last entry of a key counts. -/
def ofList (entries : List (Text × Value)) : Row := Row.merge [] entries

end Row
end DocFilter
