import DocFilter.Value
import DocFilter.Text.Quoted

/-!
Values in messages: the name of a value's type, its plain form, and its exact form, in which texts
are quoted and collections name their type.
-/

set_option autoImplicit false

namespace DocFilter

open Text (byte)

/-- The name of a type of lists. -/
def ListType.name : ListType → Text
  | .any => "[]interface \x7b\x7d"
  | .texts => "[]string"
  | .ints => "[]int"
  | .documents => "[]query.Document"
  | .tables => "[]map[string]interface \x7b\x7d"
  | .pair => "[2]int"

/-- The name of a type of tables. -/
def TableType.name : TableType → Text
  | .any => "map[string]interface \x7b\x7d"
  | .texts => "map[string]string"
  | .counts => "main.NamedMap"
  | .numbered => "map[int]string"

namespace Value

/-- The name of the type of a value. -/
def typeName : Value → Text
  | .null => "<nil>"
  | .bool _ => "bool"
  | .text _ => "string"
  | .int ty _ => ty.name
  | .float ty _ => ty.name
  | .numeral _ => "json.Number"
  | .label _ => "main.Named"
  | .bytes _ => "[]uint8"
  | .time _ => "time.Time"
  | .ref _ => "*int"
  | .doc _ => "query.Document"
  | .list ty _ => ty.name
  | .table ty _ => ty.name
  | .noTable => TableType.any.name

/-- A truth value in words. -/
def boolText (b : Bool) : Text := if b then "true" else "false"

/-- A reference, which shows nothing of its target. -/
def refText : Option Int → Text
  | some _ => "(*int)(0x0)"
  | none => "(*int)(nil)"

/-- A key of a table in its exact form. -/
def exactKey (ty : TableType) (key : Text) : Text :=
  match ty with
  | .numbered => key
  | _ => Text.quoted key

/-- A byte in its exact form. -/
def exactByte (b : UInt8) : Text :=
  let digits := Text.hex 2 b.toNat
  "0x" ++ (if digits.head? == some (byte '0') then digits.drop 1 else digits)

mutual

/-- The exact form of a value. -/
def exact : Value → Text
  | .null => "interface \x7b\x7d(nil)"
  | .bool b => boolText b
  | .text t => Text.quoted t
  | .int ty n => if ty.isSigned then Text.ofInt n else "0x" ++ (Nat.toDigits 16 n.natAbs).map byte
  | .float ty x => Number.Layout.compact.write ty.format x
  | .numeral t => Text.quoted t
  | .label t => Text.quoted t
  | .bytes b => "[]byte\x7b" ++ Text.join ", " (b.map exactByte) ++ "\x7d"
  | .time t => t.exact
  | .ref target => refText target
  | .doc fields => "query.Document\x7b" ++ Text.join ", " (exactFields fields) ++ "\x7d"
  | .list ty items => ty.name ++ "\x7b" ++ Text.join ", " (exactItems items) ++ "\x7d"
  | .table ty entries =>
    let shown := sortByKey (·.1) (exactEntries ty entries)
    ty.name ++ "\x7b" ++ Text.join ", " (shown.map (·.2)) ++ "\x7d"
  | .noTable => TableType.any.name ++ "(nil)"

/-- The exact forms of the elements of a list. -/
def exactItems : List Value → List Text
  | [] => []
  | v :: rest => v.exact :: exactItems rest

/-- The exact forms of the fields of a document. -/
def exactFields : List (Text × Value) → List Text
  | [] => []
  | (k, v) :: rest =>
    ("query.Field\x7bKey:" ++ Text.quoted k ++ ", Value:" ++ v.exact ++ "\x7d") :: exactFields rest

/-- The exact forms of the entries of a table, with their keys. -/
def exactEntries (ty : TableType) : List (Text × Value) → List (Text × Text)
  | [] => []
  | (k, v) :: rest => (k, exactKey ty k ++ ":" ++ v.exact) :: exactEntries ty rest

end

mutual

/-- The plain form of a value. -/
def display : Value → Text
  | .null => "<nil>"
  | .bool b => boolText b
  | .text t => t
  | .int _ n => Text.ofInt n
  | .float ty x => Number.Layout.compact.write ty.format x
  | .numeral t => t
  | .label t => t
  | .bytes b => "[" ++ Text.join " " (b.map fun x => Text.ofNat x.toNat) ++ "]"
  | .time t => t.display
  | .ref (some _) => "0x0"
  | .ref none => "<nil>"
  | .doc fields => "[" ++ Text.join " " (displayFields fields) ++ "]"
  | .list _ items => "[" ++ Text.join " " (displayItems items) ++ "]"
  | .table _ entries =>
    let shown := sortByKey (·.1) (displayEntries entries)
    "map[" ++ Text.join " " (shown.map fun (k, t) => k ++ ":" ++ t) ++ "]"
  | .noTable => "map[]"

/-- The plain forms of the elements of a list. -/
def displayItems : List Value → List Text
  | [] => []
  | v :: rest => v.display :: displayItems rest

/-- The plain forms of the fields of a document. -/
def displayFields : List (Text × Value) → List Text
  | [] => []
  | (k, v) :: rest => ("\x7b" ++ k ++ " " ++ v.display ++ "\x7d") :: displayFields rest

/-- The plain forms of the entries of a table, with their keys. -/
def displayEntries : List (Text × Value) → List (Text × Text)
  | [] => []
  | (k, v) :: rest => (k, v.display) :: displayEntries rest

end

end Value
end DocFilter
