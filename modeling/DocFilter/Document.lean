import DocFilter.Value

/-!
Operations on documents. A document is walked from front to back, looking up takes the first field
with the key, and replacing keeps the place of the field.

`ofPairs` is the constructor `D`; `get?`, `set` and `delete` are the methods `Get`, `Set` and
`Delete`.
-/

set_option autoImplicit false

namespace DocFilter

/-- Why a list of alternating keys and values is no document. -/
inductive PairingError where
  | oddCount
  | keyNotText
  deriving DecidableEq, Repr

/-- The words of a pairing error. -/
def PairingError.message : PairingError → Text
  | .oddCount => "query.D: odd number of arguments"
  | .keyNotText => "query.D: key is not a string"

namespace Document

/-- Pairs keys with the values after them. -/
def pairUp : List Value → Except PairingError Document
  | [] => .ok []
  | [_] => .error .oddCount
  | .text k :: v :: rest => do return (k, v) :: (← pairUp rest)
  | _ :: _ :: _ => .error .keyNotText

/-- The document of alternating keys and values. An odd number of them is reported before any key. -/
def ofPairs (items : List Value) : Except PairingError Document :=
  if items.length % 2 == 0 then pairUp items else .error .oddCount

/-- The value of the first field with a key. -/
def get? (d : Document) (key : Text) : Option Value := d.lookup key

/-- The document with a new value in the first field with the key, if there is one. -/
def replace? : Document → Text → Value → Option Document
  | [], _, _ => none
  | (k, old) :: rest, key, v =>
    if k == key then some ((k, v) :: rest) else (replace? rest key v).map ((k, old) :: ·)

/-- The document with a value under a key: in the place of the first such field, or at the end. -/
def set (d : Document) (key : Text) (v : Value) : Document :=
  (d.replace? key v).getD (d ++ [(key, v)])

/-- The document without the fields that have the key. -/
def delete (d : Document) (key : Text) : Document := d.filter (·.1 != key)

end Document
end DocFilter
