import DocFilter.Backend

/-!
A keyed store of documents in memory, with the contract that every store of the library has: a
document can be inserted only under a free key, and read, replaced or removed only under a key that
is taken. Each operation is one step.
-/

set_option autoImplicit false

namespace DocFilter

/-- A store: the raw text of each document under its key. -/
abbrev Store := List (Text × Text)

namespace Store

/-- The document under a key. -/
def find? (s : Store) (key : Text) : Option Text := s.lookup key

/-- The store with a document under a key, in place of one that was there. -/
def put : Store → Text → Text → Store
  | [], key, raw => [(key, raw)]
  | (k, old) :: rest, key, raw =>
    if k == key then (key, raw) :: rest else (k, old) :: put rest key raw

/-- The store without a key. -/
def erase (s : Store) (key : Text) : Store := s.filter (·.1 != key)

/-- Reads a document. -/
def get (s : Store) (key : Text) : Except BackendError Text :=
  match s.find? key with
  | some raw => .ok raw
  | none => .error .keyNotFound

/-- Adds a document under a free key. -/
def insert (s : Store) (key raw : Text) : Except BackendError Unit × Store :=
  match s.find? key with
  | some _ => (.error .keyExists, s)
  | none => (.ok (), s.put key raw)

/-- Puts a document in place of another. -/
def replace (s : Store) (key raw : Text) : Except BackendError Unit × Store :=
  match s.find? key with
  | some _ => (.ok (), s.put key raw)
  | none => (.error .keyNotFound, s)

/-- Removes a document. -/
def remove (s : Store) (key : Text) : Except BackendError Unit × Store :=
  match s.find? key with
  | some _ => (.ok (), s.erase key)
  | none => (.error .keyNotFound, s)

end Store
end DocFilter
