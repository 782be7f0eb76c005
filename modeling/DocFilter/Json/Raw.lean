import DocFilter.Json.Reader
import DocFilter.Text.Case

/-!
Taking a JSON text apart without reading its values: the members of an object and the elements of an
array as they are written. The text around the values has to be proper; a value only has to have an
end, so that whoever reads it can say what is wrong with it.
-/

set_option autoImplicit false

namespace DocFilter.Json.Raw

open Text (byte)

/-- The text without blanks in front. -/
def skipSpace (t : Text) : Text := t.dropWhile isSpace

/-- The number of bytes of a string after its opening quote; what a backslash escapes is not looked
at. -/
def stringLength? : (escaped : Bool) → Text → Option Nat
  | _, [] => none
  | true, b :: rest => if b == 0 then none else (stringLength? false rest).map (· + 1)
  | false, b :: rest =>
    if b == 0 then none
    else if b == byte '"' then some 1
    else (stringLength? (b == byte '\\') rest).map (· + 1)

/-- What the end of a collection has to be told apart from. -/
inductive Inside where
  | code
  | string
  | escape
  deriving DecidableEq

/-- The number of bytes of a collection after its opening bracket. Only brackets of its own kind
count for its end, and those of both kinds for how deep the collections stand within each other. -/
def collectionLength? (opening closing : UInt8) :
    (unclosed : Nat) → (depth : Int) → Inside → Text → Option Nat
  | _, _, _, [] => none
  | unclosed, depth, inside, b :: rest =>
    if b == 0 then none
    else
      let further (unclosed : Nat) (depth : Int) (inside : Inside) : Option Nat :=
        (collectionLength? opening closing unclosed depth inside rest).map (· + 1)
      match inside with
      | .escape => further unclosed depth .string
      | .string =>
        if b == byte '\\' then further unclosed depth .escape
        else further unclosed depth (if b == byte '"' then .code else .string)
      | .code =>
        if b == byte '"' then further unclosed depth .string
        else if b == byte '\x7b' || b == byte '[' then
          if depth < maxDepth then further (if b == opening then unclosed + 1 else unclosed) (depth + 1) .code
          else none
        else if b == byte '\x7d' || b == byte ']' then
          if b != closing then further unclosed (depth - 1) .code
          else if unclosed ≤ 1 then some 1
          else further (unclosed - 1) (depth - 1) .code
        else further unclosed depth .code

/-- The number of bytes of the value at the beginning of a text, which stands in a collection. -/
def valueLength? (t : Text) : Option Nat :=
  match t with
  | [] => none
  | b :: rest =>
    let word (w : Text) : Option Nat := if w.isPrefixOf t then some w.length else none
    if b == byte '\x7b' then (collectionLength? b (byte '\x7d') 1 2 .code rest).map (· + 1)
    else if b == byte '[' then (collectionLength? b (byte ']') 1 2 .code rest).map (· + 1)
    else if b == byte '"' then (stringLength? false rest).map (· + 1)
    else if Text.isDigit b || b == byte '-' then
      some ((rest.takeWhile Lexeme.continuesNumber).length + 1)
    else if b == byte 't' then word "true"
    else if b == byte 'f' then word "false"
    else if b == byte 'n' then word "null"
    else none

/-- The first value of a text that does not begin with a blank, and the text after it and the blanks
that follow. -/
def value? (t : Text) : Option (Text × Text) :=
  (valueLength? t).map fun n => (t.take n, skipSpace (t.drop n))

/-- The key at the beginning of a text, and the text from its value on. -/
def key? (t : Text) : Option (Text × Text) := do
  if t.head? != some (byte '"') then none
  let (raw, t) ← value? t
  match parse raw with
  | .ok (.string key) =>
    if t.head? == some (byte ':') then some (key, skipSpace (t.drop 1)) else none
  | _ => none

/-- What was found in a collection, and whether it is proper up to its end. -/
structure Found (α : Type) where
  items : List α
  proper : Bool

/-- Puts a part before those that were found after it. -/
def Found.cons {α : Type} (a : α) (f : Found α) : Found α := ⟨a :: f.items, f.proper⟩

/-- Reads the parts of a collection up to its closing bracket, after which nothing may follow. Every
part takes a byte, so the length of the text is enough fuel. -/
def parts {α : Type} (part? : Text → Option (α × Text)) (closing : UInt8) :
    (fuel : Nat) → Text → Found α
  | 0, _ => ⟨[], false⟩
  | fuel + 1, t =>
    match part? t with
    | none => ⟨[], false⟩
    | some (a, []) => ⟨[a], false⟩
    | some (a, b :: rest) =>
      if b == byte ',' then (parts part? closing fuel (skipSpace rest)).cons a
      else ⟨[a], b == closing && (skipSpace rest).isEmpty⟩

/-- Reads a collection: its opening bracket, its parts and its closing bracket. -/
def collection {α : Type} (part? : Text → Option (α × Text)) (opening closing : UInt8) (t : Text) :
    Found α :=
  match skipSpace t with
  | [] => ⟨[], false⟩
  | b :: rest =>
    if b == opening then
      match skipSpace rest with
      | [] => ⟨[], false⟩
      | c :: after =>
        if c == closing then ⟨[], (skipSpace after).isEmpty⟩
        else parts part? closing t.length (c :: after)
    else ⟨[], false⟩

/-- The members of an object, with the raw texts of their values, up to the first fault. -/
def members (t : Text) : Found (Text × Text) :=
  collection (fun t => do
    let (key, t) ← key? t
    let (raw, t) ← value? t
    return ((key, raw), t)) (byte '\x7b') (byte '\x7d') t

/-- The raw texts of the elements of an array, up to the first fault. -/
def elements (t : Text) : Found Text := collection value? (byte '[') (byte ']') t

/-- Whether a text is the constant for nothing. -/
def isNull (t : Text) : Bool := Text.dropEndWhile isSpace (skipSpace t) == Text.ofString "null"

end DocFilter.Json.Raw
