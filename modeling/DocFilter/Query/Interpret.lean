import DocFilter.Query.Directive
import DocFilter.Value.Coerce
import DocFilter.Document

/-!
From a filter document to directives.

Fields of the document are walked in order. A key of the form `$name` is a directive of its own;
every other key names a field, and its value says how the field is compared: an object is taken
apart into comparisons of dotted paths, anything else is compared for equality. All conditions of
the document, with the groups of `$or`, go into one conjunction at the end.

A table has no order, so its entries are walked by increasing keys. Each entry is interpreted on its
own and the results are sorted afterwards, which is the same thing.

`interpret` is `Interpret`, `nestedEntries` is `resolveNested`, `fieldDirectives` and `orGroup` are
the functions of these names, `sortKeys` is `sortModifier` and `selectedFields` is `selectFields`.
-/

set_option autoImplicit false

namespace DocFilter

open Text (byte)

/-- An operator that may stand as a key below a field. -/
def nestedOp? (name : Text) : Option Comparator :=
  match Comparator.ofName? name with
  | some .eq => none
  | c => c

/-- What the entries of an object contribute, by their keys. -/
abbrev Contributions := List (Text × Except QueryError (List Directive))

/-- All contributions one after the other, or the first error. -/
def Contributions.combine : Contributions → Except QueryError (List Directive)
  | [] => .ok []
  | (_, r) :: rest => do
    let ds ← r
    let more ← Contributions.combine rest
    return ds ++ more

/-- Contributions in increasing order of their keys. -/
def Contributions.sorted (cs : Contributions) : Contributions := sortByKey (·.1) cs

/-- The text of an `$or` key without its dollar sign. -/
def orName : Text := "or"

mutual

/-- The conditions of a field with a value. -/
def fieldDirectives (path : Text) : Value → Except QueryError (List Directive)
  | .doc fields => (nestedEntries path fields).combine
  | .table .any entries | .table .texts entries | .table .counts entries =>
    (nestedEntries path entries).sorted.combine
  | .noTable => .ok []
  | v => .ok [.comparison (.known .eq) path v]

/-- What each entry of an object below a field contributes. An operator compares the field itself,
`$or` is a group beside it, other directive keys count for nothing, and an ordinary key makes the
path longer. -/
def nestedEntries (path : Text) : List (Text × Value) → Contributions
  | [] => []
  | (key, v) :: rest =>
    let here : Except QueryError (List Directive) :=
      match directiveName? key with
      | some name =>
        match nestedOp? name with
        | some c => .ok [.comparison (.known c) path v]
        | none => if name == orName then (orGroup v).map ([·]) else .ok []
      | none => fieldDirectives (path ++ byte '.' :: key) v
    (key, here) :: nestedEntries path rest

/-- The disjunction of a list of objects. -/
def orGroup : Value → Except QueryError Directive
  | .list _ items => do return .logical .or (← orElements items)
  | _ => .error .orShape

/-- One conjunction for each object of a list. -/
def orElements : List Value → Except QueryError (List Directive)
  | [] => .ok []
  | v :: rest => do
    let group ← orElement v
    let more ← orElements rest
    return .logical .and group :: more

/-- The conditions of one object of a disjunction. -/
def orElement : Value → Except QueryError (List Directive)
  | .doc fields => (orEntries fields).combine
  | .table .any entries | .table .texts entries | .table .counts entries =>
    (orEntries entries).sorted.combine
  | .noTable => .ok []
  | _ => .error .orShape

/-- What each entry of an object of a disjunction contributes: ordinary keys and groups count,
other directive keys do not. -/
def orEntries : List (Text × Value) → Contributions
  | [] => []
  | (key, v) :: rest =>
    let here : Except QueryError (List Directive) :=
      match directiveName? key with
      | some name => if name == orName then (orGroup v).map ([·]) else .ok []
      | none => fieldDirectives key v
    (key, here) :: orEntries rest

end

/-- The texts of a list that holds nothing else. -/
def textsOf? : List Value → Option (List Text)
  | [] => some []
  | .text t :: rest => (textsOf? rest).map (t :: ·)
  | _ :: _ => none

/-- The fields that a `$select` names. -/
def selectedFields : Value → Except QueryError (List Text)
  | .null | .ref none => .ok []
  | .text t => .ok [t]
  | .list _ items =>
    match textsOf? items with
    | some fields => .ok fields
    | none => .error .selectShape
  | _ => .error .selectShape

/-- The direction that a value in a `$sort` stands for: ascending for numbers above zero. -/
def sortDirection (v : Value) : Direction :=
  match v.toFloat with
  | .ok x => if x.isPositive then .asc else .desc
  | .error _ => .desc

/-- The keys that a `$sort` names. -/
def sortKeys (v : Value) : Except QueryError (List SortKey) :=
  if v.kind == .object then
    .ok (v.fields.filterMap fun (key, order) =>
      match directiveName? key with
      | some _ => none
      | none => some ⟨key, sortDirection order⟩)
  else .error .sortShape

/-- What a field of a filter contributes: clauses that stand for themselves, and conditions. -/
structure Contribution where
  clauses : List Directive := []
  conditions : List Directive := []

/-- What one field of a filter contributes. -/
def interpretField (key : Text) (v : Value) : Except QueryError Contribution :=
  match directiveName? key with
  | none => do return ⟨[], ← fieldDirectives key v⟩
  | some name =>
    if name == Text.ofString "limit" then .ok ⟨[.modifier ⟨.limit, v, [], []⟩], []⟩
    else if name == Text.ofString "skip" then .ok ⟨[.modifier ⟨.skip, v, [], []⟩], []⟩
    else if name == Text.ofString "select" then do
      return ⟨[.select (← selectedFields v)], []⟩
    else if name == Text.ofString "sort" then do
      return ⟨[.modifier ⟨.sort, .null, [], ← sortKeys v⟩], []⟩
    else if name == orName then do return ⟨[], [← orGroup v]⟩
    else
      match Comparator.ofName? name with
      | some _ => .error (.rootComparison key)
      | none => .ok ⟨[.extension name v], []⟩

/-- What all fields of a filter contribute, in order. -/
def interpretFields : Document → Except QueryError Contribution
  | [] => .ok {}
  | (key, v) :: rest => do
    let here ← interpretField key v
    let more ← interpretFields rest
    return ⟨here.clauses ++ more.clauses, here.conditions ++ more.conditions⟩

/-- The directives of a filter: its clauses in order, then one conjunction of all its conditions if
it has any. -/
def interpret (d : Document) : Except QueryError (List Directive) := do
  let parts ← interpretFields d
  return parts.clauses ++
    (if parts.conditions.isEmpty then [] else [.logical .and parts.conditions])

end DocFilter
