import DocFilter.Query.Interpret
import DocFilter.Query.Statement
import DocFilter.Backend

/-!
A builder puts a query together call by call. The first call that fails decides: its error stays,
and no later call adds anything. Everything the builder knows is in its directives, so a filter
document and a sequence of calls that describe the same query compile to the same statement.

Each method is the call of the same name: `compare` is `Where`, `within` is `From`, `connected` is
`Using`. `fail` is where the first error stays, `build` is `Build`, `call` is what `Run` sends,
`selected` is `Selected` and `window` is `Window`.
-/

set_option autoImplicit false

namespace DocFilter

/-- Why a query cannot be sent. -/
inductive RunError where
  | noQuerier
  | query (e : QueryError)

/-- The words of the error. -/
def RunError.message : RunError → Text
  | .noQuerier => "query: querier not set (call Using())"
  | .query e => e.message

/-- A query under construction. -/
structure Builder where
  scope : Text := []
  directives : List Directive := []
  error : Option QueryError := none
  hasQuerier : Bool := false
  consistency : Consistency := []

namespace Builder

/-- Adds directives, unless a call has failed. -/
def add (b : Builder) (ds : List Directive) : Builder :=
  match b.error with
  | none => { b with directives := b.directives ++ ds }
  | some _ => b

/-- Remembers an error, unless there is one. -/
def fail (b : Builder) (e : QueryError) : Builder :=
  match b.error with
  | none => { b with error := some e }
  | some _ => b

/-- Adds directives or remembers why there are none. -/
def addResult (b : Builder) (r : Except QueryError (List Directive)) : Builder :=
  match r with
  | .ok ds => b.add ds
  | .error e => b.fail e

/-- Adds one directive or remembers why there is none. -/
def addOne (b : Builder) (r : Except QueryError Directive) : Builder := b.addResult (r.map ([·]))

/-- Selects fields. -/
def select (b : Builder) (fields : List Text) : Builder := b.add [.select fields]

/-- Sets the scope. -/
def within (b : Builder) (scope : Text) : Builder := { b with scope }

/-- Limits the number of results. -/
def limit (b : Builder) (v : Value) : Builder := b.addOne (Directive.limit v)

/-- Passes over results. -/
def skip (b : Builder) (v : Value) : Builder := b.addOne (Directive.skip v)

/-- Sorts by fields in one direction. -/
def sort (b : Builder) (fields : List Text) (order : Text) : Builder :=
  b.addOne (Directive.sort order fields)

/-- Adds a comparison. -/
def compare (b : Builder) (field : Text) (op : CompareOp) (v : Value) : Builder :=
  b.addOne (Directive.compare field op v)

/-- Adds a disjunction of documents, each of them a conjunction. -/
def or (b : Builder) (groups : List Document) : Builder :=
  b.addOne (orGroup (.list .any (groups.map .doc)))

/-- Adds everything that a filter describes. -/
def interpret (b : Builder) (d : Document) : Builder := b.addResult (DocFilter.interpret d)

/-- Says that there is a database to ask. -/
def connected (b : Builder) : Builder := { b with hasQuerier := true }

/-- Sets the consistency, over what a filter asks for. -/
def withConsistency (b : Builder) (c : Consistency) : Builder := { b with consistency := c }

/-- Compiles the query; `options` is given the scope of the builder and may change it. -/
def build (b : Builder) (options : CompileOptions → CompileOptions) : Except QueryError Statement :=
  match b.error with
  | some e => .error e
  | none => compile (options { scope := b.scope }) b.directives

/-- The level of consistency: the one that was set, else the last one that a filter asks for. -/
def consistencyLevel (b : Builder) : Except QueryError Consistency :=
  if b.consistency.isEmpty then
    match Directive.extensionValue? b.directives "consistency" with
    | none | some .null => .ok []
    | some v =>
      match Consistency.parse v.display with
      | .ok c => .ok c
      | .error _ => .error (.unknownConsistency v)
  else .ok b.consistency

/-- What is sent to the database. -/
def call (b : Builder) : Except RunError Call :=
  if b.hasQuerier then do
    let s ← (b.build id).mapError .query
    let c ← b.consistencyLevel.mapError .query
    return ⟨s.text, s.params, c⟩
  else .error .noQuerier

/-- The fields of a selection. -/
def selection? : Directive → Option (List Text)
  | .modifier m =>
    match m.kind with
    | .select => some m.fields
    | _ => none
  | _ => none

/-- The fields of the last selection, none if everything is selected. -/
def selected (b : Builder) : List Text :=
  b.directives.foldl (fun fields d => (selection? d).getD fields) []

/-- The part of the results that a query asks for. -/
structure Window where
  limit : Option Nat := none
  skip : Nat := 0
  deriving DecidableEq, Repr

/-- Takes one more directive into account. -/
def Window.add (w : Window) : Directive → Except QueryError Window
  | .modifier m =>
    match m.kind with
    | .limit =>
      match m.amount.amount? with
      | some n => .ok { w with limit := some n }
      | none => .error .limitNotNumeric
    | .skip =>
      match m.amount.amount? with
      | some n => .ok { w with skip := n }
      | none => .error .skipNotNumeric
    | _ => .ok w
  | _ => .ok w

/-- Takes directives into account, from front to back. -/
def Window.addAll (w : Window) : List Directive → Except QueryError Window
  | [] => .ok w
  | d :: rest => do
    let w' ← w.add d
    w'.addAll rest

/-- The last limit and the last skip. -/
def window (b : Builder) : Except QueryError Window :=
  match b.error with
  | some e => .error e
  | none => ({} : Window).addAll b.directives

end Builder
end DocFilter
