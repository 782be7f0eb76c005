import DocFilter.Query.Formula
import DocFilter.Query.Amount

/-!
Statements. Directives are gathered into the clauses of a `Select`, which is then written down. The
clauses have a fixed order, conditions that stand beside each other are joined by AND, the last
limit, skip and selection count, and orderings add up.

`compile` is `Compile`: `Clauses.addAll` is its pass over the directives, and the columns of a
`Select` are written as `writeSelect` writes them. `CompileOptions` are `WithScope` and
`WithDefaultProjection`.
-/

set_option autoImplicit false

namespace DocFilter

open Text (byte)

/-- A statement: its text and the values of its placeholders. -/
structure Statement where
  text : Text
  params : List Value
  deriving Inhabited

/-- What a statement is compiled for: the collection that names are qualified by, if any, and what
is selected when no field is. -/
structure CompileOptions where
  scope : Text := []
  projection : Text := "*"

/-- The clauses that a list of directives asks for. -/
structure Clauses where
  selected : List Text := []
  conditions : List Directive := []
  order : List SortKey := []
  limit : Option Nat := none
  skip : Option Nat := none

namespace Clauses

/-- Takes one more directive into account. -/
def add (c : Clauses) : Directive → Except QueryError Clauses
  | .comparison op field v =>
    .ok { c with conditions := c.conditions ++ [.comparison op field v] }
  | .logical op children => .ok { c with conditions := c.conditions ++ [.logical op children] }
  | .modifier m =>
    match m.kind with
    | .select => .ok { c with selected := m.fields }
    | .limit =>
      match m.amount.amount? with
      | some n => .ok { c with limit := some n }
      | none => .error .limitNotNumeric
    | .skip =>
      match m.amount.amount? with
      | some n => .ok { c with skip := some n }
      | none => .error .skipNotNumeric
    | .sort =>
      if m.sort.isEmpty then .error .sortFieldsRequired
      else .ok { c with order := c.order ++ m.sort }
    | .other name => .error (.unsupportedModifier name)
  | .extension _ _ => .ok c
  | .missing => .error .missingDirective

/-- Takes directives into account, from front to back. -/
def addAll (c : Clauses) : List Directive → Except QueryError Clauses
  | [] => .ok c
  | d :: rest => do
    let c' ← c.add d
    c'.addAll rest

end Clauses

/-- A statement as its clauses. -/
structure Select where
  columns : List Text
  scope : Text
  condition : Option (Formula Operand)
  order : List SortKey
  limit : Option Nat
  offset : Option Nat

namespace Select

/-- A column, qualified by the scope if there is one. -/
def column (scope field : Text) : Text :=
  if scope.isEmpty then field else identifier scope ++ "." ++ field

/-- A key of an ordering. -/
def orderKey (k : SortKey) : Text := identifier k.field ++ " " ++ k.direction.word

/-- A clause that is written only if there is something to write. -/
def clause {α : Type} (keyword : Text) (write : α → Text) : Option α → Text
  | none => []
  | some a => keyword ++ write a

/-- The written form of a statement. -/
def text (s : Select) : Text :=
  "SELECT " ++ Text.join "," (s.columns.map (column s.scope)) ++
    clause " FROM " identifier (if s.scope.isEmpty then none else some s.scope) ++
    clause " WHERE " (Formula.text .alone) s.condition ++
    clause " ORDER BY " (fun ks => Text.join ", " (ks.map orderKey))
      (if s.order.isEmpty then none else some s.order) ++
    clause " LIMIT " Text.ofNat s.limit ++
    clause " OFFSET " Text.ofNat s.offset

end Select

/-- The condition of several directives, if there are any: their conjunction. -/
def conditionOf (ds : List Directive) : Except QueryError (Option (Formula Value)) :=
  if ds.isEmpty then .ok none
  else do return some (.all (← Formula.ofDirectives ds))

/-- The clauses and parameters of directives. -/
def select (options : CompileOptions) (ds : List Directive) :
    Except QueryError (Select × List Value) := do
  let c ← ({} : Clauses).addAll ds
  let condition ← conditionOf c.conditions
  let columns := if c.selected.isEmpty then [options.projection] else c.selected
  let bound := condition.map (Formula.bind {})
  let params := (bound.map (·.2.params)).getD []
  return (⟨columns, options.scope, bound.map (·.1), c.order, c.limit, c.skip⟩, params)

/-- Compiles directives into a statement. -/
def compile (options : CompileOptions) (ds : List Directive) : Except QueryError Statement := do
  let (s, params) ← select options ds
  return ⟨s.text, params⟩

end DocFilter
