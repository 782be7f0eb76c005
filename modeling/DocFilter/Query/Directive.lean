import DocFilter.Query.Error
import DocFilter.Text.Case

/-!
Directives are the parts of a query before it is compiled: comparisons, groups of conditions,
modifiers for everything that is no condition, and extensions, which the compiler passes over.

Names that no one knows are kept as they came, so that the error can say them.

`Comparator.parse` is `ParseOp`, `Direction.parse` is `ParseDirection`, `directiveName?` is
`directiveName`; `compare`, `limit`, `skip`, `select` and `sort` are the constructors
`NewComparison`, `NewLimit`, `NewSkip`, `NewSelect` and `NewSort`.
-/

set_option autoImplicit false

namespace DocFilter

open Text (byte)

/-- The operators of comparisons. -/
inductive Comparator where
  | eq
  | ne
  | lt
  | lte
  | gt
  | gte
  | isIn
  | notIn
  deriving DecidableEq, Repr

namespace Comparator

/-- All operators. -/
def all : List Comparator := [.eq, .ne, .lt, .lte, .gt, .gte, .isIn, .notIn]

/-- The name of an operator in filters. -/
def name : Comparator → Text
  | .eq => "eq"
  | .ne => "ne"
  | .lt => "lt"
  | .lte => "lte"
  | .gt => "gt"
  | .gte => "gte"
  | .isIn => "in"
  | .notIn => "nin"

/-- The operator as it is written in statements. -/
def token : Comparator → Text
  | .eq => "="
  | .ne => "!="
  | .lt => "<"
  | .lte => "<="
  | .gt => ">"
  | .gte => ">="
  | .isIn => "IN"
  | .notIn => "NOT IN"

/-- The operator with a name. -/
def ofName? (t : Text) : Option Comparator := all.find? (·.name == t)

end Comparator

/-- The operator of a comparison directive. -/
inductive CompareOp where
  | known (c : Comparator)
  | other (name : Text)
  deriving DecidableEq, Repr

namespace CompareOp

/-- The name of an operator. -/
def name : CompareOp → Text
  | .known c => c.name
  | .other t => t

/-- The operator with a name. -/
def ofName (t : Text) : CompareOp :=
  match Comparator.ofName? t with
  | some c => .known c
  | none => .other t

/-- The operator as it is written in statements; one that no one knows is not written. -/
def token : CompareOp → Text
  | .known c => c.token
  | .other _ => []

end CompareOp

/-- Reads the name of an operator, with or without a dollar sign in front. -/
def Comparator.parse (t : Text) : Except QueryError Comparator :=
  let name := if t.head? == some (byte '$') then t.drop 1 else t
  match Comparator.ofName? name with
  | some c => .ok c
  | none => .error (.unknownOperator t)

/-- How the conditions of a group are joined. -/
inductive LogicalOp where
  | and
  | or
  | other (name : Text)
  deriving DecidableEq, Repr

namespace LogicalOp

/-- The name of a way to join conditions. -/
def name : LogicalOp → Text
  | .and => "AND"
  | .or => "OR"
  | .other t => t

/-- The way to join conditions with a name. -/
def ofName (t : Text) : LogicalOp :=
  if t == Text.ofString "AND" then .and
  else if t == Text.ofString "OR" then .or
  else .other t

end LogicalOp

/-- The direction of an ordering. -/
inductive Direction where
  | asc
  | desc
  | other (word : Text)
  deriving DecidableEq, Repr

namespace Direction

/-- The direction as it is written in statements. -/
def word : Direction → Text
  | .asc => "ASC"
  | .desc => "DESC"
  | .other t => t

/-- The direction that is written as a word. -/
def ofWord (t : Text) : Direction :=
  if t == Text.ofString "ASC" then .asc
  else if t == Text.ofString "DESC" then .desc
  else .other t

/-- Reads a direction in any case; the empty text is ascending. -/
def parse (t : Text) : Except QueryError Direction :=
  let upper := Text.toUpper t
  if upper.isEmpty || upper == Text.ofString "ASC" then .ok .asc
  else if upper == Text.ofString "DESC" then .ok .desc
  else .error .sortOrder

end Direction

/-- A field to sort by. -/
structure SortKey where
  field : Text
  direction : Direction
  deriving DecidableEq, Repr

/-- What a modifier changes. -/
inductive ModifierKind where
  | limit
  | skip
  | select
  | sort
  | other (name : Text)
  deriving DecidableEq, Repr

namespace ModifierKind

/-- The name of a kind of modifiers. -/
def name : ModifierKind → Text
  | .limit => "LIMIT"
  | .skip => "SKIP"
  | .select => "SELECT"
  | .sort => "SORT"
  | .other t => t

/-- The kind of modifiers with a name. -/
def ofName (t : Text) : ModifierKind :=
  if t == Text.ofString "LIMIT" then .limit
  else if t == Text.ofString "SKIP" then .skip
  else if t == Text.ofString "SELECT" then .select
  else if t == Text.ofString "SORT" then .sort
  else .other t

end ModifierKind

/-- A clause that is no condition. The kind says which part counts: the amount of a limit or skip,
the fields of a selection, the keys of an ordering. The other parts are carried along. -/
structure Modifier where
  kind : ModifierKind
  amount : Value := .null
  fields : List Text := []
  sort : List SortKey := []

/-- A part of a query. -/
inductive Directive where
  | comparison (op : CompareOp) (field : Text) (value : Value)
  | logical (op : LogicalOp) (children : List Directive)
  | modifier (m : Modifier)
  | extension (name : Text) (payload : Value)
  /-- A place where a directive should be and none is. -/
  | missing
  deriving Inhabited

namespace Directive

/-- A comparison with a field and a known operator. -/
def compare (field : Text) (op : CompareOp) (v : Value) : Except QueryError Directive :=
  if field.isEmpty then .error .fieldRequired
  else
    match op with
    | .known c => .ok (.comparison (.known c) field v)
    | .other name => .error (.unknownOperator name)

/-- A limit or a skip. The amount has to be there; whether it is a number is seen when the query is
compiled. -/
def amount (kind : ModifierKind) (v : Value) : Except QueryError Directive :=
  if v.kind == .null then .error .amountRequired
  else .ok (.modifier ⟨kind, v, [], []⟩)

/-- A limit on the number of results. -/
def limit (v : Value) : Except QueryError Directive := amount .limit v

/-- A number of results to pass over. -/
def skip (v : Value) : Except QueryError Directive := amount .skip v

/-- A selection of fields. -/
def select (fields : List Text) : Directive := .modifier ⟨.select, .null, fields, []⟩

/-- An ordering by several fields in one direction. -/
def sort (order : Text) (fields : List Text) : Except QueryError Directive :=
  if fields.isEmpty then .error .sortFieldsRequired
  else do
    let direction ← Direction.parse order
    return .modifier ⟨.sort, .null, [], fields.map fun f => ⟨f, direction⟩⟩

/-- The name and payload of an extension. -/
def extension? : Directive → Option (Text × Value)
  | .extension name payload => some (name, payload)
  | _ => none

/-- The extensions among directives, in order. -/
def extensions (ds : List Directive) : List (Text × Value) := ds.filterMap extension?

/-- The payload of the last extension with a name. -/
def extensionValue? (ds : List Directive) (name : Text) : Option Value :=
  (((extensions ds).reverse).find? (·.1 == name)).map (·.2)

end Directive

/-- The name in a key of the form `$name`, where the name consists of letters. -/
def directiveName? (key : Text) : Option Text :=
  match key with
  | [] => none
  | dollar :: name =>
    if dollar == byte '$' && !name.isEmpty && name.all Text.isLetter then some name else none

end DocFilter
