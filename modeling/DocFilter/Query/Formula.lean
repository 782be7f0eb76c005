import DocFilter.Query.Binder
import DocFilter.Query.Directive

/-!
The condition of a statement as a formula over its comparisons. What stands on the right of a
comparison is first a value and then, once the values have been bound from left to right, the
number of a placeholder; a comparison with nothing gets no number.

In a written formula AND binds closer than OR. A disjunction inside a longer conjunction and every
group inside a disjunction stand in parentheses; a conjunction of one part is written as that part.

`ofDirective` is `writePredicate` with the `render` of comparisons and groups, up to the text;
`conjunction` is `writeAnd`, `disjunction` is `writeOr`, `parenthesised` is `group`, and
`identifier` is `Ident`.
-/

set_option autoImplicit false

namespace DocFilter

open Text (byte)

/-- A name between backticks; a backtick inside is doubled. -/
def identifier (name : Text) : Text :=
  byte '\x60' :: name.flatMap (fun b => if b == byte '\x60' then [b, b] else [b]) ++ [byte '\x60']

/-- A formula over comparisons of fields. -/
inductive Formula (α : Type) where
  | compare (field : Text) (op : Comparator) (rhs : α)
  | all (parts : List (Formula α))
  | any (parts : List (Formula α))
  deriving Inhabited

/-- The right side of a written comparison. -/
inductive Operand where
  | null
  | placeholder (n : Nat)
  deriving DecidableEq, Repr, Inhabited

/-- An operand as it is written. -/
def Operand.text : Operand → Text
  | .null => "NULL"
  | .placeholder n => Binder.placeholder n

namespace Formula

mutual

/-- The formula of a directive that is a condition. -/
def ofDirective : Directive → Except QueryError (Formula Value)
  | .comparison op field v =>
    if field.isEmpty then .error .emptyField
    else
      match op with
      | .known c => .ok (.compare field c v)
      | .other name => .error (.unknownOperator name)
  | .logical .and children => do return .all (← ofDirectives children)
  | .logical .or children => do return .any (← ofDirectives children)
  | .logical (.other name) _ => .error (.unsupportedLogical name)
  | .modifier m => .error (.modifierInPredicate m.kind.name)
  | .extension name _ => .error (.extensionInPredicate name)
  | .missing => .error .missingDirective

/-- The formulas of directives, or the first error. -/
def ofDirectives : List Directive → Except QueryError (List (Formula Value))
  | [] => .ok []
  | d :: rest => do
    let f ← ofDirective d
    let fs ← ofDirectives rest
    return f :: fs

end

mutual

/-- Gives the values of a formula their placeholders, from left to right. -/
def bind (b : Binder) : Formula Value → Formula Operand × Binder
  | .compare field op v =>
    if v.kind == .null then (.compare field op .null, b)
    else
      let (n, b') := b.bind v
      (.compare field op (.placeholder n), b')
  | .all parts =>
    let (fs, b') := bindAll b parts
    (.all fs, b')
  | .any parts =>
    let (fs, b') := bindAll b parts
    (.any fs, b')

/-- Gives the values of several formulas their placeholders. -/
def bindAll (b : Binder) : List (Formula Value) → List (Formula Operand) × Binder
  | [] => ([], b)
  | f :: rest =>
    let (f', b') := bind b f
    let (fs, b'') := bindAll b' rest
    (f' :: fs, b'')

end

/-- Text in parentheses. -/
def parenthesised (t : Text) : Text := "(" ++ t ++ ")"

/-- Where a formula stands: on its own, in a conjunction of several parts, or in a disjunction. -/
inductive Place where
  | alone
  | conjunct
  | disjunct
  deriving DecidableEq

mutual

/-- The written form of a formula in its place. -/
def text (place : Place) : Formula Operand → Text
  | .compare field op rhs => identifier field ++ " " ++ op.token ++ " " ++ rhs.text
  | .all parts =>
    if place == .disjunct then parenthesised (conjunction parts) else conjunction parts
  | .any parts =>
    if place == .alone then disjunction parts else parenthesised (disjunction parts)

/-- The written form of a conjunction. -/
def conjunction : List (Formula Operand) → Text
  | [] => "TRUE"
  | [f] => f.text .alone
  | f :: g :: rest => f.text .conjunct ++ conjuncts (g :: rest)

/-- The further parts of a conjunction. -/
def conjuncts : List (Formula Operand) → Text
  | [] => []
  | f :: rest => " AND " ++ f.text .conjunct ++ conjuncts rest

/-- The written form of a disjunction. -/
def disjunction : List (Formula Operand) → Text
  | [] => "FALSE"
  | f :: rest => f.text .disjunct ++ disjuncts rest

/-- The further parts of a disjunction. -/
def disjuncts : List (Formula Operand) → Text
  | [] => []
  | f :: rest => " OR " ++ f.text .disjunct ++ disjuncts rest

end

end Formula
end DocFilter
