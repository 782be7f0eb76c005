import DocFilter.Value.Display

/-!
What can be wrong with a query. Every cause arises while a query is put together or compiled, before
anything is sent to a database.

`QueryError.message` is what `queryErr` and its callers put into words.
-/

set_option autoImplicit false

namespace DocFilter

/-- A fault in a query. -/
inductive QueryError where
  | amountRequired
  | sortFieldsRequired
  | sortOrder
  | limitNotNumeric
  | skipNotNumeric
  /-- A comparison was asked for without a field. -/
  | fieldRequired
  /-- A comparison key stands where there is no field. -/
  | rootComparison (key : Text)
  /-- A comparison has the empty field. -/
  | emptyField
  | orShape
  | sortShape
  | selectShape
  | unknownOperator (name : Text)
  | unknownConsistency (v : Value)
  | unsupportedModifier (name : Text)
  | unsupportedLogical (name : Text)
  | missingDirective
  | modifierInPredicate (name : Text)
  | extensionInPredicate (name : Text)

/-- The words of a query error. -/
def QueryError.message (e : QueryError) : Text :=
  "query: " ++
    match e with
    | .amountRequired => Text.ofString "Amount must be specified"
    | .sortFieldsRequired => "Required to have at least one field to sort"
    | .sortOrder => "Order must be ASC or DESC"
    | .limitNotNumeric => "Limit parameter must be numeric"
    | .skipNotNumeric => "Skip parameter must be numeric"
    | .fieldRequired => "Comparison requires a field"
    | .rootComparison key => "Comparison directive requires a field: " ++ key
    | .emptyField => "Comparison directive requires a field"
    | .orShape => "$or expects a list of objects"
    | .sortShape => "$sort expects an object"
    | .selectShape => "$select expects a list of field names"
    | .unknownOperator name => "Unknown comparison operator: " ++ name
    | .unknownConsistency v => "Unknown consistency " ++ v.display
    | .unsupportedModifier name => "unsupported modifier " ++ name
    | .unsupportedLogical name => "unsupported logical operator " ++ name
    | .missingDirective => "unsupported directive <nil>"
    | .modifierInPredicate name => "modifier " ++ name ++ " cannot appear in a predicate"
    | .extensionInPredicate name => "extension $" ++ name ++ " cannot appear in a predicate"

end DocFilter
