import DocFilter.Value.Encode
import DocFilter.Consistency

/-!
What the library expects of a database: keyed documents on one side, statements with parameters on
the other, and the ways in which either can fail.

These are the contracts `driver.KeyValue` and `driver.Querier`, with the errors that
`ServiceError.Error` puts into words.
-/

set_option autoImplicit false

namespace DocFilter

/-- An error that the query service itself reports. -/
structure ServiceFault where
  status : Text
  code : Int
  message : Text
  deriving DecidableEq, Repr

/-- The words of a fault of the query service. -/
def ServiceFault.text (f : ServiceFault) : Text :=
  "driver: query service " ++ f.status ++ ": [" ++ Text.ofInt f.code ++ "] " ++ f.message

/-- How a database can fail. -/
inductive BackendError where
  | keyNotFound
  | keyExists
  | service (f : ServiceFault)
  /-- The arguments of a statement cannot be written. -/
  | badArguments (cause : EncodeError)
  /-- Anything else, in the words of whoever reported it. -/
  | failure (words : Text)

/-- The words of a database error. -/
def BackendError.message : BackendError → Text
  | .keyNotFound => "driver: key not found"
  | .keyExists => "driver: key already exists"
  | .service f => f.text
  | .badArguments cause => "driver: encode query request: " ++ cause.message
  | .failure words => words

/-- A statement on its way to the database. -/
structure Call where
  statement : Text
  args : List Value
  consistency : Consistency

/-- What the database says about the work it did. -/
structure Metrics where
  resultCount : Int := 0
  resultSize : Int := 0
  elapsedTime : Text := []
  executionTime : Text := []

/-- The rows that answer a statement. A row may be missing. -/
structure QueryResult where
  rows : List (Option Row)
  metrics : Metrics

end DocFilter
