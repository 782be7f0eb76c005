import DocFilter.Clamp
import DocFilter.Service

/-!
Finding documents. A search starts from a filter, is narrowed or changed by options, and is
restricted to the type of the service. The window of results is known before anything is sent, and
a page reports the window it was found with.

`find` is `Find` and `findAs` is `FindAs`; a `FindOption` is one of `Select`, `Limit`, `Skip`,
`SortAsc`, `SortDesc`, `Where`, `WithConsistency` and `WithPaginate`, and `apply` is the `apply` of
each.
-/

set_option autoImplicit false

namespace DocFilter

/-- A change to one search. -/
inductive FindOption where
  | select (fields : List Text)
  | limit (n : Int)
  | skip (n : Int)
  | ascending (field : Text)
  | descending (field : Text)
  | compare (field : Text) (op : CompareOp) (v : Value)
  | consistency (c : Consistency)
  | paginate (p : Paginate)

/-- A search: its query and its rule for pages. -/
structure Search where
  builder : Builder
  paginate : Paginate

/-- A search that is ready to be sent. -/
structure SearchPlan where
  builder : Builder
  statement : Statement
  limit : Nat
  skip : Nat

/-- A page of results. The total is what the database reports. -/
structure Page where
  total : Int
  limit : Nat
  skip : Nat
  data : List (Option Row)

namespace Search

/-- Applies an option. -/
def apply (s : Search) : FindOption → Search
  | .select fields => { s with builder := s.builder.select fields }
  | .limit n => { s with builder := s.builder.limit (.int .int n) }
  | .skip n => { s with builder := s.builder.skip (.int .int n) }
  | .ascending field => { s with builder := s.builder.sort [field] "ASC" }
  | .descending field => { s with builder := s.builder.sort [field] "DESC" }
  | .compare field op v => { s with builder := s.builder.compare field op v }
  | .consistency c => { s with builder := s.builder.withConsistency c }
  | .paginate p => { s with paginate := p }

/-- The search for a filter within a service: the filter's own demand on the type, if it has one,
is overwritten. -/
def start (s : Service) (filter : Document) : Search where
  builder := (({ scope := s.bucket } : Builder).interpret
    (filter.set Service.typeField (.text s.name))).connected
  paginate := s.paginate

/-- The limit that the rule for pages gives, if it is on. -/
def pageLimit? (p : Paginate) (requested : Option Nat) : Option Nat :=
  if 0 < p.default then
    let limit := requested.getD p.default.toNat
    some (clamp (fun a b => a < b) limit 0 (if 0 < p.max then p.max.toNat else maxAmount))
  else none

/-- Gets a search ready: fixes its window and compiles it. -/
def plan (s : Search) : Except QueryError SearchPlan := do
  let w ← s.builder.window
  match pageLimit? s.paginate w.limit with
  | some limit =>
    let builder := s.builder.limit (.int .int64 limit)
    return ⟨builder, ← builder.build id, limit, w.skip⟩
  | none => return ⟨s.builder, ← s.builder.build id, w.limit.getD 0, w.skip⟩

end Search

namespace Service

/-- Why a search that was ready failed. -/
inductive SearchFailure where
  | notSent (cause : QueryError)
  | backend (cause : BackendError)

/-- The words of the failure. -/
def SearchFailure.message : SearchFailure → Text
  | .notSent cause => cause.message
  | .backend cause => cause.message

/-- What a service makes of a failed search. -/
def SearchFailure.toError : SearchFailure → ServiceError
  | .notSent cause => .badRequest (.query cause)
  | .backend cause => .ofBackend cause

/-- Sends a search to the database. -/
def send (plan : SearchPlan) : ServiceTask (Except SearchFailure QueryResult) :=
  match plan.builder.consistencyLevel with
  | .error e => return .error (.notSent e)
  | .ok c => do
    let r : Except BackendError QueryResult ←
      Effect.ask (.query ⟨plan.statement.text, plan.statement.params, c⟩)
    return r.mapError .backend

/-- Finds the documents that match a filter. -/
def find (s : Service) (filter : Document) (options : List FindOption) : ServiceResult Page := do
  match (options.foldl Search.apply (Search.start s filter)).plan with
  | .error e => throw (.badRequest (.query e))
  | .ok plan =>
    let text := plan.statement.text
    s.log .debug "find"
      [("statement", text), ("params", Text.ofNat plan.statement.params.length)]
    match ← send plan with
    | .error e =>
      s.log .error "find failed" [("statement", text), ("err", e.message)]
      throw e.toError
    | .ok result =>
      let selected := plan.builder.selected
      let rows := if selected.isEmpty then result.rows else Row.stripAll selected result.rows
      return ⟨result.metrics.resultCount, plan.limit, plan.skip, rows⟩

/-- Finds the documents that match a filter, as records. -/
def findAs (s : Service) (target : Target) (filter : Document) (options : List FindOption) :
    ServiceResult Decoded := do
  let page ← s.find filter options
  match decodeRows target page.data with
  | .ok d => return d
  | .error e => throw (.decode e)

end Service
end DocFilter
