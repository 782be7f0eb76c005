import DocFilter.Program
import DocFilter.Query.Builder
import DocFilter.Rows.Record
import DocFilter.Store

/-!
A service manages the documents of one type. Single documents are read and written through a keyed
store, filters run as statements. The type is stamped into every document the service writes and
demanded of every document a filter finds, and the key of a document begins with it.

The operations are programs: what they ask of the store, the database, the log and the source of new
ids is visible in them step by step.

`setUp` is `repository.New`; `key`, `get`, `create`, `patch`, `update` and `remove` are the methods
`Key`, `Get`, `Create`, `Patch`, `Update` and `Remove`, `identify` with `idText` is `id`, and
`ServiceError.ofBackend` is `mapErr`.
-/

set_option autoImplicit false

namespace DocFilter

/-- How results are cut into pages: the size when none is asked for, and the largest size; a size
that is not positive turns the rule off. -/
structure Paginate where
  default : Int := 0
  max : Int := 0
  deriving DecidableEq, Repr

/-- How severe an entry of the log is. -/
inductive LogLevel where
  | debug
  | info
  | error
  deriving DecidableEq, Repr

/-- An entry of the log. -/
structure LogEntry where
  level : LogLevel
  message : Text
  attributes : List (Text × Text)

/-- The entry as characters: a byte that belongs to none is kept as the replacement character. -/
def LogEntry.legible (entry : LogEntry) : LogEntry :=
  { entry with attributes := entry.attributes.map fun a => (a.1, Text.repaired a.2) }

/-- Why a service cannot be set up. -/
inductive SetupError where
  | bucketRequired
  | nameRequired
  | storeRequired
  | querierRequired
  deriving DecidableEq, Repr

/-- The words of the error. -/
def SetupError.message : SetupError → Text
  | .bucketRequired => "repository: bucket name is required"
  | .nameRequired => "repository: service name is required"
  | .storeRequired => "repository: key-value store is required"
  | .querierRequired => "repository: querier is required"

/-- A request that makes no sense. -/
inductive BadRequest where
  | noData
  | encode (cause : Row.StorageError)
  | query (cause : QueryError)

/-- The words of the request error. -/
def BadRequest.message : BadRequest → Text
  | .noData => "no data passed to create"
  | .encode cause => cause.message
  | .query cause => cause.message

/-- How an operation of a service can fail. -/
inductive ServiceError where
  | notFound (cause : BackendError)
  | conflict (cause : BackendError)
  | badRequest (cause : BadRequest)
  /-- The stored document cannot be read. -/
  | unreadable (cause : Row.StorageError)
  /-- The stored document is none, so nothing can be put into it. -/
  | noDocument
  /-- The database failed in some other way. -/
  | backend (cause : BackendError)
  /-- The rows that were found do not fit into the records that were asked for. -/
  | decode (cause : DecodeError)

/-- The words of the error. -/
def ServiceError.message : ServiceError → Text
  | .notFound cause => "repository: does not exist: " ++ cause.message
  | .conflict cause => "repository: already exists: " ++ cause.message
  | .badRequest cause => "repository: bad request: " ++ cause.message
  | .unreadable cause => cause.message
  | .noDocument => "assignment to entry in nil map"
  | .backend cause => cause.message
  | .decode cause => cause.message

/-- What a service is to do with an error of the database. -/
def ServiceError.ofBackend : BackendError → ServiceError
  | .keyNotFound => .notFound .keyNotFound
  | .keyExists => .conflict .keyExists
  | e => .backend e

/-- What a service asks of the outside. -/
inductive Effect where
  | get (key : Text)
  | insert (key raw : Text)
  | replace (key raw : Text)
  | remove (key : Text)
  | query (call : Call)
  | log (entry : LogEntry)
  | freshId

/-- The answers to what a service asks. -/
def Effect.Answer : Effect → Type
  | .get _ => Except BackendError Text
  | .insert _ _ => Except BackendError Unit
  | .replace _ _ => Except BackendError Unit
  | .remove _ => Except BackendError Unit
  | .query _ => Except BackendError QueryResult
  | .log _ => Unit
  | .freshId => Text

/-- A program of a service. -/
abbrev ServiceTask := Program Effect Effect.Answer

/-- The program that asks one thing. -/
def Effect.ask (e : Effect) : ServiceTask e.Answer := Program.perform e

/-- A program of a service that may fail. -/
abbrev ServiceResult (α : Type) := ExceptT ServiceError ServiceTask α

/-- A service for the documents of one type. -/
structure Service where
  bucket : Text
  name : Text
  idField : Text
  separator : Text
  paginate : Paginate
  deriving Repr

namespace Service

/-- Sets up a service. The id field is `uuid` and the separator is two colons unless said
otherwise. -/
def setUp (bucket name idField separator : Text) (hasStore hasQuerier : Bool) (paginate : Paginate) :
    Except SetupError Service :=
  if bucket.isEmpty then .error .bucketRequired
  else if name.isEmpty then .error .nameRequired
  else if !hasStore then .error .storeRequired
  else if !hasQuerier then .error .querierRequired
  else
    .ok {
      bucket, name, paginate
      idField := if idField.isEmpty then "uuid" else idField
      separator := if separator.isEmpty then "::" else separator }

/-- The field that holds the type of a document. -/
def typeField : Text := "_type"

/-- The key of the document with an id. -/
def key (s : Service) (id : Text) : Text := s.name ++ s.separator ++ id

/-- Asks something that may fail. -/
def tryTo {α : Type} (task : ServiceTask (Except BackendError α)) : ServiceResult α :=
  ExceptT.mk do return (← task).mapError ServiceError.ofBackend

/-- Writes to the log; every entry names the service. -/
def log (s : Service) (level : LogLevel) (message : Text) (attributes : List (Text × Text)) :
    ServiceTask Unit :=
  Effect.ask (.log ⟨level, message, (Text.ofString "service", s.name) :: attributes⟩)

/-! ## Single documents -/

/-- Reads a document. It may be stored as nothing. -/
def get (s : Service) (id : Text) : ServiceResult (Option Row) := do
  let raw ← tryTo (Effect.ask (.get (s.key id)))
  match Row.decode raw with
  | .ok row => return row
  | .error e => throw (.unreadable e)

/-- The text of a value as an id; a value without one has the empty id. -/
def idText (v : Value) : Text :=
  match v.toText with
  | .ok t => t
  | .error _ => []

/-- The id of a new document, with the document. One that has none is given a fresh one. -/
def identify (s : Service) (doc : Row) : ServiceTask (Text × Row) :=
  match doc.get? s.idField with
  | some .null | none => do
    let id : Text ← Effect.ask .freshId
    return (id, doc.set s.idField (.text id))
  | some v => return (idText v, doc)

/-- Writes a document for storage. -/
def encode (doc : Row) : ServiceResult Text :=
  match Row.encode (some doc) with
  | .ok raw => return raw
  | .error e => throw (.badRequest (.encode e))

/-- Stores a new document and returns it as it was stored. -/
def create (s : Service) (data : Option Row) : ServiceResult (Option Row) := do
  match data with
  | none => throw (.badRequest .noData)
  | some data =>
    let (id, doc) ← s.identify (data.set typeField (.text s.name))
    let raw ← encode doc
    tryTo (Effect.ask (.insert (s.key id) raw))
    s.log .info "created" [("id", id)]
    s.get id

/-- Puts the given fields into a stored document and returns it as it was stored. -/
def patch (s : Service) (id : Text) (data : Option Row) : ServiceResult (Option Row) := do
  match ← s.get id with
  | none => throw .noDocument
  | some doc =>
    let data := data.getD []
    let raw ← encode ((doc.merge data).set typeField (.text s.name))
    tryTo (Effect.ask (.replace (s.key id) raw))
    s.log .info "patched" [("id", id), ("fields", Text.ofNat data.length)]
    s.get id

/-- Updates a stored document: the given fields are put into it, and the others stay. -/
def update (s : Service) (id : Text) (data : Option Row) : ServiceResult (Option Row) := s.patch id data

/-- Removes a document and returns what was stored. -/
def remove (s : Service) (id : Text) : ServiceResult (Option Row) := do
  let doc ← s.get id
  tryTo (Effect.ask (.remove (s.key id)))
  s.log .info "removed" [("id", id)]
  return doc

end Service
end DocFilter
