import DocFilter.Backend
import DocFilter.Program
import DocFilter.Query.Formula
import DocFilter.Text.Blank

/-!
Secondary indexes. A definition names the index, the collection, the fields and, if documents of
several types share the collection, the type it is restricted to. It is taken either from a list of
fields or from a record type whose fields carry tags such as `volume,index`.

Creating an index that is there already counts as success, so that it can be done on every start.

`ofFields` is `FieldsStatement` and `ofModel` is `BuildIndexStatement`; both end in `define`, the
checks of `buildStatement`, and `Definition.text` is its text. `taggedFields` is `IndexedFields`,
`inferredType` is `inferType`, `underscored` is `snake`; `create` is `Exec` and `send` is `run`.
-/

set_option autoImplicit false

namespace DocFilter

open Text (byte)

/-- Why an index cannot be defined or created. -/
inductive IndexError where
  | noTaggedFields (type : Text)
  | fieldsRequired
  | bucketRequired
  | nameRequired
  | primaryFailed (cause : BackendError)
  | createFailed (cause : BackendError)

/-- The words of the error. -/
def IndexError.message : IndexError → Text
  | .noTaggedFields type => "index: " ++ type ++ " has no fields tagged for indexing"
  | .fieldsRequired => "index: at least one field is required"
  | .bucketRequired => "index: bucket is required"
  | .nameRequired => "index: index name is required"
  | .primaryFailed cause => "index: primary index failed: " ++ cause.message
  | .createFailed cause => "index: create failed: " ++ cause.message

namespace Index

/-- What can be said about an index beside its fields. -/
structure Options where
  name : Text := []
  documentType : Text := []
  primary : Bool := false

/-- A record type as far as indexes are concerned: how messages show it, its own name, and the tags
of its fields. -/
structure Model where
  shown : Text
  typeName : Text
  tags : List Text

/-- The definition of an index. -/
structure Definition where
  name : Text
  bucket : Text
  fields : List Text
  documentType : Text

/-- The restriction of an index to the documents of a type, if there is one. -/
def restriction (documentType : Text) : Text :=
  if documentType.isEmpty then []
  else " WHERE " ++ identifier "_type" ++ " = " ++ Text.quoted documentType

/-- The statement that creates an index. -/
def Definition.text (d : Definition) : Text :=
  "CREATE INDEX " ++ identifier d.name ++ " ON " ++ identifier d.bucket ++
    "(" ++ Text.join "," (d.fields.map identifier) ++ ")" ++
    restriction d.documentType

/-- The statement that creates the primary index of a collection. -/
def primaryText (bucket : Text) : Text := "CREATE PRIMARY INDEX ON " ++ identifier bucket

/-- The name of a field as often as its tag says that it is indexed. -/
def taggedNames (tag : Text) : List Text :=
  if tag.isEmpty || tag == Text.ofString "-" then []
  else
    match Text.splitOn (byte ',') tag with
    | [] => []
    | name :: flags =>
      (flags.filter fun flag => Text.eqIgnoringCase (Text.trim flag) "index").map fun _ => name

/-- The indexed fields of a record type, in order and without repetition. -/
def taggedFields (m : Model) : List Text := Text.unique (m.tags.flatMap taggedNames)

/-- Puts an underscore before every capital letter A to Z that is not the first byte. -/
def underscored : (first : Bool) → List Char → Text
  | _, [] => []
  | first, c :: rest =>
    let mark : Text := if !first && 'A' ≤ c && c ≤ 'Z' then [byte '_'] else []
    mark ++ Text.ofChar c ++ underscored false rest

/-- The document type that goes with the name of a record type: words joined by underscores. -/
def inferredType (typeName : Text) : Text :=
  let cs := (Text.pieces typeName).map fun
    | .char c => c
    | .stray _ => Text.replacement
  Text.toLower (underscored true cs)

/-- An index is named after its document type if it has no name. -/
def Options.named (o : Options) : Options :=
  if o.name.isEmpty && !o.documentType.isEmpty then { o with name := o.documentType ++ "_idx" } else o

/-- A definition whose parts are there. -/
def define (bucket : Text) (fields : List Text) (o : Options) : Except IndexError Definition :=
  if bucket.isEmpty then .error .bucketRequired
  else if o.name.isEmpty then .error .nameRequired
  else .ok ⟨o.name, bucket, fields, o.documentType⟩

/-- The index on a list of fields; repeated fields count once. -/
def ofFields (bucket : Text) (fields : List Text) (o : Options) : Except IndexError Definition :=
  if fields.isEmpty then .error .fieldsRequired
  else define bucket (Text.unique fields) o.named

/-- The index on the tagged fields of a record type; `options` is given the inferred document type
and may change it. -/
def ofModel (bucket : Text) (m : Model) (options : Options → Options) : Except IndexError Definition :=
  let fields := taggedFields m
  if fields.isEmpty then .error (.noTaggedFields m.shown)
  else define bucket fields (options { documentType := inferredType m.typeName }).named

/-- Whether an error says that an index is there already. -/
def isDuplicate (e : BackendError) : Bool :=
  Text.hasInfix "already exists" (Text.toLower e.message)

/-- Programs that send statements to a database. -/
abbrev Task := Program Call fun _ => Except BackendError QueryResult

/-- Sends a statement; an index that is there already is no error. -/
def send (statement : Text) : Task (Except BackendError Unit) := do
  match ← Program.perform (⟨statement, [], []⟩ : Call) with
  | .ok _ => return .ok ()
  | .error e => return if isDuplicate e then .ok () else .error e

/-- Creates the primary index, if asked for, and then the index of a statement. -/
def create (bucket statement : Text) (primary : Bool) : Task (Except IndexError Unit) := do
  let first ← if primary then send (primaryText bucket) else pure (.ok ())
  match first with
  | .error e => return .error (.primaryFailed e)
  | .ok () =>
    match ← send statement with
    | .error e => return .error (.createFailed e)
    | .ok () => return .ok ()

end Index
end DocFilter
