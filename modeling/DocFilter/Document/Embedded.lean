import DocFilter.Document.Source
import DocFilter.Json.Raw
import DocFilter.Yaml.Table

/-!
A filter inside a larger document: the value of its member `filter`. In JSON the raw text of the
value is cut out and read like a filter of its own, so the lenient notation holds there; the text
around it has to be proper. In YAML the value is a part of the tree already.

`ofJson` is `UnmarshalJSON` and `ofYaml` is `UnmarshalYAML`, each reached from the struct around the
document.
-/

set_option autoImplicit false

namespace DocFilter

open Text (byte)

namespace Embedded

/-- The key of the member that holds the filter. -/
def key : Text := "filter"

/-- Why there is no embedded filter. -/
inductive EmbedError where
  /-- The JSON text around the filter is malformed. -/
  | malformed
  | source (e : SourceError)
  | yaml (e : Yaml.ReadError)
  | notMapping (kind : Kind)
  /-- A key of the outer mapping, by the name of its type, that cannot be compared with those of a
  mapping merged in. -/
  | incomparable (type : Text)
  deriving DecidableEq, Repr

/-- The words of an embedding error. -/
def EmbedError.message : EmbedError → Text
  | .malformed => "json: malformed document"
  | .source e => e.message
  | .yaml e => e.message
  | .notMapping kind => "query: expected mapping, got " ++ kind.name
  | .incomparable type => "runtime error: hash of unhashable type " ++ type

/-! ## In JSON -/

/-- The filter of the last member that holds one; the first that cannot be read decides. -/
def readMembers : (found : Document) → List (Text × Text) → Except EmbedError Document
  | found, [] => .ok found
  | found, (name, raw) :: rest =>
    if Text.eqIgnoringCase name key then
      match Document.parse raw with
      | .ok d => readMembers d rest
      | .error e => .error (.source e)
    else readMembers found rest

/-- The filter in a JSON text; a text without one has the empty filter. A filter that cannot be read
is reported before a fault in the text after it. -/
def ofJson (t : Text) : Except EmbedError Document :=
  if Json.Raw.isNull t then .ok []
  else
    let found := Json.Raw.members t
    match readMembers [] found.items with
    | .ok d => if found.proper then .ok d else .error .malformed
    | .error e => .error e

/-! ## In YAML -/

/-- The filter that a node describes. -/
def describedBy (n : Yaml.Node) : Except EmbedError Document :=
  match n.toValue with
  | .error e => .error (.yaml e)
  | .ok .null => .ok []
  | .ok (.doc fields) => .ok fields
  | .ok v => .error (.notMapping v.kind)

/-- Whether a node is nothing. -/
def isNull : Yaml.Node → Bool
  | .scalar _ tag style content => (Yaml.scalarValue? tag style content matches some .null)
  | .alias _ _ target => isNull target
  | _ => false

/-- The filter that a value of the member stands for. A collection that a tag declares to be nothing
has no fields, and must not have anything in it that could be one. -/
def ofNode : Yaml.Node → Except EmbedError Document
  | .alias _ _ target => ofNode target
  | .sequence l tag items =>
    if Yaml.CoreType.ofTag? tag == some .null then
      if items.all isNull then .ok [] else .error (.yaml .malformed)
    else describedBy (.sequence l tag items)
  | .mapping l tag entries =>
    if Yaml.CoreType.ofTag? tag == some .null then .error (.yaml .malformed)
    else describedBy (.mapping l tag entries)
  | n => describedBy n

/-- How far the reading of the outer mapping has come. -/
structure Progress where
  filter : Document
  /-- Whether the member was found, so that none that is merged in counts. -/
  found : Bool
  /-- Whether the whole is malformed, which is reported in the end. -/
  faulty : Bool

/-- Walks the entries of the outer mapping, or of one that is merged in. A second member `filter` or a
collection as a key makes the whole malformed, but an error inside the filter comes first. -/
def readEntries (merged : Bool) : Progress → List (Yaml.Node × Yaml.Node) → Except EmbedError Progress
  | p, [] => .ok p
  | p, (k, v) :: rest =>
    if Yaml.isMergeKey k then readEntries merged p rest
    else
      let p := { p with faulty := p.faulty || k.isCollection }
      match Yaml.keyText? k with
      | none => .error (.yaml .malformed)
      | some name =>
        if name != some key then readEntries merged p rest
        else if p.found then readEntries merged { p with faulty := p.faulty || !merged } rest
        else
          match ofNode v with
          | .ok d => readEntries merged { p with filter := d, found := true } rest
          | .error e => .error e

/-- Whether a key of a mapping is plainly a text. -/
def isTextKey : Yaml.Node → Bool
  | .scalar l tag style content =>
    Yaml.isMergeKey (.scalar l tag style content) || Yaml.CoreType.ofTag? tag == some .str ||
      ((tag.isEmpty || tag == Text.ofString "!") &&
        match Yaml.scalarValue? tag style content with
        | some (.text _) => true
        | _ => false)
  | .alias _ _ target => isTextKey target
  | _ => false

/-- The name of the type of a collection. -/
def collectionType : Yaml.Node → Text
  | .mapping _ _ entries =>
    if entries.all fun (k, _) => isTextKey k then "map[string]interface \x7b\x7d"
    else "map[interface \x7b\x7d]interface \x7b\x7d"
  | .alias _ _ target => collectionType target
  | _ => "[]interface \x7b\x7d"

/-- Before anything is merged in, the keys of the outer mapping are noted, which collections cannot
be. -/
def noteKeys : List (Yaml.Node × Yaml.Node) → Except EmbedError Unit
  | [] => .ok ()
  | (k, _) :: rest =>
    if k.isCollection then
      match Yaml.tableValue? k with
      | some _ => .error (.incomparable (collectionType k))
      | none => .error (.yaml .malformed)
    else noteKeys rest

/-- Walks the mappings that are merged in. -/
def readMerged : Progress → List Yaml.Part → Except EmbedError Progress
  | p, [] => .ok p
  | p, .entries es :: rest => do readMerged (← readEntries true p es) rest
  | p, .repeated :: rest => readMerged { p with faulty := true } rest
  | _, .noMapping :: _ => .error (.yaml .malformed)

/-- The filter in the parts of the outer mapping. -/
def readParts : List Yaml.Part → Except EmbedError Document
  | .entries es :: merged => do
    let p ← readEntries false ⟨[], false, false⟩ es
    if es.any fun (k, _) => Yaml.isMergeKey k then noteKeys es
    let p ← readMerged p merged
    if p.faulty then .error (.yaml .malformed) else return p.filter
  | _ => .error (.yaml .malformed)

/-- The filter under the root of a YAML text. -/
def ofRootNode (n : Yaml.Node) : Except EmbedError Document :=
  match n with
  | .scalar _ tag style content =>
    match Yaml.scalarValue? tag style content with
    | some .null => .ok []
    | _ => .error (.yaml .malformed)
  | n => readParts (n.parts .whole)

/-- The filter in a YAML text; a text without one has the empty filter. -/
def ofYaml (t : Text) : Except EmbedError Document :=
  match Yaml.parse? t with
  | none => .error (.yaml .malformed)
  | some none => .ok []
  | some (some n) => ofRootNode n

end Embedded
end DocFilter
