import DocFilter.Yaml.Mapping

/-!
Mappings of a YAML text as tables. Unlike in a document no key may occur twice, and the entries of a
mapping that is merged in count where there is no entry of their own.
-/

set_option autoImplicit false

namespace DocFilter.Yaml

/-- Sets the value of a key. -/
def setEntry (entries : List (Text × Value)) (key : Text) (v : Value) : List (Text × Value) :=
  if (entries.lookup key).isSome then entries.map fun e => if e.1 == key then (key, v) else e
  else entries ++ [(key, v)]

/-- Adds the entries whose keys are not there yet. -/
def addMissing (entries more : List (Text × Value)) : List (Text × Value) :=
  more.foldl (fun es (k, v) => if (es.lookup k).isSome then es else es ++ [(k, v)]) entries

/-- The entries that a value brings in when it is merged: a table, or several of which the first
counts most. -/
def mergedEntries? : Value → Option (List (Text × Value))
  | .table _ es => some es
  | .list _ items =>
    items.foldlM (fun es v =>
      match v with
      | .table _ more => some (addMissing es more)
      | _ => none) []
  | _ => none

/-- Whether a node is a collection or refers to one. -/
def Node.isCollection : Node → Bool
  | .scalar _ _ _ _ => false
  | .alias _ _ target => target.isCollection
  | _ => true

mutual

/-- The value of a node, with tables for mappings. -/
def tableValue? : Node → Option Value
  | .scalar _ tag style content => scalarValue? tag style content
  | .sequence _ _ items => (tableValues? items).map (.list .any)
  | .mapping _ _ entries =>
    if repeatsKey entries then none else (tableEntries? entries [] []).map (.table .any)
  | .alias _ _ target => tableValue? target
  | .enclosing _ _ => none

/-- The values of nodes. -/
def tableValues? : List Node → Option (List Value)
  | [] => some []
  | n :: rest => do
    let v ← tableValue? n
    return v :: (← tableValues? rest)

/-- The entries of a mapping, after those of its own and those merged in so far. -/
def tableEntries? : List (Node × Node) → (own merged : List (Text × Value)) →
    Option (List (Text × Value))
  | [], own, merged => some (addMissing own merged)
  | (k, n) :: rest, own, merged => do
    let v ← tableValue? n
    if isMergeKey k then
      if canMerge n then tableEntries? rest own (addMissing merged (← mergedEntries? v)) else none
    else if k.isCollection then none
    else
      match ← keyText? k with
      | some key => tableEntries? rest (setEntry own key v) merged
      | none => tableEntries? rest own merged

end

/-- The table of a YAML text; a text with nothing in it has no entries. -/
def readTable? (t : Text) : Option (List (Text × Value)) := do
  match ← parse? t with
  | none => return []
  | some n =>
    match ← tableValue? n with
    | .table _ entries => return entries
    | .null => return []
    | _ => none

end DocFilter.Yaml
