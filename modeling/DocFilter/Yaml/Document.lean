import DocFilter.Yaml.Resolve

/-!
The document of a YAML text. Mappings become documents with their keys in order: a key is the text
of its scalar, whatever that would mean as a value, and nothing is merged or dropped.

`Yaml.read` is `decodeYAML`, and `Node.toValue` is `yamlValue`.
-/

set_option autoImplicit false

namespace DocFilter.Yaml

/-- Why a YAML text has no value. -/
inductive ReadError where
  /-- The text is malformed, or a scalar is not of the type its tag asks for. -/
  | malformed
  /-- A key that is no scalar, with its line. -/
  | keyNotScalar (line : Nat)
  deriving DecidableEq, Repr

/-- The words of a reading error. Lines are counted from one. -/
def ReadError.message : ReadError → Text
  | .malformed => "yaml: malformed document"
  | .keyNotScalar line => "line " ++ Text.ofNat (line + 1) ++ ": mapping key must be a scalar"

/-- The text of a key. -/
def keyText : Node → Except ReadError Text
  | .scalar _ _ _ content => .ok content
  | other => .error (.keyNotScalar other.line)

mutual

/-- The value of a node. -/
def Node.toValue : Node → Except ReadError Value
  | .scalar _ tag style content =>
    match scalarValue? tag style content with
    | some v => .ok v
    | none => .error .malformed
  | .sequence _ _ items => do return .list .any (← nodeValues items)
  | .mapping _ _ entries => do return .doc (← nodeFields entries)
  | .alias _ _ target => target.toValue
  | .enclosing _ _ => .error .malformed

/-- The values of nodes. -/
def nodeValues : List Node → Except ReadError (List Value)
  | [] => .ok []
  | n :: rest => do
    let v ← n.toValue
    return v :: (← nodeValues rest)

/-- The fields of the entries of a mapping. -/
def nodeFields : List (Node × Node) → Except ReadError (List (Text × Value))
  | [] => .ok []
  | (k, n) :: rest => do
    let key ← keyText k
    let v ← n.toValue
    return (key, v) :: (← nodeFields rest)

end

/-- The value of the first document of a text; a text without one has the value null. -/
def read (t : Text) : Except ReadError Value :=
  match parse? t with
  | none => .error .malformed
  | some none => .ok .null
  | some (some n) => n.toValue

end DocFilter.Yaml
