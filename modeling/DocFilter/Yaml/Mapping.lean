import DocFilter.Yaml.Resolve

/-!
What holds for every mapping that is read into something with fixed places for its keys. No key may
occur twice, where keys are compared as they are written. The entry under the mark `<<` brings in
other mappings, whose entries count where there is none of the mapping's own: `parts` lists all of
these mappings in the order in which they are asked.
-/

set_option autoImplicit false

namespace DocFilter.Yaml

/-- How a key is written. -/
inductive KeyLabel where
  | scalar (content : Text)
  | reference (name : Text)
  | sequence
  | mapping
  deriving DecidableEq, Repr

/-- How a node is written as a key. Collections are not told apart. -/
def Node.label : Node → KeyLabel
  | .scalar _ _ _ content => .scalar content
  | .sequence _ _ _ => .sequence
  | .mapping _ _ _ => .mapping
  | .alias _ name _ | .enclosing _ name => .reference name

/-- Whether a label occurs twice. -/
def repeats : List KeyLabel → Bool
  | [] => false
  | l :: rest => rest.contains l || repeats rest

/-- Whether a key of a mapping occurs twice. -/
def repeatsKey (entries : List (Node × Node)) : Bool := repeats (entries.map (·.1.label))

/-- Whether a tag, in its full form or in its short one, is that of the mark for merging. -/
def isMergeTag (tag : Text) : Bool := tag == coreStem ++ "merge" || tag == Text.ofString "!!merge"

/-- Whether a key asks for mappings to be merged in. -/
def isMergeKey : Node → Bool
  | .scalar _ tag style content =>
    content == Text.ofString "<<" &&
      (isMergeTag tag || (style == .plain && (tag.isEmpty || tag == Text.ofString "!")))
  | _ => false

/-- Whether a node is a mapping or refers to one. -/
def Node.isMapping : Node → Bool
  | .mapping _ _ _ => true
  | .alias _ _ target => target.isMapping
  | _ => false

/-- Whether a node can be merged in: a mapping, or a list of mappings that is no reference. -/
def canMerge : Node → Bool
  | .sequence _ _ items => items.all Node.isMapping
  | n => n.isMapping

/-- A part of what a mapping says. -/
inductive Part where
  /-- The entries of the mapping itself, or of one that is merged in. -/
  | entries (es : List (Node × Node))
  /-- A mapping in which a key occurs twice. -/
  | repeated
  /-- Something that cannot be merged in. -/
  | noMapping

/-- Where a node stands that may be a part. -/
inductive PartPlace where
  | whole
  | merged
  | mergedItem
  deriving DecidableEq, Repr

mutual

/-- The parts of a node, those that count first before the others. -/
def Node.parts (place : PartPlace) : Node → List Part
  | .mapping _ _ entries =>
    if repeatsKey entries then [.repeated] else .entries entries :: mergedParts entries
  | .alias _ _ target => target.parts (if place == .whole then .whole else .mergedItem)
  | .sequence _ _ items => if place == .merged then itemParts items else [.noMapping]
  | _ => [.noMapping]

/-- The parts of mappings that are merged in together. -/
def itemParts : List Node → List Part
  | [] => []
  | n :: rest => n.parts .mergedItem ++ itemParts rest

/-- The parts that a mapping with these entries has merged in. -/
def mergedParts : List (Node × Node) → List Part
  | [] => []
  | (k, v) :: rest => if isMergeKey k then v.parts .merged else mergedParts rest

end

/-- The text of a key that has one; fails if the key is not of the type its tag asks for. -/
def keyText? : Node → Option (Option Text)
  | .scalar _ tag style content => do
    match ← scalarValue? tag style content with
    | .null => return none
    | .text t => return some (if CoreType.ofTag? tag == some .binary then t else content)
    | _ => return some content
  | .alias _ _ target => keyText? target
  | _ => some none

end DocFilter.Yaml
