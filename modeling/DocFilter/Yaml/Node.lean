import DocFilter.Yaml.Token

/-!
The tree that the tokens of a YAML text describe. Only the first document of a text is read. A node
that refers back to an anchored node holds that node, so the tree needs no look-ups afterwards.
-/

set_option autoImplicit false

namespace DocFilter.Yaml

/-- A node, with the line on which it begins. -/
inductive Node where
  /-- A scalar; the tag of a node is empty where none is given, and `!` asks for none. -/
  | scalar (line : Nat) (tag : Text) (style : Style) (content : Text)
  | sequence (line : Nat) (tag : Text) (items : List Node)
  | mapping (line : Nat) (tag : Text) (entries : List (Node × Node))
  /-- A reference, by a name, to a node that occurred before. -/
  | alias (line : Nat) (name : Text) (target : Node)
  /-- A reference, by a name, to a node that it is a part of. -/
  | enclosing (line : Nat) (name : Text)
  deriving Repr

namespace Node

/-- The line on which a node begins, counted from zero. -/
def line : Node → Nat
  | .scalar n _ _ _ => n
  | .sequence n _ _ => n
  | .mapping n _ _ => n
  | .alias n _ _ => n
  | .enclosing n _ => n

/-- A scalar that is not there. -/
def absent (line : Nat) : Node := .scalar line [] .plain []

end Node

/-- What is left to read, and what was declared so far. -/
structure Source where
  tokens : List Token
  /-- Whether the text is malformed after the tokens. -/
  broken : Bool
  /-- The stems of the tag handles. -/
  stems : List (Text × Text)
  /-- The anchored nodes, the latest first; a node that is still being read is not known yet. -/
  anchors : List (Text × Option Node)

namespace Source

/-- The next token. -/
def peek (s : Source) : Option Token :=
  match s.tokens with
  | t :: _ => some t
  | [] => if s.broken then none else some ⟨.streamEnd, 0⟩

/-- Everything after the next token. -/
def skip (s : Source) : Source := { s with tokens := s.tokens.drop 1 }

/-- The full form of a tag. -/
def expand? (s : Source) (name : TagName) : Option Text :=
  if name.handle.isEmpty then some name.suffix
  else (s.stems.lookup name.handle).map (· ++ name.suffix)

end Source

/-- What stands before a node: the line on which it begins, and its anchor and tag. -/
structure Properties where
  line : Nat
  anchor : Option Text
  tag : Option Text

/-- Reads an anchor and a tag, in either order, each at most once. -/
def readProperties (s : Source) : Option (Properties × Source) := do
  let first ← s.peek
  match first.kind with
  | .anchor a =>
    let s := s.skip
    match (← s.peek).kind with
    | .tag n => return (⟨first.line, some a, some (← s.expand? n)⟩, s.skip)
    | _ => return (⟨first.line, some a, none⟩, s)
  | .tag n =>
    let s := s.skip
    match (← s.peek).kind with
    | .anchor a => return (⟨first.line, some a, some (← s.expand? n)⟩, s.skip)
    | _ => return (⟨first.line, none, some (← s.expand? n)⟩, s)
  | _ => return (⟨first.line, none, none⟩, s)

/-- Announces the anchor of a node that is going to be read. -/
def Source.announce (s : Source) (anchor : Option Text) : Source :=
  match anchor with
  | some a => { s with anchors := (a, none) :: s.anchors }
  | none => s

/-- Fills in a node whose anchor was announced after those `before`. The anchors of its own children
count as later than it. -/
def Source.remember (s : Source) (before : List (Text × Option Node)) (anchor : Option Text)
    (n : Node) : Source :=
  match anchor with
  | some a =>
    let later := s.anchors.take (s.anchors.length - before.length - 1)
    { s with anchors := later ++ (a, some n) :: before }
  | none => s

/-- Where a node stands. -/
inductive Place where
  /-- Inside flow brackets. -/
  | flow
  /-- In a block sequence or at the root. -/
  | block
  /-- In a block mapping, where the items of a sequence need not be indented. -/
  | blockValue
  deriving DecidableEq, Repr

/-- Whether one of the tokens follows. -/
def Token.isOneOf (t : Token) (kinds : List TokenKind) : Bool := kinds.contains t.kind

mutual

/-- Reads a node. Every step down or along takes fuel, and none is taken twice for one token, so a
few times the number of tokens is enough. -/
def readNode : (fuel : Nat) → Place → Source → Option (Node × Source)
  | 0, _, _ => none
  | fuel + 1, place, s => do
    let t ← s.peek
    match t.kind with
    | .alias name =>
      match ← s.anchors.lookup name with
      | some target => return (.alias t.line name target, s.skip)
      | none => return (.enclosing t.line name, s.skip)
    | _ =>
      let (p, s) ← readProperties s
      let t ← s.peek
      let before := s.anchors
      let s := s.announce p.anchor
      let done (n : Node) (s : Source) : Option (Node × Source) :=
        some (n, s.remember before p.anchor n)
      match t.kind with
      | .scalar style content => done (.scalar p.line (p.tag.getD []) style content) s.skip
      | .flowSequenceStart =>
        let (items, s) ← readFlowItems fuel true s.skip
        done (.sequence p.line (p.tag.getD []) items) s
      | .flowMappingStart =>
        let (entries, s) ← readFlowEntries fuel true s.skip
        done (.mapping p.line (p.tag.getD []) entries) s
      | kind =>
        if kind == .blockEntry && place == .blockValue then
          let (items, s) ← readBareItems fuel s
          done (.sequence p.line (p.tag.getD []) items) s
        else if kind == .blockSequenceStart && place != .flow then
          let (items, s) ← readBlockItems fuel s.skip
          done (.sequence p.line (p.tag.getD []) items) s
        else if kind == .blockMappingStart && place != .flow then
          let (entries, s) ← readBlockEntries fuel s.skip
          done (.mapping p.line (p.tag.getD []) entries) s
        else if p.anchor.isSome || p.tag.any (!·.isEmpty) then
          done (.scalar p.line (p.tag.getD []) .plain []) s
        else none

/-- Reads the items of a block sequence and its end. -/
def readBlockItems : (fuel : Nat) → Source → Option (List Node × Source)
  | 0, _ => none
  | fuel + 1, s => do
    let t ← s.peek
    match t.kind with
    | .blockEnd => return ([], s.skip)
    | .blockEntry =>
      let s := s.skip
      let next ← s.peek
      let (item, s) ←
        if next.isOneOf [.blockEntry, .blockEnd] then some (Node.absent t.line, s)
        else readNode fuel .block s
      let (items, s) ← readBlockItems fuel s
      return (item :: items, s)
    | _ => none

/-- Reads the items of a sequence that has no indentation of its own. -/
def readBareItems : (fuel : Nat) → Source → Option (List Node × Source)
  | 0, _ => none
  | fuel + 1, s => do
    let t ← s.peek
    match t.kind with
    | .blockEntry =>
      let s := s.skip
      let next ← s.peek
      let (item, s) ←
        if next.isOneOf [.blockEntry, .key, .value, .blockEnd] then some (Node.absent t.line, s)
        else readNode fuel .block s
      let (items, s) ← readBareItems fuel s
      return (item :: items, s)
    | _ => return ([], s)

/-- Reads the entries of a block mapping and its end. -/
def readBlockEntries : (fuel : Nat) → Source → Option (List (Node × Node) × Source)
  | 0, _ => none
  | fuel + 1, s => do
    let t ← s.peek
    match t.kind with
    | .blockEnd => return ([], s.skip)
    | .key =>
      let s := s.skip
      let next ← s.peek
      let (k, s) ←
        if next.isOneOf [.key, .value, .blockEnd] then some (Node.absent t.line, s)
        else readNode fuel .blockValue s
      let (v, s) ← readBlockValue fuel s
      let (entries, s) ← readBlockEntries fuel s
      return ((k, v) :: entries, s)
    | _ => none

/-- Reads the value of an entry of a block mapping. -/
def readBlockValue : (fuel : Nat) → Source → Option (Node × Source)
  | 0, _ => none
  | fuel + 1, s => do
    let t ← s.peek
    if t.kind == .value then
      let s := s.skip
      let next ← s.peek
      if next.isOneOf [.key, .value, .blockEnd] then return (.absent t.line, s)
      else readNode fuel .blockValue s
    else return (.absent t.line, s)

/-- Reads the items of a flow sequence and its end. A key makes an item a mapping with one entry. -/
def readFlowItems : (fuel : Nat) → (first : Bool) → Source → Option (List Node × Source)
  | 0, _, _ => none
  | fuel + 1, first, s => do
    let t ← s.peek
    if t.kind == .flowSequenceEnd then return ([], s.skip)
    let s ← if first then some s else if t.kind == .flowEntry then some s.skip else none
    let t ← s.peek
    match t.kind with
    | .flowSequenceEnd => return ([], s.skip)
    | .key =>
      let s := s.skip
      let next ← s.peek
      let (k, s) ←
        if next.isOneOf [.value, .flowEntry, .flowSequenceEnd] then
          some (Node.absent next.line, s.skip)
        else readNode fuel .flow s
      let (v, s) ← readFlowValue fuel .flowSequenceEnd s
      let (items, s) ← readFlowItems fuel false s
      return (.mapping t.line [] [(k, v)] :: items, s)
    | _ =>
      let (item, s) ← readNode fuel .flow s
      let (items, s) ← readFlowItems fuel false s
      return (item :: items, s)

/-- Reads the value of an entry between flow brackets, where the collection ends with `close`. -/
def readFlowValue : (fuel : Nat) → (close : TokenKind) → Source → Option (Node × Source)
  | 0, _, _ => none
  | fuel + 1, close, s => do
    let t ← s.peek
    if t.kind == .value then
      let s := s.skip
      let next ← s.peek
      if next.isOneOf [.flowEntry, close] then return (.absent next.line, s)
      else readNode fuel .flow s
    else return (.absent t.line, s)

/-- Reads the entries of a flow mapping and its end. A node alone is a key without a value. -/
def readFlowEntries : (fuel : Nat) → (first : Bool) → Source → Option (List (Node × Node) × Source)
  | 0, _, _ => none
  | fuel + 1, first, s => do
    let t ← s.peek
    if t.kind == .flowMappingEnd then return ([], s.skip)
    let s ← if first then some s else if t.kind == .flowEntry then some s.skip else none
    let t ← s.peek
    match t.kind with
    | .flowMappingEnd => return ([], s.skip)
    | .key =>
      let s := s.skip
      let next ← s.peek
      let (k, s) ←
        if next.isOneOf [.value, .flowEntry, .flowMappingEnd] then some (Node.absent next.line, s)
        else readNode fuel .flow s
      let (v, s) ← readFlowValue fuel .flowMappingEnd s
      let (entries, s) ← readFlowEntries fuel false s
      return ((k, v) :: entries, s)
    | _ =>
      let (k, s) ← readNode fuel .flow s
      let after ← s.peek
      let (entries, s) ← readFlowEntries fuel false s
      return ((k, .absent after.line) :: entries, s)

end

/-- The stems that need no declaration. -/
def defaultStems : List (Text × Text) := [("!", "!"), ("!!", "tag:yaml.org,2002:")]

/-- Reads the directives before a document: at most one version, which must be 1.1, and no handle
twice. -/
def readDirectives : (fuel : Nat) → (versioned : Bool) → Source → Option Source
  | 0, _, _ => none
  | fuel + 1, versioned, s => do
    let t ← s.peek
    match t.kind with
    | .versionDirective major minor =>
      if versioned || major != 1 || minor != 1 then none
      readDirectives fuel true s.skip
    | .tagDirective handle stem =>
      if (s.stems.lookup handle).isSome then none
      readDirectives fuel versioned { s.skip with stems := s.stems ++ [(handle, stem)] }
    | _ => return s

/-- The first document of a text: nothing if there is none. -/
def readDocument (fuel : Nat) (s : Source) : Option (Option Node) := do
  let t ← s.peek
  let (n, s) ←
    match t.kind with
    | .streamEnd => return none
    | .versionDirective _ _ | .tagDirective _ _ | .documentStart => do
      let s ← readDirectives fuel false s
      if (← s.peek).kind != .documentStart then none
      let s := { s.skip with stems := s.stems ++ defaultStems }
      let t ← s.peek
      match t.kind with
      | .versionDirective _ _ | .tagDirective _ _ | .documentStart | .documentEnd | .streamEnd =>
        some (Node.absent t.line, s)
      | _ => readNode fuel .block s
    | _ => readNode fuel .block { s with stems := defaultStems }
  let _ ← s.peek
  return some n

/-- The tree of the first document of a text, if there is a document; fails if the text is
malformed. -/
def parse? (t : Text) : Option (Option Node) := do
  let (tokens, broken) := tokenize (← characters? t)
  readDocument (4 * tokens.length + 10) ⟨tokens, broken, [], []⟩

end DocFilter.Yaml
