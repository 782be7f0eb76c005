import DocFilter.Toml.Scalar

/-!
Tables written in TOML. A file is a list of expressions, one a line: an entry, the heading of a table
or the heading of one more table in a list. What has been defined may not be defined again, which is
watched by a tree beside the tables (`Seen`): it knows of every key whether it is a value, a table or a
list of tables, and of every table whether it may still grow.
-/

set_option autoImplicit false

namespace DocFilter.Toml

open Text (byte isDigit)

/-! ## What has been defined -/

/-- What a key stands for. -/
inductive Kind where
  | value
  | table
  /-- A list of tables that grows by headings. -/
  | tables
  deriving DecidableEq, Repr

/-- What is known of a key: its kind, whether it has been defined for good, whether it was made by an
entry of the table that is being read, and the keys below it. -/
inductive Seen where
  | node (kind : Kind) (final recent : Bool) (below : List (Text × Seen))

namespace Seen

/-- The kind of a key. -/
def kind : Seen → Kind
  | node kind _ _ _ => kind

/-- Whether a key has been defined for good. -/
def final : Seen → Bool
  | node _ final _ _ => final

/-- Nothing has been defined. -/
def empty : Seen := node .table false false []

/-- What is known of a key below. -/
def child? (s : Seen) (key : Text) : Option Seen :=
  match s with
  | node _ _ _ below => below.lookup key

/-- Notes something of a key below. -/
def note (s : Seen) (key : Text) (c : Seen) : Seen :=
  match s with
  | node kind final recent below =>
    node kind final recent (below.filter (·.1 != key) ++ [(key, c)])

mutual

/-- A new heading: what the entries before it have made is defined for good. -/
def settle : Seen → Seen
  | node kind final recent below => node kind (final || recent) false (settleAll below)

/-- What the entries before a heading have made, key by key. -/
def settleAll : List (Text × Seen) → List (Text × Seen)
  | [] => []
  | (key, s) :: rest => (key, s.settle) :: settleAll rest

end

/-- Follows the keys of a heading to the last one, where `last` decides. No key on the way is a
value; those that are new are tables. -/
def follow (last : Seen → Text → Option Seen) (s : Seen) : List Text → Option Seen
  | [] => none
  | [key] => last s key
  | key :: more =>
    match s.child? key with
    | none => (follow last empty more).map (s.note key)
    | some c => if c.kind == .value then none else (follow last c more).map (s.note key)

/-- The heading of a table: a new one, or one that was only on the way to others. -/
def openTable : Seen → List Text → Option Seen :=
  follow fun s key =>
    match s.child? key with
    | none => some (s.note key (node .table true false []))
    | some (node kind final recent below) =>
      if kind == .table && !final then some (s.note key (node .table true recent below)) else none

/-- The heading of one more table in a list; of the table before nothing is known any more. -/
def openTables : Seen → List Text → Option Seen :=
  follow fun s key =>
    match s.child? key with
    | none => some (s.note key (node .tables true false []))
    | some c => if c.kind == .tables then some (s.note key (node .tables c.final false [])) else none

/-- An entry of the table that is being read. The tables that its key goes through are new or were
made by other entries of the same table. -/
def addEntry (s : Seen) : List Text → Option Seen
  | [] => none
  | [key] => if (s.child? key).isSome then none else some (s.note key (node .value false true []))
  | key :: more =>
    match s.child? key with
    | none => (addEntry (node .table false true []) more).map (s.note key)
    | some c => if c.kind == .table && !c.final then (addEntry c more).map (s.note key) else none

/-- A change at the end of a path that has been noted. -/
def changeAt (change : Seen → Option Seen) (s : Seen) : List Text → Option Seen
  | [] => change s
  | key :: more => do
    let c ← s.child? key
    return s.note key (← changeAt change c more)

end Seen

/-! ## Tables -/

/-- A change of the table at the end of a path. A list of tables stands for its last one, and a table
that is not there yet is made. -/
def changeTable (change : Row → Row) (row : Row) : List Text → Row
  | [] => change row
  | key :: more =>
    match row.get? key with
    | some (.list ty items) =>
      match items.reverse with
      | .table _ last :: before =>
        row.set key (.list ty (.table .any (changeTable change last more) :: before).reverse)
      | _ => row
    | some (.table _ inner) => row.set key (.table .any (changeTable change inner more))
    | _ => row.set key (.table .any (changeTable change [] more))

/-- Sets the value at the end of a path. -/
def setAt (row : Row) (path : List Text) (v : Value) : Row :=
  match path.reverse with
  | [] => row
  | key :: before => changeTable (·.set key v) row before.reverse

/-- Adds an empty table to the list at the end of a path. -/
def addTable (row : Row) (path : List Text) : Row :=
  match path.reverse with
  | [] => row
  | key :: before =>
    changeTable (fun inner =>
      match inner.get? key with
      | some (.list ty items) => inner.set key (.list ty (items ++ [.table .any []]))
      | _ => inner.set key (.list .any [.table .any []])) row before.reverse

/-- The table of entries, none of which is defined twice. -/
def ofEntries? (entries : List (List Text × Value)) : Option Row := do
  let (_, row) ← entries.foldlM (fun (seen, row) (path, v) => do
    return (← Seen.addEntry seen path, setAt row path v)) (Seen.empty, ([] : Row))
  return row

/-! ## Syntax -/

/-- Skips a comment, up to the end of its line. -/
def skipComment? (t : Text) : Option Text :=
  match t with
  | [] => some []
  | b :: _ =>
    if b != byte '#' then some t
    else
      let line := t.takeWhile (· != 0x0A)
      let rest := t.drop line.length
      -- a carriage return may stand before the line feed, and nowhere else
      let comment := if rest.isEmpty then line else Text.dropEndWhile (· == 0x0D) line
      if isClean comment && !comment.contains 0x0D && line.length ≤ comment.length + 1 then some rest
      else none

/-- Skips a line end. -/
def lineEnd? : Text → Option Text
  | 0x0A :: rest => some rest
  | 0x0D :: 0x0A :: rest => some rest
  | _ => none

/-- Skips white space, comments and line ends between the elements of a list. -/
def skipBetween? : (steps : Nat) → Text → Option Text
  | 0, t => some t
  | steps + 1, t => do
    let t ← skipComment? (skipBlanks t)
    match lineEnd? t with
    | some rest => skipBetween? steps rest
    | none => some t

/-- Whether a byte may stand in a key without quotes. -/
def isKeyByte (b : UInt8) : Bool := Text.isLetter b || isDigit b || b == byte '_' || b == byte '-'

/-- One part of a key. -/
def keyPart? : Reader Text
  | [] => none
  | b :: rest =>
    if b == byte '"' || b == byte '\'' then lineText? (b :: rest)
    else
      let part := (b :: rest).takeWhile isKeyByte
      if part.isEmpty then none else some (part, (b :: rest).drop part.length)

/-- A key: parts with points between them. -/
def key? : (steps : Nat) → Reader (List Text)
  | 0, _ => none
  | steps + 1, t => do
    let (part, t) ← keyPart? t
    match expect? "." (skipBlanks t) with
    | none => return ([part], t)
    | some rest =>
      let (parts, t) ← key? steps (skipBlanks rest)
      return (part :: parts, t)

mutual

/-- A value. -/
def value? : (steps : Nat) → Reader Value
  | 0, _ => none
  | steps + 1, t =>
    match t with
    | [] => none
    | b :: rest =>
      if b == byte '[' then do
        let (items, t) ← items? steps true rest
        return (.list .any items, t)
      else if b == byte '\x7b' then do
        let (entries, t) ← members? steps true rest
        return (.table .any (← ofEntries? entries), t)
      else scalar? t

/-- The elements of a list up to its end. A comma may stand behind the last one. -/
def items? : (steps : Nat) → (first : Bool) → Reader (List Value)
  | 0, _, _ => none
  | steps + 1, first, t => do
    let t ← skipBetween? t.length t
    match expect? "]" t with
    | some rest => return ([], rest)
    | none =>
      let t ← if first then some t else (expect? "," t).bind fun t => skipBetween? t.length t
      match (if first then none else expect? "]" t) with
      | some rest => return ([], rest)
      | none =>
        let (v, t) ← value? steps t
        let (vs, t) ← items? steps false t
        return (v :: vs, t)

/-- The entries of a table on one line up to its end. -/
def members? : (steps : Nat) → (first : Bool) → Reader (List (List Text × Value))
  | 0, _, _ => none
  | steps + 1, first, t => do
    let t := skipBlanks t
    match expect? "\x7d" t with
    | some rest => return ([], rest)
    | none =>
      let t ← if first then some t else (expect? "," t).map skipBlanks
      let (entry, t) ← pair? steps t
      let (entries, t) ← members? steps false t
      return (entry :: entries, t)

/-- An entry: a key and a value. -/
def pair? : (steps : Nat) → Reader (List Text × Value)
  | 0, _ => none
  | steps + 1, t => do
    let (path, t) ← key? t.length t
    let t ← expect? "=" (skipBlanks t)
    let (v, t) ← value? steps (skipBlanks t)
    return ((path, v), t)

end

/-- An expression of a file. -/
inductive Expression where
  | entry (path : List Text) (v : Value)
  | table (path : List Text)
  | tables (path : List Text)

/-- An expression. Every part of one takes a byte at least, so twice as many steps as there are bytes
are enough. -/
def expression? (t : Text) : Option (Expression × Text) :=
  match expect? "[" t with
  | none => do
    let ((path, v), t) ← pair? (2 * t.length + 1) t
    return (.entry path v, t)
  | some rest =>
    match expect? "[" rest with
    | some rest => do
      let (path, t) ← key? rest.length (skipBlanks rest)
      return (.tables path, ← expect? "]]" (skipBlanks t))
    | none => do
      let (path, t) ← key? rest.length (skipBlanks rest)
      return (.table path, ← expect? "]" (skipBlanks t))

/-- What has been read: what is defined, the table that is being read, and all tables. -/
structure Reading where
  seen : Seen := .empty
  current : List Text := []
  row : Row := []

/-- Takes up an expression. -/
def Reading.add? (r : Reading) : Expression → Option Reading
  | .entry path v => do
    let seen ← Seen.changeAt (·.addEntry path) r.seen r.current
    return { r with seen, row := setAt r.row (r.current ++ path) v }
  | .table path => do
    let seen ← r.seen.settle.openTable path
    return { seen, current := path, row := changeTable id r.row path }
  | .tables path => do
    let seen ← r.seen.settle.openTables path
    return { seen, current := path, row := addTable r.row path }

/-- The beginning of a line: an expression, or nothing before a comment or the end of the line. -/
def lineStart? (r : Reading) (t : Text) : Option (Reading × Text) :=
  match t with
  | [] => some (r, t)
  | b :: _ =>
    if b == byte '#' || b == 0x0A || b == 0x0D then some (r, t)
    else do
      let (e, t) ← expression? t
      return (← r.add? e, skipBlanks t)

/-- Reads line after line; each takes a byte at least. -/
def readLines? : (steps : Nat) → Reading → Text → Option Row
  | 0, _, _ => none
  | steps + 1, r, t => do
    let (r, t) ← lineStart? r (skipBlanks t)
    let t ← skipComment? t
    if t.isEmpty then return r.row else readLines? steps r (← lineEnd? t)

/-- The table of a TOML text. -/
def readTable? (t : Text) : Option Row := readLines? (t.length + 1) {} t

end DocFilter.Toml
