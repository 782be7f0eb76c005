import DocFilter.Text.Letter
import DocFilter.Yaml.Mapping

/-!
Values as they are going to be written in YAML: scalars with a style and perhaps a tag, sequences, and
mappings with scalars as keys. A text is plain where it reads back as itself, in quotes where it would
be read as something else, and a block of lines if it has line breaks. The keys of tables are put in
order, with numbers inside them counting as numbers.
-/

set_option autoImplicit false

namespace DocFilter.Yaml

open Text (byte isDigit isLetterChar isDigitChar)

/-- A scalar as it is going to be written, if the style allows it. The tag is short, or empty where
none is written. -/
structure ScalarForm where
  style : Style
  tag : Text
  content : Text
  deriving DecidableEq, Repr

/-- A value as it is going to be written. -/
inductive Form where
  | scalar (s : ScalarForm)
  | sequence (items : List Form)
  | mapping (entries : List (ScalarForm × Form))

/-! ## Texts -/

/-- Words for truth values that other readers know. -/
def isOtherBool (t : Text) : Bool :=
  ["y", "Y", "yes", "Yes", "YES", "on", "On", "ON", "n", "N", "no", "No", "NO", "off", "Off", "OFF"].any
    (Text.ofString · == t)

/-- Whether colons and groups of at most two digits below sixty follow, and then perhaps a
fraction. -/
def isSexagesimalTail : Text → Bool
  | [] => true
  | c :: a :: b :: rest =>
    if c != byte ':' then c == byte '.' && (a :: b :: rest).all fun d => isDigit d || d == byte '_'
    else if !isDigit a then false
    else if isDigit b && a < byte '6' then isSexagesimalTail rest
    else isSexagesimalTail (b :: rest)
  | [c, a] => (c == byte ':' && isDigit a) || (c == byte '.' && (isDigit a || a == byte '_'))
  | [c] => c == byte '.'

/-- Whether other readers know the text as a number in base sixty. -/
def isSexagesimal (t : Text) : Bool :=
  match Number.unsigned t with
  | [] => false
  | d :: rest =>
    let tail := rest.dropWhile fun b => isDigit b || b == byte '_'
    isDigit d && tail.head? == some (byte ':') && isSexagesimalTail tail

/-- Whether a plain scalar would be read as this text. -/
def readsAsText (t : Text) : Bool :=
  match plainValue true t with
  | .text _ => true
  | _ => false

/-- A text whose style depends on whether it may be plain: with line breaks it is a block. -/
def ScalarForm.ofLines (mayBePlain : Bool) (tag content : Text) : ScalarForm :=
  ⟨if content.contains (byte '\n') then .literal else if mayBePlain then .plain else .double, tag,
    content⟩

/-- A text that is a value or a key of a table. Bytes that are no text are written in base 64. -/
def ScalarForm.ofText (t : Text) : ScalarForm :=
  if Text.isUtf8 t then .ofLines (readsAsText t && !isSexagesimal t && !isOtherBool t) [] t
  else .ofLines true "!!binary" (Text.toBase64Lines t)

/-- A key of a document. -/
def ScalarForm.ofKey (t : Text) : ScalarForm :=
  if Text.isUtf8 t then .ofLines (readsAsText t) [] t
  else .ofLines true "!!binary" (Text.toBase64Lines t)

/-- A scalar that is no text. -/
def ScalarForm.word (t : Text) : ScalarForm := ⟨.plain, [], t⟩

/-! ## Nodes -/

/-- The short form of a tag. -/
def shortTag (tag : Text) : Text :=
  if coreStem.isPrefixOf tag then "!!" ++ tag.drop coreStem.length else tag

/-- A scalar that was read. It keeps its style and its tag; the mark for merging has a tag of its
own. -/
def ScalarForm.ofScalar (tag : Text) (style : Style) (content : Text) : ScalarForm :=
  let tag : Text :=
    if !tag.isEmpty && tag != Text.ofString "!" then shortTag tag
    else if style == .plain && content == Text.ofString "<<" then "!!merge"
    else []
  if style == .plain then .ofLines true tag content else ⟨style, tag, content⟩

/-- A node that is a scalar. -/
def ScalarForm.ofNode? : Node → Option ScalarForm
  | .scalar _ tag style content => some (.ofScalar tag style content)
  | _ => none

mutual

/-- A node without references and with scalars as keys, as it is going to be written again. -/
def Form.ofNode? : Node → Option Form
  | .scalar _ tag style content => some (.scalar (.ofScalar tag style content))
  | .sequence _ _ items => (Form.ofNodes? items).map .sequence
  | .mapping _ _ entries => (Form.ofNodeEntries? entries).map .mapping
  | .alias _ _ _ | .enclosing _ _ => none

/-- Nodes as they are going to be written again. -/
def Form.ofNodes? : List Node → Option (List Form)
  | [] => some []
  | n :: rest => do
    let f ← Form.ofNode? n
    return f :: (← Form.ofNodes? rest)

/-- Entries as they are going to be written again. -/
def Form.ofNodeEntries? : List (Node × Node) → Option (List (ScalarForm × Form))
  | [] => some []
  | (k, n) :: rest => do
    let key ← ScalarForm.ofNode? k
    let f ← Form.ofNode? n
    return (key, f) :: (← Form.ofNodeEntries? rest)

end

/-! ## Order of keys -/

/-- The signed number of sixty-four bits that a natural number is cut down to. -/
def cutDown (n : Nat) : Int :=
  let low := n % 18446744073709551616
  if low < 9223372036854775808 then low else (low : Int) - 18446744073709551616

/-- The number that the digits at the beginning of the characters make up, and how many they are. A
digit of another script counts by its distance from zero. -/
def leadingNumber (start : Nat) (cs : List Char) : Int × Nat :=
  let digits := cs.takeWhile isDigitChar
  (cutDown (digits.foldl (fun n d => n * 10 + (d.toNat - '0'.toNat)) start), digits.length)

/-- Whether one key comes before another: numbers inside keys count as numbers. `digits` tells
whether the last common character was a digit, `significant` whether the digits before were more
than zeros. -/
def keyBefore : (digits significant : Bool) → List Char → List Char → Bool
  | _, _, [], [] => false
  | _, _, [], _ => true
  | _, _, _, [] => false
  | digits, significant, a :: as, b :: bs =>
    if a == b then
      keyBefore (isDigitChar a) (isDigitChar a && (a != '0' || (digits && significant))) as bs
    else if isLetterChar a && isLetterChar b then a < b
    else if isLetterChar a || isLetterChar b then if digits then isLetterChar a else isLetterChar b
    else
      let start := if (a == '0' || b == '0') && digits && significant then 1 else 0
      let (m, i) := leadingNumber start (a :: as)
      let (n, j) := leadingNumber start (b :: bs)
      if m != n then m < n else if i != j then i < j else a < b

/-- The characters of a text; a byte that belongs to none counts as the replacement character. -/
def charsOf (t : Text) : List Char :=
  (Text.pieces t).map fun
    | .char c => c
    | .stray _ => Text.replacement

/-- The number that is a key of a numbered table. -/
def keyNumber (t : Text) : Int :=
  match Number.readInt64 t with
  | .ok n => n
  | .error _ => 0

/-- Whether one key of a table comes before another. -/
def TableType.keyBefore (ty : TableType) (a b : Text) : Bool :=
  match ty with
  | .numbered => keyNumber a < keyNumber b
  | _ => Yaml.keyBefore false false (charsOf a) (charsOf b)

/-- How a key of a table is written. -/
def TableType.keyForm (ty : TableType) (k : Text) : ScalarForm :=
  match ty with
  | .numbered => .word k
  | _ => .ofText k

/-- Puts an entry before the first that comes after it. -/
def insertEntry {α : Type} (ty : TableType) (e : Text × α) : List (Text × α) → List (Text × α)
  | [] => [e]
  | x :: rest =>
    if TableType.keyBefore ty e.1 x.1 then e :: x :: rest else x :: insertEntry ty e rest

/-- The entries of a table in the order in which they are written. -/
def orderedEntries {α : Type} (ty : TableType) (entries : List (Text × α)) : List (Text × α) :=
  entries.foldr (insertEntry ty) []

end DocFilter.Yaml
