import DocFilter.Document.Lexeme
import DocFilter.Json.Reader

/-!
The grammar of interchange documents. A tree of the grammar keeps everything that is written, down to
the last byte: the gaps between its parts with the white space and the separators in them, the brackets
that close its collections, the digits of its numbers and the escapes of its strings. So a tree has a
text (`Tree.text`), and it stands for an interchange document (`Tree.json`).

Trees can be written down that the grammar does not allow. Those that it allows are `Proper`: brackets
match, there is one comma between two members or elements and one colon behind a key, numbers have the
form of numbers, and strings consist of characters, none of them a control, and of escapes.
-/

set_option autoImplicit false

namespace DocFilter.Grammar

open Text (byte)

/-! ## Strings -/

/-- A part of a string: a byte that stands for itself, an escape by a letter, or an escape by number. -/
inductive Part where
  | plain (b : UInt8)
  | short (letter : UInt8)
  | code (h₁ h₂ h₃ h₄ : UInt8)
  deriving DecidableEq, Repr

/-- How a part is written. -/
def Part.text : Part → Text
  | .plain b => [b]
  | .short letter => [byte '\\', letter]
  | .code h₁ h₂ h₃ h₄ => [byte '\\', byte 'u', h₁, h₂, h₃, h₄]

/-- The text between the quotes of a string. -/
def inner (parts : List Part) : Text := parts.flatMap Part.text

/-- The text of a string. -/
def quoted (parts : List Part) : Text := byte '"' :: inner parts ++ [byte '"']

/-- The letters of escapes, and the bytes that they stand for. -/
def escapes : List (UInt8 × UInt8) :=
  [(byte '"', byte '"'), (byte '\\', byte '\\'), (byte '/', byte '/'), (byte 'b', 0x08), (byte 'f', 0x0C),
    (byte 'n', 0x0A), (byte 'r', 0x0D), (byte 't', 0x09)]

/-- Whether a byte is a hexadecimal digit. -/
def isHex (b : UInt8) : Bool :=
  (byte '0' ≤ b && b ≤ byte '9') || (byte 'a' ≤ b && b ≤ byte 'f') || (byte 'A' ≤ b && b ≤ byte 'F')

/-- The value of a hexadecimal digit, and zero for any other byte. -/
def hex (b : UInt8) : Nat :=
  if byte '0' ≤ b && b ≤ byte '9' then b.toNat - 0x30
  else if byte 'a' ≤ b && b ≤ byte 'f' then b.toNat - 0x61 + 10
  else if byte 'A' ≤ b && b ≤ byte 'F' then b.toNat - 0x41 + 10
  else 0

/-- The number that four hexadecimal digits write. -/
def codeUnit (h₁ h₂ h₃ h₄ : UInt8) : Nat := hex h₁ * 4096 + hex h₂ * 256 + hex h₃ * 16 + hex h₄

/-- What the parts of a string say. Two escapes by number that are the halves of a pair are one
character, and half a pair on its own is replaced. -/
def content : List Part → Text
  | [] => []
  | .plain b :: rest => b :: content rest
  | .short letter :: rest => (escapes.lookup letter).toList ++ content rest
  | .code h₁ h₂ h₃ h₄ :: .code l₁ l₂ l₃ l₄ :: rest =>
    let high := codeUnit h₁ h₂ h₃ h₄
    let low := codeUnit l₁ l₂ l₃ l₄
    if Lexeme.isHigh high && Lexeme.isLow low then
      Text.ofChar (Char.ofNat (0x10000 + (high - 0xD800) * 0x400 + (low - 0xDC00))) ++ content rest
    else Lexeme.numbered high ++ content (.code l₁ l₂ l₃ l₄ :: rest)
  | .code h₁ h₂ h₃ h₄ :: rest => Lexeme.numbered (codeUnit h₁ h₂ h₃ h₄) ++ content rest

/-- The parts of a proper string: characters that are neither controls nor quotes nor backslashes, and
escapes. -/
inductive ProperString : List Part → Prop
  | nil : ProperString []
  | char {c : Char} {rest : List Part} : 0x20 ≤ c.toNat → c ≠ '"' → c ≠ '\\' → ProperString rest →
      ProperString ((Text.ofChar c).map Part.plain ++ rest)
  | short {letter : UInt8} {rest : List Part} : (escapes.lookup letter).isSome = true →
      ProperString rest → ProperString (.short letter :: rest)
  | code {h₁ h₂ h₃ h₄ : UInt8} {rest : List Part} : [h₁, h₂, h₃, h₄].all isHex = true →
      ProperString rest → ProperString (.code h₁ h₂ h₃ h₄ :: rest)

/-! ## Numbers -/

/-- A row of digits, at least one. -/
def IsDigits (t : Text) : Prop := t ≠ [] ∧ ∀ b ∈ t, Text.isDigit b = true

/-- The whole part of a number has no zero in front, unless it is zero. -/
def IsWhole (t : Text) : Prop := IsDigits t ∧ (t.head? = some (byte '0') → t = [byte '0'])

/-- The fraction of a number: none, or a point and digits. -/
def IsFraction (t : Text) : Prop := t = [] ∨ ∃ ds, IsDigits ds ∧ t = byte '.' :: ds

/-- The exponent of a number: none, or a letter, perhaps a sign, and digits. -/
def IsExponent (t : Text) : Prop :=
  t = [] ∨ ∃ e sign ds, (e = byte 'e' ∨ e = byte 'E') ∧
    (sign = [] ∨ sign = [byte '+'] ∨ sign = [byte '-']) ∧ IsDigits ds ∧ t = e :: (sign ++ ds)

/-- A number: perhaps a minus sign, a whole part, a fraction and an exponent. -/
def IsNumber (t : Text) : Prop :=
  ∃ sign whole fraction exponent, t = sign ++ whole ++ fraction ++ exponent ∧
    (sign = [] ∨ sign = [byte '-']) ∧ IsWhole whole ∧ IsFraction fraction ∧ IsExponent exponent

/-! ## Trees -/

mutual

/-- A value as it is written. -/
inductive Tree where
  | word (w : Word)
  | number (digits : Text)
  | string (parts : List Part)
  | array (items : Items)
  | object (members : Members)

/-- The elements of an array up to the bracket that closes it, each with the gap in front of it. -/
inductive Items where
  | close (gap : Text) (bracket : UInt8)
  | item (gap : Text) (x : Tree) (rest : Items)

/-- The members of an object up to the bracket that closes it, each with the gap in front of it and the
gap between its key and its value. -/
inductive Members where
  | close (gap : Text) (bracket : UInt8)
  | member (gap : Text) (key : List Part) (colon : Text) (x : Tree) (rest : Members)

end

mutual

/-- The text of a value. -/
def Tree.text : Tree → Text
  | .word w => w.spelling
  | .number digits => digits
  | .string parts => quoted parts
  | .array items => byte '[' :: items.text
  | .object members => byte '\x7b' :: members.text

/-- The text of elements. -/
def Items.text : Items → Text
  | .close gap bracket => gap ++ [bracket]
  | .item gap x rest => gap ++ (x.text ++ rest.text)

/-- The text of members. -/
def Members.text : Members → Text
  | .close gap bracket => gap ++ [bracket]
  | .member gap key colon x rest => gap ++ (quoted key ++ (colon ++ (x.text ++ rest.text)))

end

/-- What a constant stands for. -/
def wordJson : Word → Json
  | .null => .null
  | .true => .bool true
  | .false => .bool false

mutual

/-- The interchange document that is written. -/
def Tree.json : Tree → Json
  | .word w => wordJson w
  | .number digits => .number digits
  | .string parts => .string (content parts)
  | .array items => .array items.json
  | .object members => .object members.json

/-- The elements that are written. -/
def Items.json : Items → List Json
  | .close _ _ => []
  | .item _ x rest => x.json :: rest.json

/-- The members that are written, in their order. -/
def Members.json : Members → List (Text × Json)
  | .close _ _ => []
  | .member _ key _ x rest => (content key, x.json) :: rest.json

end

/-- What stands in a gap besides white space. -/
def signs (gap : Text) : Text := gap.filter fun b => !Json.isSpace b

/-- What has to stand in the gap in front of a member or an element. -/
def separator (first : Bool) : Text := if first then [] else [byte ',']

mutual

/-- The values of the grammar. -/
def Tree.Proper : Tree → Prop
  | .word _ => True
  | .number digits => IsNumber digits
  | .string parts => ProperString parts
  | .array items => items.Proper true
  | .object members => members.Proper true

/-- The elements of the grammar, `first` if none stand before them. -/
def Items.Proper : (first : Bool) → Items → Prop
  | _, .close gap bracket => signs gap = [] ∧ bracket = byte ']'
  | first, .item gap x rest => signs gap = separator first ∧ x.Proper ∧ rest.Proper false

/-- The members of the grammar, `first` if none stand before them. -/
def Members.Proper : (first : Bool) → Members → Prop
  | _, .close gap bracket => signs gap = [] ∧ bracket = byte '\x7d'
  | first, .member gap key colon x rest =>
    signs gap = separator first ∧ ProperString key ∧ signs colon = [byte ':'] ∧ x.Proper ∧
      rest.Proper false

end

/-- A text that is an object of the grammar, with nothing in front of it or behind it. -/
def IsObject (t : Text) : Prop := ∃ members : Members, members.Proper true ∧ t = (Tree.object members).text

/-- A text that is an object with certain members, with white space in front of it and behind it. -/
def ObjectText (t : Text) (members : List (Text × Json)) : Prop :=
  ∃ before x after, signs before = [] ∧ Members.Proper true x ∧ signs after = [] ∧ x.json = members ∧
    t = before ++ ((Tree.object x).text ++ after)

end DocFilter.Grammar
