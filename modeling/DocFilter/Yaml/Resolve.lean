import DocFilter.Text.Base64
import DocFilter.Value
import DocFilter.Number.Numeral
import DocFilter.Yaml.Node

/-!
The values of YAML scalars. A quoted scalar is its text. A plain scalar is looked at closer: it may
be nothing, a truth value, a point in time, an integer or a floating-point number, and only what is
none of these is a text. A tag asks for one of these types and fails if the scalar is of another.
-/

set_option autoImplicit false

namespace DocFilter.Yaml

open Text (byte isDigit)
open Number (readPrefixedNat readPrefixedInt64 readBinary)

/-! ## Points in time -/

/-- Reads one or two digits. -/
def shortField? : Text → Option (Nat × Text)
  | a :: b :: rest =>
    if !isDigit a then none
    else if isDigit b then some (Text.digitsToNat [a, b], rest)
    else some (Text.digitsToNat [a], b :: rest)
  | [a] => if isDigit a then some (Text.digitsToNat [a], []) else none
  | [] => none

/-- Drops an expected byte. -/
def expect? (b : UInt8) : Text → Option Text
  | c :: rest => if b == c then some rest else none
  | [] => none

/-- Reads a date: a year of four digits, a month and a day. -/
def date? (t : Text) : Option (Nat × Nat × Nat × Text) := do
  let year := t.takeWhile isDigit
  if year.length != 4 then none
  let (month, t) ← shortField? (← expect? (byte '-') (t.drop 4))
  let (day, t) ← shortField? (← expect? (byte '-') t)
  let y := Text.digitsToNat year
  if month < 1 || 12 < month || day < 1 || Timestamp.daysIn y month < day then none
  return (y, month, day, t)

/-- Reads the digits after a decimal point as nanoseconds; what is finer is dropped. -/
def fraction (t : Text) : Nat × Text :=
  match t with
  | p :: d :: rest =>
    if (p == byte '.' || p == byte ',') && isDigit d then
      let digits := (d :: rest).takeWhile isDigit
      let nine := (digits ++ List.replicate 9 (byte '0')).take 9
      (Text.digitsToNat nine, (d :: rest).drop digits.length)
    else (0, t)
  | _ => (0, t)

/-- Reads hour, minute and second. -/
def clock? (t : Text) : Option (Nat × Nat × Nat × Nat × Text) := do
  let (hour, t) ← shortField? t
  let (minute, t) ← shortField? (← expect? (byte ':') t)
  let (second, t) ← shortField? (← expect? (byte ':') t)
  if 24 ≤ hour || 60 ≤ minute || 60 ≤ second then none
  let (nanosecond, t) := fraction t
  return (hour, minute, second, nanosecond, t)

/-- Reads a zone that is the whole rest of a text. No distance at all, spelt with digits, is the
zone of the machine. -/
def zone? (t : Text) : Option Zone :=
  match t with
  | [z] => if z == byte 'Z' then some .utc else none
  | [s, h₁, h₂, c, m₁, m₂] =>
    if (s == byte '+' || s == byte '-') && c == byte ':' && [h₁, h₂, m₁, m₂].all isDigit then
      let hours := Text.digitsToNat [h₁, h₂]
      let minutes := Text.digitsToNat [m₁, m₂]
      if 24 < hours || 60 < minutes then none
      else
        let distance : Int := hours * 60 + minutes
        if distance == 0 then some .here
        else some (.fixed (if s == byte '-' then -distance else distance))
    else none
  | _ => none

/-- Reads a point in time: a date, a date and a time of day in a zone, or a date and a time of day
after blanks. -/
def timestamp? (t : Text) : Option Timestamp := do
  let (year, month, day, t) ← date? t
  match t with
  | [] => return ⟨year, month, day, 0, 0, 0, 0, .utc⟩
  | b :: rest =>
    if b == byte 'T' || b == byte 't' then
      let (hour, minute, second, nanosecond, t) ← clock? rest
      return ⟨year, month, day, hour, minute, second, nanosecond, ← zone? t⟩
    else if b == byte ' ' then
      let (hour, minute, second, nanosecond, t) ← clock? (rest.dropWhile (· == byte ' '))
      if !t.isEmpty then none
      return ⟨year, month, day, hour, minute, second, nanosecond, .utc⟩
    else none

/-! ## Numbers -/

/-- Whether digits, a point among or before them, and an exponent make up the whole text. -/
def isDecimal (t : Text) : Bool :=
  let t := Number.unsigned t
  let whole := t.takeWhile isDigit
  let t := t.drop whole.length
  let afterPoint : Option Text :=
    match t with
    | p :: rest =>
      if p == byte '.' then
        let places := rest.takeWhile isDigit
        if whole.isEmpty && places.isEmpty then none else some (rest.drop places.length)
      else if whole.isEmpty then none
      else some t
    | [] => if whole.isEmpty then none else some []
  match afterPoint with
  | none => false
  | some [] => true
  | some (e :: rest) =>
    let digits := Number.unsigned rest
    (e == byte 'e' || e == byte 'E') && !digits.isEmpty && digits.all isDigit

/-- Reads digits in a base, behind a prefix and with a sign of their own. -/
def basedInt? (base : Nat) (negate : Bool) (t : Text) : Option Int :=
  match Number.readSigned (Number.readNatInBase base Number.maxUInt64)
      (if negate then byte '-' :: t else t) with
  | .ok n => some n
  | .error _ => none

/-- The integer of digits in base two or eight behind a prefix that the usual notation does not
take. -/
def prefixedInt? (t : Text) : Option Int :=
  match t with
  | z :: b :: rest =>
    if z == byte '0' && b == byte 'b' then basedInt? 2 false rest
    else if z == byte '0' && b == byte 'o' then basedInt? 8 false rest
    else
      match rest with
      | c :: digits =>
        if z == byte '-' && b == byte '0' && c == byte 'b' then basedInt? 2 true digits
        else if z == byte '-' && b == byte '0' && c == byte 'o' then basedInt? 8 true digits
        else none
      | [] => none
  | _ => none

/-- The number of a text that begins like one; underscores are ignored. -/
def number? (t : Text) : Option Value :=
  let plain := t.filter (· != byte '_')
  match readPrefixedInt64 plain with
  | .ok n => some (.int .int n)
  | .error _ =>
    match readPrefixedNat Number.maxUInt64 plain with
    | .ok n => some (.int .uint64 n)
    | .error _ =>
      let float? :=
        if isDecimal plain then
          match readBinary Number.double plain with
          | .ok x => some x
          | .error _ => none
        else none
      match float? with
      | some x => some (.float .double x)
      | none => (prefixedInt? plain).map (.int .int ·)

/-! ## Scalars -/

/-- The words with a meaning. -/
def wordValue? (t : Text) : Option Value :=
  let isIn (words : List String) : Bool := words.any (Text.ofString · == t)
  if isIn ["", "~", "null", "Null", "NULL"] then some .null
  else if isIn ["true", "True", "TRUE"] then some (.bool true)
  else if isIn ["false", "False", "FALSE"] then some (.bool false)
  else if isIn [".nan", ".NaN", ".NAN"] then some (.float .double .nan)
  else if isIn [".inf", ".Inf", ".INF", "+.inf", "+.Inf", "+.INF"] then
    some (.float .double (.infinite false))
  else if isIn ["-.inf", "-.Inf", "-.INF"] then some (.float .double (.infinite true))
  else none

/-- The value of a plain scalar; `times` tells whether points in time are looked for. -/
def plainValue (times : Bool) (t : Text) : Value :=
  match wordValue? t with
  | some v => v
  | none =>
    match t with
    | [] => .null
    | b :: _ =>
      if b == byte '.' then
        match readBinary Number.double t with
        | .ok x => .float .double x
        | .error _ => .text t
      else if isDigit b || b == byte '+' || b == byte '-' then
        match (if times then timestamp? t else none) with
        | some time => .time time
        | none => (number? t).getD (.text t)
      else .text t

/-- The types that a tag can ask for. -/
inductive CoreType where
  | str
  | binary
  | null
  | bool
  | int
  | float
  | timestamp
  deriving DecidableEq, Repr

/-- The stem of the tags for these types. -/
def coreStem : Text := "tag:yaml.org,2002:"

/-- The type with a name. -/
def CoreType.ofName? (name : Text) : Option CoreType :=
  List.lookup name
    [(Text.ofString "str", .str), ("binary", .binary), ("null", .null), ("bool", .bool),
      ("int", .int), ("float", .float), ("timestamp", .timestamp)]

/-- The type that a tag asks for, by its full form or by its short one. -/
def CoreType.ofTag? (tag : Text) : Option CoreType :=
  if coreStem.isPrefixOf tag then CoreType.ofName? (tag.drop coreStem.length)
  else if (Text.ofString "!!").isPrefixOf tag then CoreType.ofName? (tag.drop 2)
  else none

/-- The value as one of the type, if it is one; an integer is also a floating-point number. -/
def CoreType.accept? : CoreType → Value → Option Value
  | .null, .null => some .null
  | .bool, .bool b => some (.bool b)
  | .int, .int ty n => some (.int ty n)
  | .float, .int .int n => some (.float .double (Number.double.ofInt n))
  | .float, .float ty x => some (.float ty x)
  | .timestamp, .time t => some (.time t)
  | _, _ => none

/-- The value of a scalar, or nothing if it is not of the type its tag asks for. A tag that names no
type of this module leaves the text as it is. -/
def scalarValue? (tag : Text) (style : Style) (t : Text) : Option Value :=
  if tag.isEmpty || tag == Text.ofString "!" then
    some (if style == .plain then plainValue true t else .text t)
  else
    match CoreType.ofTag? tag with
    | none | some .str => some (.text t)
    | some .binary => (Text.fromBase64? t).map .text
    | some ty => ty.accept? (plainValue (ty == .timestamp) t)

end DocFilter.Yaml
