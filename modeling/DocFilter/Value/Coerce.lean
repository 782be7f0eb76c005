import DocFilter.Value.Display
import DocFilter.Number.Numeral

/-!
Coercion of values to numbers, truth values and texts. References are followed; a text of a type of
its own counts as a text; truth values count as one and zero; nothing at all counts as zero, false
or the empty text. An empty text is the number zero, and any other text has to be a numeral.
-/

set_option autoImplicit false

namespace DocFilter

open Text (byte)

/-- What a value is coerced to. -/
inductive CoerceTarget where
  | int64
  | uint64
  | float64
  | bool
  | string
  deriving DecidableEq, Repr

/-- The name of a target in messages. -/
def CoerceTarget.name : CoerceTarget → Text
  | .int64 => "int64"
  | .uint64 => "uint64"
  | .float64 => "float64"
  | .bool => "bool"
  | .string => "string"

/-- Why a value cannot be coerced. -/
inductive CoerceError where
  /-- The value is of the wrong kind. -/
  | unsupported (v : Value) (target : CoerceTarget)
  /-- The value is a text but no numeral; `parsed` is the part that was read. -/
  | numeral (v : Value) (target : CoerceTarget) (parsed : Text) (cause : Number.NumeralError)
  /-- An unsigned number was wanted. -/
  | negative
  /-- The text names no truth value. -/
  | truth (t : Text)

/-- The reader that a message names for a target. -/
def CoerceTarget.reader : CoerceTarget → Text
  | .int64 => "strconv.ParseInt"
  | .uint64 => "strconv.ParseUint"
  | .float64 => "strconv.ParseFloat"
  | .bool => "strconv.ParseBool"
  | .string => "strconv.Unquote"

/-- The words of a coercion error. -/
def CoerceError.message : CoerceError → Text
  | .unsupported v target =>
    "unable to cast " ++ v.exact ++ " of type " ++ v.typeName ++ " to " ++ target.name
  | .numeral v target parsed cause =>
    "unable to cast " ++ v.exact ++ " of type " ++ v.typeName ++ " to " ++ target.name ++ ": " ++
      target.reader ++ ": parsing " ++ Text.quoted parsed ++ ": " ++ cause.message
  | .negative => "unable to cast negative value"
  | .truth t => "strconv.ParseBool: parsing " ++ Text.quoted t ++ ": invalid syntax"

namespace Value

/-- The value behind a reference, and the text behind a text of a type of its own. -/
def resolved : Value → Value
  | .ref (some n) => .int .int n
  | .ref none => .null
  | .label t => .text t
  | v => v

/-- The text of a value that is read as a numeral. -/
def numeralText? : Value → Option Text
  | .text t => some t
  | .numeral t => some t
  | _ => none

/-- The value as a floating-point number. -/
def toFloat (v : Value) : Except CoerceError Number.Binary :=
  let v := v.resolved
  match v with
  | .null => .ok Number.Binary.zero
  | .bool b => .ok (Number.double.ofInt (if b then 1 else 0))
  | .int _ n => .ok (Number.double.ofInt n)
  | .float _ x => .ok (x.convert Number.double)
  | _ =>
    match v.numeralText? with
    | none => .error (.unsupported v .float64)
    | some t =>
      if t.isEmpty then .ok Number.Binary.zero
      else
        match Number.readBinary Number.double t with
        | .ok x => .ok x
        | .error e => .error (.numeral v .float64 t e)

/-- The part of a numeral before its point, if it consists of digits with a sign at most; a numeral
of another form stays as it is. -/
def wholePart (t : Text) : Text :=
  match Text.cutAt (byte '.') t with
  | (_, none) => t
  | (whole, some places) =>
    if (Number.unsigned whole).all Text.isDigit && places.all Text.isDigit then
      if (Number.unsigned whole).isEmpty then whole ++ "0" else whole
    else t

/-- The value as a signed word of 64 bits. -/
def toInt64 (v : Value) : Except CoerceError Int :=
  let v := v.resolved
  match v with
  | .null => .ok 0
  | .bool b => .ok (if b then 1 else 0)
  | .int _ n => .ok (IntType.int64.wrap n)
  | .float _ x => .ok x.toInt64
  | _ =>
    match v.numeralText? with
    | none => .error (.unsupported v .int64)
    | some t =>
      if t.isEmpty then .ok 0
      else
        let t := wholePart t
        match Number.readPrefixedInt64 t with
        | .ok n => .ok n
        | .error e => .error (.numeral v .int64 t e)

/-- The value as an unsigned word of 64 bits. -/
def toUInt64 (v : Value) : Except CoerceError Int :=
  let v := v.resolved
  match v with
  | .null => .ok 0
  | .bool b => .ok (if b then 1 else 0)
  | .int _ n => if n < 0 then .error .negative else .ok (IntType.uint64.wrap n)
  | .float _ x => if x.isNegative then .error .negative else .ok x.toUInt64
  | _ =>
    match v.numeralText? with
    | none => .error (.unsupported v .uint64)
    | some t =>
      if t.isEmpty then .ok 0
      else
        let t := (wholePart t).dropWhile (· == byte '+')
        match Number.readPrefixedNat Number.maxUInt64 t with
        | .ok n => .ok n
        | .error e => .error (.numeral v .uint64 t e)

/-- The words for true. -/
def trueWords : List Text := ["1", "t", "T", "TRUE", "true", "True"]

/-- The words for false. -/
def falseWords : List Text := ["0", "f", "F", "FALSE", "false", "False"]

/-- The truth value that a word names. -/
def readBool? (t : Text) : Option Bool :=
  if trueWords.contains t then some true
  else if falseWords.contains t then some false
  else none

/-- The value as a truth value. -/
def toBool (v : Value) : Except CoerceError Bool :=
  let v := v.resolved
  match v with
  | .null => .ok false
  | .bool b => .ok b
  | .int _ n => .ok (n != 0)
  | .float _ x => .ok !x.isZero
  | .text t =>
    match readBool? t with
    | some b => .ok b
    | none => .error (.truth t)
  | .numeral _ =>
    match v.toInt64 with
    | .ok n => .ok (n != 0)
    | .error _ => .error (.unsupported v .bool)
  | _ => .error (.unsupported v .bool)

/-- The value as a text. -/
def toText (v : Value) : Except CoerceError Text :=
  let v := v.resolved
  match v with
  | .null => .ok []
  | .bool b => .ok (boolText b)
  | .text t => .ok t
  | .int _ n => .ok (Text.ofInt n)
  | .float ty x => .ok (Number.Layout.plain.write ty.format x)
  | .numeral t => .ok t
  | .bytes b => .ok b
  | .time t => .ok t.display
  | _ => .error (.unsupported v .string)

end Value
end DocFilter
