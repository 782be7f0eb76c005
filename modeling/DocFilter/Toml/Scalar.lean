import DocFilter.Number.Numeral
import DocFilter.Value

/-!
The scalars of TOML: texts in four kinds of quotes, numbers, and dates. Each reader takes a text that
begins with the scalar, and gives its value and the text after it.

Dates and times of day without a zone have no counterpart among the values; they are the texts of
their usual forms.
-/

set_option autoImplicit false

namespace DocFilter.Toml

open Text (byte isDigit)

/-- A reader: what stands at the beginning of a text, and the text after it. -/
abbrev Reader (α : Type) := Text → Option (α × Text)

/-- Blanks within a line. -/
def isBlank (b : UInt8) : Bool := b == byte ' ' || b == byte '\t'

/-- The text without blanks in front. -/
def skipBlanks (t : Text) : Text := t.dropWhile isBlank

/-- Drops an expected word. -/
def expect? (word t : Text) : Option Text := word.isPrefixOf? t

/-- Whether a text consists of characters that may stand anywhere: no controls but those that make
up white space. -/
def isClean (t : Text) : Bool :=
  (Text.pieces t).all fun
    | .char c => c == '\t' || c == '\n' || c == '\r' || (0x20 ≤ c.toNat && c.toNat != 0x7F)
    | .stray _ => false

/-! ## Texts -/

/-- The value of hexadecimal digits. -/
def hexDigits? (t : Text) : Option Nat :=
  t.foldlM (fun n b => do
    let d ← Text.digitValue? b
    if d < 16 then some (16 * n + d) else none) 0

/-- The character with a number of so many hexadecimal digits; half a pair of surrogates is none. -/
def numbered? (width : Nat) (t : Text) : Option Text := do
  let digits := t.take width
  if digits.length < width then none
  let n ← hexDigits? digits
  if (0xD800 ≤ n && n < 0xE000) || 0x10FFFF < n then none else some (Text.ofChar (Char.ofNat n))

/-- What an escape stands for, and how many bytes it takes after its backslash. -/
def escape? : Text → Option (Text × Nat)
  | [] => none
  | letter :: rest =>
    if letter == byte 'u' then (numbered? 4 rest).map (·, 5)
    else if letter == byte 'U' then (numbered? 8 rest).map (·, 9)
    else
      let b? : Option UInt8 :=
        [(byte '"', byte '"'), (byte '\\', byte '\\'), (byte 'b', 0x08), (byte 't', 0x09), (byte 'n', 0x0A),
          (byte 'f', 0x0C), (byte 'r', 0x0D), (byte 'e', 0x1B)].lookup letter
      b?.map fun b => ([b], 1)

/-- White space of all kinds. -/
def isSpace (b : UInt8) : Bool := isBlank b || b == 0x0A || b == 0x0D

/-- How many bytes a backslash at the end of a line takes away behind it: all white space up to the
next character. -/
def lineJoin? (t : Text) : Option Nat :=
  match t.dropWhile isBlank with
  | 0x0A :: _ | 0x0D :: 0x0A :: _ => some (t.takeWhile isSpace).length
  | _ => none

/-- The text with what escapes stand for in their places, after its first `skip` bytes. `joins` tells
whether a backslash may end a line. -/
def unescape? (joins : Bool) : (skip : Nat) → Text → Option Text
  | _, [] => some []
  | skip + 1, _ :: rest => unescape? joins skip rest
  | 0, b :: rest =>
    if b != byte '\\' then (unescape? joins 0 rest).map (b :: ·)
    else
      match (if joins then lineJoin? rest else none) with
      | some n => unescape? joins n rest
      | none => do
        let (t, n) ← escape? rest
        return t ++ (← unescape? joins n rest)

/-- What stands before the quote that closes a text on one line; where there are escapes, the byte
after a backslash does not close it. -/
def inLine? (quote : UInt8) (escapes : Bool) : (skip : Nat) → Reader Text
  | _, [] => none
  | skip + 1, b :: rest => (inLine? quote escapes skip rest).map fun (t, after) => (b :: t, after)
  | 0, b :: rest =>
    if b == quote then some ([], rest)
    else if b == 0x0A || b == 0x0D then none
    else
      (inLine? quote escapes (if escapes && b == byte '\\' then 1 else 0) rest).map
        fun (t, after) => (b :: t, after)

/-- What stands before the three quotes that close a text over several lines. Up to two more quotes
in front of these belong to the text, and a carriage return stands before a line feed only. -/
def overLines? (quote : UInt8) (escapes : Bool) : (skip : Nat) → Reader Text
  | _, [] => none
  | skip + 1, b :: rest => (overLines? quote escapes skip rest).map fun (t, after) => (b :: t, after)
  | 0, b :: rest =>
    let run := ((b :: rest).takeWhile (· == quote)).length
    if 3 ≤ run then
      if run ≤ 5 then some (List.replicate (run - 3) quote, (b :: rest).drop run) else none
    else if b == 0x0D && rest.head? != some 0x0A then none
    else
      (overLines? quote escapes (if escapes && b == byte '\\' then 1 else 0) rest).map
        fun (t, after) => (b :: t, after)

/-- The text without a line end at its beginning. -/
def dropLineEnd : Text → Text
  | 0x0A :: rest => rest
  | 0x0D :: 0x0A :: rest => rest
  | t => t

/-- The content of quotes: escapes stand between double quotes only. -/
def content? (quote : UInt8) (joins : Bool) (raw : Text) : Option Text :=
  if !isClean raw then none
  else if quote == byte '"' then unescape? joins 0 raw
  else some raw

/-- A text in quotes on one line. -/
def lineText? : Reader Text
  | [] => none
  | quote :: rest =>
    if quote == byte '"' || quote == byte '\'' then do
      let (raw, after) ← inLine? quote (quote == byte '"') 0 rest
      return (← content? quote false raw, after)
    else none

/-- A text in quotes, three of which let it go over several lines. -/
def text? (t : Text) : Option (Text × Text) :=
  match t with
  | a :: b :: c :: rest =>
    if a == b && b == c && (a == byte '"' || a == byte '\'') then do
      let (raw, after) ← overLines? a (a == byte '"') 0 rest
      return (← content? a true (dropLineEnd raw), after)
    else lineText? t
  | _ => lineText? t

/-! ## Numbers -/

/-- Digits without the underscores between them. -/
def ungrouped? (isDigit : UInt8 → Bool) : (afterDigit : Bool) → Text → Option Text
  | _, [] => some []
  | afterDigit, b :: rest =>
    if b == byte '_' then
      if afterDigit && rest.head?.any isDigit then ungrouped? isDigit false rest else none
    else (ungrouped? isDigit (isDigit b) rest).map (b :: ·)

/-- Whether digits begin with a zero that is not needed. -/
def hasLeadingZero (t : Text) : Bool :=
  match Number.unsigned t with
  | a :: b :: _ => a == byte '0' && isDigit b
  | _ => false

/-- An integer in base ten. -/
def decimal? (t : Text) : Option Value := do
  let digits ← ungrouped? isDigit false t
  if hasLeadingZero digits then none
  match Number.readInt64 digits with
  | .ok n => some (.int .int64 n)
  | .error _ => none

/-- Whether a byte is a digit in a base up to sixteen. -/
def isDigitOf (base : Nat) (b : UInt8) : Bool := (Text.digitValue? b).any (· < base)

/-- An integer in another base, after its prefix. -/
def based? (base : Nat) (t : Text) : Option (Value × Text) := do
  let run := t.takeWhile fun b => isDigitOf base b || b == byte '_'
  let digits ← ungrouped? (isDigitOf base) false run
  match Number.readSigned (Number.readNatInBase base Number.maxUInt64) digits with
  | .ok n => some (.int .int64 n, t.drop run.length)
  | .error _ => none

/-- Whether a point stands between digits, and at most one does. -/
def pointOk : (previous : Option UInt8) → Text → Bool
  | _, [] => true
  | previous, b :: rest =>
    if b == byte '.' then previous.any isDigit && rest.head?.any isDigit && !rest.contains b
    else pointOk (some b) rest

/-- A floating-point number. -/
def float? (t : Text) : Option Value := do
  let digits ← ungrouped? isDigit false t
  if hasLeadingZero digits || !pointOk none digits then none
  match Number.readBinary Number.double digits with
  | .ok x => some (.float .double x)
  | .error _ => none

/-- The bytes that continue a number. -/
def continuesNumber (b : UInt8) : Bool :=
  isDigit b || b == byte '+' || b == byte '-' || b == byte '_' || b == byte '.' || b == byte 'e' || b == byte 'E'

/-- A number that is no sequence of digits, after its sign. -/
def special? (negative : Bool) (t : Text) : Option (Value × Text) :=
  match expect? "inf" t with
  | some rest => some (.float .double (.infinite negative), rest)
  | none => (expect? "nan" t).map fun rest => (.float .double .nan, rest)

/-- A number. A zero with another digit or letter behind it is a number by itself, unless the two
name a base. -/
def number? (t : Text) : Option (Value × Text) :=
  match t with
  | 0x30 :: letter :: rest =>
    if letter == byte 'x' then based? 16 rest
    else if letter == byte 'o' then based? 8 rest
    else if letter == byte 'b' then based? 2 rest
    else if letter == byte '.' || letter == byte 'e' || letter == byte 'E' then plain t
    else some (.int .int64 0, letter :: rest)
  | _ => plain t
where
  /-- A number without a base, with or without a sign. -/
  plain (t : Text) : Option (Value × Text) :=
    let run := t.takeWhile continuesNumber
    let rest := t.drop run.length
    if run.isEmpty then special? false rest
    else if run == [byte '+'] || run == [byte '-'] then special? (run == [byte '-']) rest
    else if run.any fun b => b == byte '.' || b == byte 'e' || b == byte 'E' then (float? run).map (·, rest)
    else (decimal? run).map (·, rest)

/-! ## Dates -/

/-- A number of exactly so many digits. -/
def digits? (width : Nat) (t : Text) : Option (Nat × Text) :=
  let digits := t.take width
  if digits.length == width && digits.all isDigit then some (Text.digitsToNat digits, t.drop width) else none

/-- A date. -/
def date? (t : Text) : Option ((Nat × Nat × Nat) × Text) := do
  let (year, t) ← digits? 4 t
  let (month, t) ← digits? 2 (← expect? "-" t)
  let (day, t) ← digits? 2 (← expect? "-" t)
  if month < 1 || 12 < month || day < 1 || Timestamp.daysIn year month < day then none
  return ((year, month, day), t)

/-- A time of day: hour, minute, second, and the digits of a fraction that count. -/
def clock? (t : Text) : Option ((Nat × Nat × Nat × Text) × Text) := do
  let (hour, t) ← digits? 2 t
  let (minute, t) ← digits? 2 (← expect? ":" t)
  let (second, t) ← digits? 2 (← expect? ":" t)
  if 23 < hour || 59 < minute || 60 < second then none
  match expect? "." t with
  | none => return ((hour, minute, second, []), t)
  | some t =>
    let fraction := t.takeWhile isDigit
    if fraction.isEmpty then none
    return ((hour, minute, second, fraction.take 9), t.drop fraction.length)

/-- A zone that is the whole rest of a text. -/
def zone? : Text → Option Zone
  | [] => none
  | sign :: rest =>
    if sign == byte 'Z' || sign == byte 'z' then if rest.isEmpty then some .utc else none
    else if sign == byte '+' || sign == byte '-' then do
      let (hours, t) ← digits? 2 rest
      let (minutes, t) ← digits? 2 (← expect? ":" t)
      if 23 < hours || 59 < minutes || !t.isEmpty then none
      let distance : Int := hours * 60 + minutes
      if distance == 0 then some .utc
      else some (.fixed (if sign == byte '-' then -distance else distance))
    else none

/-- A point in time whose second may be one too many. -/
def settled (t : Timestamp) : Timestamp :=
  if t.second < 60 then t
  else
    let t := { t with second := 0, minute := t.minute + 1 }
    if t.minute < 60 then t
    else
      let t := { t with minute := 0, hour := t.hour + 1 }
      if t.hour < 24 then t
      else
        let t := { t with hour := 0, day := t.day + 1 }
        if t.day ≤ Timestamp.daysIn t.year t.month then t
        else if t.month < 12 then { t with day := 1, month := t.month + 1 }
        else { t with day := 1, month := 1, year := t.year + 1 }

/-- The length of a date or a time of day. One blank with a digit behind it may stand between the
two, and then the byte after the digit counts in any case. -/
def timeLength : (spaced : Bool) → (skip : Nat) → Text → Nat
  | _, _, [] => 0
  | spaced, skip + 1, _ :: rest => timeLength spaced skip rest + 1
  | spaced, 0, b :: rest =>
    if isDigit b || (Text.ofString "-Tt:.+Zz").contains b then timeLength spaced 0 rest + 1
    else if b == byte ' ' && !spaced && rest.head?.any isDigit then timeLength true 2 rest + 1
    else 0

/-- The value of a date, a time of day, or both with or without a zone. What it has to be is seen
from the signs in it: a minus stands for a date, and behind that for a zone. -/
def timeValue? (t : Text) : Option Value :=
  let hasDate := t.contains (byte '-')
  let hasClock := t.any fun b => (Text.ofString "Tt:. ").contains b
  let hasZone := (t.drop 8).contains (byte '-') || t.any fun b => (Text.ofString "+Zz").contains b
  if !hasClock then do
    let (_, rest) ← date? t
    if rest.isEmpty then some (.text t) else none
  else if !hasDate then do
    let ((_, _, _, fraction), rest) ← clock? t
    if !rest.isEmpty then none
    return .text (clockText (t.take 8) fraction)
  else do
    let ((year, month, day), rest) ← date? t
    match rest with
    | [] => none
    | separator :: rest =>
      if !(Text.ofString "Tt ").contains separator then none
      let ((hour, minute, second, fraction), zone) ← clock? rest
      if hasZone then
        let nanosecond := Text.digitsToNat ((fraction ++ List.replicate 9 (byte '0')).take 9)
        return .time (settled ⟨year, month, day, hour, minute, second, nanosecond, ← zone? zone⟩)
      else if zone.isEmpty then
        return .text (t.take 10 ++ "T" ++ clockText (rest.take 8) fraction)
      else none
where
  /-- A time of day with the fraction of its second. -/
  clockText (clock fraction : Text) : Text :=
    if fraction.isEmpty then clock else clock ++ byte '.' :: fraction

/-- Whether a text begins like a date or a time of day. -/
def beginsTime (t : Text) : Bool :=
  let run := (t.take 5).takeWhile isDigit
  (run.length == 2 && (t.drop 2).head? == some (byte ':')) ||
    (run.length == 4 && (t.drop 4).head? == some (byte '-'))

/-- A scalar. -/
def scalar? (t : Text) : Option (Value × Text) :=
  match t with
  | [] => none
  | b :: _ =>
    if b == byte '"' || b == byte '\'' then (text? t).map fun (content, rest) => (.text content, rest)
    else if b == byte 't' then (expect? "true" t).map (.bool true, ·)
    else if b == byte 'f' then (expect? "false" t).map (.bool false, ·)
    else if beginsTime t then
      let n := timeLength false 0 t
      (timeValue? (t.take n)).map (·, t.drop n)
    else number? t

end DocFilter.Toml
