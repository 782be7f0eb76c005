import DocFilter.Number.Binary
import DocFilter.Text

/-!
Reading numbers from text. Integers are read in base ten, or in the base that their prefix names
(`0x`, `0o`, `0b`, or a leading zero for octal), where single underscores may stand between digits.
Floating-point numerals are decimal, or hexadecimal with a binary exponent. A numeral is refused
either because it is no numeral or because its value has no place in the format.
-/

set_option autoImplicit false

namespace DocFilter.Number

open Text (byte isDigit digitValue?)

/-- Why a numeral is refused. -/
inductive NumeralError where
  | malformed
  | outOfRange
  deriving DecidableEq, Repr

/-- The reason in words. -/
def NumeralError.message : NumeralError → Text
  | .malformed => "invalid syntax"
  | .outOfRange => "value out of range"

/-- What the last byte was, when the places of underscores are checked. -/
inductive SeparatorState where
  | start
  | digit
  | underscore
  | other
  deriving DecidableEq

/-- Checks that an underscore always stands between digits. -/
def separatorsOk (isHex : Bool) : SeparatorState → Text → Bool
  | state, [] => state != .underscore
  | state, b :: rest =>
    if isDigit b || (isHex && ((0x61 ≤ b && b ≤ 0x66) || (0x41 ≤ b && b ≤ 0x46))) then
      separatorsOk isHex .digit rest
    else if b == byte '_' then
      state == .digit && separatorsOk isHex .underscore rest
    else if state == .underscore then false
    else separatorsOk isHex .other rest

/-- The base that a prefix names and the digits after it. -/
def basePrefix? : Text → Option (Nat × Text)
  | 0x30 :: letter :: rest =>
    if letter == byte 'b' || letter == byte 'B' then some (2, rest)
    else if letter == byte 'o' || letter == byte 'O' then some (8, rest)
    else if letter == byte 'x' || letter == byte 'X' then some (16, rest)
    else none
  | _ => none

/-- A numeral without its sign. -/
def unsigned : Text → Text
  | b :: rest => if b == byte '+' || b == byte '-' then rest else b :: rest
  | [] => []

/-- Whether all underscores of a numeral stand between digits; a base prefix counts as a digit. -/
def underscoresOk (t : Text) : Bool :=
  match basePrefix? (unsigned t) with
  | some (base, rest) => separatorsOk (base == 16) .digit rest
  | none => separatorsOk false .start (unsigned t)

/-- Reads digits from left to right and stops at the first that is no digit of the base or that
takes the number above `limit`. -/
def readDigits (base limit : Nat) (underscores : Bool) : (soFar : Nat) → Text → Except NumeralError Nat
  | n, [] => .ok n
  | n, b :: rest =>
    if underscores && b == byte '_' then readDigits base limit underscores n rest
    else
      match digitValue? b with
      | none => .error .malformed
      | some d =>
        if base ≤ d then .error .malformed
        else if limit < n * base + d then .error .outOfRange
        else readDigits base limit underscores (n * base + d) rest

/-- A natural number in base `base`, at most `limit`. -/
def readNatInBase (base limit : Nat) (t : Text) : Except NumeralError Nat :=
  if t.isEmpty then .error .malformed else readDigits base limit false 0 t

/-- A natural number in base ten, at most `limit`. -/
def readNat (limit : Nat) (t : Text) : Except NumeralError Nat := readNatInBase 10 limit t

/-- A natural number in the base that its prefix names, at most `limit`. -/
def readPrefixedNat (limit : Nat) (t : Text) : Except NumeralError Nat := do
  let n ←
    match t with
    | [] => .error .malformed
    | 0x30 :: rest =>
      match basePrefix? t with
      | some (base, digits) =>
        if digits.isEmpty then readDigits 8 limit true 0 rest
        else readDigits base limit true 0 digits
      | none => readDigits 8 limit true 0 rest
    | _ => readDigits 10 limit true 0 t
  if t.contains (byte '_') && !underscoresOk t then .error .malformed
  return n

/-- The largest unsigned word of 64 bits. -/
def maxUInt64 : Nat := 18446744073709551615

/-- Reads a signed word of 64 bits, with `readMagnitude` for the digits after the sign. -/
def readSigned (readMagnitude : Text → Except NumeralError Nat) (t : Text) : Except NumeralError Int :=
  let negative := t.head? == some (byte '-')
  match readMagnitude (unsigned t) with
  | .error e => .error e
  | .ok n =>
    if negative then
      if 9223372036854775808 < n then .error .outOfRange else .ok (-n)
    else if 9223372036854775808 ≤ n then .error .outOfRange
    else .ok n

/-- Reads a signed word of 64 bits in base ten. -/
def readInt64 (t : Text) : Except NumeralError Int := readSigned (readNat maxUInt64) t

/-- Reads a signed word of 64 bits in the base that its prefix names. -/
def readPrefixedInt64 (t : Text) : Except NumeralError Int := readSigned (readPrefixedNat maxUInt64) t

/-- The digits of a floating-point numeral up to its exponent: their value, how many of them follow
the point, how many digits there are, and the text after them. -/
structure Mantissa where
  value : Nat
  places : Nat
  count : Nat
  rest : Text

/-- Reads the digits of a floating-point numeral; underscores are skipped here and checked later. -/
def readMantissa (base : Nat) : (seenPoint : Bool) → (value places count : Nat) → Text → Mantissa
  | _, value, places, count, [] => ⟨value, places, count, []⟩
  | seenPoint, value, places, count, b :: rest =>
    if b == byte '_' then readMantissa base seenPoint value places count rest
    else if b == byte '.' then
      if seenPoint then ⟨value, places, count, b :: rest⟩
      else readMantissa base true value places count rest
    else
      match digitValue? b with
      | some d =>
        if d < base then
          readMantissa base seenPoint (value * base + d) (if seenPoint then places + 1 else places)
            (count + 1) rest
        else ⟨value, places, count, b :: rest⟩
      | none => ⟨value, places, count, b :: rest⟩

/-- Reads the digits of an exponent. Beyond ten thousand further digits no longer matter. -/
def readExponentDigits : (soFar : Nat) → Text → Nat × Text
  | n, [] => (n, [])
  | n, b :: rest =>
    if b == byte '_' then readExponentDigits n rest
    else if isDigit b then
      readExponentDigits (if n < 10000 then n * 10 + (b.toNat - 0x30) else n) rest
    else (n, b :: rest)

/-- Reads an exponent, after its letter. -/
def readExponent? (t : Text) : Option (Int × Text) :=
  let digits := unsigned t
  match digits with
  | b :: _ =>
    if isDigit b then
      let (n, rest) := readExponentDigits 0 digits
      some (if t.head? == some (byte '-') then -(n : Int) else n, rest)
    else none
  | [] => none

/-- The names of the values that are no number on the line. -/
def readSpecial? (t : Text) : Option Binary :=
  let lower (b : UInt8) : UInt8 := if 0x41 ≤ b && b ≤ 0x5A then b + 0x20 else b
  let isInfinity (s : Text) : Bool := s == Text.ofString "inf" || s == Text.ofString "infinity"
  let word := t.map lower
  if word == Text.ofString "nan" then some .nan
  else if isInfinity (unsigned word) then some (.infinite (t.head? == some (byte '-')))
  else none

/-- Reads a floating-point numeral and rounds it to the format. What is too large is refused; what
is too small is zero. -/
def readBinary (f : Format) (t : Text) : Except NumeralError Binary :=
  match readSpecial? t with
  | some x => .ok x
  | none =>
    let negative := t.head? == some (byte '-')
    let body := unsigned t
    let hexDigits? : Option Text :=
      match basePrefix? body with
      | some (16, rest) => if rest.isEmpty then none else some rest
      | _ => none
    let isHex := hexDigits?.isSome
    let m := readMantissa (if isHex then 16 else 10) false 0 0 0 (hexDigits?.getD body)
    let isMark (b : UInt8) : Bool :=
      if isHex then b == byte 'p' || b == byte 'P' else b == byte 'e' || b == byte 'E'
    let exponent? : Option (Int × Text) :=
      match m.rest with
      | b :: rest => if isMark b then readExponent? rest else if isHex then none else some (0, m.rest)
      | [] => if isHex then none else some (0, [])
    match exponent? with
    | none => .error .malformed
    | some (exponent, rest) =>
      if m.count == 0 || !rest.isEmpty || (t.contains (byte '_') && !underscoresOk t) then
        .error .malformed
      else
        let x :=
          if isHex then f.ofScaled negative m.value (exponent - 4 * m.places)
          else f.ofDecimal negative m.value (exponent - m.places)
        match x with
        | .infinite _ => .error .outOfRange
        | x => .ok x

end DocFilter.Number
