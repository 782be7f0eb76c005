import DocFilter.Number.Numeral

/-!
Lengths of time written as numbers with units, such as `1h30m` or `1.5s`. A length is a whole number
of nanoseconds in a signed word of 64 bits; fractions of a nanosecond are dropped.
-/

set_option autoImplicit false

namespace DocFilter.Duration

open Text (byte isDigit)

/-- The units and their lengths in nanoseconds. The sign for a millionth is written with either of
two characters. -/
def units : List (String × Nat) :=
  [("ns", 1), ("us", 1000), ("µs", 1000), ("μs", 1000), ("ms", 1000000), ("s", 1000000000),
    ("m", 60000000000), ("h", 3600000000000)]

/-- The length of a unit. -/
def unit? (t : Text) : Option Nat :=
  (units.find? fun (name, _) => Text.ofString name == t).map (·.2)

/-- The largest magnitude. -/
def limit : Nat := 9223372036854775808

/-- The digits after a decimal point as a number and the power of ten it is divided by. Digits that
would take the number out of its word are passed over. -/
def fractionOf (digits : Text) : Nat × Nat :=
  digits.foldl (fun (x, scale) d =>
    let y := x * 10 + (d.toNat - 0x30)
    if (limit - 1) / 10 < x || limit < y then (x, scale) else (y, scale * 10)) (0, 1)

/-- The product of two floating-point numbers without its fraction. -/
def wholeProduct : Number.Binary → Number.Binary → Nat
  | .finite _ m e, .finite _ n d =>
    ((Number.double.ofScaled false (m * n) (e + d)).truncate?.getD 0).toNat
  | _, _ => 0

/-- The length of a fraction of a unit, in the arithmetic of floating-point numbers. -/
def fractionLength (fraction scale unit : Nat) : Nat :=
  wholeProduct (Number.double.ofInt fraction) (Number.double.round false unit scale)

/-- Reads a number and its unit: the length, and the text after them. -/
def part? (t : Text) : Option (Nat × Text) := do
  let whole := t.takeWhile isDigit
  let t := t.drop whole.length
  let (places, t) :=
    match t with
    | p :: rest =>
      if p == byte '.' then
        let places := rest.takeWhile isDigit
        (places, rest.drop places.length)
      else ([], t)
    | [] => ([], t)
  if whole.isEmpty && places.isEmpty then none
  let name := t.takeWhile fun b => !(isDigit b || b == byte '.')
  let unit ← unit? name
  let n := Text.digitsToNat whole
  if limit < n || limit / unit < n then none
  let (fraction, scale) := fractionOf places
  let length := n * unit + (if fraction == 0 then 0 else fractionLength fraction scale unit)
  if limit < length then none
  return (length, t.drop name.length)

/-- Adds up numbers with units. Every part takes a byte, so the length of the text is enough fuel. -/
def sum? : (fuel : Nat) → (soFar : Nat) → Text → Option Nat
  | _, soFar, [] => some soFar
  | 0, _, _ :: _ => none
  | fuel + 1, soFar, b :: rest => do
    let (length, t) ← part? (b :: rest)
    if limit < soFar + length then none
    sum? fuel (soFar + length) t

/-- Reads a length of time: a sign, and numbers with units or a bare zero. -/
def parse? (t : Text) : Option Int := do
  let negative := t.head? == some (byte '-')
  let body := Number.unsigned t
  if body == Text.ofString "0" then return 0
  if body.isEmpty then none
  let n ← sum? body.length 0 body
  if negative then return -(n : Int)
  if limit ≤ n then none
  return n

/-- Reads a length of time in which a number without a unit counts nanoseconds. -/
def parseLenient? (t : Text) : Option Int :=
  let hasUnit := ["n", "s", "u", "µ", "m", "h"].any fun u => Text.hasInfix (Text.ofString u) t
  if hasUnit then parse? t else parse? (t ++ "ns")

end DocFilter.Duration
