/-!
Binary floating-point numbers as exact values: a finite number is a sign, a natural mantissa and a
power of two. A `Format` says how many bits a mantissa has and how far the exponents reach, and
`Format.round` takes a fraction to the nearest number of the format, ties to the even mantissa. All
arithmetic is on natural numbers and integers, so nothing here is rounded twice.
-/

set_option autoImplicit false

namespace DocFilter.Number

/-- A binary number: `mantissa * 2 ^ exponent` with a sign, an infinity, or not a number. -/
inductive Binary where
  | nan
  | infinite (negative : Bool)
  | finite (negative : Bool) (mantissa : Nat) (exponent : Int)
  deriving DecidableEq, Repr, Inhabited

/-- A family of binary numbers: mantissas below `2 ^ precision` and exponents from `minExponent`
to `maxExponent`. -/
structure Format where
  precision : Nat
  minExponent : Int
  maxExponent : Int
  deriving DecidableEq, Repr

/-- Numbers of 64 bits. -/
def double : Format := ⟨53, -1074, 971⟩

/-- Numbers of 32 bits. -/
def single : Format := ⟨24, -149, 104⟩

/-- The nearest natural number to a fraction; a half goes to the even neighbour. -/
def nearestEven (num den : Nat) : Nat :=
  let q := num / den
  let r := num % den
  if 2 * r < den then q
  else if den < 2 * r then q + 1
  else if q % 2 == 0 then q
  else q + 1

/-- The fraction `num / den` divided by `2 ^ exponent`. -/
def scaleDown (num den : Nat) (exponent : Int) : Nat × Nat :=
  match exponent with
  | .ofNat e => (num, den * Nat.pow 2 e)
  | .negSucc e => (num * Nat.pow 2 (e + 1), den)

/-- The exponent for which the fraction has exactly `precision` bits before the point. -/
def Format.exponentOf (f : Format) (num den : Nat) : Int :=
  let guess : Int := (num.log2 : Int) - den.log2 - f.precision
  let (n, d) := scaleDown num den guess
  let exact := if d * Nat.pow 2 f.precision ≤ n then guess + 1 else guess
  max exact f.minExponent

/-- The nearest number of the format to a signed fraction. -/
def Format.round (f : Format) (negative : Bool) (num den : Nat) : Binary :=
  if num == 0 then .finite negative 0 f.minExponent
  else
    let e := f.exponentOf num den
    let (n, d) := scaleDown num den e
    let m := nearestEven n d
    let (m, e) := if m == Nat.pow 2 f.precision then (Nat.pow 2 (f.precision - 1), e + 1) else (m, e)
    if f.maxExponent < e then .infinite negative else .finite negative m e

/-- The nearest number to an integer. -/
def Format.ofInt (f : Format) (n : Int) : Binary := f.round (n < 0) n.natAbs 1

/-- The nearest number to `digits * 10 ^ exponent`. Magnitudes far outside the format are settled by
the number of digits alone, so that no huge power is ever formed. -/
def Format.ofDecimal (f : Format) (negative : Bool) (digits : Nat) (exponent : Int) : Binary :=
  let size : Int := (Nat.toDigits 10 digits).length + exponent
  if digits == 0 || size < -400 then .finite negative 0 f.minExponent
  else if 400 < size then .infinite negative
  else
    match exponent with
    | .ofNat e => f.round negative (digits * Nat.pow 10 e) 1
    | .negSucc e => f.round negative digits (Nat.pow 10 (e + 1))

/-- The nearest number to `digits * 2 ^ exponent`. -/
def Format.ofScaled (f : Format) (negative : Bool) (digits : Nat) (exponent : Int) : Binary :=
  let size : Int := digits.log2 + exponent
  if digits == 0 || size < -2000 then .finite negative 0 f.minExponent
  else if 2000 < size then .infinite negative
  else
    match exponent with
    | .ofNat e => f.round negative (digits * Nat.pow 2 e) 1
    | .negSucc e => f.round negative digits (Nat.pow 2 (e + 1))

namespace Binary

/-- Zero. -/
def zero : Binary := .finite false 0 double.minExponent

/-- The number in another format. -/
def convert (f : Format) : Binary → Binary
  | .nan => .nan
  | .infinite s => .infinite s
  | .finite s m e => f.ofScaled s m e

/-- The integer that is left when the fraction is dropped; none for the values that are no number
on the line. -/
def truncate? : Binary → Option Int
  | .nan => none
  | .infinite _ => none
  | .finite s m e =>
    let magnitude : Int :=
      match e with
      | .ofNat k => m * Nat.pow 2 k
      | .negSucc k => m / Nat.pow 2 (k + 1)
    some (if s then -magnitude else magnitude)

/-- Whether the number is zero, of either sign. -/
def isZero : Binary → Bool
  | .finite _ m _ => m == 0
  | _ => false

/-- `mantissa * 2 ^ (exponent - base)` as a signed integer, for a `base` not above the exponent. -/
def unitsOf (negative : Bool) (mantissa : Nat) (exponent base : Int) : Int :=
  let magnitude : Int := mantissa * Nat.pow 2 (exponent - base).toNat
  if negative then -magnitude else magnitude

/-- The order of numbers; not a number is below nothing and above nothing. -/
def lt : Binary → Binary → Bool
  | .nan, _ => false
  | _, .nan => false
  | .infinite s, .infinite t => s && !t
  | .infinite s, .finite .. => s
  | .finite .., .infinite t => !t
  | .finite s m e, .finite t n d =>
    let base := min e d
    unitsOf s m e base < unitsOf t n d base

/-- Whether the number lies above zero. -/
def isPositive (x : Binary) : Bool := lt zero x

/-- Whether the number lies below zero. -/
def isNegative (x : Binary) : Bool := lt x zero

/-- The least signed word of 64 bits. -/
def leastWord : Int := -9223372036854775808

/-- The fraction is dropped and the rest taken as a signed word of 64 bits. Whatever has no place
there becomes the least word. -/
def toInt64 (x : Binary) : Int :=
  match truncate? x with
  | some n => if leastWord ≤ n && n < -leastWord then n else leastWord
  | none => leastWord

/-- The fraction is dropped and the rest taken as an unsigned word of 64 bits. Negative numbers wrap
around as signed words; whatever has no place at all becomes zero. -/
def toUInt64 (x : Binary) : Nat :=
  match truncate? x with
  | some n =>
    if n < -leastWord then ((toInt64 x) % 18446744073709551616).toNat
    else if n < 18446744073709551616 then n.toNat
    else 0
  | none =>
    match x with
    | .infinite true => 9223372036854775808
    | _ => 0

end Binary
end DocFilter.Number
