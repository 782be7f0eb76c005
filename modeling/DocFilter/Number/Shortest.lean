import DocFilter.Number.Binary

/-!
The shortest decimal of a binary number. Among all decimals that round to the number, those with the
fewest digits are taken, and of these the nearest to it. For each number of digits it is enough to
look at the two decimals next to the number on that grid.
-/

set_option autoImplicit false

namespace DocFilter.Number

/-- The decimal number `digits * 10 ^ exponent`. -/
structure Decimal where
  digits : Nat
  exponent : Int
  deriving DecidableEq, Repr

/-- The digits of a decimal, the most significant first. -/
def Decimal.chars (d : Decimal) : List Char := Nat.toDigits 10 d.digits

/-- The power of ten of the first digit. -/
def Decimal.leading (d : Decimal) : Int := d.chars.length - 1 + d.exponent

/-- A positive real given as a fraction, with the interval of reals that round to it: `low` and
`high` over the same denominator, both of them inside exactly if `closed`. -/
structure Rounded where
  value : Nat
  low : Nat
  high : Nat
  den : Nat
  closed : Bool

/-- The interval of a positive number. Quarter units keep the ends whole also below a power of two,
where the gap to the next smaller number is half as wide. -/
def Format.interval (f : Format) (mantissa : Nat) (exponent : Int) : Rounded :=
  let narrow := mantissa == Nat.pow 2 (f.precision - 1) && f.minExponent < exponent
  let low := if narrow then 4 * mantissa - 1 else 4 * mantissa - 2
  let closed := mantissa % 2 == 0
  match exponent - 2 with
  | .ofNat e =>
    let unit := Nat.pow 2 e
    ⟨4 * mantissa * unit, low * unit, (4 * mantissa + 2) * unit, 1, closed⟩
  | .negSucc e => ⟨4 * mantissa, low, 4 * mantissa + 2, Nat.pow 2 (e + 1), closed⟩

/-- The least `j`, up to a bound, for which the fraction times `10 ^ j` reaches one. -/
def tensToReachOne (num den : Nat) : (bound : Nat) → Nat
  | 0 => 0
  | bound + 1 => if den ≤ num then 0 else 1 + tensToReachOne (10 * num) den bound

/-- The power of ten of the first digit of a positive fraction. -/
def leadingPower (num den : Nat) : Int :=
  if den ≤ num then (Nat.toDigits 10 (num / den)).length - 1
  else -(tensToReachOne num den 400)

/-- `a * 10 ^ power` as a fraction. -/
def timesTen (a : Nat) (power : Int) : Nat × Nat :=
  match power with
  | .ofNat p => (a * Nat.pow 10 p, 1)
  | .negSucc p => (a, Nat.pow 10 (p + 1))

/-- Whether the decimal `digits * 10 ^ power` rounds to the number. -/
def Rounded.holds (r : Rounded) (digits : Nat) (power : Int) : Bool :=
  let (n, d) := timesTen digits power
  let point := n * r.den
  if r.closed then r.low * d ≤ point && point ≤ r.high * d
  else r.low * d < point && point < r.high * d

/-- The decimal next to the number on the grid of the given power of ten, if one rounds to it. -/
def Rounded.onGrid? (r : Rounded) (power : Int) : Option Nat :=
  let (n, d) := timesTen 1 power
  -- the number in grid units is `value * d / (den * n)`
  let num := r.value * d
  let den := r.den * n
  let below := num / den
  let rest := num % den
  match r.holds below power && 0 < below, r.holds (below + 1) power with
  | true, true => some (if 2 * rest < den || (2 * rest == den && below % 2 == 0) then below else below + 1)
  | true, false => some below
  | false, true => some (below + 1)
  | false, false => none

/-- The first grid, from the coarsest on, that has a decimal for the number. -/
def Rounded.search (r : Rounded) : (grids : Nat) → Int → Decimal
  | 0, power => ⟨0, power⟩
  | grids + 1, power =>
    match r.onGrid? power with
    | some digits => ⟨digits, power⟩
    | none => r.search grids (power - 1)

/-- Drops zeros at the end of the digits, at most `bound` of them. -/
def Decimal.trimmed (d : Decimal) : (bound : Nat) → Decimal
  | 0 => d
  | bound + 1 =>
    if d.digits % 10 == 0 && d.digits != 0 then
      Decimal.trimmed ⟨d.digits / 10, d.exponent + 1⟩ bound
    else d

/-- The shortest decimal that rounds to a positive number of the format; zero is its own decimal.
No number of the formats used here needs more than eighteen grids. -/
def Format.shortest (f : Format) (mantissa : Nat) (exponent : Int) : Decimal :=
  if mantissa == 0 then ⟨0, 0⟩
  else
    let r := f.interval mantissa exponent
    (r.search 19 (leadingPower r.value r.den)).trimmed 400

end DocFilter.Number
