import DocFilter.Number.Shortest
import DocFilter.Text

/-!
How numbers are written. A layout only decides for which powers of ten the digits stand around a
decimal point and for which they are followed by an exponent; the digits themselves are always the
shortest that read back as the number.
-/

set_option autoImplicit false

namespace DocFilter.Number

/-- Says for which powers of ten of the first digit a number is written without an exponent. -/
structure Layout where
  positional : Int → Bool

/-- Always an exponent. -/
def Layout.scientific : Layout := ⟨fun _ => false⟩

/-- Never an exponent. -/
def Layout.plain : Layout := ⟨fun _ => true⟩

/-- No exponent for magnitudes from a ten-thousandth to below a million. -/
def Layout.compact : Layout := ⟨fun x => -4 ≤ x && x < 6⟩

/-- No exponent for magnitudes from a millionth to below `10 ^ 21`. -/
def Layout.interchange : Layout := ⟨fun x => -6 ≤ x && x < 21⟩

/-- Digits around a decimal point, without needless zeros. -/
def positionalText (d : Decimal) : Text :=
  let digits := d.chars.map Text.byte
  match d.exponent with
  | .ofNat e => if d.digits == 0 then digits else digits ++ List.replicate e (Text.byte '0')
  | .negSucc e =>
    let places := e + 1
    if places < digits.length then
      digits.take (digits.length - places) ++ [Text.byte '.'] ++ digits.drop (digits.length - places)
    else
      "0." ++ List.replicate (places - digits.length) (Text.byte '0') ++ digits

/-- One digit before the point, and an exponent with a sign and at least two digits. -/
def scientificText (d : Decimal) : Text :=
  let digits := d.chars.map Text.byte
  let rest := digits.drop 1
  let point : Text := if rest.isEmpty then [] else Text.byte '.' :: rest
  let x := d.leading
  let sign := if x < 0 then Text.byte '-' else Text.byte '+'
  digits.take 1 ++ point ++ [Text.byte 'e', sign] ++ Text.padded 2 x.natAbs

/-- The text of a number of a format. -/
def Layout.write (l : Layout) (f : Format) : Binary → Text
  | .nan => "NaN"
  | .infinite negative => if negative then "-Inf" else "+Inf"
  | .finite negative mantissa exponent =>
    let d := f.shortest mantissa exponent
    let body := if l.positional d.leading then positionalText d else scientificText d
    if negative then Text.byte '-' :: body else body

end DocFilter.Number
