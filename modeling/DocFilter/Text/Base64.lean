import DocFilter.Text

/-!
Bytes as text: base 64 with padding, and hexadecimal.
-/

set_option autoImplicit false

namespace DocFilter.Text

/-- The letter of a six-bit value. -/
def base64Letter (n : Nat) : UInt8 :=
  if n < 26 then UInt8.ofNat (0x41 + n)
  else if n < 52 then UInt8.ofNat (0x61 + (n - 26))
  else if n < 62 then UInt8.ofNat (0x30 + (n - 52))
  else if n == 62 then byte '+'
  else byte '/'

/-- The six-bit value of a letter. -/
def base64Value? (b : UInt8) : Option Nat :=
  if 0x41 ≤ b && b ≤ 0x5A then some (b.toNat - 0x41)
  else if 0x61 ≤ b && b ≤ 0x7A then some (b.toNat - 0x61 + 26)
  else if 0x30 ≤ b && b ≤ 0x39 then some (b.toNat - 0x30 + 52)
  else if b == byte '+' then some 62
  else if b == byte '/' then some 63
  else none

/-- Three bytes at a time become four letters; the last group is filled up with `=`. -/
def toBase64 : List UInt8 → Text
  | [] => []
  | [a] =>
    let n := a.toNat * 65536
    [base64Letter (n / 262144), base64Letter (n / 4096 % 64), byte '=', byte '=']
  | [a, b] =>
    let n := a.toNat * 65536 + b.toNat * 256
    [base64Letter (n / 262144), base64Letter (n / 4096 % 64), base64Letter (n / 64 % 64), byte '=']
  | a :: b :: c :: rest =>
    let n := a.toNat * 65536 + b.toNat * 256 + c.toNat
    base64Letter (n / 262144) :: base64Letter (n / 4096 % 64) :: base64Letter (n / 64 % 64) ::
      base64Letter (n % 64) :: toBase64 rest

/-- Ends a line after every seventy bytes and after the rest. -/
def inLines : (fuel : Nat) → Text → Text
  | 0, t => t
  | fuel + 1, t => if t.isEmpty then [] else t.take 70 ++ byte '\n' :: inLines fuel (t.drop 70)

/-- Base 64 in lines of seventy letters; less than a line has no line end. -/
def toBase64Lines (bytes : List UInt8) : Text :=
  let letters := toBase64 bytes
  if letters.length < 70 then letters else inLines letters.length letters

/-- The bytes of four letters at a time; padding may fill up the last group only. -/
def fromBase64Groups : Text → Option (List UInt8)
  | [] => some []
  | a :: b :: c :: d :: rest => do
    let x ← base64Value? a
    let y ← base64Value? b
    let first := UInt8.ofNat (x * 4 + y / 16)
    if c == byte '=' then
      if d == byte '=' && rest.isEmpty then return [first] else none
    else
      let z ← base64Value? c
      let second := UInt8.ofNat (y % 16 * 16 + z / 4)
      if d == byte '=' then
        if rest.isEmpty then return [first, second] else none
      else
        let w ← base64Value? d
        return first :: second :: UInt8.ofNat (z % 4 * 64 + w) :: (← fromBase64Groups rest)
  | _ => none

/-- Reads base 64. Line ends inside the text do not count. -/
def fromBase64? (t : Text) : Option (List UInt8) :=
  fromBase64Groups (t.filter fun b => b != 0x0A && b != 0x0D)

/-- Bytes as pairs of hexadecimal digits. -/
def toHex (bytes : List UInt8) : Text := bytes.flatMap fun b => hex 2 b.toNat

/-- Reads pairs of hexadecimal digits. -/
def fromHex? : Text → Option (List UInt8)
  | [] => some []
  | a :: b :: rest => do
    let x ← digitValue? a
    let y ← digitValue? b
    if 16 ≤ x || 16 ≤ y then none
    return UInt8.ofNat (x * 16 + y) :: (← fromHex? rest)
  | [_] => none

end DocFilter.Text
