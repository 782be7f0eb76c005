/-!
Text is a sequence of bytes. Nearly always the bytes are UTF-8, but filters, keys and stored
documents may hold anything, and a byte that belongs to no character has to come out again as it
went in; so the library works on bytes and decodes characters only where a rule speaks of them.

This module has the operations that need no decoding: joining, splitting, searching, decimal digits.
-/

set_option autoImplicit false

namespace DocFilter

/-- A text: any sequence of bytes, normally the UTF-8 form of a string. -/
abbrev Text := List UInt8

namespace Text

/-- The UTF-8 form of one character. -/
def ofChar (c : Char) : Text := String.utf8EncodeChar c

/-- The UTF-8 form of a string. -/
def ofString (s : String) : Text := s.toList.flatMap ofChar

instance : Coe String Text := ⟨ofString⟩

/-- The byte of an ASCII character. -/
def byte (c : Char) : UInt8 := c.toUInt8

/-- The text repeated `n` times. -/
def times (n : Nat) (t : Text) : Text := (List.replicate n t).flatten

/-- The parts with `sep` between every two of them. -/
def join (sep : Text) : List Text → Text
  | [] => []
  | [t] => t
  | t :: ts => t ++ sep ++ join sep ts

/-- The parts of a text between the occurrences of a byte; a text without it is its only part. -/
def splitOn (sep : UInt8) : Text → List Text
  | [] => [[]]
  | b :: rest =>
    if b == sep then [] :: splitOn sep rest
    else
      match splitOn sep rest with
      | [] => [[b]]
      | part :: parts => (b :: part) :: parts

/-- The text before the first occurrence of a byte, and the text after it if there is one. -/
def cutAt (sep : UInt8) : Text → Text × Option Text
  | [] => ([], none)
  | b :: rest =>
    if b == sep then ([], some rest)
    else
      let (before, after) := cutAt sep rest
      (b :: before, after)

/-- Whether `needle` occurs somewhere in the text. -/
def hasInfix (needle : Text) : Text → Bool
  | [] => needle.isEmpty
  | b :: rest => needle.isPrefixOf (b :: rest) || hasInfix needle rest

/-- The text without the bytes at its end that satisfy `p`. -/
def dropEndWhile (p : UInt8 → Bool) (t : Text) : Text :=
  (t.reverse.dropWhile p).reverse

/-- Whether a byte is one of the digits 0 to 9. -/
def isDigit (b : UInt8) : Bool := 0x30 ≤ b && b ≤ 0x39

/-- Whether a byte is one of the letters A to Z or a to z. -/
def isLetter (b : UInt8) : Bool := (0x41 ≤ b && b ≤ 0x5A) || (0x61 ≤ b && b ≤ 0x7A)

/-- The value of a digit in a base up to sixteen; letters count from ten in either case. -/
def digitValue? (b : UInt8) : Option Nat :=
  if isDigit b then some (b.toNat - 0x30)
  else if 0x61 ≤ b && b ≤ 0x7A then some (b.toNat - 0x61 + 10)
  else if 0x41 ≤ b && b ≤ 0x5A then some (b.toNat - 0x41 + 10)
  else none

/-- The digit that stands for a value below sixteen, in lower case. -/
def digit (n : Nat) : UInt8 :=
  if n < 10 then UInt8.ofNat (0x30 + n) else UInt8.ofNat (0x61 + (n - 10))

/-- A natural number in decimal digits. -/
def ofNat (n : Nat) : Text := (Nat.toDigits 10 n).map byte

/-- An integer in decimal digits, with a minus sign if it is negative. -/
def ofInt (n : Int) : Text :=
  if n < 0 then byte '-' :: ofNat n.natAbs else ofNat n.natAbs

/-- The last `width` hexadecimal digits of a number. -/
def hex (width : Nat) (n : Nat) : Text :=
  match width with
  | 0 => []
  | w + 1 => hex w (n / 16) ++ [digit (n % 16)]

/-- A decimal number padded with zeros to at least `width` digits. -/
def padded (width : Nat) (n : Nat) : Text :=
  let digits := ofNat n
  List.replicate (width - digits.length) (byte '0') ++ digits

/-- The number that a run of decimal digits stands for. -/
def digitsToNat (t : Text) : Nat :=
  t.foldl (fun n b => 10 * n + (b.toNat - 0x30)) 0

/-- The elements without those that occurred before, in order of their first occurrence. -/
def unique (ts : List Text) : List Text :=
  ts.foldl (fun seen t => if seen.contains t then seen else seen ++ [t]) []

end Text
end DocFilter
