import DocFilter.Text.Utf8

/-!
White space in the sense of the Unicode property, and trimming. A filter text is trimmed before it
is read, an index option before it is compared.
-/

set_option autoImplicit false

namespace DocFilter.Text

/-- The characters with the white-space property. -/
def isBlank (c : Char) : Bool :=
  let n := c.toNat
  (0x09 ≤ n && n ≤ 0x0D) || n == 0x20 || n == 0x85 || n == 0xA0 || n == 0x1680 ||
    (0x2000 ≤ n && n ≤ 0x200A) || n == 0x2028 || n == 0x2029 || n == 0x202F || n == 0x205F ||
    n == 0x3000

/-- Whether a piece is a white-space character. -/
def Piece.isBlank : Piece → Bool
  | .char c => Text.isBlank c
  | .stray _ => false

/-- The text without white space at either end. -/
def trim (t : Text) : Text :=
  let inner := (pieces t).dropWhile Piece.isBlank
  (inner.reverse.dropWhile Piece.isBlank).reverse.flatMap Piece.bytes

end DocFilter.Text
