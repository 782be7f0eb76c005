import DocFilter.Text.Printable

/-!
Double-quoted text. Printable characters stand for themselves; a quote and a backslash are escaped;
the control characters with a letter of their own use it; every other character is written by its
code point, and a byte that belongs to no character by its value. No two texts have the same quoted
form.
-/

set_option autoImplicit false

namespace DocFilter.Text

/-- The letter of a control character that has one. -/
def controlLetter? (n : Nat) : Option Char :=
  match n with
  | 0x07 => some 'a'
  | 0x08 => some 'b'
  | 0x09 => some 't'
  | 0x0A => some 'n'
  | 0x0B => some 'v'
  | 0x0C => some 'f'
  | 0x0D => some 'r'
  | _ => none

/-- A character between double quotes. -/
def quotedChar (c : Char) : Text :=
  let n := c.toNat
  if c == '"' || c == '\\' then byte '\\' :: ofChar c
  else if isPrintable c then ofChar c
  else
    match controlLetter? n with
    | some letter => [byte '\\', byte letter]
    | none =>
      if n < 0x80 then "\\x" ++ hex 2 n
      else if n < 0x10000 then "\\u" ++ hex 4 n
      else "\\U" ++ hex 8 n

/-- A piece of a text between double quotes. -/
def Piece.quoted : Piece → Text
  | .char c => quotedChar c
  | .stray b => "\\x" ++ hex 2 b.toNat

/-- The text between double quotes, with escapes. -/
def quoted (t : Text) : Text :=
  byte '"' :: (pieces t).flatMap Piece.quoted ++ [byte '"']

end DocFilter.Text
