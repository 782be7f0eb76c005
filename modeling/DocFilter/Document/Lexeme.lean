import DocFilter.Document
import DocFilter.Number.Numeral

/-!
The lexemes of a filter written with braces. The notation is lenient: commas and colons separate
lexemes like blanks, and the only trace they leave is that the lexeme after them is marked as
*separated*. A byte with value zero ends the input. Lexing goes on up to the first fault, which is
the last lexeme of the list; the reader decides whether it ever gets there.

This is the token stream below `jsonValue`, taken as if the whole text were at hand from the start.
-/

set_option autoImplicit false

namespace DocFilter

open Text (byte)

/-- The constants of the notation. -/
inductive Word where
  | null
  | true
  | false
  deriving DecidableEq, Repr

namespace Word

/-- How a constant is spelt. -/
def spelling : Word → Text
  | .null => "null"
  | .true => "true"
  | .false => "false"

/-- What a misspelt constant is called in messages. -/
def role : Word → Text
  | .null => "null"
  | .true => "bool(true)"
  | .false => "bool(false)"

/-- The value of a constant. -/
def value : Word → Value
  | .null => .null
  | .true => .bool Bool.true
  | .false => .bool Bool.false

end Word

/-- What can be wrong with a lexeme. -/
inductive LexFault where
  /-- A byte that begins no lexeme. -/
  | strayByte (b : UInt8)
  /-- A constant with a wrong byte in it, or that ends too early. -/
  | misspelt (w : Word) (b : Option UInt8)
  /-- A string without an end, with a zero byte, or with an unknown escape. -/
  | brokenString
  /-- The input ends after a backslash. -/
  | openEscape
  /-- The input ends within the digits of an escape. -/
  | shortEscape
  deriving DecidableEq, Repr

namespace LexFault

/-- A byte shown as the character with its value. -/
def shown (b : UInt8) : Text := Text.ofChar (Char.ofNat b.toNat)

/-- The words of a fault. -/
def message : LexFault → Text
  | .strayByte b => "json: invalid character " ++ shown b ++ " as token"
  | .misspelt w (some b) => "json: invalid character " ++ shown b ++ " as " ++ w.role
  | .misspelt w none => "json: invalid character as " ++ w.role
  | .brokenString => "json: string unexpected end of JSON input"
  | .openEscape => "json: invalid character as escaped string"
  | .shortEscape => "json: invalid character u as escaped string"

end LexFault

/-- A lexeme of the notation. -/
inductive Lexeme where
  | openObject
  | closeObject
  | openArray
  | closeArray
  | number (digits : Text)
  | string (t : Text)
  | word (w : Word)
  | fault (f : LexFault)
  deriving DecidableEq, Repr

/-- A lexeme, and whether a comma or a colon stands right before it. -/
structure Placed where
  separated : Bool
  lexeme : Lexeme
  deriving DecidableEq, Repr

namespace Lexeme

/-- The value of a hexadecimal digit; any other byte counts as zero. -/
def hexValue (b : UInt8) : Nat :=
  match Text.digitValue? b with
  | some n => if n < 16 then n else 0
  | none => 0

/-- The value of four hexadecimal digits. -/
def hexWord (a b c d : UInt8) : Nat :=
  ((hexValue a * 16 + hexValue b) * 16 + hexValue c) * 16 + hexValue d

/-- Whether a number is the first half of a pair of surrogates. -/
def isHigh (n : Nat) : Bool := 0xD800 ≤ n && n < 0xDC00

/-- Whether a number is the second half of a pair of surrogates. -/
def isLow (n : Nat) : Bool := 0xDC00 ≤ n && n < 0xE000

/-- The text of a numbered character; half a pair of surrogates is no character. -/
def numbered (n : Nat) : Text :=
  if isHigh n || isLow n then Text.ofChar Text.replacement else Text.ofChar (Char.ofNat n)

/-- The letter of an escape and the byte it stands for. -/
def simpleEscape? (b : UInt8) : Option UInt8 :=
  if b == byte '"' || b == byte '\\' || b == byte '/' then some b
  else if b == byte 'b' then some 0x08
  else if b == byte 'f' then some 0x0C
  else if b == byte 'n' then some 0x0A
  else if b == byte 'r' then some 0x0D
  else if b == byte 't' then some 0x09
  else none

/-- The second half of a pair of surrogates, written as an escape with something after it. -/
def lowHalf? : Text → Option Nat
  | s :: u :: h₁ :: h₂ :: h₃ :: h₄ :: _ :: _ =>
    let n := hexWord h₁ h₂ h₃ h₄
    if s == byte '\\' && u == byte 'u' && isLow n then some n else none
  | _ => none

/-- The text that an escape stands for, and the number of bytes it takes after its backslash. -/
def escape : Text → Except LexFault (Text × Nat)
  | [] => .error .openEscape
  | letter :: rest =>
    if letter == byte 'u' then
      match rest with
      | h₁ :: h₂ :: h₃ :: h₄ :: next :: more =>
        let n := hexWord h₁ h₂ h₃ h₄
        match isHigh n, lowHalf? (next :: more) with
        | true, some low =>
          .ok (Text.ofChar (Char.ofNat (0x10000 + (n - 0xD800) * 0x400 + (low - 0xDC00))), 11)
        | _, _ => .ok (numbered n, 5)
      | _ => .error .shortEscape
    else
      match simpleEscape? letter with
      | some b => .ok ([b], 1)
      | none => .error .brokenString

/-- Puts bytes in front of a scanned string and counts one byte more. -/
def extend (front : Text) (r : Except LexFault (Text × Nat)) : Except LexFault (Text × Nat) :=
  r.map fun (t, n) => (front ++ t, n + 1)

/-- The content of a string, from `skip` bytes after its opening quote on, and the number of bytes
up to and including the closing quote. -/
def scanString : (skip : Nat) → Text → Except LexFault (Text × Nat)
  | _, [] => .error .brokenString
  | skip + 1, _ :: rest => extend [] (scanString skip rest)
  | 0, b :: rest =>
    if b == byte '"' then .ok ([], 1)
    else if b == 0 then .error .brokenString
    else if b == byte '\\' then
      match escape rest with
      | .ok (t, n) => extend t (scanString n rest)
      | .error f => .error f
    else extend [b] (scanString 0 rest)

/-- The bytes that continue a number. -/
def continuesNumber (b : UInt8) : Bool :=
  Text.isDigit b || b == byte '.' || b == byte 'e' || b == byte 'E' || b == byte '+' || b == byte '-'

/-- Reads the rest of a constant. The input may end one byte before the constant does. -/
def scanWord (w : Word) : (expected : Text) → Text → Option LexFault
  | [], _ => none
  | [_], [] => none
  | _ :: _, [] => some (.misspelt w none)
  | e :: es, b :: rest => if e == b then scanWord w es rest else some (.misspelt w (some b))

/-- The constant that begins with a byte. -/
def wordOf? (b : UInt8) : Option Word :=
  if b == byte 't' then some .true
  else if b == byte 'f' then some .false
  else if b == byte 'n' then some .null
  else none

/-- The lexemes of a text after its first `skip` bytes. -/
def lexFrom : (skip : Nat) → (separated : Bool) → Text → List Placed
  | _, _, [] => []
  | skip + 1, separated, _ :: rest => lexFrom skip separated rest
  | 0, separated, b :: rest =>
    if b == byte ' ' || b == byte '\n' || b == byte '\r' || b == byte '\t' then
      lexFrom 0 separated rest
    else if b == byte ',' || b == byte ':' then lexFrom 0 true rest
    else if b == 0 then []
    else if b == byte '\x7b' then ⟨separated, .openObject⟩ :: lexFrom 0 false rest
    else if b == byte '\x7d' then ⟨separated, .closeObject⟩ :: lexFrom 0 false rest
    else if b == byte '[' then ⟨separated, .openArray⟩ :: lexFrom 0 false rest
    else if b == byte ']' then ⟨separated, .closeArray⟩ :: lexFrom 0 false rest
    else if Text.isDigit b || b == byte '-' then
      let more := rest.takeWhile continuesNumber
      ⟨separated, .number (b :: more)⟩ :: lexFrom more.length false rest
    else if b == byte '"' then
      match scanString 0 rest with
      | .ok (t, n) => ⟨separated, .string (Text.repaired t)⟩ :: lexFrom n false rest
      | .error f => [⟨separated, .fault f⟩]
    else
      match wordOf? b with
      | none => [⟨separated, .fault (.strayByte b)⟩]
      | some w =>
        match scanWord w (w.spelling.drop 1) rest with
        | some f => [⟨separated, .fault f⟩]
        | none => ⟨separated, .word w⟩ :: lexFrom (w.spelling.length - 1) false rest

/-- The lexemes of a text. -/
def lex (t : Text) : List Placed := lexFrom 0 false t

end Lexeme
end DocFilter
