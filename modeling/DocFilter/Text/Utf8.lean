import DocFilter.Text

/-!
Characters in a text. Decoding never fails: a byte that begins no well-formed UTF-8 sequence is a
*stray*, a piece of its own, and decoding goes on with the byte after it. So the pieces of a text
always account for all of its bytes.
-/

set_option autoImplicit false

namespace DocFilter.Text

/-- A character of a text, or a byte that belongs to none. -/
inductive Piece where
  | char (c : Char)
  | stray (b : UInt8)
  deriving DecidableEq, Repr

/-- The bytes of a piece. -/
def Piece.bytes : Piece → Text
  | .char c => ofChar c
  | .stray b => [b]

/-- The character that stands in for a byte that belongs to none. -/
def replacement : Char := Char.ofNat 0xFFFD

/-- A continuation byte carries six bits of its character. -/
def continuation? (b : UInt8) : Option Nat :=
  if b &&& 0xC0 == 0x80 then some (b.toNat % 64) else none

/-- The character that begins with the byte `b`, with the number of further bytes it takes from
`rest`. Over-long forms, surrogates and values above the last character are no characters. -/
def leading? (b : UInt8) (rest : Text) : Option (Char × Nat) :=
  if b < 0x80 then some (Char.ofNat b.toNat, 0)
  else if b < 0xC2 then none
  else if b < 0xE0 then
    match rest with
    | b₁ :: _ => do
      let x ← continuation? b₁
      return (Char.ofNat (b.toNat % 32 * 64 + x), 1)
    | _ => none
  else if b < 0xF0 then
    match rest with
    | b₁ :: b₂ :: _ => do
      let x ← continuation? b₁
      let y ← continuation? b₂
      let n := b.toNat % 16 * 4096 + x * 64 + y
      if n < 0x800 || (0xD800 ≤ n && n < 0xE000) then none
      else return (Char.ofNat n, 2)
    | _ => none
  else if b < 0xF5 then
    match rest with
    | b₁ :: b₂ :: b₃ :: _ => do
      let x ← continuation? b₁
      let y ← continuation? b₂
      let z ← continuation? b₃
      let n := b.toNat % 8 * 262144 + x * 4096 + y * 64 + z
      if n < 0x10000 || 0x10FFFF < n then none
      else return (Char.ofNat n, 3)
    | _ => none
  else none

/-- The pieces of a text after its first `skip` bytes. -/
def piecesFrom : (skip : Nat) → Text → List Piece
  | _, [] => []
  | skip + 1, _ :: rest => piecesFrom skip rest
  | 0, b :: rest =>
    match leading? b rest with
    | some (c, more) => .char c :: piecesFrom more rest
    | none => .stray b :: piecesFrom 0 rest

/-- The characters and stray bytes of a text, in order. -/
def pieces (t : Text) : List Piece := piecesFrom 0 t

/-- Whether every byte belongs to a character. -/
def isUtf8 (t : Text) : Bool :=
  (pieces t).all fun
    | .char _ => true
    | .stray _ => false

/-- The text with the replacement character for every stray byte. -/
def repaired (t : Text) : Text :=
  (pieces t).flatMap fun
    | .char c => ofChar c
    | .stray _ => ofChar replacement

/-- The text of a sequence of characters. -/
def ofChars (cs : List Char) : Text := cs.flatMap ofChar

/-- The string with these bytes, if they are UTF-8. -/
def toString? (t : Text) : Option String :=
  if isUtf8 t then
    some (String.ofList ((pieces t).filterMap fun
      | .char c => some c
      | .stray _ => none))
  else none

end DocFilter.Text
