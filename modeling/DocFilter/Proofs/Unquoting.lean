import DocFilter.Proofs.Utf8
import DocFilter.Text.Quoted
import Mathlib.Algebra.Group.Nat.Defs

/-!
Reading quoted text. Behind a backslash stands a letter for a control character, a sign for itself,
a byte by two hexadecimal or three octal digits, or a character by the digits of its code point.
Everything else stands for itself, except that a line cannot end between the quotes and that a byte
which belongs to no character is read as the replacement character.

The reader accepts more than the writer writes: octal digits, capital digits, a character by its
number although it could stand for itself. Whatever the bytes of a text are, reading undoes quoting
(`unquoted?_quoted`). The argument goes piece by piece: a written piece is read as its bytes and
takes nothing of what follows it (`unquotedFrom_piece`).
-/

set_option autoImplicit false

namespace DocFilter.Text

/-! ## The reader -/

/-- The letters and signs that stand behind a backslash alone, with the byte they stand for. -/
def escapedBytes : List (UInt8 × UInt8) :=
  [(byte 'a', 0x07), (byte 'b', 0x08), (byte 't', 0x09), (byte 'n', 0x0A), (byte 'v', 0x0B),
    (byte 'f', 0x0C), (byte 'r', 0x0D), (byte '\\', byte '\\'), (byte '"', byte '"')]

/-- Takes up one more digit of a number. -/
def addDigit? (base n : Nat) (b : UInt8) : Option Nat :=
  ((digitValue? b).filter (· < base)).map (base * n + ·)

/-- The number that the first `width` bytes stand for, if they are digits. -/
def number? (base width : Nat) (t : Text) : Option Nat :=
  if width ≤ t.length then (t.take width).foldlM (addDigit? base) 0 else none

/-- The bytes of the character with a number, if there is one. -/
def codePoint? (n : Nat) : Option Text := if n.isValidChar then some (ofChar (Char.ofNat n)) else none

/-- What an escape stands for, with the number of bytes that it takes behind the backslash. -/
def escape? : Text → Option (Text × Nat)
  | [] => none
  | b :: rest =>
    match escapedBytes.lookup b with
    | some c => some ([c], 1)
    | none =>
      if b == byte 'x' then (number? 16 2 rest).map fun n => ([UInt8.ofNat n], 3)
      else if b == byte 'u' then ((number? 16 4 rest).bind codePoint?).map (·, 5)
      else if b == byte 'U' then ((number? 16 8 rest).bind codePoint?).map (·, 9)
      else ((number? 8 3 (b :: rest)).filter (· < 256)).map fun n => ([UInt8.ofNat n], 3)

/-- What the character or the stray byte at the beginning of a text stands for, with the number of
bytes that it takes behind the first. -/
def standing (b : UInt8) (rest : Text) : Text × Nat :=
  match leading? b rest with
  | some (c, more) => (ofChar c, more)
  | none => (ofChar replacement, 0)

/-- Reads on to the closing quote, with which the text has to end, after the first `skip` bytes. -/
def unquotedFrom : (skip : Nat) → Text → Option Text
  | _, [] => none
  | skip + 1, _ :: rest => unquotedFrom skip rest
  | 0, b :: rest =>
    if b == byte '"' then if rest.isEmpty then some [] else none
    else if b == byte '\n' then none
    else
      (if b == byte '\\' then escape? rest else some (standing b rest)).bind fun r =>
        (unquotedFrom r.2 rest).map (r.1 ++ ·)

/-- The text that a quoted text stands for. -/
def unquoted? : Text → Option Text
  | [] => none
  | b :: rest => if b == byte '"' then unquotedFrom 0 rest else none

/-! ## Digits -/

/-- A written hexadecimal digit is read as its value, behind those that were read before. -/
theorem addDigit?_digit (n : Nat) {d : Nat} (hd : d < 16) :
    addDigit? 16 n (digit d) = some (16 * n + d) := by
  have hvalue : ∀ k : Fin 16, digitValue? (digit k) = some k := by decide
  rw [addDigit?, hvalue ⟨d, hd⟩]
  simp [Option.filter, hd]

theorem length_hex (width n : Nat) : (hex width n).length = width := by
  induction width generalizing n with
  | zero => rfl
  | succ w ih => simp [hex, ih]

/-- Hexadecimal digits are read as the number they were written from, as far as there are digits. -/
theorem foldlM_hex (width n : Nat) : (hex width n).foldlM (addDigit? 16) 0 = some (n % 16 ^ width) := by
  induction width generalizing n with
  | zero => simp [hex, Nat.mod_one]
  | succ w ih =>
    have hdigit : n % 16 < 16 := Nat.mod_lt n (by decide)
    have hsplit : n % 16 ^ (w + 1) = 16 * (n / 16 % 16 ^ w) + n % 16 := by
      rw [Nat.pow_succ', Nat.mod_mul, Nat.add_comm]
    rw [hex, List.foldlM_append, ih, hsplit]
    simp [addDigit?_digit _ hdigit]

/-- A number that fits is read back from its digits, with nothing taken of what follows. -/
theorem number?_hex {width n : Nat} (hn : n < 16 ^ width) (rest : Text) :
    number? 16 width (hex width n ++ rest) = some n := by
  have htake : (hex width n ++ rest).take width = hex width n := List.take_left' (length_hex width n)
  rw [number?, if_pos (by simp [length_hex]), htake, foldlM_hex, Nat.mod_eq_of_lt hn]

/-- The number of a character is a code point, which stands for the bytes of the character. -/
theorem codePoint?_toNat (c : Char) : codePoint? c.toNat = some (ofChar c) := by
  have hvalid : c.toNat.isValidChar := c.valid
  rw [codePoint?, if_pos hvalid, Char.ofNat_toNat]

/-! ## Escapes -/

theorem unquotedFrom_drop (n : Nat) (t : Text) : unquotedFrom n t = unquotedFrom 0 (t.drop n) := by
  induction t generalizing n with
  | nil => cases n <;> rfl
  | cons b t ih =>
    cases n with
    | zero => rfl
    | succ n => exact ih n

/-- An escape is read as what it stands for, and what follows it is read on its own. -/
theorem unquotedFrom_escape {e meant rest : Text} (h : escape? (e ++ rest) = some (meant, e.length)) :
    unquotedFrom 0 (byte '\\' :: (e ++ rest)) = (unquotedFrom 0 rest).map (meant ++ ·) := by
  rw [unquotedFrom, if_neg (by decide), if_neg (by decide), if_pos (by decide), h, Option.bind_some,
    unquotedFrom_drop, List.drop_left]

/-- A byte by its number. -/
theorem unquotedFrom_byte {n : Nat} (hn : n < 256) (rest : Text) :
    unquotedFrom 0 ("\\x" ++ hex 2 n ++ rest) = (unquotedFrom 0 rest).map ([UInt8.ofNat n] ++ ·) := by
  apply unquotedFrom_escape (e := byte 'x' :: hex 2 n)
  show (number? 16 2 (hex 2 n ++ rest)).map _ = _
  rw [number?_hex hn]
  simp [length_hex]

/-- A character by its number, behind a letter that says how many digits there are. -/
theorem unquotedFrom_number (letter : UInt8) (width : Nat)
    (hletter : ∀ t, escape? (letter :: t) = ((number? 16 width t).bind codePoint?).map (·, width + 1))
    {c : Char} (hc : c.toNat < 16 ^ width) (rest : Text) :
    unquotedFrom 0 (byte '\\' :: letter :: hex width c.toNat ++ rest)
      = (unquotedFrom 0 rest).map (ofChar c ++ ·) := by
  apply unquotedFrom_escape (e := letter :: hex width c.toNat)
  rw [List.cons_append, hletter, number?_hex hc, Option.bind_some, codePoint?_toNat]
  simp [length_hex]

/-! ## Characters -/

/-- A character whose first byte is that of a sign is the sign. -/
theorem eq_of_first_byte {c : Char} {b : UInt8} {more : Text} (hchar : ofChar c = b :: more)
    (hb : b < 0x80) : c = Char.ofNat b.toNat := by
  obtain ⟨b', more', hchar', hleading⟩ := leading?_ofChar c []
  rw [hchar] at hchar'
  obtain ⟨rfl, rfl⟩ := List.cons.inj hchar'
  have hone := leading?_one (UInt8.lt_iff_toNat_lt.mp hb) (more ++ [])
  rw [UInt8.ofNat_toNat, hleading] at hone
  exact congrArg Prod.fst (Option.some.inj hone)

/-- A character that needs no escape is read as itself. The two signs with a meaning and the end of a line
would not be. -/
theorem unquotedFrom_plain {c : Char} (hquote : c ≠ '"') (hslash : c ≠ '\\') (hline : c ≠ '\n')
    (rest : Text) :
    unquotedFrom 0 (ofChar c ++ rest) = (unquotedFrom 0 rest).map (ofChar c ++ ·) := by
  obtain ⟨b, more, hchar, hleading⟩ := leading?_ofChar c rest
  -- A sign would be the whole character, since its byte begins no longer one.
  have hsign : ∀ a : UInt8, a < 0x80 → c ≠ Char.ofNat a.toNat → (b == a) = false := by
    intro a ha hne
    rw [beq_eq_false_iff_ne]
    intro hba
    exact hne (hba ▸ eq_of_first_byte hchar (hba ▸ ha))
  have hstanding : standing b (more ++ rest) = (ofChar c, more.length) := by rw [standing, hleading]
  rw [hchar, List.cons_append, unquotedFrom, hsign (byte '"') (by decide) hquote,
    hsign (byte '\n') (by decide) hline, hsign (byte '\\') (by decide) hslash]
  simp only [Bool.false_eq_true, if_false, Option.bind_some, hstanding]
  rw [unquotedFrom_drop, List.drop_left, hchar]

/-- The end of a line is not printable, so it is never written as it is. -/
theorem isPrintable_lineFeed : isPrintable '\n' = false := by decide +kernel

/-- The letter of a control character is read as the character. There are seven of them, and each is tried.
-/
theorem unquotedFrom_control {c : Char} {letter : Char} (h : controlLetter? c.toNat = some letter)
    (rest : Text) :
    unquotedFrom 0 ([byte '\\', byte letter] ++ rest) = (unquotedFrom 0 rest).map (ofChar c ++ ·) := by
  apply unquotedFrom_escape (e := [byte letter])
  have hself : Char.ofNat c.toNat = c := Char.ofNat_toNat c
  generalize c.toNat = n at h hself
  rw [← hself]
  unfold controlLetter? at h
  split at h <;> cases h <;> rfl

/-- A written character is read as the character. The cases are those of the writer: signs with a meaning,
printable characters, control characters with a letter, bytes, and numbers of four or eight digits. -/
theorem unquotedFrom_quotedChar (c : Char) (rest : Text) :
    unquotedFrom 0 (quotedChar c ++ rest) = (unquotedFrom 0 rest).map (ofChar c ++ ·) := by
  unfold quotedChar
  by_cases hsign : c = '"' ∨ c = '\\'
  · rw [if_pos (by simpa using hsign)]
    rcases hsign with rfl | rfl
    · exact unquotedFrom_escape (e := ofChar '"') rfl
    · exact unquotedFrom_escape (e := ofChar '\\') rfl
  rw [if_neg (by simpa using hsign)]
  rw [not_or] at hsign
  by_cases hprintable : isPrintable c
  · have hline : c ≠ '\n' := by
      rintro rfl
      rw [isPrintable_lineFeed] at hprintable
      exact Bool.false_ne_true hprintable
    rw [if_pos hprintable]
    exact unquotedFrom_plain hsign.1 hsign.2 hline rest
  rw [if_neg hprintable]
  cases hletter : controlLetter? c.toNat with
  | some letter => exact unquotedFrom_control hletter rest
  | none =>
    dsimp only
    by_cases hascii : c.toNat < 0x80
    · have hbyte : ofChar c = [UInt8.ofNat c.toNat] := by rw [ofChar_eq, if_pos (by omega)]
      rw [if_pos hascii, hbyte]
      exact unquotedFrom_byte (by omega) rest
    rw [if_neg hascii]
    by_cases hshort : c.toNat < 0x10000
    · rw [if_pos hshort]
      exact unquotedFrom_number (byte 'u') 4 (fun _ => rfl) hshort rest
    -- characters end far below what eight digits can say
    · have hlong : c.toNat < 16 ^ 8 := by
        have := toNat_cases c
        omega
      rw [if_neg hshort]
      exact unquotedFrom_number (byte 'U') 8 (fun _ => rfl) hlong rest

/-! ## Texts -/

/-- A written piece is read as its bytes. -/
theorem unquotedFrom_piece (p : Piece) (rest : Text) :
    unquotedFrom 0 (p.quoted ++ rest) = (unquotedFrom 0 rest).map (p.bytes ++ ·) := by
  cases p with
  | char c => exact unquotedFrom_quotedChar c rest
  | stray b =>
    have h := unquotedFrom_byte b.toNat_lt rest
    rw [UInt8.ofNat_toNat] at h
    exact h

theorem unquotedFrom_pieces (ps : List Piece) :
    unquotedFrom 0 (ps.flatMap Piece.quoted ++ [byte '"']) = some (ps.flatMap Piece.bytes) := by
  induction ps with
  | nil => rfl
  | cons p ps ih =>
    rw [List.flatMap_cons, List.append_assoc, unquotedFrom_piece, ih, List.flatMap_cons]
    rfl

/-- **Reading undoes quoting.** -/
theorem unquoted?_quoted (t : Text) : unquoted? (quoted t) = some t := by
  show unquotedFrom 0 ((pieces t).flatMap Piece.quoted ++ [byte '"']) = some t
  rw [unquotedFrom_pieces, pieces_bytes]

end DocFilter.Text
