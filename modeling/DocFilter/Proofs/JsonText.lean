import DocFilter.Json.Reader
import DocFilter.Proofs.Utf8

/-!
Written interchange documents are read back. Reading the compact form of a tree gives the tree with
its texts repaired (`parse_compact`): all that is lost are bytes that belong to no character. It
fails just if a number does not begin like one, which the writer does not look at, and with a bound on
how deep collections stand within each other also if they stand deeper (`read_compact`).

The argument has three parts, one for each stage of the reader: a written string is scanned up to
its closing quote, a written tree is a list of lexemes, and these lexemes make the parser deliver
the tree to the collection that waits for it.
-/

set_option autoImplicit false

namespace DocFilter.Json

open Text (byte)

/-! ## Strings -/

/-- Puts a text in front of what was scanned. -/
def extendScan (front : Text) (r : Option (Text × Text)) : Option (Text × Text) :=
  r.map fun x => (front ++ x.1, x.2)

theorem extendScan_append (p q : Text) (r : Option (Text × Text)) :
    extendScan p (extendScan q r) = extendScan (p ++ q) r := by
  cases r <;> simp [extendScan, List.append_assoc]

/-- Skipping bytes of a string is dropping them. The scanner counts the bytes of an escape down instead of
dropping them, so that it is structural on the text. -/
theorem scanString?_drop (n : Nat) (t : Text) : scanString? n t = scanString? 0 (t.drop n) := by
  induction t generalizing n with
  | nil => cases n <;> rfl
  | cons b t ih =>
    cases n with
    | zero => rfl
    | succ n => exact ih n

/-- A byte that stands for itself. -/
theorem scanString?_plain {b : UInt8} (hquote : b ≠ byte '"') (hzero : b ≠ 0)
    (hslash : b ≠ byte '\\') (rest : Text) :
    scanString? 0 (b :: rest) = extendScan [b] (scanString? 0 rest) := by
  rw [scanString?, if_neg (by simpa using hquote), if_neg (by simpa using hzero),
    if_neg (by simpa using hslash)]
  cases scanString? 0 rest <;> rfl

/-- Bytes that stand for themselves are scanned one by one: those that end neither the string nor the input,
and begin no escape. -/
theorem scanString?_run {t : Text} (h : ∀ b ∈ t, b ≠ byte '"' ∧ b ≠ 0 ∧ b ≠ byte '\\')
    (rest : Text) : scanString? 0 (t ++ rest) = extendScan t (scanString? 0 rest) := by
  induction t with
  | nil => cases h' : scanString? 0 rest <;> simp [extendScan, h']
  | cons b t ih =>
    obtain ⟨hquote, hzero, hslash⟩ := h b List.mem_cons_self
    rw [List.cons_append, scanString?_plain hquote hzero hslash,
      ih fun c hc => h c (List.mem_cons_of_mem _ hc), extendScan_append]
    rfl

/-- An escape. -/
theorem scanString?_escape {e t : Text} {rest : Text} (h : escape? (e ++ rest) = some (t, e.length)) :
    scanString? 0 (byte '\\' :: (e ++ rest)) = extendScan t (scanString? 0 rest) := by
  rw [scanString?, if_neg (by decide), if_neg (by decide), if_pos (by decide), h]
  show (scanString? e.length (e ++ rest)).bind _ = _
  rw [scanString?_drop, List.drop_left]
  cases scanString? 0 rest <;> rfl

/-- A hexadecimal digit that is written is read as its value. -/
theorem hexValue_digit {n : Nat} (hn : n < 16) :
    isHexDigit (Text.digit n) ∧ Lexeme.hexValue (Text.digit n) = n := by
  have h : ∀ k : Fin 16, isHexDigit (Text.digit k) ∧ Lexeme.hexValue (Text.digit k) = k := by
    decide
  exact h ⟨n, hn⟩

/-- Four digits of a number that is no half of a pair stand for the character with this number. The escape
takes five bytes behind the backslash. -/
theorem escape?_numbered {n : Nat} (hn : n < 0xD800 ∨ (0xDFFF < n ∧ n < 0x10000)) (rest : Text) :
    escape? (byte 'u' :: Text.hex 4 n ++ rest) = some (Text.ofChar (Char.ofNat n), 5) := by
  obtain ⟨h₁, v₁⟩ := hexValue_digit (show n / 16 / 16 / 16 % 16 < 16 by omega)
  obtain ⟨h₂, v₂⟩ := hexValue_digit (show n / 16 / 16 % 16 < 16 by omega)
  obtain ⟨h₃, v₃⟩ := hexValue_digit (show n / 16 % 16 < 16 by omega)
  obtain ⟨h₄, v₄⟩ := hexValue_digit (show n % 16 < 16 by omega)
  have hword : Lexeme.hexWord (Text.digit (n / 16 / 16 / 16 % 16)) (Text.digit (n / 16 / 16 % 16))
      (Text.digit (n / 16 % 16)) (Text.digit (n % 16)) = n := by
    rw [Lexeme.hexWord, v₁, v₂, v₃, v₄]
    omega
  have hhigh : Lexeme.isHigh n = false := by
    simp only [Lexeme.isHigh, Bool.and_eq_false_iff, decide_eq_false_iff_not]
    omega
  have hlow : Lexeme.isLow n = false := by
    simp only [Lexeme.isLow, Bool.and_eq_false_iff, decide_eq_false_iff_not]
    omega
  have hall : [Text.digit (n / 16 / 16 / 16 % 16), Text.digit (n / 16 / 16 % 16),
      Text.digit (n / 16 % 16), Text.digit (n % 16)].all isHexDigit = true := by
    simp [h₁, h₂, h₃, h₄]
  show escape? (byte 'u' :: Text.digit (n / 16 / 16 / 16 % 16) :: Text.digit (n / 16 / 16 % 16) ::
    Text.digit (n / 16 % 16) :: Text.digit (n % 16) :: rest) = _
  rw [escape?, if_pos (by decide), if_pos hall, hword]
  dsimp only
  rw [hhigh, Lexeme.numbered, hhigh, hlow]
  rfl

/-- The bytes of a character that is not escaped stand for themselves. -/
theorem bytes_ofChar {c : Char} (hquote : c ≠ '"') (hslash : c ≠ '\\') (hcontrol : 0x20 ≤ c.toNat) :
    ∀ b ∈ Text.ofChar c, b ≠ byte '"' ∧ b ≠ 0 ∧ b ≠ byte '\\' := by
  have hself : Char.ofNat c.toNat = c := Char.ofNat_toNat c
  by_cases hlow : c.toNat ≤ 127
  · have hbyte : (UInt8.ofNat c.toNat).toNat = c.toNat := Text.toNat_ofNat_byte (by omega)
    rw [Text.ofChar_eq, if_pos hlow]
    intro b hb
    obtain rfl := List.mem_singleton.mp hb
    refine ⟨fun h => ?_, fun h => ?_, fun h => ?_⟩
    · rw [h] at hbyte
      rw [← hbyte] at hself
      exact hquote hself.symm
    · rw [h] at hbyte
      rw [← hbyte] at hcontrol
      exact absurd hcontrol (by decide)
    · rw [h] at hbyte
      rw [← hbyte] at hself
      exact hslash hself.symm
  · -- the bytes of all other characters are above those of the signs
    intro b hb
    have hhigh := Text.ofChar_high (by omega) b hb
    refine ⟨?_, ?_, ?_⟩ <;> rintro rfl <;> exact absurd hhigh (by decide)

/-- A written character is scanned as the character, whichever of the spellings the writer has chosen: a
short escape, one by number, or the bytes of the character. -/
theorem scanString?_escapedChar (c : Char) (rest : Text) :
    scanString? 0 (escapedChar c ++ rest) = extendScan (Text.ofChar c) (scanString? 0 rest) := by
  have hself : Char.ofNat c.toNat = c := Char.ofNat_toNat c
  rw [escapedChar]
  split
  · next h =>
    rw [Bool.or_eq_true, beq_iff_eq, beq_iff_eq] at h
    rcases h with rfl | rfl
    · exact scanString?_escape (e := Text.ofChar '"') rfl
    · exact scanString?_escape (e := Text.ofChar '\\') rfl
  split
  · next h =>
    obtain rfl := beq_iff_eq.mp h
    exact scanString?_escape (e := [byte 'n']) rfl
  split
  · next h =>
    obtain rfl := beq_iff_eq.mp h
    exact scanString?_escape (e := [byte 'r']) rfl
  split
  · next h =>
    obtain rfl := beq_iff_eq.mp h
    exact scanString?_escape (e := [byte 't']) rfl
  split
  · next h =>
    -- What is written by number is a control, one of three signs, or a line separator.
    have hn : c.toNat < 0xD800 := by
      simp only [Bool.or_eq_true, decide_eq_true_eq, beq_iff_eq] at h
      rcases h with ((((h | rfl) | rfl) | rfl) | h) | h
      · omega
      · decide
      · decide
      · decide
      · omega
      · omega
    have hescape := escape?_numbered (.inl hn) rest
    rw [hself] at hescape
    exact scanString?_escape (e := byte 'u' :: Text.hex 4 c.toNat) hescape
  · next h₁ _ _ _ h₅ =>
    simp only [Bool.or_eq_true, beq_iff_eq, not_or, decide_eq_true_eq] at h₁ h₅
    exact scanString?_run (bytes_ofChar h₁.1 h₁.2 (by omega)) rest

/-- A written piece is scanned as the piece repaired. A stray byte is written as the replacement character,
so this is what comes back. -/
theorem scanString?_escapedPiece (p : Text.Piece) (rest : Text) :
    scanString? 0 (escapedPiece p ++ rest)
      = extendScan (Text.ofChar p.shown) (scanString? 0 rest) := by
  cases p with
  | char c => exact scanString?_escapedChar c rest
  | stray b =>
    have hhex : Text.ofString "\\ufffd" = byte '\\' :: (byte 'u' :: Text.hex 4 0xFFFD) := by decide
    rw [escapedPiece, hhex, List.cons_append]
    exact scanString?_escape (escape?_numbered (.inr (by decide)) rest)

/-- The written pieces of a text, up to the closing quote, are scanned as the characters that they show. The
induction is on the pieces; each of them is one of the cases above. -/
theorem scanString?_pieces (ps : List Text.Piece) (rest : Text) :
    scanString? 0 (ps.flatMap escapedPiece ++ byte '"' :: rest)
      = some (Text.ofChars (ps.map Text.Piece.shown), rest) := by
  induction ps with
  | nil => rfl
  | cons p ps ih =>
    rw [List.flatMap_cons, List.append_assoc, scanString?_escapedPiece, ih]
    rfl

/-- **A written string is scanned as the text repaired.** -/
theorem scanString?_quoted (t rest : Text) :
    scanString? 0 ((Text.pieces t).flatMap escapedPiece ++ byte '"' :: rest)
      = some (Text.repaired t, rest) := by
  rw [scanString?_pieces, Text.repaired_eq]

/-! ## Lexemes -/

/-- All lexemes of a text. -/
def lex (t : Text) : Option (List Token) := tokens? t.length t

/-- A string takes at least its closing quote. That every lexeme takes a byte is what makes the number of
bytes enough for the lexer. -/
theorem scanString?_length {t x after : Text} {n : Nat} (h : scanString? n t = some (x, after)) :
    after.length < t.length := by
  induction t generalizing n x with
  | nil => cases n <;> cases h
  | cons b t ih =>
    cases n with
    | succ n =>
      have := ih h
      simp only [List.length_cons]
      omega
    | zero =>
      rw [scanString?] at h
      simp only [List.length_cons]
      -- the closing quote, a byte that no string may have, an escape, or a byte of the string
      split at h
      · obtain ⟨-, rfl⟩ := Prod.mk.inj (Option.some.inj h)
        omega
      split at h
      · cases h
      split at h
      · obtain ⟨⟨y, k⟩, -, hrest⟩ := Option.bind_eq_some_iff.mp h
        obtain ⟨⟨more, after'⟩, hscan, hend⟩ := Option.bind_eq_some_iff.mp hrest
        obtain ⟨-, rfl⟩ := Prod.mk.inj (Option.some.inj hend)
        have := ih hscan
        omega
      · obtain ⟨⟨more, after'⟩, hscan, hend⟩ := Option.bind_eq_some_iff.mp h
        obtain ⟨-, rfl⟩ := Prod.mk.inj (Option.some.inj hend)
        have := ih hscan
        omega

/-- What is left behind a word is shorter by the word. -/
theorem isPrefixOf?_length {w t after : Text} (h : w.isPrefixOf? t = some after) :
    t.length = w.length + after.length := by
  rw [List.isPrefixOf?_eq_some_iff_append_eq] at h
  rw [← h, List.length_append]

/-- Every lexeme takes its first byte, and strings and numbers take more. So what follows a lexeme is
shorter than the text with it. -/
theorem token?_length {b : UInt8} {rest after : Text} {tok : Token}
    (h : token? b rest = some (tok, after)) : after.length ≤ rest.length := by
  rw [token?] at h
  -- the six signs, then strings, numbers and constants
  iterate 6
    split at h
    · obtain ⟨-, rfl⟩ := Prod.mk.inj (Option.some.inj h)
      exact Nat.le_refl _
  split at h
  · obtain ⟨⟨t, after'⟩, hscan, hend⟩ := Option.bind_eq_some_iff.mp h
    obtain ⟨-, rfl⟩ := Prod.mk.inj (Option.some.inj hend)
    exact Nat.le_of_lt (scanString?_length hscan)
  split at h
  · obtain ⟨-, rfl⟩ := Prod.mk.inj (Option.some.inj h)
    rw [List.length_drop]
    exact Nat.sub_le _ _
  · obtain ⟨⟨word, j⟩, hmem, hword⟩ := List.exists_of_findSome?_eq_some h
    obtain ⟨rest', hprefix, hend⟩ := Option.map_eq_some_iff.mp hword
    obtain ⟨-, rfl⟩ := Prod.mk.inj hend
    have hlength := isPrefixOf?_length hprefix
    have hne : 0 < word.length := by
      simp only [constants, List.mem_cons, List.not_mem_nil, or_false, Prod.mk.injEq] at hmem
      rcases hmem with ⟨rfl, -⟩ | ⟨rfl, -⟩ | ⟨rfl, -⟩ <;> decide
    simp only [List.length_cons] at hlength
    omega

/-- As many steps as there are bytes are enough, and more steps give the same. Every lexeme takes a byte at
least, so no step is in want of another. -/
theorem tokens?_congr {m n : Nat} {t : Text} (hm : t.length ≤ m) (hn : t.length ≤ n) :
    tokens? m t = tokens? n t := by
  induction m generalizing n t with
  | zero =>
    obtain rfl : t = [] := List.eq_nil_of_length_eq_zero (by omega)
    cases n <;> rfl
  | succ m ih =>
    cases t with
    | nil => cases n <;> rfl
    | cons b rest =>
      simp only [List.length_cons] at hm hn
      obtain ⟨n, rfl⟩ : ∃ k, n = k + 1 := ⟨n - 1, by omega⟩
      rw [tokens?, tokens?, ih (t := rest) (by omega) (show rest.length ≤ n by omega)]
      cases htok : token? b rest with
      | none => rfl
      | some r =>
        obtain ⟨tok, after⟩ := r
        have hafter := token?_length htok
        show (if isSpace b then _ else (tokens? m after).bind _)
          = (if isSpace b then _ else (tokens? n after).bind _)
        rw [ih (t := after) (by omega) (show after.length ≤ n by omega)]

/-- The lexer at a byte that is no blank: it takes one lexeme and goes on behind it. The steps that the
definition counts are gone here. -/
theorem lex_cons {b : UInt8} (hb : isSpace b = false) (rest : Text) :
    lex (b :: rest) = (token? b rest).bind fun r => (lex r.2).map (r.1 :: ·) := by
  rw [lex, List.length_cons, tokens?, hb, if_neg Bool.false_ne_true]
  cases htok : token? b rest with
  | none => rfl
  | some r =>
    obtain ⟨tok, after⟩ := r
    have hafter := token?_length htok
    show (tokens? rest.length after).bind (fun more => some (tok :: more))
      = (tokens? after.length after).map (tok :: ·)
    rw [tokens?_congr hafter (Nat.le_refl _)]
    cases tokens? after.length after <;> rfl

/-- A lexeme in front of a text. -/
theorem lex_token {b : UInt8} {more rest : Text} {tok : Token} (hb : isSpace b = false)
    (h : token? b (more ++ rest) = some (tok, rest)) :
    lex (b :: (more ++ rest)) = (lex rest).map (tok :: ·) := by
  rw [lex_cons hb, h]
  rfl

/-! ## Written trees -/

mutual

/-- The tree with its texts repaired. -/
def repaired : Json → Json
  | .string t => .string (Text.repaired t)
  | .array items => .array (repairedItems items)
  | .object members => .object (repairedMembers members)
  | j => j

/-- The elements with their texts repaired. -/
def repairedItems : List Json → List Json
  | [] => []
  | j :: rest => j.repaired :: repairedItems rest

/-- The members with their names and texts repaired. -/
def repairedMembers : List (Text × Json) → List (Text × Json)
  | [] => []
  | (k, j) :: rest => (Text.repaired k, j.repaired) :: repairedMembers rest

end

/-- Whether a text begins like a number. -/
def beginsNumber : Text → Bool
  | [] => false
  | b :: _ => Text.isDigit b || b == byte '-'

mutual

/-- Whether all numbers of a tree begin like numbers. -/
def readable : Json → Bool
  | .number literal => beginsNumber literal
  | .array items => readableItems items
  | .object members => readableMembers members
  | _ => true

/-- Whether all numbers of the elements begin like numbers. -/
def readableItems : List Json → Bool
  | [] => true
  | j :: rest => j.readable && readableItems rest

/-- Whether all numbers of the members begin like numbers. -/
def readableMembers : List (Text × Json) → Bool
  | [] => true
  | (_, j) :: rest => j.readable && readableMembers rest

end

mutual

/-- Whether all numbers of a tree consist of bytes of numbers. -/
def Numeric : Json → Prop
  | .number literal => literal ≠ [] ∧ ∀ b ∈ literal, Lexeme.continuesNumber b
  | .array items => NumericItems items
  | .object members => NumericMembers members
  | _ => True

/-- Whether all numbers of the elements consist of bytes of numbers. -/
def NumericItems : List Json → Prop
  | [] => True
  | j :: rest => j.Numeric ∧ NumericItems rest

/-- Whether all numbers of the members consist of bytes of numbers. -/
def NumericMembers : List (Text × Json) → Prop
  | [] => True
  | (_, j) :: rest => j.Numeric ∧ NumericMembers rest

end

mutual

/-- The lexemes of a written tree. -/
def lexemes : Json → List Token
  | .array items => .openArray :: (itemLexemes items ++ [.closeArray])
  | .object members => .openObject :: (memberLexemes members ++ [.closeObject])
  | .string t => [.scalar (.string (Text.repaired t))]
  | j => [.scalar j]

/-- The lexemes of elements with commas between them. -/
def itemLexemes : List Json → List Token
  | [] => []
  | [j] => j.lexemes
  | j :: rest => j.lexemes ++ .comma :: itemLexemes rest

/-- The lexemes of members with commas between them. -/
def memberLexemes : List (Text × Json) → List Token
  | [] => []
  | [(k, j)] => .scalar (.string (Text.repaired k)) :: .colon :: j.lexemes
  | (k, j) :: rest =>
    .scalar (.string (Text.repaired k)) :: .colon :: (j.lexemes ++ .comma :: memberLexemes rest)

end

/-- A rest that ends a number. -/
def EndsNumber (rest : Text) : Prop := ∀ b ∈ rest.head?, Lexeme.continuesNumber b = false

/-- What is read of a written part in front of a rest. -/
def Lexes (t : Text) (readable : Bool) (ls : List Token) : Prop :=
  ∀ rest, EndsNumber rest →
    lex (t ++ rest) = if readable then (lex rest).map (ls ++ ·) else none

/-- A lexeme that needs no look at what follows, in front of a written part. -/
theorem Lexes.cons {b : UInt8} (more : Text) {tok : Token} (hb : isSpace b = false)
    (htok : ∀ rest, token? b (more ++ rest) = some (tok, rest)) {t : Text} {r : Bool}
    {ls : List Token} (h : Lexes t r ls) : Lexes (b :: more ++ t) r (tok :: ls) := by
  intro rest hrest
  show lex (b :: (more ++ t ++ rest)) = _
  rw [List.append_assoc, lex_token hb (htok _), h rest hrest]
  cases r with
  | false => rfl
  | true => cases lex rest <;> rfl

/-- Nothing written is no lexeme. It ends every chain of `Lexes.cons` and `Lexes.append`. -/
theorem Lexes.nil : Lexes [] true [] := by
  intro rest _
  cases h : lex rest <;> simp [h]

/-- A written part behind another one that it ends: the lexemes of the one, and then those of the other. A
number in front is ended by the first byte behind it. -/
theorem Lexes.append {b : UInt8} {t t' : Text} {r r' : Bool} {ls ls' : List Token}
    (h : Lexes t r ls) (h' : Lexes (b :: t') r' ls') (hb : Lexeme.continuesNumber b = false) :
    Lexes (t ++ b :: t') (r && r') (ls ++ ls') := by
  intro rest hrest
  have hrest' : EndsNumber (b :: t' ++ rest) := by
    intro c hc
    obtain rfl := Option.some.inj hc
    exact hb
  rw [List.append_assoc, h _ hrest', h' rest hrest]
  cases r with
  | false => rfl
  | true =>
    cases r' with
    | false => rfl
    | true => cases lex rest <;> simp

/-- A quoted text is one lexeme, whatever follows it: the string that it is read as. -/
theorem token?_quote (t rest : Text) :
    token? (byte '"') ((Text.pieces t).flatMap escapedPiece ++ [byte '"'] ++ rest)
      = some (.scalar (.string (Text.repaired t)), rest) := by
  have hscan := scanString?_quoted t rest
  rw [List.append_assoc, List.singleton_append]
  show (scanString? 0 ((Text.pieces t).flatMap escapedPiece ++ byte '"' :: rest)).bind _ = _
  rw [hscan]
  rfl

/-- A written string in front of a written part. -/
theorem Lexes.quoted (text : Text) {t : Text} {r : Bool} {ls : List Token} (h : Lexes t r ls) :
    Lexes (quoted text ++ t) r (.scalar (.string (Text.repaired text)) :: ls) := by
  have hquoted : Json.quoted text
      = byte '"' :: ((Text.pieces text).flatMap escapedPiece ++ [byte '"']) := rfl
  rw [hquoted]
  exact Lexes.cons _ (by decide) (token?_quote text) h

/-- What a byte of a number is not. -/
theorem number_byte (b : UInt8) :
    Lexeme.continuesNumber b → isSpace b = false ∧ (b == byte '\x7b') = false ∧ (b == byte '\x7d') = false ∧
      (b == byte '[') = false ∧ (b == byte ']') = false ∧ (b == byte ',') = false ∧
      (b == byte ':') = false ∧ (b == byte '"') = false ∧ (b == byte 'n') = false ∧
      (b == byte 't') = false ∧ (b == byte 'f') = false := by
  revert b
  exact Text.forall_byte (by decide +kernel)

theorem isPrefixOf?_cons_ne {b c : UInt8} (h : (b == c) = false) {w t : Text} :
    List.isPrefixOf? (c :: w) (b :: t) = none := by
  have hne : (c == b) = false := beq_false_of_ne (Ne.symm (ne_of_beq_false h))
  rw [List.isPrefixOf?, hne, if_neg Bool.false_ne_true]

/-- A numeral is one lexeme if it begins like a number and if what follows does not go on with it. If it
begins otherwise, the lexer fails on it, and this is the one way in which a written tree cannot be read. -/
theorem lexes_number {literal : Text} (hne : literal ≠ [])
    (hbytes : ∀ b ∈ literal, Lexeme.continuesNumber b) :
    Lexes literal (beginsNumber literal) [.scalar (.number literal)] := by
  obtain ⟨b, more, rfl⟩ := List.exists_cons_of_ne_nil hne
  intro rest hrest
  have hbyte := number_byte b (hbytes b List.mem_cons_self)
  obtain ⟨hspace, h₁, h₂, h₃, h₄, h₅, h₆, h₇, h₈, h₉, h₁₀⟩ := hbyte
  rw [beginsNumber, List.cons_append, lex_cons hspace, token?, h₁, h₂, h₃, h₄, h₅, h₆, h₇]
  simp only [Bool.false_eq_true, if_false]
  split
  · have htake : (more ++ rest).takeWhile Lexeme.continuesNumber = more := by
      rw [List.takeWhile_append_of_pos fun c hc => hbytes c (List.mem_cons_of_mem _ hc)]
      cases rest with
      | nil => simp
      | cons c rest =>
        rw [List.takeWhile_cons, hrest c (by simp), if_neg Bool.false_ne_true, List.append_nil]
    rw [htake, Option.bind_some, List.drop_left]
    rfl
  · -- No constant begins with a byte of a number either.
    rw [List.findSome?_eq_none_iff.mpr]
    · rfl
    · intro x hx
      simp only [constants, List.mem_cons, List.not_mem_nil, or_false] at hx
      rcases hx with rfl | rfl | rfl
      · exact Option.map_eq_none_iff.mpr (isPrefixOf?_cons_ne h₈)
      · exact Option.map_eq_none_iff.mpr (isPrefixOf?_cons_ne h₉)
      · exact Option.map_eq_none_iff.mpr (isPrefixOf?_cons_ne h₁₀)

mutual

/-- **A written tree is the list of its lexemes**, unless a number in it does not begin like one. This and
the statements for elements and members are one induction over the tree. -/
theorem lexes_compact (j : Json) (hj : j.Numeric) : Lexes j.compact j.readable j.lexemes := by
  match j with
  | .null => exact Lexes.cons (Text.ofString "ull") (by decide) (fun _ => rfl) Lexes.nil
  | .bool true => exact Lexes.cons (Text.ofString "rue") (by decide) (fun _ => rfl) Lexes.nil
  | .bool false =>
    exact Lexes.cons (Text.ofString "alse") (by decide) (fun _ => rfl) Lexes.nil
  | .number literal => exact lexes_number hj.1 hj.2
  | .string t =>
    have h := Lexes.quoted t Lexes.nil
    rw [List.append_nil] at h
    exact h
  -- the closing bracket ends whatever stands before it
  | .array items =>
    have hclose : Lexes [byte ']'] true [.closeArray] :=
      Lexes.cons [] (by decide) (fun _ => rfl) Lexes.nil
    have hitems := (lexes_compactItems items hj).append hclose (by decide)
    rw [Bool.and_true] at hitems
    exact Lexes.cons [] (by decide) (fun _ => rfl) hitems
  | .object members =>
    have hclose : Lexes [byte '\x7d'] true [.closeObject] :=
      Lexes.cons [] (by decide) (fun _ => rfl) Lexes.nil
    have hmembers := (lexes_compactMembers members hj).append hclose (by decide)
    rw [Bool.and_true] at hmembers
    exact Lexes.cons [] (by decide) (fun _ => rfl) hmembers

/-- The written elements of an array are the lexemes of the elements with commas between them. -/
theorem lexes_compactItems (items : List Json) (hitems : NumericItems items) :
    Lexes (compactItems items) (readableItems items) (itemLexemes items) := by
  match items with
  | [] => exact Lexes.nil
  | [j] =>
    rw [readableItems, readableItems, Bool.and_true]
    exact lexes_compact j hitems.1
  | j :: j' :: rest =>
    -- a comma ends the element, be it a number or not
    have hcompact : compactItems (j :: j' :: rest)
        = j.compact ++ byte ',' :: compactItems (j' :: rest) := List.append_assoc _ _ _
    have hrest : Lexes (byte ',' :: compactItems (j' :: rest)) (readableItems (j' :: rest))
        (.comma :: itemLexemes (j' :: rest)) :=
      Lexes.cons [] (by decide) (fun _ => rfl) (lexes_compactItems (j' :: rest) hitems.2)
    rw [hcompact]
    exact (lexes_compact j hitems.1).append hrest (by decide)

/-- The written members of an object are the lexemes of names and values, with colons and commas between
them. -/
theorem lexes_compactMembers (members : List (Text × Json)) (hmembers : NumericMembers members) :
    Lexes (compactMembers members) (readableMembers members) (memberLexemes members) := by
  match members with
  | [] => exact Lexes.nil
  | [(k, j)] =>
    rw [readableMembers, readableMembers, Bool.and_true]
    have hcolon : Lexes ([byte ':'] ++ j.compact) j.readable (.colon :: j.lexemes) :=
      Lexes.cons [] (by decide) (fun _ => rfl) (lexes_compact j hmembers.1)
    have h := Lexes.quoted k hcolon
    rw [← List.append_assoc] at h
    exact h
  | (k, j) :: m :: rest =>
    have hcompact : compactMembers ((k, j) :: m :: rest)
        = quoted k ++ (byte ':' :: (j.compact ++ byte ',' :: compactMembers (m :: rest))) := by
      show quoted k ++ [byte ':'] ++ j.compact ++ [byte ','] ++ compactMembers (m :: rest) = _
      simp only [List.append_assoc]
      rfl
    have hrest : Lexes (byte ',' :: compactMembers (m :: rest)) (readableMembers (m :: rest))
        (.comma :: memberLexemes (m :: rest)) :=
      Lexes.cons [] (by decide) (fun _ => rfl) (lexes_compactMembers (m :: rest) hmembers.2)
    -- the value is ended by the comma, and the name by its own quotation mark
    have hvalue := (lexes_compact j hmembers.1).append hrest (by decide)
    rw [hcompact]
    exact Lexes.quoted k (Lexes.cons [] (by decide) (fun _ => rfl) hvalue)

end

/-! ## The parser -/

/-- A state that takes the next lexeme as the beginning of a value for a stack of collections. -/
def Awaits (s : State) (stack : List Open) : Prop :=
  ∀ t : Token, t ≠ .closeArray → step? s t = begin? stack t

/-- At the beginning a value is awaited that is the whole document. -/
theorem awaits_start : Awaits .start [] := fun _ _ => rfl

theorem awaits_value (members : List (Text × Json)) (k : Text) (outer : List Open) :
    Awaits (.within (.value members k) outer) (.value members k :: outer) := fun _ _ => rfl

/-- At a place for an element a value is awaited, unless the array ends. This is the reason for the
exception in `Awaits`. -/
theorem awaits_item (items : List Json) (first : Bool) (outer : List Open) :
    Awaits (.within (.item items first) outer) (.item items first :: outer) := by
  intro t ht
  cases t <;> first | rfl | exact absurd rfl ht

theorem repairedItems_eq (items : List Json) : repairedItems items = items.map repaired := by
  induction items with
  | nil => rfl
  | cons j rest ih => rw [repairedItems, ih, List.map_cons]

theorem repairedMembers_eq (members : List (Text × Json)) :
    repairedMembers members = members.map fun m => (Text.repaired m.1, m.2.repaired) := by
  induction members with
  | nil => rfl
  | cons m rest ih => rw [repairedMembers, ih, List.map_cons]

theorem foldlM_scalar {s : State} {stack : List Open} (hs : Awaits s stack) (j : Json) :
    [Token.scalar j].foldlM step? s = deliver? j stack := by
  rw [List.foldlM_cons, hs _ (by simp)]
  exact bind_pure _

mutual

/-- The lexemes of a tree deliver the tree to the collection that waits for it. Collections are opened on
top of this one, filled element by element, and delivered when they are closed. -/
theorem foldlM_lexemes (j : Json) {s : State} {stack : List Open} (hs : Awaits s stack) :
    j.lexemes.foldlM step? s = deliver? j.repaired stack := by
  match j with
  | .null | .bool _ | .number _ | .string _ => exact foldlM_scalar hs _
  -- an empty collection may be closed at once, so it is done apart
  | .array items =>
    rw [lexemes, List.foldlM_cons, hs _ (by simp)]
    show (itemLexemes items ++ [Token.closeArray]).foldlM step? (.within (.item [] true) stack) = _
    rw [List.foldlM_append]
    cases items with
    | nil => exact bind_pure (deliver? (.array []) stack)
    | cons j rest =>
      rw [foldlM_itemLexemes j rest [] true stack]
      show deliver? (.array (_ ++ []).reverse) stack >>= pure = _
      rw [bind_pure, List.append_nil, List.reverse_reverse]
      rfl
  | .object members =>
    rw [lexemes, List.foldlM_cons, hs _ (by simp)]
    show (memberLexemes members ++ [Token.closeObject]).foldlM step? (.within (.key [] true) stack) = _
    rw [List.foldlM_append]
    cases members with
    | nil => exact bind_pure (deliver? (.object []) stack)
    | cons m rest =>
      rw [foldlM_memberLexemes m rest [] true stack]
      show deliver? (.object (_ ++ []).reverse) stack >>= pure = _
      rw [bind_pure, List.append_nil, List.reverse_reverse]
      rfl
termination_by sizeOf j

/-- The lexemes of elements put the elements into the array that is open, the last first. Stated for an
array that has some already, so that the induction goes through. -/
theorem foldlM_itemLexemes (j : Json) (rest acc : List Json) (first : Bool) (outer : List Open) :
    (itemLexemes (j :: rest)).foldlM step? (.within (.item acc first) outer)
      = some (.within (.element ((repairedItems (j :: rest)).reverse ++ acc)) outer) := by
  have hj := foldlM_lexemes j (awaits_item acc first outer)
  match rest with
  | [] => exact hj
  | j' :: rest =>
    show (j.lexemes ++ .comma :: itemLexemes (j' :: rest)).foldlM step? _ = _
    rw [List.foldlM_append, hj]
    show (itemLexemes (j' :: rest)).foldlM step? (.within (.item (j.repaired :: acc) false) outer) = _
    rw [foldlM_itemLexemes j' rest]
    conv_rhs => rw [repairedItems, List.reverse_cons, List.append_assoc]
    rfl
termination_by sizeOf (j :: rest)

/-- The lexemes of members put the members into the object that is open, the last first. -/
theorem foldlM_memberLexemes (m : Text × Json) (rest acc : List (Text × Json)) (first : Bool)
    (outer : List Open) :
    (memberLexemes (m :: rest)).foldlM step? (.within (.key acc first) outer)
      = some (.within (.member ((repairedMembers (m :: rest)).reverse ++ acc)) outer) := by
  obtain ⟨k, j⟩ := m
  have hj := foldlM_lexemes j (awaits_value acc (Text.repaired k) outer)
  match rest with
  | [] => exact hj
  | m' :: rest =>
    show (j.lexemes ++ .comma :: memberLexemes (m' :: rest)).foldlM step?
      (.within (.value acc (Text.repaired k)) outer) = _
    rw [List.foldlM_append, hj]
    -- behind the comma the object waits for the next name
    show (memberLexemes (m' :: rest)).foldlM step?
      (.within (.key ((Text.repaired k, j.repaired) :: acc) false) outer) = _
    rw [foldlM_memberLexemes m' rest]
    conv_rhs => rw [repairedMembers, List.reverse_cons, List.append_assoc]
    rfl
termination_by sizeOf (m :: rest)

end

/-- **Reading what was written.** The compact form of a tree is read as the tree with its texts
repaired, and not at all if a number does not begin like one. -/
theorem parse_compact {j : Json} (hj : j.Numeric) :
    parse j.compact = if j.readable then .ok j.repaired else .error .malformed := by
  have hlex := lexes_compact j hj [] (by simp [EndsNumber])
  rw [List.append_nil, lex] at hlex
  rw [parse, hlex]
  cases j.readable with
  | false => rfl
  | true =>
    have hfold := foldlM_lexemes j awaits_start
    have htokens : (lex []).map (j.lexemes ++ ·) = some j.lexemes := congrArg some (List.append_nil _)
    rw [if_pos rfl, htokens, Option.bind_some, hfold]
    rfl

/-! ## How deep collections stand -/

mutual

/-- How many collections stand within each other where they do so the most. -/
def depth : Json → Nat
  | .array items => depthOfItems items + 1
  | .object members => depthOfMembers members + 1
  | _ => 0

/-- The depth of the deepest element. -/
def depthOfItems : List Json → Nat
  | [] => 0
  | j :: rest => max j.depth (depthOfItems rest)

/-- The depth of the deepest member. -/
def depthOfMembers : List (Text × Json) → Nat
  | [] => 0
  | (_, j) :: rest => max j.depth (depthOfMembers rest)

end

/-- There is room for one collection at least, so a row of scalars is never too deep. -/
theorem maxDepth_pos : 0 < maxDepth := by decide

/-- The elements of an array are within a limit if each of them is. -/
theorem depthOfItems_le {items : List Json} {n : Nat} : depthOfItems items ≤ n ↔ ∀ j ∈ items, j.depth ≤ n := by
  induction items with
  | nil => simp [depthOfItems]
  | cons j rest ih => rw [depthOfItems, Nat.max_le, ih, List.forall_mem_cons]

/-- The members of an object are within a limit if each of them is. The limit is met name by name, so the
order of members has no part in it. -/
theorem depthOfMembers_le {members : List (Text × Json)} {n : Nat} :
    depthOfMembers members ≤ n ↔ ∀ m ∈ members, m.2.depth ≤ n := by
  induction members with
  | nil => simp [depthOfMembers]
  | cons m rest ih => rw [depthOfMembers, Nat.max_le, ih, List.forall_mem_cons]

mutual

/-- Repairing the texts of a tree leaves its collections where they stand. -/
theorem depth_repaired (j : Json) : j.repaired.depth = j.depth := by
  match j with
  | .null | .bool _ | .number _ | .string _ => rfl
  | .array items => exact congrArg (· + 1) (depthOfItems_repaired items)
  | .object members => exact congrArg (· + 1) (depthOfMembers_repaired members)

theorem depthOfItems_repaired (items : List Json) :
    depthOfItems (repairedItems items) = depthOfItems items := by
  match items with
  | [] => rfl
  | j :: rest => exact congrArg₂ max (depth_repaired j) (depthOfItems_repaired rest)

theorem depthOfMembers_repaired (members : List (Text × Json)) :
    depthOfMembers (repairedMembers members) = depthOfMembers members := by
  match members with
  | [] => rfl
  | (_, j) :: rest => exact congrArg₂ max (depth_repaired j) (depthOfMembers_repaired rest)

end

/-- A collection is opened within a limit if there is room for it and for what stands in it, and closing
it makes room again. -/
theorem opensWithin_bracketed {opening closing : Token} {n d : Nat} {inside rest : List Token}
    (hopening : ∀ ts, opensWithin n (opening :: ts) = (decide (0 < n) && opensWithin (n - 1) ts))
    (hclosing : ∀ ts, opensWithin (n - 1) (closing :: ts) = opensWithin (n - 1 + 1) ts)
    (hinside : ∀ ts, opensWithin (n - 1) (inside ++ ts) = (decide (d ≤ n - 1) && opensWithin (n - 1) ts)) :
    opensWithin n (opening :: (inside ++ [closing]) ++ rest) = (decide (d + 1 ≤ n) && opensWithin n rest) := by
  rw [List.cons_append, hopening, List.append_assoc, hinside, List.singleton_append, hclosing]
  cases n with
  | zero => simp
  | succ n => simp

mutual

/-- The lexemes of a tree keep within a limit exactly if the tree is no deeper than it. -/
theorem opensWithin_lexemes (j : Json) (n : Nat) (rest : List Token) :
    opensWithin n (j.lexemes ++ rest) = (decide (j.depth ≤ n) && opensWithin n rest) := by
  match j with
  | .null | .bool _ | .number _ | .string _ => simp [lexemes, depth, opensWithin]
  | .array items =>
    exact opensWithin_bracketed (fun _ => rfl) (fun _ => rfl) fun ts => opensWithin_itemLexemes items _ ts
  | .object members =>
    exact opensWithin_bracketed (fun _ => rfl) (fun _ => rfl) fun ts => opensWithin_memberLexemes members _ ts
termination_by sizeOf j

/-- The lexemes of elements keep within a limit exactly if the elements do. Commas open nothing. -/
theorem opensWithin_itemLexemes (items : List Json) (n : Nat) (rest : List Token) :
    opensWithin n (itemLexemes items ++ rest) = (decide (depthOfItems items ≤ n) && opensWithin n rest) := by
  match items with
  | [] => simp [itemLexemes, depthOfItems]
  | [j] =>
    rw [itemLexemes, opensWithin_lexemes j]
    simp [depthOfItems]
  | j :: j' :: items =>
    have hmore : ∀ ts, opensWithin n (Token.comma :: ts) = opensWithin n ts := fun _ => rfl
    show opensWithin n ((j.lexemes ++ .comma :: itemLexemes (j' :: items)) ++ rest) = _
    rw [List.append_assoc, opensWithin_lexemes j, List.cons_append, hmore,
      opensWithin_itemLexemes (j' :: items)]
    simp only [depthOfItems, Nat.max_le, Bool.decide_and, Bool.and_assoc]
termination_by sizeOf items

/-- The lexemes of members keep within a limit exactly if their values do. Names are strings, and these open
nothing. -/
theorem opensWithin_memberLexemes (members : List (Text × Json)) (n : Nat) (rest : List Token) :
    opensWithin n (memberLexemes members ++ rest)
      = (decide (depthOfMembers members ≤ n) && opensWithin n rest) := by
  have hkey : ∀ k ts,
      opensWithin n (Token.scalar (.string (Text.repaired k)) :: .colon :: ts) = opensWithin n ts :=
    fun _ _ => rfl
  match members with
  | [] => simp [memberLexemes, depthOfMembers]
  | [(k, j)] =>
    rw [memberLexemes, List.cons_append, List.cons_append, hkey, opensWithin_lexemes j]
    simp [depthOfMembers]
  | (k, j) :: m :: members =>
    -- names, colons and commas count for nothing
    have hmore : ∀ ts, opensWithin n (Token.comma :: ts) = opensWithin n ts := fun _ => rfl
    show opensWithin n (.scalar (.string (Text.repaired k)) :: .colon ::
      (j.lexemes ++ .comma :: memberLexemes (m :: members)) ++ rest) = _
    rw [List.cons_append, List.cons_append, hkey, List.append_assoc, opensWithin_lexemes j,
      List.cons_append, hmore, opensWithin_memberLexemes (m :: members)]
    simp only [depthOfMembers, Nat.max_le, Bool.decide_and, Bool.and_assoc]
termination_by sizeOf members

end

/-- The compact form of a tree is read under the same condition on its numbers, and if its collections do
not stand too deep. The limit is looked for in the lexemes, and they show the depth of the tree. -/
theorem read_compact {j : Json} (hj : j.Numeric) :
    read j.compact = if j.readable ∧ j.depth ≤ maxDepth then .ok j.repaired else .error .malformed := by
  have hlex := lexes_compact j hj [] (by simp [EndsNumber])
  rw [List.append_nil, lex] at hlex
  rw [read, parse_compact hj, hlex]
  cases j.readable with
  | false => simp
  | true =>
    have htokens : (lex []).map (j.lexemes ++ ·) = some j.lexemes := congrArg some (List.append_nil _)
    -- behind the lexemes of the tree nothing is opened any more
    have hopens : opensWithin maxDepth j.lexemes = decide (j.depth ≤ maxDepth) := by
      have h := opensWithin_lexemes j maxDepth []
      rwa [List.append_nil, opensWithin, Bool.and_true] at h
    rw [if_pos rfl, htokens, Option.map_some, Option.getD_some, hopens, if_pos rfl]
    simp

end DocFilter.Json
