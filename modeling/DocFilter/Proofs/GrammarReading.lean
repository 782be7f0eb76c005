import DocFilter.Document.Source
import DocFilter.Proofs.JsonGrammar
import DocFilter.Proofs.LenientReading

/-!
Reading trees of the grammar of interchange documents with the lenient reader. It reads far more than
the grammar allows, and those trees that it reads are `Loose`: it passes over commas and colons in any
number, takes either bracket for the end of a collection, any row of bytes of numbers for a number and
any four bytes for the digits of an escape. Main result (`readBraced_object`): a loose object, with
nothing but separators behind it, is read as the document that the tree stands for.

The reader is followed along the tree. A lexeme is read off its text (`Spells.lexFrom_append`), a gap
leaves at most a mark on the lexeme behind it (`lexFrom_gap`), and a value that is complete goes where
the reader waits for it (`Tree.run_text`).
-/

set_option autoImplicit false

namespace DocFilter.Grammar

open Text (byte)
open Lexeme (lexFrom scanString)

/-! ## What the lenient reader lets pass -/

/-- A part of a string that the lenient reader takes: the digits of an escape may be any bytes. -/
def Part.Loose : Part → Prop
  | .plain b => b ≠ byte '"' ∧ b ≠ 0 ∧ b ≠ byte '\\'
  | .short letter => (escapes.lookup letter).isSome = true
  | .code _ _ _ _ => True

/-- A gap that the lenient reader passes over: white space, commas and colons in any number. -/
def LooseGap (gap : Text) : Prop := ∀ b ∈ signs gap, b = byte ',' ∨ b = byte ':'

/-- The bytes that the lenient reader takes for a number. -/
def LooseNumber (t : Text) : Prop :=
  ∃ b more, t = b :: more ∧ (Text.isDigit b || b == byte '-') = true ∧
    ∀ c ∈ more, Lexeme.continuesNumber c = true

/-- The lenient reader takes either bracket for the end of a collection. -/
def IsClosing (bracket : UInt8) : Prop := bracket = byte '\x7d' ∨ bracket = byte ']'

/-- Whether a tree is a number. -/
def Tree.isNumber : Tree → Bool
  | .number _ => true
  | _ => false

mutual

/-- The values that the lenient reader reads. -/
def Tree.Loose : Tree → Prop
  | .word _ => True
  | .number digits => LooseNumber digits
  | .string parts => ∀ p ∈ parts, p.Loose
  | .array items => items.Loose
  | .object members => members.Loose

/-- The elements that the lenient reader reads: either bracket closes the array, and two numbers must
not run into one. -/
def Items.Loose : Items → Prop
  | .close gap bracket => signs gap = [] ∧ IsClosing bracket
  | .item gap x rest =>
    LooseGap gap ∧ x.Loose ∧ rest.Loose ∧ (x.isNumber = true → Json.EndsNumber rest.text)

/-- The members that the lenient reader reads: either bracket closes the object. -/
def Members.Loose : Members → Prop
  | .close gap bracket => signs gap = [] ∧ IsClosing bracket
  | .member gap key colon x rest =>
    LooseGap gap ∧ (∀ p ∈ key, p.Loose) ∧ LooseGap colon ∧ x.Loose ∧ rest.Loose

end

/-! ## Gaps -/

theorem signs_cons_space {b : UInt8} (hb : Json.isSpace b = true) (gap : Text) :
    signs (b :: gap) = signs gap := by
  simp [signs, hb]

/-- A byte that is no blank is one of the signs of a gap. The lenient reader allows commas and colons only,
and this in any number. -/
theorem signs_cons_sign {b : UInt8} (hb : Json.isSpace b = false) (gap : Text) :
    signs (b :: gap) = b :: signs gap := by
  simp [signs, hb]

/-- A gap of blanks is a loose gap. Most gaps of proper documents are of this kind. -/
theorem looseGap_of_blank {gap : Text} (h : signs gap = []) : LooseGap gap := by
  intro b hb
  rw [h] at hb
  exact absurd hb List.not_mem_nil

/-- A comma or colon is passed over, and leaves a mark on the lexeme behind it. -/
theorem lexFrom_sign {b : UInt8} (hb : b = byte ',' ∨ b = byte ':') (separated : Bool) (rest : Text) :
    lexFrom 0 separated (b :: rest) = lexFrom 0 true rest := by
  rcases hb with rfl | rfl <;> rfl

/-- **A gap leaves a mark on the lexeme behind it, if a separator stands in it.** How many separators there
are, and which, is not seen any more. The induction is on the gap, byte by byte. -/
theorem lexFrom_gap {gap : Text} (h : LooseGap gap) (separated : Bool) (rest : Text) :
    lexFrom 0 separated (gap ++ rest) = lexFrom 0 (separated || !(signs gap).isEmpty) rest := by
  induction gap generalizing separated with
  | nil => simp [signs]
  | cons b gap ih =>
    unfold LooseGap at h
    rw [List.cons_append]
    by_cases hb : Json.isSpace b = true
    · rw [signs_cons_space hb] at h ⊢
      rw [Lexeme.lexFrom_space hb, ih h]
    · rw [Bool.not_eq_true] at hb
      rw [signs_cons_sign hb] at h ⊢
      have hrest : LooseGap gap := fun c hc => h c (List.mem_cons_of_mem b hc)
      rw [lexFrom_sign (h b List.mem_cons_self), ih hrest]
      simp

theorem lexFrom_blank {gap : Text} (h : signs gap = []) (separated : Bool) (rest : Text) :
    lexFrom 0 separated (gap ++ rest) = lexFrom 0 separated rest := by
  rw [lexFrom_gap (looseGap_of_blank h), h]
  simp

/-! ## Strings -/

theorem hexValue_eq_hex (b : UInt8) : Lexeme.hexValue b = hex b := by
  revert b
  exact Text.forall_byte (by decide +kernel)

/-- The four digits of an escape have the same value for the reader and for the grammar. Bytes that are no
digits have a value, too, and it is the same in both. -/
theorem hexWord_eq_codeUnit (h₁ h₂ h₃ h₄ : UInt8) : Lexeme.hexWord h₁ h₂ h₃ h₄ = codeUnit h₁ h₂ h₃ h₄ := by
  unfold Lexeme.hexWord codeUnit
  simp only [hexValue_eq_hex]
  omega

/-- The escapes of one letter are those of the table of the grammar. -/
theorem simpleEscape?_eq_lookup (b : UInt8) : Lexeme.simpleEscape? b = escapes.lookup b := by
  revert b
  exact Text.forall_byte (by decide +kernel)

theorem lookup_u : escapes.lookup (byte 'u') = none := by decide

/-- The bytes of a scanned string are counted from where the scan began. -/
theorem scanString_append (skipped t : Text) :
    scanString skipped.length (skipped ++ t) = (scanString 0 t).map fun r => (r.1, r.2 + skipped.length) := by
  induction skipped with
  | nil =>
    rw [List.nil_append, List.length_nil]
    cases scanString 0 t <;> rfl
  | cons b skipped ih =>
    rw [List.length_cons, List.cons_append, scanString, ih]
    cases scanString 0 t <;> rfl

/-- A second half is only found where an escape by number follows. -/
theorem lowHalf?_of_ne {t : Text} (h : ∀ more, t ≠ byte '\\' :: byte 'u' :: more) :
    Lexeme.lowHalf? t = none := by
  match t with
  | s :: u :: l₁ :: l₂ :: l₃ :: l₄ :: b :: rest =>
    have hoff : ¬ (s = byte '\\' ∧ u = byte 'u') := by
      rintro ⟨rfl, rfl⟩
      exact h _ rfl
    rw [Lexeme.lowHalf?]
    simp [hoff]
  | [] | [_] | [_, _] | [_, _, _] | [_, _, _, _] | [_, _, _, _, _] | [_, _, _, _, _, _] => rfl

/-- An escape is taken as a whole. -/
theorem scanString_escape (skipped : Text) {t y : Text}
    (h : Lexeme.escape (skipped ++ t) = .ok (y, skipped.length)) :
    scanString 0 (byte '\\' :: (skipped ++ t))
      = (scanString 0 t).map fun r => (y ++ r.1, r.2 + (skipped.length + 1)) := by
  rw [scanString, if_neg (by decide), if_neg (by decide), if_pos (by decide), h]
  dsimp only
  rw [scanString_append]
  cases scanString 0 t <;> rfl

theorem inner_cons (p : Part) (parts : List Part) : inner (p :: parts) = p.text ++ inner parts :=
  List.flatMap_cons

/-- An escape by number behind which no second half follows. -/
theorem scanString_code {h₁ h₂ h₃ h₄ : UInt8} {t : Text} (ht : t ≠ [])
    (hlow : Lexeme.isHigh (codeUnit h₁ h₂ h₃ h₄) = true → Lexeme.lowHalf? t = none) :
    scanString 0 ((Part.code h₁ h₂ h₃ h₄).text ++ t)
      = (scanString 0 t).map fun r => (Lexeme.numbered (codeUnit h₁ h₂ h₃ h₄) ++ r.1, r.2 + 6) := by
  rw [← hexWord_eq_codeUnit] at hlow ⊢
  exact scanString_escape [byte 'u', h₁, h₂, h₃, h₄] (Lexeme.escape_single ht hlow)

/-- The second escape of a pair is taken if it is the low half of a character, and left alone otherwise. One
byte more must follow, which in a string is the closing quote at the latest. -/
theorem lowHalf?_code (l₁ l₂ l₃ l₄ b : UInt8) (t : Text) :
    Lexeme.lowHalf? ((Part.code l₁ l₂ l₃ l₄).text ++ b :: t)
      = if Lexeme.isLow (codeUnit l₁ l₂ l₃ l₄) then some (codeUnit l₁ l₂ l₃ l₄) else none := by
  rw [← hexWord_eq_codeUnit]
  show Lexeme.lowHalf? (byte '\\' :: byte 'u' :: l₁ :: l₂ :: l₃ :: l₄ :: b :: t) = _
  rw [Lexeme.lowHalf?]
  simp

/-- The two halves of a pair are read as one character, and take twelve bytes. The text behind them is not
empty, for a string has its closing quotation mark there. -/
theorem scanString_pair {h₁ h₂ h₃ h₄ l₁ l₂ l₃ l₄ : UInt8} {t : Text} (ht : t ≠ [])
    (hhigh : Lexeme.isHigh (codeUnit h₁ h₂ h₃ h₄) = true)
    (hlow : Lexeme.isLow (codeUnit l₁ l₂ l₃ l₄) = true) :
    scanString 0 ((Part.code h₁ h₂ h₃ h₄).text ++ ((Part.code l₁ l₂ l₃ l₄).text ++ t))
      = (scanString 0 t).map fun r =>
        (Text.ofChar (Char.ofNat (0x10000 + (codeUnit h₁ h₂ h₃ h₄ - 0xD800) * 0x400 +
          (codeUnit l₁ l₂ l₃ l₄ - 0xDC00))) ++ r.1, r.2 + 12) := by
  obtain ⟨b, t, rfl⟩ := List.exists_cons_of_ne_nil ht
  refine scanString_escape [byte 'u', h₁, h₂, h₃, h₄, byte '\\', byte 'u', l₁, l₂, l₃, l₄] ?_
  have hhalf : Lexeme.lowHalf? (byte '\\' :: byte 'u' :: l₁ :: l₂ :: l₃ :: l₄ :: b :: t)
      = some (codeUnit l₁ l₂ l₃ l₄) := (lowHalf?_code l₁ l₂ l₃ l₄ b t).trans (if_pos hlow)
  rw [← hexWord_eq_codeUnit h₁] at hhigh ⊢
  show Lexeme.escape (byte 'u' :: h₁ :: h₂ :: h₃ :: h₄ :: byte '\\' :: byte 'u' :: l₁ :: l₂ :: l₃ :: l₄ ::
    b :: t) = _
  rw [Lexeme.escape, if_pos (by decide)]
  dsimp only
  rw [hhigh, hhalf]
  rfl

/-- Where the parts of a string do not begin with an escape by number, no second half follows: a plain byte
is no backslash, and no short escape has the letter of long ones. -/
theorem lowHalf?_inner {parts : List Part} (h : ∀ p ∈ parts, p.Loose)
    (hcode : ∀ l₁ l₂ l₃ l₄ more, parts ≠ .code l₁ l₂ l₃ l₄ :: more) (rest : Text) :
    Lexeme.lowHalf? (inner parts ++ byte '"' :: rest) = none := by
  apply lowHalf?_of_ne
  intro more heq
  cases parts with
  | nil => exact absurd (List.cons.inj heq).1 (by decide)
  | cons p parts =>
    have hp := h p List.mem_cons_self
    cases p with
    | plain b => exact hp.2.2 (List.cons.inj heq).1
    | short letter =>
      obtain rfl : letter = byte 'u' := (List.cons.inj (List.cons.inj heq).2).1
      rw [Part.Loose, lookup_u] at hp
      cases hp
    | code l₁ l₂ l₃ l₄ => exact hcode _ _ _ _ _ rfl

/-- An escape of one letter stands for its byte and takes one byte behind the backslash. -/
theorem escape_letter {letter b : UInt8} (h : escapes.lookup letter = some b) (t : Text) :
    Lexeme.escape (letter :: t) = .ok ([b], 1) := by
  have hletter : letter ≠ byte 'u' := by
    rintro rfl
    rw [lookup_u] at h
    cases h
  unfold Lexeme.escape
  dsimp only
  rw [if_neg (by simpa using hletter), simpleEscape?_eq_lookup, h]

/-- Scanning an escape of one letter: its byte is put in front of what follows, and two bytes are counted.
-/
theorem scanString_short {letter b : UInt8} (h : escapes.lookup letter = some b) (t : Text) :
    scanString 0 ((Part.short letter).text ++ t) = (scanString 0 t).map fun r => ([b] ++ r.1, r.2 + 2) :=
  scanString_escape [letter] (escape_letter h t)

/-- **The parts of a string are read as what they say.** The induction follows the definition of what they
say, which looks at two parts at a time to find pairs. -/
theorem scanString_inner (parts : List Part) (h : ∀ p ∈ parts, p.Loose) (rest : Text) :
    scanString 0 (inner parts ++ byte '"' :: rest) = .ok (content parts, (inner parts).length + 1) := by
  fun_induction content parts with
  | case1 => rfl
  | case2 b parts ih =>
    obtain ⟨⟨hquote, hzero, hslash⟩, htail⟩ := List.forall_mem_cons.1 h
    show scanString 0 (b :: (inner parts ++ byte '"' :: rest)) = _
    rw [scanString, if_neg (by simpa using hquote), if_neg (by simpa using hzero),
      if_neg (by simpa using hslash), ih htail]
    rfl
  | case3 letter parts ih =>
    obtain ⟨hletter, htail⟩ := List.forall_mem_cons.1 h
    obtain ⟨b, hb⟩ := Option.isSome_iff_exists.1 hletter
    rw [inner_cons, List.append_assoc, scanString_short hb, ih htail, hb]
    simp [Except.map, Part.text]
  -- two escapes by number that make a pair
  | case4 h₁ h₂ h₃ h₄ l₁ l₂ l₃ l₄ parts high low hpair ih =>
    obtain ⟨-, htail⟩ := List.forall_mem_cons.1 h
    obtain ⟨-, htail⟩ := List.forall_mem_cons.1 htail
    obtain ⟨hhigh, hlow⟩ := Bool.and_eq_true_iff.1 hpair
    rw [inner_cons, inner_cons, List.append_assoc, List.append_assoc, scanString_pair (by simp) hhigh hlow,
      ih htail]
    simp [Except.map, Part.text, high, low]
  -- two of them that make none: the first stands for itself
  | case5 h₁ h₂ h₃ h₄ l₁ l₂ l₃ l₄ parts high low hpair ih =>
    obtain ⟨-, htail⟩ := List.forall_mem_cons.1 h
    have hhalf : Lexeme.isHigh high = true →
        Lexeme.lowHalf? (inner (.code l₁ l₂ l₃ l₄ :: parts) ++ byte '"' :: rest) = none := by
      intro hhigh
      have hlow : Lexeme.isLow low = false := by simpa [hhigh] using hpair
      obtain ⟨b, t, ht⟩ := List.exists_cons_of_ne_nil (show inner parts ++ byte '"' :: rest ≠ [] by simp)
      rw [inner_cons, List.append_assoc, ht, lowHalf?_code, if_neg (by simpa using hlow)]
    rw [inner_cons, List.append_assoc, scanString_code (by simp) hhalf, ih htail]
    simp [Except.map, Part.text, high]
  -- and one with no other behind it
  | case6 h₁ h₂ h₃ h₄ parts hcode ih =>
    obtain ⟨-, htail⟩ := List.forall_mem_cons.1 h
    have hhalf := lowHalf?_inner htail (fun l₁ l₂ l₃ l₄ more heq => hcode l₁ l₂ l₃ l₄ more heq) rest
    rw [inner_cons, List.append_assoc, scanString_code (by simp) fun _ => hhalf, ih htail]
    simp [Except.map, Part.text]

/-! ## Lexemes -/

/-- The text of a lexeme. -/
inductive Spells : Text → Lexeme → Prop
  | openObject : Spells [byte '\x7b'] .openObject
  | closeObject : Spells [byte '\x7d'] .closeObject
  | openArray : Spells [byte '['] .openArray
  | closeArray : Spells [byte ']'] .closeArray
  | number {digits : Text} : LooseNumber digits → Spells digits (.number digits)
  | string {parts : List Part} : (∀ p ∈ parts, p.Loose) →
      Spells (quoted parts) (.string (Text.repaired (content parts)))
  | word (w : Word) : Spells w.spelling (.word w)

/-- Whether a lexeme is a number, which ends where the text behind it lets it end. -/
def isNumberLexeme : Lexeme → Bool
  | .number _ => true
  | _ => false

/-- The bytes of a number are taken up to the first one that is none. So a number is read as a whole if what
follows does not go on with it. -/
theorem takeWhile_number {more rest : Text} (hmore : ∀ c ∈ more, Lexeme.continuesNumber c = true)
    (hrest : Json.EndsNumber rest) : (more ++ rest).takeWhile Lexeme.continuesNumber = more := by
  rw [List.takeWhile_append_of_pos hmore]
  cases rest with
  | nil => simp
  | cons b rest =>
    have hb : Lexeme.continuesNumber b = false := hrest b rfl
    rw [List.takeWhile_cons_of_neg (by simpa using hb), List.append_nil]

/-- **A lexeme is read off its text**, and the lexer goes on with what follows. Only numbers need anything
of what follows: it must not look like more of the number. -/
theorem Spells.lexFrom_append {w : Text} {l : Lexeme} (h : Spells w l) {rest : Text}
    (hrest : isNumberLexeme l = true → Json.EndsNumber rest) (separated : Bool) :
    lexFrom 0 separated (w ++ rest) = ⟨separated, l⟩ :: lexFrom 0 false rest := by
  cases h with
  | openObject | closeObject | openArray | closeArray => rfl
  | number hdigits =>
    obtain ⟨b, more, rfl, hb, hmore⟩ := hdigits
    rw [List.cons_append, Lexeme.lexFrom_number hb, takeWhile_number hmore (hrest rfl), List.drop_left]
  | @string parts hparts =>
    have hscan := scanString_inner parts hparts rest
    have htext : quoted parts ++ rest = byte '"' :: (inner parts ++ byte '"' :: rest) := by
      simp [quoted]
    have hdrop : (inner parts ++ byte '"' :: rest).drop ((inner parts).length + 1) = rest := by
      rw [List.drop_append, List.drop_eq_nil_of_le (by omega)]
      simp
    rw [htext, Lexeme.lexFrom_string hscan, hdrop]
  | word w => cases w <;> rfl

/-! ## Values -/

/-- A state in which the reader takes a value that goes to a stack of open collections. -/
def Awaits (s : Reader.State) (stack : List Reader.Frame) : Prop :=
  ∀ p : Placed, Reader.endsCollection p = false → Reader.step s p = Reader.beginValue stack p.lexeme

theorem awaits_member (fields : List (Text × Value)) (key : Text) (outer : List Reader.Frame) :
    Awaits (.within (.member fields key) outer) (.member fields key :: outer) := fun _ _ => rfl

/-- In an array an element is awaited, unless the lexeme ends the array. -/
theorem awaits_array (items : List Value) (outer : List Reader.Frame) :
    Awaits (.within (.array items) outer) (.array items :: outer) := by
  intro p hp
  rw [Reader.step, hp]
  rfl

theorem run_cons {s s' : Reader.State} {p : Placed} (h : Reader.step s p = .ok s') (ps : List Placed) :
    Reader.run s (p :: ps) = Reader.run s' ps := by
  rw [Reader.run, h]
  rfl

/-- A bracket with no separator in front of it closes an object or an array. -/
theorem run_close {gap : Text} {bracket : UInt8} (hgap : signs gap = [])
    (hbracket : IsClosing bracket) {f : Reader.Frame}
    (hf : ∀ p, Reader.endsCollection p = true → ∀ outer,
      Reader.step (.within f outer) p = .ok (Reader.deliver f.close outer))
    (outer : List Reader.Frame) (rest : Text) :
    Reader.run (.within f outer) (lexFrom 0 false (gap ++ [bracket] ++ rest))
      = Reader.run (Reader.deliver f.close outer) (lexFrom 0 false rest) := by
  rw [List.append_assoc, lexFrom_blank hgap]
  rcases hbracket with rfl | rfl
  · rw [Spells.closeObject.lexFrom_append (by simp [isNumberLexeme]), run_cons (hf _ rfl outer)]
  · rw [Spells.closeArray.lexFrom_append (by simp [isNumberLexeme]), run_cons (hf _ rfl outer)]

/-- A closing bracket of either kind ends an object, provided that no sign stands right before it. -/
theorem step_close_object (fields : List (Text × Value)) (p : Placed) (hp : Reader.endsCollection p = true)
    (outer : List Reader.Frame) :
    Reader.step (.within (.object fields) outer) p
      = .ok (Reader.deliver (Reader.Frame.close (.object fields)) outer) := by
  rw [Reader.step, if_pos hp]

/-- A closing bracket of either kind ends an array under the same condition. -/
theorem step_close_array (items : List Value) (p : Placed) (hp : Reader.endsCollection p = true)
    (outer : List Reader.Frame) :
    Reader.step (.within (.array items) outer) p
      = .ok (Reader.deliver (Reader.Frame.close (.array items)) outer) := by
  rw [Reader.step, if_pos hp]

theorem wordJson_filterValue (w : Word) : (wordJson w).filterValue = w.value := by
  cases w <;> rfl

/-- A lexeme that begins a value ends no collection. In an array the reader asks for the end first, and this
lemma answers. -/
theorem not_endsCollection {stack : List Reader.Frame} {l : Lexeme} {s : Reader.State}
    (h : Reader.beginValue stack l = .ok s) (separated : Bool) :
    Reader.endsCollection ⟨separated, l⟩ = false := by
  cases l with
  | closeObject | closeArray => simp [Reader.beginValue] at h
  | _ => simp [Reader.endsCollection]

/-- A lexeme at a place for a value. -/
theorem run_lexeme {w : Text} {l : Lexeme} (hw : Spells w l) {s s' : Reader.State}
    {stack : List Reader.Frame} (hs : Awaits s stack) (hl : Reader.beginValue stack l = .ok s')
    (separated : Bool) (rest : Text) (hrest : isNumberLexeme l = true → Json.EndsNumber rest) :
    Reader.run s (lexFrom 0 separated (w ++ rest)) = Reader.run s' (lexFrom 0 false rest) := by
  have hstep := (hs ⟨separated, l⟩ (not_endsCollection hl separated)).trans hl
  rw [hw.lexFrom_append hrest, run_cons hstep]

/-- In an object a string is a key, and its value is awaited from then on. -/
theorem step_key (fields : List (Text × Value)) (outer : List Reader.Frame) (separated : Bool)
    (key : Text) :
    Reader.step (.within (.object fields) outer) ⟨separated, .string key⟩
      = .ok (.within (.member fields key) outer) := by
  rw [Reader.step, if_neg (by simp [Reader.endsCollection])]

/-- A byte that stands in a gap does not continue a number. -/
theorem not_continues_of_gap {gap : Text} (h : LooseGap gap) {b : UInt8} (hb : b ∈ gap) :
    Lexeme.continuesNumber b = false := by
  have hspace : ∀ b, Json.isSpace b = true → Lexeme.continuesNumber b = false :=
    Text.forall_byte (by decide +kernel)
  by_cases hblank : Json.isSpace b = true
  · exact hspace b hblank
  · have hsign : b ∈ signs gap := List.mem_filter.2 ⟨hb, by simpa using hblank⟩
    rcases h b hsign with rfl | rfl <;> decide

/-- A gap ends a number: its first byte, if it has one, is a blank, a comma or a colon, and what follows an
empty gap decides otherwise. -/
theorem endsNumber_gap {gap : Text} (h : LooseGap gap) {rest : Text} (hrest : Json.EndsNumber rest) :
    Json.EndsNumber (gap ++ rest) := by
  cases gap with
  | nil => exact hrest
  | cons b gap =>
    intro c hc
    obtain rfl : b = c := by simpa using hc
    exact not_continues_of_gap h List.mem_cons_self

theorem endsNumber_cons {b : UInt8} (hb : Lexeme.continuesNumber b = false) (rest : Text) :
    Json.EndsNumber (b :: rest) := by
  intro c hc
  obtain rfl : b = c := by simpa using hc
  exact hb

theorem endsNumber_close {gap : Text} {bracket : UInt8} (hgap : signs gap = [])
    (hbracket : IsClosing bracket) (rest : Text) :
    Json.EndsNumber (gap ++ [bracket] ++ rest) := by
  rw [List.append_assoc]
  apply endsNumber_gap (looseGap_of_blank hgap)
  rcases hbracket with rfl | rfl <;> exact endsNumber_cons (by decide) rest

/-- Whether a text ends a number depends on its first byte alone. -/
theorem endsNumber_append {t : Text} (ht : t ≠ []) (h : Json.EndsNumber t) (rest : Text) :
    Json.EndsNumber (t ++ rest) := by
  intro b hb
  rw [List.head?_append_of_ne_nil t ht] at hb
  exact h b hb

/-- The elements of an array that has some are written with at least one byte. Together with the lemma
above, what follows the elements need not be known. -/
theorem Items.text_ne_nil (items : Items) : items.text ≠ [] := by
  match items with
  | .close gap bracket => simp [Items.text]
  | .item gap x items =>
    have htail := items.text_ne_nil
    simp [Items.text, htail]

/-- What begins the members of an object does not continue a number. -/
theorem Members.Loose.endsNumber {members : Members} (h : members.Loose) (rest : Text) :
    Json.EndsNumber (members.text ++ rest) := by
  cases members with
  | close gap bracket =>
    obtain ⟨hgap, hbracket⟩ := h
    exact endsNumber_close hgap hbracket rest
  | member gap key colon x members =>
    obtain ⟨hgap, -⟩ := h
    rw [Members.text, List.append_assoc]
    exact endsNumber_gap hgap (endsNumber_cons (by decide) _)

mutual

/-- **A value is read and goes where the reader waits for it.** Collections are opened and then read up to
their end, each on top of the frames that wait for it. -/
theorem Tree.run_text (x : Tree) (hx : x.Loose) {s : Reader.State} {stack : List Reader.Frame}
    (hs : Awaits s stack) (separated : Bool) (rest : Text)
    (hrest : x.isNumber = true → Json.EndsNumber rest) :
    Reader.run s (lexFrom 0 separated (x.text ++ rest))
      = Reader.run (Reader.deliver x.json.filterValue stack) (lexFrom 0 false rest) := by
  match x, hx with
  | .word w, _ =>
    rw [Tree.json, wordJson_filterValue]
    exact run_lexeme (.word w) hs rfl separated rest (by simp [isNumberLexeme])
  | .number digits, hx => exact run_lexeme (.number hx) hs rfl separated rest fun _ => hrest rfl
  | .string parts, hx => exact run_lexeme (.string hx) hs rfl separated rest (by simp [isNumberLexeme])
  | .array items, hx =>
    have hopen := run_lexeme .openArray hs rfl separated (items.text ++ rest) (by simp [isNumberLexeme])
    exact hopen.trans (items.run_text hx [] stack rest)
  | .object members, hx =>
    have hopen := run_lexeme .openObject hs rfl separated (members.text ++ rest)
      (by simp [isNumberLexeme])
    exact hopen.trans (members.run_text hx [] stack rest)

/-- Elements are read up to the end of their array, behind those that were read before. -/
theorem Items.run_text (items : Items) (h : items.Loose) (before : List Value)
    (outer : List Reader.Frame) (rest : Text) :
    Reader.run (.within (.array before) outer) (lexFrom 0 false (items.text ++ rest))
      = Reader.run (Reader.deliver (.list .any (before.reverse ++ Json.filterItems items.json)) outer)
        (lexFrom 0 false rest) := by
  match items, h with
  | .close gap bracket, h =>
    obtain ⟨hgap, hbracket⟩ := h
    rw [Items.text, run_close hgap hbracket (step_close_array before)]
    simp [Reader.Frame.close, Items.json, Json.filterItems]
  | .item gap x items, h =>
    obtain ⟨hgap, hx, hitems, hnumber⟩ := h
    have hends : x.isNumber = true → Json.EndsNumber (items.text ++ rest) :=
      fun hn => endsNumber_append items.text_ne_nil (hnumber hn) rest
    rw [Items.text, List.append_assoc, List.append_assoc, lexFrom_gap hgap,
      x.run_text hx (awaits_array before outer) _ _ hends]
    -- elements are kept in reverse, so the new one stands in front
    have htail := items.run_text hitems (x.json.filterValue :: before) outer rest
    rw [List.reverse_cons, List.append_assoc] at htail
    exact htail

/-- Members are read up to the end of their object, behind those that were read before. -/
theorem Members.run_text (members : Members) (h : members.Loose) (before : List (Text × Value))
    (outer : List Reader.Frame) (rest : Text) :
    Reader.run (.within (.object before) outer) (lexFrom 0 false (members.text ++ rest))
      = Reader.run (Reader.deliver (.doc (before.reverse ++ Json.filterMembers members.json)) outer)
        (lexFrom 0 false rest) := by
  match members, h with
  | .close gap bracket, h =>
    obtain ⟨hgap, hbracket⟩ := h
    rw [Members.text, run_close hgap hbracket (step_close_object before)]
    simp [Reader.Frame.close, Members.json, Json.filterMembers]
  | .member gap key colon x members, h =>
    obtain ⟨hgap, hkey, hcolon, hx, hmembers⟩ := h
    -- the gap, the name, the gap before the value, and the value
    rw [Members.text, List.append_assoc, List.append_assoc, List.append_assoc, List.append_assoc,
      lexFrom_gap hgap, (Spells.string hkey).lexFrom_append (by simp [isNumberLexeme]),
      run_cons (step_key _ _ _ _), lexFrom_gap hcolon,
      x.run_text hx (awaits_member _ _ outer) _ _ fun _ => hmembers.endsNumber rest]
    have htail := members.run_text hmembers ((Text.repaired (content key), x.json.filterValue) :: before)
      outer rest
    rw [List.reverse_cons, List.append_assoc] at htail
    exact htail

end

/-! ## Objects -/

/-- An object that the lenient reader reads up to its end, with a trail behind it that holds no lexemes. The
document has the members as its fields. -/
theorem readBraced_object {members : Members} (h : members.Loose) (trail : Text)
    (htrail : lexFrom 0 false trail = []) :
    readBraced ((Tree.object members).text ++ trail) = .ok (.doc (Json.filterMembers members.json)) := by
  have hstart : Awaits .start [] := fun _ _ => rfl
  have hrun := Tree.run_text (.object members) h hstart false trail (by simp [Tree.isNumber])
  rw [htrail] at hrun
  unfold readBraced Lexeme.lex
  rw [hrun]
  rfl

/-- A text whose first sign is a brace is read with braces. -/
theorem parse_braced {t rest : Text} (ht : Text.trim t = byte '\x7b' :: rest) {d : Document} :
    Document.parse t = .ok d ↔
      ∃ v, readBraced (byte '\x7b' :: rest) = .ok v ∧ Document.ofRoot v = .ok d := by
  unfold Document.parse
  rw [ht]
  dsimp only
  rw [if_pos (by decide)]
  cases readBraced (byte '\x7b' :: rest) with
  | ok v => simp
  | error e => simp

end DocFilter.Grammar
