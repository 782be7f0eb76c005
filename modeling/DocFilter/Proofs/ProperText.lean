import DocFilter.Proofs.DocumentText
import DocFilter.Proofs.GrammarReading

/-!
Every object of the grammar of interchange documents is read, and read as what it means. Main result
(`Document.parse_objectText`): a text that is an object of the grammar, with any white space in it and
around it, is read as the document that its members mean, in their order and with repeated keys.

What the grammar allows the lenient reader reads (`Members.Proper.loose`). What is left is to see that
nothing is lost on the way. The lenient reader repairs the content of strings, and there is nothing to
repair in a proper one: its bytes are characters, and so is what its escapes stand for, alone or in
pairs (`isUtf8_content`). And white space around an object is trimmed, but nothing of the object
(`trim_blanks`, `trim_object`).
-/

set_option autoImplicit false

namespace DocFilter.Grammar

open Text (byte)

/-! ## Proper trees -/

theorem continuesNumber_of_isDigit {b : UInt8} (h : Text.isDigit b = true) :
    Lexeme.continuesNumber b = true := by
  simp [Lexeme.continuesNumber, h]

/-- The bytes of a number that stand behind its whole part go on with the number: a point with digits, and a
letter with a sign and digits. -/
theorem continuesNumber_of_tail {fraction exponent : Text} (hfraction : IsFraction fraction)
    (hexponent : IsExponent exponent) : ∀ b ∈ fraction ++ exponent, Lexeme.continuesNumber b = true := by
  intro b hb
  rcases List.mem_append.1 hb with hb | hb
  · rcases hfraction with rfl | ⟨ds, hds, rfl⟩
    · exact absurd hb List.not_mem_nil
    · rcases List.mem_cons.1 hb with rfl | hb
      · decide
      · exact continuesNumber_of_isDigit (hds.2 b hb)
  · rcases hexponent with rfl | ⟨e, sign, ds, he, hsign, hds, rfl⟩
    · exact absurd hb List.not_mem_nil
    · rcases List.mem_cons.1 hb with rfl | hb
      · rcases he with rfl | rfl <;> decide
      rcases List.mem_append.1 hb with hb | hb
      · rcases hsign with rfl | rfl | rfl
        · exact absurd hb List.not_mem_nil
        · obtain rfl := List.mem_singleton.1 hb
          decide
        · obtain rfl := List.mem_singleton.1 hb
          decide
      · exact continuesNumber_of_isDigit (hds.2 b hb)

/-- A number of the grammar is a loose number: it begins with a digit or a sign and goes on with bytes of
numbers. -/
theorem IsNumber.loose {t : Text} (h : IsNumber t) : LooseNumber t := by
  obtain ⟨sign, whole, fraction, exponent, rfl, hsign, ⟨⟨hne, hdigits⟩, -⟩, hfraction, hexponent⟩ := h
  have htail := continuesNumber_of_tail hfraction hexponent
  obtain ⟨d, whole, rfl⟩ := List.exists_cons_of_ne_nil hne
  have hd : Text.isDigit d = true := hdigits d List.mem_cons_self
  have hmore : ∀ c ∈ whole ++ (fraction ++ exponent), Lexeme.continuesNumber c = true := by
    intro c hc
    rcases List.mem_append.1 hc with hc | hc
    · exact continuesNumber_of_isDigit (hdigits c (List.mem_cons_of_mem d hc))
    · exact htail c hc
  -- the first byte is a digit of the whole part, or the sign before it
  rcases hsign with rfl | rfl
  · refine ⟨d, whole ++ (fraction ++ exponent), by simp, by simp [hd], hmore⟩
  · refine ⟨byte '-', d :: (whole ++ (fraction ++ exponent)), by simp, by decide, ?_⟩
    exact List.forall_mem_cons.2 ⟨continuesNumber_of_isDigit hd, hmore⟩

/-- The parts of a proper string are loose parts. The reader asks less of an escape by number: any four
bytes will do. -/
theorem ProperString.loose {parts : List Part} (h : ProperString parts) : ∀ p ∈ parts, p.Loose := by
  induction h with
  | nil => exact fun p hp => absurd hp List.not_mem_nil
  | @char c rest hcontrol hquote hslash _ ih =>
    intro p hp
    rcases List.mem_append.1 hp with hp | hp
    · obtain ⟨b, hb, rfl⟩ := List.mem_map.1 hp
      exact Json.bytes_ofChar hquote hslash hcontrol b hb
    · exact ih p hp
  | short hletter _ ih => exact List.forall_mem_cons.2 ⟨hletter, ih⟩
  | code _ _ ih => exact List.forall_mem_cons.2 ⟨trivial, ih⟩

/-- A separator of the grammar is one that the lenient reader passes over. -/
theorem looseGap_of_signs {gap : Text} {b : UInt8} (h : signs gap = [b]) (hb : b = byte ',' ∨ b = byte ':') :
    LooseGap gap := by
  intro c hc
  rw [h] at hc
  rwa [List.mem_singleton.1 hc]

/-- The gap of the grammar before a member or an element, with one comma in it or none, is a loose gap. -/
theorem looseGap_of_separator {gap : Text} {first : Bool} (h : signs gap = separator first) :
    LooseGap gap := by
  cases first with
  | true => exact looseGap_of_blank h
  | false => exact looseGap_of_signs h (.inl rfl)

/-- Behind an element of the grammar comes what ends a number: white space, a comma or the closing bracket,
and none of these goes on with one. -/
theorem Items.Proper.endsNumber {items : Items} (h : items.Proper false) : Json.EndsNumber items.text := by
  cases items with
  | close gap bracket =>
    obtain ⟨hgap, rfl⟩ := h
    have hclose := endsNumber_close hgap (.inr rfl) []
    rwa [List.append_nil] at hclose
  | item gap x items =>
    obtain ⟨hgap, -, -⟩ := h
    have hne : gap ≠ [] := by
      rintro rfl
      cases hgap
    obtain ⟨b, gap, rfl⟩ := List.exists_cons_of_ne_nil hne
    exact endsNumber_cons (not_continues_of_gap (looseGap_of_separator hgap) List.mem_cons_self) _

mutual

/-- **The lenient reader reads the trees of the grammar.** -/
theorem Tree.Proper.loose {x : Tree} (h : x.Proper) : x.Loose := by
  match x, h with
  | .word w, _ => trivial
  | .number digits, h => exact IsNumber.loose h
  | .string parts, h => exact ProperString.loose h
  | .array items, h => exact Items.Proper.loose h
  | .object members, h => exact Members.Proper.loose h

/-- Proper elements are loose ones. The induction over trees has one statement for each of the three types.
-/
theorem Items.Proper.loose {items : Items} {first : Bool} (h : items.Proper first) : items.Loose := by
  match items, h with
  | .close gap bracket, h => exact ⟨h.1, .inr h.2⟩
  | .item gap x items, h =>
    obtain ⟨hgap, hx, hitems⟩ := h
    exact ⟨looseGap_of_separator hgap, hx.loose, hitems.loose, fun _ => hitems.endsNumber⟩

theorem Members.Proper.loose {members : Members} {first : Bool} (h : members.Proper first) :
    members.Loose := by
  match members, h with
  | .close gap bracket, h => exact ⟨h.1, .inl h.2⟩
  | .member gap key colon x members, h =>
    obtain ⟨hgap, hkey, hcolon, hx, hmembers⟩ := h
    exact ⟨looseGap_of_separator hgap, hkey.loose, looseGap_of_signs hcolon (.inr rfl), hx.loose,
      hmembers.loose⟩

end

/-! ## What proper strings say -/

/-- Characters behind characters are characters: a text is cut into pieces from the front, and the first
text leaves nothing open. -/
theorem isUtf8_append {s t : Text} (hs : Text.isUtf8 s = true) (ht : Text.isUtf8 t = true) :
    Text.isUtf8 (s ++ t) = true := by
  obtain ⟨cs, rfl⟩ := Text.isUtf8_iff.1 hs
  obtain ⟨ds, rfl⟩ := Text.isUtf8_iff.1 ht
  exact Text.isUtf8_iff.2 ⟨cs ++ ds, List.flatMap_append.symm⟩

theorem isUtf8_ofChar (c : Char) : Text.isUtf8 (Text.ofChar c) = true :=
  Text.isUtf8_iff.2 ⟨[c], by simp [Text.ofChars]⟩

/-- What an escape by number stands for is characters, also if the number is half of a pair: then it is the
replacement character. -/
theorem isUtf8_numbered (n : Nat) : Text.isUtf8 (Lexeme.numbered n) = true := by
  unfold Lexeme.numbered
  split <;> exact isUtf8_ofChar _

/-- What an escape of one letter stands for is a single byte below 128, and so a character. -/
theorem isUtf8_escaped (letter : UInt8) : Text.isUtf8 (escapes.lookup letter).toList = true := by
  revert letter
  exact Text.forall_byte (by decide +kernel)

/-- Bytes that stand for themselves are the content of their part of the string. -/
theorem content_plain (bytes : Text) (rest : List Part) :
    content (bytes.map Part.plain ++ rest) = bytes ++ content rest := by
  induction bytes with
  | nil => rfl
  | cons b bytes ih => exact congrArg (b :: ·) ih

/-- An escape by number says a character, alone or together with the escape behind it. -/
theorem content_code (h₁ h₂ h₃ h₄ : UInt8) (rest : List Part) :
    (∃ n, content (.code h₁ h₂ h₃ h₄ :: rest) = Lexeme.numbered n ++ content rest) ∨
      ∃ l₁ l₂ l₃ l₄ more c, rest = .code l₁ l₂ l₃ l₄ :: more ∧
        content (.code h₁ h₂ h₃ h₄ :: rest) = Text.ofChar c ++ content more := by
  cases rest with
  | nil => exact .inl ⟨_, rfl⟩
  | cons p rest =>
    cases p with
    | plain | short => exact .inl ⟨_, rfl⟩
    | code l₁ l₂ l₃ l₄ =>
      rw [content]
      split
      · exact .inr ⟨_, _, _, _, _, _, rfl, rfl⟩
      · exact .inl ⟨_, rfl⟩

/-- **A proper string says characters.** The induction looks one part ahead, as pairs are read. -/
theorem isUtf8_content {parts : List Part} (h : ProperString parts) :
    Text.isUtf8 (content parts) = true ∧
      ∀ l₁ l₂ l₃ l₄ more, parts = .code l₁ l₂ l₃ l₄ :: more → Text.isUtf8 (content more) = true := by
  induction h with
  | nil => exact ⟨rfl, fun _ _ _ _ _ h => by cases h⟩
  | @char c rest _ _ _ _ ih =>
    refine ⟨?_, fun l₁ l₂ l₃ l₄ more heq => ?_⟩
    · rw [content_plain]
      exact isUtf8_append (isUtf8_ofChar c) ih.1
    · obtain ⟨b, bytes, hbytes, -⟩ := Text.leading?_ofChar c []
      rw [hbytes] at heq
      cases heq
  | @short letter rest _ _ ih =>
    refine ⟨?_, fun l₁ l₂ l₃ l₄ more heq => by cases heq⟩
    exact isUtf8_append (isUtf8_escaped letter) ih.1
  -- a pair takes the next part with it, and then what follows that one is needed
  | @code h₁ h₂ h₃ h₄ rest _ _ ih =>
    refine ⟨?_, fun l₁ l₂ l₃ l₄ more heq => ?_⟩
    · rcases content_code h₁ h₂ h₃ h₄ rest with ⟨n, hn⟩ | ⟨l₁, l₂, l₃, l₄, more, c, hrest, hc⟩
      · rw [hn]
        exact isUtf8_append (isUtf8_numbered n) ih.1
      · rw [hc]
        exact isUtf8_append (isUtf8_ofChar c) (ih.2 l₁ l₂ l₃ l₄ more hrest)
    · obtain ⟨-, rfl⟩ := List.cons.inj heq
      exact ih.1

/-- There is nothing to repair in the content of a proper string, so the lenient reader gives it back byte
by byte. -/
theorem ProperString.repaired_content {parts : List Part} (h : ProperString parts) :
    Text.repaired (content parts) = content parts :=
  Text.repaired_of_isUtf8 (isUtf8_content h).1

/-! ## What documents mean -/

mutual

/-- The value that an interchange document means in a filter. A number is an integer if it can be read
as one, else a floating-point number if it can be read as one, else its own text. -/
inductive Means : Json → Value → Prop
  | null : Means .null .null
  | bool (b : Bool) : Means (.bool b) (.bool b)
  | int {digits : Text} {n : Int} : Number.readInt64 digits = .ok n → Means (.number digits) (.int .int n)
  | float {digits : Text} {x : Number.Binary} : (∀ n, Number.readInt64 digits ≠ .ok n) →
      Number.readBinary Number.double digits = .ok x → Means (.number digits) (.float .double x)
  | digits {digits : Text} : (∀ n, Number.readInt64 digits ≠ .ok n) →
      (∀ x, Number.readBinary Number.double digits ≠ .ok x) → Means (.number digits) (.text digits)
  | string (t : Text) : Means (.string t) (.text t)
  | array {items : List Json} {values : List Value} : ItemsMean items values →
      Means (.array items) (.list .any values)
  | object {members : List (Text × Json)} {fields : List (Text × Value)} : MembersMean members fields →
      Means (.object members) (.doc fields)

/-- The values that elements mean, one for each and in their order. -/
inductive ItemsMean : List Json → List Value → Prop
  | nil : ItemsMean [] []
  | cons {j : Json} {v : Value} {items : List Json} {values : List Value} : Means j v →
      ItemsMean items values → ItemsMean (j :: items) (v :: values)

/-- The fields that members mean, one for each and in their order. -/
inductive MembersMean : List (Text × Json) → List (Text × Value) → Prop
  | nil : MembersMean [] []
  | cons {key : Text} {j : Json} {v : Value} {members : List (Text × Json)} {fields : List (Text × Value)} :
      Means j v → MembersMean members fields → MembersMean ((key, j) :: members) ((key, v) :: fields)

end

/-- A number means an integer if it is a numeral of one in 64 bits, else the nearest number of 64 bits, and
its own text if it is too large for one. The reader tries the three in this order. -/
theorem means_number (digits : Text) : Means (.number digits) (numberValue digits) := by
  unfold numberValue
  cases hint : Number.readInt64 digits with
  | ok n => exact .int hint
  | error e =>
    -- the later two forms are meant only where the earlier ones are not
    have hnone : ∀ n, Number.readInt64 digits ≠ .ok n := by
      intro n hn
      rw [hint] at hn
      cases hn
    dsimp only
    cases hfloat : Number.readBinary Number.double digits with
    | ok x => exact .float hnone hfloat
    | error e =>
      refine .digits hnone fun x hx => ?_
      rw [hfloat] at hx
      cases hx

mutual

/-- What a tree of the grammar is read as is what it means. -/
theorem Tree.Proper.means {x : Tree} (h : x.Proper) : Means x.json x.json.filterValue := by
  match x, h with
  | .word w, _ =>
    cases w with
    | null => exact .null
    | true => exact .bool _
    | false => exact .bool _
  | .number digits, _ => exact means_number digits
  | .string parts, h =>
    rw [Tree.json, Json.filterValue, ProperString.repaired_content h]
    exact .string _
  | .array items, h => exact .array (Items.Proper.means h)
  | .object members, h => exact .object (Members.Proper.means h)

theorem Items.Proper.means {items : Items} {first : Bool} (h : items.Proper first) :
    ItemsMean items.json (Json.filterItems items.json) := by
  match items, h with
  | .close gap bracket, _ => exact .nil
  | .item gap x items, h =>
    obtain ⟨-, hx, hitems⟩ := h
    exact .cons hx.means hitems.means

/-- Proper members are read as what they mean, each under its own key, in their order and with repeated
keys. -/
theorem Members.Proper.means {members : Members} {first : Bool} (h : members.Proper first) :
    MembersMean members.json (Json.filterMembers members.json) := by
  match members, h with
  | .close gap bracket, _ => exact .nil
  | .member gap key colon x members, h =>
    obtain ⟨-, hkey, -, hx, hmembers⟩ := h
    rw [Members.json, Json.filterMembers, hkey.repaired_content]
    exact .cons hx.means hmembers.means

end

/-! ## White space around an object -/

/-- The four blanks of the grammar are blanks of Unicode, too, so that trimming takes them away. There are
more of the latter, but none of them begins an object. -/
theorem space_byte (b : UInt8) : Json.isSpace b = true →
    b < 0x80 ∧ Text.Piece.isBlank (.char (Char.ofNat b.toNat)) = true := by
  revert b
  exact Text.forall_byte (by decide +kernel)

theorem isSpace_of_signs {gap : Text} (h : signs gap = []) : ∀ b ∈ gap, Json.isSpace b = true := by
  intro b hb
  by_contra hspace
  have hsign : b ∈ signs gap := List.mem_filter.2 ⟨hb, by simpa using hspace⟩
  rw [h] at hsign
  exact absurd hsign List.not_mem_nil

theorem trim_space_cons {b : UInt8} (hb : Json.isSpace b = true) (t : Text) :
    Text.trim (b :: t) = Text.trim t := by
  obtain ⟨hascii, hblank⟩ := space_byte b hb
  have hpieces : Text.pieces (b :: t) = .char (Char.ofNat b.toNat) :: Text.pieces t := by
    rw [Text.pieces_cons, Text.leading?_ascii hascii]
    rfl
  rw [Text.trim, hpieces, List.dropWhile_cons_of_pos hblank]
  rfl

/-- Trimming does not see a blank at the end. The text is decoded from the front, so this takes an argument
where the other end takes none. -/
theorem trim_space_snoc {b : UInt8} (hb : Json.isSpace b = true) (t : Text) :
    Text.trim (t ++ [b]) = Text.trim t := by
  obtain ⟨hascii, hblank⟩ := space_byte b hb
  have hdrop : [Text.Piece.char (Char.ofNat b.toNat)].dropWhile Text.Piece.isBlank = [] :=
    List.dropWhile_cons_of_pos hblank
  rw [Text.trim, Text.trim, Text.pieces_snoc hascii, List.dropWhile_append]
  split
  · next hempty =>
    rw [hdrop, List.isEmpty_iff.1 hempty]
  · rw [List.reverse_append, List.reverse_singleton, List.singleton_append,
      List.dropWhile_cons_of_pos hblank]

theorem trim_blanks {before after : Text} (hbefore : ∀ b ∈ before, Json.isSpace b = true)
    (hafter : ∀ b ∈ after, Json.isSpace b = true) (t : Text) :
    Text.trim (before ++ (t ++ after)) = Text.trim t := by
  induction before with
  | cons b before ih =>
    rw [List.cons_append, trim_space_cons (hbefore b List.mem_cons_self)]
    exact ih fun c hc => hbefore c (List.mem_cons_of_mem b hc)
  | nil =>
    induction after using List.reverseRecOn with
    | nil => simp
    | append_singleton after b ih =>
      rw [List.nil_append, ← List.append_assoc, trim_space_snoc (hafter b (by simp))]
      exact ih fun c hc => hafter c (by simp [hc])

/-- The members of a proper object end with its bracket. What stands before the bracket is any text. -/
theorem Members.Proper.ends {members : Members} {first : Bool} (h : members.Proper first) :
    ∃ mid, members.text = mid ++ [byte '\x7d'] := by
  match members, h with
  | .close gap bracket, h =>
    obtain ⟨-, rfl⟩ := h
    exact ⟨gap, rfl⟩
  | .member gap key colon x members, h =>
    obtain ⟨-, -, -, -, hmembers⟩ := h
    obtain ⟨mid, hmid⟩ := hmembers.ends
    refine ⟨gap ++ (quoted key ++ (colon ++ (x.text ++ mid))), ?_⟩
    rw [Members.text, hmid]
    simp only [List.append_assoc]

/-- Nothing of an object is trimmed, as it begins and ends with a brace. -/
theorem trim_object {members : Members} (h : members.Proper true) :
    Text.trim (Tree.object members).text = (Tree.object members).text := by
  obtain ⟨mid, hmid⟩ := h.ends
  rw [Tree.text, hmid]
  exact Text.trim_between (by decide) (by decide) (by decide) (by decide) mid

end DocFilter.Grammar

namespace DocFilter.Document

open Grammar
open Text (byte)

/-- **Every object of the grammar is read, as what it means.** A text that is an object, with any white
space in it and around it, is read as a document with a field for each of its members, in their order
and with repeated keys, at every level; and so is every other text of an object with these members, so
that nothing depends on white space. -/
theorem parse_objectText {t : Text} {members : List (Text × Json)} (h : ObjectText t members) :
    ∃ fields, MembersMean members fields ∧ ∀ t', ObjectText t' members → parse t' = .ok fields := by
  refine ⟨Json.filterMembers members, ?_, ?_⟩
  · obtain ⟨-, x, -, -, hx, -, rfl, -⟩ := h
    exact hx.means
  · rintro t' ⟨before, x, after, hbefore, hx, hafter, rfl, rfl⟩
    have htrim := trim_blanks (isSpace_of_signs hbefore) (isSpace_of_signs hafter) (Tree.object x).text
    rw [trim_object hx] at htrim
    have hread := readBraced_object hx.loose [] rfl
    rw [List.append_nil] at hread
    exact (parse_braced htrim).2 ⟨_, hread, rfl⟩

/-- An object with a key that occurs twice, a pair of escapes by number, half a pair and an object
within it, with white space at every place where it may stand. -/
def laidOut (space : Text) : Members :=
  .member space [.plain (byte 'k')] (space ++ byte ':' :: space) (.number "1") <|
  .member (space ++ byte ',' :: space) [.plain (byte 'k')] (space ++ byte ':' :: space)
    (.array (.close space (byte ']'))) <|
  .member (space ++ byte ',' :: space)
    [.code (byte 'd') (byte '8') (byte '3') (byte 'D'),
      .code (byte 'd') (byte 'e') (byte '0') (byte '0'),
      .code (byte 'D') (byte '8') (byte '0') (byte '0'), .short (byte 'n')]
    (space ++ byte ':' :: space)
    (.object (.member space [] (space ++ byte ':' :: space) (.number "-0")
      (.close space (byte '\x7d')))) <|
  .close space (byte '\x7d')

/-- The example text is proper with every white space that may stand between its lexemes. It has names
twice, an empty array, an empty name, a pair of halves and a half without the other. -/
theorem laidOut_proper {space : Text} (h : signs space = []) : (laidOut space).Proper true := by
  -- a separator with white space on both sides
  have hsign : ∀ b, Json.isSpace b = false → signs (space ++ b :: space) = [b] := by
    intro b hb
    rw [signs, List.filter_append, List.filter_cons_of_pos (by simpa using hb)]
    show signs space ++ b :: signs space = [b]
    rw [h]
    rfl
  have hcomma := hsign (byte ',') (by decide)
  have hcolon := hsign (byte ':') (by decide)
  have hk : ProperString [.plain (byte 'k')] :=
    .char (c := 'k') (by decide) (by decide) (by decide) .nil
  have hdigit : ∀ d, Text.isDigit d = true → IsWhole [d] := by
    intro d hd
    refine ⟨⟨List.cons_ne_nil d [], List.forall_mem_singleton.2 hd⟩, fun hhead => ?_⟩
    rw [Option.some.inj hhead]
  have hone : IsNumber [byte '1'] :=
    ⟨[], [byte '1'], [], [], rfl, .inl rfl, hdigit _ (by decide), .inl rfl, .inl rfl⟩
  have hzero : IsNumber [byte '-', byte '0'] :=
    ⟨[byte '-'], [byte '0'], [], [], rfl, .inr rfl, hdigit _ (by decide), .inl rfl, .inl rfl⟩
  have hcodes : ProperString
      [.code (byte 'd') (byte '8') (byte '3') (byte 'D'),
        .code (byte 'd') (byte 'e') (byte '0') (byte '0'),
        .code (byte 'D') (byte '8') (byte '0') (byte '0'), .short (byte 'n')] :=
    .code (by decide) (.code (by decide) (.code (by decide) (.short (by decide) .nil)))
  exact ⟨h, hk, hcolon, hone, hcomma, hk, hcolon, ⟨h, rfl⟩, hcomma, hcodes, hcolon,
    ⟨h, .nil, hcolon, hzero, h, rfl⟩, h, rfl⟩

/-- The object without white space. -/
def tightText : Text :=
  "\x7b\"k\":1,\"k\":[],\"\\ud83D\\ude00\\uD800\\n\":\x7b\"\":-0\x7d\x7d"

/-- The object with a blank and the end of a line at every place where white space may stand. -/
def wideText : Text :=
  let space : Text := " \n"
  space ++ ((Tree.object (laidOut space)).text ++ space)

/-- The document that the object means: the pair is one character, and half a pair is replaced. -/
def laidOutDocument : Document :=
  [("k", .int .int 1), ("k", .list .any []),
    ([0xF0, 0x9F, 0x98, 0x80, 0xEF, 0xBF, 0xBD, 0x0A], .doc [("", .int .int 0)])]

/-- Both texts are read as this document: white space makes no difference, and neither does the way in which
characters are spelled. -/
theorem wideText_read_as_tightText :
    ObjectText tightText (laidOut []).json ∧ ObjectText wideText (laidOut []).json ∧
      MembersMean (laidOut []).json laidOutDocument ∧ parse tightText = .ok laidOutDocument ∧
      parse wideText = .ok laidOutDocument := by
  have htight : ObjectText tightText (laidOut []).json :=
    ⟨[], laidOut [], [], rfl, laidOut_proper rfl, rfl, rfl, rfl⟩
  have hwide : ObjectText wideText (laidOut []).json :=
    ⟨" \n", laidOut " \n", " \n", rfl, laidOut_proper rfl, rfl, rfl, rfl⟩
  obtain ⟨fields, hmeans, hparse⟩ := parse_objectText htight
  have hvalue : parse tightText = .ok laidOutDocument := rfl
  obtain rfl : fields = laidOutDocument := Except.ok.inj ((hparse tightText htight).symm.trans hvalue)
  exact ⟨htight, hwide, hmeans, hvalue, hparse wideText hwide⟩

end DocFilter.Document
