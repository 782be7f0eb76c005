import DocFilter.Proofs.ProperText

/-!
Stored documents are read as what they say. The strict reader splits a text into lexemes and feeds them
to a machine that knows at every point what may come next. An object of the grammar gives it what it
waits for: the parts of strings are scanned as what they say (`scanString?_inner`), and the text of a tree
hands over the tree to the collection that waits for it (`Tree.readFrom_text`). So every text of an object
is read as this object, with its members in their order (`Json.parse_of_objectText`).
-/

set_option autoImplicit false

namespace DocFilter

open Text (byte)

namespace Json

/-! ## From one state to the next -/

/-- The state that the text of some lexemes leads to. -/
def readFrom (s : State) (t : Text) : Option State := (lex t).bind fun ts => ts.foldlM step? s

theorem readFrom_space {b : UInt8} (hb : isSpace b = true) (s : State) (rest : Text) :
    readFrom s (b :: rest) = readFrom s rest := by
  have hlex : lex (b :: rest) = lex rest := by
    rw [lex, List.length_cons, tokens?, if_pos hb]
    rfl
  rw [readFrom, hlex, readFrom]

/-- The first lexeme of a text leads to the next state. -/
theorem readFrom_of_lex {t rest : Text} {tok : Token} (h : lex t = (lex rest).map (tok :: ·)) (s : State) :
    readFrom s t = (step? s tok).bind fun s' => readFrom s' rest := by
  unfold readFrom
  rw [h]
  cases lex rest with
  | some ts => rfl
  | none => cases step? s tok <;> rfl

/-- A lexeme at the front of a text takes the machine one step on. -/
theorem readFrom_token {b : UInt8} {more rest : Text} {tok : Token} (hb : isSpace b = false)
    (h : token? b (more ++ rest) = some (tok, rest)) (s : State) :
    readFrom s (b :: (more ++ rest)) = (step? s tok).bind fun s' => readFrom s' rest :=
  readFrom_of_lex (lex_token hb h) s

end Json

namespace Grammar

open Json (readFrom)

theorem readFrom_blank {gap : Text} (h : signs gap = []) (s : Json.State) (rest : Text) :
    readFrom s (gap ++ rest) = readFrom s rest := by
  have hspaces := isSpace_of_signs h
  clear h
  induction gap with
  | nil => rfl
  | cons b gap ih =>
    obtain ⟨hb, hgap⟩ := List.forall_mem_cons.1 hspaces
    rw [List.cons_append, Json.readFrom_space hb, ih hgap]

/-- A gap with one separator in it is one token for the reader, with any white space before it and behind
it. The induction is on the gap. -/
theorem readFrom_sign {gap : Text} {b : UInt8} (h : signs gap = [b]) {tok : Json.Token}
    (htok : ∀ rest, Json.token? b rest = some (tok, rest)) (s : Json.State) (rest : Text) :
    readFrom s (gap ++ rest) = (Json.step? s tok).bind fun s' => readFrom s' rest := by
  induction gap with
  | nil => cases h
  | cons c gap ih =>
    rw [List.cons_append]
    by_cases hc : Json.isSpace c = true
    · rw [signs_cons_space hc] at h
      rw [Json.readFrom_space hc, ih h]
    · rw [Bool.not_eq_true] at hc
      rw [signs_cons_sign hc] at h
      obtain ⟨rfl, hblank⟩ := List.cons.inj h
      rw [← List.nil_append (gap ++ rest), Json.readFrom_token hc (htok _)]
      exact congrArg _ (funext fun s' => readFrom_blank hblank s' rest)

/-! ## Strings -/

/-- The parts of proper strings, one by one: the digits of an escape by number are digits. -/
def Part.Strict : Part → Prop
  | .code h₁ h₂ h₃ h₄ => [h₁, h₂, h₃, h₄].all isHex = true
  | p => p.Loose

/-- The parts of a proper string are strict one by one: plain bytes that may stand in a string, short
escapes that there are, and escapes with four hexadecimal digits. -/
theorem ProperString.strict {parts : List Part} (h : ProperString parts) : ∀ p ∈ parts, p.Strict := by
  induction h with
  | nil => exact fun p hp => absurd hp List.not_mem_nil
  | @char c rest hcontrol hquote hslash _ ih =>
    intro p hp
    rcases List.mem_append.1 hp with hp | hp
    · obtain ⟨b, hb, rfl⟩ := List.mem_map.1 hp
      exact Json.bytes_ofChar hquote hslash hcontrol b hb
    · exact ih p hp
  | short hletter _ ih => exact List.forall_mem_cons.2 ⟨hletter, ih⟩
  | code hdigits _ ih => exact List.forall_mem_cons.2 ⟨hdigits, ih⟩

theorem isHexDigit_eq_isHex (b : UInt8) : Json.isHexDigit b = isHex b := by
  revert b
  exact Text.forall_byte (by decide +kernel)

/-- An escape by number, if no second half of a pair follows. -/
theorem escape?_code {h₁ h₂ h₃ h₄ : UInt8} (hdigits : [h₁, h₂, h₃, h₄].all isHex = true) {t : Text}
    (hlow : Lexeme.isHigh (codeUnit h₁ h₂ h₃ h₄) = true → ∀ l₁ l₂ l₃ l₄ more,
      t = byte '\\' :: byte 'u' :: l₁ :: l₂ :: l₃ :: l₄ :: more →
      Lexeme.isLow (codeUnit l₁ l₂ l₃ l₄) = false) :
    Json.escape? ([byte 'u', h₁, h₂, h₃, h₄] ++ t)
      = some (Lexeme.numbered (codeUnit h₁ h₂ h₃ h₄), 5) := by
  have hall : [h₁, h₂, h₃, h₄].all Json.isHexDigit = true := by
    rw [← hdigits, funext isHexDigit_eq_isHex]
  rw [← hexWord_eq_codeUnit] at hlow ⊢
  show Json.escape? (byte 'u' :: h₁ :: h₂ :: h₃ :: h₄ :: t) = _
  rw [Json.escape?, if_pos (by decide), if_pos hall]
  dsimp only
  cases hhigh : Lexeme.isHigh (Lexeme.hexWord h₁ h₂ h₃ h₄) with
  | false => rfl
  | true =>
    rcases t with _ | ⟨s, _ | ⟨u, _ | ⟨l₁, _ | ⟨l₂, _ | ⟨l₃, _ | ⟨l₄, more⟩⟩⟩⟩⟩⟩
    -- too little is left for a second escape
    iterate 6 · rfl
    dsimp only
    rw [if_neg]
    simp only [Bool.and_eq_true, beq_iff_eq, not_and, Bool.not_eq_true]
    rintro ⟨⟨rfl, rfl⟩, -⟩
    rw [hexWord_eq_codeUnit]
    exact hlow hhigh l₁ l₂ l₃ l₄ more rfl

/-- The two halves of a pair are read as one character. The strict reader checks that all eight digits are
hexadecimal before it looks at their values. -/
theorem escape?_pair {h₁ h₂ h₃ h₄ l₁ l₂ l₃ l₄ : UInt8} (hdigits : [h₁, h₂, h₃, h₄].all isHex = true)
    (hdigits' : [l₁, l₂, l₃, l₄].all isHex = true)
    (hhigh : Lexeme.isHigh (codeUnit h₁ h₂ h₃ h₄) = true)
    (hlow : Lexeme.isLow (codeUnit l₁ l₂ l₃ l₄) = true) (t : Text) :
    Json.escape? ([byte 'u', h₁, h₂, h₃, h₄, byte '\\', byte 'u', l₁, l₂, l₃, l₄] ++ t)
      = some (Text.ofChar (Char.ofNat (0x10000 + (codeUnit h₁ h₂ h₃ h₄ - 0xD800) * 0x400 +
          (codeUnit l₁ l₂ l₃ l₄ - 0xDC00))), 11) := by
  have hall : [h₁, h₂, h₃, h₄].all Json.isHexDigit = true := by
    rw [← hdigits, funext isHexDigit_eq_isHex]
  have hall' : [l₁, l₂, l₃, l₄].all Json.isHexDigit = true := by
    rw [← hdigits', funext isHexDigit_eq_isHex]
  rw [← hexWord_eq_codeUnit] at hhigh hlow
  rw [← hexWord_eq_codeUnit, ← hexWord_eq_codeUnit]
  show Json.escape? (byte 'u' :: h₁ :: h₂ :: h₃ :: h₄ :: byte '\\' :: byte 'u' :: l₁ :: l₂ :: l₃ :: l₄ :: t) = _
  rw [Json.escape?, if_pos (by decide), if_pos hall]
  dsimp only
  rw [hhigh]
  dsimp only
  rw [hall', hlow]
  rfl

theorem escape?_short {letter b : UInt8} (h : escapes.lookup letter = some b) (t : Text) :
    Json.escape? ([letter] ++ t) = some ([b], 1) := by
  have hletter : letter ≠ byte 'u' := by
    rintro rfl
    rw [lookup_u] at h
    cases h
  show Json.escape? (letter :: t) = _
  unfold Json.escape?
  dsimp only
  rw [if_neg (by simpa using hletter), simpleEscape?_eq_lookup, h]
  rfl

/-- Where a backslash and a `u` begin the parts of a string, an escape by number does. So a reader that
looks ahead for a second half sees a part of the string. -/
theorem code_of_inner {parts : List Part} (h : ∀ p ∈ parts, p.Strict) {rest more : Text} {k₁ k₂ k₃ k₄ : UInt8}
    (heq : inner parts ++ byte '"' :: rest = byte '\\' :: byte 'u' :: k₁ :: k₂ :: k₃ :: k₄ :: more) :
    ∃ parts', parts = .code k₁ k₂ k₃ k₄ :: parts' := by
  cases parts with
  | nil => exact absurd (List.cons.inj heq).1 (by decide)
  | cons p parts =>
    have hp := h p List.mem_cons_self
    cases p with
    | plain b => exact absurd (List.cons.inj heq).1 hp.2.2
    | short letter =>
      obtain rfl : letter = byte 'u' := (List.cons.inj (List.cons.inj heq).2).1
      have hletter : (escapes.lookup (byte 'u')).isSome = true := hp
      rw [lookup_u] at hletter
      cases hletter
    | code l₁ l₂ l₃ l₄ =>
      rw [inner_cons, List.append_assoc] at heq
      simp only [Part.text, List.cons_append, List.cons.injEq, true_and] at heq
      obtain ⟨rfl, rfl, rfl, rfl, -⟩ := heq
      exact ⟨parts, rfl⟩

/-- **The parts of a string are scanned as what they say**, up to the closing quotation mark. The induction
follows the definition of what they say, which looks at two parts at a time to find pairs. -/
theorem scanString?_inner (parts : List Part) (h : ∀ p ∈ parts, p.Strict) (rest : Text) :
    Json.scanString? 0 (inner parts ++ byte '"' :: rest) = some (content parts, rest) := by
  -- the cases of `content`, which takes the two halves of a pair together
  fun_induction content parts with
  | case1 => rfl
  | case2 b parts ih =>
    obtain ⟨⟨hquote, hzero, hslash⟩, htail⟩ := List.forall_mem_cons.1 h
    rw [inner_cons, List.append_assoc]
    show Json.scanString? 0 (b :: (inner parts ++ byte '"' :: rest)) = _
    rw [Json.scanString?_plain hquote hzero hslash, ih htail]
    rfl
  | case3 letter parts ih =>
    obtain ⟨hletter, htail⟩ := List.forall_mem_cons.1 h
    obtain ⟨b, hb⟩ := Option.isSome_iff_exists.1 hletter
    have hescape := escape?_short hb (inner parts ++ byte '"' :: rest)
    rw [inner_cons, List.append_assoc]
    show Json.scanString? 0 (byte '\\' :: ([letter] ++ (inner parts ++ byte '"' :: rest))) = _
    rw [Json.scanString?_escape hescape, ih htail, hb]
    rfl
  | case4 h₁ h₂ h₃ h₄ l₁ l₂ l₃ l₄ parts high low hpair ih =>
    obtain ⟨hdigits, htail⟩ := List.forall_mem_cons.1 h
    obtain ⟨hdigits', htail⟩ := List.forall_mem_cons.1 htail
    obtain ⟨hhigh, hlow⟩ := Bool.and_eq_true_iff.1 hpair
    have hescape := escape?_pair hdigits hdigits' hhigh hlow (inner parts ++ byte '"' :: rest)
    have hscan := Json.scanString?_escape hescape
    rw [ih htail] at hscan
    rw [inner_cons, inner_cons, List.append_assoc, List.append_assoc]
    exact hscan
  | case5 h₁ h₂ h₃ h₄ l₁ l₂ l₃ l₄ parts high low hpair ih =>
    obtain ⟨hdigits, htail⟩ := List.forall_mem_cons.1 h
    -- two escapes by number that are no pair: the second one is left for the next step
    have hescape := escape?_code hdigits (t := inner (.code l₁ l₂ l₃ l₄ :: parts) ++ byte '"' :: rest) (by
      intro hhigh k₁ k₂ k₃ k₄ more heq
      obtain ⟨parts', hparts⟩ := code_of_inner htail heq
      cases hparts
      have hhigh' : Lexeme.isHigh high = true := hhigh
      simpa [hhigh'] using hpair)
    have hscan := Json.scanString?_escape hescape
    rw [ih htail] at hscan
    rw [inner_cons, List.append_assoc]
    exact hscan
  | case6 h₁ h₂ h₃ h₄ parts hcode ih =>
    obtain ⟨hdigits, htail⟩ := List.forall_mem_cons.1 h
    have hescape := escape?_code hdigits (t := inner parts ++ byte '"' :: rest) (by
      intro _ k₁ k₂ k₃ k₄ more heq
      obtain ⟨parts', hparts⟩ := code_of_inner htail heq
      exact absurd hparts (hcode k₁ k₂ k₃ k₄ parts'))
    have hscan := Json.scanString?_escape hescape
    rw [ih htail] at hscan
    rw [inner_cons, List.append_assoc]
    exact hscan

/-! ## Values -/

/-- A proper string is one token, with what its parts say as content. -/
theorem token?_string {parts : List Part} (h : ProperString parts) (rest : Text) :
    Json.token? (byte '"') (inner parts ++ [byte '"'] ++ rest)
      = some (.scalar (.string (content parts)), rest) := by
  rw [List.append_assoc]
  show (Json.scanString? 0 (inner parts ++ byte '"' :: rest)).bind _ = _
  rw [scanString?_inner parts h.strict rest]
  rfl

/-- A string at any place. -/
theorem readFrom_string {parts : List Part} (h : ProperString parts) (s : Json.State) (rest : Text) :
    readFrom s (quoted parts ++ rest)
      = (Json.step? s (.scalar (.string (content parts)))).bind fun s' => readFrom s' rest :=
  Json.readFrom_token (by decide) (token?_string h rest) s

/-- A number in front of what ends it is one token. The scanner takes all bytes that may go on with a
number, and then checks the whole. -/
theorem readFrom_number {digits : Text} (h : LooseNumber digits) (s : Json.State) {rest : Text}
    (hrest : Json.EndsNumber rest) :
    readFrom s (digits ++ rest)
      = (Json.step? s (.scalar (.number digits))).bind fun s' => readFrom s' rest := by
  obtain ⟨b, more, rfl, hb, hmore⟩ := h
  have hfirst : Lexeme.continuesNumber b = true := by
    revert hb
    revert b
    exact Text.forall_byte (by decide +kernel)
  have hlex := Json.lexes_number (List.cons_ne_nil b more) (List.forall_mem_cons.2 ⟨hfirst, hmore⟩) rest hrest
  have hbegins : Json.beginsNumber (b :: more) = true := hb
  rw [hbegins, if_pos rfl] at hlex
  exact Json.readFrom_of_lex hlex s

/-- A constant is handed over to the state that waits for a value. -/
theorem readFrom_word (w : Word) (s : Json.State) {rest : Text} (hrest : Json.EndsNumber rest) :
    readFrom s (w.spelling ++ rest)
      = (Json.step? s (.scalar (wordJson w))).bind fun s' => readFrom s' rest := by
  cases w with
  | null => exact Json.readFrom_of_lex (Json.lexes_compact .null trivial rest hrest) s
  | true => exact Json.readFrom_of_lex (Json.lexes_compact (.bool true) trivial rest hrest) s
  | false => exact Json.readFrom_of_lex (Json.lexes_compact (.bool false) trivial rest hrest) s

/-- An array with some elements read, `first` if there are none. -/
def arrayState (first : Bool) (before : List Json) (outer : List Json.Open) : Json.State :=
  .within (if first then .item before true else .element before) outer

/-- An object with some members read, `first` if there are none. -/
def objectState (first : Bool) (before : List (Text × Json)) (outer : List Json.Open) : Json.State :=
  .within (if first then .key before true else .member before) outer

/-- The gap in front of an element leads to the place for it. -/
theorem readFrom_itemGap {gap : Text} {first : Bool} (h : signs gap = separator first)
    (before : List Json) (outer : List Json.Open) (rest : Text) :
    readFrom (arrayState first before outer) (gap ++ rest)
      = readFrom (.within (.item before first) outer) rest := by
  cases first with
  | true => exact readFrom_blank h _ rest
  | false => exact readFrom_sign h (fun _ => rfl) _ rest

/-- The gap in front of a member leads to the place for its key. -/
theorem readFrom_memberGap {gap : Text} {first : Bool} (h : signs gap = separator first)
    (before : List (Text × Json)) (outer : List Json.Open) (rest : Text) :
    readFrom (objectState first before outer) (gap ++ rest)
      = readFrom (.within (.key before first) outer) rest := by
  cases first with
  | true => exact readFrom_blank h _ rest
  | false => exact readFrom_sign h (fun _ => rfl) _ rest

mutual

/-- **A value is read and goes where the reader waits for it.** This and the statements for elements and
members are one induction over the tree; a collection is opened on top of what waits for it. -/
theorem Tree.readFrom_text (x : Tree) (hx : x.Proper) {s : Json.State} {stack : List Json.Open}
    (hs : Json.Awaits s stack) (rest : Text) (hrest : Json.EndsNumber rest) :
    readFrom s (x.text ++ rest) = (Json.deliver? x.json stack).bind fun s' => readFrom s' rest := by
  match x, hx with
  | .word w, _ =>
    rw [Tree.text, readFrom_word w s hrest, hs _ (by simp)]
    rfl
  | .number digits, hx =>
    rw [Tree.text, readFrom_number (IsNumber.loose hx) s hrest, hs _ (by simp)]
    rfl
  | .string parts, hx =>
    rw [Tree.text, readFrom_string hx, hs _ (by simp)]
    rfl
  | .array items, hx =>
    have hopen : readFrom s (byte '[' :: ([] ++ (items.text ++ rest)))
        = (Json.step? s .openArray).bind fun s' => readFrom s' (items.text ++ rest) :=
      Json.readFrom_token (by decide) rfl s
    rw [hs _ (by simp)] at hopen
    exact hopen.trans (items.readFrom_text hx [] stack rest)
  | .object members, hx =>
    have hopen : readFrom s (byte '\x7b' :: ([] ++ (members.text ++ rest)))
        = (Json.step? s .openObject).bind fun s' => readFrom s' (members.text ++ rest) :=
      Json.readFrom_token (by decide) rfl s
    rw [hs _ (by simp)] at hopen
    exact hopen.trans (members.readFrom_text hx [] stack rest)

/-- Elements are read up to the end of their array, behind those that were read before. -/
theorem Items.readFrom_text (items : Items) {first : Bool} (h : items.Proper first) (before : List Json)
    (outer : List Json.Open) (rest : Text) :
    readFrom (arrayState first before outer) (items.text ++ rest)
      = (Json.deliver? (.array (before.reverse ++ items.json)) outer).bind fun s' => readFrom s' rest := by
  match items, h with
  | .close gap bracket, h =>
    obtain ⟨hgap, rfl⟩ := h
    have hclose : readFrom (arrayState first before outer) (byte ']' :: ([] ++ rest))
        = (Json.step? (arrayState first before outer) .closeArray).bind fun s' => readFrom s' rest :=
      Json.readFrom_token (by decide) rfl _
    rw [Items.text, List.append_assoc, readFrom_blank hgap, Items.json, List.append_nil]
    refine hclose.trans ?_
    cases first <;> rfl
  | .item gap x items, h =>
    obtain ⟨hgap, hx, hitems⟩ := h
    -- a number in this place ends where the gap behind it begins
    have hends := endsNumber_append items.text_ne_nil hitems.endsNumber rest
    have htail := items.readFrom_text hitems (x.json :: before) outer rest
    rw [List.reverse_cons, List.append_assoc] at htail
    rw [Items.text, List.append_assoc, List.append_assoc, readFrom_itemGap hgap,
      x.readFrom_text hx (Json.awaits_item before first outer) _ hends]
    exact htail

/-- Members are read up to the end of their object, behind those that were read before. -/
theorem Members.readFrom_text (members : Members) {first : Bool} (h : members.Proper first)
    (before : List (Text × Json)) (outer : List Json.Open) (rest : Text) :
    readFrom (objectState first before outer) (members.text ++ rest)
      = (Json.deliver? (.object (before.reverse ++ members.json)) outer).bind fun s' => readFrom s' rest := by
  match members, h with
  | .close gap bracket, h =>
    obtain ⟨hgap, rfl⟩ := h
    have hclose : readFrom (objectState first before outer) (byte '\x7d' :: ([] ++ rest))
        = (Json.step? (objectState first before outer) .closeObject).bind fun s' => readFrom s' rest :=
      Json.readFrom_token (by decide) rfl _
    rw [Members.text, List.append_assoc, readFrom_blank hgap, Members.json, List.append_nil]
    refine hclose.trans ?_
    cases first <;> rfl
  | .member gap key colon x members, h =>
    obtain ⟨hgap, hkey, hcolon, hx, hmembers⟩ := h
    have hends := hmembers.loose.endsNumber rest
    have htail := members.readFrom_text hmembers ((content key, x.json) :: before) outer rest
    rw [List.reverse_cons, List.append_assoc] at htail
    rw [Members.text, List.append_assoc, List.append_assoc, List.append_assoc, List.append_assoc,
      readFrom_memberGap hgap, readFrom_string hkey]
    -- behind the name the object waits for the colon, and then for the value
    show readFrom (.within (.colon before (content key)) outer) _ = _
    rw [readFrom_sign hcolon fun _ => rfl]
    show readFrom (.within (.value before (content key)) outer) _ = _
    rw [x.readFrom_text hx (Json.awaits_value before (content key) outer) _ hends]
    exact htail

end

end Grammar

/-- **Every object of the grammar is read as the object that it says**, with any white space in it and
around it, and with its members in their order. -/
theorem Json.parse_of_objectText {t : Text} {members : List (Text × Json)}
    (h : Grammar.ObjectText t members) : parse t = .ok (.object members) := by
  obtain ⟨before, x, after, hbefore, hx, hafter, rfl, rfl⟩ := h
  have hends : EndsNumber after := by
    have hgap := Grammar.endsNumber_gap (Grammar.looseGap_of_blank hafter)
      (by simp [EndsNumber] : EndsNumber [])
    rwa [List.append_nil] at hgap
  -- white space behind the object changes nothing
  have hafter' : readFrom (.finished (.object x.json)) after = some (.finished (.object x.json)) := by
    have hblank := Grammar.readFrom_blank hafter (.finished (.object x.json)) []
    rwa [List.append_nil] at hblank
  have hread : readFrom .start (before ++ ((Grammar.Tree.object x).text ++ after))
      = some (.finished (.object x.json)) := by
    rw [Grammar.readFrom_blank hbefore,
      Grammar.Tree.readFrom_text (.object x) hx awaits_start after hends]
    exact hafter'
  unfold readFrom lex at hread
  unfold parse
  rw [hread]

end DocFilter
