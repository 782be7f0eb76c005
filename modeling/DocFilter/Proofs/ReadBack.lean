import DocFilter.Proofs.GrammarReading
import DocFilter.Proofs.Truth

/-!
From what was read back to the text that it was read from. Main result (`readBraced_iff`): a text with
braces is read just if it is the text of a loose object with a trail behind it, and what is read is the
document that the object stands for.

The reader is followed back from its end. A string that was scanned is made of parts (`exists_parts`), a
lexeme stands in the text as it is spelt, or nothing is read behind it (`lexeme_cases`), and inside a
collection there always is a next one (`exists_lexeme`). So collections are traced back to their texts
(`traces`), by induction on the length of what is left.
-/

set_option autoImplicit false

namespace DocFilter.Grammar

open Text (byte)
open Lexeme (lexFrom scanString)

/-! ## Strings -/

/-- A string whose front was put before the rest has a rest that was scanned. -/
theorem exists_ok_of_extend {front : Text} {x : Except LexFault (Text × Nat)} {r : Text × Nat}
    (h : Lexeme.extend front x = .ok r) : ∃ r', x = .ok r' := by
  cases x with
  | error f => cases h
  | ok r' => exact ⟨r', rfl⟩

theorem scanString_drop {m : Nat} {t : Text} {r : Text × Nat} (h : scanString m t = .ok r) :
    ∃ r', scanString 0 (t.drop m) = .ok r' := by
  induction t generalizing m r with
  | nil => cases m <;> simp [scanString] at h
  | cons b t ih =>
    cases m with
    | zero => exact ⟨r, h⟩
    | succ m =>
      rw [scanString] at h
      obtain ⟨r', hr'⟩ := exists_ok_of_extend h
      exact ih hr'

/-- A second half that is found is an escape by number, with four digits behind a backslash and a `u`, and
there is something behind it. -/
theorem exists_code_of_lowHalf? {t : Text} {n : Nat} (h : Lexeme.lowHalf? t = some n) :
    ∃ l₁ l₂ l₃ l₄ more, t = (Part.code l₁ l₂ l₃ l₄).text ++ more := by
  unfold Lexeme.lowHalf? at h
  split at h
  · next s u l₁ l₂ l₃ l₄ b rest =>
    dsimp only at h
    split at h
    · next hcode =>
      simp only [Bool.and_eq_true, beq_iff_eq] at hcode
      obtain ⟨⟨rfl, rfl⟩, -⟩ := hcode
      exact ⟨l₁, l₂, l₃, l₄, b :: rest, rfl⟩
    · cases h
  · cases h

/-- An escape by number that is read is one part, or two parts that are the halves of a pair. -/
theorem exists_parts_of_code {rest y : Text} {m : Nat}
    (h : Lexeme.escape (byte 'u' :: rest) = .ok (y, m)) :
    ∃ parts, (∀ p ∈ parts, Part.Loose p) ∧
      byte '\\' :: byte 'u' :: rest = inner parts ++ (byte 'u' :: rest).drop m := by
  -- with fewer than five bytes behind the letter there is no escape
  rcases rest with _ | ⟨h₁, _ | ⟨h₂, _ | ⟨h₃, _ | ⟨h₄, _ | ⟨b, more⟩⟩⟩⟩⟩
  · simp [Lexeme.escape] at h
  · simp [Lexeme.escape] at h
  · simp [Lexeme.escape] at h
  · simp [Lexeme.escape] at h
  · simp [Lexeme.escape] at h
  rw [Lexeme.escape, if_pos (by decide)] at h
  dsimp only at h
  split at h
  · next low _ hlow =>
    obtain ⟨-, rfl⟩ := Prod.mk.inj (Except.ok.inj h)
    obtain ⟨l₁, l₂, l₃, l₄, after, hafter⟩ := exists_code_of_lowHalf? hlow
    refine ⟨[.code h₁ h₂ h₃ h₄, .code l₁ l₂ l₃ l₄], by simp [Part.Loose], ?_⟩
    rw [hafter]
    rfl
  · obtain ⟨-, rfl⟩ := Prod.mk.inj (Except.ok.inj h)
    exact ⟨[.code h₁ h₂ h₃ h₄], by simp [Part.Loose], rfl⟩

/-- An escape that is read is made of parts: of a short one, or of one or two by number. The bytes that were
taken are the texts of these parts. -/
theorem exists_parts_of_escape {t y : Text} {m : Nat} (h : Lexeme.escape t = .ok (y, m)) :
    ∃ parts, (∀ p ∈ parts, Part.Loose p) ∧ byte '\\' :: t = inner parts ++ t.drop m := by
  cases t with
  | nil => simp [Lexeme.escape] at h
  | cons letter rest =>
    by_cases hletter : letter = byte 'u'
    · subst hletter
      exact exists_parts_of_code h
    · unfold Lexeme.escape at h
      dsimp only at h
      rw [if_neg (by simpa using hletter), simpleEscape?_eq_lookup] at h
      cases hlookup : escapes.lookup letter with
      | none =>
        rw [hlookup] at h
        cases h
      | some b =>
        rw [hlookup] at h
        obtain ⟨-, rfl⟩ := Prod.mk.inj (Except.ok.inj h)
        refine ⟨[.short letter], ?_, rfl⟩
        intro p hp
        obtain rfl := List.mem_singleton.1 hp
        show (escapes.lookup letter).isSome = true
        rw [hlookup]
        rfl

/-- **A string that is read is made of parts**, up to its closing quotation mark. The induction is on the
length, since an escape takes several bytes at once. -/
theorem exists_parts {t : Text} {r : Text × Nat} (h : scanString 0 t = .ok r) :
    ∃ parts rest, (∀ p ∈ parts, Part.Loose p) ∧ t = inner parts ++ byte '"' :: rest := by
  induction hn : t.length using Nat.strongRecOn generalizing t r with
  | ind n ih =>
    subst hn
    cases t with
    | nil => simp [scanString] at h
    | cons b t =>
      rw [scanString] at h
      by_cases hquote : b = byte '"'
      · subst hquote
        exact ⟨[], t, fun p hp => absurd hp List.not_mem_nil, rfl⟩
      rw [if_neg (by simpa using hquote)] at h
      by_cases hzero : b = 0
      · rw [if_pos (by simpa using hzero)] at h
        cases h
      rw [if_neg (by simpa using hzero)] at h
      by_cases hslash : b = byte '\\'
      · subst hslash
        rw [if_pos (by simp)] at h
        cases hescape : Lexeme.escape t with
        | error f =>
          rw [hescape] at h
          cases h
        | ok e =>
          obtain ⟨y, m⟩ := e
          rw [hescape] at h
          obtain ⟨r', hr'⟩ := exists_ok_of_extend h
          obtain ⟨r'', hr''⟩ := scanString_drop hr'
          obtain ⟨parts, hparts, hfront⟩ := exists_parts_of_escape hescape
          -- the scanner goes on behind the escape
          have hshorter : (t.drop m).length < (byte '\\' :: t).length := by
            rw [List.length_drop, List.length_cons]
            omega
          obtain ⟨more, rest, hmore, hback⟩ := ih _ hshorter hr'' rfl
          refine ⟨parts ++ more, rest, ?_, ?_⟩
          · intro p hp
            exact (List.mem_append.1 hp).elim (hparts p) (hmore p)
          · rw [hfront, hback, ← List.append_assoc]
            exact congrArg (· ++ _) List.flatMap_append.symm
      · rw [if_neg (by simpa using hslash)] at h
        obtain ⟨r', hr'⟩ := exists_ok_of_extend h
        obtain ⟨more, rest, hmore, hback⟩ := ih t.length (by simp) hr' rfl
        refine ⟨.plain b :: more, rest, List.forall_mem_cons.2 ⟨⟨hquote, hzero, hslash⟩, hmore⟩, ?_⟩
        rw [hback]
        rfl

/-! ## Lexemes -/

/-- Whether a byte stands in gaps. -/
def isGapByte (b : UInt8) : Bool := Json.isSpace b || b == byte ',' || b == byte ':'

/-- A loose gap consists of gap bytes: blanks, commas and colons, in any number and order. -/
theorem looseGap_iff {gap : Text} : LooseGap gap ↔ ∀ b ∈ gap, isGapByte b = true := by
  constructor
  · intro h b hb
    by_cases hspace : Json.isSpace b = true
    · simp [isGapByte, hspace]
    · have hsign : b ∈ signs gap := List.mem_filter.2 ⟨hb, by simpa using hspace⟩
      rcases h b hsign with rfl | rfl <;> rfl
  · intro h b hb
    obtain ⟨hmem, hspace⟩ := List.mem_filter.1 hb
    have hbyte := h b hmem
    simp only [Bool.not_eq_true'] at hspace
    simpa [isGapByte, hspace] using hbyte

/-- A text that does not begin with a byte of a gap. -/
def Ungapped (t : Text) : Prop := ∀ b ∈ t.head?, isGapByte b = false

/-- Every text begins with a gap, which may be empty. -/
theorem exists_gap (t : Text) : ∃ gap more, LooseGap gap ∧ Ungapped more ∧ t = gap ++ more := by
  refine ⟨t.takeWhile isGapByte, t.dropWhile isGapByte, ?_, ?_, List.takeWhile_append_dropWhile.symm⟩
  · exact looseGap_iff.2 fun b hb => List.all_eq_true.1 List.all_takeWhile b hb
  · intro b hb
    have hhead := List.head?_dropWhile_not isGapByte t
    rw [hb] at hhead
    simpa using hhead

/-- Whether a text holds nothing more for the reader: it is empty or begins with the byte that ends the
input. -/
def Ended (t : Text) : Prop := ∀ b ∈ t.head?, b = 0

theorem lexFrom_ended {t : Text} (h : Ended t) (separated : Bool) : lexFrom 0 separated t = [] := by
  cases t with
  | nil => rfl
  | cons b t =>
    obtain rfl : b = 0 := h b rfl
    rfl

/-- A lexeme behind which nothing is read: a fault, or a constant at which the input ends. -/
def Breaks : Lexeme → Prop
  | .fault _ => True
  | .word _ => True
  | _ => False

/-- A constant without a fault is written in full, or the input ends one byte before it does. -/
theorem scanWord_cases {w : Word} {expected t : Text} (h : Lexeme.scanWord w expected t = none) :
    (∃ more, t = expected ++ more) ∨ t.length < expected.length := by
  fun_induction Lexeme.scanWord w expected t with
  | case1 t => exact .inl ⟨t, rfl⟩
  | case2 b => exact .inr (by simp)
  | case3 => cases h
  | case4 e es b rest heq ih =>
    obtain rfl := beq_iff_eq.1 heq
    rcases ih h with ⟨more, rfl⟩ | hlt
    · exact .inl ⟨more, rfl⟩
    · exact .inr (by simpa using hlt)
  | case5 => cases h

/-- A byte that announces a word is the first one of the word. -/
theorem spelling_of_wordOf? (w : Word) (b : UInt8) :
    Lexeme.wordOf? b = some w → w.spelling = b :: w.spelling.drop 1 := by
  revert b
  cases w <;> exact Text.forall_byte (by decide +kernel)

/-- A byte that begins nothing else begins a constant that is written in full, or nothing is read behind
it. -/
theorem word_cases {b : UInt8} (hgap : isGapByte b = false)
    (hsign : b ∉ [byte '\x7b', byte '\x7d', byte '[', byte ']'])
    (hnumber : (Text.isDigit b || b == byte '-') = false) (hquote : b ≠ byte '"') (hzero : b ≠ 0)
    (rest : Text) :
    (∃ w more, b :: rest = Word.spelling w ++ more) ∨
      ∀ separated, ∃ l, lexFrom 0 separated (b :: rest) = [⟨separated, l⟩] ∧ Breaks l := by
  obtain ⟨hspace, hseparator⟩ : Json.isSpace b = false ∧ (b == byte ',' || b == byte ':') = false := by
    simpa [isGapByte, and_assoc] using hgap
  unfold Json.isSpace at hspace
  simp only [List.mem_cons, List.not_mem_nil, or_false, not_or] at hsign
  obtain ⟨h₁, h₂, h₃, h₄⟩ := hsign
  by_cases hfull : ∃ w more, b :: rest = Word.spelling w ++ more
  · exact .inl hfull
  right
  intro separated
  -- the lexer has tried everything else before it looks for a word
  rw [lexFrom, hspace, hseparator, if_neg (by simp), if_neg (by simp), if_neg (by simpa using hzero),
    if_neg (by simpa using h₁), if_neg (by simpa using h₂), if_neg (by simpa using h₃),
    if_neg (by simpa using h₄), hnumber, if_neg (by simp), if_neg (by simpa using hquote)]
  cases hw : Lexeme.wordOf? b with
  | none => exact ⟨.fault (.strayByte b), rfl, trivial⟩
  | some w =>
    dsimp only
    have hspelling := spelling_of_wordOf? w b hw
    cases hscan : Lexeme.scanWord w (w.spelling.drop 1) rest with
    | some f => exact ⟨.fault f, rfl, trivial⟩
    | none =>
      rcases scanWord_cases hscan with ⟨more, hmore⟩ | hshort
      · refine absurd ⟨w, more, ?_⟩ hfull
        rw [hspelling, hmore]
        rfl
      -- the text ends within the word, which is taken for the word, with nothing behind it
      · refine ⟨.word w, ?_, trivial⟩
        rw [List.length_drop] at hshort
        dsimp only
        rw [Lexeme.lexFrom_drop, List.drop_eq_nil_of_le (by omega)]
        rfl

/-- **The first lexeme of a text** that does not begin with a gap: none, or one that is read off its
text, or one behind which nothing is read. -/
theorem lexeme_cases {t : Text} (ht : Ungapped t) :
    Ended t ∨
      (∃ w l rest, Spells w l ∧ t = w ++ rest ∧ (isNumberLexeme l = true → Json.EndsNumber rest)) ∨
      ∀ separated, ∃ l, lexFrom 0 separated t = [⟨separated, l⟩] ∧ Breaks l := by
  cases t with
  | nil => exact .inl fun b hb => by cases hb
  | cons b rest =>
    have hgap : isGapByte b = false := ht b rfl
    by_cases hsign : b ∈ [byte '\x7b', byte '\x7d', byte '[', byte ']']
    · simp only [List.mem_cons, List.not_mem_nil, or_false] at hsign
      right
      left
      rcases hsign with rfl | rfl | rfl | rfl
      · exact ⟨_, _, rest, .openObject, rfl, by simp [isNumberLexeme]⟩
      · exact ⟨_, _, rest, .closeObject, rfl, by simp [isNumberLexeme]⟩
      · exact ⟨_, _, rest, .openArray, rfl, by simp [isNumberLexeme]⟩
      · exact ⟨_, _, rest, .closeArray, rfl, by simp [isNumberLexeme]⟩
    by_cases hnumber : (Text.isDigit b || b == byte '-') = true
    · have hends : Json.EndsNumber (rest.dropWhile Lexeme.continuesNumber) := by
        intro c hc
        have hhead := List.head?_dropWhile_not Lexeme.continuesNumber rest
        rw [hc] at hhead
        simpa using hhead
      refine .inr (.inl ⟨b :: rest.takeWhile Lexeme.continuesNumber, _,
        rest.dropWhile Lexeme.continuesNumber, .number ⟨b, _, rfl, hnumber, ?_⟩, ?_, fun _ => hends⟩)
      · exact fun c hc => List.all_eq_true.1 List.all_takeWhile c hc
      · rw [List.cons_append, List.takeWhile_append_dropWhile]
    by_cases hquote : b = byte '"'
    · subst hquote
      cases hscan : scanString 0 rest with
      | ok r =>
        obtain ⟨parts, more, hparts, rfl⟩ := exists_parts hscan
        refine .inr (.inl ⟨quoted parts, _, more, .string hparts, by simp [quoted], ?_⟩)
        simp [isNumberLexeme]
      | error f =>
        refine .inr (.inr fun separated => ⟨.fault f, ?_, trivial⟩)
        rw [lexFrom]
        -- a quote is none of the bytes that are looked for before it
        iterate 8 rw [if_neg (by decide)]
        rw [if_pos (by decide), hscan]
    by_cases hzero : b = 0
    · refine .inl fun c hc => ?_
      obtain rfl : b = c := by simpa using hc
      exact hzero
    right
    rcases word_cases hgap hsign (by simpa using hnumber) hquote hzero rest with ⟨w, more, hfull⟩ | hbreaks
    · exact .inl ⟨_, _, more, .word w, hfull, by simp [isNumberLexeme]⟩
    · exact .inr hbreaks

/-! ## Reading back -/

/-- What the reader does not get to the end of: a fault or a word at the end of the text, where the
collection around it is not closed any more. -/
theorem run_breaks {l : Lexeme} (hl : Breaks l) (separated : Bool) (f : Reader.Frame)
    (outer : List Reader.Frame) (v : Value) :
    Reader.run (.within f outer) [⟨separated, l⟩] ≠ .ok (.finished v) := by
  cases l with
  | fault e =>
    cases f <;> simp [Reader.run, Reader.step, Reader.beginValue, Reader.endsCollection, bind, Except.bind]
  | word w =>
    cases f <;> simp [Reader.run, Reader.step, Reader.beginValue, Reader.endsCollection, Reader.deliver,
      bind, Except.bind]
  | _ => exact False.elim hl

theorem run_nil_within (f : Reader.Frame) (outer : List Reader.Frame) (v : Value) :
    Reader.run (.within f outer) [] ≠ .ok (.finished v) := by
  intro h
  cases h

/-- A run over lexemes takes a step with the first one, and runs over the others. -/
theorem exists_step_of_run {s s' : Reader.State} {p : Placed} {ps : List Placed}
    (h : Reader.run s (p :: ps) = .ok s') :
    ∃ s'', Reader.step s p = .ok s'' ∧ Reader.run s'' ps = .ok s' :=
  bind_eq_ok h

theorem Spells.length_pos {w : Text} {l : Lexeme} (h : Spells w l) : 0 < w.length := by
  cases h with
  | openObject | closeObject | openArray | closeArray => exact Nat.one_pos
  | number hdigits =>
    obtain ⟨b, more, rfl, -⟩ := hdigits
    simp
  | string => simp [quoted]
  | word w => cases w <;> decide

/-- **Inside a collection there is a next lexeme**, if the reader gets to the end. It stands behind a gap,
is written in full, and the reader takes a step with it. -/
theorem exists_lexeme {separated : Bool} {t : Text} {f : Reader.Frame} {outer : List Reader.Frame}
    {v : Value} (h : Reader.run (.within f outer) (lexFrom 0 separated t) = .ok (.finished v)) :
    ∃ gap w l rest s, LooseGap gap ∧ Spells w l ∧ (isNumberLexeme l = true → Json.EndsNumber rest) ∧
      t = gap ++ (w ++ rest) ∧
      Reader.step (.within f outer) ⟨separated || !(signs gap).isEmpty, l⟩ = .ok s ∧
      Reader.run s (lexFrom 0 false rest) = .ok (.finished v) := by
  obtain ⟨gap, more, hgap, hmore, rfl⟩ := exists_gap t
  rw [lexFrom_gap hgap] at h
  -- the text may have ended, or go on with a lexeme, or with something that breaks the reader off
  rcases lexeme_cases hmore with hended | ⟨w, l, rest, hw, rfl, hrest⟩ | hbreaks
  · rw [lexFrom_ended hended] at h
    exact absurd h (run_nil_within f outer v)
  · rw [hw.lexFrom_append hrest] at h
    obtain ⟨s, hstep, hrun⟩ := exists_step_of_run h
    exact ⟨gap, w, l, rest, s, hgap, hw, hrest, rfl, hstep, hrun⟩
  · obtain ⟨l, hlex, hl⟩ := hbreaks (separated || !(signs gap).isEmpty)
    rw [hlex] at h
    exact absurd h (run_breaks hl _ f outer v)

/-- Elements can be traced back to a text, if the reader gets from there to the end. -/
def TracesItems (t : Text) : Prop :=
  ∀ before outer v, Reader.run (.within (.array before) outer) (lexFrom 0 false t) = .ok (.finished v) →
    ∃ items rest, Items.Loose items ∧ t = items.text ++ rest

/-- Members can be traced back to a text, if the reader gets from there to the end. -/
def TracesMembers (t : Text) : Prop :=
  ∀ before outer v, Reader.run (.within (.object before) outer) (lexFrom 0 false t) = .ok (.finished v) →
    ∃ members rest, Members.Loose members ∧ t = members.text ++ rest

/-- A value is traced back to its text, if the collections in shorter texts are. Its first lexeme decides: a
scalar is that lexeme, and a collection goes on up to its end. -/
theorem exists_tree {w : Text} {l : Lexeme} (hw : Spells w l) {rest : Text}
    (hrest : isNumberLexeme l = true → Json.EndsNumber rest) (hitems : TracesItems rest)
    (hmembers : TracesMembers rest) {stack : List Reader.Frame} {s : Reader.State} {v : Value}
    (hl : Reader.beginValue stack l = .ok s)
    (hrun : Reader.run s (lexFrom 0 false rest) = .ok (.finished v)) :
    ∃ x rest', Tree.Loose x ∧ (x.isNumber = true → Json.EndsNumber rest') ∧ w ++ rest = x.text ++ rest' := by
  cases hw with
  | openObject =>
    obtain rfl := Except.ok.inj hl
    obtain ⟨members, rest', hloose, rfl⟩ := hmembers _ _ _ hrun
    exact ⟨.object members, rest', hloose, by simp [Tree.isNumber], rfl⟩
  | openArray =>
    obtain rfl := Except.ok.inj hl
    obtain ⟨items, rest', hloose, rfl⟩ := hitems _ _ _ hrun
    exact ⟨.array items, rest', hloose, by simp [Tree.isNumber], rfl⟩
  | closeObject | closeArray => cases hl
  | number hdigits => exact ⟨.number w, rest, hdigits, fun _ => hrest rfl, rfl⟩
  | @string parts hparts => exact ⟨.string parts, rest, hparts, by simp [Tree.isNumber], rfl⟩
  | word w => exact ⟨.word w, rest, trivial, by simp [Tree.isNumber], rfl⟩

/-- A bracket that ends a collection, and the gap in front of it. -/
theorem close_of_endsCollection {gap w : Text} {l : Lexeme} (hw : Spells w l)
    (h : Reader.endsCollection ⟨false || !(signs gap).isEmpty, l⟩ = true) :
    ∃ bracket, signs gap = [] ∧ IsClosing bracket ∧ w = [bracket] := by
  simp only [Reader.endsCollection, Bool.false_or, Bool.not_not, Bool.and_eq_true, Bool.or_eq_true,
    beq_iff_eq, List.isEmpty_iff] at h
  obtain ⟨hgap, rfl | rfl⟩ := h
  · cases hw
    exact ⟨_, hgap, .inl rfl, rfl⟩
  · cases hw
    exact ⟨_, hgap, .inr rfl, rfl⟩

/-- Whether a number ends before a text depends on the first byte of the text. -/
theorem endsNumber_of_append {t rest : Text} (ht : t ≠ []) (h : Json.EndsNumber (t ++ rest)) :
    Json.EndsNumber t := by
  intro b hb
  apply h b
  rw [List.head?_append_of_ne_nil t ht]
  exact hb

/-- A value begins with a byte that stands in no gap, so the gap before it ends where the value begins. In
particular its text is not empty. -/
theorem Tree.Loose.ungapped {x : Tree} (hx : x.Loose) (rest : Text) :
    x.text ≠ [] ∧ Ungapped (x.text ++ rest) := by
  have hcons : ∀ {b : UInt8} {more : Text}, isGapByte b = false →
      b :: more ≠ [] ∧ Ungapped (b :: more ++ rest) := by
    intro b more hb
    refine ⟨List.cons_ne_nil b more, fun c hc => ?_⟩
    obtain rfl : b = c := by simpa using hc
    exact hb
  cases x with
  | word w => cases w <;> exact hcons (by decide)
  | number digits =>
    obtain ⟨b, more, rfl, hb, -⟩ := hx
    obtain ⟨hspace, hseparator, -⟩ := Lexeme.digit_byte b hb
    refine hcons ?_
    simp only [isGapByte, hspace, Bool.false_or, hseparator]
  | string parts => exact hcons (by decide)
  | array items => exact hcons (by decide)
  | object members => exact hcons (by decide)

/-- One element or the end of an array. The next lexeme ends the array or begins an element; behind the
element stands the rest of the array, and this is shorter. -/
theorem tracesItems_step {t : Text} (hitems : ∀ r : Text, r.length < t.length → TracesItems r)
    (hmembers : ∀ r : Text, r.length < t.length → TracesMembers r) : TracesItems t := by
  intro before outer v h
  obtain ⟨gap, w, l, rest, s, hgap, hw, hrest, rfl, hstep, hrun⟩ := exists_lexeme h
  have hpos := hw.length_pos
  by_cases hends : Reader.endsCollection ⟨false || !(signs gap).isEmpty, l⟩ = true
  -- a closing bracket, of either kind
  · obtain ⟨bracket, hblank, hbracket, rfl⟩ := close_of_endsCollection hw hends
    exact ⟨.close gap bracket, rest, ⟨hblank, hbracket⟩, by simp [Items.text]⟩
  · rw [Bool.not_eq_true] at hends
    rw [awaits_array before outer _ hends] at hstep
    have hshorter : rest.length < (gap ++ (w ++ rest)).length := by simp; omega
    obtain ⟨x, rest', hx, hnumber, htext⟩ :=
      exists_tree hw hrest (hitems rest hshorter) (hmembers rest hshorter) hstep hrun
    -- the element is read again, now as a tree, to see where the reader stands behind it
    rw [htext] at h hshorter hitems ⊢
    rw [lexFrom_gap hgap, x.run_text hx (awaits_array before outer) _ _ hnumber] at h
    have hlength := List.length_pos_of_ne_nil (hx.ungapped []).1
    obtain ⟨items, rest'', hloose, rfl⟩ := hitems rest' (by simp; omega) _ _ _ h
    refine ⟨.item gap x items, rest'', ⟨hgap, hx, hloose, fun hn => ?_⟩, by simp [Items.text]⟩
    exact endsNumber_of_append items.text_ne_nil (hnumber hn)

/-- One member or the end of an object. A member begins with a name, which is a string, and has a value
behind it; what follows the value is shorter. -/
theorem tracesMembers_step {t : Text} (hitems : ∀ r : Text, r.length < t.length → TracesItems r)
    (hmembers : ∀ r : Text, r.length < t.length → TracesMembers r) : TracesMembers t := by
  intro before outer v h
  obtain ⟨gap, w, l, rest, s, hgap, hw, hrest, rfl, hstep, hrun⟩ := exists_lexeme h
  by_cases hends : Reader.endsCollection ⟨false || !(signs gap).isEmpty, l⟩ = true
  · obtain ⟨bracket, hblank, hbracket, rfl⟩ := close_of_endsCollection hw hends
    exact ⟨.close gap bracket, rest, ⟨hblank, hbracket⟩, by simp [Members.text]⟩
  · rw [Reader.step, if_neg hends] at hstep
    -- only a string is a key
    cases hw with
    | @string key hkey =>
      obtain rfl := Except.ok.inj hstep
      obtain ⟨colon, w, l, rest, s, hcolon, hw, hends', rfl, hstep, hrun'⟩ := exists_lexeme hrun
      have hpos := hw.length_pos
      have hshorter : rest.length < (gap ++ (quoted key ++ (colon ++ (w ++ rest)))).length := by
        simp
        omega
      obtain ⟨x, rest', hx, hnumber, htext⟩ :=
        exists_tree hw hends' (hitems rest hshorter) (hmembers rest hshorter) hstep hrun'
      rw [htext] at hrun hmembers ⊢
      rw [lexFrom_gap hcolon, x.run_text hx (awaits_member before _ outer) _ _ hnumber] at hrun
      have hlength := List.length_pos_of_ne_nil (hx.ungapped []).1
      obtain ⟨members, rest'', hloose, rfl⟩ := hmembers rest' (by simp; omega) _ _ _ hrun
      exact ⟨.member gap key colon x members, rest'', ⟨hgap, hkey, hcolon, hx, hloose⟩,
        by simp [Members.text]⟩
    | openObject | closeObject | openArray | closeArray | number | word => cases hstep

/-- **Collections are traced back to their texts.** The induction is on the length of what is left. -/
theorem traces (t : Text) : TracesItems t ∧ TracesMembers t := by
  induction hn : t.length using Nat.strongRecOn generalizing t with
  | ind n ih =>
    subst hn
    have hitems : ∀ r : Text, r.length < t.length → TracesItems r := fun r hr => (ih _ hr r rfl).1
    have hmembers : ∀ r : Text, r.length < t.length → TracesMembers r := fun r hr => (ih _ hr r rfl).2
    exact ⟨tracesItems_step hitems hmembers, tracesMembers_step hitems hmembers⟩

/-! ## What is accepted -/

/-- What may stand behind a document: separators, and anything behind the byte that ends the input. -/
def IsTrail (trail : Text) : Prop :=
  ∃ gap more, LooseGap gap ∧ Ended more ∧ trail = gap ++ more

/-- A text without lexemes is a trail: a gap, and behind it perhaps the byte that ends the input and
anything after that. -/
theorem lexFrom_eq_nil_iff {t : Text} {separated : Bool} : lexFrom 0 separated t = [] ↔ IsTrail t := by
  constructor
  · intro h
    obtain ⟨gap, more, hgap, hmore, rfl⟩ := exists_gap t
    rw [lexFrom_gap hgap] at h
    rcases lexeme_cases hmore with hended | ⟨w, l, rest, hw, rfl, hrest⟩ | hbreaks
    · exact ⟨gap, more, hgap, hended, rfl⟩
    -- anything but the end would be a lexeme
    · rw [hw.lexFrom_append hrest] at h
      cases h
    · obtain ⟨l, hlex, -⟩ := hbreaks (separated || !(signs gap).isEmpty)
      rw [hlex] at h
      cases h
  · rintro ⟨gap, more, hgap, hended, rfl⟩
    rw [lexFrom_gap hgap, lexFrom_ended hended]

theorem run_finished {v v' : Value} {ps : List Placed}
    (h : Reader.run (.finished v) ps = .ok (.finished v')) : ps = [] ∧ v = v' := by
  cases ps with
  | nil => exact ⟨rfl, Reader.State.finished.inj (Except.ok.inj h)⟩
  | cons p ps => cases h

/-- The reader has got to the end of what it accepts: behind the opening brace its run finishes with the
value, and no lexeme is left over. -/
theorem run_of_readBraced {t : Text} {v : Value} (h : readBraced t = .ok v) :
    Reader.run .start (lexFrom 0 false t) = .ok (.finished v) := by
  obtain ⟨s, hrun, hend⟩ := bind_eq_ok h
  cases s with
  | finished v' =>
    obtain rfl := Except.ok.inj hend
    exact hrun
  | start => cases hend
  | within f outer => cases hend

/-- **A text with braces that is read is that of a loose object with a trail**, and the document that is
read has the members of the object as its fields. All such texts are read. -/
theorem readBraced_iff {rest : Text} {v : Value} :
    readBraced (byte '\x7b' :: rest) = .ok v ↔
      ∃ members trail, Members.Loose members ∧ IsTrail trail ∧
        byte '\x7b' :: rest = (Tree.object members).text ++ trail ∧
        v = .doc (Json.filterMembers members.json) := by
  constructor
  · intro h
    have hrun : Reader.run (.within (.object []) []) (lexFrom 0 false rest) = .ok (.finished v) :=
      run_of_readBraced h
    -- the text is traced back, and then read forward to see what the document is
    obtain ⟨members, trail, hloose, rfl⟩ := (traces rest).2 _ _ _ hrun
    rw [members.run_text hloose] at hrun
    obtain ⟨hlex, hv⟩ := run_finished hrun
    exact ⟨members, trail, hloose, lexFrom_eq_nil_iff.1 hlex, rfl, hv.symm⟩
  · rintro ⟨members, trail, hmembers, htrail, htext, rfl⟩
    rw [htext]
    exact readBraced_object hmembers trail (lexFrom_eq_nil_iff.2 htrail)

end DocFilter.Grammar
