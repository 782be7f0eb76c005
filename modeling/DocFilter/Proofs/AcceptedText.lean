import DocFilter.Proofs.ProperText
import DocFilter.Proofs.ReadBack

/-!
What the lenient reader accepts. A text with braces that is read is the text of a tree, and the tree
says in which ways the text departs from the grammar of interchange documents: brackets that do not
match, separators that are missing or too many, numbers and strings that are none, and what stands
behind the document. Main result (`Document.parse_accepts_iff`): a text that begins with a brace is read
just if it is the text of a loose object with a trail behind it, and what is read is an object of the
grammar just if this object is proper and there is no trail.

For the second half a tree has to be the only one with its text (`Tree.text_unique`). The first lexeme
tells two kinds of values apart, a gap ends where something else begins, and a string is cut into parts
in one way only.
-/

set_option autoImplicit false

namespace DocFilter.Grammar

open Text (byte)
open Lexeme (lexFrom)

/-! ## One tree for a text -/

/-- A gap ends where something else begins, so a text has one gap at its front. What stands behind the gap
has to begin with another byte, or the gap could be cut short. -/
theorem gap_unique {gap gap' t t' : Text} (hgap : LooseGap gap) (hgap' : LooseGap gap') (ht : Ungapped t)
    (ht' : Ungapped t') (h : gap ++ t = gap' ++ t') : gap = gap' ∧ t = t' := by
  have hfront : ∀ {gap t : Text}, LooseGap gap → Ungapped t → (gap ++ t).takeWhile isGapByte = gap := by
    intro gap t hgap ht
    rw [List.takeWhile_append_of_pos (looseGap_iff.1 hgap)]
    cases t with
    | nil => simp
    | cons b t =>
      have hb : isGapByte b = false := ht b rfl
      rw [List.takeWhile_cons_of_neg (by simpa using hb), List.append_nil]
  -- both gaps are the longest front of gap bytes of one text
  have hsame : gap = gap' := by
    rw [← hfront hgap ht, h, hfront hgap' ht']
  subst hsame
  exact ⟨rfl, List.append_cancel_left h⟩

/-- A part does not begin with the quote that ends a string. -/
theorem Part.Loose.ne_quote {p : Part} (hp : p.Loose) (t rest : Text) : p.text ++ t ≠ byte '"' :: rest := by
  intro h
  cases p with
  | plain b => exact hp.1 (List.cons.inj h).1
  | short letter => exact absurd (List.cons.inj h).1 (by decide)
  | code => exact absurd (List.cons.inj h).1 (by decide)

/-- The letter of a short escape is not the `u` of an escape with digits. -/
theorem lookup_ne_u {letter : UInt8} (h : (Part.short letter).Loose) : letter ≠ byte 'u' := by
  rintro rfl
  rw [Part.Loose, lookup_u] at h
  cases h

/-- A string has one part at its front. What stands behind a backslash tells the kinds of escapes apart, and
no other part begins with a backslash. -/
theorem part_unique {p p' : Part} (hp : p.Loose) (hp' : p'.Loose) {t t' : Text}
    (h : p.text ++ t = p'.text ++ t') : p = p' ∧ t = t' := by
  cases p with
  | plain b =>
    cases p' with
    | plain b' =>
      obtain ⟨rfl, rfl⟩ := List.cons.inj h
      exact ⟨rfl, rfl⟩
    -- an escape begins with the backslash that a plain byte is not
    | short | code => exact absurd (List.cons.inj h).1 hp.2.2
  | short letter =>
    cases p' with
    | plain b' => exact absurd (List.cons.inj h).1.symm hp'.2.2
    | short letter' =>
      obtain ⟨rfl, rfl⟩ := List.cons.inj (List.cons.inj h).2
      exact ⟨rfl, rfl⟩
    -- the letter behind the backslash decides, and `u` is none of the short ones
    | code => exact absurd (List.cons.inj (List.cons.inj h).2).1 (lookup_ne_u hp)
  | code h₁ h₂ h₃ h₄ =>
    cases p' with
    | plain b' => exact absurd (List.cons.inj h).1.symm hp'.2.2
    | short letter' => exact absurd (List.cons.inj (List.cons.inj h).2).1.symm (lookup_ne_u hp')
    | code l₁ l₂ l₃ l₄ =>
      simp only [Part.text, List.cons_append, List.nil_append, List.cons.injEq, true_and] at h
      obtain ⟨rfl, rfl, rfl, rfl, rfl⟩ := h
      exact ⟨rfl, rfl⟩

/-- The parts of a string are determined by the text up to its closing quotation mark. The induction is on
the one list of parts; a part never begins with the mark, so the other list ends where this one does. -/
theorem parts_unique {parts parts' : List Part} (hparts : ∀ p ∈ parts, p.Loose)
    (hparts' : ∀ p ∈ parts', p.Loose) {rest rest' : Text}
    (h : inner parts ++ byte '"' :: rest = inner parts' ++ byte '"' :: rest') :
    parts = parts' ∧ rest = rest' := by
  induction parts generalizing parts' with
  | nil =>
    cases parts' with
    | nil => exact ⟨rfl, (List.cons.inj h).2⟩
    | cons p' parts' =>
      rw [inner_cons, List.append_assoc] at h
      exact absurd h.symm ((hparts' p' List.mem_cons_self).ne_quote _ _)
  | cons p parts ih =>
    obtain ⟨hp, htail⟩ := List.forall_mem_cons.1 hparts
    rw [inner_cons, List.append_assoc] at h
    cases parts' with
    | nil => exact absurd h (hp.ne_quote _ _)
    | cons p' parts' =>
      obtain ⟨hp', htail'⟩ := List.forall_mem_cons.1 hparts'
      rw [inner_cons, List.append_assoc] at h
      obtain ⟨rfl, hrest⟩ := part_unique hp hp' h
      obtain ⟨rfl, rfl⟩ := ih htail htail' hrest
      exact ⟨rfl, rfl⟩

theorem quoted_unique {parts parts' : List Part} (hparts : ∀ p ∈ parts, p.Loose)
    (hparts' : ∀ p ∈ parts', p.Loose) {rest rest' : Text}
    (h : quoted parts ++ rest = quoted parts' ++ rest') : parts = parts' ∧ rest = rest' := by
  simp only [quoted, List.cons_append, List.append_assoc, List.nil_append, List.cons.injEq, true_and] at h
  exact parts_unique hparts hparts' h

/-- The first lexeme of a value. -/
def Tree.lexeme : Tree → Lexeme
  | .word w => .word w
  | .number digits => .number digits
  | .string parts => .string (Text.repaired (content parts))
  | .array _ => .openArray
  | .object _ => .openObject

/-- The first lexeme of the text of a tree is the lexeme of the tree, and it is separated from what came
before just if the lexer was told so. For a number, what follows must not go on with it. -/
theorem Tree.Loose.lexFrom_text {x : Tree} (hx : x.Loose) {rest : Text}
    (hrest : x.isNumber = true → Json.EndsNumber rest) (separated : Bool) :
    (lexFrom 0 separated (x.text ++ rest)).head? = some ⟨separated, x.lexeme⟩ := by
  cases x with
  | word w =>
    rw [Tree.text, (Spells.word w).lexFrom_append (by simp [isNumberLexeme])]
    rfl
  | number digits =>
    rw [Tree.text, (Spells.number hx).lexFrom_append fun _ => hrest rfl]
    rfl
  | string parts =>
    rw [Tree.text, (Spells.string hx).lexFrom_append (by simp [isNumberLexeme])]
    rfl
  | array items => rfl
  | object members => rfl

/-- What begins with a bracket or with a value does not begin with a gap. -/
theorem ungapped_close {bracket : UInt8} (h : IsClosing bracket) (rest : Text) :
    Ungapped ([bracket] ++ rest) := by
  intro b hb
  obtain rfl : bracket = b := by simpa using hb
  rcases h with rfl | rfl <;> decide

/-- A value does not begin with a closing bracket. Its first lexeme is that of the value, and no value has
the lexeme of a bracket that closes. -/
theorem Tree.Loose.ne_close {x : Tree} (hx : x.Loose) {rest : Text}
    (hrest : x.isNumber = true → Json.EndsNumber rest) {bracket : UInt8}
    (h : IsClosing bracket) (rest' : Text) :
    x.text ++ rest ≠ [bracket] ++ rest' := by
  intro heq
  have hhead := hx.lexFrom_text hrest false
  rw [heq] at hhead
  rcases h with rfl | rfl
  · rw [Spells.closeObject.lexFrom_append (by simp [isNumberLexeme])] at hhead
    cases x <;> cases hhead
  · rw [Spells.closeArray.lexFrom_append (by simp [isNumberLexeme])] at hhead
    cases x <;> cases hhead

/-- A gap and the bracket that closes a collection are determined by the text. -/
theorem close_unique {gap gap' : Text} {bracket bracket' : UInt8} (hgap : signs gap = [])
    (hgap' : signs gap' = []) (hbracket : IsClosing bracket)
    (hbracket' : IsClosing bracket') {rest rest' : Text}
    (h : gap ++ ([bracket] ++ rest) = gap' ++ ([bracket'] ++ rest')) :
    gap = gap' ∧ bracket = bracket' ∧ rest = rest' := by
  obtain ⟨rfl, hmore⟩ := gap_unique (looseGap_of_blank hgap) (looseGap_of_blank hgap')
    (ungapped_close hbracket rest) (ungapped_close hbracket' rest') h
  obtain ⟨rfl, rfl⟩ := List.cons.inj hmore
  exact ⟨rfl, rfl, rfl⟩

theorem Items.Loose.endsNumber_append {gap : Text} {x : Tree} {items : Items}
    (h : (Items.item gap x items).Loose) (rest : Text) :
    x.isNumber = true → Json.EndsNumber (items.text ++ rest) :=
  fun hn => Grammar.endsNumber_append items.text_ne_nil (h.2.2.2 hn) rest

/-- A key does not begin with a gap, and not with a closing bracket. -/
theorem ungapped_quoted (parts : List Part) (rest : Text) : Ungapped (quoted parts ++ rest) := by
  intro b hb
  obtain rfl : byte '"' = b := by simpa [quoted] using hb
  decide

theorem quoted_ne_close (parts : List Part) {bracket : UInt8}
    (h : IsClosing bracket) (rest rest' : Text) :
    quoted parts ++ rest ≠ [bracket] ++ rest' := by
  intro heq
  have hhead : byte '"' = bracket := (List.cons.inj heq).1
  rcases h with rfl | rfl <;> exact absurd hhead (by decide)

mutual

/-- **A text has one tree at most.** The text of a tree with something behind it determines the tree and
what is behind it; for numbers, what is behind must end them. -/
theorem Tree.text_unique (x y : Tree) (hx : x.Loose) (hy : y.Loose) {rest rest' : Text}
    (hrest : x.isNumber = true → Json.EndsNumber rest) (hrest' : y.isNumber = true → Json.EndsNumber rest')
    (h : x.text ++ rest = y.text ++ rest') : x = y ∧ rest = rest' := by
  -- the first lexeme is the same, so the two are of one kind
  have hlexeme : x.lexeme = y.lexeme := by
    have hhead := hx.lexFrom_text hrest false
    rw [h, hy.lexFrom_text hrest' false] at hhead
    exact (congrArg Placed.lexeme (Option.some.inj hhead)).symm
  match x, y, hlexeme with
  | .word w, .word w', hlexeme =>
    obtain rfl := Lexeme.word.inj hlexeme
    exact ⟨rfl, List.append_cancel_left h⟩
  | .number digits, .number digits', hlexeme =>
    obtain rfl := Lexeme.number.inj hlexeme
    exact ⟨rfl, List.append_cancel_left h⟩
  | .string parts, .string parts', _ =>
    obtain ⟨rfl, rfl⟩ := quoted_unique hx hy h
    exact ⟨rfl, rfl⟩
  | .array items, .array items', _ =>
    obtain ⟨rfl, rfl⟩ := items.text_unique items' hx hy (List.cons.inj h).2
    exact ⟨rfl, rfl⟩
  | .object members, .object members', _ =>
    obtain ⟨rfl, rfl⟩ := members.text_unique members' hx hy (List.cons.inj h).2
    exact ⟨rfl, rfl⟩

/-- Elements of an array are determined by their text up to the bracket, and so is what follows. This, the
statement for members and the one for trees are one induction, on the texts of both sides at once. -/
theorem Items.text_unique (a b : Items) (ha : a.Loose) (hb : b.Loose) {rest rest' : Text}
    (h : a.text ++ rest = b.text ++ rest') : a = b ∧ rest = rest' := by
  match a, b, ha, hb with
  | .close gap bracket, .close gap' bracket', ha, hb =>
    simp only [Items.text, List.append_assoc] at h
    obtain ⟨rfl, rfl, rfl⟩ := close_unique ha.1 hb.1 ha.2 hb.2 h
    exact ⟨rfl, rfl⟩
  | .close gap bracket, .item gap' x' b, ha, hb =>
    simp only [Items.text, List.append_assoc] at h
    -- behind the gap stands a bracket on the one side, and a value on the other
    obtain ⟨-, hmore⟩ := gap_unique (looseGap_of_blank ha.1) hb.1 (ungapped_close ha.2 _)
      (hb.2.1.ungapped _).2 h
    exact absurd hmore.symm (hb.2.1.ne_close (hb.endsNumber_append _) ha.2 _)
  | .item gap x a, .close gap' bracket', ha, hb =>
    simp only [Items.text, List.append_assoc] at h
    obtain ⟨-, hmore⟩ := gap_unique ha.1 (looseGap_of_blank hb.1) (ha.2.1.ungapped _).2
      (ungapped_close hb.2 _) h
    exact absurd hmore (ha.2.1.ne_close (ha.endsNumber_append _) hb.2 _)
  | .item gap x a, .item gap' x' b, ha, hb =>
    simp only [Items.text, List.append_assoc] at h
    -- gap, value and the rest of the array are taken off one after the other
    obtain ⟨rfl, hmore⟩ := gap_unique ha.1 hb.1 (ha.2.1.ungapped _).2 (hb.2.1.ungapped _).2 h
    obtain ⟨rfl, htail⟩ := x.text_unique x' ha.2.1 hb.2.1 (ha.endsNumber_append _) (hb.endsNumber_append _)
      hmore
    obtain ⟨rfl, rfl⟩ := a.text_unique b ha.2.2.1 hb.2.2.1 htail
    exact ⟨rfl, rfl⟩

/-- Members of an object are determined by their text up to the bracket, and so is what follows. A name is a
string and so no bracket, whatever is in it. -/
theorem Members.text_unique (a b : Members) (ha : a.Loose) (hb : b.Loose) {rest rest' : Text}
    (h : a.text ++ rest = b.text ++ rest') : a = b ∧ rest = rest' := by
  match a, b, ha, hb with
  | .close gap bracket, .close gap' bracket', ha, hb =>
    simp only [Members.text, List.append_assoc] at h
    obtain ⟨rfl, rfl, rfl⟩ := close_unique ha.1 hb.1 ha.2 hb.2 h
    exact ⟨rfl, rfl⟩
  | .close gap bracket, .member gap' key' colon' x' b, ha, hb =>
    simp only [Members.text, List.append_assoc] at h
    obtain ⟨-, hmore⟩ := gap_unique (looseGap_of_blank ha.1) hb.1 (ungapped_close ha.2 _)
      (ungapped_quoted key' _) h
    exact absurd hmore.symm (quoted_ne_close key' ha.2 _ _)
  | .member gap key colon x a, .close gap' bracket', ha, hb =>
    simp only [Members.text, List.append_assoc] at h
    obtain ⟨-, hmore⟩ := gap_unique ha.1 (looseGap_of_blank hb.1) (ungapped_quoted key _)
      (ungapped_close hb.2 _) h
    exact absurd hmore (quoted_ne_close key hb.2 _ _)
  | .member gap key colon x a, .member gap' key' colon' x' b, ha, hb =>
    obtain ⟨hgap, hkey, hcolon, hx, ha⟩ := ha
    obtain ⟨hgap', hkey', hcolon', hx', hb⟩ := hb
    simp only [Members.text, List.append_assoc] at h
    -- gap, name, colon, value and the rest of the object are taken off in this order
    obtain ⟨rfl, hquoted⟩ := gap_unique hgap hgap' (ungapped_quoted key _) (ungapped_quoted key' _) h
    obtain ⟨rfl, hvalue⟩ := quoted_unique hkey hkey' hquoted
    obtain ⟨rfl, htext⟩ := gap_unique hcolon hcolon' (hx.ungapped _).2 (hx'.ungapped _).2 hvalue
    obtain ⟨rfl, htail⟩ := x.text_unique x' hx hx' (fun _ => ha.endsNumber rest)
      (fun _ => hb.endsNumber rest') htext
    obtain ⟨rfl, rfl⟩ := a.text_unique b ha hb htail
    exact ⟨rfl, rfl⟩

end

end DocFilter.Grammar

namespace DocFilter.Document

open Grammar
open Text (byte)

/-- **What is accepted, and how far it is from the grammar.** A text whose first sign is a brace is read
just if it is, but for white space around it, the text of a loose object with a trail behind it, and
what is read are the fields that the object stands for. And it is an object of the grammar just if this
loose object is a proper one and there is no trail. -/
theorem parse_accepts_iff {t : Text} (h : (Text.trim t).head? = some (byte '\x7b')) :
    (∀ d, parse t = .ok d ↔ ∃ members trail, Members.Loose members ∧ IsTrail trail ∧
      Text.trim t = (Tree.object members).text ++ trail ∧ d = Json.filterMembers members.json) ∧
      ∀ members trail, Members.Loose members → IsTrail trail →
        Text.trim t = (Tree.object members).text ++ trail →
        (IsObject (Text.trim t) ↔ members.Proper true ∧ trail = []) := by
  obtain ⟨rest, hrest⟩ := List.head?_eq_some_iff.1 h
  refine ⟨fun d => ?_, fun members trail hloose htrail htext => ⟨?_, ?_⟩⟩
  · rw [parse_braced hrest, hrest]
    constructor
    · rintro ⟨v, hread, hroot⟩
      obtain ⟨members, trail, hloose, htrail, htext, rfl⟩ := readBraced_iff.1 hread
      exact ⟨members, trail, hloose, htrail, htext, (Except.ok.inj hroot).symm⟩
    · rintro ⟨members, trail, hloose, htrail, htext, rfl⟩
      exact ⟨_, readBraced_iff.2 ⟨members, trail, hloose, htrail, htext, rfl⟩, rfl⟩
  -- proper members are loose ones without a trail, and there is one way only to read the text
  · rintro ⟨members', hproper, htext'⟩
    rw [htext, ← List.append_nil (Tree.object members').text] at htext'
    obtain ⟨hsame, rfl⟩ := Tree.text_unique (.object members) (.object members') hloose hproper.loose
      (by simp [Tree.isNumber]) (by simp [Tree.isNumber]) htext'
    obtain rfl := Tree.object.inj hsame
    exact ⟨hproper, rfl⟩
  · rintro ⟨hproper, rfl⟩
    rw [htext, List.append_nil]
    exact ⟨members, hproper, rfl⟩

/-- An object with one member that is closed by the bracket of an array. -/
def mismatched : Members :=
  .member [] [.plain (byte 'a')] ":" (.number "1") (.close [] (byte ']'))

/-- A text in which a bracket closes the brace is accepted, as if the brackets matched, and it is not an
object of the grammar. -/
theorem mismatched_accepted :
    (Text.trim "\x7b\"a\":1]").head? = some (byte '\x7b') ∧
      parse "\x7b\"a\":1]" = .ok [("a", .int .int 1)] ∧ ¬ IsObject (Text.trim "\x7b\"a\":1]") := by
  have hhead : (Text.trim "\x7b\"a\":1]").head? = some (byte '\x7b') := rfl
  have htext : Text.trim "\x7b\"a\":1]" = (Tree.object mismatched).text ++ [] := rfl
  have hcolon : LooseGap ":" := fun b hb => .inr (List.mem_singleton.1 hb)
  have ha : ∀ p ∈ [Part.plain (byte 'a')], p.Loose := by
    intro p hp
    obtain rfl := List.mem_singleton.1 hp
    exact ⟨by decide, by decide, by decide⟩
  have hnumber : LooseNumber "1" := ⟨byte '1', [], rfl, rfl, fun c hc => absurd hc List.not_mem_nil⟩
  have hloose : mismatched.Loose :=
    ⟨looseGap_of_blank rfl, ha, hcolon, hnumber, rfl, .inr rfl⟩
  have htrail : IsTrail [] := ⟨[], [], looseGap_of_blank rfl, fun b hb => (by cases hb), rfl⟩
  obtain ⟨haccepts, hproper⟩ := parse_accepts_iff hhead
  refine ⟨hhead, (haccepts _).2 ⟨mismatched, [], hloose, htrail, htext, rfl⟩, fun hobject => ?_⟩
  obtain ⟨-, -, -, -, -, hbracket⟩ := ((hproper mismatched [] hloose htrail htext).1 hobject).1
  exact absurd hbracket (by decide)

end DocFilter.Document
