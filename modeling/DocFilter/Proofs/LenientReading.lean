import DocFilter.Document.Reader
import DocFilter.Proofs.JsonText

/-!
The notation with braces takes every interchange document. Its reader is far more lenient than the
strict one: it looks for no commas and colons, does not check which bracket closes a collection, and
takes digits of an escape on trust. Main result (`readBraced_of_parse`): where the strict reader has a
tree, the lenient one has the filter that the tree stands for.

The two readers are compared stage by stage. Where the strict scanner ends a string, the lenient one
does (`scanString_of_scanString?`); the lexemes of the lenient notation are the tokens of the strict
one, with a mark in place of a comma or a colon (`places_of_tokens?`); and every state of the strict
parser stands for a state of the lenient reader, which the same token takes to the state that the next
one stands for (`step_of_step?`).
-/

set_option autoImplicit false

namespace DocFilter

open Text (byte)

/-! ## Strings -/

namespace Lexeme

/-- A string does not end before the place where its scan begins. -/
theorem lt_length_of_scanString? {k : Nat} {t : Text} {r : Text × Text}
    (h : Json.scanString? k t = some r) : k < t.length := by
  by_contra hle
  rw [Json.scanString?_drop, List.drop_eq_nil_of_le (by omega)] at h
  simp [Json.scanString?] at h

/-- The strict scanner stops at an escape by number with a byte that is no hexadecimal digit. -/
theorem scanString?_badDigits {l₁ l₂ l₃ l₄ : UInt8} (rest : Text)
    (h : [l₁, l₂, l₃, l₄].all Json.isHexDigit = false) :
    Json.scanString? 0 (byte '\\' :: byte 'u' :: l₁ :: l₂ :: l₃ :: l₄ :: rest) = none := by
  rw [Json.scanString?, if_neg (by decide), if_neg (by decide), if_pos (by decide), Json.escape?,
    if_pos (by decide), h]
  rfl

/-- Behind the first half of a pair, the two scanners agree on whether the second half follows, if the
strict one gets to the end of the string. -/
theorem lowHalf?_eq {more : Text} {r : Text × Text} (h : Json.scanString? 0 more = some r)
    (hpair : ∀ s u l₁ l₂ l₃ l₄ rest, more = s :: u :: l₁ :: l₂ :: l₃ :: l₄ :: rest →
      (s == byte '\\' && u == byte 'u' && [l₁, l₂, l₃, l₄].all Json.isHexDigit &&
        isLow (hexWord l₁ l₂ l₃ l₄)) = false) : lowHalf? more = none := by
  match more with
  | s :: u :: l₁ :: l₂ :: l₃ :: l₄ :: b :: rest =>
    rw [lowHalf?]
    have hnot := hpair s u l₁ l₂ l₃ l₄ (b :: rest) rfl
    by_cases hs : s = byte '\\' ∧ u = byte 'u'
    · obtain ⟨rfl, rfl⟩ := hs
      by_cases hhex : [l₁, l₂, l₃, l₄].all Json.isHexDigit = true
      · rw [hhex] at hnot
        simpa using hnot
      · -- the strict scanner would have stopped here
        rw [scanString?_badDigits (b :: rest) (by simpa using hhex)] at h
        simp at h
    · have hoff : (s == byte '\\' && u == byte 'u') = false := by
        simpa using fun h => not_and.1 hs h
      simp [hoff]
  | [] | [_] | [_, _] | [_, _, _] | [_, _, _, _] | [_, _, _, _, _] | [_, _, _, _, _, _] => rfl

/-- An escape by number that is no first half of a pair. -/
theorem escape_single {h₁ h₂ h₃ h₄ : UInt8} {more : Text} (hmore : more ≠ [])
    (hpair : isHigh (hexWord h₁ h₂ h₃ h₄) = true → lowHalf? more = none) :
    escape (byte 'u' :: h₁ :: h₂ :: h₃ :: h₄ :: more) = .ok (numbered (hexWord h₁ h₂ h₃ h₄), 5) := by
  obtain ⟨next, more, rfl⟩ := List.exists_cons_of_ne_nil hmore
  rw [escape, if_pos (by decide)]
  dsimp only
  by_cases hhigh : isHigh (hexWord h₁ h₂ h₃ h₄) = true
  · rw [hhigh, hpair hhigh]
  · rw [Bool.not_eq_true] at hhigh
    rw [hhigh]

/-- An escape by number that the strict scanner takes, and behind which it gets to the end of the
string. The lenient scanner asks for one byte more than the strict one; the end of the string gives
it. -/
theorem escape_numbered {h₁ h₂ h₃ h₄ : UInt8} {more y : Text} {m : Nat} {r : Text × Text}
    (h : Json.escape? (byte 'u' :: h₁ :: h₂ :: h₃ :: h₄ :: more) = some (y, m))
    (hscan : Json.scanString? m (byte 'u' :: h₁ :: h₂ :: h₃ :: h₄ :: more) = some r) :
    escape (byte 'u' :: h₁ :: h₂ :: h₃ :: h₄ :: more) = .ok (y, m) := by
  have hlength := lt_length_of_scanString? hscan
  simp only [List.length_cons] at hlength
  rw [Json.escape?, if_pos (by decide)] at h
  by_cases hhex : [h₁, h₂, h₃, h₄].all Json.isHexDigit = true
  · rw [if_pos hhex] at h
    dsimp only at h
    split at h
    · next s u l₁ l₂ l₃ l₄ rest hhigh =>
      simp only [List.length_cons] at hlength
      by_cases hpair : (s == byte '\\' && u == byte 'u' && [l₁, l₂, l₃, l₄].all Json.isHexDigit &&
          isLow (hexWord l₁ l₂ l₃ l₄)) = true
      · -- both halves of a pair
        rw [if_pos hpair] at h
        simp only [Option.some.injEq, Prod.mk.injEq] at h
        obtain ⟨rfl, rfl⟩ := h
        obtain ⟨b, rest, rfl⟩ := List.exists_cons_of_length_pos (show 0 < rest.length by omega)
        have hlow : lowHalf? (s :: u :: l₁ :: l₂ :: l₃ :: l₄ :: b :: rest)
            = some (hexWord l₁ l₂ l₃ l₄) := by
          simp only [Bool.and_eq_true] at hpair
          rw [lowHalf?]
          simp [hpair]
        rw [escape, if_pos (by decide)]
        dsimp only
        rw [hhigh, hlow]
      · -- a first half on its own, with something else behind it
        rw [if_neg hpair] at h
        simp only [Option.some.injEq, Prod.mk.injEq] at h
        obtain ⟨rfl, rfl⟩ := h
        refine escape_single (by simp) fun _ => lowHalf?_eq hscan ?_
        rintro s' u' l₁' l₂' l₃' l₄' rest' heq
        simp only [List.cons.injEq] at heq
        obtain ⟨rfl, rfl, rfl, rfl, rfl, rfl, -⟩ := heq
        simpa using hpair
    · next hnot =>
      simp only [Option.some.injEq, Prod.mk.injEq] at h
      obtain ⟨rfl, rfl⟩ := h
      refine escape_single (by rintro rfl; simp at hlength) fun hhigh => lowHalf?_eq hscan ?_
      rintro s u l₁ l₂ l₃ l₄ rest rfl
      exact absurd rfl (hnot s u l₁ l₂ l₃ l₄ rest hhigh)
  · rw [if_neg hhex] at h
    simp at h

/-- An escape that the strict scanner takes, and behind which it gets to the end of the string. -/
theorem escape_of_escape? {t y : Text} {m : Nat} {r : Text × Text}
    (h : Json.escape? t = some (y, m)) (hscan : Json.scanString? m t = some r) :
    escape t = .ok (y, m) := by
  cases t with
  | nil => simp [Json.escape?] at h
  | cons letter rest =>
    by_cases hletter : letter = byte 'u'
    · subst hletter
      -- fewer than four digits are no escape
      rcases rest with _ | ⟨h₁, _ | ⟨h₂, _ | ⟨h₃, _ | ⟨h₄, more⟩⟩⟩⟩
      · simp [Json.escape?] at h
      · simp [Json.escape?] at h
      · simp [Json.escape?] at h
      · simp [Json.escape?] at h
      · exact escape_numbered h hscan
    · unfold Json.escape? at h
      unfold escape
      dsimp only at h ⊢
      rw [if_neg (by simpa using hletter)] at h ⊢
      obtain ⟨b, hb, hend⟩ := Option.map_eq_some_iff.1 h
      simp only [Prod.mk.injEq] at hend
      obtain ⟨rfl, rfl⟩ := hend
      rw [hb]

/-- **The lenient scanner ends a string where the strict one does**, and has read the same text up to there.
The induction is on the text, with the bytes of an escape counted down. -/
theorem scanString_of_scanString? {k : Nat} {t x after : Text}
    (h : Json.scanString? k t = some (x, after)) :
    ∃ n, scanString k t = .ok (x, n) ∧ t.drop n = after := by
  induction t generalizing k x with
  | nil => cases k <;> simp [Json.scanString?] at h
  | cons b t ih =>
    cases k with
    | succ k =>
      obtain ⟨n, hn, hdrop⟩ := ih h
      refine ⟨n + 1, ?_, hdrop⟩
      rw [scanString, hn]
      rfl
    | zero =>
      rw [Json.scanString?] at h
      rw [scanString]
      -- the end, a byte that ends the input, an escape, or a plain byte
      by_cases hquote : (b == byte '"') = true
      · rw [if_pos hquote] at h ⊢
        simp only [Option.some.injEq, Prod.mk.injEq] at h
        obtain ⟨rfl, rfl⟩ := h
        exact ⟨1, rfl, rfl⟩
      rw [if_neg hquote] at h ⊢
      by_cases hzero : (b == 0) = true
      · rw [if_pos hzero] at h
        simp at h
      rw [if_neg hzero] at h ⊢
      by_cases hslash : (b == byte '\\') = true
      · rw [if_pos hslash] at h ⊢
        obtain ⟨⟨y, m⟩, hescape, h⟩ := Option.bind_eq_some_iff.1 h
        obtain ⟨⟨more, after'⟩, hscan, h⟩ := Option.bind_eq_some_iff.1 h
        simp only [pure, Option.some.injEq, Prod.mk.injEq] at h
        obtain ⟨rfl, rfl⟩ := h
        obtain ⟨n, hn, hdrop⟩ := ih hscan
        refine ⟨n + 1, ?_, hdrop⟩
        rw [escape_of_escape? hescape hscan]
        dsimp only
        rw [hn]
        rfl
      · rw [if_neg hslash] at h ⊢
        obtain ⟨⟨more, after'⟩, hscan, h⟩ := Option.bind_eq_some_iff.1 h
        simp only [pure, Option.some.injEq, Prod.mk.injEq] at h
        obtain ⟨rfl, rfl⟩ := h
        obtain ⟨n, hn, hdrop⟩ := ih hscan
        refine ⟨n + 1, ?_, hdrop⟩
        rw [hn]
        rfl

end Lexeme

/-! ## Lexemes -/

namespace Json

/-- The lexeme of a token that is no separator. -/
inductive Token.Spells : Token → Lexeme → Prop
  | openObject : Spells .openObject .openObject
  | closeObject : Spells .closeObject .closeObject
  | openArray : Spells .openArray .openArray
  | closeArray : Spells .closeArray .closeArray
  | null : Spells (.scalar .null) (.word .null)
  | yes : Spells (.scalar (.bool true)) (.word .true)
  | no : Spells (.scalar (.bool false)) (.word .false)
  | number (digits : Text) : Spells (.scalar (.number digits)) (.number digits)
  | string (t : Text) : Spells (.scalar (.string t)) (.string (Text.repaired t))

/-- The lexemes of tokens: a comma or a colon leaves its mark on the lexeme behind it. -/
inductive Places : Bool → List Token → List Placed → Prop
  | nil (separated : Bool) : Places separated [] []
  | comma {separated : Bool} {ts : List Token} {ps : List Placed} :
      Places true ts ps → Places separated (.comma :: ts) ps
  | colon {separated : Bool} {ts : List Token} {ps : List Placed} :
      Places true ts ps → Places separated (.colon :: ts) ps
  | lexeme {separated : Bool} {t : Token} {l : Lexeme} {ts : List Token} {ps : List Placed} :
      t.Spells l → Places false ts ps → Places separated (t :: ts) (⟨separated, l⟩ :: ps)

end Json

namespace Lexeme

/-- Skipping bytes is dropping them. The lexer counts down the bytes of a lexeme, so that it is structural
on the text. -/
theorem lexFrom_drop (n : Nat) (separated : Bool) (t : Text) :
    lexFrom n separated t = lexFrom 0 separated (t.drop n) := by
  induction t generalizing n with
  | nil => simp [lexFrom]
  | cons b t ih =>
    cases n with
    | zero => rfl
    | succ n =>
      rw [lexFrom, ih]
      rfl

theorem lexFrom_space {b : UInt8} (hb : Json.isSpace b = true) (separated : Bool) (rest : Text) :
    lexFrom 0 separated (b :: rest) = lexFrom 0 separated rest := by
  unfold Json.isSpace at hb
  rw [lexFrom, if_pos hb]

/-- What a byte that begins a number is not. -/
theorem digit_byte (b : UInt8) : (Text.isDigit b || b == byte '-') = true →
    Json.isSpace b = false ∧ (b == byte ',' || b == byte ':') = false ∧ (b == 0) = false ∧
      (b == byte '\x7b') = false ∧ (b == byte '\x7d') = false ∧ (b == byte '[') = false ∧
      (b == byte ']') = false := by
  revert b
  exact Text.forall_byte (by decide +kernel)

/-- A number goes as far as its characters do, whether or not they make sense as a number. -/
theorem lexFrom_number {b : UInt8} (hb : (Text.isDigit b || b == byte '-') = true) (separated : Bool)
    (rest : Text) :
    lexFrom 0 separated (b :: rest)
      = ⟨separated, .number (b :: rest.takeWhile continuesNumber)⟩ ::
        lexFrom 0 false (rest.drop (rest.takeWhile continuesNumber).length) := by
  obtain ⟨hspace, hsep, hzero, h₁, h₂, h₃, h₄⟩ := digit_byte b hb
  unfold Json.isSpace at hspace
  rw [← lexFrom_drop, lexFrom, hspace, hsep, hzero, h₁, h₂, h₃, h₄, hb]
  rfl

/-- A string that is scanned is a lexeme, with its text repaired. -/
theorem lexFrom_string {rest t : Text} {n : Nat} (h : scanString 0 rest = .ok (t, n)) (separated : Bool) :
    lexFrom 0 separated (byte '"' :: rest)
      = ⟨separated, .string (Text.repaired t)⟩ :: lexFrom 0 false (rest.drop n) := by
  rw [← lexFrom_drop, lexFrom]
  -- a quote is none of the bytes that are looked for before it
  iterate 8 rw [if_neg (by decide)]
  rw [if_pos (by decide), h]

/-- The three constants of the strict notation are words of the lenient one. -/
theorem lexFrom_constant {w after : Text} {j : Json} (hmem : (w, j) ∈ Json.constants) (separated : Bool) :
    ∃ l, (Json.Token.scalar j).Spells l ∧
      lexFrom 0 separated (w ++ after) = ⟨separated, l⟩ :: lexFrom 0 false after := by
  simp only [Json.constants, List.mem_cons, List.not_mem_nil, or_false, Prod.mk.injEq] at hmem
  rcases hmem with ⟨rfl, rfl⟩ | ⟨rfl, rfl⟩ | ⟨rfl, rfl⟩
  · exact ⟨_, .null, rfl⟩
  · exact ⟨_, .yes, rfl⟩
  · exact ⟨_, .no, rfl⟩

/-- One token of the strict lexer, and what the lenient one makes of it. -/
theorem lexFrom_token {b : UInt8} {rest after : Text} {tok : Json.Token}
    (h : Json.token? b rest = some (tok, after)) (separated : Bool) :
    (tok = .comma ∨ tok = .colon) ∧ lexFrom 0 separated (b :: rest) = lexFrom 0 true after ∨
      ∃ l, tok.Spells l ∧ lexFrom 0 separated (b :: rest) = ⟨separated, l⟩ :: lexFrom 0 false after := by
  rw [Json.token?] at h
  by_cases hsign : b ∈ [byte '\x7b', byte '\x7d', byte '[', byte ']', byte ',', byte ':']
  · simp only [List.mem_cons, List.not_mem_nil, or_false] at hsign
    rcases hsign with rfl | rfl | rfl | rfl | rfl | rfl <;>
      obtain ⟨rfl, rfl⟩ := Prod.mk.inj (Option.some.inj h)
    · exact .inr ⟨_, .openObject, rfl⟩
    · exact .inr ⟨_, .closeObject, rfl⟩
    · exact .inr ⟨_, .openArray, rfl⟩
    · exact .inr ⟨_, .closeArray, rfl⟩
    · exact .inl ⟨.inl rfl, rfl⟩
    · exact .inl ⟨.inr rfl, rfl⟩
  simp only [List.mem_cons, List.not_mem_nil, or_false, not_or] at hsign
  obtain ⟨h₁, h₂, h₃, h₄, h₅, h₆⟩ := hsign
  rw [if_neg (by simpa using h₁), if_neg (by simpa using h₂), if_neg (by simpa using h₃),
    if_neg (by simpa using h₄), if_neg (by simpa using h₅), if_neg (by simpa using h₆)] at h
  -- strings, numbers and constants
  right
  by_cases hb : b = byte '"'
  · subst hb
    obtain ⟨⟨t, after'⟩, hscan, hend⟩ := Option.bind_eq_some_iff.1 h
    obtain ⟨rfl, rfl⟩ := Prod.mk.inj (Option.some.inj hend)
    obtain ⟨n, hn, hdrop⟩ := scanString_of_scanString? hscan
    refine ⟨_, .string t, ?_⟩
    rw [lexFrom_string hn, hdrop]
  rw [if_neg (by simpa using hb)] at h
  by_cases hnumber : (Text.isDigit b || b == byte '-') = true
  · rw [if_pos hnumber] at h
    obtain ⟨rfl, rfl⟩ := Prod.mk.inj (Option.some.inj h)
    exact ⟨_, .number _, lexFrom_number hnumber separated rest⟩
  · rw [if_neg hnumber] at h
    obtain ⟨⟨w, j⟩, hmem, hword⟩ := List.exists_of_findSome?_eq_some h
    obtain ⟨after', hprefix, hend⟩ := Option.map_eq_some_iff.1 hword
    obtain ⟨rfl, rfl⟩ := Prod.mk.inj hend
    rw [List.isPrefixOf?_eq_some_iff_append_eq] at hprefix
    rw [← hprefix]
    exact lexFrom_constant hmem separated

/-- **The lexemes of the lenient notation are the tokens of the strict one**, where there are any. Commas
and colons are no lexemes, but marks on the lexeme that follows. -/
theorem places_of_tokens? {n : Nat} {t : Text} {ts : List Json.Token} (h : Json.tokens? n t = some ts)
    (separated : Bool) : Json.Places separated ts (lexFrom 0 separated t) := by
  induction n generalizing t ts separated with
  | zero =>
    cases t with
    | nil =>
      simp only [Json.tokens?, Option.some.injEq] at h
      subst h
      exact .nil separated
    | cons b rest => simp [Json.tokens?] at h
  | succ n ih =>
    cases t with
    | nil =>
      simp only [Json.tokens?, Option.some.injEq] at h
      subst h
      exact .nil separated
    | cons b rest =>
      rw [Json.tokens?] at h
      by_cases hspace : Json.isSpace b = true
      · rw [if_pos hspace] at h
        rw [lexFrom_space hspace]
        exact ih h separated
      · rw [if_neg hspace] at h
        obtain ⟨⟨tok, after⟩, htok, h⟩ := Option.bind_eq_some_iff.1 h
        obtain ⟨more, hmore, h⟩ := Option.bind_eq_some_iff.1 h
        simp only [pure, Option.some.injEq] at h
        subst h
        rcases lexFrom_token htok separated with ⟨rfl | rfl, hlex⟩ | ⟨l, hl, hlex⟩
        · rw [hlex]
          exact .comma (ih hmore true)
        · rw [hlex]
          exact .colon (ih hmore true)
        · rw [hlex]
          exact .lexeme hl (ih hmore false)

end Lexeme

/-! ## States -/

namespace Json

mutual

/-- The value that a tree stands for in a filter: numbers are judged by their text, objects keep their
members as they are. -/
def filterValue : Json → Value
  | .null => .null
  | .bool b => .bool b
  | .number digits => numberValue digits
  | .string t => .text (Text.repaired t)
  | .array items => .list .any (filterItems items)
  | .object members => .doc (filterMembers members)

/-- The values that elements stand for. -/
def filterItems : List Json → List Value
  | [] => []
  | j :: rest => j.filterValue :: filterItems rest

/-- The fields that members stand for. -/
def filterMembers : List (Text × Json) → List (Text × Value)
  | [] => []
  | (k, j) :: rest => (Text.repaired k, j.filterValue) :: filterMembers rest

end

/-- The elements of an array stand for the values of a list. -/
theorem filterItems_eq (items : List Json) : filterItems items = items.map filterValue := by
  induction items with
  | nil => simp [filterItems]
  | cons j rest ih => simp [filterItems, ih]

/-- The members of an object stand for fields, with repaired names. -/
theorem filterMembers_eq (members : List (Text × Json)) :
    filterMembers members = members.map fun m => (Text.repaired m.1, m.2.filterValue) := by
  induction members with
  | nil => simp [filterMembers]
  | cons m rest ih => simp [filterMembers, ih]

/-- The collection of the lenient reader that an open collection stands for. -/
def Open.frame : Open → Reader.Frame
  | .key members _ | .member members => .object (filterMembers members)
  | .colon members k | .value members k => .member (filterMembers members) (Text.repaired k)
  | .item items _ | .element items => .array (filterItems items)

/-- Whether a comma or a colon was the last that was read. -/
def Open.separated : Open → Bool
  | .key _ first | .item _ first => !first
  | .value _ _ => true
  | .colon _ _ | .member _ | .element _ => false

/-- The state of the lenient reader that a state of the strict parser stands for. -/
def State.reader : State → Reader.State
  | .start => .start
  | .within inner outer => .within inner.frame (outer.map Open.frame)
  | .finished j => .finished j.filterValue

/-- Whether a comma or a colon was the last that was read. -/
def State.separated : State → Bool
  | .within inner _ => inner.separated
  | .start | .finished _ => false

/-- A value that the strict parser delivers is delivered by the lenient reader too, to the frame that stands
for the open collection, and no separator is pending then. -/
theorem deliver_of_deliver? {j : Json} {stack : List Open} {s : State} (h : deliver? j stack = some s) :
    Reader.deliver j.filterValue (stack.map Open.frame) = s.reader ∧ s.separated = false := by
  cases stack with
  | nil =>
    simp only [deliver?, Option.some.injEq] at h
    subst h
    exact ⟨rfl, rfl⟩
  | cons inner outer =>
    simp only [deliver?, Option.map_eq_some_iff] at h
    obtain ⟨inner', hput, rfl⟩ := h
    -- only a collection that waits for a value takes one
    cases inner with
    | value members k =>
      simp only [Open.put?, Option.some.injEq] at hput
      subst hput
      exact ⟨rfl, rfl⟩
    | item items first =>
      simp only [Open.put?, Option.some.injEq] at hput
      subst hput
      exact ⟨rfl, rfl⟩
    | key | colon | member | element => simp [Open.put?] at hput

/-- A token at a place for a value begins the same value for the lenient reader: it opens the same kind of
collection, or is a scalar that is delivered. -/
theorem beginValue_of_begin? {stack : List Open} {t : Token} {l : Lexeme} {s : State}
    (h : begin? stack t = some s) (hl : t.Spells l) :
    Reader.beginValue (stack.map Open.frame) l = .ok s.reader ∧ s.separated = false := by
  cases hl with
  | openObject | openArray =>
    simp only [begin?, Option.some.injEq] at h
    subst h
    exact ⟨rfl, rfl⟩
  | closeObject | closeArray => simp [begin?] at h
  | null | yes | no | number | string =>
    obtain ⟨hdeliver, hseparated⟩ := deliver_of_deliver? (h : deliver? _ stack = some s)
    exact ⟨congrArg Except.ok hdeliver, hseparated⟩

/-- A collection that the strict parser closes and delivers. -/
theorem deliver_closed {f : Reader.Frame} {j : Json} {outer : List Open} {s : State}
    (hclose : f.close = j.filterValue) (h : deliver? j outer = some s) :
    (Except.ok (Reader.deliver f.close (outer.map Open.frame)) : Except ReadError Reader.State)
        = .ok s.reader ∧ s.separated = false := by
  obtain ⟨hdeliver, hseparated⟩ := deliver_of_deliver? h
  rw [hclose, hdeliver]
  exact ⟨rfl, hseparated⟩

/-- Closing the frame of an object gives the document that the object stands for. -/
theorem close_object (members : List (Text × Json)) :
    Reader.Frame.close (.object (filterMembers members)) = (Json.object members.reverse).filterValue := by
  simp only [Reader.Frame.close, filterValue, filterMembers_eq, List.map_reverse]

/-- Closing the frame of an array gives the list that the array stands for. -/
theorem close_array (items : List Json) :
    Reader.Frame.close (.array (filterItems items)) = (Json.array items.reverse).filterValue := by
  simp only [Reader.Frame.close, filterValue, filterItems_eq, List.map_reverse]

/-- A token at a place for an element, if it does not end the array. -/
theorem step_item {items : List Json} {first : Bool} {outer : List Open} {t : Token} {l : Lexeme}
    {s : State} (h : begin? (.item items first :: outer) t = some s) (hl : t.Spells l) :
    Reader.step (.within (.array (filterItems items)) (outer.map Open.frame)) ⟨!first, l⟩ = .ok s.reader ∧
      s.separated = false := by
  have hbegin := beginValue_of_begin? h hl
  cases hl with
  | closeObject | closeArray => simp [begin?] at h
  | openObject | openArray | null | yes | no | number | string =>
    rw [Reader.step, if_neg (by simp [Reader.endsCollection])]
    exact hbegin

/-- **One token.** Where the strict parser takes a token, the lenient reader takes its lexeme, with the
mark of the separator that was read before it. -/
theorem step_of_step? {s s' : State} {t : Token} {l : Lexeme} (h : step? s t = some s')
    (hl : t.Spells l) :
    Reader.step s.reader ⟨s.separated, l⟩ = .ok s'.reader ∧ s'.separated = false := by
  cases s with
  | start => exact beginValue_of_begin? h hl
  | finished j => simp [step?] at h
  | within inner outer =>
    cases inner with
    | value members k =>
      have hbegin : begin? (.value members k :: outer) t = some s' := h
      exact beginValue_of_begin? hbegin hl
    | colon members k => cases hl <;> simp [step?] at h
    | key members first =>
      cases hl with
      | string k =>
        simp only [step?, Option.some.injEq] at h
        subst h
        refine ⟨?_, rfl⟩
        show Reader.step (.within (.object _) _) ⟨!first, .string _⟩ = _
        rw [Reader.step, if_neg (by simp [Reader.endsCollection])]
        rfl
      | closeObject =>
        -- only an object without a member may end here, so no comma was read
        cases first with
        | false => simp [step?] at h
        | true => exact deliver_closed (close_object members) h
      | _ => simp [step?] at h
    | member members =>
      cases hl with
      | closeObject => exact deliver_closed (close_object members) h
      | _ => simp [step?] at h
    | item items first =>
      by_cases hclose : t = .closeArray
      · subst hclose
        cases hl
        cases first with
        | false => simp [step?] at h
        | true => exact deliver_closed (close_array items) h
      · rw [awaits_item items first outer t hclose] at h
        exact step_item h hl
    | element items =>
      cases hl with
      | closeArray => exact deliver_closed (close_array items) h
      | _ => simp [step?] at h

/-- A separator leaves the state of the lenient reader alone. The strict parser has noted it, and what it
noted is the mark on the next lexeme. -/
theorem reader_of_separator {s s' : State} {t : Token} (h : step? s t = some s')
    (ht : t = .comma ∨ t = .colon) : s'.reader = s.reader ∧ s'.separated = true := by
  cases s with
  | start => rcases ht with rfl | rfl <;> simp [step?, begin?] at h
  | finished j => simp [step?] at h
  | within inner outer =>
    -- a colon is taken behind a key, a comma behind a member or an element
    cases inner <;> rcases ht with rfl | rfl <;> simp [step?, begin?] at h <;> subst h <;>
      exact ⟨rfl, rfl⟩

/-- **All tokens.** Where the strict parser gets through, the lenient reader does. The induction is on the
tokens and lexemes side by side, with a state of the one standing for a state of the other. -/
theorem run_of_foldlM {separated : Bool} {ts : List Token} {ps : List Placed}
    (hplaces : Places separated ts ps) {s s' : State} (hs : s.separated = separated)
    (h : ts.foldlM step? s = some s') : Reader.run s.reader ps = .ok s'.reader := by
  induction hplaces generalizing s with
  | nil separated =>
    simp only [List.foldlM_nil, pure, Option.some.injEq] at h
    subst h
    rfl
  -- a separator changes what the strict parser waits for, and for the lenient reader nothing
  | comma _ ih =>
    rw [List.foldlM_cons] at h
    obtain ⟨s₁, hstep, h⟩ := Option.bind_eq_some_iff.1 h
    obtain ⟨hreader, hseparated⟩ := reader_of_separator hstep (.inl rfl)
    rw [← hreader]
    exact ih hseparated h
  | colon _ ih =>
    rw [List.foldlM_cons] at h
    obtain ⟨s₁, hstep, h⟩ := Option.bind_eq_some_iff.1 h
    obtain ⟨hreader, hseparated⟩ := reader_of_separator hstep (.inr rfl)
    rw [← hreader]
    exact ih hseparated h
  | lexeme hl _ ih =>
    rw [List.foldlM_cons] at h
    obtain ⟨s₁, hstep, h⟩ := Option.bind_eq_some_iff.1 h
    obtain ⟨hread, hseparated⟩ := step_of_step? hstep hl
    rw [hs] at hread
    rw [Reader.run, hread]
    exact ih hseparated h

end Json

/-- **The lenient reader takes what the strict one takes**, and reads it as the filter that the tree
stands for. -/
theorem readBraced_of_parse {t : Text} {j : Json} (h : Json.parse t = .ok j) :
    readBraced t = .ok j.filterValue := by
  rw [Json.parse] at h
  split at h
  · next j' hrun =>
    obtain ⟨ts, hts, hrun⟩ := Option.bind_eq_some_iff.1 hrun
    have hplaces := Lexeme.places_of_tokens? hts false
    have hread := Json.run_of_foldlM hplaces (s := .start) rfl hrun
    obtain rfl := Except.ok.inj h
    rw [readBraced, Lexeme.lex]
    exact congrArg (· >>= _) hread
  · simp at h

end DocFilter
