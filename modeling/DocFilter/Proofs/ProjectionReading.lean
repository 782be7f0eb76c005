import DocFilter.Proofs.WhereClause
import DocFilter.Query.Builder

/-!
How the projection of a statement is read. What stands behind SELECT ends where a clause begins or
the text ends, commas separate its items, each item is a path of names, and what stands between
backticks counts for none of these.

An item may name a field in several ways, with or without backticks. But where the name of a field
is written as it is, an item that is read as this field has no backticks (`item_forced`): with
backticks around it, the same name would have to begin with more blanks and backticks than it has.
So fields that are read from the text of their own columns are paths of bare names
(`fields_forced`).
-/

set_option autoImplicit false

namespace DocFilter.Projection

open Text (byte)

/-! ## Reading a projection -/

/-- Whether a byte may stand in a bare name or a keyword. -/
def isWordByte (b : UInt8) : Bool := Text.isLetter b || Text.isDigit b || b == byte '_'

/-- Whether a byte is white space. -/
def isSpace (b : UInt8) : Bool :=
  b == byte ' ' || b == byte '\t' || b == byte '\n' || b == byte '\r'

/-- The word that a text begins with, in lower case. -/
def firstWord (t : Text) : Text := (t.takeWhile isWordByte).map Text.lowerAscii

/-- The keywords of one word that begin a clause. -/
def keywords : List Text := ["from", "where", "limit", "offset"]

/-- Whether a text begins with the keyword of a clause, in any case. -/
def opensClause (t : Text) : Bool :=
  keywords.contains (firstWord t) ||
    firstWord t == Text.ofString "order" &&
      firstWord ((t.dropWhile isWordByte).dropWhile isSpace) == Text.ofString "by"

/-- Where a reader stands: between backticks, or outside them, possibly inside a word. -/
inductive Position where
  | quoted
  | outside (afterWord : Bool)

/-- The text up to the first clause that begins outside backticks. -/
def region : Position → Text → Text
  | _, [] => []
  | .quoted, b :: rest => b :: region (if b == byte '\x60' then .outside false else .quoted) rest
  | .outside afterWord, b :: rest =>
    if !afterWord && opensClause (b :: rest) then []
    else b :: region (if b == byte '\x60' then .quoted else .outside (isWordByte b)) rest

/-- The parts of a text between the separators that stand outside backticks. -/
def split (sep : UInt8) : Bool → Text → List Text
  | _, [] => [[]]
  | quoted, b :: rest =>
    if b == sep && !quoted then [] :: split sep false rest
    else (split sep (quoted != (b == byte '\x60')) rest).modifyHead (b :: ·)

/-- A text without white space at either end. -/
def trim (t : Text) : Text := Text.dropEndWhile isSpace (t.dropWhile isSpace)

/-- Whether a text is a name without backticks: letters, digits and underscores, no digit in front,
and no keyword. -/
def isBareName (t : Text) : Bool :=
  t.head?.any (fun b => isWordByte b && !Text.isDigit b) && t.all isWordByte &&
    !keywords.contains (t.map Text.lowerAscii)

/-- A name as it stands between backticks. -/
def doubled (name : Text) : Text :=
  name.flatMap fun b => if b == byte '\x60' then [b, b] else [b]

/-- A text with every two backticks taken for one. -/
def undoubled : Text → Text
  | [] => []
  | [b] => [b]
  | b :: c :: rest =>
    if b == byte '\x60' && c == byte '\x60' then b :: undoubled rest else b :: undoubled (c :: rest)

/-- The name that a text is: itself if it is bare, else what stands between its backticks. -/
def name? (t : Text) : Option Text :=
  if isBareName t then some t
  else
    let name := undoubled (t.drop 1).dropLast
    if identifier name == t then some name else none

/-- The field that the names of a path stand for; the first of them is the scope if there is one. -/
def pathOf? (scope : Text) (names : List Text) : Option Text :=
  if scope.isEmpty then some (Text.join [byte '.'] names)
  else
    match names with
    | qualifier :: n :: rest =>
      if qualifier == scope then some (Text.join [byte '.'] (n :: rest)) else none
    | _ => none

/-- The field that an item stands for, if it is a path of names. -/
def field? (scope item : Text) : Option Text :=
  ((split (byte '.') false (trim item)).mapM name?).bind (pathOf? scope)

/-- The fields that a statement selects, if every item of its projection is a field. -/
def read (scope text : Text) : Option (List Text) :=
  if List.isPrefixOf (Text.ofString "SELECT ") text then
    (split (byte ',') false (region (.outside false) (text.drop 7))).mapM (field? scope)
  else none

/-- Whether a field is a path of bare names. -/
def isPath (field : Text) : Bool := (split (byte '.') false field).all isBareName

/-- The fields that directives select: those of the last selection. -/
def fields (ds : List Directive) : List Text :=
  ds.foldl (fun fields d => (Builder.selection? d).getD fields) []

/-! ## Joining and splitting -/

/-- A reader succeeds on every item exactly if it gives the list of results item by item. In this form an
equation of lists can be split at its head. -/
theorem mapM_eq_some_iff {α β : Type} {f : α → Option β} {xs : List α} {ys : List β} :
    xs.mapM f = some ys ↔ xs.map f = ys.map some := by
  induction xs generalizing ys with
  | nil => cases ys <;> simp
  | cons x xs ih =>
    rw [List.mapM_cons, List.map_cons]
    cases f x with
    | none => cases ys <;> simp
    | some a =>
      cases hxs : xs.mapM f with
      | none =>
        -- The rest has no values, so it is not made of values.
        have hne : ∀ zs, xs.map f ≠ List.map some zs := fun zs h => by
          rw [← ih, hxs] at h
          cases h
        cases ys <;> simp [hne]
      | some bs =>
        rw [ih.mp hxs]
        cases ys <;> simp [List.map_inj_right fun _ _ => Option.some.inj]

/-- Joining with one more part in front, provided that others follow. -/
theorem join_cons (sep t : Text) {ts : List Text} (hts : ts ≠ []) :
    Text.join sep (t :: ts) = t ++ sep ++ Text.join sep ts := by
  cases ts with
  | nil => exact absurd rfl hts
  | cons t' ts => rfl

theorem split_ne_nil (sep : UInt8) (quoted : Bool) (t : Text) : split sep quoted t ≠ [] := by
  cases t with
  | nil => simp [split]
  | cons b rest =>
    rw [split]
    split
    · simp
    · have hrest := split_ne_nil sep (quoted != (b == byte '\x60')) rest
      obtain ⟨part, parts, hparts⟩ := List.exists_cons_of_ne_nil hrest
      simp [hparts]

/-- Putting bytes in front of the first part puts them in front of the whole. -/
theorem join_modifyHead (sep p : Text) {ts : List Text} (hts : ts ≠ []) :
    Text.join sep (ts.modifyHead (p ++ ·)) = p ++ Text.join sep ts := by
  match ts with
  | [] => exact absurd rfl hts
  | [t] => rfl
  | t :: t' :: ts => simp [List.modifyHead, Text.join, List.append_assoc]

/-- The parts with their separators are the text. Splitting only decides where a separator counts, and not
in backticks, and never takes anything else away. -/
theorem join_split (sep : UInt8) (quoted : Bool) (t : Text) :
    Text.join [sep] (split sep quoted t) = t := by
  induction t generalizing quoted with
  | nil => rfl
  | cons b rest ih =>
    rw [split]
    split
    · next hb =>
      rw [Bool.and_eq_true, beq_iff_eq] at hb
      rw [join_cons _ _ (split_ne_nil sep false rest), ih, hb.1]
      rfl
    · have hhead := join_modifyHead [sep] [b]
        (split_ne_nil sep (quoted != (b == byte '\x60')) rest)
      rw [ih] at hhead
      exact hhead

theorem modifyHead_append (p q : Text) (ts : List Text) :
    (ts.modifyHead (q ++ ·)).modifyHead (p ++ ·) = ts.modifyHead (p ++ q ++ ·) := by
  cases ts <;> simp [List.modifyHead, List.append_assoc]

/-- A byte that separates nothing goes to the part in which it stands: a byte other than the separator, or a
separator between backticks. -/
theorem split_keep {sep b : UInt8} {quoted : Bool} (hb : b ≠ sep ∨ quoted = true) (rest : Text) :
    split sep quoted (b :: rest)
      = (split sep (quoted != (b == byte '\x60')) rest).modifyHead ([b] ++ ·) := by
  rw [split, if_neg]
  · rfl
  · rintro h
    rw [Bool.and_eq_true, beq_iff_eq, Bool.not_eq_true'] at h
    rcases hb with hb | hb
    · exact hb h.1
    · rw [hb] at h
      cases h.2

/-- A text that no separator outside backticks stands in, and that closes its backticks. -/
def Whole (sep : UInt8) (p : Text) : Prop :=
  ∀ rest, split sep false (p ++ rest) = (split sep false rest).modifyHead (p ++ ·)

theorem Whole.nil (sep : UInt8) : Whole sep [] := by
  intro rest
  rw [List.nil_append]
  cases split sep false rest <;> rfl

/-- Whole texts one behind the other are whole, because each closes its backticks. -/
theorem Whole.append {sep : UInt8} {p q : Text} (hp : Whole sep p) (hq : Whole sep q) :
    Whole sep (p ++ q) := by
  intro rest
  rw [List.append_assoc, hp, hq, modifyHead_append]

theorem Whole.split_eq {sep : UInt8} {p : Text} (hp : Whole sep p) : split sep false p = [p] := by
  have h := hp []
  rw [List.append_nil] at h
  rw [h]
  simp [split, List.modifyHead]

/-- The first part of several. -/
theorem Whole.split_sep {sep : UInt8} {p : Text} (hp : Whole sep p) (rest : Text) :
    split sep false (p ++ [sep] ++ rest) = p :: split sep false rest := by
  rw [List.append_assoc, hp, List.singleton_append, split, if_pos (by simp)]
  simp [List.modifyHead]

/-- Bytes other than the separator and the backtick are kept whole, as none of them separates and none opens
a quotation. -/
theorem Whole.of_bytes {sep : UInt8} {p : Text} (hp : ∀ b ∈ p, b ≠ sep ∧ b ≠ byte '\x60') :
    Whole sep p := by
  induction p with
  | nil => exact Whole.nil sep
  | cons b p ih =>
    obtain ⟨hsep, htick⟩ := hp b List.mem_cons_self
    have hb : Whole sep [b] := by
      intro rest
      rw [List.singleton_append, split_keep (.inl hsep), beq_false_of_ne htick, bne_self_eq_false]
    exact hb.append (ih fun c hc => hp c (List.mem_cons_of_mem _ hc))

/-- The inside of a quoted name with the backtick that closes it. -/
theorem split_doubled {sep : UInt8} (hsep : sep ≠ byte '\x60') (name rest : Text) :
    split sep true (doubled name ++ [byte '\x60'] ++ rest)
      = (split sep false rest).modifyHead (doubled name ++ [byte '\x60'] ++ ·) := by
  induction name with
  | nil => exact split_keep (.inr rfl) rest
  | cons b name ih =>
    have hcons : doubled (b :: name)
        = (if b == byte '\x60' then [b, b] else [b]) ++ doubled name := List.flatMap_cons
    rw [hcons, List.append_assoc, List.append_assoc, ← List.append_assoc (doubled name)]
    by_cases hb : b == byte '\x60'
    -- The first of two backticks seems to close the name, the second opens it again.
    · have hne : b ≠ sep := by
        rw [beq_iff_eq.mp hb]
        exact Ne.symm hsep
      rw [if_pos hb, List.cons_append, split_keep (.inr rfl), List.singleton_append,
        split_keep (.inl (by simpa [hb] using hne)), hb]
      simp only [bne_self_eq_false, Bool.false_bne, ih, modifyHead_append]
      rfl
    · rw [if_neg hb, List.singleton_append, split_keep (.inr rfl), Bool.eq_false_iff.mpr hb,
        Bool.bne_false, ih, modifyHead_append]
      rfl

/-- A quoted name is a backtick, the name with its backticks doubled, and a backtick. The reader works on
this form. -/
theorem identifier_eq (name : Text) : identifier name = byte '\x60' :: (doubled name ++ [byte '\x60']) :=
  rfl

/-- A quoted name is whole for every separator but the backtick: what is inside does not separate. -/
theorem Whole.identifier {sep : UInt8} (hsep : sep ≠ byte '\x60') (name : Text) :
    Whole sep (identifier name) := by
  intro rest
  rw [identifier_eq, List.cons_append, split_keep (.inl (Ne.symm hsep)), beq_self_eq_true]
  exact (congrArg _ (split_doubled hsep name rest)).trans (modifyHead_append _ _ _)

/-- Whole parts that are joined by a separator are split at it again. A path is written in this way with
dots, and a projection with commas. -/
theorem split_join {sep : UInt8} {parts : List Text} (hne : parts ≠ [])
    (hparts : ∀ p ∈ parts, Whole sep p) : split sep false (Text.join [sep] parts) = parts := by
  induction parts with
  | nil => exact absurd rfl hne
  | cons p parts ih =>
    have hp := hparts p List.mem_cons_self
    cases parts with
    | nil => exact hp.split_eq
    | cons q parts =>
      rw [join_cons _ _ (List.cons_ne_nil _ _), hp.split_sep,
        ih (List.cons_ne_nil _ _) fun r hr => hparts r (List.mem_cons_of_mem _ hr)]

/-! ## Names -/

/-- A byte of a word differs from every byte that is in none. -/
theorem ne_of_isWordByte {b c : UInt8} (hb : isWordByte b) (hc : isWordByte c = false) : b ≠ c := by
  rintro rfl
  rw [hb] at hc
  cases hc

theorem not_space_of_isWordByte {b : UInt8} (hb : isWordByte b) : isSpace b = false := by
  rw [Bool.eq_false_iff]
  intro hspace
  simp only [isSpace, Bool.or_eq_true, beq_iff_eq] at hspace
  rcases hspace with ((rfl | rfl) | rfl) | rfl <;> revert hb <;> decide

/-- A bare name has a first byte, and all its bytes are those of words. -/
theorem bytes_of_isBareName {t : Text} (ht : isBareName t) :
    (∃ b rest, t = b :: rest) ∧ (∀ b ∈ t, isWordByte b) ∧
      keywords.contains (t.map Text.lowerAscii) = false := by
  rw [isBareName, Bool.and_eq_true, Bool.and_eq_true, Bool.not_eq_true', List.all_eq_true] at ht
  obtain ⟨⟨hhead, hall⟩, hkeyword⟩ := ht
  refine ⟨?_, hall, hkeyword⟩
  cases t with
  | nil => cases hhead
  | cons b rest => exact ⟨b, rest, rfl⟩

theorem undoubled_cons {b : UInt8} (hb : b ≠ byte '\x60') (t : Text) :
    undoubled (b :: t) = b :: undoubled t := by
  cases t with
  | nil => rfl
  | cons c t => rw [undoubled, beq_false_of_ne hb, Bool.false_and, if_neg Bool.false_ne_true]

theorem doubled_cons (b : UInt8) (name : Text) :
    doubled (b :: name) = (if b == byte '\x60' then [b, b] else [b]) ++ doubled name :=
  List.flatMap_cons

/-- Taking two backticks for one undoes the doubling. The induction is on the name, and the case of a
backtick takes two bytes at once. -/
theorem undoubled_doubled (name : Text) : undoubled (doubled name) = name := by
  induction name with
  | nil => rfl
  | cons b name ih =>
    rw [doubled_cons]
    by_cases hb : b == byte '\x60'
    · rw [if_pos hb]
      show undoubled (b :: b :: doubled name) = _
      rw [undoubled, hb, Bool.and_self, if_pos rfl, ih]
    · rw [if_neg hb, List.singleton_append, undoubled_cons (ne_of_beq_false (by simpa using hb)), ih]

/-- A quoted name is read as the name. It is never taken for a bare one, as it begins with a backtick. -/
theorem name?_identifier (name : Text) : name? (identifier name) = some name := by
  have hbare : isBareName (identifier name) = false := by
    rw [identifier_eq]
    rfl
  have hinner : ((identifier name).drop 1).dropLast = doubled name := by
    rw [identifier_eq, List.drop_succ_cons, List.drop_zero, List.dropLast_concat]
  rw [name?, hbare, hinner, undoubled_doubled]
  simp

/-- A text that is a name is that name, or the name between backticks. -/
theorem text_of_name? {t name : Text} (h : name? t = some name) :
    (t = name ∧ isBareName name) ∨ t = identifier name := by
  rw [name?] at h
  split at h
  · next hbare =>
    cases h
    exact .inl ⟨rfl, hbare⟩
  · dsimp only at h
    split at h
    · next heq =>
      cases h
      exact .inr (beq_iff_eq.mp heq).symm
    · cases h

/-! ## An item that is read as a field is written like it -/

/-- How many blanks and backticks a text begins with. -/
def margin : Text → Nat
  | [] => 0
  | b :: rest => if isSpace b || b == byte '\x60' then margin rest + 1 else 0

theorem margin_spaces {a : Text} (ha : ∀ b ∈ a, isSpace b) (t : Text) :
    margin (a ++ t) = a.length + margin t := by
  induction a with
  | nil => simp
  | cons b a ih =>
    rw [List.cons_append, margin, ha b List.mem_cons_self, Bool.true_or, if_pos rfl,
      ih fun c hc => ha c (List.mem_cons_of_mem _ hc), List.length_cons]
    omega

theorem margin_tick (t : Text) : margin (byte '\x60' :: t) = margin t + 1 := by
  rw [margin, beq_self_eq_true, Bool.or_true, if_pos rfl]

/-- Quoting a name does not shorten what it begins with: a backtick in the name is doubled, and the one at
the end counts for as much as what would stand there without quoting. -/
theorem margin_doubled (name : Text) {u : Text} (hu : margin u ≤ 1) (w : Text) :
    margin (name ++ u) ≤ margin (doubled name ++ byte '\x60' :: w) := by
  induction name with
  | nil =>
    show margin u ≤ margin (byte '\x60' :: w)
    rw [margin_tick]
    omega
  | cons b name ih =>
    rw [doubled_cons, List.cons_append, margin]
    by_cases hb : b == byte '\x60'
    · rw [if_pos hb, hb, Bool.or_true, if_pos rfl, beq_iff_eq.mp hb]
      show _ ≤ margin (byte '\x60' :: byte '\x60' :: (doubled name ++ byte '\x60' :: w))
      rw [margin_tick, margin_tick]
      omega
    · rw [if_neg hb]
      show _ ≤ margin (b :: (doubled name ++ byte '\x60' :: w))
      rw [margin]
      split
      · omega
      · omega

/-- A text that begins with a name does not begin with the same name between backticks, unless more
backticks or blanks follow. -/
theorem ne_quoted {a name u w : Text} (ha : ∀ b ∈ a, isSpace b) (hu : margin u ≤ 1) :
    name ++ u ≠ a ++ (identifier name ++ w) := by
  intro h
  have hmargin := congrArg margin h
  have hle := margin_doubled name hu w
  rw [margin_spaces ha, identifier_eq, List.cons_append, margin_tick, List.append_assoc,
    List.singleton_append] at hmargin
  omega

/-- There is no white space in front of a text that begins with another byte. -/
theorem spaces_nil {a t u : Text} {b : UInt8} (ha : ∀ c ∈ a, isSpace c) (hb : isSpace b = false)
    (h : b :: t = a ++ u) : a = [] := by
  cases a with
  | nil => rfl
  | cons c a =>
    rw [List.cons_append, List.cons.injEq] at h
    have hc := ha c List.mem_cons_self
    rw [← h.1, hb] at hc
    cases hc

/-- Names that are read from the same text as they make are bare. -/
theorem names_forced {names texts : List Text} {a u w : Text}
    (hnames : texts.map name? = names.map some) (hne : names ≠ []) (ha : ∀ b ∈ a, isSpace b)
    (hu : margin u ≤ 1)
    (heq : Text.join [byte '.'] names ++ u = a ++ (Text.join [byte '.'] texts ++ w)) :
    a = [] ∧ (∀ n ∈ names, isBareName n) ∧ u = w := by
  induction names generalizing texts a with
  | nil => exact absurd rfl hne
  | cons n names ih =>
    obtain ⟨t, texts, rfl⟩ : ∃ t ts, texts = t :: ts := by
      cases texts with
      | nil => cases hnames
      | cons t ts => exact ⟨t, ts, rfl⟩
    rw [List.map_cons, List.map_cons, List.cons.injEq] at hnames
    obtain ⟨hname, hrest⟩ := hnames
    -- What follows the first name and its text.
    obtain ⟨u', w', hu', heq', hend⟩ : ∃ u' w', margin u' ≤ 1 ∧ n ++ u' = a ++ (t ++ w') ∧
        (u' = w' → (∀ m ∈ names, isBareName m) ∧ u = w) := by
      cases names with
      | nil =>
        cases texts with
        | nil => exact ⟨u, w, hu, heq, fun h => ⟨by simp, h⟩⟩
        | cons t' ts => cases hrest
      | cons m names =>
        cases texts with
        | nil => cases hrest
        | cons t' ts =>
          rw [join_cons _ _ (List.cons_ne_nil _ _), join_cons _ _ (List.cons_ne_nil _ _)] at heq
          simp only [List.append_assoc] at heq
          refine ⟨_, _, ?_, heq, fun h => ?_⟩
          · have hdot : margin ([byte '.'] ++ (Text.join [byte '.'] (m :: names) ++ u)) = 0 := rfl
            omega
          · have hjoin := List.append_cancel_left h
            obtain ⟨-, hbare, huw⟩ := ih hrest (List.cons_ne_nil _ _) (a := []) (by simp) hjoin
            exact ⟨hbare, huw⟩
    rcases text_of_name? hname with ⟨rfl, hbare⟩ | rfl
    · obtain ⟨⟨b, rest, rfl⟩, hbytes, -⟩ := bytes_of_isBareName hbare
      have hspace := not_space_of_isWordByte (hbytes b List.mem_cons_self)
      obtain rfl := spaces_nil ha hspace heq'
      obtain ⟨hall, huw⟩ := hend (List.append_cancel_left heq')
      refine ⟨rfl, ?_, huw⟩
      intro m hm
      rcases List.mem_cons.mp hm with rfl | hm
      · exact hbare
      · exact hall m hm
    · exact absurd heq' (ne_quoted ha hu')

/-- Trimming splits off white space at both ends and keeps the rest. This says what an item was before it
was trimmed. -/
theorem trim_spec (t : Text) :
    ∃ a b, (∀ c ∈ a, isSpace c) ∧ (∀ c ∈ b, isSpace c) ∧ t = a ++ (trim t ++ b) := by
  refine ⟨t.takeWhile isSpace, ((t.dropWhile isSpace).reverse.takeWhile isSpace).reverse,
    List.all_eq_true.mp List.all_takeWhile, fun c hc => ?_, ?_⟩
  · exact List.all_eq_true.mp List.all_takeWhile c (List.mem_reverse.mp hc)
  · rw [trim, Text.dropEndWhile, ← List.reverse_append, List.takeWhile_append_dropWhile,
      List.reverse_reverse, List.takeWhile_append_dropWhile]

/-- The names of an item that is read as a field. With a scope the first name is the scope, and the field is
the path of the others, of which there is one at least. -/
theorem names_of_field? {scope item field : Text} (h : field? scope item = some field) :
    ∃ names : List Text, names ≠ [] ∧ field = Text.join [byte '.'] names ∧
      (split (byte '.') false (trim item)).map name?
        = ((if scope.isEmpty then [] else [scope]) ++ names).map some := by
  rw [field?] at h
  cases hnames : (split (byte '.') false (trim item)).mapM name? with
  | none => simp [hnames] at h
  | some names =>
    have hmap := mapM_eq_some_iff.mp hnames
    rw [hnames, Option.bind_some] at h
    unfold pathOf? at h
    split at h
    · next hscope =>
      cases h
      refine ⟨names, ?_, rfl, by rw [if_pos hscope, List.nil_append, hmap]⟩
      rintro rfl
      exact split_ne_nil _ _ _ (List.map_eq_nil_iff.mp hmap)
    · next hscope =>
      split at h
      · next qualifier n rest =>
        split at h
        · next heq =>
          cases h
          refine ⟨n :: rest, List.cons_ne_nil _ _, rfl, ?_⟩
          rw [if_neg hscope, hmap, beq_iff_eq.mp heq]
          rfl
        · cases h
      · cases h

/-- Bare names joined by dots are a path, with these names and no others. -/
theorem isPath_join {names : List Text} (hne : names ≠ []) (hnames : ∀ n ∈ names, isBareName n) :
    isPath (Text.join [byte '.'] names) := by
  have hwhole : ∀ n ∈ names, Whole (byte '.') n := by
    intro n hn
    obtain ⟨-, hbytes, -⟩ := bytes_of_isBareName (hnames n hn)
    exact Whole.of_bytes fun b hb =>
      ⟨ne_of_isWordByte (hbytes b hb) (by decide), ne_of_isWordByte (hbytes b hb) (by decide)⟩
  rw [isPath, split_join hne hwhole, List.all_eq_true]
  exact hnames

/-- The column of a field in a scope. -/
theorem column_eq (scope field : Text) :
    Select.column scope field
      = (if scope.isEmpty then [] else identifier scope ++ [byte '.']) ++ field := by
  rw [Select.column]
  split <;> rfl

/-- If the column of a field is written where an item is read as the field, then the field is a path
of bare names and the item is written like the column, up to white space behind it. -/
theorem item_forced {scope item field u v : Text} (hitem : field? scope item = some field)
    (hu : margin u ≤ 1) (heq : Select.column scope field ++ u = item ++ v) :
    isPath field ∧ ∃ b, (∀ c ∈ b, isSpace c) ∧ u = b ++ v := by
  obtain ⟨names, hne, rfl, hnames⟩ := names_of_field? hitem
  obtain ⟨a, b, ha, hb, htrim⟩ := trim_spec item
  have hjoin := join_split (byte '.') false (trim item)
  rw [column_eq, htrim, ← hjoin] at heq
  simp only [List.append_assoc] at heq
  by_cases hscope : scope.isEmpty
  · rw [if_pos hscope] at heq hnames
    obtain ⟨-, hbare, huv⟩ := names_forced hnames hne ha hu heq
    exact ⟨isPath_join hne hbare, b, hb, huv⟩
  · rw [if_neg hscope] at heq hnames
    obtain ⟨t, texts, htexts⟩ := List.exists_cons_of_ne_nil
      (split_ne_nil (byte '.') false (trim item))
    rw [htexts, List.map_cons, List.singleton_append, List.map_cons, List.cons.injEq] at hnames
    obtain ⟨hqualifier, hrest⟩ := hnames
    have htexts' : texts ≠ [] := by
      rintro rfl
      exact hne (List.map_eq_nil_iff.mp hrest.symm)
    rw [htexts, join_cons _ _ htexts'] at heq
    simp only [List.append_assoc] at heq
    -- The column begins with a backtick, so the item does, and its first name is quoted.
    obtain rfl := spaces_nil ha (by decide) heq
    rcases text_of_name? hqualifier with ⟨rfl, hbare⟩ | rfl
    · obtain ⟨⟨c, rest, rfl⟩, hbytes, -⟩ := bytes_of_isBareName hbare
      have htick : byte '\x60' = c := (List.cons.inj heq).1
      exact absurd htick.symm (ne_of_isWordByte (hbytes c List.mem_cons_self) (by decide))
    · have hrestEq := List.append_cancel_left (List.append_cancel_left heq)
      obtain ⟨-, hbare, huv⟩ := names_forced (a := []) hrest hne (by simp) hu hrestEq
      exact ⟨isPath_join hne hbare, b, hb, huv⟩

/-- Fields that are read from the text of their columns are paths of bare names. -/
theorem fields_forced {scope : Text} {fs items : List Text} {u v : Text}
    (hitems : items.map (field? scope) = fs.map some) (hu : margin u ≤ 1)
    (heq : Text.join [byte ','] (fs.map (Select.column scope)) ++ u
      = Text.join [byte ','] items ++ v) : ∀ f ∈ fs, isPath f := by
  induction fs generalizing items with
  | nil => simp
  | cons f fs ih =>
    obtain ⟨item, items, rfl⟩ : ∃ i is, items = i :: is := by
      cases items with
      | nil => cases hitems
      | cons i is => exact ⟨i, is, rfl⟩
    rw [List.map_cons, List.map_cons, List.cons.injEq] at hitems
    obtain ⟨hitem, hrest⟩ := hitems
    cases fs with
    | nil =>
      obtain rfl : items = [] := List.map_eq_nil_iff.mp hrest
      obtain ⟨hf, -⟩ := item_forced hitem hu heq
      simpa using hf
    | cons g fs =>
      have hitems : items ≠ [] := by
        rintro rfl
        cases hrest
      rw [List.map_cons, join_cons _ _ (by simp), join_cons _ _ hitems] at heq
      simp only [List.append_assoc] at heq
      have hcomma : margin ([byte ','] ++ (Text.join [byte ','] ((g :: fs).map (Select.column scope))
          ++ u)) = 0 := rfl
      obtain ⟨hf, b, hb, hsep⟩ := item_forced hitem (by omega) heq
      -- No white space stands before the comma, so both sides go on with the next field.
      obtain rfl := spaces_nil hb (by decide) hsep
      intro h hh
      rcases List.mem_cons.mp hh with rfl | hh
      · exact hf
      · exact ih hrest (List.append_cancel_left hsep) h hh

end DocFilter.Projection
