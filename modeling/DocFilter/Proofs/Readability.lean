import DocFilter.Proofs.Storage

/-!
Which stored documents can be read. What is written is always well-formed but for its numbers: words
and floating-point numbers have numerals that are read back, but a kept numeral is written as it came.
It only has to consist of the bytes of numbers, and this is true of texts such as `1-2` or `1e999`,
which no reader takes. Inside a document every number is read once before it is written; in tables and
lists this check is missing. Such a numeral is *stray*. What is written can also be too deep: the
writer follows collections as far as they go, and the reader gives up on too many within each other.

A value with a stray numeral outside of documents, or with collections so deep that a row with it is too
deep, is *unreadable*. Main results: a row that is written can be read back exactly if none of its values
is unreadable (`Row.decode_iff`), and a row that was read has no such value (`Row.settled_of_decode`).
-/

set_option autoImplicit false

namespace DocFilter

open Number (double)

/-! ## Numbers of trees -/

namespace Json

/-- Whether a numeral can be read: it begins like a number and has a place among those of 64 bits. -/
def readsNumber (t : Text) : Bool := beginsNumber t && (Number.readBinary double t).toOption.isSome

/-- The test of a numeral as two statements: it begins like a number, and it has a value. A numeral may pass
the one and fail the other. -/
theorem readsNumber_iff {t : Text} :
    readsNumber t = true ↔ beginsNumber t = true ∧ ∃ x, Number.readBinary double t = .ok x := by
  unfold readsNumber
  rw [Bool.and_eq_true]
  cases Number.readBinary double t with
  | error e => simp [Except.toOption]
  | ok x => simp [Except.toOption]

/-- The tree can be read back from its written form, and has a value. -/
def Sound (j : Json) : Prop := j.readable = true ∧ ∃ w, j.repaired.toValue = .ok w

/-- A number is sound exactly if its numeral can be read. Numbers are where soundness is decided;
collections only hand it on. -/
theorem sound_number {t : Text} : (number t).Sound ↔ readsNumber t = true := by
  rw [readsNumber_iff]
  refine and_congr_right fun _ => ?_
  show (∃ w, (number t).toValue = .ok w) ↔ _
  rw [toValue]
  cases Number.readBinary double t with
  | error e => exact iff_of_false (by rintro ⟨w, ⟨⟩⟩) (by rintro ⟨w, ⟨⟩⟩)
  | ok x => exact iff_of_true ⟨_, rfl⟩ ⟨x, rfl⟩

/-- An array is sound exactly if its elements are: it is written with them and read with them, one after the
other. -/
theorem sound_array {items : List Json} : (array items).Sound ↔ ∀ j ∈ items, j.Sound := by
  have hvalue : (∃ w, (array items).repaired.toValue = .ok w) ↔
      ∀ j ∈ items, ∃ w, j.repaired.toValue = .ok w := by
    rw [repaired, repairedItems_eq, toValue]
    -- reading the array reads each element, and elements that are read make an array
    constructor
    · rintro ⟨w, hw⟩ j hj
      obtain ⟨vs, hvs, -⟩ := bind_eq_ok hw
      exact ⟨_, (toValues_ok.1 hvs).2 _ (List.mem_map_of_mem hj)⟩
    · intro h
      obtain ⟨vs, hvs⟩ : ∃ vs, toValues (items.map repaired) = .ok vs := by
        refine ⟨_, toValues_ok.2 ⟨rfl, fun j hj => ?_⟩⟩
        obtain ⟨i, hi, rfl⟩ := List.mem_map.1 hj
        obtain ⟨w, hw⟩ := h i hi
        rw [hw, value_of_toValue hw]
      rw [hvs]
      exact ⟨_, rfl⟩
  unfold Sound
  rw [hvalue, readable, readableItems_iff]
  exact ⟨fun h j hj => ⟨h.1 j hj, h.2 j hj⟩, fun h => ⟨fun j hj => (h j hj).1, fun j hj => (h j hj).2⟩⟩

/-- An object is sound exactly if the values of its members are. Names can be anything, since they are
repaired and never refused. -/
theorem sound_object {members : List (Text × Json)} :
    (object members).Sound ↔ ∀ m ∈ members, m.2.Sound := by
  have hvalue : (∃ w, (object members).repaired.toValue = .ok w) ↔
      ∀ m ∈ members, ∃ w, m.2.repaired.toValue = .ok w := by
    rw [repaired, repairedMembers_eq, toValue]
    constructor
    · rintro ⟨w, hw⟩ m hm
      obtain ⟨es, hes, -⟩ := bind_eq_ok hw
      exact ⟨_, (toEntries_ok.1 hes).2 _ (List.mem_map_of_mem hm)⟩
    · intro h
      -- the entries are there if each value is, whatever their names
      obtain ⟨es, hes⟩ : ∃ es, toEntries (members.map fun m => (Text.repaired m.1, m.2.repaired)) = .ok es := by
        refine ⟨_, toEntries_ok.2 ⟨rfl, fun m hm => ?_⟩⟩
        obtain ⟨i, hi, rfl⟩ := List.mem_map.1 hm
        obtain ⟨w, hw⟩ := h i hi
        rw [hw, value_of_toValue hw]
      rw [hes]
      exact ⟨_, rfl⟩
  unfold Sound
  rw [hvalue, readable, readableMembers_iff]
  exact ⟨fun h m hm => ⟨h.1 m hm, h.2 m hm⟩, fun h => ⟨fun m hm => (h m hm).1, fun m hm => (h m hm).2⟩⟩

/-- The check of elements goes through exactly if the check of each does. -/
theorem checkItems_ok {items : List Json} :
    checkItems items = .ok () ↔ ∀ j ∈ items, checkNumbers j = .ok () := by
  induction items with
  | nil => simp [checkItems]
  | cons j rest ih =>
    rw [List.forall_mem_cons, ← ih, checkItems]
    cases checkNumbers j with
    | error e => exact iff_of_false (by rintro ⟨⟩) (by rintro ⟨⟨⟩, -⟩)
    | ok done => exact ⟨fun h => ⟨rfl, h⟩, fun h => h.2⟩

/-- The check of members goes through exactly if the check of each value does. -/
theorem checkMembers_ok {members : List (Text × Json)} :
    checkMembers members = .ok () ↔ ∀ m ∈ members, checkNumbers m.2 = .ok () := by
  induction members with
  | nil => simp [checkMembers]
  | cons m rest ih =>
    rw [List.forall_mem_cons, ← ih, checkMembers]
    cases checkNumbers m.2 with
    | error e => exact iff_of_false (by rintro ⟨⟩) (by rintro ⟨⟨⟩, -⟩)
    | ok done => exact ⟨fun h => ⟨rfl, h⟩, fun h => h.2⟩

/-- A numeral that the check lets pass can be read, for the check reads it. Only the empty text passes
unread; it is never written, because a kept numeral without digits is written as zero. -/
theorem readsNumber_of_checkNumber {t : Text} (ht : t ≠ []) (h : checkNumber t = .ok ()) :
    readsNumber t = true := by
  rw [readsNumber_iff]
  unfold checkNumber at h
  cases t with
  | nil => exact absurd rfl ht
  | cons b rest =>
    dsimp only at h
    split at h
    · next hbegins =>
      refine ⟨hbegins, ?_⟩
      cases hread : Number.readBinary double (b :: rest) with
      | error e =>
        rw [hread] at h
        cases h
      | ok x => exact ⟨x, rfl⟩
    · cases h

/-- A tree whose numbers have been checked can be read back. Only numbers are ever refused, so the check
looks at all that matters. The induction is on the tree. -/
theorem sound_of_checkNumbers (j : Json) : j.Numeric → checkNumbers j = .ok () → j.Sound := by
  induction j using Json.inductionOn with
  | scalar j harray hobject =>
    intro hj hcheck
    cases j with
    | null | bool b | string t => exact ⟨rfl, _, rfl⟩
    | number t => exact sound_number.2 (readsNumber_of_checkNumber hj.1 hcheck)
    | array items => exact absurd rfl (harray items)
    | object members => exact absurd rfl (hobject members)
  | array items ih =>
    intro hj hcheck
    rw [checkNumbers, checkItems_ok] at hcheck
    exact sound_array.2 fun i hi => ih i hi (numericItems_iff.1 hj i hi) (hcheck i hi)
  | object members ih =>
    intro hj hcheck
    rw [checkNumbers, checkMembers_ok] at hcheck
    exact sound_object.2 fun m hm => ih m hm (numericMembers_iff.1 hj m hm) (hcheck m hm)

end Json

/-! ## Numbers of values -/

/-- The words of every type have at most 64 bits. So they lie in the range of numbers of 64 bits, although
not all of them are such numbers exactly. -/
theorem IntType.natAbs_lt_of_holds {ty : IntType} {n : Int} (h : ty.holds n = true) : n.natAbs < 2 ^ 64 := by
  have hpos : 0 < Nat.pow 2 ty.bits := Nat.pow_pos (by decide)
  have hle : Nat.pow 2 ty.bits ≤ 2 ^ 64 := by cases ty <;> decide
  unfold holds wrap at h
  rw [beq_iff_eq] at h
  split at h
  · -- with a sign the words are the remainders around zero
    have hlow := Int.le_bmod (x := n) hpos
    have hhigh := Int.bmod_lt (x := n) hpos
    rw [h] at hlow hhigh
    omega
  · have hlow := Int.emod_nonneg n (Int.natCast_ne_zero.2 hpos.ne')
    have hhigh := Int.emod_lt_of_pos n (Int.natCast_pos.2 hpos)
    rw [h] at hlow hhigh
    omega

namespace Value

mutual

/-- Whether a value can exist: its integers are words of their types, and its floating-point numbers
are numbers of their formats. -/
def proper : Value → Bool
  | .int ty n => ty.holds n
  | .float ty (.finite _ m e) => decide (ty.format.Canonical m e)
  | .ref (some n) => IntType.int.holds n
  | .doc fields => properEntries fields
  | .list _ items => properItems items
  | .table _ entries => properEntries entries
  | _ => true

/-- Whether all elements can exist. -/
def properItems : List Value → Bool
  | [] => true
  | v :: rest => v.proper && properItems rest

/-- Whether all entries can exist. -/
def properEntries : List (Text × Value) → Bool
  | [] => true
  | (_, v) :: rest => v.proper && properEntries rest

end

mutual

/-- Whether a value holds a stray numeral outside of documents: a kept numeral that cannot be read. -/
def stray : Value → Bool
  | .numeral t => !t.isEmpty && !Json.readsNumber t
  | .list _ items => strayItems items
  | .table _ entries => strayEntries entries
  | _ => false

/-- Whether an element holds a stray numeral. -/
def strayItems : List Value → Bool
  | [] => false
  | v :: rest => v.stray || strayItems rest

/-- Whether an entry holds a stray numeral. -/
def strayEntries : List (Text × Value) → Bool
  | [] => false
  | (_, v) :: rest => v.stray || strayEntries rest

end

/-- The elements of a list can exist exactly if each of them can. -/
theorem properItems_iff {items : List Value} :
    properItems items = true ↔ ∀ v ∈ items, v.proper = true := by
  induction items with
  | nil => simp [properItems]
  | cons v rest ih => simp [properItems, ih]

/-- The entries of a table can exist exactly if each value can. -/
theorem properEntries_iff {entries : List (Text × Value)} :
    properEntries entries = true ↔ ∀ e ∈ entries, e.2.proper = true := by
  induction entries with
  | nil => simp [properEntries]
  | cons e rest ih => simp [properEntries, ih]

/-- A list is free of stray numerals exactly if its elements are. -/
theorem strayItems_iff {items : List Value} :
    strayItems items = false ↔ ∀ v ∈ items, v.stray = false := by
  induction items with
  | nil => simp [strayItems]
  | cons v rest ih => simp [strayItems, ih]

/-- A table is free of stray numerals exactly if its values are. -/
theorem strayEntries_iff {entries : List (Text × Value)} :
    strayEntries entries = false ↔ ∀ e ∈ entries, e.2.stray = false := by
  induction entries with
  | nil => simp [strayEntries]
  | cons e rest ih => simp [strayEntries, ih]

end Value

/-- A word is written with digits and perhaps a sign, and can be read, if only as the nearest number of 64
bits. -/
theorem readsNumber_word {n : Int} (hn : n.natAbs < 2 ^ 64) : Json.readsNumber (Text.ofInt n) = true := by
  refine Json.readsNumber_iff.2 ⟨?_, Number.readBinary_word hn⟩
  have hbegins := beginsNumber_signed (Number.reads_ofNat n.natAbs) (decide (n < 0))
  simpa only [Text.ofInt, decide_eq_true_eq] using hbegins

/-- A floating-point number is written as a numeral that can be read. For the single format the digits are
those of 32 bits, and the reader takes them for a number of 64. -/
theorem readsNumber_float {ty : FloatType} {s : Bool} {m : Nat} {e : Int}
    (hc : ty.format.Canonical m e) :
    Json.readsNumber (Number.Layout.interchange.write ty.format (.finite s m e)) = true := by
  have hmodest : ty.format.Modest := by
    cases ty
    · exact Number.double_modest
    · exact Number.single_modest
  refine Json.readsNumber_iff.2 ⟨beginsNumber_signed (Number.Layout.interchange.body_reads hmodest hc) s, ?_⟩
  cases ty with
  | double => exact ⟨_, Number.readBinary_write Number.double_modest _ s hc⟩
  | single => exact Number.readBinary_single _ s hc

/-- A kept numeral is written as it is, and the empty one as zero. -/
theorem sound_numeralJson {t : Text} {j : Json} (h : numeralJson t = .ok j) :
    j.Sound ↔ (Value.numeral t).stray = false := by
  unfold numeralJson at h
  unfold Value.stray
  split at h
  · next hempty =>
    cases h
    rw [Json.sound_number, hempty]
    exact iff_of_true (readsNumber_word (n := 0) (by decide)) rfl
  · next hempty =>
    split at h
    · cases h
      rw [Json.sound_number, Bool.eq_false_iff.2 hempty]
      simp
    · cases h

/-- **What can be read back.** The tree of a value can be read back exactly if the value holds no stray
numeral outside of documents. -/
theorem Value.sound_iff (v : Value) : v.proper = true → ∀ {j : Json}, v.toJson = .ok j →
    (j.Sound ↔ v.stray = false) := by
  induction v using Value.inductionOn with
  | scalar v hv =>
    intro hproper j h
    cases v with
    | int ty n =>
      cases h
      exact iff_of_true (Json.sound_number.2 (readsNumber_word (IntType.natAbs_lt_of_holds hproper))) rfl
    | float ty x =>
      cases x with
      | finite s m e =>
        cases h
        exact iff_of_true (Json.sound_number.2 (readsNumber_float (of_decide_eq_true hproper))) rfl
      | nan => cases h
      | infinite s => cases h
    | numeral t => exact sound_numeralJson h
    | ref target =>
      cases target with
      | none =>
        cases h
        exact iff_of_true ⟨rfl, _, rfl⟩ rfl
      | some n =>
        cases h
        exact iff_of_true (Json.sound_number.2 (readsNumber_word (IntType.natAbs_lt_of_holds hproper))) rfl
    | doc fields => cases hv
    | list ty items => cases hv
    | table ty entries => cases hv
    | _ =>
      cases h
      exact iff_of_true ⟨rfl, _, rfl⟩ rfl
  | doc fields _ =>
    intro _ j h
    -- the numbers of a document have been checked
    have hnumeric := numeric_toJson (.doc fields) h
    obtain ⟨rfl, -, hchecked⟩ := doc_toJson_ok.1 h
    exact iff_of_true (Json.sound_of_checkNumbers _ hnumeric hchecked) rfl
  | list ty items ih =>
    intro hproper j h
    obtain ⟨rfl, hall⟩ := list_toJson_ok.1 h
    rw [Json.sound_array, List.forall_mem_map]
    refine Iff.trans (forall₂_congr fun v hv => ?_) strayItems_iff.symm
    exact ih v hv (properItems_iff.1 hproper v hv) (hall v hv)
  | table ty entries ih =>
    intro hproper j h
    obtain ⟨rfl, hall⟩ := table_toJson_ok.1 h
    rw [Json.sound_object, List.forall_mem_map]
    -- the members stand in the order of their written names
    have hperm := Json.byWrittenName_perm entries
    refine Iff.trans ?_ strayEntries_iff.symm
    constructor
    · intro hsound e he
      exact (ih e he (properEntries_iff.1 hproper e he) (hall e he)).1 (hsound e (hperm.mem_iff.2 he))
    · intro hstray e he
      have he := hperm.mem_iff.1 he
      exact (ih e he (properEntries_iff.1 hproper e he) (hall e he)).2 (hstray e he)

/-! ## What is read -/

namespace Json

/-- The values that an open collection holds so far, the last first. -/
def Open.held : Open → List Json
  | .key members _ | .colon members _ | .value members _ | .member members => members.map Prod.snd
  | .item items _ | .element items => items

/-- The collection that an open one is when it ends. -/
def Open.whole : Open → Json
  | .key members _ | .colon members _ | .value members _ | .member members => .object members.reverse
  | .item items _ | .element items => .array items.reverse

/-- The collections that are open, from the innermost on. -/
def State.stack : State → List Open
  | .within inner outer => inner :: outer
  | _ => []

/-- What one lexeme can do. -/
inductive Turn (s : State) : Token → State → Prop
  /-- It opens a collection, which holds nothing yet. -/
  | opens {t : Token} (o : Open) : t = .openObject ∨ t = .openArray → o.held = [] →
      Turn s t (.within o s.stack)
  /-- It is a value of its own. -/
  | delivers {j : Json} {s' : State} : deliver? j s.stack = some s' → Turn s (.scalar j) s'
  /-- It ends the innermost collection, which becomes a value of the one around it. -/
  | closes {t : Token} {inner : Open} {outer : List Open} {s' : State} :
      t = .closeObject ∨ t = .closeArray → s = .within inner outer →
      deliver? inner.whole outer = some s' → Turn s t s'
  /-- It stands between the values of a collection. -/
  | passes {t : Token} {inner : Open} {outer : List Open} (inner' : Open) :
      t = .comma ∨ t = .colon ∨ (∃ k, t = .scalar (.string k)) → s = .within inner outer →
      inner'.held = inner.held → Turn s t (.within inner' outer)

/-- At a place for a value a lexeme opens a collection or is a value of its own; all others are refused
there. -/
theorem turn_of_begin? {s s' : State} {t : Token} (h : begin? s.stack t = some s') : Turn s t s' := by
  cases t with
  | openObject =>
    cases h
    exact .opens _ (.inl rfl) rfl
  | openArray =>
    cases h
    exact .opens _ (.inr rfl) rfl
  | scalar j => exact .delivers h
  | _ => cases h

/-- **One lexeme.** Whatever the parser does with a lexeme is one of the four: it opens a collection,
delivers a scalar, closes a collection, or passes on within one. The cases are what it waits for. -/
theorem turn_of_step? {s s' : State} {t : Token} (h : step? s t = some s') : Turn s t s' := by
  cases s with
  | start => exact turn_of_begin? h
  | finished j => cases h
  | within inner outer =>
    cases inner with
    -- in an object: a name or the end, a colon, a value, and then a comma or the end
    | key members first =>
      unfold step? at h
      dsimp only at h
      split at h
      · cases h
        exact .passes _ (.inr (.inr ⟨_, rfl⟩)) rfl rfl
      · split at h
        · exact .closes (.inl rfl) rfl h
        · cases h
      · cases h
    | colon members k =>
      unfold step? at h
      dsimp only at h
      split at h
      · cases h
        exact .passes _ (.inr (.inl rfl)) rfl rfl
      · cases h
    | value members k => exact turn_of_begin? h
    | member members =>
      unfold step? at h
      dsimp only at h
      split at h
      · cases h
        exact .passes _ (.inl rfl) rfl rfl
      · exact .closes (.inl rfl) rfl h
      · cases h
    -- in an array: an element or the end, and then a comma or the end
    | item items first =>
      unfold step? at h
      dsimp only at h
      split at h
      · split at h
        · exact .closes (.inr rfl) rfl h
        · cases h
      · exact turn_of_begin? h
    | element items =>
      unfold step? at h
      dsimp only at h
      split at h
      · cases h
        exact .passes _ (.inl rfl) rfl rfl
      · exact .closes (.inr rfl) rfl h
      · cases h

/-- A value that is delivered is the whole document, or the last in the innermost collection. No collection
loses what it held before. -/
theorem deliver?_cases {j : Json} {stack : List Open} {s : State} (h : deliver? j stack = some s) :
    (stack = [] ∧ s = .finished j) ∨
      ∃ inner outer o, stack = inner :: outer ∧ s = .within o outer ∧ o.held = j :: inner.held := by
  cases stack with
  | nil =>
    cases h
    exact .inl ⟨rfl, rfl⟩
  | cons inner outer =>
    obtain ⟨o, ho, rfl⟩ := Option.map_eq_some_iff.1 h
    refine .inr ⟨inner, outer, o, rfl, rfl, ?_⟩
    unfold Open.put? at ho
    split at ho
    · cases ho
      rfl
    · cases ho
      rfl
    · cases ho

/-- A lexeme that is a value of its own is no collection, and a number consists of the bytes of
numbers. -/
def Token.Plain : Token → Prop
  | .scalar j => j.Numeric ∧ j.depth = 0
  | _ => True

/-- All numbers that have been read consist of the bytes of numbers. -/
def State.Numeric : State → Prop
  | .finished j => j.Numeric
  | s => ∀ o ∈ s.stack, ∀ j ∈ o.held, j.Numeric

/-- A lexeme that is a value is a string, a number of the bytes of numbers, or one of the constants. None of
these is a collection. -/
theorem token?_plain {b : UInt8} {rest after : Text} {t : Token} (h : token? b rest = some (t, after)) :
    t.Plain := by
  unfold token? at h
  split_ifs at h with h₁ h₂ h₃ h₄ h₅ h₆ hquote hnumber
  -- brackets, colons and commas
  iterate 6
    · cases h
      trivial
  · obtain ⟨r, -, h⟩ := Option.bind_eq_some_iff.1 h
    cases h
    exact ⟨trivial, rfl⟩
  · cases h
    -- the first byte is a digit or a sign, and the others are taken while they go on
    have hfirst : ∀ b : UInt8, (Text.isDigit b || b == Text.byte '-') = true →
        Lexeme.continuesNumber b = true := Text.forall_byte (by decide +kernel)
    refine ⟨⟨List.cons_ne_nil _ _, List.forall_mem_cons.2 ⟨hfirst b hnumber, fun c hc => ?_⟩⟩, rfl⟩
    exact List.all_eq_true.1 List.all_takeWhile c hc
  · -- a word for a constant
    obtain ⟨⟨word, j⟩, hmem, h⟩ := List.exists_of_findSome?_eq_some h
    obtain ⟨_, -, h⟩ := Option.map_eq_some_iff.1 h
    cases h
    simp only [constants, List.mem_cons, Prod.mk.injEq, List.not_mem_nil, or_false] at hmem
    rcases hmem with ⟨-, rfl⟩ | ⟨-, rfl⟩ | ⟨-, rfl⟩ <;> exact ⟨trivial, rfl⟩

/-- The same for all lexemes of a text. The induction is on the steps that the lexer counts. -/
theorem tokens?_plain {steps : Nat} {text : Text} {ts : List Token} (h : tokens? steps text = some ts) :
    ∀ t ∈ ts, t.Plain := by
  induction steps generalizing text ts with
  | zero =>
    cases text with
    | nil =>
      cases h
      exact nofun
    | cons b rest => cases h
  | succ steps ih =>
    cases text with
    | nil =>
      cases h
      exact nofun
    | cons b rest =>
      rw [tokens?] at h
      split at h
      · exact ih h
      · obtain ⟨⟨t, after⟩, ht, h⟩ := Option.bind_eq_some_iff.1 h
        obtain ⟨more, hmore, h⟩ := Option.bind_eq_some_iff.1 h
        cases h
        exact List.forall_mem_cons.2 ⟨token?_plain ht, ih hmore⟩

/-- What is closed is what was collected, in reverse, so its numbers are those that were there. -/
theorem numeric_whole {o : Open} (h : ∀ j ∈ o.held, j.Numeric) : o.whole.Numeric := by
  have hmembers : ∀ members : List (Text × Json), (∀ j ∈ members.map Prod.snd, j.Numeric) →
      (object members.reverse).Numeric := fun members hall =>
    numericMembers_iff.2 fun m hm => hall m.2 (List.mem_map_of_mem (List.mem_reverse.1 hm))
  have hitems : ∀ items : List Json, (∀ j ∈ items, j.Numeric) → (array items.reverse).Numeric :=
    fun items hall => numericItems_iff.2 fun j hj => hall j (List.mem_reverse.1 hj)
  cases o with
  | key members _ | colon members _ | value members _ | member members => exact hmembers members h
  | item items _ | element items => exact hitems items h

/-- Delivering a value puts it beside values that were there, or makes it the whole document. -/
theorem deliver?_numeric {j : Json} {stack : List Open} {s : State} (h : deliver? j stack = some s)
    (hj : j.Numeric) (hstack : ∀ o ∈ stack, ∀ j ∈ o.held, j.Numeric) : s.Numeric := by
  rcases deliver?_cases h with ⟨-, rfl⟩ | ⟨inner, outer, o, rfl, rfl, ho⟩
  · exact hj
  · obtain ⟨hinner, houter⟩ := List.forall_mem_cons.1 hstack
    refine List.forall_mem_cons.2 ⟨?_, houter⟩
    rw [ho]
    exact List.forall_mem_cons.2 ⟨hj, hinner⟩

/-- One lexeme adds no number of other bytes. Scalars are numeric as the lexer makes them, and a collection
that is closed holds numeric trees only. -/
theorem step?_numeric {s s' : State} {t : Token} (h : step? s t = some s') (hs : s.Numeric)
    (ht : t.Plain) : s'.Numeric := by
  -- the invariant, as a statement on all open collections
  have hstack : ∀ o ∈ s.stack, ∀ j ∈ o.held, j.Numeric := by
    cases s with
    | finished j => exact nofun
    | start | within inner outer => exact hs
  cases turn_of_step? h with
  | opens o _ ho =>
    refine List.forall_mem_cons.2 ⟨?_, hstack⟩
    rw [ho]
    exact nofun
  | delivers hdeliver => exact deliver?_numeric hdeliver ht.1 hstack
  | closes _ hwithin hdeliver =>
    subst hwithin
    obtain ⟨hinner, houter⟩ := List.forall_mem_cons.1 hstack
    exact deliver?_numeric hdeliver (numeric_whole hinner) houter
  | passes inner' _ hwithin hheld =>
    subst hwithin
    obtain ⟨hinner, houter⟩ := List.forall_mem_cons.1 hstack
    exact List.forall_mem_cons.2 ⟨hheld ▸ hinner, houter⟩

/-- A whole run of the parser adds no number of other bytes. The induction is on the lexemes, with
`step?_numeric` for each. -/
theorem foldlM_numeric {ts : List Token} {s s' : State} (h : ts.foldlM step? s = some s')
    (hs : s.Numeric) (hts : ∀ t ∈ ts, t.Plain) : s'.Numeric := by
  induction ts generalizing s with
  | nil =>
    cases h
    exact hs
  | cons t rest ih =>
    obtain ⟨ht, hrest⟩ := List.forall_mem_cons.1 hts
    obtain ⟨s₁, hs₁, h⟩ := Option.bind_eq_some_iff.1 h
    exact ih h (step?_numeric hs₁ hs ht) hrest

/-- The numbers of what is read consist of the bytes of numbers. -/
theorem numeric_of_parse {raw : Text} {j : Json} (h : parse raw = .ok j) : j.Numeric := by
  unfold parse at h
  split at h
  · next heq =>
    cases h
    obtain ⟨ts, hts, hfold⟩ := Option.bind_eq_some_iff.1 heq
    exact foldlM_numeric hfold nofun (tokens?_plain hts)
  · cases h

/-! ## How deep what is read stands -/

/-- What open collections hold keeps within a limit, which is `n` in the innermost one: around it the
limit is greater by one, and where nothing is open it is the whole. -/
def StackWithin : (n : Nat) → List Open → Prop
  | n, [] => n = maxDepth
  | n, o :: outer => (∀ j ∈ o.held, j.depth ≤ n) ∧ StackWithin (n + 1) outer

/-- The same for all that has been read. -/
def State.Within (n : Nat) (s : State) : Prop :=
  StackWithin n s.stack ∧ ∀ j, s = .finished j → j.depth ≤ n

theorem depth_whole {o : Open} {n : Nat} (h : ∀ j ∈ o.held, j.depth ≤ n) : o.whole.depth ≤ n + 1 := by
  have hmembers : ∀ members : List (Text × Json), (∀ j ∈ members.map Prod.snd, j.depth ≤ n) →
      (object members.reverse).depth ≤ n + 1 := fun members hall =>
    Nat.succ_le_succ (depthOfMembers_le.2 fun m hm => hall m.2 (List.mem_map_of_mem (List.mem_reverse.1 hm)))
  have hitems : ∀ items : List Json, (∀ j ∈ items, j.depth ≤ n) → (array items.reverse).depth ≤ n + 1 :=
    fun items hall => Nat.succ_le_succ (depthOfItems_le.2 fun j hj => hall j (List.mem_reverse.1 hj))
  cases o with
  | key members _ | colon members _ | value members _ | member members => exact hmembers members h
  | item items _ | element items => exact hitems items h

/-- A value that keeps within the limit of the innermost collection leaves all within their limits. -/
theorem deliver?_within {j : Json} {stack : List Open} {s : State} {n : Nat}
    (h : deliver? j stack = some s) (hj : j.depth ≤ n) (hstack : StackWithin n stack) : s.Within n := by
  rcases deliver?_cases h with ⟨rfl, rfl⟩ | ⟨inner, outer, o, rfl, rfl, ho⟩
  · exact ⟨hstack, fun j' hj' => by cases hj'; exact hj⟩
  · refine ⟨⟨?_, hstack.2⟩, nofun⟩
    rw [ho]
    exact List.forall_mem_cons.2 ⟨hj, hstack.1⟩

/-- One lexeme that keeps within the limit leaves what is read within the limit that it leaves. The limit
goes down by one when a collection is opened, and up again when it is closed. -/
theorem step?_within {s s' : State} {t : Token} {rest : List Token} {n : Nat} (h : step? s t = some s')
    (hs : s.Within n) (ht : t.Plain) (hopens : opensWithin n (t :: rest) = true) :
    ∃ n', s'.Within n' ∧ opensWithin n' rest = true := by
  obtain ⟨hstack, -⟩ := hs
  cases turn_of_step? h with
  | opens o hbracket ho =>
    have hroom : 0 < n ∧ opensWithin (n - 1) rest = true := by
      rcases hbracket with rfl | rfl <;> simpa [opensWithin] using hopens
    refine ⟨n - 1, ⟨⟨?_, ?_⟩, nofun⟩, hroom.2⟩
    · rw [ho]
      exact nofun
    · rwa [Nat.sub_add_cancel hroom.1]
  | delivers hdeliver => exact ⟨n, deliver?_within hdeliver (ht.2.trans_le (Nat.zero_le n)) hstack, hopens⟩
  -- the collection is one deeper than what it holds, and that is what the limit gains
  | closes hbracket hwithin hdeliver =>
    subst hwithin
    have hmore : opensWithin (n + 1) rest = true := by rcases hbracket with rfl | rfl <;> exact hopens
    exact ⟨n + 1, deliver?_within hdeliver (depth_whole hstack.1) hstack.2, hmore⟩
  | passes inner' hsign hwithin hheld =>
    subst hwithin
    have hmore : opensWithin n rest = true := by rcases hsign with rfl | rfl | ⟨k, rfl⟩ <;> exact hopens
    exact ⟨n, ⟨⟨hheld ▸ hstack.1, hstack.2⟩, nofun⟩, hmore⟩

/-- A whole run of the parser keeps within the limits, if the lexemes do. The limit at the end is not said
here; where nothing is open it is the whole again. -/
theorem foldlM_within {ts : List Token} {s s' : State} {n : Nat} (h : ts.foldlM step? s = some s')
    (hs : s.Within n) (hts : ∀ t ∈ ts, t.Plain) (hopens : opensWithin n ts = true) :
    ∃ n', s'.Within n' := by
  induction ts generalizing s n with
  | nil =>
    cases h
    exact ⟨n, hs⟩
  | cons t rest ih =>
    obtain ⟨ht, hrest⟩ := List.forall_mem_cons.1 hts
    obtain ⟨s₁, hs₁, h⟩ := Option.bind_eq_some_iff.1 h
    obtain ⟨n₁, hwithin, hopens₁⟩ := step?_within hs₁ hs ht hopens
    exact ih h hwithin hrest hopens₁

/-- What is read is what the parser gives. The reader only refuses, it changes nothing. -/
theorem parse_of_read {raw : Text} {j : Json} (h : read raw = .ok j) : parse raw = .ok j := by
  unfold read at h
  split at h
  · exact h
  · cases h

/-- What is read is not too deep: the limit that was looked for in the lexemes holds of the tree that they
make. At the start the whole limit is left, and nothing is open. -/
theorem depth_of_read {raw : Text} {j : Json} (h : read raw = .ok j) : j.depth ≤ maxDepth := by
  have hparse := parse_of_read h
  unfold parse at hparse
  split at hparse
  · next heq =>
    cases hparse
    obtain ⟨ts, hts, hfold⟩ := Option.bind_eq_some_iff.1 heq
    -- the text was not refused, so its lexemes keep within the limit
    have hopens : opensWithin maxDepth ts = true := by
      by_contra hopens
      rw [read, hts, Option.map_some, Option.getD_some, if_neg hopens] at h
      cases h
    obtain ⟨n, hstack, hdepth⟩ := foldlM_within hfold ⟨rfl, fun _ hj => by cases hj⟩ (tokens?_plain hts) hopens
    -- the document is finished, so nothing is open
    have hn : n = maxDepth := hstack
    exact hn ▸ hdepth j rfl
  · cases hparse

end Json

/-- What is read can exist and holds no stray numeral: all its numbers are numbers of 64 bits, which are
canonical as they were rounded. The induction is on the tree. -/
theorem Json.proper_of_toValue (j : Json) : j.Numeric → ∀ {v : Value}, j.toValue = .ok v →
    v.proper = true ∧ v.stray = false := by
  induction j using Json.inductionOn with
  | scalar j harray hobject =>
    intro hj v h
    cases j with
    | null | bool b | string t =>
      cases h
      exact ⟨rfl, rfl⟩
    | number literal =>
      obtain ⟨s, m, e, hc, -, rfl⟩ := toValue_number hj h
      exact ⟨decide_eq_true hc, rfl⟩
    | array items => exact absurd rfl (harray items)
    | object members => exact absurd rfl (hobject members)
  | array items ih =>
    intro hj v h
    rw [toValue] at h
    obtain ⟨vs, hvs, h⟩ := bind_eq_ok h
    cases h
    obtain ⟨rfl, hall⟩ := toValues_ok.1 hvs
    have hsettled : ∀ v ∈ items.map value, v.proper = true ∧ v.stray = false := by
      intro v hv
      obtain ⟨i, hi, rfl⟩ := List.mem_map.1 hv
      exact ih i hi (numericItems_iff.1 hj i hi) (hall i hi)
    exact ⟨Value.properItems_iff.2 fun v hv => (hsettled v hv).1,
      Value.strayItems_iff.2 fun v hv => (hsettled v hv).2⟩
  | object members ih =>
    intro hj v h
    rw [toValue] at h
    obtain ⟨es, hes, h⟩ := bind_eq_ok h
    cases h
    obtain ⟨rfl, hall⟩ := toEntries_ok.1 hes
    -- of members with one name the last stays, and it is one of them
    have hsettled : ∀ e ∈ Row.ofList (members.map fun m => (m.1, m.2.value)),
        e.2.proper = true ∧ e.2.stray = false := by
      intro e he
      obtain ⟨m, hm, rfl⟩ := List.mem_map.1 ((Row.mem_merge he).resolve_left List.not_mem_nil)
      exact ih m hm (numericMembers_iff.1 hj m hm) (hall m hm)
    exact ⟨Value.properEntries_iff.2 fun e he => (hsettled e he).1,
      Value.strayEntries_iff.2 fun e he => (hsettled e he).2⟩

/-! ## Rows -/

/-- Whether a row that has the value cannot be read: the value holds a stray numeral outside of
documents, or its collections are too deep once they stand in a row. -/
def Value.unreadable (v : Value) : Bool := v.stray || decide (Json.maxDepth ≤ v.depth)

/-- A value is readable in a row if it has no stray numeral and leaves room for the row around it. -/
theorem Value.unreadable_eq_false {v : Value} :
    v.unreadable = false ↔ v.stray = false ∧ v.depth < Json.maxDepth := by
  rw [unreadable, Bool.or_eq_false_iff, decide_eq_false_iff_not, Nat.not_le]

/-- A value that a row can have in storage: it can exist and is not unreadable. -/
def Value.Settled (v : Value) : Prop := v.proper = true ∧ v.unreadable = false

namespace Row

/-- **A row that was read is settled**: its values can exist, hold no stray numerals, and leave room for the
row around them. They can be written and read again. -/
theorem settled_of_decode {raw : Text} {row : Row} (h : Row.decode raw = .ok (some row)) :
    ∀ e ∈ row, e.2.Settled := by
  obtain ⟨j, hread, hrow⟩ :=
    bind_eq_ok (mapError_eq_ok.1 h : (Json.read raw).bind Json.toRow = .ok (some row))
  cases j with
  | object members =>
    -- the row is the one in the table that the object stands for
    have hvalue : (Json.object members).toValue = .ok (.table .any row) := by
      rw [Json.toRow] at hrow
      rw [Json.toValue]
      obtain ⟨es, hes, hrow⟩ := bind_eq_ok hrow
      obtain rfl := Option.some.inj (Except.ok.inj hrow)
      rw [hes]
      rfl
    have hnumeric := Json.numeric_of_parse (Json.parse_of_read hread)
    obtain ⟨hproper, hstray⟩ := Json.proper_of_toValue _ hnumeric hvalue
    have hdeep := depth_le_iff.1 ((Json.depth_of_toValue _ hvalue).trans (Json.depth_of_read hread))
    exact fun e he => ⟨Value.properEntries_iff.1 hproper e he,
      Value.unreadable_eq_false.2 ⟨Value.strayEntries_iff.1 hstray e he, hdeep e he⟩⟩
  | _ => cases hrow

/-- **Which rows can be read back.** A row that is written is read back exactly if none of its values is
unreadable. -/
theorem decode_iff {row : Row} {raw : Text} (h : Row.encode (some row) = .ok raw)
    (hproper : ∀ e ∈ row, e.2.proper = true) :
    (∃ r, Row.decode raw = .ok r) ↔ ∀ e ∈ row, e.2.unreadable = false := by
  obtain ⟨j, hj, -⟩ := bind_eq_ok (mapError_eq_ok.1 h : (Value.table .any row).encode = .ok raw)
  -- the row is a table, and the text can be read exactly if the tree of the table can
  have hsound : (∃ r, Row.decode raw = .ok r) ↔ j.Sound ∧ j.depth ≤ Json.maxDepth := by
    have hreturned := Value.returned_of_toJson hj
    constructor
    · rintro ⟨r, hr⟩
      obtain ⟨row', -, hback⟩ := (decode_of_encode h).1 hr
      rw [hreturned] at hback
      split at hback
      · next hread => exact ⟨⟨hread.1, _, toOption_eq_some_iff.1 hback⟩, hread.2⟩
      · cases hback
    · rintro ⟨⟨hreadable, w, hw⟩, hdepth⟩
      rw [if_pos ⟨hreadable, hdepth⟩, hw] at hreturned
      obtain ⟨ms, rfl⟩ : ∃ ms, j = .object ms := ⟨_, (Value.table_toJson_ok.1 hj).1⟩
      rw [Json.repaired, Json.toValue] at hw
      obtain ⟨es, -, hes⟩ := bind_eq_ok hw
      obtain rfl := Except.ok.inj hes
      exact ⟨_, (decode_of_encode h).2 ⟨_, rfl, hreturned⟩⟩
  rw [hsound, Value.sound_iff (.table .any row) (Value.properEntries_iff.2 hproper) hj,
    Value.depth_of_toJson _ hj, depth_le_iff]
  simp only [Value.unreadable_eq_false, forall_and]
  exact and_congr_left fun _ => Value.strayEntries_iff

end Row
end DocFilter
