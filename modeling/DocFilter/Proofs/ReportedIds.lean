import DocFilter.Proofs.DocumentMap
import DocFilter.Proofs.PlainNumbers
import DocFilter.Proofs.UntouchedFields

/-!
Ids that documents report. A new document is stored under the text of its id as it was given, and is
returned as it was read back, with the id that it then has. Between the two the id is written and read, and
its text may become another one: an integer is rounded, bytes are spelled in letters, a time changes its
form (`Value.reportedText`). Main result (`Service.create_reported`): a document reports the id that it is
stored under just if the id keeps its text (`Value.KeepsId`), and whoever asks for another id that it
reports finds what was stored under that one before.
-/

set_option autoImplicit false

namespace DocFilter

open Number (double Exact Layout)
open Service (idText typeField)
open Text (byte)

/-! ## Texts that are not repaired -/

namespace Text

theorem ascii_base64Letter (n : Nat) : (base64Letter n).toNat < 128 := by
  have hletter : ∀ i : Fin 63, (base64Letter i).toNat < 128 := by decide
  by_cases hn : n < 63
  · exact hletter ⟨n, hn⟩
  · unfold base64Letter
    rw [if_neg (by omega), if_neg (by omega), if_neg (by omega), if_neg (by simpa using (by omega : n ≠ 62))]
    decide

/-- Spelled bytes are characters below 128, and so survive storage unchanged. The induction takes three
bytes at a time, as the spelling does. -/
theorem ascii_toBase64 (bytes : List UInt8) : ∀ b ∈ toBase64 bytes, b.toNat < 128 := by
  have hpad : (byte '=').toNat < 128 := by decide
  induction bytes using toBase64.induct with
  | case1 => simp [toBase64]
  | case2 a => simp [toBase64, ascii_base64Letter, hpad]
  | case3 a b => simp [toBase64, ascii_base64Letter, hpad]
  | case4 a b c rest ih =>
    simp only [toBase64, List.forall_mem_cons]
    exact ⟨ascii_base64Letter _, ascii_base64Letter _, ascii_base64Letter _, ascii_base64Letter _, ih⟩

/-- Three bytes, or what is left of them, are spelled in four letters. -/
theorem length_toBase64 (bytes : List UInt8) : (toBase64 bytes).length = 4 * ((bytes.length + 2) / 3) := by
  induction bytes using toBase64.induct with
  | case1 | case2 | case3 => simp [toBase64]
  | case4 a b c rest ih =>
    simp only [toBase64, List.length_cons, ih]
    omega

/-- No bytes are spelled by themselves, but for none at all: four letters spell three bytes. -/
theorem toBase64_eq_self_iff {bytes : List UInt8} : toBase64 bytes = bytes ↔ bytes = [] := by
  constructor
  · intro h
    have hlength := length_toBase64 bytes
    rw [h] at hlength
    exact List.length_eq_zero_iff.1 (by omega)
  · rintro rfl
    rfl

theorem ascii_padded (width n : Nat) : ∀ b ∈ padded width n, b.toNat < 128 := by
  intro b hb
  rcases List.mem_append.1 hb with hb | hb
  · rw [List.eq_of_mem_replicate hb]
    decide
  · have hdigit := Number.isDigit_chars (fun _ hc => Number.digit_of_mem_toDigits hc) b hb
    rw [isDigit, Bool.and_eq_true, decide_eq_true_eq, decide_eq_true_eq, UInt8.le_iff_toNat_le,
      UInt8.le_iff_toNat_le] at hdigit
    exact lt_of_le_of_lt hdigit.2 (by decide)

end Text

namespace Timestamp

/-- The fraction of a time is written in characters below 128. -/
theorem ascii_fraction (t : Timestamp) : ∀ b ∈ t.fraction, b.toNat < 128 := by
  unfold fraction
  split
  · simp
  · refine List.forall_mem_cons.2 ⟨by decide, fun b hb => ?_⟩
    have hdropped := List.mem_reverse.1 hb
    exact Text.ascii_padded 9 _ b (List.mem_reverse.1 ((List.dropWhile_sublist _).mem hdropped))

/-- The form used in interchange is spelled in letters, digits and signs. -/
theorem isUtf8_interchange (t : Timestamp) : Text.isUtf8 t.interchange = true := by
  refine Text.isUtf8_of_ascii ?_
  have hall : (["-", ":", "T", "Z", "+"].all fun word =>
      (Text.ofString word).all fun b => decide (b.toNat < 128)) = true := by
    decide
  have hword : ∀ word ∈ ["-", ":", "T", "Z", "+"], ∀ b ∈ Text.ofString word, b.toNat < 128 :=
    fun word hword b hb => of_decide_eq_true (List.all_eq_true.1 (List.all_eq_true.1 hall word hword) b hb)
  have hoffset : ∀ minutes : Int, ∀ b ∈ offsetText ":" minutes, b.toNat < 128 := by
    intro minutes
    unfold offsetText
    simp only [List.forall_mem_append]
    refine ⟨⟨⟨?_, Text.ascii_padded 2 _⟩, hword ":" (by decide)⟩, Text.ascii_padded 2 _⟩
    split
    · exact hword "-" (by decide)
    · exact hword "+" (by decide)
  -- piece by piece, as the text is put together
  unfold interchange date clock
  simp only [List.forall_mem_append, and_assoc]
  refine ⟨Text.ascii_padded 4 _, hword "-" (by decide), Text.ascii_padded 2 _, hword "-" (by decide),
    Text.ascii_padded 2 _, hword "T" (by decide), Text.ascii_padded 2 _, hword ":" (by decide),
    Text.ascii_padded 2 _, hword ":" (by decide), Text.ascii_padded 2 _, t.ascii_fraction, ?_⟩
  split
  · exact hword "Z" (by decide)
  · exact hoffset _

/-- The two forms differ behind the date. -/
theorem interchange_ne_display (t : Timestamp) : t.interchange ≠ t.display := by
  intro h
  simp only [interchange, display, List.append_assoc, List.append_cancel_left_eq] at h
  have hletter : byte 'T' = byte ' ' := (List.cons.inj h).1
  exact absurd hletter (by decide)

end Timestamp

/-! ## What becomes of an id -/

/-- The text of the number of 64 bits that a text is read as. -/
def Number.reread (t : Text) : Text :=
  match Number.readBinary double t with
  | .ok x => Layout.plain.write double x
  | .error _ => []

/-- A text that is read as a number comes back as that number is written, in the plain layout. -/
theorem Number.reread_of_readBinary {t : Text} {x : Number.Binary} (h : Number.readBinary double t = .ok x) :
    Number.reread t = Layout.plain.write double x := by
  rw [reread, h]

namespace Value

/-- The text of a value as an id once it was stored. -/
def reportedText : Value → Text
  | .bool b => boolText b
  | .text t | .label t => Text.repaired t
  | .int _ n | .ref (some n) => Number.reread (Text.ofInt n)
  | .float ty x => Layout.plain.write ty.format x
  | .numeral t => Number.reread (if t.isEmpty then "0" else t)
  | .bytes b => Text.toBase64 b
  | .time t => t.interchange
  | .null | .ref none | .doc _ | .list _ _ | .table _ _ | .noTable => []

/-- A value whose text as an id is the same before and after it is stored. -/
def KeepsId : Value → Prop
  | .text t | .label t => Text.isUtf8 t = true
  | .int _ n | .ref (some n) => Exact (Text.ofInt n)
  | .numeral t => t ≠ [] ∧ Number.reread t = t
  | .bytes b => b = []
  | .time _ => False
  | _ => True

/-- Integers below `2 ^ 53` keep their text, for they are exact as floating-point numbers. -/
theorem keepsId_of_small (ty : IntType) {n : Int} (hn : n.natAbs < 2 ^ 53) : (Value.int ty n).KeepsId :=
  Number.exact_ofInt hn

/-- What a value is stored as, and what is read from that. -/
structure Returns (v w : Value) : Prop where
  written : v.toJson = .ok v.tree
  read : v.tree.repaired.toValue = .ok w

namespace Returns

variable {v w : Value}

/-- A value that is stored as a text comes back as the repaired text. -/
theorem string {t : Text} (h : Returns v w) (ht : v.toJson = .ok (.string t)) :
    w = .text (Text.repaired t) := by
  have hread := h.read
  rw [tree_of_toJson ht] at hread
  exact (Except.ok.inj hread).symm

/-- A value that is stored as a number comes back as a finite floating-point number, which is what its
numeral is read as. -/
theorem number {t : Text} (h : Returns v w) (ht : v.toJson = .ok (.number t)) :
    ∃ s m e, double.Canonical m e ∧ Number.readBinary double t = .ok (.finite s m e) ∧
      w = .float .double (.finite s m e) := by
  have hread := h.read
  rw [tree_of_toJson ht] at hread
  exact Json.toValue_number (v.numeric_toJson ht) hread

/-- The id that a number reports is the text of its numeral, read and written again. -/
theorem idText_number {t : Text} (h : Returns v w) (ht : v.toJson = .ok (.number t)) :
    idText w = Number.reread t := by
  obtain ⟨s, m, e, -, hread, rfl⟩ := h.number ht
  exact (Number.reread_of_readBinary hread).symm

theorem idText_array {items : List Json} (h : Returns v w) (ht : v.tree = .array items) : idText w = [] := by
  have hread := h.read
  rw [ht, Json.repaired, Json.toValue] at hread
  obtain ⟨vs, -, hread⟩ := bind_eq_ok hread
  obtain rfl := Except.ok.inj hread
  rfl

theorem idText_object {members : List (Text × Json)} (h : Returns v w) (ht : v.tree = .object members) :
    idText w = [] := by
  have hread := h.read
  rw [ht, Json.repaired, Json.toValue] at hread
  obtain ⟨es, -, hread⟩ := bind_eq_ok hread
  obtain rfl := Except.ok.inj hread
  rfl

/-- **The id that is reported.** A text is repaired, an integer and a numeral become the text of a number of
64 bits, bytes and times are spelled out, and a collection has no text. -/
theorem idText_eq (h : Returns v w) (hproper : v.proper = true) : idText w = v.reportedText := by
  cases v with
  | null | bool | noTable =>
    obtain rfl := Except.ok.inj h.read
    rfl
  | text t | label t =>
    obtain rfl := h.string rfl
    rfl
  | int ty n => exact h.idText_number rfl
  | ref target =>
    cases target with
    | none =>
      obtain rfl := Except.ok.inj h.read
      rfl
    | some n => exact h.idText_number rfl
  | float ty x =>
    cases x with
    | nan | infinite => cases h.written
    | finite s m e =>
      have hc := of_decide_eq_true hproper
      obtain ⟨s', m', e', -, hread, rfl⟩ := h.number rfl
      -- a number of 64 bits is read as itself, one of 32 bits as another with the same plain text
      cases ty with
      | single => exact Number.plain_of_single _ hc hread
      | double =>
        rw [show FloatType.format .double = double from rfl,
          Number.readBinary_write Number.double_modest _ s hc] at hread
        rw [← Except.ok.inj hread]
        rfl
  | numeral t =>
    refine h.idText_number ?_
    have hwritten : numeralJson t = .ok (Value.numeral t).tree := h.written
    show numeralJson t = _
    unfold numeralJson at hwritten ⊢
    split
    · rfl
    · next hne =>
      rw [if_neg hne] at hwritten
      split at hwritten
      · next hall => rw [if_pos hall]
      · cases hwritten
  | bytes b =>
    obtain rfl := h.string rfl
    exact Text.repaired_of_isUtf8 (Text.isUtf8_of_ascii (Text.ascii_toBase64 b))
  | time t =>
    obtain rfl := h.string rfl
    exact Text.repaired_of_isUtf8 t.isUtf8_interchange
  | doc fields => exact h.idText_object (doc_toJson_ok.1 h.written).1
  | list ty items => exact h.idText_array (list_toJson_ok.1 h.written).1
  | table ty entries => exact h.idText_object (table_toJson_ok.1 h.written).1

/-- An integer keeps its text exactly if its value is the shortest decimal of the floating-point number that
it is read as. -/
theorem reread_ofInt_iff {n : Int} (h : Returns v w) (ht : v.toJson = .ok (.number (Text.ofInt n))) :
    Number.reread (Text.ofInt n) = Text.ofInt n ↔ Exact (Text.ofInt n) := by
  obtain ⟨s, m, e, hc, hread, -⟩ := h.number ht
  rw [Number.reread_of_readBinary hread]
  exact Number.plain_of_integer_iff hc hread

/-- **Which ids keep their texts**, value by value: texts that need no repair, integers that are exact, no
bytes but the empty ones, and so on, as `Value.KeepsId` has it. -/
theorem reportedText_eq_iff (h : Returns v w) : v.reportedText = idText v ↔ v.KeepsId := by
  cases v with
  | null | bool | noTable | float | doc | list | table => exact iff_of_true rfl trivial
  | text t | label t => exact Text.repaired_eq_self_iff
  | int ty n => exact h.reread_ofInt_iff rfl
  | ref target =>
    cases target with
    | none => exact iff_of_true rfl trivial
    | some n => exact h.reread_ofInt_iff rfl
  | numeral t =>
    show Number.reread (if t.isEmpty then "0" else t) = t ↔ t ≠ [] ∧ Number.reread t = t
    -- the empty numeral is written as zero
    by_cases hempty : t = []
    · subst hempty
      exact iff_of_false (by decide +kernel) fun h => h.1 rfl
    · rw [if_neg (by simpa using hempty)]
      exact (and_iff_right hempty).symm
  | bytes b => exact Text.toBase64_eq_self_iff
  | time t => exact iff_false_intro t.interchange_ne_display

end Returns

end Value

/-! ## New documents -/

namespace Service

variable {s : Service} {w w' : World} {id : Text} {r : Option Row}

/-- A document that was written comes back name by name, each value as what is read of it. -/
theorem Wrote.returned {row : Row} {raw : Text} (h : s.Wrote w row id raw (.ok r, w')) :
    ∃ doc, r = some doc ∧
      (∀ name, doc.get? name = (lastNamed? row.renamed name).bind Value.returned) ∧
      ∀ e ∈ row, ∃ u, e.2.returned = some u ∧ Value.Returns e.2 u := by
  obtain ⟨doc, rfl, hback⟩ := (Row.decode_of_encode h.encoded).1 h.decode
  obtain ⟨doc', hdoc', hget, hall⟩ := Value.returned_table hback
  obtain rfl : doc = doc' := (Value.table.inj hdoc').2
  refine ⟨doc, rfl, hget, fun e he => ?_⟩
  obtain ⟨u, hu⟩ := hall e he
  obtain ⟨hwritten, -, -, hread⟩ := Value.returned_eq_some_iff.1 hu
  exact ⟨u, hu, hwritten, hread⟩

/-- What is read under an id is that which the store holds under its key. -/
theorem current_congr (hfault : w'.fault = w.fault)
    (hfind : w'.store.find? (s.key id) = w.store.find? (s.key id)) : s.current w' id = s.current w id := by
  unfold current World.answer
  simp only [hfault, Store.get_eq, hfind]
  cases w.fault .get <;> rfl

/-- Reading after a write: what was written is found under its id, and all else is as before. -/
theorem Wrote.run_get {row : Row} {raw : Text} {out : Except ServiceError (Option Row)}
    (h : s.Wrote w row id raw (out, w')) (asked : Text) :
    Program.run World.answer (s.get asked).run w' = (if asked = id then out else s.current w asked, w') := by
  have hstore : w'.store = w.store.put (s.key id) raw := h.stored
  rw [get_run, run_current]
  by_cases hasked : asked = id
  · rw [if_pos hasked, hasked]
    exact congrArg (·, w') h.answered.symm
  · have hfind : w'.store.find? (s.key asked) = w.store.find? (s.key asked) := by
      rw [hstore, Store.find?_put, if_neg (mt key_inj.1 hasked)]
    rw [if_neg hasked, current_congr h.fault hfind]

/-- The id that the data of a new document gives. It is looked for when the type is set. -/
def given? (s : Service) (data : Row) : Option Value :=
  (data.set typeField (.text s.name)).get? s.idField

/-- The id of a new document. -/
def newId (s : Service) (w : World) (data : Row) : Text :=
  match s.given? data with
  | none | some .null => Uuid.ofRandom (w.randomBytes 16)
  | some v => idText v

/-- A new document as it is written. -/
def newRow (s : Service) (w : World) (data : Row) : Row :=
  match s.given? data with
  | none | some .null => (data.set typeField (.text s.name)).set s.idField (.text (s.newId w data))
  | some _ => data.set typeField (.text s.name)

/-- The id that a document reports. -/
def reportedId (s : Service) (doc : Row) : Text := ((doc.get? s.idField).map idText).getD []

/-- The id that is given, if there is one, keeps its text. -/
def KeepsId (s : Service) (data : Row) : Prop := ∀ v, s.given? data = some v → v.KeepsId

variable {data : Row}

/-- A new document is given an id, or it has one. Null counts as none, and is overwritten by the id that is
given; any other value stays in the document as it is. -/
theorem new_cases (s : Service) (w : World) (data : Row) :
    ((s.given? data = none ∨ s.given? data = some .null) ∧ s.newId w data = Uuid.ofRandom (w.randomBytes 16) ∧
      s.newRow w data = (data.set typeField (.text s.name)).set s.idField (.text (s.newId w data))) ∨
    ∃ v, s.given? data = some v ∧ v ≠ .null ∧ s.newId w data = idText v ∧
      s.newRow w data = data.set typeField (.text s.name) := by
  unfold newRow newId
  cases hgiven : s.given? data with
  | none => exact .inl ⟨.inl rfl, rfl, rfl⟩
  | some v =>
    by_cases hv : v = .null
    · subst hv
      exact .inl ⟨.inr rfl, rfl, rfl⟩
    · refine .inr ⟨v, rfl, hv, ?_⟩
      cases v <;> first | exact ⟨rfl, rfl⟩ | exact absurd rfl hv

/-- A document that is created was written under its id, and the answer is what was read back. Any other
outcome would have been an error. -/
theorem wrote_of_create (hcreate : Program.run World.answer (s.create (some data)).run w = (.ok r, w')) :
    ∃ raw, s.Wrote w (s.newRow w data) (s.newId w data) raw (.ok r, w') := by
  rcases s.new_cases w data with ⟨hgiven, hid, hrow⟩ | ⟨v, hgiven, hv, hid, hrow⟩
  · -- giving an id uses up random bytes, and the store stays as it is
    rw [create_run_fresh hgiven, Program.run] at hcreate
    dsimp only [World.answer] at hcreate
    rw [← hid, ← hrow] at hcreate
    rcases run_writeNew_cases s { w with used := w.used + 16 } (s.newId w data) (s.newRow w data) with
      ⟨e, h⟩ | ⟨raw, h⟩
    · rw [h] at hcreate
      cases hcreate
    · rw [hcreate] at h
      exact ⟨raw, h.encoded, h.stored, h.fault, h.answered⟩
  · rw [create_run_given hgiven hv, ← hid, ← hrow] at hcreate
    rcases run_writeNew_cases s w (s.newId w data) (s.newRow w data) with ⟨e, h⟩ | ⟨raw, h⟩
    · rw [h] at hcreate
      cases hcreate
    · rw [hcreate] at h
      exact ⟨raw, h⟩

/-- The row of a new document has distinct names and values that can exist, if the request has. -/
theorem newRow_wellFormed (hdata : (Request.create (some data)).WellFormed) :
    (s.newRow w data).names.Nodup ∧ ∀ e ∈ s.newRow w data, e.2.proper = true := by
  obtain ⟨hnodup, hproper⟩ := hdata
  have hnodup' := Row.nodup_set hnodup typeField (.text s.name)
  have hproper' := Row.proper_set_text hproper typeField s.name
  rcases s.new_cases w data with ⟨-, -, hrow⟩ | ⟨v, -, -, -, hrow⟩
  · rw [hrow]
    exact ⟨Row.nodup_set hnodup' _ _, Row.proper_set_text hproper' _ _⟩
  · rw [hrow]
    exact ⟨hnodup', hproper'⟩

/-- The id of a new document is that of the value in its field for the id. An id that the service makes up
keeps its text, since it consists of characters. -/
theorem get?_newRow (s : Service) (w : World) (data : Row) :
    ∃ v, (s.newRow w data).get? s.idField = some v ∧ idText v = s.newId w data ∧
      (v.KeepsId ↔ s.KeepsId data) := by
  rcases s.new_cases w data with ⟨hgiven, hid, hrow⟩ | ⟨v, hgiven, -, hid, hrow⟩
  · refine ⟨.text (s.newId w data), ?_, rfl, iff_of_true ?_ fun v hv => ?_⟩
    · rw [hrow, Row.get?_set, if_pos rfl]
    · rw [hid]
      exact Uuid.isUtf8_ofRandom _
    · rcases hgiven with hgiven | hgiven
      · rw [hgiven] at hv
        cases hv
      · obtain rfl := Option.some.inj (hgiven.symm.trans hv)
        trivial
  -- the id that the data has is kept just if its value keeps its text
  · refine ⟨v, hrow ▸ hgiven, hid.symm, fun h v' hv' => ?_, fun h => h v hgiven⟩
    obtain rfl := Option.some.inj (hgiven.symm.trans hv')
    exact h

/-- **Where a new document is found.** A document that was created is found under its id, and under every
other id there is what was there before. If the name of the field for the id is valid UTF-8, the id that the
document reports is the text of its id once it was stored, and that is the id itself just if the id keeps
its text; whatever other names the data has. If the name is not valid, the document has no field of that
name, and reports no id. In either case whoever asks for the id that is reported gets the document if it is
the id of the document, and else only if the same document was there before. -/
theorem create_reported (hdata : (Request.create (some data)).WellFormed)
    (hcreate : Program.run World.answer (s.create (some data)).run w = (.ok r, w')) :
    ∃ doc, r = some doc ∧
      (∀ asked, Program.run World.answer (s.get asked).run w'
        = (if asked = s.newId w data then .ok (some doc) else s.current w asked, w')) ∧
      (Text.isUtf8 s.idField = true →
        s.reportedId doc = (((s.newRow w data).get? s.idField).map Value.reportedText).getD [] ∧
          (s.reportedId doc = s.newId w data ↔ s.KeepsId data)) ∧
      (Text.isUtf8 s.idField = false → s.reportedId doc = []) ∧
      ((Program.run World.answer (s.get (s.reportedId doc)).run w').1 = .ok (some doc) ↔
        s.reportedId doc = s.newId w data ∨ s.current w (s.reportedId doc) = .ok (some doc)) := by
  obtain ⟨raw, hwrote⟩ := wrote_of_create hcreate
  obtain ⟨doc, rfl, hget, hreturns⟩ := hwrote.returned
  obtain ⟨hnodup, hproper⟩ := newRow_wellFormed (s := s) (w := w) hdata
  refine ⟨doc, rfl, hwrote.run_get, fun hutf => ?_, fun hstray => ?_, ?_⟩
  · -- the id stands in the document under the name that it has in the data
    obtain ⟨v, hv, hid, hkeeps⟩ := s.get?_newRow w data
    have hmem := Row.mem_of_get? hv
    obtain ⟨u, hu, hreturned⟩ := hreturns _ hmem
    have hreported : s.reportedId doc = v.reportedText := by
      rw [reportedId, hget, Row.lastNamed?_renamed hnodup hutf hv, Option.bind_some, hu, Option.map_some,
        Option.getD_some]
      exact hreturned.idText_eq (hproper _ hmem)
    rw [hv, ← hkeeps, ← hid, hreported]
    exact ⟨rfl, hreturned.reportedText_eq_iff⟩
  · rw [reportedId, hget, Row.lastNamed?_renamed_of_stray _ hstray]
    rfl
  · rw [hwrote.run_get]
    by_cases hsame : s.reportedId doc = s.newId w data
    · rw [if_pos hsame]
      exact iff_of_true rfl (.inl hsame)
    · rw [if_neg hsame]
      exact (or_iff_right hsame).symm

/-- A note whose id is just above `2 ^ 53`. -/
def wideNote : Row := [("uuid", .int .int64 9007199254740993)]

/-- A note whose id is just below `2 ^ 53`. -/
def narrowNote : Row := [("uuid", .int .int64 9007199254740991)]

/-- The first note cannot be found under the id that it reports, and the second one can. The ids are the
least positive integer that is no floating-point number, and one below `2 ^ 53`. -/
theorem wideNote_lost :
    (∃ doc w', Program.run World.answer (notes.create (some wideNote)).run .quiet = (.ok (some doc), w') ∧
      notes.reportedId doc ≠ notes.newId .quiet wideNote ∧
      Program.run World.answer (notes.get (notes.reportedId doc)).run w'
        = (.error (.ofBackend .keyNotFound), w')) ∧
    ∃ doc w', Program.run World.answer (notes.create (some narrowNote)).run .quiet = (.ok (some doc), w') ∧
      (Program.run World.answer (notes.get (notes.reportedId doc)).run w').1 = .ok (some doc) := by
  have hruns : ∀ out : Except ServiceError (Option Row) × World, out.1.toOption.isSome = true →
      ∃ r w', out = (.ok r, w') := by
    rintro ⟨e | r, w'⟩ h
    · cases h
    · exact ⟨r, w', rfl⟩
  refine ⟨?_, ?_⟩
  · have hwide : (Request.create (some wideNote)).WellFormed := ⟨by decide, by decide⟩
    have hloses : ¬ notes.KeepsId wideNote := fun h => count_not_exact (h _ rfl)
    obtain ⟨r, w', hrun⟩ :=
      hruns (Program.run World.answer (notes.create (some wideNote)).run .quiet) (by decide +kernel)
    obtain ⟨doc, rfl, hfound, hreports, -⟩ := create_reported hwide hrun
    -- an id that loses its text is reported as another one, under which nothing is stored
    have hne := mt (hreports (by decide)).2.1 hloses
    refine ⟨doc, w', hrun, hne, ?_⟩
    rw [hfound, if_neg hne]
    rfl
  · have hnarrow : (Request.create (some narrowNote)).WellFormed := ⟨by decide, by decide⟩
    have hkeeps : notes.KeepsId narrowNote := by
      intro v hv
      obtain rfl : Value.int .int64 9007199254740991 = v := Option.some.inj hv
      exact Value.keepsId_of_small _ (by decide)
    obtain ⟨r, w', hrun⟩ :=
      hruns (Program.run World.answer (notes.create (some narrowNote)).run .quiet) (by decide +kernel)
    obtain ⟨doc, rfl, -, hreports, -, hfinds⟩ := create_reported hnarrow hrun
    exact ⟨doc, w', hrun, hfinds.2 (.inl ((hreports (by decide)).2.2 hkeeps))⟩

end Service

end DocFilter
