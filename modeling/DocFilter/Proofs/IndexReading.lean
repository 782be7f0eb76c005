import DocFilter.Index
import DocFilter.Proofs.ProjectionReading
import DocFilter.Proofs.Unquoting

/-!
Statements that create an index can be read back. How such a statement is read is given as a
grammar: names between backticks, in which two backticks stand for one; the fields in parentheses
with commas between them; and perhaps a restriction to the documents whose type is a quoted text.

Names may hold anything, also backticks, commas and parentheses, so that a statement has many places
at which a name might end. But a name ends at the first backtick that is not one of a pair, and no
part of the statement behind a name begins with a backtick. Hence what is read of a name, of a list
of names and of a whole statement is settled by the text (`ReadsName.cancel`, `ReadsNames.cancel`,
`Reads.unique`), and the only reading of a written statement is what it was written from
(`reads_text_iff`).
-/

set_option autoImplicit false

namespace DocFilter.Index

open Text (byte)

/-! ## The grammar -/

/-- What stands between the backticks of a name: for each backtick of the name a pair, all other
bytes as they are. -/
inductive Doubles : (name inner : Text) → Prop
  | nil : Doubles [] []
  | tick {name inner : Text} :
      Doubles name inner → Doubles (byte '\x60' :: name) (byte '\x60' :: byte '\x60' :: inner)
  | other {b : UInt8} {name inner : Text} :
      b ≠ byte '\x60' → Doubles name inner → Doubles (b :: name) (b :: inner)

/-- A name between backticks. -/
def ReadsName (t name : Text) : Prop :=
  ∃ inner, Doubles name inner ∧ t = byte '\x60' :: (inner ++ [byte '\x60'])

/-- One or more names with commas between them. -/
inductive ReadsNames : Text → List Text → Prop
  | last {t name : Text} : ReadsName t name → ReadsNames t [name]
  | more {t rest name : Text} {names : List Text} :
      ReadsName t name → ReadsNames rest names → ReadsNames (t ++ byte ',' :: rest) (name :: names)

/-- A restriction to a document type, or nothing. -/
inductive ReadsRestriction : Text → Option Text → Prop
  | without : ReadsRestriction [] none
  | byType {literal type : Text} :
      Text.unquoted? literal = some type →
        ReadsRestriction (" WHERE \x60_type\x60 = " ++ literal) (some type)

/-- What a statement says about the index that it creates. -/
@[ext]
structure Reading where
  name : Text
  bucket : Text
  fields : List Text
  documentType : Option Text
  deriving DecidableEq, Repr

/-- A text is read as the statement that creates an index. -/
def Reads (t : Text) (r : Reading) : Prop :=
  ∃ name bucket fields restriction,
    ReadsName name r.name ∧ ReadsName bucket r.bucket ∧ ReadsNames fields r.fields ∧
      ReadsRestriction restriction r.documentType ∧
      t = "CREATE INDEX " ++ name ++ " ON " ++ bucket ++ "(" ++ fields ++ ")" ++ restriction

/-! ## No text has two readings -/

/-- A text that does not go on with a backtick, so that the backtick before it closes a name. -/
def Closes (rest : Text) : Prop := rest.head? ≠ some (byte '\x60')

/-- A byte other than a backtick ends the name before it. -/
theorem closes_cons {b : UInt8} (hb : b ≠ byte '\x60') (rest : Text) : Closes (b :: rest) := by
  simpa [Closes] using hb

/-- The inside of a name ends at the first backtick that is not one of a pair. -/
theorem Doubles.cancel {name name' inner inner' rest rest' : Text} (h : Doubles name inner)
    (h' : Doubles name' inner') (hrest : Closes rest) (hrest' : Closes rest')
    (heq : inner ++ byte '\x60' :: rest = inner' ++ byte '\x60' :: rest') :
    name = name' ∧ rest = rest' := by
  -- The first bytes tell how both names begin; a pair against the end of a name would have to be
  -- followed by a backtick.
  induction h generalizing name' inner' with
  | nil =>
    cases h' with
    | nil => exact ⟨rfl, (List.cons.inj heq).2⟩
    | tick h' =>
      have hgoes : rest = byte '\x60' :: _ := (List.cons.inj heq).2
      exact absurd (congrArg List.head? hgoes) hrest
    | other hb h' => exact absurd (List.cons.inj heq).1.symm hb
  | tick h ih =>
    cases h' with
    | nil =>
      have hgoes : byte '\x60' :: _ = rest' := (List.cons.inj heq).2
      exact absurd (congrArg List.head? hgoes).symm hrest'
    | tick h' =>
      obtain ⟨hname, hsame⟩ := ih h' (List.cons.inj (List.cons.inj heq).2).2
      exact ⟨congrArg _ hname, hsame⟩
    | other hb h' => exact absurd (List.cons.inj heq).1.symm hb
  | other hb h ih =>
    cases h' with
    | nil => exact absurd (List.cons.inj heq).1 hb
    | tick h' => exact absurd (List.cons.inj heq).1 hb
    | other hb' h' =>
      obtain ⟨hname, hsame⟩ := ih h' (List.cons.inj heq).2
      rw [(List.cons.inj heq).1, hname]
      exact ⟨rfl, hsame⟩

/-- What is read of a name at the beginning of a text is settled, and so is where it ends. -/
theorem ReadsName.cancel {t t' name name' rest rest' : Text} (h : ReadsName t name)
    (h' : ReadsName t' name') (hrest : Closes rest) (hrest' : Closes rest')
    (heq : t ++ rest = t' ++ rest') : name = name' ∧ rest = rest' := by
  obtain ⟨inner, hinner, rfl⟩ := h
  obtain ⟨inner', hinner', rfl⟩ := h'
  apply hinner.cancel hinner' hrest hrest'
  simpa using heq

/-- Of a list of names before a closing parenthesis too: a comma goes on with the list, the
parenthesis ends it. -/
theorem ReadsNames.cancel {t t' rest rest' : Text} {names names' : List Text}
    (h : ReadsNames t names) (h' : ReadsNames t' names')
    (heq : t ++ byte ')' :: rest = t' ++ byte ')' :: rest') : names = names' ∧ rest = rest' := by
  have hclose : ∀ u, Closes (byte ')' :: u) := closes_cons (by decide)
  have hcomma : ∀ u, Closes (byte ',' :: u) := closes_cons (by decide)
  have hne : byte ')' ≠ byte ',' := by decide
  induction h generalizing t' names' with
  | last hname =>
    cases h' with
    | last hname' =>
      obtain ⟨rfl, hsame⟩ := hname.cancel hname' (hclose _) (hclose _) heq
      exact ⟨rfl, (List.cons.inj hsame).2⟩
    | more hname' h' =>
      rw [List.append_assoc] at heq
      -- the same name is followed by a parenthesis and by a comma
      obtain ⟨-, hsame⟩ := hname.cancel hname' (hclose _) (hcomma _) heq
      exact absurd (List.cons.inj hsame).1 hne
  | more hname h ih =>
    rw [List.append_assoc] at heq
    cases h' with
    | last hname' =>
      obtain ⟨-, hsame⟩ := hname.cancel hname' (hcomma _) (hclose _) heq
      exact absurd (List.cons.inj hsame).1.symm hne
    | more hname' h' =>
      rw [List.append_assoc] at heq
      obtain ⟨rfl, hsame⟩ := hname.cancel hname' (hcomma _) (hcomma _) heq
      obtain ⟨rfl, hend⟩ := ih h' (List.cons.inj hsame).2
      exact ⟨rfl, hend⟩

/-- A restriction is read in one way. What follows the fixed words is unquoted, and unquoting is a function.
-/
theorem ReadsRestriction.unique {t : Text} {type type' : Option Text} (h : ReadsRestriction t type)
    (h' : ReadsRestriction t type') : type = type' := by
  generalize ht : t = t' at h'
  cases h with
  | without =>
    cases h' with
    | without => rfl
    | byType hliteral' => cases ht
  | byType hliteral =>
    cases h' with
    | without => cases ht
    | byType hliteral' =>
      have hsame := List.append_cancel_left ht
      rw [hsame, hliteral'] at hliteral
      exact hliteral.symm

/-- A text has at most one reading. The parts of the statement are taken off one after the other, and each
of them is settled by the text. -/
theorem Reads.unique {t : Text} {r r' : Reading} (h : Reads t r) (h' : Reads t r') : r = r' := by
  obtain ⟨name, bucket, fields, restriction, hname, hbucket, hfields, hrestriction, rfl⟩ := h
  obtain ⟨name', bucket', fields', restriction', hname', hbucket', hfields', hrestriction', heq⟩ := h'
  simp only [List.append_assoc] at heq
  have hon : ∀ u, Closes (Text.ofString " ON " ++ u) := fun u => closes_cons (by decide) _
  have hopen : ∀ u, Closes (Text.ofString "(" ++ u) := fun u => closes_cons (by decide) _
  obtain ⟨hsameName, heq₁⟩ := hname.cancel hname' (hon _) (hon _) (List.append_cancel_left heq)
  obtain ⟨hsameBucket, heq₂⟩ :=
    hbucket.cancel hbucket' (hopen _) (hopen _) (List.append_cancel_left heq₁)
  obtain ⟨hsameFields, heq₃⟩ := hfields.cancel hfields' (List.append_cancel_left heq₂)
  have hend : restriction = restriction' := heq₃
  rw [hend] at hrestriction
  exact Reading.ext hsameName hsameBucket hsameFields (hrestriction.unique hrestriction')

/-! ## Written statements are read -/

/-- A name with its backticks doubled is a name in the sense of the grammar. -/
theorem doubles_doubled (name : Text) : Doubles name (Projection.doubled name) := by
  induction name with
  | nil => exact .nil
  | cons b name ih =>
    rw [Projection.doubled_cons]
    by_cases hb : b = byte '\x60'
    · rw [hb]
      exact .tick ih
    · rw [beq_false_of_ne hb]
      exact .other hb ih

theorem readsName_identifier (name : Text) : ReadsName (identifier name) name :=
  ⟨_, doubles_doubled name, rfl⟩

/-- Written names with commas between them are read as these names. There has to be one at least, as the
grammar has no empty list. -/
theorem readsNames_join {names : List Text} (hne : names ≠ []) :
    ReadsNames (Text.join "," (names.map identifier)) names := by
  induction names with
  | nil => exact absurd rfl hne
  | cons name names ih =>
    by_cases hrest : names = []
    · rw [hrest]
      exact .last (readsName_identifier name)
    · have hmap : names.map identifier ≠ [] := by simpa using hrest
      rw [List.map_cons, Projection.join_cons _ _ hmap, List.append_assoc]
      exact .more (readsName_identifier name) (ih hrest)

/-- A written restriction is read as its type; an empty type is written as no restriction, and read as none.
-/
theorem readsRestriction_restriction (type : Text) :
    ReadsRestriction (restriction type) (if type = [] then none else some type) := by
  by_cases htype : type = []
  · rw [if_pos htype, htype]
    exact .without
  · rw [if_neg htype, restriction, if_neg (by simpa using htype)]
    exact .byType (Text.unquoted?_quoted type)

/-- **A statement is read as what it was written from, and as nothing else.** -/
theorem reads_text_iff {d : Definition} (hfields : d.fields ≠ []) (r : Reading) :
    Reads d.text r ↔
      r = ⟨d.name, d.bucket, d.fields, if d.documentType = [] then none else some d.documentType⟩ := by
  have hreads : Reads d.text
      ⟨d.name, d.bucket, d.fields, if d.documentType = [] then none else some d.documentType⟩ :=
    ⟨_, _, _, _, readsName_identifier d.name, readsName_identifier d.bucket, readsNames_join hfields,
      readsRestriction_restriction d.documentType, rfl⟩
  constructor
  · intro h
    exact h.unique hreads
  · intro h
    rw [h]
    exact hreads

/-! ## Definitions by a list of fields -/

/-- Walking a list and keeping what has not been seen erases its duplicates. -/
theorem foldl_unseen (ts seen : List Text) :
    ts.foldl (fun seen t => if seen.contains t then seen else seen ++ [t]) seen
      = List.eraseDupsBy.loop (· == ·) ts seen.reverse := by
  induction ts generalizing seen with
  | nil => simp [List.eraseDupsBy.loop]
  | cons t ts ih =>
    have hany : seen.reverse.any (t == ·) = seen.contains t := by
      rw [List.any_reverse, List.contains_eq_any_beq]
    rw [List.foldl_cons, List.eraseDupsBy.loop, hany, ih]
    cases seen.contains t <;> simp

theorem unique_eq_eraseDups (ts : List Text) : Text.unique ts = ts.eraseDups :=
  foldl_unseen ts []

/-- What a definition takes over from its options: the name, or one made from the document type, and the
type. Fields that are named twice count once. -/
theorem ofFields_eq {bucket : Text} {fields : List Text} (hbucket : bucket ≠ []) (hfields : fields ≠ [])
    (o : Options) :
    ofFields bucket fields o =
      if o.name = [] ∧ o.documentType = [] then .error .nameRequired
      else .ok ⟨if o.name = [] then o.documentType ++ "_idx" else o.name, bucket, fields.eraseDups,
        o.documentType⟩ := by
  have hnamed : o.named = if o.name = [] ∧ o.documentType ≠ [] then
      { o with name := o.documentType ++ "_idx" } else o := by
    simp [Options.named]
  rw [ofFields, if_neg (by simpa using hfields), define, if_neg (by simpa using hbucket),
    unique_eq_eraseDups, hnamed]
  by_cases hname : o.name = [] <;> by_cases htype : o.documentType = [] <;>
    simp [hname, htype]

/-- The statement of an index on a list of fields can be read in one way only, and this gives back
the name of the index, the bucket, the fields without repetitions and the document type. There is a
statement if the index has a name or a document type to be named after. -/
theorem ofFields_read_back (bucket : Text) (fields : List Text) (o : Options) (hbucket : bucket ≠ [])
    (hfields : fields ≠ []) :
    ((∃ d, ofFields bucket fields o = .ok d) ↔ o.name ≠ [] ∨ o.documentType ≠ []) ∧
    ∀ d, ofFields bucket fields o = .ok d → ∀ r, Reads d.text r ↔
      r = { name := if o.name = [] then o.documentType ++ "_idx" else o.name
            bucket := bucket
            fields := fields.eraseDups
            documentType := if o.documentType = [] then none else some o.documentType } := by
  rw [ofFields_eq hbucket hfields]
  by_cases hnone : o.name = [] ∧ o.documentType = []
  -- nothing to name the index after
  · rw [if_pos hnone]
    simp [hnone.1, hnone.2]
  · rw [if_neg hnone]
    refine ⟨?_, ?_⟩
    · simpa [imp_iff_not_or] using hnone
    · intro d hd r
      -- a first field is never a repetition
      have hdistinct : fields.eraseDups ≠ [] := by
        obtain ⟨field, rest, rfl⟩ := List.exists_cons_of_ne_nil hfields
        simp [List.eraseDups_cons]
      obtain rfl := Except.ok.inj hd
      exact reads_text_iff hdistinct r

/-- A document type with a quote, a backslash, a line end and a byte that belongs to no character. -/
def awkwardType : Text := Text.ofString "r\"\\\n" ++ [0xFF]

/-- Backticks, commas and parentheses in names, and a field that comes twice: the statement is read in one
way, and the field comes back once. -/
theorem awkwardIndex_read_back :
    (Text.ofString "a\x60(" ≠ [] ∧ [Text.ofString "x\x60,\x60y", ")", "x\x60,\x60y"] ≠ []) ∧
    ∃ d, ofFields "a\x60(" ["x\x60,\x60y", ")", "x\x60,\x60y"] { documentType := awkwardType } = .ok d ∧
      ∀ r, Reads d.text r ↔
        r = ⟨awkwardType ++ "_idx", "a\x60(", ["x\x60,\x60y", ")"], some awkwardType⟩ := by
  have hbucket : Text.ofString "a\x60(" ≠ [] := by decide
  have hfields : [Text.ofString "x\x60,\x60y", ")", "x\x60,\x60y"] ≠ [] := by decide
  have hdistinct : [Text.ofString "x\x60,\x60y", ")", "x\x60,\x60y"].eraseDups
      = [Text.ofString "x\x60,\x60y", ")"] := by decide
  have htype : awkwardType ≠ [] := by decide
  obtain ⟨hdefined, hread⟩ :=
    ofFields_read_back _ _ { documentType := awkwardType } hbucket hfields
  obtain ⟨d, hd⟩ := hdefined.mpr (.inr htype)
  rw [hdistinct, if_pos rfl, if_neg htype] at hread
  exact ⟨⟨hbucket, hfields⟩, d, hd, hread d hd⟩

end DocFilter.Index
