import DocFilter.Proofs.Grouping
import DocFilter.Proofs.Tables
import DocFilter.Query.Interpret

/-!
The meaning of filters. What a filter says can be read off the document itself: it is the
conjunction of what its fields say. An ordinary field is compared for equality, unless its value is
an object, and then the entries of the object speak of the field or of the fields below it. `$or`
says that one of its elements holds, and an element is again a conjunction of fields. Nothing else
in a filter is a condition, and the order of fields means nothing.

Interpreting a filter and compiling it keeps this meaning. Interpreting builds conditions in layers:
a conjunction of comparisons and disjunctions, the disjunctions of conjunctions, and so on. A
conjunction is therefore never a direct part of a conjunction, except at the top, where it is the
only part; so no group is exposed and the condition says what was meant.
-/

set_option autoImplicit false

namespace DocFilter

open Text (byte)

/-! ## What a filter says -/

namespace Filter

mutual

/-- The truth of a field with a value. -/
def fieldHolds (ρ : Assignment) (path : Text) : Value → Bool
  | .doc entries => entriesHold ρ path entries
  | .table .any entries | .table .texts entries | .table .counts entries =>
    entriesHold ρ path entries
  | .noTable => true
  | v => ρ ⟨path, .eq, v.literal⟩

/-- The truth of the entries of an object below a field: operators speak of the field, `$or` speaks
for itself, ordinary keys speak of a field below. -/
def entriesHold (ρ : Assignment) (path : Text) : List (Text × Value) → Bool
  | [] => true
  | (key, v) :: rest =>
    let here :=
      match directiveName? key with
      | some name =>
        match nestedOp? name with
        | some c => ρ ⟨path, c, v.literal⟩
        | none => if name == orName then orHolds ρ v else true
      | none => fieldHolds ρ (path ++ byte '.' :: key) v
    here && entriesHold ρ path rest

/-- The truth of an `$or`: one of the elements holds. -/
def orHolds (ρ : Assignment) : Value → Bool
  | .list _ items => elementsHold ρ items
  | _ => false

/-- Whether one of several elements holds. -/
def elementsHold (ρ : Assignment) : List Value → Bool
  | [] => false
  | v :: rest => elementHolds ρ v || elementsHold ρ rest

/-- The truth of an element of an `$or`. -/
def elementHolds (ρ : Assignment) : Value → Bool
  | .doc fields => holds ρ fields
  | .table .any fields | .table .texts fields | .table .counts fields => holds ρ fields
  | .noTable => true
  | _ => false

/-- The truth of a filter: all its ordinary fields and groups hold. -/
def holds (ρ : Assignment) : List (Text × Value) → Bool
  | [] => true
  | (key, v) :: rest =>
    let here :=
      match directiveName? key with
      | some name => if name == orName then orHolds ρ v else true
      | none => fieldHolds ρ key v
    here && holds ρ rest

end

mutual

/-- Whether a field with a value is a condition at all. -/
def fieldConstrains : Value → Bool
  | .doc entries => entriesConstrain entries
  | .table .any entries | .table .texts entries | .table .counts entries => entriesConstrain entries
  | .noTable => false
  | _ => true

/-- Whether one of the entries of an object below a field is a condition. -/
def entriesConstrain : List (Text × Value) → Bool
  | [] => false
  | (key, v) :: rest =>
    let here :=
      match directiveName? key with
      | some name => (nestedOp? name).isSome || name == orName
      | none => fieldConstrains v
    here || entriesConstrain rest

end

/-- Whether a filter has a condition: an `$or`, or an ordinary field that is one. -/
def constrains : List (Text × Value) → Bool
  | [] => false
  | (key, v) :: rest =>
    let here :=
      match directiveName? key with
      | some name => name == orName
      | none => fieldConstrains v
    here || constrains rest

end Filter

/-! ## Conditions that can stand beside others -/

/-- A condition that is guarded and not exposed, wherever it stands. -/
def Directive.Sealed (d : Directive) : Prop :=
  ∀ f, Formula.ofDirective d = .ok f → f.guarded = true ∧ f.exposed = false

namespace Formula

/-- Every formula of a list of directives is that of one of them, so what holds of the formula of each
directive holds of all formulas. -/
theorem ofDirectives_mem {ds : List Directive} {fs : List (Formula Value)}
    (h : ofDirectives ds = .ok fs) : ∀ f ∈ fs, ∃ d ∈ ds, ofDirective d = .ok f := by
  induction ds generalizing fs with
  | nil =>
    cases h
    simp
  | cons d rest ih =>
    rw [ofDirectives] at h
    obtain ⟨g, hg, h⟩ := bind_eq_ok h
    obtain ⟨gs, hgs, h⟩ := bind_eq_ok h
    cases h
    intro f hf
    rcases List.mem_cons.mp hf with rfl | hf
    · exact ⟨d, by simp, hg⟩
    · obtain ⟨d', hd', hf⟩ := ih hgs f hf
      exact ⟨d', by simp [hd'], hf⟩

/-- A conjunction of sealed conditions is guarded: none of its parts is a conjunction of one part behind
which a disjunction opens. -/
theorem guarded_all_of_sealed {ds : List Directive} {fs : List (Formula Value)}
    (h : ofDirectives ds = .ok fs) (hds : ∀ d ∈ ds, d.Sealed) :
    (Formula.all fs).guarded = true := by
  have hparts : ∀ f ∈ fs, f.guarded = true ∧ f.exposed = false := by
    intro f hf
    obtain ⟨d, hd, hdf⟩ := ofDirectives_mem h f hf
    exact hds d hd f hdf
  rw [guarded, Bool.and_eq_true, guardedAll_iff]
  refine ⟨fun f hf => (hparts f hf).1, ?_⟩
  rw [Bool.or_eq_true, List.all_eq_true]
  exact .inr fun f hf => by rw [(hparts f hf).2]; rfl

end Formula

/-- A comparison is sealed: it is no group, so nothing in it can be exposed. -/
theorem Directive.sealed_comparison (op : CompareOp) (path : Text) (v : Value) :
    (Directive.comparison op path v).Sealed := by
  intro f hf
  have hd := Formula.eq_toDirective _ hf
  cases f with
  | compare field op rhs => exact ⟨rfl, rfl⟩
  | all parts | any parts => cases hd

/-- A disjunction of conjunctions of sealed conditions is sealed. Such disjunctions are what groups are
interpreted as, so groups can stand beside anything. -/
theorem Directive.sealed_or {ds : List Directive}
    (h : ∀ d ∈ ds, ∃ group, d = .logical .and group ∧ ∀ e ∈ group, e.Sealed) :
    (Directive.logical .or ds).Sealed := by
  intro f hf
  rw [Formula.ofDirective] at hf
  obtain ⟨fs, hfs, hf⟩ := bind_eq_ok hf
  cases hf
  -- A disjunction is never exposed: in a longer conjunction it stands in parentheses.
  refine ⟨?_, rfl⟩
  rw [Formula.guarded, Formula.guardedAll_iff]
  intro g hg
  obtain ⟨d, hd, hdg⟩ := Formula.ofDirectives_mem hfs g hg
  obtain ⟨group, rfl, hgroup⟩ := h d hd
  rw [Formula.ofDirective] at hdg
  obtain ⟨gs, hgs, hdg⟩ := bind_eq_ok hdg
  cases hdg
  exact Formula.guarded_all_of_sealed hgs hgroup

/-! ## What directives say -/

/-- Conditions say together what `truth` says, there are any just if `present`, and each of them can
stand beside others. -/
structure Denotes (ds : List Directive) (truth : Assignment → Bool) (present : Bool) : Prop where
  holds : ∀ ρ, ds.all (Directive.holds ρ) = truth ρ
  isEmpty : ds.isEmpty = !present
  isSealed : ∀ d ∈ ds, d.Sealed

namespace Denotes

theorem nil : Denotes [] (fun _ => true) false := ⟨fun _ => rfl, rfl, by simp⟩

/-- A comparison denotes the atom that it is, and it is a condition. -/
theorem comparison (c : Comparator) (path : Text) (v : Value) :
    Denotes [.comparison (.known c) path v] (fun ρ => ρ ⟨path, c, v.literal⟩) true := by
  refine ⟨fun ρ => Bool.and_true _, rfl, ?_⟩
  intro d hd
  rw [List.mem_singleton.mp hd]
  exact Directive.sealed_comparison (.known c) path v

/-- Conditions side by side denote the conjunction of what they denote. This is how the entries of an object
are put together. -/
theorem append {ds ds' : List Directive} {truth truth' : Assignment → Bool}
    {present present' : Bool}
    (h : Denotes ds truth present) (h' : Denotes ds' truth' present') :
    Denotes (ds ++ ds') (fun ρ => truth ρ && truth' ρ) (present || present') := by
  refine ⟨fun ρ => ?_, ?_, ?_⟩
  · rw [List.all_append, h.holds, h'.holds]
  · have happend : (ds ++ ds').isEmpty = (ds.isEmpty && ds'.isEmpty) := by cases ds <;> rfl
    rw [happend, h.isEmpty, h'.isEmpty, Bool.not_or]
  · intro d hd
    rcases List.mem_append.mp hd with hd | hd
    · exact h.isSealed d hd
    · exact h'.isSealed d hd

/-- The order of conditions means nothing. -/
theorem perm {ds ds' : List Directive} {truth : Assignment → Bool} {present : Bool}
    (h : Denotes ds truth present) (hperm : ds.Perm ds') : Denotes ds' truth present := by
  refine ⟨fun ρ => ?_, ?_, fun d hd => h.isSealed d (hperm.mem_iff.mpr hd)⟩
  · rw [← h.holds ρ, hperm.all_eq]
  · rw [← h.isEmpty, hperm.isEmpty_eq]

end Denotes

/-! ## Tables are walked in some order -/

namespace Contributions

/-- Contributions that go together: the first is there, and so are the others, which go together in their
turn. -/
theorem combine_cons_ok {key : Text} {r : Except QueryError (List Directive)} {rest : Contributions}
    {ds : List Directive} (h : combine ((key, r) :: rest) = .ok ds) :
    ∃ here more, r = .ok here ∧ combine rest = .ok more ∧ ds = here ++ more := by
  rw [combine] at h
  obtain ⟨here, hhere, h⟩ := bind_eq_ok h
  obtain ⟨more, hmore, h⟩ := bind_eq_ok h
  cases h
  exact ⟨here, more, hhere, hmore, rfl⟩

/-- Contributions in another order are the same conditions in another order. Should one of them fail, then
they fail in every order, though perhaps with another error. -/
theorem combine_perm {cs cs' : Contributions} (hperm : cs.Perm cs') :
    ∀ {ds : List Directive}, combine cs = .ok ds →
      ∃ ds', combine cs' = .ok ds' ∧ ds'.Perm ds := by
  induction hperm with
  | nil => exact fun h => ⟨_, h, List.Perm.refl _⟩
  | cons c _ ih =>
    intro ds h
    obtain ⟨here, more, hhere, hmore, rfl⟩ := combine_cons_ok h
    obtain ⟨more', hmore', hp⟩ := ih hmore
    refine ⟨here ++ more', ?_, hp.append_left here⟩
    rw [combine, hhere, hmore']
    rfl
  -- neighbours that change places need both to be there, as they are in the one order
  | swap c c' l =>
    intro ds h
    obtain ⟨here, more, hhere, hmore, rfl⟩ := combine_cons_ok h
    obtain ⟨here', more', hhere', hmore', rfl⟩ := combine_cons_ok hmore
    refine ⟨here' ++ (here ++ more'), ?_, ?_⟩
    · rw [combine, combine, hhere, hhere', hmore']
      rfl
    · rw [← List.append_assoc, ← List.append_assoc]
      exact List.Perm.append_right _ List.perm_append_comm
  | trans _ _ ih₁ ih₂ =>
    intro ds h
    obtain ⟨ds₁, h₁, hp₁⟩ := ih₁ h
    obtain ⟨ds₂, h₂, hp₂⟩ := ih₂ h₁
    exact ⟨ds₂, h₂, hp₂.trans hp₁⟩

/-- Sorting contributions permutes the directives, which changes nothing in a conjunction. -/
theorem combine_sorted {cs : Contributions} {ds : List Directive}
    (h : combine cs.sorted = .ok ds) : ∃ ds', combine cs = .ok ds' ∧ ds'.Perm ds :=
  combine_perm (sortByKey_perm _ cs) h

end Contributions

/-! ## Interpreting keeps the meaning

One lemma for each function of the interpreter, by the same recursion over values. A function that
fails says nothing, so only results that are there are spoken of. -/

/-- A list of conditions that has become one group says that group. -/
theorem Denotes.group {r : Except QueryError Directive} {truth : Assignment → Bool}
    (hr : ∀ d, r = .ok d → Denotes [d] truth true) {ds : List Directive}
    (h : r.map ([·]) = .ok ds) : Denotes ds truth true := by
  cases r with
  | error e => cases h
  | ok d =>
    cases h
    exact hr d rfl

mutual

/-- The conditions on a field denote what the filter says of the field. This and the next five statements
are one induction over the filter. -/
theorem fieldDirectives_denotes (path : Text) (v : Value) {ds : List Directive}
    (h : fieldDirectives path v = .ok ds) :
    Denotes ds (fun ρ => Filter.fieldHolds ρ path v) (Filter.fieldConstrains v) := by
  match v with
  | .doc entries => exact nestedEntries_denotes path entries h
  | .table .any entries | .table .texts entries | .table .counts entries =>
    -- The entries of a table are sorted after they have been interpreted.
    obtain ⟨ds', hds', hperm⟩ := Contributions.combine_sorted h
    exact (nestedEntries_denotes path entries hds').perm hperm
  | .noTable =>
    cases h
    exact Denotes.nil
  | .null | .bool _ | .text _ | .int _ _ | .float _ _ | .numeral _ | .label _ | .bytes _ | .time _
  | .ref _ | .list _ _ | .table .numbered _ =>
    cases h
    exact Denotes.comparison .eq path _

/-- The entries of an object below a field denote the conjunction of what each says: of the field, if the
key is an operator, and else of a field below it. -/
theorem nestedEntries_denotes (path : Text) (entries : List (Text × Value)) {ds : List Directive}
    (h : (nestedEntries path entries).combine = .ok ds) :
    Denotes ds (fun ρ => Filter.entriesHold ρ path entries) (Filter.entriesConstrain entries) := by
  match entries with
  | [] =>
    cases h
    exact Denotes.nil
  | (key, v) :: rest =>
    obtain ⟨here, more, hhere, hmore, rfl⟩ := Contributions.combine_cons_ok h
    have hrest := nestedEntries_denotes path rest hmore
    simp only [Filter.entriesHold, Filter.entriesConstrain]
    refine Denotes.append ?_ hrest
    -- What stands at the key: a field below, an operator, a group, or another directive.
    revert hhere
    cases directiveName? key with
    | none => exact fun hhere => fieldDirectives_denotes _ v hhere
    | some name =>
      dsimp only
      cases nestedOp? name with
      | some c =>
        rintro ⟨⟩
        exact Denotes.comparison c path v
      | none =>
        cases name == orName with
        | true => exact fun hhere => Denotes.group (fun d hd => orGroup_denotes v hd) hhere
        | false =>
          rintro ⟨⟩
          exact Denotes.nil

/-- An `$or` denotes that one of its elements holds. An empty one holds nowhere. -/
theorem orGroup_denotes (v : Value) {d : Directive} (h : orGroup v = .ok d) :
    Denotes [d] (fun ρ => Filter.orHolds ρ v) true := by
  match v with
  | .list _ items =>
    obtain ⟨ds, hds, h⟩ := bind_eq_ok h
    cases h
    obtain ⟨hholds, hgroups⟩ := orElements_denotes items hds
    refine ⟨fun ρ => ?_, rfl, ?_⟩
    · rw [List.all_cons, List.all_nil, Bool.and_true, Directive.holds, Directive.anyHolds_eq,
        hholds]
      rfl
    · intro e he
      rw [List.mem_singleton.mp he]
      exact Directive.sealed_or hgroups
  -- anything but a list is an error, and so is not interpreted
  | .doc _ | .table _ _ | .noTable | .null | .bool _ | .text _ | .int _ _ | .float _ _ | .numeral _
  | .label _ | .bytes _ | .time _ | .ref _ => cases h

/-- The elements of an `$or` become conjunctions, one of which holds exactly if one of the elements does.
That they are conjunctions of sealed parts keeps their text from being exposed. -/
theorem orElements_denotes (items : List Value) {ds : List Directive}
    (h : orElements items = .ok ds) :
    (∀ ρ, ds.any (Directive.holds ρ) = Filter.elementsHold ρ items) ∧
      ∀ d ∈ ds, ∃ group, d = .logical .and group ∧ ∀ e ∈ group, e.Sealed := by
  match items with
  | [] =>
    cases h
    exact ⟨fun _ => rfl, by simp⟩
  | v :: rest =>
    obtain ⟨group, hgroup, h⟩ := bind_eq_ok h
    obtain ⟨more, hmore, h⟩ := bind_eq_ok h
    cases h
    obtain ⟨present, hdenotes⟩ := orElement_denotes v hgroup
    obtain ⟨hholds, hgroups⟩ := orElements_denotes rest hmore
    refine ⟨fun ρ => ?_, ?_⟩
    · rw [List.any_cons, hholds, Directive.holds, Directive.allHold_eq, hdenotes.holds,
        Filter.elementsHold]
    · intro d hd
      rcases List.mem_cons.mp hd with rfl | hd
      · exact ⟨group, rfl, hdenotes.isSealed⟩
      · exact hgroups d hd

/-- An element of an `$or` denotes the conjunction of its fields. An element without conditions holds
everywhere. -/
theorem orElement_denotes (v : Value) {ds : List Directive} (h : orElement v = .ok ds) :
    ∃ present, Denotes ds (fun ρ => Filter.elementHolds ρ v) present := by
  match v with
  | .doc fields => exact ⟨_, orEntries_denotes fields h⟩
  | .table .any fields | .table .texts fields | .table .counts fields =>
    obtain ⟨ds', hds', hperm⟩ := Contributions.combine_sorted h
    exact ⟨_, (orEntries_denotes fields hds').perm hperm⟩
  | .noTable =>
    cases h
    exact ⟨_, Denotes.nil⟩
  | .null | .bool _ | .text _ | .int _ _ | .float _ _ | .numeral _ | .label _ | .bytes _ | .time _
  | .ref _ | .list _ _ | .table .numbered _ => cases h

/-- The fields of an element denote the conjunction of what each says. Directive keys other than `$or` say
nothing there. -/
theorem orEntries_denotes (fields : List (Text × Value)) {ds : List Directive}
    (h : (orEntries fields).combine = .ok ds) :
    Denotes ds (fun ρ => Filter.holds ρ fields) (Filter.constrains fields) := by
  match fields with
  | [] =>
    cases h
    exact Denotes.nil
  | (key, v) :: rest =>
    obtain ⟨here, more, hhere, hmore, rfl⟩ := Contributions.combine_cons_ok h
    have hrest := orEntries_denotes rest hmore
    simp only [Filter.holds, Filter.constrains]
    refine Denotes.append ?_ hrest
    revert hhere
    cases directiveName? key with
    | none => exact fun hhere => fieldDirectives_denotes _ v hhere
    -- the key of a group, or a key that says nothing here
    | some name =>
      dsimp only
      cases name == orName with
      | true => exact fun hhere => Denotes.group (fun d hd => orGroup_denotes v hd) hhere
      | false =>
        rintro ⟨⟩
        exact Denotes.nil

end

/-! ## Filters -/

namespace Filter

/-- A filter holds if its first field does and the others do. -/
theorem holds_cons (ρ : Assignment) (key : Text) (v : Value) (rest : Document) :
    holds ρ ((key, v) :: rest) = (holds ρ [(key, v)] && holds ρ rest) := by
  simp only [holds, Bool.and_true]

/-- A filter has conditions if its first field has some or the others have. -/
theorem constrains_cons (key : Text) (v : Value) (rest : Document) :
    constrains ((key, v) :: rest) = (constrains [(key, v)] || constrains rest) := by
  simp only [constrains, Bool.or_false]

end Filter

/-- A directive key other than `$or` contributes no condition: the four modifiers and the extensions
contribute clauses, and a comparison key is an error at the top of a filter. -/
theorem interpretField_clause {key name : Text} {v : Value} {c : Contribution}
    (hname : directiveName? key = some name) (hor : (name == orName) = false)
    (h : interpretField key v = .ok c) :
    c.conditions = [] ∧ ∀ d ∈ c.clauses, d.isCondition = false := by
  rw [interpretField, hname] at h
  simp only [hor, Bool.false_eq_true, if_false] at h
  split at h
  · cases h
    simp [Directive.isCondition]
  split at h
  · cases h
    simp [Directive.isCondition]
  split at h
  · obtain ⟨fields, _, h⟩ := bind_eq_ok h
    cases h
    simp [Directive.isCondition, Directive.select]
  split at h
  · obtain ⟨keys, _, h⟩ := bind_eq_ok h
    cases h
    simp [Directive.isCondition]
  split at h
  · cases h
  · cases h
    simp [Directive.isCondition]

/-- One field of a filter contributes conditions that denote what the field says, and clauses that are no
conditions. -/
theorem interpretField_denotes {key : Text} {v : Value} {c : Contribution}
    (h : interpretField key v = .ok c) :
    Denotes c.conditions (fun ρ => Filter.holds ρ [(key, v)]) (Filter.constrains [(key, v)]) ∧
      ∀ d ∈ c.clauses, d.isCondition = false := by
  simp only [Filter.holds, Filter.constrains, Bool.and_true, Bool.or_false]
  cases hname : directiveName? key with
  -- the key is that of a field, of a group, or of a clause
  | none =>
    rw [interpretField, hname] at h
    obtain ⟨ds, hds, h⟩ := bind_eq_ok h
    cases h
    exact ⟨fieldDirectives_denotes key v hds, by simp⟩
  | some name =>
    cases hor : name == orName with
    | true =>
      rw [interpretField, hname, beq_iff_eq.mp hor] at h
      obtain ⟨d, hd, h⟩ := bind_eq_ok h
      cases h
      simp only [hor, if_true]
      exact ⟨orGroup_denotes v hd, by simp⟩
    | false =>
      obtain ⟨hconditions, hclauses⟩ := interpretField_clause hname hor h
      rw [hconditions]
      simp only [hor]
      exact ⟨Denotes.nil, hclauses⟩

/-- A filter contributes conditions that denote the conjunction of what its fields say, and clauses that are
no conditions. The induction is on the fields, in their order. -/
theorem interpretFields_denotes {d : Document} {c : Contribution} (h : interpretFields d = .ok c) :
    Denotes c.conditions (fun ρ => Filter.holds ρ d) (Filter.constrains d) ∧
      ∀ e ∈ c.clauses, e.isCondition = false := by
  induction d generalizing c with
  | nil =>
    cases h
    exact ⟨Denotes.nil, by simp⟩
  | cons field rest ih =>
    rw [interpretFields] at h
    obtain ⟨here, hhere, h⟩ := bind_eq_ok h
    obtain ⟨more, hmore, h⟩ := bind_eq_ok h
    cases h
    obtain ⟨hdenotes, hclauses⟩ := interpretField_denotes hhere
    obtain ⟨hdenotes', hclauses'⟩ := ih hmore
    refine ⟨?_, ?_⟩
    · obtain ⟨key, v⟩ := field
      simp only [Filter.holds_cons _ key v rest, Filter.constrains_cons key v rest]
      exact hdenotes.append hdenotes'
    · intro e he
      rcases List.mem_append.mp he with he | he
      · exact hclauses e he
      · exact hclauses' e he

/-- Among clauses there is no condition. -/
theorem filter_isCondition_of_clauses {clauses : List Directive}
    (h : ∀ x ∈ clauses, x.isCondition = false) : clauses.filter Directive.isCondition = [] := by
  rw [List.filter_eq_nil_iff]
  intro x hx
  rw [h x hx]
  exact Bool.false_ne_true

/-- The conditions of an interpreted filter are one conjunction, which holds all conditions of its fields; a
filter without conditions has none at all. -/
theorem interpret_conditions {d : Document} {ds : List Directive} (h : interpret d = .ok ds) :
    ∃ c, interpretFields d = .ok c ∧ ds.filter Directive.isCondition
      = if c.conditions.isEmpty then [] else [.logical .and c.conditions] := by
  rw [interpret] at h
  obtain ⟨c, hc, h⟩ := bind_eq_ok h
  cases h
  refine ⟨c, hc, ?_⟩
  rw [List.filter_append, filter_isCondition_of_clauses (interpretFields_denotes hc).2, List.nil_append]
  split <;> rfl

open Formula

/-- **A compiled filter says what the filter says.** Its statement has a condition just if the
filter does. The condition can be read in one way, and with the parameters in their places it holds
under the assignments under which the filter holds. -/
theorem compile_interpret (options : CompileOptions) (d : Document) (ds : List Directive)
    (st : Statement) (hd : interpret d = .ok ds) (hst : compile options ds = .ok st) :
    (HasCondition options ds st none ↔ Filter.constrains d = false) ∧
      (Filter.constrains d = false → ∀ ρ, Filter.holds ρ d = true) ∧
      (Filter.constrains d = true → ∃ t f, HasCondition options ds st (some t) ∧
        (∀ g, ReadsAs t g ↔ g = f) ∧
        ∀ ρ, f.holds (Operand.literal st.params) ρ = Filter.holds ρ d) := by
  obtain ⟨c, hc, hconds⟩ := interpret_conditions hd
  obtain ⟨hdenotes, _⟩ := interpretFields_denotes hc
  obtain ⟨fs, hfs, hcond⟩ := compile_ok hst
  rw [hdenotes.isEmpty] at hconds
  cases hpresent : Filter.constrains d with
  | false =>
    rw [hpresent] at hconds hdenotes
    rw [hconds] at hfs
    cases hfs
    obtain ⟨_, _, hnone⟩ : _ ∧ _ ∧ _ := hcond.resolve_right fun hne => hne.1 rfl
    refine ⟨iff_of_true hnone rfl, fun _ ρ => ?_, fun h => absurd h (by simp)⟩
    rw [← hdenotes.holds ρ, List.isEmpty_iff.mp hdenotes.isEmpty]
    rfl
  | true =>
    rw [hpresent] at hconds
    have hparts := hfs
    rw [hconds] at hparts
    obtain ⟨f, hf, hrest⟩ := bind_eq_ok hparts
    obtain ⟨gs, hgs, hf⟩ := bind_eq_ok hf
    cases hf
    cases hrest
    -- The conjunction of the filter is the only condition, so it is not beside anything.
    have hguarded : (Formula.all [Formula.all gs]).guarded = true := by
      rw [guarded, guardedAll, guardedAll, guarded_all_of_sealed hgs hdenotes.isSealed]
      rfl
    obtain ⟨t, f, hw, hread, hholds⟩ := compile_guarded hst hfs (List.cons_ne_nil _ _) hguarded
    refine ⟨iff_of_false (fun hnone => ?_) (by simp), fun h => absurd h (by simp),
      fun _ => ⟨t, f, hw, hread, fun ρ => ?_⟩⟩
    · cases hnone.unique hw
    · rw [hholds, hconds, ← hdenotes.holds ρ]
      show (Directive.holds ρ (.logical .and c.conditions) && true) = _
      rw [Bool.and_true, Directive.holds, Directive.allHold_eq]

/-- A filter with an object below a field, a group with an empty element, and a limit. -/
def layeredFilter : Document :=
  [("a`b", .doc [("$gt", .int .int 3), ("x", .text "y")]),
    ("$or", .list .any [.doc [("c", .null)], .doc []]), ("$limit", .int .int 5)]

/-- The condition of the statement says what the filter says. There are a name with a backtick, a nested
field, a comparison with nothing, and an element that holds everywhere. -/
theorem layeredFilter_compiled :
    ∃ ds st t f, interpret layeredFilter = .ok ds ∧ compile { scope := "s" } ds = .ok st ∧
      st.text = Text.ofString "SELECT `s`.* FROM `s`" ++ Text.ofString
        " WHERE `a``b` > $1 AND `a``b.x` = $2 AND ((`c` = NULL) OR (TRUE)) LIMIT 5" ∧
      HasCondition { scope := "s" } ds st (some t) ∧ ReadsAs t f ∧
      ∀ ρ, f.holds (Operand.literal st.params) ρ = Filter.holds ρ layeredFilter := by
  obtain ⟨ds, hds⟩ : ∃ ds, interpret layeredFilter = .ok ds := ⟨_, rfl⟩
  have hselect : select { scope := "s" } ds = .ok (⟨["*"], "s", some (.all [.all
      [.compare "a`b" .gt (.placeholder 1), .compare "a`b.x" .eq (.placeholder 2),
        .any [.all [.compare "c" .eq .null], .all []]]]), [], some 5, none⟩,
      [.int .int 3, .text "y"]) := by
    cases hds
    rfl
  obtain ⟨st, hst⟩ : ∃ st, compile { scope := "s" } ds = .ok st := by
    rw [compile, hselect]
    exact ⟨_, rfl⟩
  obtain ⟨-, -, hsome⟩ := compile_interpret _ _ _ _ hds hst
  obtain ⟨t, f, hw, hread, hholds⟩ := hsome rfl
  refine ⟨ds, st, t, f, hds, hst, ?_, hw, (hread f).mpr rfl, hholds⟩
  rw [compile, hselect] at hst
  cases hst
  decide +kernel

end DocFilter
