import DocFilter.Proofs.BuilderCalls
import DocFilter.Proofs.Placeholders
import DocFilter.Proofs.Template
import Mathlib.Data.List.Forall2

/-!
Two filters walked side by side. A statement does not show all there is to a value: two values may
differ and yet be of one kind, the same amount, the same selection and the same direction (`Unseen`).
Filters *match* up to such a relation if the walk goes the same way through both of them, and the values
that it keeps are related (`Value.Matches`, `FieldMatches`). One induction over the walk then shows that
matching filters are compiled alike: to the same error, or to the same text with related parameters
(`compile_matches`).
-/

set_option autoImplicit false

namespace DocFilter

/-! ## Filters walked side by side -/

/-- A relation of values that makes no difference to a text: not as something compared, as an amount, as
a selection or as a direction. -/
structure Unseen (same : Value → Value → Prop) : Prop where
  kind : ∀ {v v' : Value}, same v v' → v.kind = v'.kind
  blanked : ∀ {v v' : Value}, same v v' → v.blanked = v'.blanked
  amount : ∀ {v v' : Value}, same v v' → v.amount? = v'.amount?
  selected : ∀ {v v' : Value}, same v v' → selectedFields v = selectedFields v'
  direction : ∀ {v v' : Value}, same v v' → sortDirection v = sortDirection v'

namespace Value

mutual

/-- Two values that are walked alike below a field or in an `$or`, up to a relation of what is kept. -/
inductive Matches (same : Value → Value → Prop) : Value → Value → Prop
  | object {v v' : Value} : v.kind = .object → v'.kind = .object →
      List.Forall₂ (EntryMatches same) v.fields v'.fields → Matches same v v'
  | kept {v v' : Value} : v.kind ≠ .object → v'.kind ≠ .object → same v v' → Matches same v v'

/-- Two entries of objects that are walked alike. -/
inductive EntryMatches (same : Value → Value → Prop) : Text × Value → Text × Value → Prop
  | field {key : Text} {v v' : Value} : directiveName? key = none → Matches same v v' →
      EntryMatches same (key, v) (key, v')
  | group {v v' : Value} : GroupMatches same v v' → EntryMatches same ("$or", v) ("$or", v')
  | kept {key name : Text} {v v' : Value} : directiveName? key = some name → key ≠ "$or" →
      same v v' → EntryMatches same (key, v) (key, v')

/-- Two values that are walked alike as an `$or`. -/
inductive GroupMatches (same : Value → Value → Prop) : Value → Value → Prop
  | array {v v' : Value} : v.kind = .array → v'.kind = .array →
      List.Forall₂ (Matches same) v.elements v'.elements → GroupMatches same v v'
  | other {v v' : Value} : v.kind ≠ .array → v'.kind ≠ .array → GroupMatches same v v'

end

variable {same : Value → Value → Prop}

/-- Whatever the key of an entry is, its value is walked as a field, walked as a group, or kept. -/
theorem EntryMatches.of_value {v v' : Value} (hfield : Matches same v v') (hgroup : GroupMatches same v v')
    (hkept : same v v') (key : Text) : EntryMatches same (key, v) (key, v') := by
  cases hname : directiveName? key with
  | none => exact .field hname hfield
  | some name =>
    by_cases hor : key = "$or"
    · rw [hor]
      exact .group hgroup
    · exact .kept hname hor hkept

end Value

/-- Two fields of filters that are walked alike. -/
inductive FieldMatches (same : Value → Value → Prop) : Text × Value → Text × Value → Prop
  | entry {e e' : Text × Value} : e.1 ≠ "$sort" → Value.EntryMatches same e e' → FieldMatches same e e'
  | sort {v v' : Value} : v.kind = v'.kind →
      List.Forall₂ (fun e e' : Text × Value => e.1 = e'.1 ∧ same e.2 e'.2) v.fields v'.fields →
      FieldMatches same ("$sort", v) ("$sort", v')

/-! ## Conditions side by side -/

/-- Two computations that fail alike, or both succeed with related results. -/
inductive Parallel {ε α : Type} (r : α → α → Prop) : Except ε α → Except ε α → Prop
  | error (e : ε) : Parallel r (.error e) (.error e)
  | ok {a a' : α} : r a a' → Parallel r (.ok a) (.ok a')

namespace Parallel

variable {ε α β : Type} {r : α → α → Prop} {s : β → β → Prop}

/-- Steps that go parallel after steps that go parallel: both fail with one error, at the first step or at
the second, or both end in related results. -/
theorem bind {x x' : Except ε α} (h : Parallel r x x') {f f' : α → Except ε β}
    (hf : ∀ a a', r a a' → Parallel s (f a) (f' a')) : Parallel s (x >>= f) (x' >>= f') := by
  cases h with
  | error e => exact .error e
  | ok ha => exact hf _ _ ha

/-- Results that are related stay so under a function that keeps the relation. -/
theorem map {x x' : Except ε α} (h : Parallel r x x') {f : α → β}
    (hf : ∀ a a', r a a' → s (f a) (f a')) : Parallel s (x.map f) (x'.map f) := by
  cases h with
  | error e => exact .error e
  | ok ha => exact .ok (hf _ _ ha)

end Parallel

namespace Directive

/-- The values that conditions compare with, from left to right. -/
def compared (ds : List Directive) : List Value := (ds.flatMap comparisons).map (·.rhs)

theorem compared_append (ds ds' : List Directive) :
    compared (ds ++ ds') = compared ds ++ compared ds' := by
  rw [compared, List.flatMap_append, List.map_append, compared, compared]

theorem compared_logical (op : LogicalOp) (ds : List Directive) : compared [.logical op ds] = compared ds := by
  rw [compared, List.flatMap_singleton, comparisons, comparisonsAll_eq, compared]

/-- Conditions of the same template, with related values. -/
structure Alike (same : Value → Value → Prop) (ds ds' : List Directive) : Prop where
  template : ds.map Directive.template = ds'.map Directive.template
  values : List.Forall₂ same (compared ds) (compared ds')

namespace Alike

variable {same : Value → Value → Prop}

theorem nil : Alike same [] [] := ⟨rfl, .nil⟩

/-- Directives side by side are alike if they are alike on each side. The texts agree, and the parameters
are related one by one. -/
theorem append {ds ds' es es' : List Directive} (hd : Alike same ds ds') (he : Alike same es es') :
    Alike same (ds ++ es) (ds' ++ es') := by
  refine ⟨by rw [List.map_append, List.map_append, hd.template, he.template], ?_⟩
  rw [compared_append, compared_append]
  exact List.rel_append hd.values he.values

/-- Groups are alike if what they hold is. The operator is written into the text, so it is one and the same.
-/
theorem logical {ds ds' : List Directive} (h : Alike same ds ds') (op : LogicalOp) :
    Alike same [.logical op ds] [.logical op ds'] := by
  refine ⟨?_, by rw [compared_logical, compared_logical]; exact h.values⟩
  rw [List.map_singleton, List.map_singleton, Directive.template, Directive.template, templates_eq,
    templates_eq, h.template]

/-- Comparisons of one field by one operator are alike if the values are related. Relations that are unseen
keep all that the text shows of a value. -/
theorem comparison (hsame : Unseen same) {v v' : Value} (h : same v v') (c : Comparator) (field : Text) :
    Alike same [.comparison (.known c) field v] [.comparison (.known c) field v'] := by
  refine ⟨?_, .cons h .nil⟩
  rw [List.map_singleton, List.map_singleton, Directive.template, Directive.template, hsame.blanked h]

end Alike
end Directive

/-! ## The walk -/

section Walk

open Value

variable {same : Value → Value → Prop}

/-- What entries contribute together, if each of them contributes alike: the first error is the same, or the
contributions are alike one after the other. -/
theorem contributed_parallel {entry : Text → Value → Except QueryError (List Directive)}
    {es es' : List (Text × Value)}
    (h : List.Forall₂ (fun e e' => Parallel (Directive.Alike same) (entry e.1 e.2) (entry e'.1 e'.2)) es es') :
    Parallel (Directive.Alike same) (contributed entry es) (contributed entry es') := by
  unfold contributed
  induction h with
  | nil => exact .ok .nil
  | cons hhere _ ih =>
    rw [List.map_cons, List.map_cons, Contributions.combine, Contributions.combine]
    exact hhere.bind fun _ _ hds => ih.bind fun _ _ hmore => .ok (hds.append hmore)

/-- The elements of two lists that can be walked in parallel, one by one, can be walked in parallel as
elements of an `$or`. -/
theorem orElements_parallel {vs vs' : List Value}
    (h : List.Forall₂ (fun v v' => Parallel (Directive.Alike same) (orElement v) (orElement v')) vs vs') :
    Parallel (Directive.Alike same) (orElements vs) (orElements vs') := by
  induction h with
  | nil => exact .ok .nil
  | cons hhere _ ih =>
    rw [orElements, orElements]
    exact hhere.bind fun _ _ hds => ih.bind fun _ _ hmore => .ok ((hds.logical .and).append hmore)

/-- What a value comes to in the three places of the walk, beside any value that is walked alike. -/
structure WalkedAlike (same : Value → Value → Prop) (v : Value) : Prop where
  field : ∀ v', Matches same v v' → ∀ path,
    Parallel (Directive.Alike same) (fieldDirectives path v) (fieldDirectives path v')
  element : ∀ v', Matches same v v' → Parallel (Directive.Alike same) (orElement v) (orElement v')
  group : ∀ v', GroupMatches same v v' →
    Parallel (fun d d' => Directive.Alike same [d] [d']) (orGroup v) (orGroup v')

/-- A directive key other than `$or` does not begin a group. -/
theorem name_ne_orName {key name : Text} (hname : directiveName? key = some name) (hne : key ≠ "$or") :
    (name == orName) = false := by
  refine beq_false_of_ne fun heq => hne ?_
  rw [key_of_directiveName? hname, heq]
  rfl

/-- Matching entries below a field are walked in parallel if everything below their values is. The key is
the same in both, and so is the branch that it takes. -/
theorem nestedEntry_parallel (hsame : Unseen same) {e e' : Text × Value} (h : EntryMatches same e e')
    (hwalk : WalkedAlike same e.2) (path : Text) :
    Parallel (Directive.Alike same) (nestedEntry path e.1 e.2) (nestedEntry path e'.1 e'.2) := by
  cases h with
  | field hname hv =>
    simp only [nestedEntry, hname]
    exact hwalk.field _ hv _
  | group hv => exact (hwalk.group _ hv).map fun _ _ hd => hd
  -- a directive key: an operator, or one that says nothing here
  | kept hname hne hv =>
    simp only [nestedEntry, hname]
    cases nestedOp? _ with
    | some c => exact .ok (.comparison hsame hv c path)
    | none =>
      simp only [name_ne_orName hname hne, Bool.false_eq_true, if_false]
      exact .ok .nil

/-- The same for matching entries in an element of an `$or`. Here operators say nothing, so values that are
kept need not even be related. -/
theorem orEntry_parallel {e e' : Text × Value} (h : EntryMatches same e e')
    (hwalk : WalkedAlike same e.2) :
    Parallel (Directive.Alike same) (orEntry e.1 e.2) (orEntry e'.1 e'.2) := by
  cases h with
  | field hname hv =>
    simp only [orEntry, hname]
    exact hwalk.field _ hv _
  | group hv => exact (hwalk.group _ hv).map fun _ _ hd => hd
  | kept hname hne hv =>
    simp only [orEntry, hname, name_ne_orName hname hne, Bool.false_eq_true, if_false]
    exact .ok .nil

/-- **Values that are walked alike make the same conditions**, on a field and as a group. The induction is
on the parts of the first value; the second follows it. -/
theorem walkedAlike (hsame : Unseen same) (v : Value) : WalkedAlike same v := by
  -- the three places of the walk call each other, so one induction over the parts carries all three
  induction v using Value.partsInduction with
  | parts v ihfields ihelements =>
    refine ⟨fun v' h path => ?_, fun v' h => ?_, fun v' h => ?_⟩
    · cases h with
      | object hv hv' hfields =>
        rw [fieldDirectives_of_object hv, fieldDirectives_of_object hv']
        refine contributed_parallel (((List.forall₂_and_left _ _).2 ⟨ihfields, hfields⟩).imp ?_)
        rintro e e' ⟨hwalk, he⟩
        exact nestedEntry_parallel hsame he hwalk path
      | kept hv hv' hkept =>
        rw [fieldDirectives_of_not_object hv, fieldDirectives_of_not_object hv']
        exact .ok (.comparison hsame hkept .eq path)
    · cases h with
      | object hv hv' hfields =>
        rw [orElement_of_object hv, orElement_of_object hv']
        refine contributed_parallel (((List.forall₂_and_left _ _).2 ⟨ihfields, hfields⟩).imp ?_)
        rintro e e' ⟨hwalk, he⟩
        exact orEntry_parallel he hwalk
      | kept hv hv' hkept =>
        rw [orElement_of_not_object hv, orElement_of_not_object hv']
        exact .error _
    · cases h with
      | array hv hv' helements =>
        rw [orGroup_of_array hv, orGroup_of_array hv']
        have hall := (List.forall₂_and_left _ _).2 ⟨ihelements, helements⟩
        exact (orElements_parallel (hall.imp fun w w' hw => hw.1.element w' hw.2)).map
          fun _ _ hds => hds.logical .or
      | other hv hv' =>
        rw [orGroup_of_not_array hv, orGroup_of_not_array hv']
        exact .error _

end Walk

/-! ## Filters and statements -/

/-- Two clauses that ask for the same. -/
def Directive.SameClause (d d' : Directive) : Prop :=
  d.isCondition = false ∧ ∀ c : Clauses, c.add d = c.add d'

/-- Contributions with the same clauses and with conditions that are alike. -/
structure Contribution.Alike (same : Value → Value → Prop) (c c' : Contribution) : Prop where
  clauses : List.Forall₂ Directive.SameClause c.clauses c'.clauses
  conditions : Directive.Alike same c.conditions c'.conditions

/-- Statements with the same text and with related parameters. -/
structure Statement.Alike (same : Value → Value → Prop) (st st' : Statement) : Prop where
  text : st.text = st'.text
  params : List.Forall₂ same st.params st'.params

section Fields

variable {same : Value → Value → Prop}

/-- Sort keys are the same for matching objects: their names agree, and what is read off the values is the
direction. -/
theorem sortKeys_of_matches (hsame : Unseen same) {v v' : Value} (hkind : v.kind = v'.kind)
    (h : List.Forall₂ (fun e e' : Text × Value => e.1 = e'.1 ∧ same e.2 e'.2) v.fields v'.fields) :
    sortKeys v = sortKeys v' := by
  unfold sortKeys
  rw [hkind]
  split
  · refine congrArg Except.ok ?_
    generalize v.fields = es, v'.fields = es' at h
    induction h with
    | nil => rfl
    | @cons e e' es es' he _ ih =>
      obtain ⟨key, order⟩ := e
      obtain ⟨key', order'⟩ := e'
      obtain ⟨rfl, horder⟩ : key = key' ∧ same order order' := he
      simp only [List.filterMap_cons, ih, hsame.direction horder]
  · rfl

/-- A field that makes clauses, with the values that it may have: what becomes of an amount, a selection or
an extension is the same for values that are related. -/
theorem clauseField_parallel (hsame : Unseen same) {key name : Text} {v v' : Value}
    (hname : directiveName? key = some name) (hor : key ≠ "$or") (hsort : key ≠ "$sort")
    (h : same v v') :
    Parallel (Contribution.Alike same) (interpretField key v) (interpretField key v') := by
  have hone : ∀ d d' : Directive, d.SameClause d' →
      Parallel (Contribution.Alike same) (.ok ⟨[d], []⟩ : Except QueryError _) (.ok ⟨[d'], []⟩) :=
    fun d d' hd => .ok ⟨.cons hd .nil, .nil⟩
  have hsortName : (name == Text.ofString "sort") = false := by
    refine beq_false_of_ne fun heq => hsort ?_
    rw [key_of_directiveName? hname, heq]
    rfl
  simp only [interpretField, hname, name_ne_orName hname hor, hsortName, Bool.false_eq_true, if_false]
  -- limits, skips, selections, and the other directive keys
  split_ifs
  · refine hone _ _ ⟨rfl, fun c => ?_⟩
    simp only [Clauses.add, hsame.amount h]
  · refine hone _ _ ⟨rfl, fun c => ?_⟩
    simp only [Clauses.add, hsame.amount h]
  · rw [hsame.selected h]
    cases selectedFields v' with
    | error e => exact .error e
    | ok fields => exact hone _ _ ⟨rfl, fun _ => rfl⟩
  · cases Comparator.ofName? name with
    | some c => exact .error _
    | none => exact hone _ _ ⟨rfl, fun _ => rfl⟩

/-- Matching fields at the top of a filter are interpreted in parallel, whatever their key asks for: a
modifier, a group or a condition. -/
theorem interpretField_parallel (hsame : Unseen same) {e e' : Text × Value} (h : FieldMatches same e e') :
    Parallel (Contribution.Alike same) (interpretField e.1 e.2) (interpretField e'.1 e'.2) := by
  cases h with
  | entry hsort he =>
    -- a field or a group is walked in parallel, and a clause is the same on both sides
    cases he with
    | @field key v v' hname hv =>
      simp only [interpretField, hname]
      exact ((walkedAlike hsame v).field _ hv key).bind fun _ _ hds => .ok ⟨.nil, hds⟩
    | @group v v' hv =>
      show Parallel (Contribution.Alike same) (orGroup v >>= fun d => .ok ⟨[], [d]⟩)
        (orGroup v' >>= fun d => .ok ⟨[], [d]⟩)
      exact ((walkedAlike hsame v).group _ hv).bind fun _ _ hd => .ok ⟨.nil, hd⟩
    | kept hname hor hv => exact clauseField_parallel hsame hname hor hsort hv
  | @sort v v' hkind hfields =>
    show Parallel (Contribution.Alike same)
      (sortKeys v >>= fun keys => .ok ⟨[.modifier ⟨.sort, .null, [], keys⟩], []⟩)
      (sortKeys v' >>= fun keys => .ok ⟨[.modifier ⟨.sort, .null, [], keys⟩], []⟩)
    rw [sortKeys_of_matches hsame hkind hfields]
    cases sortKeys v' with
    | error e => exact .error e
    | ok keys => exact .ok ⟨.cons ⟨rfl, fun _ => rfl⟩ .nil, .nil⟩

theorem interpretFields_parallel (hsame : Unseen same) {d d' : Document}
    (h : List.Forall₂ (FieldMatches same) d d') :
    Parallel (Contribution.Alike same) (interpretFields d) (interpretFields d') := by
  induction h with
  | nil => exact .ok ⟨.nil, .nil⟩
  | cons he _ ih =>
    rw [interpretFields, interpretFields]
    exact (interpretField_parallel hsame he).bind fun _ _ hhere => ih.bind fun _ _ hmore =>
      .ok ⟨List.rel_append hhere.clauses hmore.clauses, hhere.conditions.append hmore.conditions⟩

/-- Clauses do not see the difference between directives that ask for the same clauses. -/
theorem Clauses.addAll_of_sameClauses {ds ds' : List Directive}
    (h : List.Forall₂ Directive.SameClause ds ds') (c : Clauses) : c.addAll ds = c.addAll ds' := by
  induction h generalizing c with
  | nil => rfl
  | cons hd _ ih =>
    rw [addAll, addAll, hd.2 c]
    exact bind_congr ih

/-- The parameters are the values of the conditions, without those of the null kind. -/
theorem params_of_compile {options : CompileOptions} {ds : List Directive} {st : Statement}
    (h : compile options ds = .ok st) :
    st.params = (Directive.compared (ds.filter Directive.isCondition)).filter (·.kind != .null) := by
  obtain ⟨fs, hfs, hcond⟩ := compile_ok h
  rw [Directive.compared, comparisons_of_ofDirectives hfs]
  rcases hcond with ⟨rfl, hparams, -⟩ | ⟨-, hparams, -⟩
  · exact hparams
  · rw [hparams, Formula.bind_params, List.nil_append]
    rfl

/-- Directives with the same clauses, and with conditions that are alike, are compiled alike. -/
theorem compile_parallel (hsame : Unseen same) (options : CompileOptions)
    {clauses clauses' conditions conditions' : List Directive}
    (hclauses : List.Forall₂ Directive.SameClause clauses clauses')
    (hconditions : Directive.Alike same conditions conditions')
    (hall : ∀ d ∈ conditions, d.isCondition = true) (hall' : ∀ d ∈ conditions', d.isCondition = true) :
    Parallel (Statement.Alike same) (compile options (clauses ++ conditions))
      (compile options (clauses' ++ conditions')) := by
  have hclear : ∀ d ∈ clauses, d.isCondition = false := ((List.forall₂_and_left _ _).1 hclauses).1
  -- the clauses may be exchanged first, as they leave the same behind
  have hright : compile options (clauses' ++ conditions') = compile options (clauses ++ conditions') := by
    rw [compile_eq_statement, compile_eq_statement, Builder.addAll_append, Builder.addAll_append,
      Clauses.addAll_of_sameClauses hclauses]
  have htext : (compile options (clauses ++ conditions)).map Statement.text
      = (compile options (clauses ++ conditions')).map Statement.text := by
    rw [← compile_template options (clauses ++ conditions),
      ← compile_template options (clauses ++ conditions'), List.map_append, List.map_append,
      hconditions.template]
  have hfilter : ∀ ds : List Directive, (∀ d ∈ ds, d.isCondition = true) →
      (clauses ++ ds).filter Directive.isCondition = ds := by
    intro ds hds
    rw [List.filter_append, filter_isCondition_of_clauses hclear, List.nil_append,
      List.filter_eq_self.2 hds]
  rw [hright]
  -- the texts agree, errors included, so that only the parameters are left to compare
  cases hst : compile options (clauses ++ conditions) with
  | error e =>
    cases hst' : compile options (clauses ++ conditions') with
    | error e' =>
      rw [hst, hst'] at htext
      cases htext
      exact .error _
    | ok st' =>
      rw [hst, hst'] at htext
      cases htext
  | ok st =>
    cases hst' : compile options (clauses ++ conditions') with
    | error e' =>
      rw [hst, hst'] at htext
      cases htext
    | ok st' =>
      rw [hst, hst'] at htext
      refine .ok ⟨Except.ok.inj htext, ?_⟩
      rw [params_of_compile hst, params_of_compile hst', hfilter _ hall, hfilter _ hall']
      refine List.rel_filter (fun v v' hv => ?_) hconditions.values
      show (v.kind != .null) = true ↔ (v'.kind != .null) = true
      rw [hsame.kind hv]

/-- **Filters that are walked alike are compiled alike**: to one text with related parameters, or both with
the same error. Interpreting and compiling are taken one after the other. -/
theorem compile_matches (hsame : Unseen same) (options : CompileOptions) {d d' : Document}
    (h : List.Forall₂ (FieldMatches same) d d') :
    Parallel (Statement.Alike same) (interpret d >>= compile options) (interpret d' >>= compile options) := by
  rw [interpret, interpret, bind_assoc, bind_assoc]
  refine (interpretFields_parallel hsame h).bind fun c c' hc => ?_
  have hempty : c.conditions.isEmpty = c'.conditions.isEmpty := by
    rw [← List.isEmpty_map (f := Directive.template), hc.conditions.template, List.isEmpty_map]
  show Parallel _ (compile options (c.clauses ++ _)) (compile options (c'.clauses ++ _))
  -- either both filters have conditions, joined in one conjunction, or neither has
  rw [hempty]
  split
  · exact compile_parallel hsame options hc.clauses .nil (by simp) (by simp)
  · exact compile_parallel hsame options hc.clauses (hc.conditions.logical .and)
      (by simp [Directive.isCondition]) (by simp [Directive.isCondition])

end Fields

end DocFilter
