import DocFilter.Proofs.Faults
import DocFilter.Query.Builder

/-!
Filters and calls. A filter can be spelled as a sequence of calls on a builder: a call for each of its
clauses, in their order, an ordering key by key, and then a call for each condition of the conjunction
that stands at the end. The two ways do not put the same directives together. The conditions of a
filter are in a group of their own where calls leave them side by side; an ordering by several keys is
one directive or several; and what is wrong with an amount, an ordering or a field is found by the call
or not before the query is compiled.

What counts is that they add up to the same clauses (`Spelled.agrees`), and that a group which is the
only condition is written like its parts (`compile_ungrouped`). Main result (`build_iff_compile`):
every filter that can be interpreted has a spelling, and each of its spellings is built into a
statement exactly if the filter is compiled into this statement.
-/

set_option autoImplicit false

namespace DocFilter

/-- Nothing is no amount, be it nothing at all, an absent table or a reference to nothing. -/
theorem Value.amount?_of_null {v : Value} (h : v.kind = .null) : v.amount? = none := by
  cases v with
  | null => rfl
  | ref target =>
    cases target with
    | none => rfl
    | some n => cases h
  | table ty entries => cases ty <;> cases h
  | _ => cases h

namespace Builder

/-! ## Calls -/

/-- A call on a builder. -/
inductive Step where
  | select (fields : List Text)
  | limit (v : Value)
  | skip (v : Value)
  | sort (fields : List Text) (order : Text)
  | compare (field : Text) (op : CompareOp) (v : Value)
  | or (groups : List Document)
  | add (ds : List Directive)

/-- The builder after a call. -/
def perform (b : Builder) : Step → Builder
  | .select fields => b.select fields
  | .limit v => b.limit v
  | .skip v => b.skip v
  | .sort fields order => b.sort fields order
  | .compare field op v => b.compare field op v
  | .or groups => b.or groups
  | .add ds => b.add ds

/-- The builder after several calls. -/
def run (b : Builder) (steps : List Step) : Builder := steps.foldl perform b

/-- What a call adds, or why it adds nothing. -/
def Step.added : Step → Except QueryError (List Directive)
  | .select fields => .ok [.select fields]
  | .limit v => (Directive.limit v).map ([·])
  | .skip v => (Directive.skip v).map ([·])
  | .sort fields order => (Directive.sort order fields).map ([·])
  | .compare field op v => (Directive.compare field op v).map ([·])
  | .or groups => (orGroup (.list .any (groups.map .doc))).map ([·])
  | .add ds => .ok ds

/-- A call adds what it stands for, if this is defined at all, and else leaves its error. All calls go
through this one form, so that proofs need not go through the calls. -/
theorem perform_eq (b : Builder) (s : Step) : b.perform s = b.addResult s.added := by
  cases s <;> rfl

/-- What several calls add, or the first error. -/
def addedBy : List Step → Except QueryError (List Directive)
  | [] => .ok []
  | s :: rest => do
    let ds ← s.added
    let more ← addedBy rest
    return ds ++ more

/-- Calls one after the other add what the former add and then what the latter add. The first call that
fails decides, on either side. -/
theorem addedBy_append (steps more : List Step) :
    addedBy (steps ++ more) = do
      let ds ← addedBy steps
      let ds' ← addedBy more
      return ds ++ ds' := by
  induction steps with
  | nil =>
    show addedBy more = addedBy more >>= fun ds' => .ok ([] ++ ds')
    cases addedBy more <;> rfl
  | cons s rest ih =>
    rw [List.cons_append, addedBy, addedBy, ih]
    cases s.added with
    | error e => rfl
    | ok ds =>
      cases addedBy rest with
      | error e => rfl
      | ok ds' =>
        cases addedBy more with
        | error e => rfl
        | ok ds'' => exact congrArg Except.ok (List.append_assoc ds ds' ds'').symm

/-- An error stays, whatever calls follow. So a run that ends without an error has had none at any call. -/
theorem run_of_error {b : Builder} {e : QueryError} (h : b.error = some e) (steps : List Step) :
    (b.run steps).error = some e := by
  induction steps generalizing b with
  | nil => exact h
  | cons s rest ih =>
    apply ih
    rw [perform_eq]
    unfold addResult add fail
    cases s.added <;> simp only [h]

/-- A builder is built from what the calls have added, if none of them has failed. -/
theorem build_run {b : Builder} (hb : b.error = none) (steps : List Step)
    (options : CompileOptions → CompileOptions) (st : Statement) :
    (b.run steps).build options = .ok st ↔ ∃ ds, addedBy steps = .ok ds ∧
      compile (options { scope := b.scope }) (b.directives ++ ds) = .ok st := by
  induction steps generalizing b with
  | nil =>
    show b.build options = .ok st ↔ _
    unfold build
    rw [hb]
    simp [addedBy]
  | cons s rest ih =>
    show ((b.perform s).run rest).build options = .ok st ↔ _
    rw [perform_eq, addedBy]
    cases hs : s.added with
    | error e =>
      -- the call fails, and the error stays
      have herror : (b.addResult (.error e)).error = some e := by
        unfold addResult fail
        rw [hb]
      refine iff_of_false ?_ ?_
      · unfold build
        rw [run_of_error herror]
        rintro ⟨⟩
      · rintro ⟨ds, hds, -⟩
        cases hds
    | ok ds =>
      have hadd : b.addResult (.ok ds) = { b with directives := b.directives ++ ds } := by
        unfold addResult add
        rw [hb]
      rw [hadd]
      refine (@ih { b with directives := b.directives ++ ds } hb).trans ?_
      cases addedBy rest with
      | error e =>
        refine iff_of_false ?_ ?_ <;>
        · rintro ⟨ds, hds, -⟩
          cases hds
      | ok more =>
        constructor
        · rintro ⟨_, ⟨⟩, hst⟩
          exact ⟨ds ++ more, rfl, by rwa [← List.append_assoc]⟩
        · rintro ⟨_, ⟨⟩, hst⟩
          exact ⟨more, rfl, by rwa [List.append_assoc]⟩

/-! ## Spellings -/

/-- The calls that stand for a directive. An ordering takes a call for each of its keys, in a
direction that is written in any case, and one without a field if it has no key. -/
inductive Spelled : Directive → List Step → Prop
  | select (fields : List Text) : Spelled (.select fields) [.select fields]
  | limit (v : Value) : Spelled (.modifier ⟨.limit, v, [], []⟩) [.limit v]
  | skip (v : Value) : Spelled (.modifier ⟨.skip, v, [], []⟩) [.skip v]
  | sort {keys : List SortKey} {steps : List Step} : keys ≠ [] →
      List.Forall₂ (fun k s => ∃ order, Direction.parse order = .ok k.direction ∧
        s = .sort [k.field] order) keys steps →
      Spelled (.modifier ⟨.sort, .null, [], keys⟩) steps
  | sortNothing (order : Text) : Spelled (.modifier ⟨.sort, .null, [], []⟩) [.sort [] order]
  | extension (name : Text) (v : Value) : Spelled (.extension name v) [.add [.extension name v]]
  | compare (c : Comparator) (field : Text) (v : Value) :
      Spelled (.comparison (.known c) field v) [.compare field (.known c) v]
  | or {ds : List Directive} (groups : List Document) :
      orGroup (.list .any (groups.map .doc)) = .ok (.logical .or ds) →
      Spelled (.logical .or ds) [.or groups]
  | added (ds : List Directive) : Spelled (.logical .or ds) [.add [.logical .or ds]]

/-- The calls that stand for directives, one after the other. -/
inductive SpelledAll : List Directive → List Step → Prop
  | nil : SpelledAll [] []
  | cons {d : Directive} {ds : List Directive} {steps more : List Step} :
      Spelled d steps → SpelledAll ds more → SpelledAll (d :: ds) (steps ++ more)

/-- The calls that stand for what a filter is interpreted as: the conjunction at the end is spelled as
its parts. -/
inductive Spelling : List Directive → List Step → Prop
  | plain {ds : List Directive} {steps : List Step} : SpelledAll ds steps → Spelling ds steps
  | grouped {clauses conditions : List Directive} {steps more : List Step} :
      SpelledAll clauses steps → SpelledAll conditions more →
      Spelling (clauses ++ [.logical .and conditions]) (steps ++ more)

/-- Spellings of two lists, one behind the other, are a spelling of the lists one behind the other. -/
theorem SpelledAll.append {ds ds' : List Directive} {steps steps' : List Step}
    (h : SpelledAll ds steps) (h' : SpelledAll ds' steps') : SpelledAll (ds ++ ds') (steps ++ steps') := by
  induction h with
  | nil => exact h'
  | cons hd _ ih =>
    rw [List.append_assoc]
    exact .cons hd ih

/-! ## Calls add up to the same clauses -/

/-- The clauses that calls lead to are those of a directive. -/
def Agrees (ds : List Directive) (steps : List Step) (c c' : Clauses) : Prop :=
  (∃ added, addedBy steps = .ok added ∧ c.addAll added = .ok c') ↔
    c.addAll ds = .ok c' ∧ ∀ op v, Directive.comparison op [] v ∉ ds

theorem addAll_singleton (c : Clauses) (d : Directive) : c.addAll [d] = c.add d := by
  show (c.add d >>= fun c' => .ok c') = c.add d
  cases c.add d <;> rfl

/-- A call that adds the directive itself agrees with it, if it is no comparison of the empty field; such a
comparison can be a directive, but no call adds it. -/
theorem agrees_of_added {s : Step} {d : Directive} (h : s.added = .ok [d])
    (hd : ∀ op v, d ≠ .comparison op [] v) (c c' : Clauses) : Agrees [d] [s] c c' := by
  unfold Agrees
  rw [addedBy, h]
  constructor
  · rintro ⟨_, ⟨⟩, hc⟩
    refine ⟨hc, fun op v hmem => hd op v (List.mem_singleton.1 hmem).symm⟩
  · rintro ⟨hc, -⟩
    exact ⟨_, rfl, hc⟩

/-- A call that fails, where the directive could not have been compiled. -/
theorem agrees_of_failed {s : Step} {d : Directive} {e : QueryError} (h : s.added = .error e)
    (c c' : Clauses) (hd : c.add d = .ok c' → ∃ op v, d = .comparison op [] v) : Agrees [d] [s] c c' := by
  unfold Agrees
  rw [addedBy, h, addAll_singleton]
  refine iff_of_false ?_ ?_
  · rintro ⟨_, ⟨⟩, -⟩
  · rintro ⟨hc, hnot⟩
    obtain ⟨op, v, rfl⟩ := hd hc
    exact hnot op v List.mem_cons_self

/-- A limit or a skip: the call finds at once that there is no amount. -/
theorem agrees_amount {s : Step} {kind : ModifierKind} {v : Value}
    (h : s.added = (Directive.amount kind v).map ([·]))
    (hnull : v.amount? = none → ∀ c c' : Clauses, c.add (.modifier ⟨kind, v, [], []⟩) ≠ .ok c')
    (c c' : Clauses) : Agrees [.modifier ⟨kind, v, [], []⟩] [s] c c' := by
  unfold Directive.amount at h
  by_cases hv : v.kind = .null
  · rw [if_pos (by simpa using hv)] at h
    exact agrees_of_failed h c c' fun hc => absurd hc (hnull (Value.amount?_of_null hv) c c')
  · rw [if_neg (by simpa using hv)] at h
    exact agrees_of_added h (by rintro op v ⟨⟩) c c'

/-- The keys of an ordering can be added one at a time, by one call for each key with a word for its
direction. The clauses are the same as if the ordering had been added at once. -/
theorem addAll_sorts {keys : List SortKey} {steps : List Step}
    (h : List.Forall₂ (fun k s => ∃ order, Direction.parse order = .ok k.direction ∧
      s = .sort [k.field] order) keys steps) (c : Clauses) :
    ∃ added, addedBy steps = .ok added ∧ c.addAll added = .ok { c with order := c.order ++ keys } := by
  induction h generalizing c with
  | nil => exact ⟨[], rfl, by rw [List.append_nil]; rfl⟩
  | @cons k s keys steps hs _ ih =>
    obtain ⟨order, horder, rfl⟩ := hs
    -- the first key is added by the first call, and the others behind it
    obtain ⟨added, hadded, hc⟩ := ih { c with order := c.order ++ [k] }
    refine ⟨.modifier ⟨.sort, .null, [], [k]⟩ :: added, ?_, ?_⟩
    · have hk : (Step.sort [k.field] order).added = .ok [.modifier ⟨.sort, .null, [], [k]⟩] := by
        show ((Direction.parse order >>= _ : Except QueryError Directive)).map _ = _
        rw [horder]
        rfl
      rw [addedBy, hk, hadded]
      rfl
    · show Clauses.addAll { c with order := c.order ++ [k] } added = _
      rw [hc, List.append_assoc, List.singleton_append]

/-- A directive and its spelling add up to the same clauses, or fail both, wherever they are added. There is
a case for each way to spell a directive; an ordering is the only one with several calls. -/
theorem Spelled.agrees {d : Directive} {steps : List Step} (h : Spelled d steps) (c c' : Clauses) :
    Agrees [d] steps c c' := by
  cases h with
  | select fields => exact agrees_of_added rfl (by rintro op v ⟨⟩) c c'
  | limit v =>
    refine agrees_amount rfl (fun hv c c' => ?_) c c'
    rw [Clauses.add]
    simp [hv]
  | skip v =>
    refine agrees_amount rfl (fun hv c c' => ?_) c c'
    rw [Clauses.add]
    simp [hv]
  | @sort keys steps hne hkeys =>
    -- the calls add an ordering for each key, the directive one for all of them
    obtain ⟨added, hadded, hc⟩ := addAll_sorts hkeys c
    have hadd : c.add (.modifier ⟨.sort, .null, [], keys⟩)
        = .ok { c with order := c.order ++ keys } := by
      rw [Clauses.add]
      exact if_neg (by simpa using hne)
    unfold Agrees
    rw [addAll_singleton, hadd]
    constructor
    · rintro ⟨added', hadded', hc'⟩
      cases hadded.symm.trans hadded'
      exact ⟨hc.symm.trans hc', by rintro op v (⟨⟩ | ⟨_, ⟨⟩⟩)⟩
    · rintro ⟨hc', -⟩
      exact ⟨added, hadded, hc.trans hc'⟩
  | sortNothing order => exact agrees_of_failed rfl c c' (by rintro ⟨⟩)
  | extension name v => exact agrees_of_added rfl (by rintro op v ⟨⟩) c c'
  | compare op field v =>
    -- the call refuses the empty field, which the directive carries on to the formula
    by_cases hfield : field = []
    · subst hfield
      exact agrees_of_failed rfl c c' fun _ => ⟨_, v, rfl⟩
    · refine agrees_of_added ?_ ?_ c c'
      · unfold Step.added Directive.compare
        dsimp only
        rw [if_neg (by simpa using hfield)]
        rfl
      · rintro _ _ ⟨⟩
        exact hfield rfl
  | or groups hgroup =>
    refine agrees_of_added ?_ (by rintro op v ⟨⟩) c c'
    unfold Step.added
    dsimp only
    rw [hgroup]
    rfl
  | added ds => exact agrees_of_added rfl (by rintro op v ⟨⟩) c c'

/-- Gathering directives one list behind the other: the second list goes on with the clauses of the first.
-/
theorem addAll_append (c : Clauses) (ds ds' : List Directive) :
    c.addAll (ds ++ ds') = c.addAll ds >>= fun c' => c'.addAll ds' := by
  induction ds generalizing c with
  | nil => rfl
  | cons d rest ih =>
    rw [List.cons_append, Clauses.addAll, Clauses.addAll]
    cases c.add d with
    | error e => rfl
    | ok c₁ => exact ih c₁

/-- A list of directives and its spelling add up to the same clauses, or fail both. The induction is on the
spelling; what fails first may differ, and that it fails is the same. -/
theorem SpelledAll.agrees {ds : List Directive} {steps : List Step} (h : SpelledAll ds steps)
    (c c' : Clauses) : Agrees ds steps c c' := by
  induction h generalizing c with
  | nil => simp [Agrees, addedBy]
  | @cons d ds steps more hd _ ih =>
    unfold Agrees at ih ⊢
    rw [addedBy_append]
    constructor
    -- from calls to directives: what the calls add falls into what the first and what the others add
    · rintro ⟨added, hadded, hc⟩
      obtain ⟨here, hhere, hadded⟩ := bind_eq_ok hadded
      obtain ⟨rest, hrest, hadded⟩ := bind_eq_ok hadded
      cases hadded
      rw [addAll_append] at hc
      obtain ⟨c₁, hc₁, hc⟩ := bind_eq_ok hc
      obtain ⟨hone, hfield⟩ := (hd.agrees c c₁).1 ⟨here, hhere, hc₁⟩
      obtain ⟨hmore, hfields⟩ := (ih c₁).1 ⟨rest, hrest, hc⟩
      rw [addAll_singleton] at hone
      refine ⟨by rw [Clauses.addAll, hone]; exact hmore, fun op v hmem => ?_⟩
      rcases List.mem_cons.1 hmem with rfl | hmem
      · exact hfield op v List.mem_cons_self
      · exact hfields op v hmem
    -- and from directives to calls, through the same clauses in between
    · rintro ⟨hc, hfields⟩
      rw [Clauses.addAll] at hc
      obtain ⟨c₁, hone, hmore⟩ := bind_eq_ok hc
      rw [← addAll_singleton] at hone
      obtain ⟨here, hhere, hc₁⟩ := (hd.agrees c c₁).2
        ⟨hone, fun op v hmem => hfields op v (List.mem_cons.2 (.inl (List.mem_singleton.1 hmem)))⟩
      obtain ⟨rest, hrest, hc'⟩ := (ih c₁).2
        ⟨hmore, fun op v hmem => hfields op v (List.mem_cons_of_mem _ hmem)⟩
      refine ⟨here ++ rest, ?_, ?_⟩
      · rw [hhere, hrest]
        rfl
      · rw [addAll_append, hc₁]
        exact hc'

end Builder

/-! ## Compiling from clauses -/

/-- The statement of clauses. -/
def Clauses.statement (options : CompileOptions) (c : Clauses) : Except QueryError Statement := do
  let condition ← conditionOf c.conditions
  let bound := condition.map (Formula.bind {})
  let columns := if c.selected.isEmpty then [options.projection] else c.selected
  let s : Select := ⟨columns, options.scope, bound.map (·.1), c.order, c.limit, c.skip⟩
  return ⟨s.text, (bound.map (·.2.params)).getD []⟩

/-- Compiling is gathering the clauses and then writing the statement. The two steps are treated apart:
spellings agree in the first, and groups are opened in the second. -/
theorem compile_eq_statement (options : CompileOptions) (ds : List Directive) :
    compile options ds = ({} : Clauses).addAll ds >>= Clauses.statement options := by
  rw [compile, select]
  cases ({} : Clauses).addAll ds with
  | error e => rfl
  | ok c =>
    show (conditionOf c.conditions >>= _) >>= _ = Clauses.statement options c
    unfold Clauses.statement
    cases conditionOf c.conditions <;> rfl

/-- If a list of directives has formulas, each directive in it has one. -/
theorem Formula.ofDirective_of_mem {ds : List Directive} {fs : List (Formula Value)}
    (h : ofDirectives ds = .ok fs) {d : Directive} (hd : d ∈ ds) : ∃ f, ofDirective d = .ok f := by
  induction ds generalizing fs with
  | nil => cases hd
  | cons d₀ rest ih =>
    rw [ofDirectives] at h
    obtain ⟨f, hf, h⟩ := bind_eq_ok h
    obtain ⟨gs, hgs, -⟩ := bind_eq_ok h
    rcases List.mem_cons.1 hd with rfl | hd
    · exact ⟨f, hf⟩
    · exact ih hgs hd

/-- A comparison of the empty field is never compiled. -/
theorem compile_fielded {options : CompileOptions} {ds : List Directive} {st : Statement}
    (h : compile options ds = .ok st) (op : CompareOp) (v : Value) :
    Directive.comparison op [] v ∉ ds := by
  intro hmem
  obtain ⟨fs, hfs, -⟩ := compile_ok h
  obtain ⟨f, hf⟩ := Formula.ofDirective_of_mem hfs (List.mem_filter.2 ⟨hmem, rfl⟩)
  cases hf

/-- Conditions are gathered as they are, behind those that are there, and nothing can go wrong with them at
this point. -/
theorem Clauses.addAll_of_conditions {ds : List Directive} (h : ∀ d ∈ ds, d.isCondition = true)
    (c : Clauses) : c.addAll ds = .ok { c with conditions := c.conditions ++ ds } := by
  induction ds generalizing c with
  | nil =>
    rw [List.append_nil]
    rfl
  | cons d rest ih =>
    obtain ⟨hd, hrest⟩ := List.forall_mem_cons.1 h
    have hadd : c.add d = .ok { c with conditions := c.conditions ++ [d] } := by
      cases d with
      | comparison op field v => rfl
      | logical op children => rfl
      -- these are no conditions
      | modifier m | extension name v | missing => cases hd
    rw [addAll, hadd]
    refine (ih hrest _).trans ?_
    rw [List.append_assoc, List.singleton_append]

/-- A conjunction that is the only condition is written like its parts side by side. -/
theorem Clauses.statement_ungrouped (options : CompileOptions) (c : Clauses) {ds : List Directive}
    (hne : ds ≠ []) :
    statement options { c with conditions := [.logical .and ds] }
      = statement options { c with conditions := ds } := by
  have hgroup : conditionOf [.logical .and ds]
      = (Formula.ofDirectives ds).map fun fs => some (.all [.all fs]) := by
    rw [conditionOf, if_neg (by simp), Formula.ofDirectives, Formula.ofDirective]
    cases Formula.ofDirectives ds <;> rfl
  have hflat : conditionOf ds = (Formula.ofDirectives ds).map fun fs => some (.all fs) := by
    rw [conditionOf, if_neg (by simpa using hne)]
    cases Formula.ofDirectives ds <;> rfl
  unfold statement
  dsimp only
  rw [hgroup, hflat]
  cases Formula.ofDirectives ds with
  | error e => rfl
  | ok fs =>
    -- both bind the same values in the same order, and the outer conjunction writes nothing
    refine congrArg Except.ok (congrArg₂ Statement.mk ?_ rfl)
    rw [Select.text_eq, Select.text_eq]
    rfl

/-- A group of conditions that stands alone compiles to the same statement as its parts. It is written as a
conjunction of one part, and the parts as a conjunction of their own, which is the same text. -/
theorem compile_ungrouped (options : CompileOptions) {clauses conditions : List Directive}
    (hclauses : ∀ d ∈ clauses, d.isCondition = false)
    (hconditions : ∀ d ∈ conditions, d.isCondition = true) (hne : conditions ≠ []) :
    compile options (clauses ++ [.logical .and conditions]) = compile options (clauses ++ conditions) := by
  rw [compile_eq_statement, compile_eq_statement, Builder.addAll_append, Builder.addAll_append]
  cases hc : ({} : Clauses).addAll clauses with
  | error e => rfl
  | ok c =>
    -- the clauses before the group leave no condition behind
    have hnone : c.conditions = [] := by
      rw [Clauses.addAll_conditions hc, filter_isCondition_of_clauses hclauses]
      rfl
    show (c.addAll [.logical .and conditions] >>= _) = (c.addAll conditions >>= _)
    rw [Clauses.addAll_of_conditions (fun d hd => by rw [List.mem_singleton.1 hd]; rfl),
      Clauses.addAll_of_conditions hconditions, hnone]
    exact Clauses.statement_ungrouped options c hne

namespace Builder

/-- Calls that stand for directives are built into the statement of these directives. -/
theorem build_spelled {ds : List Directive} {steps : List Step} (h : SpelledAll ds steps) (scope : Text)
    (options : CompileOptions → CompileOptions) (st : Statement) :
    (run { scope := scope } steps).build options = .ok st ↔
      compile (options { scope := scope }) ds = .ok st := by
  rw [build_run rfl]
  show (∃ added, addedBy steps = .ok added ∧ compile (options { scope := scope }) added = .ok st) ↔ _
  constructor
  · rintro ⟨added, hadded, hst⟩
    rw [compile_eq_statement] at hst ⊢
    obtain ⟨c, hc, hst⟩ := bind_eq_ok hst
    rw [((h.agrees {} c).1 ⟨added, hadded, hc⟩).1]
    exact hst
  · intro hst
    -- the calls would have refused the empty field, but then there would be no statement
    have hfields := compile_fielded hst
    rw [compile_eq_statement] at hst
    obtain ⟨c, hc, hst⟩ := bind_eq_ok hst
    obtain ⟨added, hadded, hc'⟩ := (h.agrees {} c).2 ⟨hc, hfields⟩
    refine ⟨added, hadded, ?_⟩
    rw [compile_eq_statement, hc']
    exact hst

end Builder

/-! ## What a filter is interpreted as -/

/-- A condition at the top of a filter: a comparison with a known operator, or the group that a payload
of `$or` makes. -/
inductive Directive.Topmost : Directive → Prop
  | comparison (c : Comparator) (field : Text) (v : Value) : Topmost (.comparison (.known c) field v)
  | group {ds : List Directive} (v : Value) : orGroup v = .ok (.logical .or ds) → Topmost (.logical .or ds)

/-- The group of an `$or` is a disjunction, and can stand on top of a filter. -/
theorem topmost_of_orGroup {v : Value} {d : Directive} (h : orGroup v = .ok d) : d.Topmost := by
  by_cases harray : v.kind = .array
  · have hd := h
    rw [orGroup_of_array harray] at hd
    obtain ⟨ds, -, rfl⟩ := map_eq_ok_iff.1 hd
    exact .group v h
  · rw [orGroup_of_not_array harray] at h
    cases h

/-- A directive among the contributions of entries is contributed by one of them. -/
theorem contributed_mem {entry : Text → Value → Except QueryError (List Directive)}
    {entries : List (Text × Value)} {ds : List Directive} (h : contributed entry entries = .ok ds)
    {x : Directive} (hx : x ∈ ds) : ∃ e ∈ entries, ∃ here, entry e.1 e.2 = .ok here ∧ x ∈ here := by
  induction entries generalizing ds with
  | nil =>
    cases h
    cases hx
  | cons e rest ih =>
    obtain ⟨here, more, hhere, hmore, rfl⟩ := Contributions.combine_cons_ok h
    rcases List.mem_append.1 hx with hx | hx
    · exact ⟨e, List.mem_cons_self, here, hhere, hx⟩
    · obtain ⟨e', he', h'⟩ := ih hmore hx
      exact ⟨e', List.mem_cons_of_mem _ he', h'⟩

/-- The conditions on a field are comparisons and disjunctions: what an object below a field gives is spread
out, and never a conjunction of its own. -/
theorem fieldDirectives_topmost (v : Value) : ∀ {path : Text} {ds : List Directive},
    fieldDirectives path v = .ok ds → ∀ x ∈ ds, x.Topmost := by
  induction v using Value.partsInduction with
  | parts v ihFields _ =>
  intro path ds h x hx
  by_cases hobject : v.kind = .object
  · rw [fieldDirectives_of_object hobject] at h
    obtain ⟨e, he, here, hhere, hx⟩ := contributed_mem h hx
    -- an entry of an object compares the field, makes a group of its own or goes further down
    unfold nestedEntry at hhere
    split at hhere
    · split at hhere
      · cases hhere
        rw [List.mem_singleton.1 hx]
        exact .comparison _ path e.2
      · split at hhere
        · obtain ⟨d, hd, rfl⟩ := map_eq_ok_iff.1 hhere
          rw [List.mem_singleton.1 hx]
          exact topmost_of_orGroup hd
        · cases hhere
          cases hx
    · exact ihFields e he hhere x hx
  · rw [fieldDirectives_of_not_object hobject] at h
    cases h
    rw [List.mem_singleton.1 hx]
    exact .comparison .eq path v

/-- The elements of a group can be written as documents: an element that contributes anything is an object,
and all that counts about an object are its fields. -/
theorem orElements_documents {items : List Value} {ds : List Directive} (h : orElements items = .ok ds) :
    orElements (items.map fun w => .doc w.fields) = .ok ds := by
  induction items generalizing ds with
  | nil => exact h
  | cons w rest ih =>
    rw [orElements] at h
    obtain ⟨group, hgroup, h⟩ := bind_eq_ok h
    obtain ⟨more, hmore, h⟩ := bind_eq_ok h
    have hobject : w.kind = .object := by
      by_contra hne
      rw [orElement_of_not_object hne] at hgroup
      cases hgroup
    rw [orElement_of_object hobject] at hgroup
    have hdoc : orElement (.doc w.fields) = .ok group := (orElement_of_object rfl).trans hgroup
    rw [List.map_cons, orElements, hdoc, ih hmore]
    exact h

/-- An `$or` can be given as a list of documents with the same fields. A call takes documents only, while a
filter may have tables in their place. -/
theorem orGroup_documents {v : Value} {d : Directive} (h : orGroup v = .ok d) :
    orGroup (.list .any ((v.elements.map Value.fields).map .doc)) = .ok d := by
  by_cases harray : v.kind = .array
  · rw [orGroup_of_array harray] at h
    obtain ⟨ds, hds, rfl⟩ := map_eq_ok_iff.1 h
    rw [orGroup_of_array rfl, List.map_map]
    exact map_eq_ok_iff.2 ⟨ds, orElements_documents hds, rfl⟩
  · rw [orGroup_of_not_array harray] at h
    cases h

/-- The directions of an ordering are read back from their words. A value stands for the one direction or
for the other, and each of them has a word of its own. -/
theorem parse_of_sortKeys {v : Value} {keys : List SortKey} (h : sortKeys v = .ok keys) :
    ∀ k ∈ keys, Direction.parse k.direction.word = .ok k.direction := by
  have hparse : ∀ w, Direction.parse (sortDirection w).word = .ok (sortDirection w) := by
    intro w
    unfold sortDirection
    split
    · split <;> rfl
    · rfl
  unfold sortKeys at h
  split at h
  · cases h
    intro k hk
    obtain ⟨⟨key, order⟩, -, hk⟩ := List.mem_filterMap.1 hk
    dsimp only at hk
    split at hk
    · cases hk
    · cases hk
      exact hparse order
  · cases h

namespace Builder

/-- Calls among which only extensions are added as they are. -/
def Proper (steps : List Step) : Prop := ∀ ds, .add ds ∈ steps → ∃ name v, ds = [.extension name v]

/-- A directive with a spelling in proper calls. -/
def Spellable (d : Directive) : Prop := ∃ steps, Spelled d steps ∧ Proper steps

/-- Directives that can be spelled one by one can be spelled together, without a call that adds directives
as they are. -/
theorem spelledAll_of_spellable {ds : List Directive} (h : ∀ d ∈ ds, Spellable d) :
    ∃ steps, SpelledAll ds steps ∧ Proper steps := by
  induction ds with
  | nil => exact ⟨[], .nil, by rintro ds ⟨⟩⟩
  | cons d rest ih =>
    obtain ⟨⟨steps, hsteps, hproper⟩, hrest⟩ := List.forall_mem_cons.1 h
    obtain ⟨more, hmore, hproper'⟩ := ih hrest
    refine ⟨steps ++ more, .cons hsteps hmore, fun ds hds => ?_⟩
    exact (List.mem_append.1 hds).elim (hproper ds) (hproper' ds)

theorem Spellable.of_step {d : Directive} {s : Step} (h : Spelled d [s]) (hs : ∀ ds, s ≠ .add ds) :
    Spellable d :=
  ⟨[s], h, fun ds hds => absurd (List.mem_singleton.1 hds).symm (hs ds)⟩

/-- Comparisons and disjunctions can be spelled: the former by a call for the comparison, the latter by a
call for the group. -/
theorem spellable_of_topmost {d : Directive} (h : d.Topmost) : Spellable d := by
  cases h with
  | comparison c field v => exact .of_step (.compare c field v) (by rintro ds ⟨⟩)
  | group v hv => exact .of_step (.or _ (orGroup_documents hv)) (by rintro ds ⟨⟩)

/-- An ordering can be spelled key by key, since orderings add up. -/
theorem spellable_sort {v : Value} {keys : List SortKey} (h : sortKeys v = .ok keys) :
    Spellable (.modifier ⟨.sort, .null, [], keys⟩) := by
  by_cases hkeys : keys = []
  · subst hkeys
    exact .of_step (.sortNothing []) (by rintro ds ⟨⟩)
  · have hdirection := parse_of_sortKeys h
    -- a call for each key, with the word of its direction
    refine ⟨keys.map fun k => .sort [k.field] k.direction.word, .sort hkeys ?_, ?_⟩
    · rw [List.forall₂_map_right_iff, List.forall₂_same]
      exact fun k hk => ⟨_, hdirection k hk, rfl⟩
    · intro ds hds
      obtain ⟨k, -, hk⟩ := List.mem_map.1 hds
      cases hk

/-- Whatever a field of a filter contributes can be spelled. The cases are those of the key: a limit, a
skip, a selection, an ordering, an extension, a group, or a field. -/
theorem spellable_of_interpretField {key : Text} {v : Value} {part : Contribution}
    (h : interpretField key v = .ok part) : ∀ x ∈ part.clauses ++ part.conditions, Spellable x := by
  have hreading := interpretField_reading key v
  rw [h] at hreading
  -- the reading is split on, and each case says what the contribution is
  generalize hr : (Except.ok part : Except QueryError Contribution) = r at hreading
  intro x hx
  cases hreading with
  | ordinary hname =>
    obtain ⟨ds, hds, rfl⟩ := map_eq_ok_iff.1 hr.symm
    exact spellable_of_topmost (fieldDirectives_topmost v hds x hx)
  | group hkey =>
    obtain ⟨d, hd, rfl⟩ := map_eq_ok_iff.1 hr.symm
    rw [List.mem_singleton.1 hx]
    exact spellable_of_topmost (topmost_of_orGroup hd)
  | limit hkey =>
    cases hr
    rw [List.mem_singleton.1 hx]
    exact .of_step (.limit v) (by rintro ds ⟨⟩)
  | skip hkey =>
    cases hr
    rw [List.mem_singleton.1 hx]
    exact .of_step (.skip v) (by rintro ds ⟨⟩)
  | select hkey =>
    obtain ⟨fields, -, rfl⟩ := map_eq_ok_iff.1 hr.symm
    rw [List.mem_singleton.1 hx]
    exact .of_step (.select fields) (by rintro ds ⟨⟩)
  | sort hkey =>
    obtain ⟨keys, hkeys, rfl⟩ := map_eq_ok_iff.1 hr.symm
    rw [List.mem_singleton.1 hx]
    exact spellable_sort hkeys
  -- comparison keys at the top contribute nothing but an error
  | comparison c hkey => cases hr
  | extension name hname hkey =>
    cases hr
    rw [List.mem_singleton.1 hx]
    refine ⟨_, .extension name v, fun ds hds => ?_⟩
    cases List.mem_singleton.1 hds
    exact ⟨name, v, rfl⟩

/-- Whatever a filter contributes can be spelled, field by field. The contributions of the first field and
those of the others are put together kind by kind, so what is in the whole is in one of the two. -/
theorem spellable_of_interpretFields {d : Document} {parts : Contribution}
    (h : interpretFields d = .ok parts) : ∀ x ∈ parts.clauses ++ parts.conditions, Spellable x := by
  induction d generalizing parts with
  | nil =>
    cases h
    rintro x ⟨⟩
  | cons field rest ih =>
    rw [interpretFields] at h
    obtain ⟨here, hhere, h⟩ := bind_eq_ok h
    obtain ⟨more, hmore, h⟩ := bind_eq_ok h
    cases h
    intro x hx
    have hmem : x ∈ here.clauses ++ here.conditions ∨ x ∈ more.clauses ++ more.conditions := by
      simp only [List.mem_append] at hx ⊢
      tauto
    exact hmem.elim (spellable_of_interpretField hhere x) (ih hmore x)

end Builder

theorem Directive.Regular.isCondition {d : Directive} (h : d.Regular) : d.isCondition = true := by
  cases h <;> rfl

/-- A filter is interpreted as clauses and the conjunction of its conditions. -/
theorem interpret_parts {d : Document} {ds : List Directive} (h : interpret d = .ok ds) :
    ∃ parts, interpretFields d = .ok parts ∧ ds = parts.clauses ++ conjunction parts.conditions := by
  rw [interpret] at h
  obtain ⟨parts, hparts, h⟩ := bind_eq_ok h
  cases h
  exact ⟨parts, hparts, rfl⟩

/-- The conjunction at the end of an interpreted filter is its only condition and is not empty. -/
theorem interpret_grouped {d : Document} {clauses conditions : List Directive}
    (h : interpret d = .ok (clauses ++ [.logical .and conditions])) :
    (∀ x ∈ clauses, x.isCondition = false) ∧ (∀ x ∈ conditions, x.isCondition = true) ∧
      conditions ≠ [] := by
  obtain ⟨parts, hparts, hds⟩ := interpret_parts h
  have hclauses := (interpretFields_denotes hparts).2
  have hreads := interpretFields_reads d
  rw [hparts] at hreads
  unfold conjunction at hds
  by_cases hempty : parts.conditions = []
  · -- without conditions there is no conjunction either
    rw [hempty, List.isEmpty_nil, if_pos rfl, List.append_nil] at hds
    have hlast := hclauses (.logical .and conditions) (by rw [← hds]; simp)
    cases hlast
  · rw [if_neg (by simpa using hempty)] at hds
    obtain ⟨hfront, hlast⟩ := List.append_inj' hds rfl
    cases hlast
    subst hfront
    exact ⟨hclauses, fun x hx => (hreads.regular x hx).isCondition, hempty⟩

namespace Builder

/-- **Calls and filters agree.** Every filter that can be interpreted has a spelling in calls, one in
which only extensions are added as they are; and whatever the scope and the further options, each of
its spellings is built into a statement exactly if the filter is compiled into this statement. -/
theorem build_iff_compile (d : Document) (ds : List Directive) (hd : DocFilter.interpret d = .ok ds) :
    (∃ steps, Spelling ds steps ∧ Proper steps) ∧
      ∀ steps, Spelling ds steps →
        ∀ (scope : Text) (options : CompileOptions → CompileOptions) (st : Statement),
          (run { scope := scope } steps).build options = .ok st ↔
            compile (options { scope := scope }) ds = .ok st := by
  constructor
  -- a spelling: clauses first, and then the conditions of the conjunction, if there are any
  · obtain ⟨parts, hparts, rfl⟩ := interpret_parts hd
    have hspellable := spellable_of_interpretFields hparts
    obtain ⟨steps, hsteps, hproper⟩ := spelledAll_of_spellable
      fun x hx => hspellable x (List.mem_append_left _ hx)
    obtain ⟨more, hmore, hproper'⟩ := spelledAll_of_spellable
      fun x hx => hspellable x (List.mem_append_right _ hx)
    unfold conjunction
    split
    · rw [List.append_nil]
      exact ⟨steps, .plain hsteps, hproper⟩
    · exact ⟨steps ++ more, .grouped hsteps hmore,
        fun xs hxs => (List.mem_append.1 hxs).elim (hproper xs) (hproper' xs)⟩
  -- all spellings: a conjunction at the end counts like its parts, since they are conditions
  · intro steps hsteps scope options st
    cases hsteps with
    | plain h => exact build_spelled h scope options st
    | grouped hclauses hconditions =>
      obtain ⟨hnone, hall, hne⟩ := interpret_grouped hd
      rw [compile_ungrouped _ hnone hall hne]
      exact build_spelled (hclauses.append hconditions) scope options st

/-- An ordering that rises by one key and falls by another. -/
def surveyOrder : Value := .doc [("name", .int .int 1), ("age", .int .int (-1))]

/-- A filter with an ordering, a group of a table and a document, a limit and an extension. -/
def surveyFilter : Document :=
  [("floor", .doc [("$gte", .int .int 1)]), ("$sort", surveyOrder),
    ("$or", .list .any [.table .any [("name", .text "attic")], .doc [("volume", .doc [("$gt", .int .int 40)])]]),
    ("$limit", .int .int 10), ("$consistency", .text "bounded")]

/-- What the filter is interpreted as. -/
def surveyDirectives : List Directive :=
  [.modifier ⟨.sort, .null, [], [⟨"name", .asc⟩, ⟨"age", .desc⟩]⟩,
    .modifier ⟨.limit, .int .int 10, [], []⟩, .extension "consistency" (.text "bounded"),
    .logical .and [.comparison (.known .gte) "floor" (.int .int 1),
      .logical .or [.logical .and [.comparison (.known .eq) "name" (.text "attic")],
        .logical .and [.comparison (.known .gt) "volume" (.int .int 40)]]]]

/-- A spelling of the filter. -/
def surveyCalls : List Step :=
  [.sort ["name"] "", .sort ["age"] "DESC", .limit (.int .int 10),
    .add [.extension "consistency" (.text "bounded")], .compare "floor" (.known .gte) (.int .int 1),
    .or [[("name", .text "attic")], [("volume", .doc [("$gt", .int .int 40)])]]]

/-- The filter of the example is interpreted as the directives that are listed for it. -/
theorem interpret_survey : DocFilter.interpret surveyFilter = .ok surveyDirectives := by
  have hup : sortDirection (.int .int 1) = .asc := by decide +kernel
  have hdown : sortDirection (.int .int (-1)) = .desc := by decide +kernel
  have hkeys : sortKeys surveyOrder = .ok [⟨"name", .asc⟩, ⟨"age", .desc⟩] := by
    rw [← hup, ← hdown]
    rfl
  have hsort : interpretField "$sort" surveyOrder
      = .ok ⟨[.modifier ⟨.sort, .null, [], [⟨"name", .asc⟩, ⟨"age", .desc⟩]⟩], []⟩ := by
    show (sortKeys surveyOrder >>= _) = _
    rw [hkeys]
    rfl
  rw [DocFilter.interpret, surveyFilter, interpretFields, interpretFields, hsort]
  rfl

/-- The calls of the example are a spelling of these directives. -/
theorem spelling_survey : Spelling surveyDirectives surveyCalls := by
  have hsort : Spelled (.modifier ⟨.sort, .null, [], [⟨"name", .asc⟩, ⟨"age", .desc⟩]⟩)
      [.sort ["name"] "", .sort ["age"] "DESC"] :=
    .sort (by simp) (.cons ⟨_, rfl, rfl⟩ (.cons ⟨_, rfl, rfl⟩ .nil))
  exact Spelling.grouped
    (.cons hsort (.cons (.limit (.int .int 10)) (.cons (.extension "consistency" (.text "bounded")) .nil)))
    (.cons (.compare .gte "floor" (.int .int 1)) (.cons (.or
      [[("name", .text "attic")], [("volume", .doc [("$gt", .int .int 40)])]] rfl) .nil))

/-- The calls are built into the statement of the filter: a condition, a group, an ordering by two fields in
two directions, and a limit. -/
theorem surveyCalls_built :
    DocFilter.interpret surveyFilter = .ok surveyDirectives ∧ Spelling surveyDirectives surveyCalls ∧
      ∃ st, (run { scope := "rooms" } surveyCalls).build id = .ok st ∧
        compile { scope := "rooms" } surveyDirectives = .ok st ∧
        st.text = Text.ofString "SELECT `rooms`.* FROM `rooms` WHERE `floor` >= $1" ++ Text.ofString
          " AND ((`name` = $2) OR (`volume` > $3)) ORDER BY `name` ASC, `age` DESC LIMIT 10" := by
  have hselect : DocFilter.select { scope := "rooms" } surveyDirectives = .ok (⟨["*"], "rooms",
      some (.all [.all [.compare "floor" .gte (.placeholder 1),
        .any [.all [.compare "name" .eq (.placeholder 2)], .all [.compare "volume" .gt (.placeholder 3)]]]]),
      [⟨"name", .asc⟩, ⟨"age", .desc⟩], some 10, none⟩, [.int .int 1, .text "attic", .int .int 40]) :=
    rfl
  obtain ⟨st, hst⟩ : ∃ st, compile { scope := "rooms" } surveyDirectives = .ok st := by
    rw [compile, hselect]
    exact ⟨_, rfl⟩
  refine ⟨interpret_survey, spelling_survey, st, ?_, hst, ?_⟩
  · exact ((build_iff_compile surveyFilter surveyDirectives interpret_survey).2 surveyCalls
      spelling_survey "rooms" id st).2 hst
  · rw [compile, hselect] at hst
    cases hst
    decide +kernel

end Builder

end DocFilter
