import DocFilter.Proofs.Sites

/-!
What is wrong with a filter. Faults are found in two stages. Interpreting finds what has the wrong
shape: comparison keys with no field in front of them, groups that are no lists of objects, orderings
and selections of the wrong kind. Compiling finds amounts that are no numbers, orderings without a key
and comparisons with the empty path, which interpreting lets pass.

Each entry of a filter is read on its own, and what it contributes matches it
(`Contribution.Matches`). Main result (`compile_fails_iff`): a filter is refused exactly if it is
faulty, and never with an error that speaks of a malformed condition.
-/

set_option autoImplicit false

namespace DocFilter

/-! ## What compiling refuses -/

/-- A directive that is taken into every list of clauses. -/
def Directive.Accepted (d : Directive) : Prop := ∀ c : Clauses, ∃ c', c.add d = .ok c'

/-- A directive that is refused with an error, whatever the clauses are. -/
def Directive.Refused (d : Directive) (e : QueryError) : Prop := ∀ c : Clauses, c.add d = .error e

/-- Every directive is accepted by the clauses or refused with an error, and which of the two does not
depend on the clauses. Amounts are checked for being numbers, and orderings for having keys. -/
theorem Directive.accepted_or_refused (d : Directive) : d.Accepted ∨ ∃ e, d.Refused e := by
  cases d with
  | comparison op field v => exact .inl fun c => ⟨_, rfl⟩
  | logical op children => exact .inl fun c => ⟨_, rfl⟩
  | extension name v => exact .inl fun c => ⟨c, rfl⟩
  | missing => exact .inr ⟨_, fun c => rfl⟩
  | modifier m =>
    obtain ⟨kind, amount, fields, sort⟩ := m
    unfold Accepted Refused Clauses.add
    cases kind with
    | select => exact .inl fun c => ⟨_, rfl⟩
    | other name => exact .inr ⟨_, fun c => rfl⟩
    | limit | skip =>
      dsimp only
      cases amount.amount? with
      | some n => exact .inl fun c => ⟨_, rfl⟩
      | none => exact .inr ⟨_, fun c => rfl⟩
    | sort =>
      dsimp only
      cases sort with
      | nil => exact .inr ⟨_, fun c => rfl⟩
      | cons k ks => exact .inl fun c => ⟨_, rfl⟩

theorem Directive.Accepted.not_refused {d : Directive} {e : QueryError} (h : d.Accepted) :
    ¬ d.Refused e := by
  intro he
  obtain ⟨c, hc⟩ := h {}
  rw [he {}] at hc
  cases hc

/-- The error of a directive is its own, so that the first refused directive of a list determines the error.
-/
theorem Directive.Refused.unique {d : Directive} {e e' : QueryError} (h : d.Refused e)
    (h' : d.Refused e') : e = e' :=
  Except.error.inj ((h {}).symm.trans (h' {}))

theorem Clauses.addAll_of_accepted {ds : List Directive} (h : ∀ d ∈ ds, d.Accepted) (c : Clauses) :
    ∃ c', c.addAll ds = .ok c' := by
  induction ds generalizing c with
  | nil => exact ⟨c, rfl⟩
  | cons d rest ih =>
    obtain ⟨hd, hrest⟩ := List.forall_mem_cons.1 h
    obtain ⟨c₁, hc₁⟩ := hd c
    rw [addAll, hc₁]
    exact ih hrest c₁

/-- The first directive that is refused gives the error. Those before it are accepted, and those behind it
are not looked at. -/
theorem Clauses.addAll_of_refused {ds : List Directive} {d : Directive} {e : QueryError} (hd : d ∈ ds)
    (he : d.Refused e) (c : Clauses) : ∃ d' ∈ ds, ∃ e', d'.Refused e' ∧ c.addAll ds = .error e' := by
  induction ds generalizing c with
  | nil => cases hd
  | cons d₀ rest ih =>
    rcases d₀.accepted_or_refused with haccepted | ⟨e₀, hrefused⟩
    · -- the first directive is accepted, so the refused one is among the others
      obtain ⟨c₁, hc₁⟩ := haccepted c
      have hmem : d ∈ rest := by
        rcases List.mem_cons.1 hd with rfl | hmem
        · rw [he c] at hc₁
          cases hc₁
        · exact hmem
      obtain ⟨d', hd', e', he', hfail⟩ := ih hmem c₁
      refine ⟨d', List.mem_cons_of_mem _ hd', e', he', ?_⟩
      rw [addAll, hc₁]
      exact hfail
    · refine ⟨d₀, List.mem_cons_self, e₀, hrefused, ?_⟩
      rw [addAll, hrefused c]
      rfl

/-- Compiling fails for one of two reasons: a directive is refused, or the conditions are no formula. -/
theorem compile_refused (options : CompileOptions) {ds : List Directive} {d : Directive}
    {e : QueryError} (hd : d ∈ ds) (he : d.Refused e) :
    ∃ d' ∈ ds, ∃ e', d'.Refused e' ∧ compile options ds = .error e' := by
  obtain ⟨d', hd', e', he', hfail⟩ := Clauses.addAll_of_refused hd he {}
  refine ⟨d', hd', e', he', ?_⟩
  rw [compile, select, hfail]
  rfl

/-- If the clauses accept all directives, the conditions decide: the query is compiled if they have
formulas, and fails with their error otherwise. -/
theorem compile_of_accepted (options : CompileOptions) {ds : List Directive}
    (h : ∀ d ∈ ds, d.Accepted) :
    (∀ fs, Formula.ofDirectives (ds.filter Directive.isCondition) = .ok fs →
      ∃ st, compile options ds = .ok st) ∧
    ∀ e, Formula.ofDirectives (ds.filter Directive.isCondition) = .error e →
      compile options ds = .error e := by
  obtain ⟨c, hc⟩ := Clauses.addAll_of_accepted h {}
  have hconditions : c.conditions = ds.filter Directive.isCondition := Clauses.addAll_conditions hc
  rw [compile, select, hc, ← hconditions]
  show (∀ fs, _ → ∃ st, (conditionOf c.conditions >>= _) >>= _ = _) ∧
    ∀ e, _ → (conditionOf c.conditions >>= _) >>= _ = _
  unfold conditionOf
  -- where there are no conditions no formula is asked for
  cases hempty : c.conditions with
  | nil => exact ⟨fun fs _ => ⟨_, rfl⟩, fun e he => by cases he⟩
  | cons d rest =>
    refine ⟨fun fs hfs => ?_, fun e he => ?_⟩
    · rw [List.isEmpty_cons, if_neg Bool.false_ne_true, hfs]
      exact ⟨_, rfl⟩
    · rw [List.isEmpty_cons, if_neg Bool.false_ne_true, he]
      rfl

/-! ## Faulty filters -/

/-- What `$select` takes: nothing, a name or a list of names. -/
inductive Value.Selectable : Value → Prop
  | nothing {v : Value} : v.kind = .null → Selectable v
  | name (t : Text) : Selectable (.text t)
  | names (ty : ListType) (ts : List Text) : Selectable (.list ty (ts.map .text))

/-- An entry of a filter whose value does not have the shape that its key asks for: a comparison key,
which asks for a field in front of it, a group that is no list of objects, `$sort` without an object
and `$select` without names. -/
inductive Misshapen : Text → Value → Prop
  | bareComparison (c : Comparator) (v : Value) : Misshapen c.key v
  | group {key : Text} {v : Value} (payload : Value) :
      Site.OfEntry key v (.group payload) → ¬ payload.IsGroup → Misshapen key v
  | sort {v : Value} : v.kind ≠ .object → Misshapen "$sort" v
  | select {v : Value} : ¬ v.Selectable → Misshapen "$select" v

/-- An entry of a filter that asks for a clause that cannot be written: an ordering by no key, or an
amount that is no number. -/
inductive Unwritable : Text → Value → Prop
  | sort {v : Value} : v.kind = .object → (∀ e ∈ v.fields, directiveName? e.1 ≠ none) →
      Unwritable "$sort" v
  | limit {v : Value} : v.amount? = none → Unwritable "$limit" v
  | skip {v : Value} : v.amount? = none → Unwritable "$skip" v

/-- One of the entries of a filter has the wrong shape. -/
def Document.Misshapen (d : Document) : Prop := ∃ e ∈ d, DocFilter.Misshapen e.1 e.2

/-- A filter with something wrong: an entry of the wrong shape, a clause that cannot be written, or a
comparison whose field is the empty path. -/
def Document.Faulty (d : Document) : Prop :=
  d.Misshapen ∨ (∃ e ∈ d, Unwritable e.1 e.2) ∨ d.Visits (.comparison [])

/-- Errors that speak of a malformed condition or directive and not of a filter. -/
def QueryError.isInternal : QueryError → Bool
  | .modifierInPredicate _ | .extensionInPredicate _ | .missingDirective | .unsupportedModifier _
  | .unsupportedLogical _ | .unknownOperator _ => true
  | _ => false

/-- A list is taken for a list of names exactly if all its elements are texts; then these are the names. The
empty list is one of them. -/
theorem textsOf?_eq_some {items : List Value} {ts : List Text} :
    textsOf? items = some ts ↔ items = ts.map .text := by
  induction items generalizing ts with
  | nil => cases ts <;> simp [textsOf?]
  | cons v rest ih =>
    cases v with
    | text t =>
      rw [textsOf?, Option.map_eq_some_iff]
      constructor
      · rintro ⟨more, hmore, rfl⟩
        rw [ih.1 hmore]
        rfl
      · intro h
        cases ts with
        | nil => cases h
        | cons t' more =>
          obtain ⟨ht, hmore⟩ := List.cons.inj h
          cases ht
          exact ⟨more, ih.2 hmore, rfl⟩
    | _ =>
      refine iff_of_false (by rintro ⟨⟩) fun h => ?_
      cases ts with
      | nil => cases h
      | cons t' more => cases (List.cons.inj h).1

/-- The names of a selection are there exactly if the payload is one: nothing at all, a single name, or a
list of names. Otherwise the error is the one for the shape of selections. -/
theorem selectedFields_spec (v : Value) :
    (v.Selectable ∧ ∃ fields, selectedFields v = .ok fields) ∨
      (¬ v.Selectable ∧ selectedFields v = .error .selectShape) := by
  cases v with
  | null => exact .inl ⟨.nothing rfl, _, rfl⟩
  | text t => exact .inl ⟨.name t, _, rfl⟩
  | list ty items =>
    rw [selectedFields]
    cases hitems : textsOf? items with
    | some ts =>
      obtain rfl := textsOf?_eq_some.1 hitems
      exact .inl ⟨.names ty ts, ts, rfl⟩
    | none =>
      refine .inr ⟨?_, rfl⟩
      rintro (hnull | - | ⟨-, ts⟩)
      · cases hnull
      · rw [textsOf?_eq_some.2 rfl] at hitems
        cases hitems
  -- a reference to nothing counts as nothing
  | ref target =>
    cases target with
    | none => exact .inl ⟨.nothing rfl, _, rfl⟩
    | some n =>
      refine .inr ⟨?_, rfl⟩
      rintro (hnull | - | -)
      cases hnull
  -- tables of all types are objects, and no selection
  | table ty entries =>
    refine .inr ⟨?_, rfl⟩
    rintro (hnull | - | -)
    cases ty <;> cases hnull
  | _ =>
    refine .inr ⟨?_, rfl⟩
    rintro (hnull | - | -)
    cases hnull

/-- The keys of an ordering are there exactly if the payload is an object; they are the keys of the
object that are no directives. -/
theorem sortKeys_spec (v : Value) :
    (v.kind = .object ∧ ∃ keys, sortKeys v = .ok keys ∧
      (keys = [] ↔ ∀ e ∈ v.fields, directiveName? e.1 ≠ none)) ∨
      (v.kind ≠ .object ∧ sortKeys v = .error .sortShape) := by
  unfold sortKeys
  by_cases hv : v.kind = .object
  · rw [if_pos (by simpa using hv)]
    refine .inl ⟨hv, _, rfl, ?_⟩
    rw [List.filterMap_eq_nil_iff]
    refine forall₂_congr ?_
    rintro ⟨key, order⟩ -
    dsimp only
    cases directiveName? key <;> simp
  · rw [if_neg (by simpa using hv)]
    exact .inr ⟨hv, rfl⟩

/-- An entry that makes conditions can only be wrong in its groups: it is no comparison key, and no key of
an ordering or a selection, which ask for shapes of their own. -/
theorem misshapen_of_condition {key : Text} {v : Value} (hkey : directiveName? key = none ∨ key = "$or") :
    Misshapen key v ↔ ¬ WellShaped (Site.OfEntry key v) := by
  rw [WellShaped, not_forall]
  constructor
  · rintro (⟨c⟩ | ⟨payload, hsite, hgroup⟩ | - | -)
    · rcases hkey with hnone | hor
      · rw [directiveName?_key] at hnone
        cases hnone
      · cases c <;> cases hor
    · exact ⟨payload, fun h => hgroup (h hsite)⟩
    · rcases hkey with hnone | hor
      · cases hnone
      · cases hor
    · rcases hkey with hnone | hor
      · cases hnone
      · cases hor
  · rintro ⟨payload, h⟩
    obtain ⟨hsite, hgroup⟩ := Classical.not_imp.1 h
    exact .group payload hsite hgroup

/-- An entry that makes a clause can be wrong in three ways. -/
theorem misshapen_of_clause {key name : Text} {v : Value} (hname : directiveName? key = some name)
    (hor : name ≠ orName) (h : Misshapen key v) :
    (∃ c : Comparator, key = c.key) ∨ (key = "$sort" ∧ v.kind ≠ .object) ∨
      (key = "$select" ∧ ¬ v.Selectable) := by
  rcases h with ⟨c⟩ | ⟨payload, hsite, -⟩ | hv | hv
  · exact .inl ⟨c, rfl⟩
  · exact absurd hsite (Site.not_ofEntry hname hor)
  · exact .inr (.inl ⟨rfl, hv⟩)
  · exact .inr (.inr ⟨rfl, hv⟩)

/-- The keys of clauses that do not take every value. -/
def shapedKeys : List Text := "$sort" :: "$select" :: Comparator.all.map Comparator.key

theorem shapedKeys_subset : shapedKeys ⊆ reservedKeys := by decide

/-- A key whose value may have any shape is not misshapen. Limits and skips belong here: their amounts are
looked at by the compiler only. -/
theorem not_misshapen {key name : Text} {v : Value} (hname : directiveName? key = some name)
    (hor : name ≠ orName) (hkey : key ∉ shapedKeys) : ¬ Misshapen key v := by
  intro h
  rcases misshapen_of_clause hname hor h with ⟨c, rfl⟩ | ⟨rfl, -⟩ | ⟨rfl, -⟩
  · exact hkey (by cases c <;> decide)
  · exact hkey (by decide)
  · exact hkey (by decide)

/-- A selection is misshapen exactly if it is neither a name nor a list of names. -/
theorem misshapen_select {v : Value} : Misshapen "$select" v ↔ ¬ v.Selectable := by
  refine ⟨fun h => ?_, .select⟩
  rcases misshapen_of_clause rfl (by decide) h with ⟨c, hc⟩ | ⟨hc, -⟩ | ⟨-, hv⟩
  · cases c <;> cases hc
  · cases hc
  · exact hv

theorem misshapen_sort {v : Value} : Misshapen "$sort" v ↔ v.kind ≠ .object := by
  refine ⟨fun h => ?_, .sort⟩
  rcases misshapen_of_clause rfl (by decide) h with ⟨c, hc⟩ | ⟨-, hv⟩ | ⟨hc, -⟩
  · cases c <;> cases hc
  · exact hv
  · cases hc

/-- A contribution is what entries of a filter come to: they have the right shape, the conditions
compare the fields that the walk comes to, and a clause is refused if one cannot be written. -/
structure Contribution.Matches (part : Contribution) (d : Document) : Prop where
  shaped : ¬ d.Misshapen
  regular : ∀ x ∈ part.conditions, x.Regular
  compares : ∀ field, Compares part.conditions field ↔ d.Visits (.comparison field)
  unwritable : (∃ x ∈ part.clauses, ∃ e, x.Refused e) ↔ ∃ e ∈ d, Unwritable e.1 e.2
  refused : ∀ x ∈ part.clauses, ∀ e, x.Refused e → e.isInternal = false

namespace Contribution.Matches

theorem nil : Matches {} [] := by
  refine ⟨?_, by simp, fun field => ?_, by simp, by simp⟩
  · rintro ⟨e, he, -⟩
    cases he
  · simp [Compares, Directive.comparisonsAll, Document.Visits]

/-- What two parts of a filter contribute matches the two parts together, because faults are looked for
entry by entry. -/
theorem append {part part' : Contribution} {d d' : Document} (h : part.Matches d) (h' : part'.Matches d') :
    Matches ⟨part.clauses ++ part'.clauses, part.conditions ++ part'.conditions⟩ (d ++ d') := by
  refine ⟨?_, fun x hx => ?_, fun field => ?_, ?_, fun x hx => ?_⟩
  · rintro ⟨e, he, hwrong⟩
    rcases List.mem_append.1 he with he | he
    · exact h.shaped ⟨e, he, hwrong⟩
    · exact h'.shaped ⟨e, he, hwrong⟩
  · exact (List.mem_append.1 hx).elim (h.regular x) (h'.regular x)
  · rw [Compares.append, h.compares, h'.compares]
    simp only [Document.Visits, List.mem_append, or_and_right, exists_or]
  · simp only [List.mem_append, or_and_right, exists_or, h.unwritable, h'.unwritable]
  · exact (List.mem_append.1 hx).elim (h.refused x) (h'.refused x)

/-- An entry that makes conditions matches what it contributes. It asks for no clause, so all that can be
wrong with it are its groups and empty fields. -/
theorem conditions {key : Text} {v : Value} {ds : List Directive}
    (hkey : directiveName? key = none ∨ key = "$or")
    (h : Accounts (.ok ds) (WellShaped (Site.OfEntry key v)) (Site.OfEntry key v)) :
    Matches ⟨[], ds⟩ [(key, v)] := by
  obtain ⟨hshape, hregular, hfields⟩ := h
  have hwritable : ¬ Unwritable key v := by
    rintro (- | - | -) <;> rcases hkey with hkey | hkey <;> cases hkey
  refine ⟨?_, hregular, fun field => ?_, by simpa using hwritable, by simp⟩
  · simpa [Document.Misshapen, misshapen_of_condition hkey] using hshape
  · simp [hfields, Document.Visits]

/-- An entry that makes a clause: it visits no group and compares nothing, so all that can be wrong with it
is that its clause is refused. -/
theorem clause {key name : Text} {v : Value} {x : Directive} (hname : directiveName? key = some name)
    (hor : name ≠ orName) (hshape : ¬ DocFilter.Misshapen key v)
    (hx : (x.Accepted ∧ ¬ Unwritable key v) ∨ ∃ e, x.Refused e ∧ Unwritable key v ∧ e.isInternal = false) :
    Matches ⟨[x], []⟩ [(key, v)] := by
  have hvisits : ∀ y, ¬ Document.Visits [(key, v)] y := by
    simpa [Document.Visits] using fun y => Site.not_ofEntry hname hor
  refine ⟨by simpa [Document.Misshapen] using hshape, by simp, fun field => ?_, ?_, ?_⟩
  · simp [Compares, Directive.comparisonsAll, hvisits]
  · rcases hx with ⟨haccepted, hnot⟩ | ⟨e, hrefused, hyes, -⟩
    · simpa [hnot] using fun e => haccepted.not_refused
    · simpa [hyes] using ⟨e, hrefused⟩
  · intro y hy e he
    obtain rfl := List.mem_singleton.1 hy
    rcases hx with ⟨haccepted, -⟩ | ⟨e', hrefused, -, hinternal⟩
    · exact absurd he haccepted.not_refused
    · rwa [he.unique hrefused]

end Contribution.Matches

/-- What a filter contributes matches it, and one that cannot be read has the wrong shape. -/
def Document.ReadAs (d : Document) (r : Except QueryError Contribution) : Prop :=
  match r with
  | .ok part => part.Matches d
  | .error e => d.Misshapen ∧ e.isInternal = false

/-- A misshapen entry is refused, with an error that does not speak of a malformed condition. -/
theorem readAs_error {key : Text} {v : Value} {e : QueryError} (h : Misshapen key v)
    (he : e.isInternal = false) : Document.ReadAs [(key, v)] (.error e) :=
  ⟨⟨_, List.mem_singleton_self _, h⟩, he⟩

/-- Conditions are made exactly if the groups of the entry have the right shape. -/
theorem readAs_conditions {key : Text} {v : Value} {r : Except QueryError (List Directive)}
    (hkey : directiveName? key = none ∨ key = "$or")
    (h : Accounts r (WellShaped (Site.OfEntry key v)) (Site.OfEntry key v)) :
    Document.ReadAs [(key, v)] (r.map fun ds => ⟨[], ds⟩) := by
  cases r with
  | ok ds => exact .conditions hkey h
  | error e =>
    obtain ⟨rfl, hshape⟩ := h
    exact readAs_error ((misshapen_of_condition hkey).2 hshape) rfl

/-- An amount can be written exactly if the value is one. This covers limits and skips, which differ in
their key and in their error. -/
theorem readAs_amount {key name : Text} {v : Value} {x : Directive} {e : QueryError}
    (hname : directiveName? key = some name) (hor : name ≠ orName) (hshape : ¬ Misshapen key v)
    (hkey : Unwritable key v ↔ v.amount? = none) (he : e.isInternal = false)
    (hsome : ∀ n, v.amount? = some n → x.Accepted) (hnone : v.amount? = none → x.Refused e) :
    Document.ReadAs [(key, v)] (.ok ⟨[x], []⟩) := by
  refine Contribution.Matches.clause hname hor hshape ?_
  cases hv : v.amount? with
  | none => exact .inr ⟨e, hnone hv, hkey.2 hv, he⟩
  | some n =>
    refine .inl ⟨hsome n hv, fun h => ?_⟩
    rw [hkey.1 h] at hv
    cases hv

/-- A selection is refused exactly if it is misshapen, and else contributes its fields. -/
theorem readAs_select (v : Value) :
    Document.ReadAs [("$select", v)] ((selectedFields v).map fun fields => ⟨[.select fields], []⟩) := by
  rcases selectedFields_spec v with ⟨hv, fields, hfields⟩ | ⟨hv, herror⟩
  · rw [hfields]
    exact .clause rfl (by decide) (fun h => misshapen_select.1 h hv)
      (.inl ⟨fun c => ⟨_, rfl⟩, by rintro ⟨⟩⟩)
  · rw [herror]
    exact readAs_error (.select hv) rfl

/-- An ordering is refused exactly if it is misshapen, and else contributes its keys. An empty one passes
here and is refused by the compiler. -/
theorem readAs_sort (v : Value) :
    Document.ReadAs [("$sort", v)]
      ((sortKeys v).map fun keys => ⟨[.modifier ⟨.sort, .null, [], keys⟩], []⟩) := by
  rcases sortKeys_spec v with ⟨hv, keys, hkeys, hempty⟩ | ⟨hv, herror⟩
  · rw [hkeys]
    refine Contribution.Matches.clause rfl (by decide) (fun h => misshapen_sort.1 h hv) ?_
    cases keys with
    -- nothing to sort by is refused when clauses are gathered
    | nil => exact .inr ⟨_, fun c => rfl, .sort hv (hempty.1 rfl), rfl⟩
    | cons k ks =>
      refine .inl ⟨fun c => ⟨_, rfl⟩, ?_⟩
      rintro ⟨-, hall⟩
      cases hempty.2 hall
  · rw [herror]
    exact readAs_error (.sort hv) rfl

/-- An entry that no clause, group or comparison has a use for goes on as an extension. -/
theorem readAs_extension {key name : Text} (v : Value) (hname : directiveName? key = some name)
    (hkey : key ∉ reservedKeys) : Document.ReadAs [(key, v)] (.ok ⟨[.extension name v], []⟩) := by
  have hor : name ≠ orName := by
    rintro rfl
    obtain rfl := key_of_directiveName? hname
    exact hkey (by decide)
  have hshape : ¬ Misshapen key v := not_misshapen hname hor fun h => hkey (shapedKeys_subset h)
  refine Contribution.Matches.clause hname hor hshape (.inl ⟨fun c => ⟨c, rfl⟩, ?_⟩)
  rintro (- | - | -)
  · exact hkey (by decide)
  · exact hkey (by decide)
  · exact hkey (by decide)

/-- One entry of a filter is refused exactly if it is misshapen, and what it contributes otherwise matches
it. The cases are those of the key, in the order in which the interpreter asks for them. -/
theorem interpretField_reads (key : Text) (v : Value) :
    Document.ReadAs [(key, v)] (interpretField key v) := by
  obtain hreading := interpretField_reading key v
  generalize interpretField key v = r at hreading
  cases hreading with
  | ordinary hname =>
    exact readAs_conditions (.inl hname) ((v.accounted.field key).on fun x => Site.ofEntry_field hname)
  | group hkey =>
    subst hkey
    -- a group is read as the list of one condition
    have hread := readAs_conditions (.inr rfl) (v.accounted.group.on fun x => Site.ofEntry_group)
    cases hd : orGroup v <;> rwa [hd] at hread
  | limit hkey =>
    subst hkey
    refine readAs_amount (e := .limitNotNumeric) rfl (by decide)
      (not_misshapen rfl (by decide) (by decide)) ⟨?_, .limit⟩ rfl (fun n hn c => ?_) fun hv c => ?_
    · rintro (- | hv)
      exact hv
    · rw [Clauses.add]
      simp only [hn]
      exact ⟨_, rfl⟩
    · rw [Clauses.add]
      simp only [hv]
  | skip hkey =>
    subst hkey
    refine readAs_amount (e := .skipNotNumeric) rfl (by decide)
      (not_misshapen rfl (by decide) (by decide)) ⟨?_, .skip⟩ rfl (fun n hn c => ?_) fun hv c => ?_
    · rintro (- | - | hv)
      exact hv
    · rw [Clauses.add]
      simp only [hn]
      exact ⟨_, rfl⟩
    · rw [Clauses.add]
      simp only [hv]
  | select hkey =>
    subst hkey
    exact readAs_select v
  | sort hkey =>
    subst hkey
    exact readAs_sort v
  | comparison c hkey =>
    subst hkey
    exact readAs_error (.bareComparison c v) rfl
  | extension name hname hkey => exact readAs_extension v hname hkey

/-- The same for all entries of a filter: the first that is misshapen decides, and if there is none the
contributions are put together. -/
theorem interpretFields_reads (d : Document) : d.ReadAs (interpretFields d) := by
  induction d with
  | nil => exact Contribution.Matches.nil
  | cons e rest ih =>
    obtain ⟨key, v⟩ := e
    have hhere := interpretField_reads key v
    rw [interpretFields]
    cases hpart : interpretField key v with
    | error err =>
      rw [hpart] at hhere
      obtain ⟨⟨e, he, hwrong⟩, hinternal⟩ := hhere
      exact ⟨⟨e, List.mem_cons.2 (.inl (List.mem_singleton.1 he)), hwrong⟩, hinternal⟩
    | ok part =>
      rw [hpart] at hhere
      cases hmore : interpretFields rest with
      | error err =>
        rw [hmore] at ih
        obtain ⟨⟨e, he, hwrong⟩, hinternal⟩ := ih
        exact ⟨⟨e, List.mem_cons_of_mem _ he, hwrong⟩, hinternal⟩
      | ok more =>
        rw [hmore] at ih
        exact Contribution.Matches.append hhere ih

/-- Interpreting fails exactly on the filters that have an entry of the wrong shape. -/
theorem interpret_error_iff (d : Document) : (∃ e, interpret d = .error e) ↔ d.Misshapen := by
  have hreads := interpretFields_reads d
  rw [interpret]
  cases hparts : interpretFields d with
  | error e =>
    rw [hparts] at hreads
    exact ⟨fun _ => hreads.1, fun _ => ⟨e, rfl⟩⟩
  | ok parts =>
    rw [hparts] at hreads
    refine iff_of_false ?_ hreads.shaped
    rintro ⟨e, he⟩
    cases he

/-- The conjunction that holds the conditions of a filter, if it has any. -/
def conjunction (conditions : List Directive) : List Directive :=
  if conditions.isEmpty then [] else [.logical .and conditions]

/-- The conjunction of conditions of the known kinds is settled, also if there are none of them. -/
theorem settled_conjunction {conditions : List Directive} (h : ∀ x ∈ conditions, x.Regular) :
    Formula.Settled (conjunction conditions) := by
  unfold conjunction
  split
  · exact .nil
  · exact Formula.settled_of_regular (.all h)

theorem compares_conjunction {conditions : List Directive} {field : Text} :
    Compares (conjunction conditions) field ↔ Compares conditions field := by
  unfold conjunction
  split
  · next hempty => rw [List.isEmpty_iff.1 hempty]
  · exact Compares.group

/-- A conjunction is accepted by the clauses. What is wrong with it is found when it is turned into a
formula. -/
theorem accepted_conjunction {conditions : List Directive} :
    ∀ x ∈ conjunction conditions, x.Accepted := by
  intro x hx
  unfold conjunction at hx
  split at hx
  · cases hx
  · rw [List.mem_singleton.1 hx]
    exact fun c => ⟨_, rfl⟩

/-- Of clauses and a conjunction only the conjunction is a condition. -/
theorem filter_conjunction {clauses conditions : List Directive}
    (hclauses : ∀ x ∈ clauses, x.isCondition = false) :
    (clauses ++ conjunction conditions).filter Directive.isCondition = conjunction conditions := by
  rw [List.filter_append, filter_isCondition_of_clauses hclauses, List.nil_append]
  unfold conjunction
  split <;> rfl

/-- Compiling what was read from a filter: it fails if a clause is refused or the empty field is
compared, and the errors are those of clauses and of the empty field. -/
theorem compile_parts (options : CompileOptions) {parts : Contribution}
    (hregular : ∀ x ∈ parts.conditions, x.Regular)
    (hclauses : ∀ x ∈ parts.clauses, x.isCondition = false) :
    ((∃ e, compile options (parts.clauses ++ conjunction parts.conditions) = .error e) ↔
      (∃ x ∈ parts.clauses, ∃ e, x.Refused e) ∨ Compares parts.conditions []) ∧
    ∀ e, compile options (parts.clauses ++ conjunction parts.conditions) = .error e →
      (∃ x ∈ parts.clauses, x.Refused e) ∨ e = .emptyField := by
  by_cases hrefused : ∃ x ∈ parts.clauses, ∃ e, x.Refused e
  · obtain ⟨x, hx, e, he⟩ := hrefused
    obtain ⟨x', hx', e', he', hfail⟩ := compile_refused options
      (List.mem_append_left (conjunction parts.conditions) hx) he
    -- what is refused is a clause, since a conjunction is always accepted
    have hclause : x' ∈ parts.clauses := by
      rcases List.mem_append.1 hx' with h | h
      · exact h
      · exact absurd he' (accepted_conjunction x' h).not_refused
    rw [hfail]
    refine ⟨iff_of_true ⟨e', rfl⟩ (.inl ⟨x, hx, e, he⟩), ?_⟩
    rintro _ ⟨⟩
    exact .inl ⟨x', hclause, he'⟩
  · have haccepted : ∀ x ∈ parts.clauses ++ conjunction parts.conditions, x.Accepted := by
      intro x hx
      rcases List.mem_append.1 hx with h | h
      · exact x.accepted_or_refused.resolve_right fun hx' => hrefused ⟨x, h, hx'⟩
      · exact accepted_conjunction x h
    -- all clauses can be written, so only the conditions are left to fail
    obtain ⟨hok, herror⟩ := compile_of_accepted options haccepted
    rw [filter_conjunction hclauses] at hok herror
    rw [← compares_conjunction]
    rcases settled_conjunction hregular with ⟨fs, hfs, hnot⟩ | ⟨hfail, hyes⟩
    · obtain ⟨st, hst⟩ := hok fs hfs
      rw [hst]
      refine ⟨iff_of_false ?_ (not_or.2 ⟨hrefused, hnot⟩), ?_⟩
      · rintro ⟨e, he⟩
        cases he
      · rintro e ⟨⟩
    · rw [herror _ hfail]
      refine ⟨iff_of_true ⟨_, rfl⟩ (.inr hyes), ?_⟩
      rintro _ ⟨⟩
      exact .inr rfl

/-- **A filter is refused exactly if it is faulty.** The two stages together fail on a filter with an
entry of the wrong shape, a clause that cannot be written or a comparison of the empty field, and on
no other; and they never fail with an error that speaks of a malformed condition. -/
theorem compile_fails_iff (options : CompileOptions) (d : Document) :
    ((∃ e, (interpret d >>= compile options) = .error e) ↔ d.Faulty) ∧
      ∀ e, (interpret d >>= compile options) = .error e → e.isInternal = false := by
  have hreads := interpretFields_reads d
  rw [interpret]
  cases hparts : interpretFields d with
  | error e =>
    rw [hparts] at hreads
    -- interpreting fails on shapes, and on nothing else
    refine ⟨iff_of_true ⟨e, rfl⟩ (.inl hreads.1), ?_⟩
    rintro _ ⟨⟩
    exact hreads.2
  | ok parts =>
    rw [hparts] at hreads
    obtain ⟨hfails, herrors⟩ := compile_parts options hreads.regular (interpretFields_denotes hparts).2
    -- compiling fails on clauses and on the empty field, as there are no wrong shapes left
    refine ⟨hfails.trans ?_, fun e he => ?_⟩
    · rw [hreads.unwritable, hreads.compares, Document.Faulty, or_iff_right hreads.shaped]
    · rcases herrors e he with ⟨x, hx, hrefused⟩ | rfl
      · exact hreads.refused x hx e hrefused
      · rfl

end DocFilter
