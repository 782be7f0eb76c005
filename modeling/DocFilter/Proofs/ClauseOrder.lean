import DocFilter.Proofs.Projection
import DocFilter.Proofs.Requested

/-!
The clauses of a statement have a fixed order, so it does not matter in which order they are asked for.
All that counts about a list of directives is what each kind of clause finds in it: the conditions and
the orderings one after the other, the last selection, the last limit and the last skip. Limits and
skips that come too early to count are still checked, so which amounts there are matters as well, but
neither how many of each nor in which order.

`Clauses.addAll_eq` says what the clauses of a list of directives are, and `Directive.all_accepted_iff`
when there are any. Both speak of the list kind by kind, and so two lists that agree kind by kind are
compiled alike (`Directive.Interchangeable.compile`). The same holds of filters: what becomes of a filter
depends on its conditions and on the values under each of the four clause keys (`compile_rearranged`).
-/

set_option autoImplicit false

namespace DocFilter

/-! ## What directives ask for, kind by kind -/

namespace Directive

/-- The keys of an ordering. -/
def ordering? : Directive → Option (List SortKey)
  | .modifier m => if m.kind = .sort then some m.sort else none
  | _ => none

/-- The orderings among directives, in order. -/
def orderings (ds : List Directive) : List (List SortKey) := ds.filterMap ordering?

/-- The selections among directives, in order. -/
def selections (ds : List Directive) : List (List Text) := ds.filterMap Builder.selection?

/-- Whether a directive is of no declared kind: a modifier with another name, or none at all. -/
def isForeign : Directive → Bool
  | .modifier m =>
    match m.kind with
    | .other _ => true
    | _ => false
  | .missing => true
  | _ => false

/-- Only a modifier of the kind gives an amount of the kind. -/
theorem kind_of_amount? {d : Directive} {kind : ModifierKind} {v : Value}
    (h : d.amount? kind = some v) : ∃ m, d = .modifier m ∧ m.kind = kind := by
  unfold amount? at h
  split at h
  · next m =>
    split_ifs at h with hkind
    exact ⟨m, rfl, hkind⟩
  · exact absurd h (by simp)

theorem kind_of_ordering? {d : Directive} {keys : List SortKey} (h : d.ordering? = some keys) :
    ∃ m, d = .modifier m ∧ m.kind = .sort := by
  unfold ordering? at h
  split at h
  · next m =>
    split_ifs at h with hkind
    exact ⟨m, rfl, hkind⟩
  · exact absurd h (by simp)

theorem kind_of_selection? {d : Directive} {fields : List Text}
    (h : Builder.selection? d = some fields) : ∃ m, d = .modifier m ∧ m.kind = .select := by
  unfold Builder.selection? at h
  split at h
  · next m =>
    split at h
    · next hkind => exact ⟨m, rfl, hkind⟩
    · exact absurd h (by simp)
  · exact absurd h (by simp)

end Directive

/-- The same values, however often and in whatever order, with the same one last. -/
structure Value.SameAmounts (us vs : List Value) : Prop where
  mem : ∀ v, v ∈ us ↔ v ∈ vs
  last : us.getLast? = vs.getLast?

/-- Two lists of directives that ask for the same, kind by kind: the same conditions and the same
orderings one after the other, the same last selection, the same amounts of limits and of skips with
the same one last. How directives of different kinds follow each other is left open, and so are the
extensions. Directives of no declared kind are in both lists or in neither. -/
structure Directive.Interchangeable (ds ds' : List Directive) : Prop where
  conditions : ds.filter isCondition = ds'.filter isCondition
  orderings : orderings ds = orderings ds'
  selection : (selections ds).getLast? = (selections ds').getLast?
  limits : Value.SameAmounts (amounts .limit ds) (amounts .limit ds')
  skips : Value.SameAmounts (amounts .skip ds) (amounts .skip ds')
  foreign : (∃ d ∈ ds, d.isForeign = true) ↔ ∃ d ∈ ds', d.isForeign = true

/-! ## The clauses of a list of directives -/

namespace Directive

/-- A directive is accepted unless it is of no declared kind, an amount that is no number, or an ordering by
nothing. Whether it is does not depend on the clauses that are there. -/
theorem accepted_iff (d : Directive) :
    d.Accepted ↔ d.isForeign = false ∧ (∀ v, d.amount? .limit = some v → v.amount? ≠ none) ∧
      (∀ v, d.amount? .skip = some v → v.amount? ≠ none) ∧ d.ordering? ≠ some [] := by
  have hclauses : Nonempty Clauses := ⟨{}⟩
  unfold Accepted
  cases d with
  | comparison op field v => simp [Clauses.add, isForeign, amount?, ordering?]
  | logical op children => simp [Clauses.add, isForeign, amount?, ordering?]
  | extension name v => simp [Clauses.add, isForeign, amount?, ordering?]
  | missing => simp [Clauses.add, isForeign]
  | modifier m =>
    obtain ⟨kind, amount, fields, sort⟩ := m
    cases kind with
    | select => simp [Clauses.add, isForeign, amount?, ordering?]
    | other name => simp [Clauses.add, isForeign]
    | limit => cases h : amount.amount? <;> simp [Clauses.add, isForeign, amount?, ordering?, h]
    | skip => cases h : amount.amount? <;> simp [Clauses.add, isForeign, amount?, ordering?, h]
    | sort => cases sort <;> simp [Clauses.add, isForeign, amount?, ordering?]

/-- Whether all directives are accepted can be told kind by kind: from the amounts of limits, from those of
skips, from the orderings, and from the kinds themselves. -/
theorem all_accepted_iff (ds : List Directive) :
    (∀ d ∈ ds, d.Accepted) ↔ (¬ ∃ d ∈ ds, d.isForeign = true) ∧ Value.Numeric (amounts .limit ds) ∧
      Value.Numeric (amounts .skip ds) ∧ [] ∉ orderings ds := by
  -- each conjunct is turned into one about single directives
  have hnumeric : ∀ kind, Value.Numeric (amounts kind ds) ↔
      ∀ d ∈ ds, ∀ v, d.amount? kind = some v → v.amount? ≠ none := by
    intro kind
    simp only [Value.Numeric, amounts, List.mem_filterMap]
    constructor
    · intro h d hd v hv
      exact h v ⟨d, hd, hv⟩
    · rintro h v ⟨d, hd, hv⟩
      exact h d hd v hv
  have horderings : [] ∉ orderings ds ↔ ∀ d ∈ ds, d.ordering? ≠ some [] := by
    simp [orderings, List.mem_filterMap]
  have hforeign : (¬ ∃ d ∈ ds, d.isForeign = true) ↔ ∀ d ∈ ds, d.isForeign = false := by simp
  rw [hnumeric, hnumeric, horderings, hforeign, ← forall₂_and, ← forall₂_and, ← forall₂_and]
  exact forall₂_congr fun d _ => d.accepted_iff

end Directive

namespace Clauses

/-- The sort keys of a directive are added behind those that are there. -/
theorem add_order {c c' : Clauses} {d : Directive} (h : c.add d = .ok c') :
    c'.order = c.order ++ d.ordering?.getD [] := by
  unfold add at h
  grind [Directive.ordering?]

/-- The orderings add up: the sort keys of the clauses are those of all orderings among the directives, one
after the other. -/
theorem addAll_order {c c' : Clauses} {ds : List Directive} (h : c.addAll ds = .ok c') :
    c'.order = c.order ++ (Directive.orderings ds).flatten := by
  induction ds generalizing c with
  | nil =>
    cases h
    simp [Directive.orderings]
  | cons d rest ih =>
    rw [addAll] at h
    obtain ⟨c₁, hd, hrest⟩ := bind_eq_ok h
    have hsplit : (Directive.orderings (d :: rest)).flatten
        = d.ordering?.getD [] ++ (Directive.orderings rest).flatten := by
      unfold Directive.orderings
      rw [List.filterMap_cons]
      cases d.ordering? <;> simp
    rw [ih hrest, add_order hd, hsplit, List.append_assoc]

/-- What the last directive with an answer gives. A fold that overwrites its result where a directive has an
answer keeps the last of the answers. -/
theorem foldl_getD {α : Type} (f : Directive → Option α) (ds : List Directive) (a : α) :
    ds.foldl (fun acc d => (f d).getD acc) a = (ds.filterMap f).getLast?.getD a := by
  induction ds generalizing a with
  | nil => rfl
  | cons d rest ih =>
    rw [List.foldl_cons, ih, List.filterMap_cons]
    cases f d with
    | none => rfl
    | some b => simp [List.getLast?_cons]

/-- **The clauses of a list of directives**, kind by kind: the last selection, all conditions and all
orderings in their order, the last limit and the last skip. -/
theorem addAll_eq {ds : List Directive} {c : Clauses} (h : ({} : Clauses).addAll ds = .ok c) :
    c = { selected := (Directive.selections ds).getLast?.getD [],
          conditions := ds.filter Directive.isCondition,
          order := (Directive.orderings ds).flatten,
          limit := Value.lastAmount? (Directive.amounts .limit ds),
          skip := Value.lastAmount? (Directive.amounts .skip ds) } := by
  have hselected : c.selected = (Directive.selections ds).getLast?.getD [] := by
    rw [Projection.addAll_selected h, foldl_getD]
    rfl
  have hconditions : c.conditions = ds.filter Directive.isCondition := addAll_conditions h
  have horder : c.order = (Directive.orderings ds).flatten := addAll_order h
  -- limit and skip are instances of one invariant of the fold
  rw [addAll_eq_foldlM] at h
  have hlimit := (held_limit.foldlM h).2
  have hskip := (held_skip.foldlM h).2
  rw [Option.or_none] at hlimit hskip
  rw [← hselected, ← hconditions, ← horder, ← hlimit, ← hskip]

end Clauses

/-- **Directives that ask for the same are compiled alike**: compiling fails on both lists, or gives the
same statement for both. -/
theorem Directive.Interchangeable.compile {ds ds' : List Directive} (h : Interchangeable ds ds')
    (options : CompileOptions) :
    (DocFilter.compile options ds).toOption = (DocFilter.compile options ds').toOption := by
  have hnumeric : ∀ {us vs : List Value}, Value.SameAmounts us vs → (Value.Numeric us ↔ Value.Numeric vs) :=
    fun hsame => forall_congr' fun v => imp_congr_left (hsame.mem v)
  have haccepted : (∀ d ∈ ds, d.Accepted) ↔ ∀ d ∈ ds', d.Accepted := by
    rw [all_accepted_iff, all_accepted_iff, hnumeric h.limits, hnumeric h.skips, h.orderings, h.foreign]
  -- a directive that is refused makes compiling fail, wherever it stands
  have hfail : ∀ {xs : List Directive}, (¬ ∀ d ∈ xs, d.Accepted) →
      (DocFilter.compile options xs).toOption = none := by
    intro xs hxs
    push Not at hxs
    obtain ⟨d, hd, hnot⟩ := hxs
    obtain ⟨e, he⟩ := d.accepted_or_refused.resolve_left hnot
    obtain ⟨d', -, e', -, herror⟩ := compile_refused options hd he
    rw [herror]
    rfl
  by_cases hds : ∀ d ∈ ds, d.Accepted
  · obtain ⟨c, hc⟩ := Clauses.addAll_of_accepted hds {}
    obtain ⟨c', hc'⟩ := Clauses.addAll_of_accepted (haccepted.1 hds) {}
    have hsame : c = c' := by
      rw [Clauses.addAll_eq hc, Clauses.addAll_eq hc', h.selection, h.conditions, h.orderings,
        Value.lastAmount?, Value.lastAmount?, Value.lastAmount?, Value.lastAmount?, h.limits.last,
        h.skips.last]
    unfold DocFilter.compile DocFilter.select
    rw [hc, hc', hsame]
  · rw [hfail hds, hfail (mt haccepted.2 hds)]

/-! ## The entries of a filter, kind by kind -/

/-- Whether a key of a filter makes conditions: ordinary keys and `$or` do. A comparison key, which has
no place at the top of a filter, counts as one of them. -/
def isConditionKey (key : Text) : Bool :=
  match directiveName? key with
  | none => true
  | some name => name == orName || (Comparator.ofName? name).isSome

/-- The keys of a filter that make clauses. -/
def clauseKeys : List Text := ["$limit", "$skip", "$select", "$sort"]

/-- Two filters that ask for the same, kind by kind: the same entries that make conditions, and the same
values under each clause key, one after the other. How entries of different kinds follow each other is
left open, and so are the extensions. -/
structure Document.Rearranged (d d' : Document) : Prop where
  conditions : d.filter (fun e => isConditionKey e.1) = d'.filter (fun e => isConditionKey e.1)
  clauses : ∀ key ∈ clauseKeys, d.valuesOf key = d'.valuesOf key

namespace Document

/-- The values under a key are those of the entries with the key. -/
theorem mem_valuesOf {d : Document} {key : Text} {v : Value} : v ∈ d.valuesOf key ↔ (key, v) ∈ d := by
  unfold valuesOf
  constructor
  · intro hv
    obtain ⟨⟨k, v'⟩, hmem, rfl⟩ := List.mem_map.1 hv
    obtain ⟨hmem, hkey⟩ := List.mem_filter.1 hmem
    rw [← beq_iff_eq.1 hkey]
    exact hmem
  · intro hmem
    exact List.mem_map.2 ⟨(key, v), List.mem_filter.2 ⟨hmem, beq_self_eq_true key⟩, rfl⟩

/-- The shape of the entries can be told kind by kind, so rearranged filters are misshapen together. An
entry of the one filter that is misshapen is an entry of the other. -/
theorem Rearranged.misshapen {d d' : Document} (h : d.Rearranged d') (hd : d.Misshapen) :
    d'.Misshapen := by
  obtain ⟨⟨key, v⟩, hmem, hwrong⟩ := hd
  refine ⟨(key, v), ?_, hwrong⟩
  by_cases hkey : isConditionKey key = true
  · have hfilter : (key, v) ∈ d.filter (fun e => isConditionKey e.1) := List.mem_filter.2 ⟨hmem, hkey⟩
    rw [h.conditions] at hfilter
    exact (List.mem_filter.1 hfilter).1
  · -- among the other keys only those of orderings and selections ask for a shape
    have hclause : key ∈ clauseKeys := by
      cases hwrong with
      | bareComparison c v => exact absurd (by cases c <;> decide) hkey
      | group payload hsite _ =>
        refine absurd ?_ hkey
        by_contra hnot
        unfold isConditionKey at hnot
        cases hname : directiveName? key with
        | none => simp [hname] at hnot
        | some name =>
          have hor : name ≠ orName := by
            rintro rfl
            simp [hname] at hnot
          exact Site.not_ofEntry hname hor hsite
      | sort _ => decide
      | select _ => decide
    have hvalue := mem_valuesOf.2 hmem
    rw [h.clauses key hclause] at hvalue
    exact mem_valuesOf.1 hvalue

theorem Rearranged.symm {d d' : Document} (h : d.Rearranged d') : d'.Rearranged d :=
  ⟨h.conditions.symm, fun key hkey => (h.clauses key hkey).symm⟩

end Document

/-- The key under which a filter asks for a kind of clause. -/
def ModifierKind.filterKey : ModifierKind → Text
  | .limit => "$limit"
  | .skip => "$skip"
  | .select => "$select"
  | .sort => "$sort"
  | .other name => name

/-- The clauses that an entry of a filter makes. -/
def entryClauses (e : Text × Value) : List Directive :=
  match interpretField e.1 e.2 with
  | .ok part => part.clauses
  | .error _ => []

/-- The conditions that an entry of a filter makes. -/
def entryConditions (e : Text × Value) : List Directive :=
  match interpretField e.1 e.2 with
  | .ok part => part.conditions
  | .error _ => []

/-- An entry makes clauses of the kind of its key, and conditions only under a key for them. So it can be
seen from keys where a clause or a condition comes from. -/
theorem entry_kind (e : Text × Value) :
    (isConditionKey e.1 = false → entryConditions e = []) ∧
      ∀ x ∈ entryClauses e, x.isForeign = false ∧ ∀ m, x = .modifier m → m.kind.filterKey = e.1 := by
  obtain ⟨key, v⟩ := e
  have hreading := interpretField_reading key v
  unfold entryConditions entryClauses
  generalize interpretField key v = r at hreading
  cases hreading with
  | ordinary hname =>
    cases fieldDirectives key v with
    | error e => simp [Except.map]
    | ok ds => simp [Except.map, isConditionKey, hname]
  | group hkey =>
    subst hkey
    cases orGroup v with
    | error e => simp [Except.map]
    | ok ds =>
      have hkey : isConditionKey "$or" = true := by decide
      simp [Except.map, hkey]
  | limit hkey =>
    subst hkey
    simp [Directive.isForeign, ModifierKind.filterKey]
  | skip hkey =>
    subst hkey
    simp [Directive.isForeign, ModifierKind.filterKey]
  | select hkey =>
    subst hkey
    cases selectedFields v with
    | error e => simp [Except.map]
    | ok fields => simp [Except.map, Directive.select, Directive.isForeign, ModifierKind.filterKey]
  | sort hkey =>
    subst hkey
    cases sortKeys v with
    | error e => simp [Except.map]
    | ok keys => simp [Except.map, Directive.isForeign, ModifierKind.filterKey]
  | comparison c hkey => simp
  | extension name hname hkey => simp [Directive.isForeign]

/-- What a filter contributes is what its entries make, one after the other. -/
theorem interpretFields_eq {d : Document} {parts : Contribution} (h : interpretFields d = .ok parts) :
    parts = ⟨d.flatMap entryClauses, d.flatMap entryConditions⟩ := by
  induction d generalizing parts with
  | nil =>
    cases h
    rfl
  | cons e rest ih =>
    obtain ⟨key, v⟩ := e
    rw [interpretFields] at h
    obtain ⟨here, hhere, h⟩ := bind_eq_ok h
    obtain ⟨more, hmore, h⟩ := bind_eq_ok h
    have hclauses : entryClauses (key, v) = here.clauses := by rw [entryClauses, hhere]
    have hconditions : entryConditions (key, v) = here.conditions := by rw [entryConditions, hhere]
    obtain rfl := Except.ok.inj h
    rw [List.flatMap_cons, List.flatMap_cons, hclauses, hconditions, ih hmore]

/-- The conditions of a filter come from the entries with a key for them. -/
theorem flatMap_entryConditions (d : Document) :
    d.flatMap entryConditions = (d.filter fun e => isConditionKey e.1).flatMap entryConditions := by
  induction d with
  | nil => rfl
  | cons e rest ih =>
    rw [List.flatMap_cons, List.filter_cons, ih]
    by_cases hkey : isConditionKey e.1 = true
    · rw [if_pos hkey, List.flatMap_cons]
    · rw [if_neg hkey, (entry_kind e).1 (by simpa using hkey), List.nil_append]

/-- What is looked for in modifiers of one kind is found in the entries with the key of the kind. The
induction is on the filter; entries with other keys have no such modifiers. -/
theorem filterMap_entryClauses {α : Type} {pick : Directive → Option α} {kind : ModifierKind}
    (hpick : ∀ x a, pick x = some a → ∃ m, x = .modifier m ∧ m.kind = kind) (d : Document) :
    (d.flatMap entryClauses).filterMap pick
      = (d.valuesOf kind.filterKey).flatMap fun v => (entryClauses (kind.filterKey, v)).filterMap pick := by
  induction d with
  | nil => rfl
  | cons e rest ih =>
    obtain ⟨key, v⟩ := e
    rw [List.flatMap_cons, List.filterMap_append, ih, Document.valuesOf_cons, List.flatMap_append]
    congr 1
    by_cases hkey : key = kind.filterKey
    · subst hkey
      simp
    · have hnone : ∀ x ∈ entryClauses (key, v), pick x = none := by
        intro x hx
        by_contra hsome
        obtain ⟨a, ha⟩ := Option.ne_none_iff_exists'.1 hsome
        obtain ⟨m, rfl, hm⟩ := hpick x a ha
        exact hkey (hm ▸ (((entry_kind (key, v)).2 _ hx).2 m rfl).symm)
      simp [hkey, List.filterMap_eq_nil_iff.2 hnone]

/-- The directives of a filter: its clauses, and the conjunction of its conditions. -/
theorem interpret_eq {d : Document} {ds : List Directive} (h : interpret d = .ok ds) :
    ds = d.flatMap entryClauses ++ conjunction (d.flatMap entryConditions) ∧
      ds.filter Directive.isCondition = conjunction (d.flatMap entryConditions) := by
  rw [interpret] at h
  obtain ⟨parts, hparts, h⟩ := bind_eq_ok h
  have hclauses := (interpretFields_denotes hparts).2
  obtain rfl := interpretFields_eq hparts
  obtain rfl := Except.ok.inj h
  exact ⟨rfl, filter_conjunction hclauses⟩

theorem mem_conjunction {conditions : List Directive} {x : Directive} (h : x ∈ conjunction conditions) :
    x = .logical .and conditions := by
  unfold conjunction at h
  split_ifs at h
  · exact absurd h List.not_mem_nil
  · exact List.mem_singleton.1 h

namespace Document.Rearranged

variable {d d' : Document} {ds ds' : List Directive}

/-- What is looked for in modifiers of one kind is the same in the directives of both filters. -/
theorem filterMap_eq {α : Type} {pick : Directive → Option α} {kind : ModifierKind} (h : d.Rearranged d')
    (hds : interpret d = .ok ds) (hds' : interpret d' = .ok ds')
    (hpick : ∀ x a, pick x = some a → ∃ m, x = .modifier m ∧ m.kind = kind)
    (hkey : kind.filterKey ∈ clauseKeys) : ds.filterMap pick = ds'.filterMap pick := by
  have hconjunction : ∀ conditions, (conjunction conditions).filterMap pick = [] := by
    intro conditions
    refine List.filterMap_eq_nil_iff.2 fun x hx => ?_
    by_contra hsome
    obtain ⟨a, ha⟩ := Option.ne_none_iff_exists'.1 hsome
    obtain ⟨m, hm, -⟩ := hpick x a ha
    exact Directive.noConfusion ((mem_conjunction hx).symm.trans hm)
  rw [(interpret_eq hds).1, (interpret_eq hds').1, List.filterMap_append, List.filterMap_append,
    hconjunction, hconjunction, filterMap_entryClauses hpick, filterMap_entryClauses hpick,
    h.clauses _ hkey]

/-- Filters that ask for the same make directives that ask for the same: the conditions come from the
entries with condition keys, and each kind of clause from the values under its key. -/
theorem interchangeable (h : d.Rearranged d') (hds : interpret d = .ok ds)
    (hds' : interpret d' = .ok ds') : Directive.Interchangeable ds ds' := by
  -- a filter makes no directives of an unknown kind
  have hdeclared : ∀ {x : Document} {xs : List Directive}, interpret x = .ok xs →
      ¬ ∃ y ∈ xs, y.isForeign = true := by
    rintro x xs hx ⟨y, hy, hforeign⟩
    rw [(interpret_eq hx).1] at hy
    rcases List.mem_append.1 hy with hy | hy
    · obtain ⟨e, -, hy⟩ := List.mem_flatMap.1 hy
      rw [((entry_kind e).2 y hy).1] at hforeign
      exact Bool.false_ne_true hforeign
    · rw [mem_conjunction hy] at hforeign
      exact Bool.false_ne_true hforeign
  have hamounts : ∀ kind : ModifierKind, kind.filterKey ∈ clauseKeys →
      Value.SameAmounts (Directive.amounts kind ds) (Directive.amounts kind ds') := by
    intro kind hkey
    have heq : Directive.amounts kind ds = Directive.amounts kind ds' :=
      h.filterMap_eq hds hds' (fun _ _ => Directive.kind_of_amount?) hkey
    exact ⟨fun v => by rw [heq], by rw [heq]⟩
  refine ⟨?_, ?_, ?_, hamounts .limit (by decide), hamounts .skip (by decide), ?_⟩
  · rw [(interpret_eq hds).2, (interpret_eq hds').2, flatMap_entryConditions d, flatMap_entryConditions d',
      h.conditions]
  · exact h.filterMap_eq hds hds' (fun _ _ => Directive.kind_of_ordering?) (by decide)
  · have heq : Directive.selections ds = Directive.selections ds' :=
      h.filterMap_eq hds hds' (fun _ _ => Directive.kind_of_selection?) (by decide)
    rw [heq]
  · exact iff_of_false (hdeclared hds) (hdeclared hds')

/-- Rearranged filters are compiled to the same statement, or neither is compiled. Which error is reported
may depend on the order. -/
theorem compile (h : d.Rearranged d') (options : CompileOptions) :
    (interpret d >>= DocFilter.compile options).toOption
      = (interpret d' >>= DocFilter.compile options).toOption := by
  -- both are interpreted, or neither is
  have hshape : d.Misshapen ↔ d'.Misshapen := ⟨h.misshapen, h.symm.misshapen⟩
  rw [← interpret_error_iff, ← interpret_error_iff] at hshape
  cases hds : interpret d with
  | error e =>
    obtain ⟨e', he'⟩ := hshape.1 ⟨e, hds⟩
    rw [he']
    rfl
  | ok ds =>
    cases hds' : interpret d' with
    | error e' =>
      obtain ⟨e, he⟩ := hshape.2 ⟨e', hds'⟩
      rw [hds] at he
      cases he
    | ok ds' => exact (h.interchangeable hds hds').compile options

end Document.Rearranged

/-- **The order of directives does not matter.** Two lists of directives that ask for the same, kind by
kind, are compiled alike: compiling fails on both or gives the same statement. So are two filters with
the same conditions and the same values under each clause key. -/
theorem compile_rearranged (options : CompileOptions) :
    (∀ ds ds' : List Directive, Directive.Interchangeable ds ds' →
      (compile options ds).toOption = (compile options ds').toOption) ∧
    ∀ d d' : Document, d.Rearranged d' →
      (interpret d >>= compile options).toOption = (interpret d' >>= compile options).toOption :=
  ⟨fun _ _ h => h.compile options, fun _ _ h => h.compile options⟩

/-- Directives of all kinds in no order. The first limit and the first selection do not count. -/
def mixedDirectives : List Directive :=
  [.modifier ⟨.limit, .text "3", [], []⟩, .comparison (.known .eq) "a" (.bool true),
    .extension "hint" .null, .modifier ⟨.sort, .null, [], [⟨"b", .desc⟩]⟩, .select ["old"],
    .modifier ⟨.limit, .int .int 7, [], []⟩,
    .logical .or [.comparison (.known .lt) "c" (.text "x"), .comparison (.known .ne) "d" .null],
    .select ["a", "b"]]

/-- Directives that ask for the same, in the order of the clauses. -/
def orderedDirectives : List Directive :=
  [.select ["a", "b"], .comparison (.known .eq) "a" (.bool true),
    .logical .or [.comparison (.known .lt) "c" (.text "x"), .comparison (.known .ne) "d" .null],
    .modifier ⟨.sort, .null, [], [⟨"b", .desc⟩]⟩, .modifier ⟨.limit, .int .int 7, [], []⟩,
    .modifier ⟨.limit, .text "3", [], []⟩, .modifier ⟨.limit, .int .int 7, [], []⟩]

/-- A filter with its clauses between its conditions. -/
def mixedFilter : Document :=
  [("$limit", .int .int 7), ("a", .bool true), ("$hint", .null), ("$select", .text "a"),
    ("$or", .list .any [.doc [("c", .text "x")], .doc [("d", .null)]]), ("$skip", .text "2")]

/-- The same filter with its conditions first. -/
def orderedFilter : Document :=
  [("a", .bool true), ("$or", .list .any [.doc [("c", .text "x")], .doc [("d", .null)]]),
    ("$select", .text "a"), ("$skip", .text "2"), ("$limit", .int .int 7), ("$other", .bool false)]

/-- Mixed and ordered, the directives make one statement, and so do the two filters. Limits that come before
the last one are checked, but do not count. -/
theorem mixed_compiled_as_ordered :
    Directive.Interchangeable mixedDirectives orderedDirectives ∧
      (compile {} mixedDirectives).toOption.map Statement.text
        = some "SELECT a,b WHERE `a` = $1 AND (`c` < $2 OR `d` != NULL) ORDER BY `b` DESC LIMIT 7" ∧
      (compile {} orderedDirectives).toOption.map Statement.text
        = some "SELECT a,b WHERE `a` = $1 AND (`c` < $2 OR `d` != NULL) ORDER BY `b` DESC LIMIT 7" ∧
      mixedFilter.Rearranged orderedFilter ∧
      (interpret mixedFilter >>= compile {}).toOption.map Statement.text
        = some "SELECT a WHERE `a` = $1 AND ((`c` = $2) OR (`d` = NULL)) LIMIT 7 OFFSET 2" ∧
      (interpret orderedFilter >>= compile {}).toOption.map Statement.text
        = some "SELECT a WHERE `a` = $1 AND ((`c` = $2) OR (`d` = NULL)) LIMIT 7 OFFSET 2" := by
  -- the amounts differ in number and order, but not as sets, and the last one is the same
  have hlimits : Value.SameAmounts (Directive.amounts .limit mixedDirectives)
      (Directive.amounts .limit orderedDirectives) := by
    have hmixed : Directive.amounts .limit mixedDirectives = [.text "3", .int .int 7] := rfl
    have hordered : Directive.amounts .limit orderedDirectives = [.int .int 7, .text "3", .int .int 7] := rfl
    rw [hmixed, hordered]
    exact ⟨fun v => by simp only [List.mem_cons, List.not_mem_nil, or_false]; tauto, rfl⟩
  have hdirectives : Directive.Interchangeable mixedDirectives orderedDirectives :=
    ⟨rfl, rfl, rfl, hlimits, ⟨fun v => Iff.rfl, rfl⟩, by decide⟩
  have hfilters : mixedFilter.Rearranged orderedFilter := by
    refine ⟨rfl, ?_⟩
    simp only [clauseKeys, List.forall_mem_cons]
    exact ⟨rfl, rfl, rfl, rfl, fun _ h => absurd h List.not_mem_nil⟩
  obtain ⟨hsame, hsame'⟩ := compile_rearranged {}
  have htext : (compile {} mixedDirectives).toOption.map Statement.text
      = some "SELECT a,b WHERE `a` = $1 AND (`c` < $2 OR `d` != NULL) ORDER BY `b` DESC LIMIT 7" := by
    decide +kernel
  have htext' : (interpret mixedFilter >>= compile {}).toOption.map Statement.text
      = some "SELECT a WHERE `a` = $1 AND ((`c` = $2) OR (`d` = NULL)) LIMIT 7 OFFSET 2" := by
    decide +kernel
  refine ⟨hdirectives, htext, ?_, hfilters, htext', ?_⟩
  · rw [← hsame _ _ hdirectives]
    exact htext
  · rw [← hsame' _ _ hfilters]
    exact htext'

end DocFilter
