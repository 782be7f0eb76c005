import DocFilter.Proofs.BuilderCalls
import DocFilter.Proofs.TypeRestriction

/-!
What a search asks for, read off its filter and its options. A search gathers one list of directives:
those of the filter, then those of the options. Its limits, its skips and the consistency are looked
up in that list, where the last one counts.

The list is gone through twice, by the window and by the clauses of the statement, and both hold on to
the last amount in the same way (`Directive.Held`). An amount of the list stands in the filter under its key or
in an option, and nowhere else (`Service.filterMap_gathered`).
-/

set_option autoImplicit false

namespace DocFilter

open Text (byte)

/-! ## The last amount counts -/

/-- The amount that a directive gives to a kind of clause. -/
def Directive.amount? (kind : ModifierKind) : Directive → Option Value
  | .modifier m => if m.kind = kind then some m.amount else none
  | _ => none

/-- The amounts that directives give to a kind of clause, in order. -/
def Directive.amounts (kind : ModifierKind) (ds : List Directive) : List Value :=
  ds.filterMap (Directive.amount? kind)

namespace Value

/-- The last of several values, as an amount. -/
def lastAmount? (vs : List Value) : Option Nat := vs.getLast?.bind Value.amount?

/-- All of several values are amounts. -/
def Numeric (vs : List Value) : Prop := ∀ v ∈ vs, v.amount? ≠ none

/-- Lists of amounts that are numbers can be joined. The directives of the filter and those of the options
come together in this way. -/
theorem Numeric.append {us vs : List Value} (hus : Numeric us) (hvs : Numeric vs) :
    Numeric (us ++ vs) := by
  intro v hv
  rcases List.mem_append.1 hv with hv | hv
  · exact hus v hv
  · exact hvs v hv

/-- Among amounts that are numbers there is a last one exactly if there is one at all. -/
theorem Numeric.isSome_lastAmount? {vs : List Value} (h : Numeric vs) :
    (lastAmount? vs).isSome = true ↔ vs ≠ [] := by
  by_cases hempty : vs = []
  · simp [lastAmount?, hempty]
  · have hlast : vs.getLast? = some (vs.getLast hempty) := List.getLast?_eq_some_getLast hempty
    have hsome := Option.isSome_iff_ne_none.2 (h _ (List.getLast_mem hempty))
    simp [lastAmount?, hlast, hempty, hsome]

/-- The last amount of two lists is that of the second, and that of the first if the second has none. This
is how an option overrides the filter. -/
theorem Numeric.lastAmount?_append {us vs : List Value} (h : Numeric vs) :
    lastAmount? (us ++ vs) = (lastAmount? vs).or (lastAmount? us) := by
  by_cases hempty : vs = []
  · simp [lastAmount?, hempty]
  · rw [Option.or_of_isSome (h.isSome_lastAmount?.2 hempty), lastAmount?, lastAmount?,
      List.getLast?_append_of_ne_nil _ hempty]

end Value

/-- Something takes in directives one by one, and holds on to the last amount of a kind. -/
def Directive.Held {S : Type} (add : S → Directive → Except QueryError S) (kind : ModifierKind)
    (held : S → Option Nat) : Prop :=
  ∀ {s s' : S} {d : Directive}, add s d = .ok s' →
    (d.amount? kind = none ∧ held s' = held s) ∨
      ∃ v n, d.amount? kind = some v ∧ v.amount? = some n ∧ held s' = some n

/-- After several directives it holds the last amount among them, if there is one. -/
theorem Directive.Held.foldlM {S : Type} {add : S → Directive → Except QueryError S}
    {kind : ModifierKind} {held : S → Option Nat} (h : Held add kind held) {ds : List Directive}
    {s s' : S} (hds : ds.foldlM add s = .ok s') :
    Value.Numeric (amounts kind ds) ∧ held s' = (Value.lastAmount? (amounts kind ds)).or (held s) := by
  induction ds generalizing s with
  | nil =>
    cases hds
    exact ⟨by simp [Value.Numeric, amounts], rfl⟩
  | cons d rest ih =>
    rw [List.foldlM_cons] at hds
    obtain ⟨s₁, hs₁, hrest⟩ := bind_eq_ok hds
    obtain ⟨hnumeric, hheld⟩ := ih hrest
    rcases h hs₁ with ⟨hnone, hkept⟩ | ⟨v, n, hsome, hn, htaken⟩
    · have hamounts : amounts kind (d :: rest) = amounts kind rest := List.filterMap_cons_none hnone
      rw [hamounts, hheld, hkept]
      exact ⟨hnumeric, rfl⟩
    · have hamounts : amounts kind (d :: rest) = [v] ++ amounts kind rest :=
        List.filterMap_cons_some hsome
      have hv : Value.Numeric [v] := by simp [Value.Numeric, hn]
      -- what comes later counts before the amount here, and this one before what was held
      have hlast : Value.lastAmount? [v] = some n := by simp [Value.lastAmount?, hn]
      rw [hamounts, hheld, htaken, hnumeric.lastAmount?_append, hlast, Option.or_assoc, Option.some_or]
      exact ⟨hv.append hnumeric, rfl⟩

namespace Clauses

/-- Clauses are gathered directive by directive. As a fold the loop has the same shape as that of the window
below, so that one lemma on holding the last amount serves both. -/
theorem addAll_eq_foldlM (c : Clauses) (ds : List Directive) : c.addAll ds = ds.foldlM add c := by
  induction ds generalizing c with
  | nil => rfl
  | cons d rest ih =>
    rw [addAll, List.foldlM_cons]
    exact bind_congr ih

/-- The clauses hold the limit: a limit that is added is checked and kept, and everything else leaves the
limit as it is. -/
theorem held_limit : Directive.Held add .limit limit := by
  intro c c' d h
  unfold add at h
  grind [Directive.amount?]

/-- The clauses hold the skip in the same way as the limit. -/
theorem held_skip : Directive.Held add .skip skip := by
  intro c c' d h
  unfold add at h
  grind [Directive.amount?]

end Clauses

/-- What is compiled has no amount that is no number. -/
theorem numeric_of_compile {options : CompileOptions} {ds : List Directive} {st : Statement}
    (h : compile options ds = .ok st) :
    Value.Numeric (Directive.amounts .limit ds) ∧ Value.Numeric (Directive.amounts .skip ds) := by
  rw [compile_eq_statement] at h
  obtain ⟨c, hc, -⟩ := bind_eq_ok h
  rw [Clauses.addAll_eq_foldlM] at hc
  exact ⟨(Clauses.held_limit.foldlM hc).1, (Clauses.held_skip.foldlM hc).1⟩

namespace Builder.Window

/-- The window is gathered directive by directive, in a loop of its own beside that of the clauses. -/
theorem addAll_eq_foldlM (w : Window) (ds : List Directive) : w.addAll ds = ds.foldlM add w := by
  induction ds generalizing w with
  | nil => rfl
  | cons d rest ih =>
    rw [addAll, List.foldlM_cons]
    exact bind_congr ih

/-- The window holds the limit, and checks it in the same way as the clauses do. -/
theorem held_limit : Directive.Held add .limit limit := by
  intro w w' d h
  unfold add at h
  grind [Directive.amount?]

/-- The window holds the skip. It has one from the start, which is zero, where the clauses have none. -/
theorem held_skip : Directive.Held add .skip fun w => some w.skip := by
  intro w w' d h
  unfold add at h
  grind [Directive.amount?]

/-- The window of directives is made of their last amounts, and of the window that was there where none is
asked for. All amounts are numbers then. -/
theorem addAll_ok {w w' : Window} {ds : List Directive} (h : w.addAll ds = .ok w') :
    Value.Numeric (Directive.amounts .limit ds) ∧ Value.Numeric (Directive.amounts .skip ds) ∧
      w' = ⟨(Value.lastAmount? (Directive.amounts .limit ds)).or w.limit,
        (Value.lastAmount? (Directive.amounts .skip ds)).getD w.skip⟩ := by
  rw [addAll_eq_foldlM] at h
  obtain ⟨hlimits, hlimit⟩ := held_limit.foldlM h
  obtain ⟨hskips, hskip⟩ := held_skip.foldlM h
  have hskip' : w'.skip = (Value.lastAmount? (Directive.amounts .skip ds)).getD w.skip := by
    simpa [Option.or_some] using hskip
  refine ⟨hlimits, hskips, ?_⟩
  rw [← hlimit, ← hskip']

/-- Only an amount that is no number is in the way of a window. Directives that ask for anything else are
passed over, and cannot fail here. -/
theorem addAll_error {w : Window} {ds : List Directive} {e : QueryError} (h : w.addAll ds = .error e) :
    ∃ v ∈ Directive.amounts .limit ds ++ Directive.amounts .skip ds, v.amount? = none := by
  induction ds generalizing w with
  | nil => cases h
  | cons d rest ih =>
    rw [addAll] at h
    cases hadd : w.add d with
    | ok w₁ =>
      rw [hadd] at h
      obtain ⟨v, hv, hnone⟩ := ih h
      refine ⟨v, ?_, hnone⟩
      have hmore := fun kind => ((List.sublist_cons_self d rest).filterMap (Directive.amount? kind)).subset
      rcases List.mem_append.1 hv with hv | hv
      · exact List.mem_append_left _ (hmore .limit hv)
      · exact List.mem_append_right _ (hmore .skip hv)
    | error e' =>
      unfold add at hadd
      grind [Directive.amounts, Directive.amount?]

end Builder.Window

/-! ## The fields of a filter -/

/-- The values of the fields with a key, in order. -/
def Document.valuesOf (d : Document) (key : Text) : List Value :=
  (d.filter (·.1 == key)).map (·.2)

/-- The values under a key, with one more field in front. All fields with the key count, not only the first
one. -/
theorem Document.valuesOf_cons (k : Text) (v : Value) (rest : Document) (key : Text) :
    valuesOf ((k, v) :: rest) key = (if k == key then [v] else []) ++ valuesOf rest key := by
  by_cases hk : (k == key) = true <;> simp [valuesOf, hk]

/-- Setting another key leaves the values under a key as they are. A service sets the type, and so does not
touch limits, skips and the consistency. -/
theorem Document.valuesOf_set (d : Document) {k key : Text} (hne : k ≠ key) (v : Value) :
    (d.set k v).valuesOf key = d.valuesOf key := by
  have hkey : (k == key) = false := beq_false_of_ne hne
  induction d with
  | nil => simp [set, replace?, valuesOf, hkey]
  | cons field rest ih =>
    obtain ⟨k', old⟩ := field
    rw [set_cons]
    by_cases hk' : (k' == k) = true
    · have hother : (k' == key) = false := by rw [beq_iff_eq.1 hk']; exact hkey
      rw [if_pos hk', valuesOf_cons, valuesOf_cons, hother]
      rfl
    · rw [if_neg hk', valuesOf_cons, valuesOf_cons, ih]

/-- The clauses that a field of a filter makes, by its key. -/
inductive FieldClauses (v : Value) : Text → List Directive → Prop
  | ordinary {key : Text} : directiveName? key = none → FieldClauses v key []
  | group : FieldClauses v "$or" []
  | limit : FieldClauses v "$limit" [.modifier ⟨.limit, v, [], []⟩]
  | skip : FieldClauses v "$skip" [.modifier ⟨.skip, v, [], []⟩]
  | select (fields : List Text) : FieldClauses v "$select" [.select fields]
  | sort {keys : List SortKey} : sortKeys v = .ok keys →
      FieldClauses v "$sort" [.modifier ⟨.sort, .null, [], keys⟩]
  | extension {key : Text} (name : Text) : directiveName? key = some name → key ∉ reservedKeys →
      FieldClauses v key [.extension name v]

/-- What one field of a filter contributes beside conditions. A reserved key gives one directive for what it
asks for; any other key gives conditions only. -/
theorem fieldClauses_of_interpretField {key : Text} {v : Value} {part : Contribution}
    (h : interpretField key v = .ok part) : FieldClauses v key part.clauses := by
  have hreading := interpretField_reading key v
  rw [h] at hreading
  -- each reading says what is contributed, and a misplaced comparison contributes nothing
  generalize hr : (Except.ok part : Except QueryError Contribution) = r at hreading
  cases hreading with
  | ordinary hname =>
    obtain ⟨ds, -, rfl⟩ := map_eq_ok_iff.1 hr.symm
    exact .ordinary hname
  | group hkey =>
    obtain ⟨d, -, rfl⟩ := map_eq_ok_iff.1 hr.symm
    subst hkey
    exact .group
  | limit hkey =>
    cases hr
    subst hkey
    exact .limit
  | skip hkey =>
    cases hr
    subst hkey
    exact .skip
  | select hkey =>
    obtain ⟨fields, -, rfl⟩ := map_eq_ok_iff.1 hr.symm
    subst hkey
    exact .select fields
  | sort hkey =>
    obtain ⟨keys, hkeys, rfl⟩ := map_eq_ok_iff.1 hr.symm
    subst hkey
    exact .sort hkeys
  | comparison c hkey => cases hr
  | extension name hname hkey =>
    cases hr
    exact .extension name hname hkey

/-- A way to look at directives that finds the values of a filter under a key: it passes over
conditions, and finds in the clauses of a field its value, if the field has the key. -/
structure Directive.Picks (pick : Directive → Option Value) (key : Text) : Prop where
  condition : ∀ d : Directive, d.isCondition = true → pick d = none
  field : ∀ {k : Text} {v : Value} {ds : List Directive}, FieldClauses v k ds →
    ds.filterMap pick = if k == key then [v] else []

namespace Directive.Picks

variable {pick : Directive → Option Value} {key : Text}

/-- What is picked from the directives of a filter is what stands under the key in it, one for each field
with the key and in their order. -/
theorem interpretFields (h : Picks pick key) {d : Document} {parts : Contribution}
    (hd : DocFilter.interpretFields d = .ok parts) :
    parts.clauses.filterMap pick = d.valuesOf key := by
  induction d generalizing parts with
  | nil =>
    cases hd
    rfl
  | cons field rest ih =>
    rw [DocFilter.interpretFields] at hd
    obtain ⟨here, hhere, hd⟩ := bind_eq_ok hd
    obtain ⟨more, hmore, hd⟩ := bind_eq_ok hd
    cases hd
    rw [List.filterMap_append, h.field (fieldClauses_of_interpretField hhere), ih hmore,
      Document.valuesOf_cons]

/-- What is found in the directives of a filter are its values under the key. -/
theorem interpret (h : Picks pick key) {d : Document} {ds : List Directive}
    (hd : DocFilter.interpret d = .ok ds) : ds.filterMap pick = d.valuesOf key := by
  obtain ⟨parts, hparts, rfl⟩ := interpret_parts hd
  have hconditions : (conjunction parts.conditions).filterMap pick = [] := by
    unfold conjunction
    by_cases hempty : parts.conditions.isEmpty = true
    · simp [hempty]
    · simp [hempty, h.condition (.logical .and parts.conditions) rfl]
  rw [List.filterMap_append, h.interpretFields hparts, hconditions, List.append_nil]

end Directive.Picks

/-- A key that names no directive is none of the keys with a dollar sign. -/
theorem beq_of_directiveName?_none {k key : Text} (hk : directiveName? k = none)
    (hkey : directiveName? key ≠ none) : (k == key) = false := by
  apply beq_false_of_ne
  rintro rfl
  exact hkey hk

/-- A key that is not reserved differs from every key that is. In the cases of a field this drops it from
the values under the key. -/
theorem beq_of_not_reserved {k key : Text} (hk : k ∉ reservedKeys) (hkey : key ∈ reservedKeys) :
    (k == key) = false := by
  apply beq_false_of_ne
  rintro rfl
  exact hk hkey

/-- A condition has no amount, so conditions can be filtered out before amounts are gathered. -/
theorem Directive.amount?_of_isCondition {d : Directive} (h : d.isCondition = true)
    (kind : ModifierKind) : d.amount? kind = none := by
  cases d with
  | comparison | logical => rfl
  | modifier | extension | missing => cases h

/-- The amounts of limits are picked by `$limit`: no other key of a filter gives such a directive, and this
key gives one for each value. -/
theorem picks_limit : Directive.Picks (Directive.amount? .limit) "$limit" where
  condition d hd := Directive.amount?_of_isCondition hd _
  field h := by
    cases h with
    | ordinary hk => rw [beq_of_directiveName?_none hk (by decide)]; rfl
    | group | limit | skip | select | sort => rfl
    | extension name hname hk => rw [beq_of_not_reserved hk (by decide)]; rfl

theorem picks_skip : Directive.Picks (Directive.amount? .skip) "$skip" where
  condition d hd := Directive.amount?_of_isCondition hd _
  field h := by
    cases h with
    | ordinary hk => rw [beq_of_directiveName?_none hk (by decide)]; rfl
    | group | limit | skip | select | sort => rfl
    | extension name hname hk => rw [beq_of_not_reserved hk (by decide)]; rfl

/-- The payload of a directive that is an extension with a name. -/
def Directive.payload? (name : Text) (d : Directive) : Option Value :=
  d.extension?.bind fun e => if e.1 == name then some e.2 else none

/-- A condition is no extension, so conditions can be filtered out before extensions are looked at. -/
theorem Directive.payload?_of_isCondition {d : Directive} (h : d.isCondition = true) (name : Text) :
    d.payload? name = none := by
  cases d with
  | comparison | logical => rfl
  | modifier | extension | missing => cases h

/-- The consistency is an extension of the filter: its values are picked by `$consistency`. Other extensions
have other names and are passed over. -/
theorem picks_consistency : Directive.Picks (Directive.payload? "consistency") "$consistency" where
  condition d hd := Directive.payload?_of_isCondition hd _
  field h := by
    cases h with
    | ordinary hk => rw [beq_of_directiveName?_none hk (by decide)]; rfl
    | group | limit | skip | select | sort => rfl
    | @extension k name hname hk =>
      obtain rfl := key_of_directiveName? hname
      have hkey : ((byte '$' :: name) == Text.ofString "$consistency")
          = (name == Text.ofString "consistency") := rfl
      rw [hkey]
      by_cases hname : name = Text.ofString "consistency"
        <;> simp [Directive.payload?, Directive.extension?, hname]

/-- The value of an extension is the last that the directives have under its name. The definition goes
through the list once and keeps what it found last. -/
theorem Directive.extensionValue?_eq (ds : List Directive) (name : Text) :
    extensionValue? ds name = (ds.filterMap (payload? name)).getLast? := by
  have hpayloads : ds.filterMap (payload? name)
      = ((extensions ds).filter (·.1 == name)).map (·.2) := by
    rw [← List.filterMap_eq_map, ← List.filterMap_eq_filter, List.filterMap_filterMap, extensions,
      List.filterMap_filterMap]
    refine List.filterMap_congr fun d _ => ?_
    cases hd : d.extension? with
    | none => simp [payload?, hd]
    | some e => by_cases hname : e.1 = name <;> simp [payload?, hd, hname, Option.guard]
  rw [hpayloads, List.getLast?_map, List.getLast?_eq_head?_reverse, ← List.filter_reverse,
    List.head?_filter, extensionValue?]

/-! ## The options of a search -/

namespace FindOption

/-- The directives that an option adds, if it can. -/
def directives : FindOption → List Directive
  | .select fields => [.select fields]
  | .limit n => [.modifier ⟨.limit, .int .int n, [], []⟩]
  | .skip n => [.modifier ⟨.skip, .int .int n, [], []⟩]
  | .ascending field => [.modifier ⟨.sort, .null, [], [⟨field, .asc⟩]⟩]
  | .descending field => [.modifier ⟨.sort, .null, [], [⟨field, .desc⟩]⟩]
  | .compare field op v => [.comparison op field v]
  | .consistency _ | .paginate _ => []

/-- The limit that an option gives. -/
def limit? : FindOption → Option Value
  | .limit n => some (.int .int n)
  | _ => none

/-- The skip that an option gives. -/
def skip? : FindOption → Option Value
  | .skip n => some (.int .int n)
  | _ => none

/-- The consistency that an option gives. -/
def consistency? : FindOption → Option Consistency
  | .consistency c => some c
  | _ => none

/-- The rule for pages that an option gives. -/
def paginate? : FindOption → Option Paginate
  | .paginate p => some p
  | _ => none

/-- What is found in the directives of options, if it is found in those of each. -/
theorem filterMap_directives {pick : Directive → Option Value} {given : FindOption → Option Value}
    (h : ∀ o : FindOption, o.directives.filterMap pick = (given o).toList) (options : List FindOption) :
    (options.flatMap directives).filterMap pick = options.filterMap given := by
  rw [List.filterMap_flatMap, List.filterMap_eq_flatMap_toList]
  exact List.flatMap_congr fun o _ => h o

end FindOption

/-- A call that leaves no error was made on a builder without one, and has added what it was given. Errors
stay, so the absence of one in the end says that every call succeeded. -/
theorem Builder.addResult_directives {b : Builder} {r : Except QueryError (List Directive)}
    (h : (b.addResult r).error = none) :
    b.error = none ∧ ∃ ds, r = .ok ds ∧ (b.addResult r).directives = b.directives ++ ds := by
  obtain ⟨scope, directives, error, hasQuerier, consistency⟩ := b
  cases error with
  | some e => cases r <;> cases h
  | none =>
    cases r with
    | error e => cases h
    | ok ds => exact ⟨rfl, ds, rfl, rfl⟩

theorem Builder.addOne_directives {b : Builder} {r : Except QueryError Directive}
    (h : (b.addOne r).error = none) :
    b.error = none ∧ ∃ d, r = .ok d ∧ (b.addOne r).directives = b.directives ++ [d] := by
  obtain ⟨hb, ds, hr, hds⟩ := addResult_directives h
  obtain ⟨d, hd, rfl⟩ := map_eq_ok_iff.1 hr
  exact ⟨hb, d, hd, hds⟩

/-- Adding directives leaves the consistency that was chosen for the builder as it is; only the call for it
changes it. -/
theorem Builder.addResult_consistency (b : Builder) (r : Except QueryError (List Directive)) :
    (b.addResult r).consistency = b.consistency := by
  obtain ⟨scope, directives, error, hasQuerier, consistency⟩ := b
  cases error <;> cases r <;> rfl

/-- One option adds its directives, unless something has failed before or fails now. A comparison fails for
the empty field and for an operator that is not known. -/
theorem Search.apply_directives {q : Search} {o : FindOption} (h : (q.apply o).builder.error = none) :
    q.builder.error = none ∧ (q.apply o).builder.directives = q.builder.directives ++ o.directives := by
  cases o with
  | select fields =>
    obtain ⟨hq, ds, hr, hds⟩ := Builder.addResult_directives (r := .ok [Directive.select fields]) h
    cases hr
    exact ⟨hq, hds⟩
  | limit n | skip n | ascending field | descending field =>
    obtain ⟨hq, d, hr, hd⟩ := Builder.addOne_directives h
    cases hr
    exact ⟨hq, hd⟩
  | compare field op v =>
    obtain ⟨hq, d, hr, hd⟩ := Builder.addOne_directives h
    unfold Directive.compare at hr
    by_cases hfield : field.isEmpty = true
    · rw [if_pos hfield] at hr
      cases hr
    · rw [if_neg hfield] at hr
      cases op with
      | known c =>
        cases hr
        exact ⟨hq, hd⟩
      | other name => cases hr
  -- these are kept beside the directives
  | consistency | paginate => exact ⟨h, (List.append_nil _).symm⟩

/-- If all options have been applied without an error, the directives are those from before and then those
of the options, in the order in which they were given. -/
theorem Search.foldl_directives {q : Search} {options : List FindOption}
    (h : (options.foldl Search.apply q).builder.error = none) :
    q.builder.error = none ∧ (options.foldl Search.apply q).builder.directives
      = q.builder.directives ++ options.flatMap FindOption.directives := by
  induction options generalizing q with
  | nil => exact ⟨h, (List.append_nil _).symm⟩
  | cons o rest ih =>
    obtain ⟨hfirst, hrest⟩ := ih h
    obtain ⟨hq, hone⟩ := apply_directives hfirst
    refine ⟨hq, ?_⟩
    rw [List.foldl_cons, hrest, hone, List.append_assoc, List.flatMap_cons]

/-- Where an option sets something, the last option that does so counts. -/
theorem Search.foldl_last {α : Type} (field : Search → α) (given : FindOption → Option α)
    (h : ∀ (q : Search) (o : FindOption), field (q.apply o) = (given o).getD (field q)) (q : Search)
    (options : List FindOption) :
    field (options.foldl Search.apply q) = (options.filterMap given).getLast?.getD (field q) := by
  induction options generalizing q with
  | nil => rfl
  | cons o rest ih =>
    rw [List.foldl_cons, ih, h]
    cases hgiven : given o with
    | none => rw [List.filterMap_cons_none hgiven]; rfl
    | some a => rw [List.filterMap_cons_some hgiven, List.getLast?_cons]; rfl

/-! ## What is asked for -/

/-- The limits that a filter and options give, in order. -/
def givenLimits (filter : Document) (options : List FindOption) : List Value :=
  filter.valuesOf "$limit" ++ options.filterMap FindOption.limit?

/-- The skips that a filter and options give, in order. -/
def givenSkips (filter : Document) (options : List FindOption) : List Value :=
  filter.valuesOf "$skip" ++ options.filterMap FindOption.skip?

/-- The consistency that a search asks for, if the database knows it: that of the last option, unless
it is empty, else what the last entry of the filter says. Where no entry says anything the choice is
left to the database. -/
def givenConsistency? (filter : Document) (options : List FindOption) : Option Consistency :=
  let chosen := (options.filterMap FindOption.consistency?).getLast?.getD []
  if chosen ≠ [] then some chosen
  else
    match (filter.valuesOf "$consistency").getLast? with
    | none | some .null => some []
    | some v => (Consistency.parse v.display).toOption

namespace Service

/-- The filter of a search, with the demand on the type. -/
def restricted (s : Service) (filter : Document) : Document := filter.set typeField (.text s.name)

/-- The rule for pages that counts for a search: that of the last option, else that of the service. -/
def paging (s : Service) (options : List FindOption) : Paginate :=
  (options.filterMap FindOption.paginate?).getLast?.getD s.paginate

/-- The search that a filter and options describe. -/
def search (s : Service) (filter : Document) (options : List FindOption) : Search :=
  options.foldl Search.apply (Search.start s filter)

variable {s : Service} {filter : Document} {options : List FindOption}

/-- A search gathers the directives of its filter and of its options. -/
theorem search_directives (h : (s.search filter options).builder.error = none) :
    ∃ ds, interpret (s.restricted filter) = .ok ds ∧
      (s.search filter options).builder.scope = s.bucket ∧
      (s.search filter options).builder.directives = ds ++ options.flatMap FindOption.directives := by
  obtain ⟨hstart, hdirectives⟩ := Search.foldl_directives h
  obtain ⟨hscope, hds⟩ := Search.start_ok hstart
  exact ⟨_, hds, (Search.foldl_grows _ options).scope.trans hscope, hdirectives⟩

/-- The bounds of a page are those of the last option that sets them, else those of the service. -/
theorem search_paginate : (s.search filter options).paginate = s.paging options :=
  Search.foldl_last Search.paginate FindOption.paginate? (fun q o => by cases o <;> rfl) _ options

/-- What is picked from the directives of a search stands in its filter or in an option. -/
theorem filterMap_gathered {pick : Directive → Option Value} {key : Text}
    (given : FindOption → Option Value) (hpick : Directive.Picks pick key) (hkey : typeField ≠ key)
    (hgiven : ∀ o : FindOption, o.directives.filterMap pick = (given o).toList) {ds : List Directive}
    (hds : interpret (s.restricted filter) = .ok ds) :
    (ds ++ options.flatMap FindOption.directives).filterMap pick
      = filter.valuesOf key ++ options.filterMap given := by
  rw [List.filterMap_append, hpick.interpret hds, restricted, Document.valuesOf_set _ hkey,
    FindOption.filterMap_directives hgiven]

/-- The limits of a search are those under `$limit` in the filter, and then those of the options. The
restriction to the type of the service adds none. -/
theorem gathered_limits {ds : List Directive} (hds : interpret (s.restricted filter) = .ok ds) :
    Directive.amounts .limit (ds ++ options.flatMap FindOption.directives) = givenLimits filter options :=
  filterMap_gathered FindOption.limit? picks_limit (by decide) (fun o => by cases o <;> rfl) hds

theorem gathered_skips {ds : List Directive} (hds : interpret (s.restricted filter) = .ok ds) :
    Directive.amounts .skip (ds ++ options.flatMap FindOption.directives) = givenSkips filter options :=
  filterMap_gathered FindOption.skip? picks_skip (by decide) (fun o => by cases o <;> rfl) hds

/-- The window of a search is made of the last amounts that are given, or one of the amounts is no number,
and then there is an error instead. -/
theorem search_window (h : (s.search filter options).builder.error = none) :
    (∃ v ∈ givenLimits filter options ++ givenSkips filter options, v.amount? = none) ∧
        (∃ e, (s.search filter options).builder.window = .error e) ∨
      (Value.Numeric (givenLimits filter options ++ givenSkips filter options) ∧
        (s.search filter options).builder.window
          = .ok ⟨Value.lastAmount? (givenLimits filter options),
              (Value.lastAmount? (givenSkips filter options)).getD 0⟩) := by
  obtain ⟨ds, hds, -, hdirectives⟩ := search_directives h
  rw [← gathered_limits hds, ← gathered_skips hds, ← hdirectives]
  unfold Builder.window
  rw [h]
  dsimp only
  cases hwindow : ({} : Builder.Window).addAll (s.search filter options).builder.directives with
  | error e => exact .inl ⟨Builder.Window.addAll_error hwindow, e, rfl⟩
  | ok w =>
    obtain ⟨hlimits, hskips, rfl⟩ := Builder.Window.addAll_ok hwindow
    refine .inr ⟨hlimits.append hskips, ?_⟩
    rw [Option.or_none]

/-- The consistency chosen by options is that of the last option for it, and the empty text if there is
none, which leaves the choice to the filter. -/
theorem search_chosen : (s.search filter options).builder.consistency
    = (options.filterMap FindOption.consistency?).getLast?.getD [] := by
  have hstep : ∀ (q : Search) (o : FindOption),
      (q.apply o).builder.consistency = o.consistency?.getD q.builder.consistency := by
    intro q o
    cases o with
    | select fields => exact Builder.addResult_consistency _ (.ok [Directive.select fields])
    | limit | skip | ascending | descending | compare => exact Builder.addResult_consistency _ _
    | consistency | paginate => rfl
  have hstart : (Search.start s filter).builder.consistency = [] :=
    Builder.addResult_consistency { scope := s.bucket } (interpret (s.restricted filter))
  rw [← hstart]
  exact Search.foldl_last (·.builder.consistency) FindOption.consistency? hstep _ options

/-- The level of consistency of a search is the one that is asked for, whatever clauses are added. An option
comes before an entry of the filter, and of each the last one counts. -/
theorem search_consistency (h : (s.search filter options).builder.error = none)
    (more : List Directive) (hmore : more.filterMap (Directive.payload? "consistency") = [])
    {b : Builder} (hchosen : b.consistency = (s.search filter options).builder.consistency)
    (hdirectives : b.directives = (s.search filter options).builder.directives ++ more) :
    b.consistencyLevel.toOption = givenConsistency? filter options := by
  obtain ⟨ds, hds, -, hgathered⟩ := search_directives h
  have hentry : Directive.extensionValue? b.directives "consistency"
      = (filter.valuesOf "$consistency").getLast? := by
    rw [Directive.extensionValue?_eq, hdirectives, List.filterMap_append, hmore, List.append_nil,
      hgathered, filterMap_gathered (fun _ => none) picks_consistency (by decide)
        (fun o => by cases o <;> rfl) hds]
    simp
  unfold Builder.consistencyLevel givenConsistency?
  rw [hchosen, search_chosen, hentry]
  dsimp only
  -- no option, or an empty one: the entry decides, if it is not null
  by_cases hempty : (options.filterMap FindOption.consistency?).getLast?.getD [] = []
  · rw [hempty, List.isEmpty_nil, if_pos rfl, if_neg (by simp)]
    cases (filter.valuesOf "$consistency").getLast? with
    | none => rfl
    | some v =>
      cases v with
      | null => rfl
      | _ =>
        dsimp only
        generalize Consistency.parse _ = level
        cases level <;> rfl
  · rw [if_neg (by simpa using hempty), if_pos hempty]
    rfl

end Service

end DocFilter
