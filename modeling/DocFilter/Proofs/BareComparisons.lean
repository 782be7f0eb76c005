import DocFilter.Proofs.Faults

/-!
Comparison keys with no field in front of them. At the top of a filter such a key is refused. At the
top of an element of an `$or` it is passed over, like every other directive key there: the condition
that it was meant to be is lost, and an element that holds nothing else is a conjunction of nothing,
which every row satisfies.

Pruning a filter takes these keys out of the elements of all groups that the walk comes to. Main result
(`interpret_pruned`): a filter and its pruned form are interpreted in the same way, groups of the
latter have no such key left, and yet each of the elements that lost one is refused on its own.
-/

set_option autoImplicit false

namespace DocFilter

/-! ## Pruning -/

/-- A comparison key. -/
def isComparisonKey (key : Text) : Bool := Comparator.all.any (·.key == key)

/-- A comparison key is the key of an operator. So what is pruned is exactly what is refused at the top of a
filter. -/
theorem isComparisonKey_iff {key : Text} : isComparisonKey key = true ↔ ∃ c : Comparator, c.key = key := by
  unfold isComparisonKey
  rw [List.any_eq_true]
  constructor
  · rintro ⟨c, -, hc⟩
    exact ⟨c, beq_iff_eq.1 hc⟩
  · rintro ⟨c, hc⟩
    exact ⟨c, by cases c <;> decide, beq_iff_eq.2 hc⟩

namespace Filter

mutual

/-- Prunes the groups below a field. -/
def pruneField : Value → Value
  | .doc entries => .doc (prune entries)
  | .table .numbered entries => .table .numbered entries
  | .table ty entries => .table ty (prune entries)
  | v => v

/-- Prunes the groups of the entries of an object or a filter. -/
def prune : List (Text × Value) → List (Text × Value)
  | [] => []
  | (key, v) :: rest =>
    let here :=
      match directiveName? key with
      | some name => if name == orName then pruneGroup v else v
      | none => pruneField v
    (key, here) :: prune rest

/-- Prunes the payload of an `$or`. -/
def pruneGroup : Value → Value
  | .list ty items => .list ty (pruneElements items)
  | v => v

/-- Prunes the elements of an `$or`. -/
def pruneElements : List Value → List Value
  | [] => []
  | v :: rest => pruneElement v :: pruneElements rest

/-- An element of an `$or` without its comparison keys, with the groups below it pruned. -/
def pruneElement : Value → Value
  | .doc fields => .doc ((prune fields).filter (!isComparisonKey ·.1))
  | .table .numbered entries => .table .numbered entries
  | .table ty entries => .table ty ((prune entries).filter (!isComparisonKey ·.1))
  | v => v

end

/-- Prunes the groups of the value under a key. -/
def pruneEntry (key : Text) (v : Value) : Value :=
  match directiveName? key with
  | some name => if name == orName then pruneGroup v else v
  | none => pruneField v

/-- Pruning goes through the entries one by one, and keeps their keys and their order. -/
theorem prune_eq (entries : List (Text × Value)) :
    prune entries = entries.map fun e => (e.1, pruneEntry e.1 e.2) := by
  induction entries with
  | nil => rw [prune, List.map_nil]
  | cons e rest ih =>
    rw [prune, ih]
    rfl

/-- Pruning goes through the elements of a group one by one. -/
theorem pruneElements_eq (items : List Value) : pruneElements items = items.map pruneElement := by
  induction items with
  | nil => rw [pruneElements, List.map_nil]
  | cons v rest ih => rw [pruneElements, ih, List.map_cons]

/-- Pruning the entries of a table and sorting them commute. -/
theorem sortedByKey_prune (entries : List (Text × Value)) :
    sortedByKey (prune entries) = prune (sortedByKey entries) := by
  rw [prune_eq, prune_eq]
  exact sortByKey_map (fun e : Text × Value => (e.1, pruneEntry e.1 e.2)) (fun _ => rfl) entries

/-- Pruning keeps kinds. The interpreter asks for the kind of a value first, so it takes the same way in
both. -/
theorem kind_pruneField (v : Value) : (pruneField v).kind = v.kind := by
  cases v with
  | table ty entries => cases ty <;> rfl
  | _ => rfl

/-- The fields of a pruned object are its pruned fields, also if it is a table, whose fields are sorted. -/
theorem fields_pruneField (v : Value) : (pruneField v).fields = prune v.fields := by
  cases v with
  | doc entries => rfl
  | table ty entries =>
    cases ty with
    | numbered => rfl
    | any | texts | counts => exact sortedByKey_prune entries
  | _ => rfl

/-- A value that is no object is compared as it is, and pruning leaves it alone. -/
theorem pruneField_of_not_object {v : Value} (h : v.kind ≠ .object) : pruneField v = v := by
  cases v with
  | doc entries => exact absurd rfl h
  | table ty entries =>
    cases ty with
    | numbered => rfl
    | any | texts | counts => exact absurd rfl h
  | _ => rfl

/-- Pruning keeps the kind of an element, even if nothing is left in it. -/
theorem kind_pruneElement (v : Value) : (pruneElement v).kind = v.kind := by
  cases v with
  | table ty entries => cases ty <;> rfl
  | _ => rfl

/-- The fields of a pruned element are its pruned fields without the comparison keys. This is the only place
where anything is taken out. -/
theorem fields_pruneElement (v : Value) :
    (pruneElement v).fields = (prune v.fields).filter (!isComparisonKey ·.1) := by
  cases v with
  | doc entries => rfl
  | table ty entries =>
    cases ty with
    | numbered => rfl
    | any | texts | counts =>
      show sortedByKey _ = (prune (sortedByKey entries)).filter _
      rw [← sortedByKey_prune]
      exact sortByKey_filter _ (prune entries)
  | _ => rfl

theorem kind_pruneGroup (v : Value) : (pruneGroup v).kind = v.kind := by
  cases v <;> rfl

/-- The elements of a pruned group are its pruned elements, as many as before. -/
theorem elements_pruneGroup (v : Value) : (pruneGroup v).elements = v.elements.map pruneElement := by
  cases v with
  | list ty items => exact pruneElements_eq items
  | _ => rfl

end Filter

/-! ## Pruning changes nothing -/

/-- Entries that contribute nothing can be left out: contributions are put one after the other, and an entry
that fails does not contribute nothing. -/
theorem contributed_filter {entry : Text → Value → Except QueryError (List Directive)}
    {keep : Text × Value → Bool} {entries : List (Text × Value)}
    (h : ∀ e ∈ entries, keep e = false → entry e.1 e.2 = .ok []) :
    contributed entry (entries.filter keep) = contributed entry entries := by
  induction entries with
  | nil => rfl
  | cons e rest ih =>
    obtain ⟨he, hrest⟩ := List.forall_mem_cons.1 h
    have hcons : ∀ es, contributed entry (e :: es)
        = entry e.1 e.2 >>= fun ds => contributed entry es >>= fun more => .ok (ds ++ more) :=
      fun _ => rfl
    by_cases hkeep : keep e = true
    · rw [List.filter_cons_of_pos hkeep, hcons, hcons, ih hrest]
    · rw [List.filter_cons_of_neg hkeep, hcons, he (by simpa using hkeep), ih hrest]
      show _ = contributed entry rest >>= fun more => .ok ([] ++ more)
      cases contributed entry rest <;> rfl

namespace Filter

/-- Pruned entries contribute what they contributed before, if each of them does so on its own. -/
theorem contributed_prune {entry : Text → Value → Except QueryError (List Directive)}
    {entries : List (Text × Value)} (h : ∀ e ∈ entries, entry e.1 (pruneEntry e.1 e.2) = entry e.1 e.2) :
    contributed entry (prune entries) = contributed entry entries := by
  rw [prune_eq]
  unfold contributed
  rw [List.map_map]
  exact congrArg Contributions.combine (List.map_congr_left fun e he => congrArg (Prod.mk e.1) (h e he))

/-- A value contributes what it does when it is pruned, wherever it stands. -/
structure Unpruned (v : Value) : Prop where
  field : ∀ path, fieldDirectives path (pruneField v) = fieldDirectives path v
  element : orElement (pruneElement v) = orElement v
  group : orGroup (pruneGroup v) = orGroup v

/-- An entry below a field contributes the same when it is pruned. Comparison keys stay there, as they have
a field in front of them. -/
theorem Unpruned.nestedEntry {v : Value} (h : Unpruned v) (path key : Text) :
    nestedEntry path key (pruneEntry key v) = nestedEntry path key v := by
  unfold DocFilter.nestedEntry pruneEntry
  cases directiveName? key with
  | none => exact h.field _
  | some name =>
    dsimp only
    -- `$or` is no operator, and the values of the other keys stay as they are
    by_cases hor : (name == orName) = true
    · rw [if_pos hor, if_pos hor, h.group, beq_iff_eq.1 hor]
      rfl
    · rw [if_neg hor]

/-- A field in an element of a group contributes the same when it is pruned. -/
theorem Unpruned.orEntry {v : Value} (h : Unpruned v) (key : Text) :
    orEntry key (pruneEntry key v) = orEntry key v := by
  unfold DocFilter.orEntry pruneEntry
  cases directiveName? key with
  | none => exact h.field _
  | some name =>
    dsimp only
    split
    · rw [h.group]
    · rfl

/-- A comparison key of an element contributes nothing. -/
theorem orEntry_comparisonKey {key : Text} (h : isComparisonKey key = true) (v : Value) :
    DocFilter.orEntry key v = .ok [] := by
  obtain ⟨c, rfl⟩ := isComparisonKey_iff.1 h
  unfold DocFilter.orEntry
  rw [directiveName?_key]
  cases c <;> rfl

/-- The elements of a group contribute the same when they are pruned: what is taken out of them contributed
nothing. -/
theorem orElements_prune {items : List Value} (h : ∀ w ∈ items, Unpruned w) :
    orElements (items.map pruneElement) = orElements items := by
  induction items with
  | nil => rfl
  | cons w rest ih =>
    obtain ⟨hw, hrest⟩ := List.forall_mem_cons.1 h
    rw [List.map_cons, orElements, orElements, hw.element, ih hrest]

/-- Every value contributes the same when it is pruned, as the value of a field, as a group and as an
element of one. The induction over values proves the three together. -/
theorem unpruned (v : Value) : Unpruned v := by
  induction v using Value.partsInduction with
  | parts v ihFields ihElements =>
  -- under a field and in a group nothing is lost but below; an element loses its comparison keys
  refine ⟨fun path => ?_, ?_, ?_⟩
  · by_cases hobject : v.kind = .object
    · rw [fieldDirectives_of_object hobject,
        fieldDirectives_of_object ((kind_pruneField v).trans hobject), fields_pruneField]
      exact contributed_prune fun e he => (ihFields e he).nestedEntry path e.1
    · rw [pruneField_of_not_object hobject]
  · by_cases hobject : v.kind = .object
    · rw [orElement_of_object hobject, orElement_of_object ((kind_pruneElement v).trans hobject),
        fields_pruneElement, contributed_filter]
      · exact contributed_prune fun e he => (ihFields e he).orEntry e.1
      · intro e _ hkey
        exact orEntry_comparisonKey (by simpa using hkey) e.2
    · rw [orElement_of_not_object hobject,
        orElement_of_not_object (by rwa [kind_pruneElement])]
  · by_cases harray : v.kind = .array
    · rw [orGroup_of_array harray, orGroup_of_array ((kind_pruneGroup v).trans harray),
        elements_pruneGroup, orElements_prune ihElements]
    · rw [orGroup_of_not_array harray, orGroup_of_not_array (by rwa [kind_pruneGroup])]

/-- A field at the top of a filter contributes the same when it is pruned. Fields are pruned below, groups
in their elements; modifiers and extensions are not pruned at all. -/
theorem interpretField_pruneEntry (key : Text) (v : Value) :
    interpretField key (pruneEntry key v) = interpretField key v := by
  unfold interpretField pruneEntry
  cases directiveName? key with
  | none =>
    dsimp only
    rw [(unpruned v).field]
  | some name =>
    dsimp only
    by_cases hor : (name == orName) = true
    · obtain rfl := beq_iff_eq.1 hor
      rw [if_pos hor, (unpruned v).group]
      rfl
    · rw [if_neg hor]

theorem interpretFields_prune (d : Document) : interpretFields (prune d) = interpretFields d := by
  rw [prune_eq]
  induction d with
  | nil => rfl
  | cons e rest ih =>
    rw [List.map_cons, interpretFields, interpretFields, interpretField_pruneEntry, ih]

/-! ## No comparison keys are left -/

/-- None of the elements of a list has a comparison key at its top. -/
def Fielded (v : Value) : Prop := ∀ w ∈ v.elements, ∀ e ∈ w.fields, isComparisonKey e.1 = false

/-- All groups that the walk over a pruned value comes to are without comparison keys. -/
structure Pruned (v : Value) : Prop where
  field : ∀ path u, Site.OfField path (pruneField v) (.group u) → Fielded u
  element : ∀ u, Document.Visits (pruneElement v).fields (.group u) → Fielded u
  group : ∀ u, Site.OfGroup (pruneGroup v) (.group u) → Fielded u

/-- The groups below an entry of a pruned field have no comparison keys at the top of their elements. -/
theorem Pruned.ofNested {v u : Value} (h : Pruned v) {path key : Text}
    (hu : Site.OfNested path key (pruneEntry key v) (.group u)) : Fielded u := by
  generalize hw : pruneEntry key v = w at hu
  rcases hu with - | hu | ⟨hname, hu⟩
  · subst hw
    exact h.group u hu
  · unfold pruneEntry at hw
    rw [hname] at hw
    subst hw
    exact h.field _ u hu

/-- The groups below a field of a pruned element have none either. -/
theorem Pruned.ofEntry {v u : Value} (h : Pruned v) {key : Text}
    (hu : Site.OfEntry key (pruneEntry key v) (.group u)) : Fielded u := by
  generalize hw : pruneEntry key v = w at hu
  rcases hu with hu | ⟨hname, hu⟩
  · subst hw
    exact h.group u hu
  · unfold pruneEntry at hw
    rw [hname] at hw
    subst hw
    exact h.field _ u hu

theorem exists_of_mem_prune {e : Text × Value} {entries : List (Text × Value)} (h : e ∈ prune entries) :
    ∃ e' ∈ entries, e = (e'.1, pruneEntry e'.1 e'.2) := by
  rw [prune_eq] at h
  obtain ⟨e', he', rfl⟩ := List.mem_map.1 h
  exact ⟨e', he', rfl⟩

/-- After pruning, no group has a comparison key at the top of an element, at whatever depth the walk comes
to it. -/
theorem pruned (v : Value) : Pruned v := by
  induction v using Value.partsInduction with
  | parts v ihFields ihElements =>
  refine ⟨fun path u hu => ?_, fun u hu => ?_, fun u hu => ?_⟩
  · by_cases hobject : v.kind = .object
    · rw [Site.ofField_of_object ((kind_pruneField v).trans hobject), fields_pruneField] at hu
      obtain ⟨e, he, hu⟩ := hu
      obtain ⟨e', he', rfl⟩ := exists_of_mem_prune he
      exact (ihFields e' he').ofNested hu
    · rw [Site.ofField_of_not_object (by rwa [kind_pruneField])] at hu
      cases hu
  · rw [fields_pruneElement] at hu
    obtain ⟨e, he, hu⟩ := hu
    obtain ⟨e', he', rfl⟩ := exists_of_mem_prune (List.mem_filter.1 he).1
    exact (ihFields e' he').ofEntry hu
  · rw [Site.ofGroup_iff, elements_pruneGroup] at hu
    rcases hu with hself | ⟨w, hw, hu⟩
    · -- the payload itself has lost the comparison keys of its elements
      cases hself
      intro w hw e he
      rw [elements_pruneGroup] at hw
      obtain ⟨w', -, rfl⟩ := List.mem_map.1 hw
      rw [fields_pruneElement] at he
      simpa using (List.mem_filter.1 he).2
    · obtain ⟨w', hw', rfl⟩ := List.mem_map.1 hw
      exact (ihElements w' hw').element u hu

end Filter

/-- **A comparison key in an element of an `$or` counts for nothing.** A filter is interpreted like its
pruned form, in which no element of a group has a comparison key at its top. So whether interpreting
fails does not depend on these keys, although each of them is refused at the top of a filter. -/
theorem interpret_pruned (d : Document) :
    interpret (Filter.prune d) = interpret d ∧
      (∀ v, Document.Visits (Filter.prune d) (.group v) →
        ∀ w ∈ v.elements, ∀ e ∈ w.fields, ∀ c : Comparator, e.1 ≠ c.key) ∧
      ((∃ e, interpret d = .error e) ↔ d.Misshapen) ∧
      ∀ (c : Comparator) (v : Value), (c.key, v) ∈ d → ∃ e, interpret d = .error e := by
  refine ⟨?_, ?_, interpret_error_iff d, fun c v hmem => ?_⟩
  · rw [interpret, interpret, Filter.interpretFields_prune]
  · rintro v ⟨e, he, hv⟩ w hw e' he' c hc
    -- a group of the pruned filter is the pruned form of one, and its elements have lost such keys
    obtain ⟨e₀, -, rfl⟩ := Filter.exists_of_mem_prune he
    have hkey := (Filter.pruned e₀.2).ofEntry hv w hw e' he'
    rw [isComparisonKey_iff.2 ⟨c, hc.symm⟩] at hkey
    cases hkey
  · exact (interpret_error_iff d).2 ⟨_, hmem, .bareComparison c v⟩

/-- A filter whose only condition is a comparison without a field, as the one element of an `$or`. -/
def bareElement : Document := [("$or", .list .any [.doc [("$lt", .int .int 3)]])]

/-- The element is refused on its own, and in the group it is a conjunction of nothing. -/
theorem bareElement_holds_always :
    interpret [("$lt", .int .int 3)] = .error (.rootComparison "$lt") ∧
      interpret bareElement = .ok [.logical .and [.logical .or [.logical .and []]]] ∧
      interpret bareElement = interpret [("$or", .list .any [.doc []])] ∧
      ∀ ρ, Filter.holds ρ bareElement = true :=
  ⟨rfl, rfl, (interpret_pruned bareElement).1.symm, fun _ => rfl⟩

end DocFilter
