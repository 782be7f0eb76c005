import DocFilter.Proofs.ParallelWalks

/-!
Tables in filters. A table is a finite map, so the order in which its entries are held means nothing.
Two things follow for a filter with tables in it, at any depth. Holding the entries of its tables in
another order does not change what it is compiled to (`Document.Reordered`); and each table that is
walked stands for the document of its entries by increasing keys (`Document.Listed`).

In both cases the walk goes the same way through the two filters. Up to a listing the values that it
keeps are equal; up to a reordering they are reordered in their turn.
-/

set_option autoImplicit false

namespace DocFilter

/-! ## Sorting -/

/-- With distinct keys, sorted means strictly increasing. -/
theorem sortByKey_pairwise_lt {α : Type} {key : α → Text} {xs : List α} (hnodup : (xs.map key).Nodup) :
    (sortByKey key xs).Pairwise fun a b => key a < key b := by
  have hne : (sortByKey key xs).Pairwise fun a b => key a ≠ key b :=
    List.pairwise_map.1 (((sortByKey_perm key xs).map key).nodup_iff.2 hnodup)
  refine ((sortByKey_pairwise key xs).and hne).imp fun h => ?_
  by_contra hge
  exact h.2 (List.le_antisymm h.1 hge)

/-- Inserting related elements with equal keys into lists that are related element by element gives related
lists: the places are the same, as they depend on keys. -/
theorem insertByKey_forall₂ {α : Type} {key : α → Text} {r : α → α → Prop}
    (hkey : ∀ a b, r a b → key a = key b) {x y : α} (hxy : r x y) {xs ys : List α}
    (h : List.Forall₂ r xs ys) : List.Forall₂ r (insertByKey key x xs) (insertByKey key y ys) := by
  induction h with
  | nil => exact .cons hxy .nil
  | @cons a b as bs hab habs ih =>
    rw [insertByKey, insertByKey, hkey a b hab, hkey x y hxy]
    split
    · exact .cons hab ih
    · exact .cons hxy (.cons hab habs)

/-- Lists that are related entry by entry stay so when they are sorted. -/
theorem sortByKey_forall₂ {α : Type} {key : α → Text} {r : α → α → Prop}
    (hkey : ∀ a b, r a b → key a = key b) {xs ys : List α} (h : List.Forall₂ r xs ys) :
    List.Forall₂ r (sortByKey key xs) (sortByKey key ys) := by
  induction h with
  | nil => exact .nil
  | cons hab _ ih => exact insertByKey_forall₂ hkey hab ih

/-- Entries related one by one, under the same keys. -/
theorem names_eq_of_forall₂ {r : Text × Value → Text × Value → Prop} (hkey : ∀ e e', r e e' → e.1 = e'.1)
    {entries entries' : List (Text × Value)} (h : List.Forall₂ r entries entries') :
    Row.names entries = Row.names entries' := by
  induction h with
  | nil => rfl
  | cons hab _ ih => exact congrArg₂ List.cons (hkey _ _ hab) ih

/-! ## Filters with other tables -/

namespace Value

mutual

/-- Each table in a value is a map: its keys are distinct. -/
def distinct : Value → Bool
  | .doc fields => distinctEntries fields
  | .list _ items => distinctItems items
  | .table _ entries => decide (Row.names entries).Nodup && distinctEntries entries
  | _ => true

/-- Each table in the values of entries is a map. -/
def distinctEntries : List (Text × Value) → Bool
  | [] => true
  | (_, v) :: rest => v.distinct && distinctEntries rest

/-- Each table in the elements of a list is a map. -/
def distinctItems : List Value → Bool
  | [] => true
  | v :: rest => v.distinct && distinctItems rest

end

/-- Distinctness of names at every depth, for the values of entries. -/
theorem distinctEntries_iff {entries : List (Text × Value)} :
    distinctEntries entries = true ↔ ∀ e ∈ entries, e.2.distinct = true := by
  induction entries with
  | nil => simp [distinctEntries]
  | cons e rest ih => rw [distinctEntries, Bool.and_eq_true, ih, List.forall_mem_cons]

/-- Distinctness of names at every depth, for the elements of a list. -/
theorem distinctItems_iff {items : List Value} :
    distinctItems items = true ↔ ∀ v ∈ items, v.distinct = true := by
  induction items with
  | nil => simp [distinctItems]
  | cons v rest ih => rw [distinctItems, Bool.and_eq_true, ih, List.forall_mem_cons]

/-- The names of a table that is distinct at every depth are distinct at its top. -/
theorem nodup_of_distinct {ty : TableType} {entries : List (Text × Value)}
    (h : (table ty entries).distinct = true) : (Row.names entries).Nodup := by
  rw [distinct, Bool.and_eq_true] at h
  exact of_decide_eq_true h.1

/-- Distinctness goes down to the fields of an object, in whatever order they are walked. -/
theorem distinct_fields {v : Value} (h : v.distinct = true) : ∀ e ∈ v.fields, e.2.distinct = true := by
  cases v with
  | doc fields => exact distinctEntries_iff.1 h
  | table ty entries =>
    rw [distinct, Bool.and_eq_true] at h
    have hsorted : ∀ e ∈ sortedByKey entries, e.2.distinct = true :=
      fun e he => distinctEntries_iff.1 h.2 e ((sortByKey_perm _ entries).mem_iff.1 he)
    cases ty with
    | numbered => exact fun e he => absurd he List.not_mem_nil
    | any | texts | counts => exact hsorted
  | _ => exact fun e he => absurd he List.not_mem_nil

theorem distinct_elements {v : Value} (h : v.distinct = true) : ∀ w ∈ v.elements, w.distinct = true := by
  cases v with
  | list ty items => exact distinctItems_iff.1 h
  | _ => exact fun w hw => absurd hw List.not_mem_nil

mutual

/-- The same value, with the entries of its tables held in another order. -/
inductive Reordered : Value → Value → Prop
  | refl (v : Value) : Reordered v v
  | doc {fields fields' : List (Text × Value)} : List.Forall₂ EntryReordered fields fields' →
      Reordered (.doc fields) (.doc fields')
  | list {ty : ListType} {items items' : List Value} : List.Forall₂ Reordered items items' →
      Reordered (.list ty items) (.list ty items')
  | table {ty : TableType} {entries inside entries' : List (Text × Value)} :
      List.Forall₂ EntryReordered entries inside → inside.Perm entries' →
      Reordered (.table ty entries) (.table ty entries')

/-- The same entry, with the tables in its value held in another order. -/
inductive EntryReordered : Text × Value → Text × Value → Prop
  | intro (key : Text) {v v' : Value} : Reordered v v' → EntryReordered (key, v) (key, v')

end

/-- An object and the document that lists it: a table is listed by increasing keys, and a document as it
is. The entries are related in their turn. What is no object stays. -/
inductive Lists (entry : Text × Value → Text × Value → Prop) : Value → Value → Prop
  | doc {fields fields' : List (Text × Value)} : List.Forall₂ entry fields fields' →
      Lists entry (.doc fields) (.doc fields')
  | table {ty : TableType} {entries listed fields : List (Text × Value)} : ty ≠ .numbered →
      List.Forall₂ entry entries listed → listed.Perm fields →
      fields.Pairwise (fun e e' => e.1 < e'.1) → Lists entry (.table ty entries) (.doc fields)
  | noTable : Lists entry .noTable (.doc [])
  | other {v : Value} : v.kind ≠ .object → Lists entry v v

mutual

/-- An entry of an object that is walked: the value of an ordinary key and the elements of an `$or` are
walked, and any other value stays. -/
inductive EntryListed : Text × Value → Text × Value → Prop
  | field {key : Text} {v v' : Value} : directiveName? key = none → Lists EntryListed v v' →
      EntryListed (key, v) (key, v')
  | group {v v' : Value} : GroupListed v v' → EntryListed ("$or", v) ("$or", v')
  | other {key name : Text} {v : Value} : directiveName? key = some name → key ≠ "$or" →
      EntryListed (key, v) (key, v)

/-- The elements of an `$or`. -/
inductive GroupListed : Value → Value → Prop
  | list {ty ty' : ListType} {items items' : List Value} : List.Forall₂ (Lists EntryListed) items items' →
      GroupListed (.list ty items) (.list ty' items')
  | other {v : Value} : v.kind ≠ .array → GroupListed v v

end

end Value

/-- A field of a filter, with the tables that are walked in it listed; those of a `$sort` are walked by
their keys alone. -/
inductive FieldListed : Text × Value → Text × Value → Prop
  | entry {e e' : Text × Value} : e.1 ≠ "$sort" → Value.EntryListed e e' → FieldListed e e'
  | sort {v v' : Value} : Value.Lists (· = ·) v v' → FieldListed ("$sort", v) ("$sort", v')

namespace Document

/-- The filter with each table that is walked replaced by the document of its entries. -/
def Listed (d d' : Document) : Prop := List.Forall₂ FieldListed d d'

/-- The filter with the entries of its tables held in another order. -/
def Reordered (d d' : Document) : Prop := List.Forall₂ Value.EntryReordered d d'

end Document

/-! ## Reordered tables -/

namespace Value

theorem EntryReordered.key {e e' : Text × Value} (h : EntryReordered e e') : e.1 = e'.1 := by
  cases h
  rfl

/-- Reordering keeps kinds, and so the way that the interpreter takes. -/
theorem Reordered.kind {v v' : Value} (h : Reordered v v') : v.kind = v'.kind := by
  cases h with
  | refl | doc | list => rfl
  | @table ty => cases ty <;> rfl

/-- The texts of a list are not reordered. Lists keep their order, and a text has no table inside it. -/
theorem textsOf?_of_reordered {items items' : List Value} (h : List.Forall₂ Reordered items items') :
    textsOf? items = textsOf? items' := by
  induction h with
  | nil => rfl
  | @cons v v' vs vs' hv _ ih =>
    cases hv with
    | refl v => cases v with
      | text t => rw [textsOf?, textsOf?, ih]
      | _ => rfl
    | doc | list | table => rfl

/-- Reordering is unseen by the interpreter: it keeps kinds and what messages show. This makes it an
instance of the theory of parallel walks. -/
theorem unseen_reordered : Unseen Reordered where
  kind := Reordered.kind
  blanked h := by
    cases h with
    | refl | doc | list => rfl
    | @table ty => cases ty <;> rfl
  amount h := by
    cases h with
    | refl | doc | list => rfl
    | @table ty => cases ty <;> rfl
  selected h := by
    cases h with
    | refl | doc | table => rfl
    | list hitems => rw [selectedFields, selectedFields, textsOf?_of_reordered hitems]
  direction h := by
    cases h with
    | refl | doc | list | table => rfl

/-- In walking order the fields of reordered objects are the same ones, with reordered values. The walk
sorts tables by name, and distinct names can be sorted in one way only. -/
theorem Reordered.fields {v v' : Value} (hv : v.distinct = true) (h : Reordered v v') :
    List.Forall₂ EntryReordered v.fields v'.fields := by
  cases h with
  | refl v => exact List.forall₂_same.2 fun e _ => .intro e.1 (.refl e.2)
  | doc hfields => exact hfields
  | list _ => exact .nil
  | @table ty entries inside entries' hinside hperm =>
    have hkey : ∀ e e', EntryReordered e e' → e.1 = e'.1 := fun _ _ => EntryReordered.key
    have hnodup : (Row.names inside).Nodup := names_eq_of_forall₂ hkey hinside ▸ nodup_of_distinct hv
    have hsorted : List.Forall₂ EntryReordered (sortedByKey entries) (sortedByKey entries') := by
      -- first the values are reordered inside, and then the entries are permuted
      have hone : sortedByKey inside = sortedByKey entries' := sortByKey_eq_of_perm hnodup hperm
      rw [← hone]
      exact sortByKey_forall₂ hkey hinside
    cases ty with
    | numbered => exact .nil
    | any | texts | counts => exact hsorted

/-- The elements of reordered lists are reordered one by one. Lists keep their order; only tables have none.
-/
theorem Reordered.elements {v v' : Value} (h : Reordered v v') :
    List.Forall₂ Reordered v.elements v'.elements := by
  cases h with
  | refl v => exact List.forall₂_same.2 fun w _ => .refl w
  | list hitems => exact hitems
  | doc _ => exact .nil
  | table _ _ => exact .nil

/-- A value is walked like any reordering of it, provided that its tables have distinct names. The induction
is on the parts of the value. -/
theorem Reordered.matches {v : Value} (hv : v.distinct = true) :
    ∀ v', Reordered v v' → Matches Reordered v v' ∧ GroupMatches Reordered v v' := by
  induction v using Value.partsInduction with
  | parts v ihfields ihelements =>
    intro v' h
    have hfields : List.Forall₂ (EntryMatches Reordered) v.fields v'.fields := by
      have ih := fun e he => ihfields e he (distinct_fields hv e he)
      refine ((List.forall₂_and_left _ _).2 ⟨ih, h.fields hv⟩).imp ?_
      rintro _ _ ⟨ih, ⟨key, hw⟩⟩
      obtain ⟨hfield, hgroup⟩ := ih _ hw
      exact .of_value hfield hgroup hw key
    have helements : List.Forall₂ (Matches Reordered) v.elements v'.elements := by
      have ih := fun w hw => ihelements w hw (distinct_elements hv w hw)
      refine ((List.forall₂_and_left _ _).2 ⟨ih, h.elements⟩).imp ?_
      rintro _ _ ⟨ih, hw⟩
      exact (ih _ hw).1
    -- the kind, which is the same on both sides, says which of the two is walked
    constructor
    · by_cases hkind : v.kind = .object
      · exact .object hkind (h.kind ▸ hkind) hfields
      · exact .kept hkind (h.kind ▸ hkind) h
    · by_cases hkind : v.kind = .array
      · exact .array hkind (h.kind ▸ hkind) helements
      · exact .other hkind (h.kind ▸ hkind)

/-! ## Listed tables -/

/-- Equality is unseen, of course. For listings the values that are kept are equal, and this instance covers
them. -/
theorem unseen_eq : Unseen (· = ·) where
  kind h := congrArg _ h
  blanked h := congrArg _ h
  amount h := congrArg _ h
  selected h := congrArg _ h
  direction h := congrArg _ h

/-- The document that lists an object has its fields in walking order. -/
theorem Lists.fields {entry : Text × Value → Text × Value → Prop} (hkey : ∀ e e', entry e e' → e.1 = e'.1)
    {v v' : Value} (h : Lists entry v v') (hv : v.kind = .object) :
    v'.kind = .object ∧ List.Forall₂ entry v.fields v'.fields := by
  cases h with
  | doc hfields => exact ⟨rfl, hfields⟩
  | @table ty entries listed fields hty hentries hperm hpairwise =>
    -- increasing keys are distinct, so the document is the one sorted order of the entries
    have hsorted : sortedByKey listed = fields := by
      have hdistinct : (fields.map (·.1)).Nodup := by
        refine List.pairwise_map.2 (hpairwise.imp fun hlt heq => ?_)
        rw [heq] at hlt
        exact List.lt_irrefl _ hlt
      have hone : sortByKey (·.1) fields = sortByKey (·.1) listed := sortByKey_eq_of_perm hdistinct hperm.symm
      exact hone.symm.trans (sortByKey_of_pairwise (hpairwise.imp List.le_of_lt))
    have hfields : List.Forall₂ entry (sortedByKey entries) fields := by
      rw [← hsorted]
      exact sortByKey_forall₂ hkey hentries
    refine ⟨rfl, ?_⟩
    cases ty with
    | numbered => exact absurd rfl hty
    | any | texts | counts => exact hfields
  | noTable => exact ⟨rfl, .nil⟩
  | other hother => exact absurd hv hother

theorem EntryListed.key {e e' : Text × Value} (h : EntryListed e e') : e.1 = e'.1 := by
  cases h <;> rfl

/-- An entry can be listed if its value can, both as the value of a field and as a group; the key decides
which of the two is needed. -/
theorem EntryListed.exists_of_value {v w g : Value} (hfield : Lists EntryListed v w)
    (hgroup : GroupListed v g) (key : Text) : ∃ e', EntryListed (key, v) e' := by
  cases hname : directiveName? key with
  | none => exact ⟨_, .field hname hfield⟩
  | some name =>
    by_cases hor : key = "$or"
    · rw [hor]
      exact ⟨_, .group hgroup⟩
    · exact ⟨_, .other hname hor⟩

/-- A listed entry is walked in parallel with the entry, if the same holds of its value. -/
theorem EntryListed.matches_of_value {e e' : Text × Value} (h : EntryListed e e')
    (hfield : ∀ v', Lists EntryListed e.2 v' → Matches (· = ·) e.2 v')
    (hgroup : ∀ v', GroupListed e.2 v' → GroupMatches (· = ·) e.2 v') : EntryMatches (· = ·) e e' := by
  cases h with
  | field hname hv => exact .field hname (hfield _ hv)
  | group hv => exact .group (hgroup _ hv)
  | other hname hne => exact .kept hname hne rfl

/-- What is no object is not listed, but kept as it is. -/
theorem Lists.eq_of_not_object {entry : Text × Value → Text × Value → Prop} {v v' : Value}
    (h : Lists entry v v') (hv : v.kind ≠ .object) : v' = v := by
  cases h with
  | doc _ => exact absurd rfl hv
  | noTable => exact absurd rfl hv
  | @table ty _ _ _ hty _ _ _ =>
    cases ty with
    | numbered => exact absurd rfl hty
    | any | texts | counts => exact absurd rfl hv
  | other _ => rfl

/-- A value is walked like its listing, as the value of a field and as a group. The induction is on the
parts of the value, and both statements are needed below each other. -/
theorem Lists.matches (v : Value) : (∀ v', Lists EntryListed v v' → Matches (· = ·) v v') ∧
    ∀ v', GroupListed v v' → GroupMatches (· = ·) v v' := by
  induction v using Value.partsInduction with
  | parts v ihfields ihelements =>
    constructor
    · intro v' h
      by_cases hkind : v.kind = .object
      · obtain ⟨hkind', hfields⟩ := h.fields (fun _ _ => EntryListed.key) hkind
        refine .object hkind hkind' (((List.forall₂_and_left _ _).2 ⟨ihfields, hfields⟩).imp ?_)
        rintro _ _ ⟨ih, he⟩
        exact he.matches_of_value ih.1 ih.2
      · obtain rfl := h.eq_of_not_object hkind
        exact .kept hkind hkind rfl
    · intro v' h
      cases h with
      | list hitems =>
        refine .array rfl rfl (((List.forall₂_and_left _ _).2 ⟨ihelements, hitems⟩).imp ?_)
        rintro w w' ⟨ih, hw⟩
        exact ih.1 _ hw
      -- what is no list is an error as a group, on both sides
      | other hkind => exact .other hkind hkind

theorem EntryListed.matches {e e' : Text × Value} (h : EntryListed e e') : EntryMatches (· = ·) e e' :=
  h.matches_of_value (Lists.matches e.2).1 (Lists.matches e.2).2

/-- If every element has a counterpart, the list has a list of counterparts. -/
theorem exists_forall₂ {α β : Type} {r : α → β → Prop} {l : List α} (h : ∀ a ∈ l, ∃ b, r a b) :
    ∃ l', List.Forall₂ r l l' := by
  induction l with
  | nil => exact ⟨[], .nil⟩
  | cons a l ih =>
    obtain ⟨⟨b, hb⟩, hl⟩ := List.forall_mem_cons.1 h
    obtain ⟨l', hl'⟩ := ih hl
    exact ⟨b :: l', .cons hb hl'⟩

/-- An object can be listed if its entries can: a document entry by entry, and a table in the order of its
names. Names have to be distinct, so that there is one such order. -/
theorem Lists.exists {entry : Text × Value → Text × Value → Prop}
    (hkey : ∀ e e', entry e e' → e.1 = e'.1) {v : Value} (hv : v.distinct = true)
    (h : ∀ e ∈ v.fields, ∃ e', entry e e') : ∃ v', Lists entry v v' := by
  by_cases hkind : v.kind = .object
  · cases v with
    | doc fields =>
      obtain ⟨fields', hfields⟩ := exists_forall₂ h
      exact ⟨_, .doc hfields⟩
    | table ty entries =>
      have hty : ty ≠ .numbered := by
        rintro rfl
        cases hkind
      have hmem : ∀ e ∈ entries, e ∈ (Value.table ty entries).fields := by
        intro e he
        have hsorted : e ∈ sortedByKey entries := (sortByKey_perm _ entries).mem_iff.2 he
        cases ty with
        | numbered => exact absurd rfl hty
        | any | texts | counts => exact hsorted
      -- the entries are listed where they stand, and sorted afterwards: their keys are still distinct
      obtain ⟨listed, hlisted⟩ := exists_forall₂ fun e he => h e (hmem e he)
      have hnodup : (Row.names listed).Nodup := names_eq_of_forall₂ hkey hlisted ▸ nodup_of_distinct hv
      exact ⟨_, .table hty hlisted (sortByKey_perm (·.1) listed).symm (sortByKey_pairwise_lt hnodup)⟩
    | noTable => exact ⟨_, .noTable⟩
    | ref target => cases target <;> cases hkind
    | _ => cases hkind
  · exact ⟨v, .other hkind⟩

/-- Every value with proper tables has a listing, as a field and as a group. In a listing all tables are
documents, in the order of their names. -/
theorem exists_listed {v : Value} (hv : v.distinct = true) :
    (∃ v', Lists EntryListed v v') ∧ ∃ v', GroupListed v v' := by
  induction v using Value.partsInduction with
  | parts v ihfields ihelements =>
    constructor
    · refine Lists.exists (fun _ _ => EntryListed.key) hv fun e he => ?_
      obtain ⟨⟨w, hw⟩, ⟨g, hg⟩⟩ := ihfields e he (distinct_fields hv e he)
      exact EntryListed.exists_of_value hw hg e.1
    · by_cases hkind : v.kind = .array
      · obtain ⟨items', hitems⟩ := exists_forall₂ fun w hw => (ihelements w hw (distinct_elements hv w hw)).1
        cases v with
        | list ty items => exact ⟨.list .any items', .list hitems⟩
        | table ty entries => cases ty <;> cases hkind
        | ref target => cases target <;> cases hkind
        | _ => cases hkind
      · exact ⟨v, .other hkind⟩

end Value

/-! ## Filters with tables -/

/-- A field at the top of a filter is walked in parallel with its reordering, provided that names are
distinct at every depth. Otherwise the order would show among equal names. -/
theorem fieldMatches_of_reordered {e e' : Text × Value} (hdistinct : e.2.distinct = true)
    (h : Value.EntryReordered e e') : FieldMatches Value.Reordered e e' := by
  cases h with
  | intro key hv =>
    by_cases hsort : key = "$sort"
    · rw [hsort]
      refine .sort hv.kind ((hv.fields hdistinct).imp ?_)
      rintro _ _ ⟨key, hw⟩
      exact ⟨rfl, hw⟩
    · obtain ⟨hfield, hgroup⟩ := Value.Reordered.matches hdistinct _ hv
      exact .entry hsort (.of_value hfield hgroup hv key)

/-- A field at the top of a filter is walked in parallel with its listing. -/
theorem FieldListed.matches {e e' : Text × Value} (h : FieldListed e e') :
    FieldMatches (· = ·) e e' := by
  cases h with
  | entry hsort he => exact .entry hsort he.matches
  | @sort v v' hv =>
    by_cases hkind : v.kind = .object
    · obtain ⟨hkind', hfields⟩ := hv.fields (fun _ _ => congrArg Prod.fst) hkind
      refine .sort (hkind.trans hkind'.symm) (hfields.imp ?_)
      rintro e _ rfl
      exact ⟨rfl, rfl⟩
    · obtain rfl := hv.eq_of_not_object hkind
      exact .sort rfl (List.forall₂_same.2 fun _ _ => ⟨rfl, rfl⟩)

/-- Every field with distinct names at every depth has a listing. Orderings are listed at their top, and
everything else as an entry. -/
theorem FieldListed.exists {e : Text × Value} (hdistinct : e.2.distinct = true) : ∃ e', FieldListed e e' := by
  obtain ⟨key, v⟩ := e
  by_cases hsort : key = "$sort"
  · obtain ⟨v', hv⟩ := Value.Lists.exists (fun _ _ => congrArg Prod.fst) hdistinct fun e _ => ⟨e, rfl⟩
    rw [hsort]
    exact ⟨_, .sort hv⟩
  · obtain ⟨⟨w, hw⟩, ⟨g, hg⟩⟩ := Value.exists_listed hdistinct
    obtain ⟨e', he⟩ := Value.EntryListed.exists_of_value hw hg key
    exact ⟨e', .entry hsort he⟩

/-- Alike by equality is the same: one text, and parameters that are equal one by one. -/
theorem Parallel.eq_of_alike {x x' : Except QueryError Statement}
    (h : Parallel (Statement.Alike (· = ·)) x x') : x = x' := by
  cases h with
  | error e => rfl
  | @ok st st' hst =>
    obtain ⟨text, params⟩ := st
    obtain ⟨text', params'⟩ := st'
    obtain ⟨rfl, hparams⟩ := hst
    rw [List.forall₂_eq_eq_eq] at hparams
    rw [show params = params' from hparams]

/-- **A table in a filter stands for the document of its entries by increasing keys.** In a filter whose
tables have distinct keys, the order in which the entries of the tables are held does not matter, however
deep a table lies: the filter fails with the same error, or has the same text and the same parameters,
where a table among the parameters may itself be held in another order. The filter can be listed: each
table that is walked can be replaced by the document of its entries in increasing order of their keys. It
is compiled to just what its listing is compiled to. -/
theorem compile_tables (options : CompileOptions) (d : Document) (hd : ∀ e ∈ d, e.2.distinct = true) :
    (∀ d', d.Reordered d' → Parallel (Statement.Alike Value.Reordered)
      (interpret d >>= compile options) (interpret d' >>= compile options)) ∧
    (∃ d', d.Listed d') ∧
    (∀ d', d.Listed d' → (interpret d >>= compile options) = (interpret d' >>= compile options)) := by
  refine ⟨fun d' h => ?_, Value.exists_forall₂ fun e he => FieldListed.exists (hd e he), fun d' h => ?_⟩
  · refine compile_matches Value.unseen_reordered options ?_
    exact ((List.forall₂_and_left _ _).2 ⟨hd, h⟩).imp fun e e' he => fieldMatches_of_reordered he.1 he.2
  · exact (compile_matches Value.unseen_eq options (h.imp fun _ _ => FieldListed.matches)).eq_of_alike

/-- Tables below a field, in an `$or` and under an operator, where they are compared and not walked. -/
def looseTables : Document :=
  [("a", .table .any [("$lt", .int .int 5), ("$gt", .int .int 1)]),
    ("$or", .list .tables [.table .texts [("y", .text "v"), ("x", .text "u")]]),
    ("b", .doc [("$ne", .table .counts [("q", .int .int 2), ("p", .int .int 1)])])]

/-- The same filter with its tables held in another order. -/
def turnedTables : Document :=
  [("a", .table .any [("$gt", .int .int 1), ("$lt", .int .int 5)]),
    ("$or", .list .tables [.table .texts [("x", .text "u"), ("y", .text "v")]]),
    ("b", .doc [("$ne", .table .counts [("p", .int .int 1), ("q", .int .int 2)])])]

/-- The same filter with the tables listed that are walked. -/
def listedTables : Document :=
  [("a", .doc [("$gt", .int .int 1), ("$lt", .int .int 5)]),
    ("$or", .list .documents [.doc [("x", .text "u"), ("y", .text "v")]]),
    ("b", .doc [("$ne", .table .counts [("q", .int .int 2), ("p", .int .int 1)])])]

/-- The three filters have one text, and the table among the parameters is turned with the filter. -/
theorem looseTables_listed :
    (∀ e ∈ looseTables, e.2.distinct = true) ∧ looseTables.Reordered turnedTables ∧
      looseTables.Listed listedTables ∧
      ∃ st st', (interpret looseTables >>= compile {}) = .ok st ∧
        (interpret listedTables >>= compile {}) = .ok st ∧
        (interpret turnedTables >>= compile {}) = .ok st' ∧ st.text = st'.text ∧
        List.Forall₂ Value.Reordered st.params st'.params ∧
        st.text = Text.ofString
          "SELECT * WHERE `a` > $1 AND `a` < $2 AND ((`x` = $3 AND `y` = $4)) AND `b` != $5" := by
  have hdistinct : ∀ e ∈ looseTables, e.2.distinct = true := by decide +kernel
  have hreordered : looseTables.Reordered turnedTables := by
    have hsame : ∀ es : List (Text × Value), List.Forall₂ Value.EntryReordered es es :=
      fun es => List.forall₂_same.2 fun e _ => .intro e.1 (.refl e.2)
    exact .cons (.intro _ (.table (hsame _) (.swap _ _ _)))
      (.cons (.intro _ (.list (.cons (.table (hsame _) (.swap _ _ _)) .nil)))
        (.cons (.intro _ (.doc (.cons (.intro _ (.table (hsame _) (.swap _ _ _))) .nil))) .nil))
  have hlisted : looseTables.Listed listedTables := by
    have hoperator : ∀ c v, Value.EntryListed (Comparator.key c, v) (Comparator.key c, v) :=
      fun c v => .other (directiveName?_key c) (by cases c <;> decide)
    have htext : ∀ key t, directiveName? key = none → Value.EntryListed (key, .text t) (key, .text t) :=
      fun key t hkey => .field hkey (.other (by rintro ⟨⟩))
    refine .cons (.entry (by decide) (.field (by decide) ?_))
      (.cons (.entry (by decide) (.group (.list (.cons ?_ .nil))))
        (.cons (.entry (by decide) (.field (by decide) (.doc (.cons (hoperator .ne _) .nil)))) .nil))
    · exact .table (by decide) (.cons (hoperator .lt _) (.cons (hoperator .gt _) .nil)) (.swap _ _ _)
        (by decide +kernel)
    · exact .table (by decide) (.cons (htext _ _ (by decide)) (.cons (htext _ _ (by decide)) .nil))
        (.swap _ _ _) (by decide +kernel)
  obtain ⟨hturned, -, hlist⟩ := compile_tables {} looseTables hdistinct
  have hst : ∃ st, (interpret looseTables >>= compile {}) = .ok st ∧ st.text = Text.ofString
      "SELECT * WHERE `a` > $1 AND `a` < $2 AND ((`x` = $3 AND `y` = $4)) AND `b` != $5" := by
    have hselect : (interpret looseTables >>= select {}) = .ok (⟨["*"], [], some (.all [.all
        [.compare "a" .gt (.placeholder 1), .compare "a" .lt (.placeholder 2),
          .any [.all [.compare "x" .eq (.placeholder 3), .compare "y" .eq (.placeholder 4)]],
          .compare "b" .ne (.placeholder 5)]]), [], none, none⟩,
        [.int .int 1, .int .int 5, .text "u", .text "v",
          .table .counts [("q", .int .int 2), ("p", .int .int 1)]]) := by rfl
    have hcompile : (interpret looseTables >>= compile {})
        = (interpret looseTables >>= select {}) >>= fun p => .ok ⟨p.1.text, p.2⟩ := by
      rw [bind_assoc]
      rfl
    -- the selection is small enough to be computed, and the text is computed from it
    rw [hcompile, hselect]
    exact ⟨_, rfl, by decide +kernel⟩
  obtain ⟨st, hst, htext⟩ := hst
  have hparallel := hturned _ hreordered
  rw [hst] at hparallel
  generalize hout : (interpret turnedTables >>= compile {}) = out at hparallel
  cases hparallel with
  | @ok _ st' h =>
    refine ⟨hdistinct, hreordered, hlisted, st, st', hst, ?_, rfl, h.text, h.params, htext⟩
    rw [← hlist _ hlisted, hst]

end DocFilter
