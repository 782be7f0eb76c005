import DocFilter.Proofs.FilterMeaning
import DocFilter.Proofs.Walk

/-!
What the walk over a filter comes to. Its *sites* are the payloads of `$or`, at any depth, and the
comparisons, each with the path of its field. Which sites there are can be read off the filter
(`Document.Visits`), without interpreting it.

Interpreting a part of a filter accounts for its sites (`Value.accounted`): if it succeeds, all groups
are lists of objects, the conditions are of the known kinds, and the fields that they compare are
exactly those that the walk comes to; and if it fails, one of the groups is no list of objects.
-/

set_option autoImplicit false

namespace DocFilter

open Text (byte)

/-! ## Sites -/

/-- What the walk over a filter comes to: the payload of an `$or`, or a comparison of a field. -/
inductive Site where
  | group (payload : Value)
  | comparison (field : Text)

namespace Site

mutual

/-- The sites of a value under a path. What is no object is compared with the field. -/
inductive OfField : Text → Value → Site → Prop
  | compared {path : Text} {v : Value} : v.kind ≠ .object → OfField path v (.comparison path)
  | entry {path : Text} {v : Value} {x : Site} (e : Text × Value) :
      e ∈ v.fields → OfNested path e.1 e.2 x → OfField path v x

/-- The sites of an entry of an object below a field: an operator compares the field, `$or` is a group
of its own, and an ordinary key makes the path longer. -/
inductive OfNested : Text → Text → Value → Site → Prop
  | operator {path : Text} {v : Value} (c : Comparator) :
      c ≠ .eq → OfNested path c.key v (.comparison path)
  | group {path : Text} {v : Value} {x : Site} : OfGroup v x → OfNested path "$or" v x
  | field {path key : Text} {v : Value} {x : Site} :
      directiveName? key = none → OfField (path ++ byte '.' :: key) v x → OfNested path key v x

/-- The sites of the payload of an `$or`: the payload itself, and those of its elements. -/
inductive OfGroup : Value → Site → Prop
  | payload {v : Value} : OfGroup v (.group v)
  | element {v : Value} {x : Site} (w : Value) (e : Text × Value) :
      w ∈ v.elements → e ∈ w.fields → OfEntry e.1 e.2 x → OfGroup v x

/-- The sites of an entry of a filter, or of an element of an `$or`. -/
inductive OfEntry : Text → Value → Site → Prop
  | group {v : Value} {x : Site} : OfGroup v x → OfEntry "$or" v x
  | field {key : Text} {v : Value} {x : Site} :
      directiveName? key = none → OfField key v x → OfEntry key v x

end

end Site

/-- The walk over a filter comes to a site. -/
def Document.Visits (d : Document) (x : Site) : Prop := ∃ e ∈ d, Site.OfEntry e.1 e.2 x

/-- A list of objects. -/
def Value.IsGroup (v : Value) : Prop := v.kind = .array ∧ ∀ w ∈ v.elements, w.kind = .object

/-- All groups among the sites are lists of objects. -/
def WellShaped (sites : Site → Prop) : Prop := ∀ v, sites (.group v) → v.IsGroup

namespace Site

variable {path key : Text} {v : Value} {x : Site}

/-- A field whose value is no object is compared with this value, and nothing else is below it. -/
theorem ofField_of_not_object (h : v.kind ≠ .object) : OfField path v x ↔ x = .comparison path := by
  constructor
  · rintro (_ | ⟨e, he, -⟩)
    · rfl
    · rw [Value.fields_of_not_object h] at he
      cases he
  · rintro rfl
    exact .compared h

/-- The sites below a field with an object are those below its entries. -/
theorem ofField_of_object (h : v.kind = .object) :
    OfField path v x ↔ ∃ e ∈ v.fields, OfNested path e.1 e.2 x := by
  constructor
  · rintro (hne | ⟨e, he, hx⟩)
    · exact absurd h hne
    · exact ⟨e, he, hx⟩
  · rintro ⟨e, he, hx⟩
    exact .entry e he hx

/-- An entry below a field whose key is no directive is a field with a longer path. -/
theorem ofNested_field (h : directiveName? key = none) :
    OfNested path key v x ↔ OfField (path ++ byte '.' :: key) v x := by
  constructor
  · rintro (⟨c, -⟩ | - | ⟨-, hx⟩)
    · rw [directiveName?_key] at h
      cases h
    · cases h
    · exact hx
  · exact .field h

/-- An entry below a field whose key is an operator is a comparison of that field. Equality is left out,
since its key is no operator below a field. -/
theorem ofNested_operator {c : Comparator} (hc : c ≠ .eq) :
    OfNested path c.key v x ↔ x = .comparison path := by
  constructor
  · generalize hkey : c.key = key
    rintro (- | - | ⟨hnone, -⟩)
    · rfl
    · cases c <;> cases hkey
    · rw [← hkey, directiveName?_key] at hnone
      cases hnone
  · rintro rfl
    exact .operator c hc

/-- An `$or` below a field is a group like any other: its elements start again from the top, and forget the
path. -/
theorem ofNested_group : OfNested path "$or" v x ↔ OfGroup v x := by
  constructor
  · generalize hkey : Text.ofString "$or" = key
    rintro (⟨c, -⟩ | hx | ⟨hnone, -⟩)
    · cases c <;> cases hkey
    · exact hx
    · rw [← hkey] at hnone
      cases hnone
  · exact .group

/-- A directive key that is neither an operator nor `$or` is passed over below a field. -/
theorem not_ofNested {name : Text} (hname : directiveName? key = some name)
    (hop : nestedOp? name = none) (hor : name ≠ orName) : ¬ OfNested path key v x := by
  rintro (⟨c, hc⟩ | - | ⟨hnone, -⟩)
  · rw [directiveName?_key] at hname
    rw [← Option.some.inj hname, nestedOp?_eq_some.2 ⟨rfl, hc⟩] at hop
    cases hop
  · exact hor (Option.some.inj hname).symm
  · rw [hnone] at hname
    cases hname

/-- A field of a filter or of an element of a group is compared under its own name. -/
theorem ofEntry_field (h : directiveName? key = none) : OfEntry key v x ↔ OfField key v x := by
  constructor
  · rintro (- | ⟨-, hx⟩)
    · cases h
    · exact hx
  · exact .field h

theorem ofEntry_group : OfEntry "$or" v x ↔ OfGroup v x := by
  constructor
  · generalize hkey : Text.ofString "$or" = key
    rintro (hx | ⟨hnone, -⟩)
    · exact hx
    · rw [← hkey] at hnone
      cases hnone
  · exact .group

/-- A directive key other than `$or` is passed over in a filter and in an element. -/
theorem not_ofEntry {name : Text} (hname : directiveName? key = some name) (hor : name ≠ orName) :
    ¬ OfEntry key v x := by
  rintro (- | ⟨hnone, -⟩)
  · exact hor (Option.some.inj hname).symm
  · rw [hnone] at hname
    cases hname

/-- The sites of a group are the group itself and those of its elements, each of which is walked like a
filter. -/
theorem ofGroup_iff :
    OfGroup v x ↔ x = .group v ∨ ∃ w ∈ v.elements, Document.Visits w.fields x := by
  constructor
  · rintro (- | ⟨w, e, hw, he, hx⟩)
    · exact .inl rfl
    · exact .inr ⟨w, hw, e, he, hx⟩
  · rintro (rfl | ⟨w, hw, e, he, hx⟩)
    · exact .payload
    · exact .element w e hw he hx

end Site

/-! ## Conditions of known kinds -/

/-- A condition of the kinds that interpreting makes: comparisons with known operators, and groups
that are joined by AND or OR. -/
inductive Directive.Regular : Directive → Prop
  | comparison (c : Comparator) (field : Text) (v : Value) : Regular (.comparison (.known c) field v)
  | all {ds : List Directive} : (∀ d ∈ ds, Regular d) → Regular (.logical .and ds)
  | any {ds : List Directive} : (∀ d ∈ ds, Regular d) → Regular (.logical .or ds)

/-- One of the conditions compares a field, at any depth. -/
def Compares (ds : List Directive) (field : Text) : Prop :=
  ∃ c ∈ Directive.comparisonsAll ds, c.field = field

namespace Compares

variable {ds ds' : List Directive} {field : Text}

theorem append : Compares (ds ++ ds') field ↔ Compares ds field ∨ Compares ds' field := by
  unfold Compares
  rw [Directive.comparisonsAll_eq, Directive.comparisonsAll_eq, Directive.comparisonsAll_eq,
    List.flatMap_append]
  simp only [List.mem_append, or_and_right, exists_or]

theorem cons {d : Directive} : Compares (d :: ds) field ↔ Compares [d] field ∨ Compares ds field := by
  rw [← append, List.singleton_append]

theorem comparison {c : Comparator} {path : Text} {v : Value} :
    Compares [.comparison (.known c) path v] field ↔ field = path := by
  simp [Compares, Directive.comparisonsAll, Directive.comparisons, eq_comm]

theorem group {op : LogicalOp} : Compares [.logical op ds] field ↔ Compares ds field := by
  simp [Compares, Directive.comparisonsAll, Directive.comparisons]

end Compares

namespace Formula

/-- Conditions become formulas, or one of them compares the empty field and that is the error. -/
def Settled (ds : List Directive) : Prop :=
  (∃ fs, ofDirectives ds = .ok fs ∧ ¬ Compares ds []) ∨
    (ofDirectives ds = .error .emptyField ∧ Compares ds [])

theorem Settled.nil : Settled [] := by
  refine .inl ⟨[], rfl, ?_⟩
  rintro ⟨c, hc, -⟩
  cases hc

/-- Settled conditions in front of settled conditions. Formulas are made of all of them or of none, and this
is the case where the first or the rest fails. -/
theorem Settled.cons {d : Directive} {ds : List Directive} (hd : Settled [d]) (hds : Settled ds) :
    Settled (d :: ds) := by
  -- a list of one is a formula exactly as its only part is
  have hone : ∀ r, ofDirectives [d] = r → ofDirectives (d :: ds)
      = r >>= fun fs => ofDirectives ds >>= fun gs => .ok (fs ++ gs) := by
    rintro r rfl
    rw [ofDirectives, ofDirectives, ofDirectives]
    cases ofDirective d <;> rfl
  rcases hd with ⟨fs, hfs, hno⟩ | ⟨herror, hyes⟩
  · rcases hds with ⟨gs, hgs, hno'⟩ | ⟨herror, hyes⟩
    · refine .inl ⟨fs ++ gs, ?_, fun h => (Compares.cons.1 h).elim hno hno'⟩
      rw [hone _ hfs, hgs]
      rfl
    · refine .inr ⟨?_, Compares.cons.2 (.inr hyes)⟩
      rw [hone _ hfs, herror]
      rfl
  · refine .inr ⟨?_, Compares.cons.2 (.inl hyes)⟩
    rw [hone _ herror]
    rfl

theorem Settled.of_parts {ds : List Directive} (h : ∀ d ∈ ds, Settled [d]) : Settled ds := by
  induction ds with
  | nil => exact .nil
  | cons d rest ih =>
    obtain ⟨hd, hrest⟩ := List.forall_mem_cons.1 h
    exact hd.cons (ih hrest)

/-- A group is settled if its members are. The way in which the formulas of the members are joined does not
matter, so both operators are covered. -/
theorem Settled.group {op : LogicalOp} {ds : List Directive} (h : Settled ds)
    (join : List (Formula Value) → Formula Value)
    (hop : ofDirective (.logical op ds) = (ofDirectives ds).map join) :
    Settled [.logical op ds] := by
  unfold Settled
  rw [Compares.group, ofDirectives, hop]
  rcases h with ⟨fs, hfs, hno⟩ | ⟨herror, hyes⟩
  · rw [hfs]
    exact .inl ⟨_, rfl, hno⟩
  · rw [herror]
    exact .inr ⟨rfl, hyes⟩

/-- Conditions of the known kinds are settled. The induction is on their structure: only a comparison
without a field has no formula. -/
theorem settled_of_regular {d : Directive} (h : d.Regular) : Settled [d] := by
  induction h with
  | comparison c field v =>
    unfold Settled
    rw [Compares.comparison, ofDirectives, ofDirective]
    by_cases hempty : field = []
    -- the empty field has no formula, and it is the field that is compared
    · subst hempty
      exact .inr ⟨rfl, rfl⟩
    · rw [if_neg (by simpa using hempty)]
      exact .inl ⟨_, rfl, Ne.symm hempty⟩
  | @all ds _ ih =>
    refine (Settled.of_parts ih).group .all ?_
    rw [ofDirective]
    cases ofDirectives ds <;> rfl
  | @any ds _ ih =>
    refine (Settled.of_parts ih).group .any ?_
    rw [ofDirective]
    cases ofDirectives ds <;> rfl

end Formula

/-! ## Interpreting accounts for every site -/

/-- All groups among two kinds of sites are well shaped exactly if those of each kind are. -/
theorem wellShaped_or {sites sites' : Site → Prop} :
    WellShaped (fun x => sites x ∨ sites' x) ↔ WellShaped sites ∧ WellShaped sites' :=
  ⟨fun h => ⟨fun v hv => h v (.inl hv), fun v hv => h v (.inr hv)⟩,
    fun h v hv => hv.elim (h.1 v) (h.2 v)⟩

/-- A result that is there shows that the shape is right, consists of known conditions and compares
exactly the fields among the sites; one that is not there shows that the shape is wrong. -/
def Accounts (r : Except QueryError (List Directive)) (shape : Prop) (sites : Site → Prop) : Prop :=
  match r with
  | .ok ds => shape ∧ (∀ d ∈ ds, d.Regular) ∧ ∀ field, Compares ds field ↔ sites (.comparison field)
  | .error e => e = .orShape ∧ ¬ shape

namespace Accounts

variable {r r' : Except QueryError (List Directive)} {shape shape' : Prop} {sites sites' : Site → Prop}

theorem congr (h : Accounts r shape sites) (hshape : shape ↔ shape') (hsites : ∀ x, sites x ↔ sites' x) :
    Accounts r shape' sites' := by
  obtain rfl : sites = sites' := funext fun x => propext (hsites x)
  obtain rfl : shape = shape' := propext hshape
  exact h

/-- The same for sites that are described in another way. -/
theorem on (h : Accounts r (WellShaped sites) sites) (hsites : ∀ x, sites' x ↔ sites x) :
    Accounts r (WellShaped sites') sites' := by
  obtain rfl : sites = sites' := funext fun x => (propext (hsites x)).symm
  exact h

theorem nil : Accounts (.ok []) (WellShaped fun _ => False) fun _ => False := by
  refine ⟨fun v hv => hv.elim, by simp, fun field => ⟨?_, False.elim⟩⟩
  rintro ⟨c, hc, -⟩
  cases hc

/-- A comparison is accounted for by its directive. There is no group in it, so it is always well shaped. -/
theorem comparison (c : Comparator) (path : Text) (v : Value) :
    Accounts (.ok [.comparison (.known c) path v]) (WellShaped (· = .comparison path))
      (· = .comparison path) := by
  refine ⟨?_, ?_, fun field => ?_⟩
  · rintro w ⟨⟩
  · intro d hd
    rw [List.mem_singleton.1 hd]
    exact .comparison c path v
  · rw [Compares.comparison]
    exact (Site.comparison.injEq field path ▸ Iff.rfl)

/-- Two results one after the other, joined so that the conditions of both are there. -/
theorem seq (h : Accounts r shape sites) (h' : Accounts r' shape' sites')
    (join : List Directive → List Directive → List Directive)
    (hregular : ∀ a b, (∀ d ∈ a, d.Regular) → (∀ d ∈ b, d.Regular) → ∀ d ∈ join a b, d.Regular)
    (hcompares : ∀ a b field, Compares (join a b) field ↔ Compares a field ∨ Compares b field) :
    Accounts (r >>= fun a => r' >>= fun b => .ok (join a b)) (shape ∧ shape')
      fun x => sites x ∨ sites' x := by
  -- the second result is not asked for if the first is an error
  cases r with
  | error e => exact ⟨h.1, fun hboth => h.2 hboth.1⟩
  | ok a =>
    cases r' with
    | error e => exact ⟨h'.1, fun hboth => h'.2 hboth.2⟩
    | ok b =>
      obtain ⟨hshape, ha, hfields⟩ := h
      obtain ⟨hshape', hb, hfields'⟩ := h'
      refine ⟨⟨hshape, hshape'⟩, hregular a b ha hb, fun field => ?_⟩
      rw [hcompares, hfields, hfields']

/-- The entries of an object account together for the sites of all of them. The induction is on the entries:
the first that is wrong decides, and otherwise the sites add up. -/
theorem contributed {entry : Text → Value → Except QueryError (List Directive)}
    {sites : Text × Value → Site → Prop} {entries : List (Text × Value)}
    (h : ∀ e ∈ entries, Accounts (entry e.1 e.2) (WellShaped (sites e)) (sites e)) :
    Accounts (contributed entry entries) (WellShaped fun x => ∃ e ∈ entries, sites e x)
      fun x => ∃ e ∈ entries, sites e x := by
  induction entries with
  | nil => exact nil.congr (by simp) (by simp)
  | cons e rest ih =>
    obtain ⟨he, hrest⟩ := List.forall_mem_cons.1 h
    have hseq := he.seq (ih hrest) (· ++ ·)
      (fun a b ha hb d hd => (List.mem_append.1 hd).elim (ha d) (hb d)) fun _ _ _ => Compares.append
    refine hseq.congr ?_ fun x => by simp
    rw [← wellShaped_or]
    simp only [List.mem_cons, exists_eq_or_imp]

/-- The elements of an `$or` account together for the sites of all of them. -/
theorem orElements {items : List Value}
    (h : ∀ w ∈ items, Accounts (orElement w) (w.kind = .object ∧ WellShaped (Document.Visits w.fields))
      (Document.Visits w.fields)) :
    Accounts (orElements items)
      ((∀ w ∈ items, w.kind = .object) ∧ WellShaped fun x => ∃ w ∈ items, Document.Visits w.fields x)
      fun x => ∃ w ∈ items, Document.Visits w.fields x := by
  induction items with
  | nil => exact nil.congr (by simp) (by simp)
  | cons w rest ih =>
    obtain ⟨hw, hrest⟩ := List.forall_mem_cons.1 h
    -- the conditions of an element make a conjunction of their own
    have hseq := hw.seq (ih hrest) (fun group more => .logical .and group :: more)
      (fun a b ha hb => List.forall_mem_cons.2 ⟨.all ha, hb⟩)
      fun a b field => Compares.cons.trans (or_congr_left Compares.group)
    refine hseq.congr ?_ fun x => by simp
    simp only [List.mem_cons, exists_eq_or_imp, wellShaped_or, forall_eq_or_imp]
    tauto

end Accounts

/-- Interpreting a value accounts for its sites, whether it stands under a field, as an element of an
`$or` or as the payload of one. -/
structure Value.Accounted (v : Value) : Prop where
  field : ∀ path, Accounts (fieldDirectives path v) (WellShaped (Site.OfField path v)) (Site.OfField path v)
  element : Accounts (orElement v) (v.kind = .object ∧ WellShaped (Document.Visits v.fields))
    (Document.Visits v.fields)
  group : Accounts ((orGroup v).map ([·])) (WellShaped (Site.OfGroup v)) (Site.OfGroup v)

/-- An entry below a field accounts for its sites, if its value does. The key decides whether it is a
comparison, a group, a longer path or an error. -/
theorem nestedEntry_accounts {v : Value} (h : v.Accounted) (path key : Text) :
    Accounts (nestedEntry path key v) (WellShaped (Site.OfNested path key v)) (Site.OfNested path key v) := by
  unfold nestedEntry
  cases hname : directiveName? key with
  | none => exact (h.field _).on fun x => Site.ofNested_field hname
  | some name =>
    dsimp only
    cases hop : nestedOp? name with
    | some c =>
      obtain ⟨rfl, hc⟩ := nestedOp?_eq_some.1 hop
      obtain rfl := key_of_directiveName? hname
      exact (Accounts.comparison c path v).on fun x => Site.ofNested_operator hc
    | none =>
      by_cases hor : name = orName
      · subst hor
        obtain rfl := key_of_directiveName? hname
        exact h.group.on fun x => Site.ofNested_group
      · -- any other directive key is passed over, and there is no site at it
        rw [if_neg (by simpa using hor)]
        exact Accounts.nil.on fun x => iff_false_intro (Site.not_ofNested hname hop hor)

/-- A field in an element of a group accounts for its sites, if its value does. -/
theorem orEntry_accounts {v : Value} (h : v.Accounted) (key : Text) :
    Accounts (orEntry key v) (WellShaped (Site.OfEntry key v)) (Site.OfEntry key v) := by
  unfold orEntry
  cases hname : directiveName? key with
  | none => exact (h.field _).on fun x => Site.ofEntry_field hname
  | some name =>
    dsimp only
    by_cases hor : name = orName
    · subst hor
      obtain rfl := key_of_directiveName? hname
      exact h.group.on fun x => Site.ofEntry_group
    · rw [if_neg (by simpa using hor)]
      exact Accounts.nil.on fun x => iff_false_intro (Site.not_ofEntry hname hor)

/-- The payload of an `$or` accounts for its sites if its elements do. -/
theorem orGroup_accounts {v : Value} (h : ∀ w ∈ v.elements, w.Accounted) :
    Accounts ((orGroup v).map ([·])) (WellShaped (Site.OfGroup v)) (Site.OfGroup v) := by
  by_cases harray : v.kind = .array
  · rw [orGroup_of_array harray]
    have hitems := Accounts.orElements fun w hw => (h w hw).element
    -- the payload is one more group beside those of the elements
    have hshape : WellShaped (Site.OfGroup v) ↔ (∀ w ∈ v.elements, w.kind = .object) ∧
        WellShaped fun x => ∃ w ∈ v.elements, Document.Visits w.fields x := by
      constructor
      · intro hall
        exact ⟨(hall v .payload).2, fun u hu => hall u (Site.ofGroup_iff.2 (.inr hu))⟩
      · rintro ⟨hobjects, hbelow⟩ u hu
        rcases Site.ofGroup_iff.1 hu with hself | hu
        · cases hself
          exact ⟨harray, hobjects⟩
        · exact hbelow u hu
    cases hds : orElements v.elements with
    | error e =>
      rw [hds] at hitems
      exact ⟨hitems.1, fun hall => hitems.2 (hshape.1 hall)⟩
    | ok ds =>
      rw [hds] at hitems
      obtain ⟨hright, hregular, hfields⟩ := hitems
      refine ⟨hshape.2 hright, List.forall_mem_singleton.2 (.any hregular), fun field => ?_⟩
      rw [Compares.group, hfields, Site.ofGroup_iff]
      simp
  · rw [orGroup_of_not_array harray]
    exact ⟨rfl, fun hall => harray (hall v .payload).1⟩

/-- Every value accounts for its sites, as the value of a field and as the payload of an `$or`. One
induction over values proves both, since objects and groups may stand in each other. -/
theorem Value.accounted (v : Value) : v.Accounted := by
  induction v using Value.partsInduction with
  | parts v ihFields ihElements =>
  -- the induction is on all three places at once: entries hold groups, and elements hold entries
  refine ⟨fun path => ?_, ?_, orGroup_accounts ihElements⟩
  · by_cases hobject : v.kind = .object
    · rw [fieldDirectives_of_object hobject]
      exact (Accounts.contributed fun e he => nestedEntry_accounts (ihFields e he) path e.1).on
        fun x => Site.ofField_of_object hobject
    · rw [fieldDirectives_of_not_object hobject]
      exact (Accounts.comparison .eq path v).on fun x => Site.ofField_of_not_object hobject
  · by_cases hobject : v.kind = .object
    · rw [orElement_of_object hobject]
      exact (Accounts.contributed fun e he => orEntry_accounts (ihFields e he) e.1).congr
        (by simp only [hobject, true_and]; rfl) fun x => Iff.rfl
    · rw [orElement_of_not_object hobject]
      exact ⟨rfl, fun hboth => hobject hboth.1⟩

end DocFilter
