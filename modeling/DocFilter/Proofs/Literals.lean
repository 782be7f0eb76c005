import DocFilter.Proofs.Placeholders
import DocFilter.Proofs.Template

/-!
Literals and their places. The parameters of a statement are the literals of its filter, in the
order in which a walk over the filter meets them (`compile_literals`). The walk notes the place of
each literal in the document; the places belong to the template (`conditionsLiterals_template`), and
the template with the values at the places is the whole filter (`eq_of_conditionsTemplate`).
-/

set_option autoImplicit false

namespace DocFilter

/-! ## Places

A place says where a value stands in a document: which part to go to at each level. -/

/-- The index of a field, entry or element at each level, from the outside to the inside. -/
abbrev Place := List Nat

/-- The values that a value is made of. -/
def Value.parts : Value → List Value
  | .doc fields => fields.map (·.2)
  | .table _ entries => entries.map (·.2)
  | .list _ items => items
  | _ => []

/-- The value at a place. -/
def Value.at? : Place → Value → Option Value
  | [], v => some v
  | i :: place, v => v.parts[i]?.bind (at? place)

namespace Filter

/-- The value at a place below one of several parts. -/
def partAt? (parts : List Value) : Place → Option Value
  | [] => none
  | i :: place => parts[i]?.bind (Value.at? place)

/-- The place as it is counted when there is one part more in front. -/
def nextPlace : Place → Place
  | [] => []
  | i :: place => (i + 1) :: place

@[simp] theorem partAt?_zero (v : Value) (parts : List Value) (place : Place) :
    partAt? (v :: parts) (0 :: place) = v.at? place := rfl

@[simp] theorem partAt?_next (v : Value) (parts : List Value) (place : Place) :
    partAt? (v :: parts) (nextPlace place) = partAt? parts place := by
  cases place <;> rfl

/-- A value below one of the parts of another is a value inside the latter. With `partAt?_of_at?` this lets
proofs go between a value and its parts. -/
theorem at?_of_partAt? {v w : Value} {place : Place} (h : partAt? v.parts place = some w) :
    v.at? place = some w := by
  cases place with
  | nil => cases h
  | cons i place => exact h

/-- The value at a place inside is the value below one of the parts. -/
theorem partAt?_of_at? {v w : Value} {place : Place} (hplace : place ≠ [])
    (h : v.at? place = some w) : partAt? v.parts place = some w := by
  cases place with
  | nil => exact absurd rfl hplace
  | cons i place => exact h

/-- A place below one of several parts says which part, so it is never the empty place. -/
theorem ne_nil_of_partAt? {parts : List Value} {w : Value} {place : Place}
    (h : partAt? parts place = some w) : place ≠ [] := by
  rintro rfl
  cases h

/-! ## The literals of a filter -/

/-- Literals with their places, below the first part. -/
def below (ls : List (Place × Value)) : List (Place × Value) := ls.map fun l => (0 :: l.1, l.2)

/-- Literals with their places, when there is one part more in front. -/
def shifted (ls : List (Place × Value)) : List (Place × Value) :=
  ls.map fun l => (nextPlace l.1, l.2)

/-- A value that is compared, unless it is nothing. -/
def compared (v : Value) : List (Place × Value) := if v.kind == .null then [] else [([], v)]

mutual

/-- The literals of the value of a field. -/
def fieldLiterals : Value → List (Place × Value)
  | .doc entries => (entriesLiterals entries).flatMap (·.2)
  | .table .any entries | .table .texts entries | .table .counts entries =>
    (sortByKey (·.1) (entriesLiterals entries)).flatMap (·.2)
  | .noTable => []
  | v => compared v

/-- The literals of each entry of an object below a field. -/
def entriesLiterals : List (Text × Value) → List (Text × List (Place × Value))
  | [] => []
  | (key, v) :: rest =>
    let here :=
      match directiveName? key with
      | some name =>
        match nestedOp? name with
        | some _ => compared v
        | none => if name == orName then orLiterals v else []
      | none => fieldLiterals v
    (key, below here) :: (entriesLiterals rest).map fun part => (part.1, shifted part.2)

/-- The literals of an `$or`. -/
def orLiterals : Value → List (Place × Value)
  | .list _ items => elementsLiterals items
  | _ => []

/-- The literals of the elements of an `$or`. -/
def elementsLiterals : List Value → List (Place × Value)
  | [] => []
  | v :: rest => below (elementLiterals v) ++ shifted (elementsLiterals rest)

/-- The literals of an element of an `$or`. -/
def elementLiterals : Value → List (Place × Value)
  | .doc fields => (conditionsLiterals fields).flatMap (·.2)
  | .table .any fields | .table .texts fields | .table .counts fields =>
    (sortByKey (·.1) (conditionsLiterals fields)).flatMap (·.2)
  | _ => []

/-- The literals of each field of a filter. -/
def conditionsLiterals : List (Text × Value) → List (Text × List (Place × Value))
  | [] => []
  | (key, v) :: rest =>
    let here :=
      match directiveName? key with
      | some name => if name == orName then orLiterals v else []
      | none => fieldLiterals v
    (key, below here) :: (conditionsLiterals rest).map fun part => (part.1, shifted part.2)

end

/-- The literals of a filter with their places, in the order in which they are compared. -/
def literals (d : Document) : List (Place × Value) := (conditionsLiterals d).flatMap (·.2)

end Filter

/-! ## Literals are parameters -/

/-- The values that conditions compare with, without those of the null kind. -/
def conditionValues (ds : List Directive) : List Value :=
  Formula.boundValues (ds.flatMap Directive.comparisons)

/-- The values of conditions one behind the other are the values of the former and then those of the latter.
Interpretation only ever joins lists of conditions, so this carries every step below. -/
theorem conditionValues_append (ds ds' : List Directive) :
    conditionValues (ds ++ ds') = conditionValues ds ++ conditionValues ds' := by
  rw [conditionValues, List.flatMap_append, Formula.boundValues_append]
  rfl

/-- A group compares with what its members compare with, whether it is a conjunction or a disjunction. So
groups can be passed over when values are counted. -/
theorem conditionValues_logical (op : LogicalOp) (ds : List Directive) :
    conditionValues [.logical op ds] = conditionValues ds := by
  rw [conditionValues, List.flatMap_singleton, Directive.comparisons, Directive.comparisonsAll_eq]
  rfl

/-- A single comparison has its value as the only one, and none if the value is of the null kind: then the
text says NULL and nothing is bound. -/
theorem conditionValues_comparison (c : Comparator) (path : Text) (v : Value) :
    conditionValues [.comparison (.known c) path v] = (Filter.compared v).map (·.2) := by
  rw [conditionValues, List.flatMap_singleton, Directive.comparisons, Filter.compared,
    Formula.boundValues]
  by_cases hv : v.kind = .null <;> simp [hv]

/-- Going below a part changes the places of literals and not their values. -/
theorem Filter.map_below (ls : List (Place × Value)) : (below ls).map (·.2) = ls.map (·.2) := by
  rw [below, List.map_map]
  rfl

/-- Putting a part in front changes the places of literals and not their values. -/
theorem Filter.map_shifted (ls : List (Place × Value)) : (shifted ls).map (·.2) = ls.map (·.2) := by
  rw [shifted, List.map_map]
  rfl

namespace Contributions

/-- The values that each contribution compares with. -/
def values (cs : Contributions) : List (Text × List Value) :=
  cs.map fun c => (c.1, (c.2.map conditionValues).toOption.getD [])

/-- Contributions that are put together compare with the values of each, in their order. This is the step
from single keys of a filter to the whole. -/
theorem combine_values {cs : Contributions} {ds : List Directive} (h : cs.combine = .ok ds) :
    conditionValues ds = cs.values.flatMap (·.2) := by
  induction cs generalizing ds with
  | nil =>
    cases h
    rfl
  | cons c rest ih =>
    obtain ⟨here, more, hhere, hmore, rfl⟩ := combine_cons_ok h
    have hcons : values (c :: rest)
        = (c.1, (c.2.map conditionValues).toOption.getD []) :: values rest := rfl
    rw [conditionValues_append, ih hmore, hcons, List.flatMap_cons, hhere]
    rfl

/-- Sorting contributions by their keys sorts their values in the same way, because the values are computed
from each contribution alone. -/
theorem sorted_values (cs : Contributions) : cs.sorted.values = sortByKey (·.1) cs.values := by
  symm
  exact sortByKey_map _ (fun _ => rfl) cs

/-- Contributions that go together are all there: had one of them failed, the whole would have failed. -/
theorem ok_of_combine {cs : Contributions} {ds : List Directive} (h : cs.combine = .ok ds) :
    ∀ c ∈ cs, ∃ here, c.2 = .ok here := by
  induction cs generalizing ds with
  | nil => simp
  | cons c rest ih =>
    obtain ⟨here, more, hhere, hmore, rfl⟩ := combine_cons_ok h
    intro c' hc'
    rcases List.mem_cons.mp hc' with rfl | hc'
    · exact ⟨here, hhere⟩
    · exact ih hmore c' hc'

/-- One more contribution whose values are known. The literals of an entry stand below it, and those of the
further entries are shifted by one; neither changes the values. -/
theorem values_cons {key : Text} {r : Except QueryError (List Directive)} {rest : Contributions}
    {ls : List (Place × Value)} {parts : List (Text × List (Place × Value))}
    (hr : ∀ here, r = .ok here → conditionValues here = ls.map (·.2))
    (hrest : (∀ c ∈ rest, ∃ here, c.2 = .ok here) →
      values rest = parts.map fun l => (l.1, l.2.map (·.2)))
    (h : ∀ c ∈ (key, r) :: rest, ∃ here, c.2 = .ok here) :
    values ((key, r) :: rest)
      = ((key, Filter.below ls) :: parts.map fun part => (part.1, Filter.shifted part.2)).map
          fun l => (l.1, l.2.map (·.2)) := by
  obtain ⟨here, hhere⟩ := h (key, r) (by simp)
  have hvalues : (r.map conditionValues).toOption.getD [] = ls.map (·.2) := by
    rw [← hr here hhere, show r = .ok here from hhere]
    rfl
  have hcons : values ((key, r) :: rest)
      = (key, (r.map conditionValues).toOption.getD []) :: values rest := rfl
  rw [hcons, hvalues, hrest fun c hc => h c (by simp [hc]), List.map_cons, List.map_map,
    Filter.map_below]
  simp only [Function.comp_def, Filter.map_shifted]

/-- Contributions whose values are known, in their own order. -/
theorem values_of_combine {cs : Contributions} {ls : List (Text × List (Place × Value))}
    (hls : (∀ c ∈ cs, ∃ here, c.2 = .ok here) → cs.values = ls.map fun l => (l.1, l.2.map (·.2)))
    {ds : List Directive} (h : cs.combine = .ok ds) :
    conditionValues ds = (ls.flatMap (·.2)).map (·.2) := by
  rw [combine_values h, hls (ok_of_combine h), List.flatMap_map, List.map_flatMap]

/-- Contributions whose values are known, in the order of their keys. Sorting moves the contributions and
the literals in the same way, for it looks at keys only. -/
theorem values_of_combine_sorted {cs : Contributions} {ls : List (Text × List (Place × Value))}
    (hls : (∀ c ∈ cs, ∃ here, c.2 = .ok here) → cs.values = ls.map fun l => (l.1, l.2.map (·.2)))
    {ds : List Directive} (h : cs.sorted.combine = .ok ds) :
    conditionValues ds = ((sortByKey (·.1) ls).flatMap (·.2)).map (·.2) := by
  refine values_of_combine (fun hok => ?_) h
  have hall : ∀ c ∈ cs, ∃ here, c.2 = .ok here :=
    fun c hc => hok c ((sortByKey_perm _ cs).mem_iff.mpr hc)
  rw [sorted_values, hls hall]
  exact sortByKey_map _ (fun _ => rfl) ls

end Contributions

/-- A list of conditions that has become one group has the values of that group. -/
theorem conditionValues_group {r : Except QueryError Directive} {vs : List Value}
    (hr : ∀ d, r = .ok d → conditionValues [d] = vs) {ds : List Directive}
    (h : r.map ([·]) = .ok ds) : conditionValues ds = vs := by
  cases r with
  | error e => cases h
  | ok d =>
    cases h
    exact hr d rfl

mutual

/-- The conditions on a field compare with the literals of the value that the filter has for the field. A
document is walked in its order, a table in that of its keys. This and the next five statements are one
induction over the filter. -/
theorem fieldDirectives_values (path : Text) (v : Value) {ds : List Directive}
    (h : fieldDirectives path v = .ok ds) :
    conditionValues ds = (Filter.fieldLiterals v).map (·.2) := by
  match v with
  | .doc entries => exact Contributions.values_of_combine (nestedEntries_values path entries) h
  -- tables are sorted by their keys, and so are their literals
  | .table .any entries | .table .texts entries | .table .counts entries =>
    exact Contributions.values_of_combine_sorted (nestedEntries_values path entries) h
  | .noTable =>
    cases h
    rfl
  | .null | .bool _ | .text _ | .int _ _ | .float _ _ | .numeral _ | .label _ | .bytes _ | .time _
  | .ref _ | .list _ _ | .table .numbered _ =>
    cases h
    exact conditionValues_comparison .eq path _

/-- The entries of an object below a field contribute the literals of each entry. An entry with an operator
as its key is compared itself; any other is a longer path. -/
theorem nestedEntries_values (path : Text) (entries : List (Text × Value))
    (h : ∀ c ∈ nestedEntries path entries, ∃ here, c.2 = .ok here) :
    (nestedEntries path entries).values
      = (Filter.entriesLiterals entries).map fun l => (l.1, l.2.map (·.2)) := by
  match entries with
  | [] => rfl
  | (key, v) :: rest =>
    rw [nestedEntries] at h ⊢
    rw [Filter.entriesLiterals]
    refine Contributions.values_cons ?_ (nestedEntries_values path rest) h
    cases directiveName? key with
    | none => exact fun here hhere => fieldDirectives_values _ v hhere
    | some name =>
      dsimp only
      cases nestedOp? name with
      | some c =>
        rintro _ ⟨⟩
        exact conditionValues_comparison c path v
      | none =>
        -- a group below a field, or a key that says nothing
        cases name == orName with
        | true => exact fun here hhere => conditionValues_group (fun d hd => orGroup_values v hd) hhere
        | false =>
          rintro _ ⟨⟩
          rfl

/-- An `$or` contributes the literals of its elements, one after the other, as one disjunction. -/
theorem orGroup_values (v : Value) {d : Directive} (h : orGroup v = .ok d) :
    conditionValues [d] = (Filter.orLiterals v).map (·.2) := by
  match v with
  | .list _ items =>
    obtain ⟨ds, hds, h⟩ := bind_eq_ok h
    cases h
    rw [conditionValues_logical]
    exact orElements_values items hds
  | .doc _ | .table _ _ | .noTable | .null | .bool _ | .text _ | .int _ _ | .float _ _ | .numeral _
  | .label _ | .bytes _ | .time _ | .ref _ => cases h

/-- The elements of an `$or` contribute their literals in the order of the list, each element as one
condition. -/
theorem orElements_values (items : List Value) {ds : List Directive}
    (h : orElements items = .ok ds) :
    conditionValues ds = (Filter.elementsLiterals items).map (·.2) := by
  match items with
  | [] =>
    cases h
    rfl
  | v :: rest =>
    obtain ⟨group, hgroup, h⟩ := bind_eq_ok h
    obtain ⟨more, hmore, h⟩ := bind_eq_ok h
    cases h
    rw [Filter.elementsLiterals, List.map_append, Filter.map_below, Filter.map_shifted,
      ← orElement_values v hgroup, ← orElements_values rest hmore,
      ← conditionValues_logical .and group, ← conditionValues_append]
    rfl

/-- An element of an `$or` is a filter of its own, in which only conditions may stand. It contributes its
literals as a filter does. -/
theorem orElement_values (v : Value) {ds : List Directive} (h : orElement v = .ok ds) :
    conditionValues ds = (Filter.elementLiterals v).map (·.2) := by
  match v with
  | .doc fields => exact Contributions.values_of_combine (orEntries_values fields) h
  | .table .any fields | .table .texts fields | .table .counts fields =>
    exact Contributions.values_of_combine_sorted (orEntries_values fields) h
  | .noTable =>
    cases h
    rfl
  | .null | .bool _ | .text _ | .int _ _ | .float _ _ | .numeral _ | .label _ | .bytes _ | .time _
  | .ref _ | .list _ _ | .table .numbered _ => cases h

/-- The fields of an element of an `$or` contribute their literals one by one, under their keys, so that a
table can be sorted afterwards. -/
theorem orEntries_values (fields : List (Text × Value))
    (h : ∀ c ∈ orEntries fields, ∃ here, c.2 = .ok here) :
    (orEntries fields).values
      = (Filter.conditionsLiterals fields).map fun l => (l.1, l.2.map (·.2)) := by
  match fields with
  | [] => rfl
  | (key, v) :: rest =>
    rw [orEntries] at h ⊢
    rw [Filter.conditionsLiterals]
    refine Contributions.values_cons ?_ (orEntries_values rest) h
    cases directiveName? key with
    | none => exact fun here hhere => fieldDirectives_values _ v hhere
    | some name =>
      dsimp only
      cases name == orName with
      | true => exact fun here hhere => conditionValues_group (fun d hd => orGroup_values v hd) hhere
      | false =>
        rintro _ ⟨⟩
        rfl

end

/-- The literals of a filter are what its conditions compare with, in order. The induction is on the fields:
the literals of the first field come first, and modifiers have none. -/
theorem interpretFields_values {d : Document} {c : Contribution} (h : interpretFields d = .ok c) :
    conditionValues c.conditions = (Filter.literals d).map (·.2) := by
  induction d generalizing c with
  | nil =>
    cases h
    rfl
  | cons field rest ih =>
    obtain ⟨key, v⟩ := field
    rw [interpretFields] at h
    obtain ⟨here, hhere, h⟩ := bind_eq_ok h
    obtain ⟨more, hmore, h⟩ := bind_eq_ok h
    cases h
    rw [conditionValues_append, ih hmore, Filter.literals, Filter.literals,
      Filter.conditionsLiterals, List.flatMap_cons, List.map_append, Filter.map_below,
      List.flatMap_map, List.map_flatMap, List.map_flatMap]
    simp only [Filter.map_shifted]
    -- what is left is one field, and its key decides what it contributes
    refine congrArg (· ++ _) ?_
    cases hname : directiveName? key with
    | none =>
      rw [interpretField, hname] at hhere
      obtain ⟨ds, hds, hhere⟩ := bind_eq_ok hhere
      cases hhere
      exact fieldDirectives_values key v hds
    | some name =>
      cases hor : name == orName with
      | true =>
        rw [interpretField, hname, beq_iff_eq.mp hor] at hhere
        obtain ⟨e, he, hhere⟩ := bind_eq_ok hhere
        cases hhere
        simp only [hor, if_true]
        exact orGroup_values v he
      | false =>
        obtain ⟨hconditions, _⟩ := interpretField_clause hname hor hhere
        rw [hconditions]
        simp only [hor]
        rfl

/-- The parameters of a compiled filter are its literals. Parameters are bound in the order in which the
conditions are walked, and that is the order of the literals. -/
theorem compile_literals {options : CompileOptions} {d : Document} {st : Statement}
    (h : interpret d >>= compile options = .ok st) :
    st.params = (Filter.literals d).map (·.2) := by
  obtain ⟨ds, hds, hst⟩ := bind_eq_ok h
  obtain ⟨c, hc, hconditions⟩ := interpret_conditions hds
  -- the conditions stand in a conjunction, unless there are none
  have hvalues : conditionValues (ds.filter Directive.isCondition)
      = conditionValues c.conditions := by
    rw [hconditions]
    split
    · next hempty => rw [List.isEmpty_iff.mp hempty]
    · exact conditionValues_logical .and c.conditions
  rw [← interpretFields_values hc, ← hvalues]
  obtain ⟨fs, hfs, hcond⟩ := compile_ok hst
  rw [conditionValues, comparisons_of_ofDirectives hfs]
  rcases hcond with ⟨rfl, hparams, _⟩ | ⟨_, hparams, _⟩
  · exact hparams
  · rw [hparams, Formula.bind_params, List.nil_append]

/-! ## The places of literals -/

namespace Filter

/-- Every literal of a list stands at its place in the parts. -/
def StandIn (parts : List Value) (ls : List (Place × Value)) : Prop :=
  ∀ l ∈ ls, partAt? parts l.1 = some l.2

namespace StandIn

/-- Literals below the first part stand at their places in all parts exactly if they stand at theirs in that
part. -/
theorem below_iff {v : Value} {parts : List Value} {ls : List (Place × Value)} :
    StandIn (v :: parts) (below ls) ↔ ∀ l ∈ ls, v.at? l.1 = some l.2 := by
  rw [StandIn, below, List.forall_mem_map]
  rfl

/-- Literals that are counted with one part in front stand at their places exactly if they do so in the
other parts. -/
theorem shifted_iff {v : Value} {parts : List Value} {ls : List (Place × Value)} :
    StandIn (v :: parts) (shifted ls) ↔ StandIn parts ls := by
  rw [StandIn, shifted, List.forall_mem_map]
  simp only [partAt?_next]
  rfl

theorem append_iff {parts : List Value} {ls ls' : List (Place × Value)} :
    StandIn parts (ls ++ ls') ↔ StandIn parts ls ∧ StandIn parts ls' := List.forall_mem_append

/-- The literals of one part more, beside those of the others. Those of the first part stand below place
zero, and those of the others one place further on than before. -/
theorem cons_iff {key : Text} {v : Value} {parts : List Value} {here : List (Place × Value)}
    {more : List (Text × List (Place × Value))} :
    StandIn (v :: parts)
        (((key, below here) :: more.map fun part => (part.1, shifted part.2)).flatMap (·.2)) ↔
      (∀ l ∈ here, v.at? l.1 = some l.2) ∧ StandIn parts (more.flatMap (·.2)) := by
  have hshifted : (more.map fun part => (part.1, shifted part.2)).flatMap (·.2)
      = shifted (more.flatMap (·.2)) := by
    rw [List.flatMap_map, shifted, List.map_flatMap]
    rfl
  rw [List.flatMap_cons, append_iff, below_iff, hshifted, shifted_iff]

/-- The order in which entries are walked does not matter. -/
theorem sorted_iff {parts : List Value} {more : List (Text × List (Place × Value))} :
    StandIn parts ((sortByKey (·.1) more).flatMap (·.2)) ↔ StandIn parts (more.flatMap (·.2)) := by
  have hmem : ∀ l, l ∈ (sortByKey (·.1) more).flatMap (·.2) ↔ l ∈ more.flatMap (·.2) :=
    fun l => ((sortByKey_perm _ more).flatMap_right _).mem_iff
  rw [StandIn, StandIn]
  simp only [hmem]

end StandIn

/-- The value of a comparison stands at the empty place of itself. It is the only literal there is in a
value that is compared as a whole. -/
theorem compared_at (v : Value) : ∀ l ∈ compared v, v.at? l.1 = some l.2 := by
  rw [compared]
  split <;> simp [Value.at?]

mutual

/-- Every literal that the walk notes for the value of a field stands at the noted place of that value.
Again one induction with the five statements after it. -/
theorem fieldLiterals_at (v : Value) : ∀ l ∈ fieldLiterals v, v.at? l.1 = some l.2 := by
  match v with
  | .doc entries => exact fun l hl => at?_of_partAt? (entriesLiterals_stand entries l hl)
  | .table .any entries | .table .texts entries | .table .counts entries =>
    exact fun l hl =>
      at?_of_partAt? (StandIn.sorted_iff.mpr (entriesLiterals_stand entries) l hl)
  | .noTable => exact fun l hl => nomatch hl
  | .null | .bool _ | .text _ | .int _ _ | .float _ _ | .numeral _ | .label _ | .bytes _ | .time _
  | .ref _ | .list _ _ | .table .numbered _ => exact compared_at _

/-- The literals of the entries of an object stand at their places in the values of these entries, the first
number of a place being the index of the entry. -/
theorem entriesLiterals_stand (entries : List (Text × Value)) :
    StandIn (entries.map (·.2)) ((entriesLiterals entries).flatMap (·.2)) := by
  match entries with
  | [] => exact fun l hl => nomatch hl
  | (key, v) :: rest =>
    rw [entriesLiterals, List.map_cons, StandIn.cons_iff]
    -- the further entries stand one place on
    refine ⟨?_, entriesLiterals_stand rest⟩
    cases directiveName? key with
    | none => exact fieldLiterals_at v
    | some name =>
      dsimp only
      cases nestedOp? name with
      | some c => exact compared_at v
      | none =>
        cases name == orName with
        | true => exact orLiterals_at v
        | false => exact fun l hl => nomatch hl

/-- The literals of an `$or` stand at their places in its list. -/
theorem orLiterals_at (v : Value) : ∀ l ∈ orLiterals v, v.at? l.1 = some l.2 := by
  match v with
  | .list _ items => exact fun l hl => at?_of_partAt? (elementsLiterals_stand items l hl)
  | .doc _ | .table _ _ | .noTable | .null | .bool _ | .text _ | .int _ _ | .float _ _ | .numeral _
  | .label _ | .bytes _ | .time _ | .ref _ => exact fun l hl => nomatch hl

/-- The literals of the elements of an `$or` stand at their places among these elements. -/
theorem elementsLiterals_stand (items : List Value) : StandIn items (elementsLiterals items) := by
  match items with
  | [] => exact fun l hl => nomatch hl
  | v :: rest =>
    rw [elementsLiterals, StandIn.append_iff, StandIn.below_iff, StandIn.shifted_iff]
    exact ⟨elementLiterals_at v, elementsLiterals_stand rest⟩

/-- The literals of an element of an `$or` stand at their places in the element. -/
theorem elementLiterals_at (v : Value) : ∀ l ∈ elementLiterals v, v.at? l.1 = some l.2 := by
  match v with
  | .doc fields => exact fun l hl => at?_of_partAt? (conditionsLiterals_stand fields l hl)
  | .table .any fields | .table .texts fields | .table .counts fields =>
    exact fun l hl =>
      at?_of_partAt? (StandIn.sorted_iff.mpr (conditionsLiterals_stand fields) l hl)
  | .noTable | .null | .bool _ | .text _ | .int _ _ | .float _ _ | .numeral _ | .label _ | .bytes _
  | .time _ | .ref _ | .list _ _ | .table .numbered _ => exact fun l hl => nomatch hl

/-- The literals of the fields of a filter stand at their places in the values of these fields. For the
document as a whole this says that the walk notes correct places. -/
theorem conditionsLiterals_stand (fields : List (Text × Value)) :
    StandIn (fields.map (·.2)) ((conditionsLiterals fields).flatMap (·.2)) := by
  match fields with
  | [] => exact fun l hl => nomatch hl
  | (key, v) :: rest =>
    rw [conditionsLiterals, List.map_cons, StandIn.cons_iff]
    refine ⟨?_, conditionsLiterals_stand rest⟩
    cases directiveName? key with
    | none => exact fieldLiterals_at v
    | some name =>
      dsimp only
      cases name == orName with
      | true => exact orLiterals_at v
      | false => exact fun l hl => nomatch hl

end

/-! ## Places belong to the template -/

/-- The places of the literals of each part. -/
def placesOf (parts : List (Text × List (Place × Value))) : List (Text × List Place) :=
  parts.map fun part => (part.1, part.2.map (·.1))

/-- If two walks note the same places key by key, they note the same places in one list. -/
theorem places_flatMap {parts parts' : List (Text × List (Place × Value))}
    (h : placesOf parts = placesOf parts') :
    (parts.flatMap (·.2)).map (·.1) = (parts'.flatMap (·.2)).map (·.1) := by
  have hflat : ∀ ps : List (Text × List (Place × Value)),
      (ps.flatMap (·.2)).map (·.1) = (placesOf ps).flatMap (·.2) := by
    intro ps
    rw [List.map_flatMap, placesOf, List.flatMap_map]
  rw [hflat, hflat, h]

/-- The same if the keys are put in order first: sorting looks at the keys only, and these agree. -/
theorem places_sorted {parts parts' : List (Text × List (Place × Value))}
    (h : placesOf parts = placesOf parts') :
    ((sortByKey (·.1) parts).flatMap (·.2)).map (·.1)
      = ((sortByKey (·.1) parts').flatMap (·.2)).map (·.1) := by
  have hsorted : ∀ ps : List (Text × List (Place × Value)),
      placesOf (sortByKey (·.1) ps) = sortByKey (·.1) (placesOf ps) := by
    intro ps
    symm
    exact sortByKey_map _ (fun _ => rfl) ps
  refine places_flatMap ?_
  rw [hsorted, hsorted, h]

theorem places_below (ls : List (Place × Value)) :
    (below ls).map (·.1) = (ls.map (·.1)).map (0 :: ·) := by
  rw [below, List.map_map, List.map_map]
  rfl

theorem places_shifted (ls : List (Place × Value)) :
    (shifted ls).map (·.1) = (ls.map (·.1)).map nextPlace := by
  rw [shifted, List.map_map, List.map_map]
  rfl

/-- One more key at the front: its places go below the first part, and those of all other keys are counted
with one part in front. -/
theorem placesOf_cons (key : Text) (here : List (Place × Value))
    (more : List (Text × List (Place × Value))) :
    placesOf ((key, below here) :: more.map fun part => (part.1, shifted part.2))
      = (key, (here.map (·.1)).map (0 :: ·)) ::
          (placesOf more).map fun part => (part.1, part.2.map nextPlace) := by
  have hmore : placesOf (more.map fun part => (part.1, shifted part.2))
      = (placesOf more).map fun part => (part.1, part.2.map nextPlace) := by
    rw [placesOf, placesOf, List.map_map, List.map_map]
    exact List.map_congr_left fun part _ => congrArg (Prod.mk part.1) (places_shifted part.2)
  rw [← places_below, ← hmore]
  rfl

/-- Whether a value is compared at all depends on its kind, which blanking keeps. So a blanked value has its
literal at the same place, or like the value has none. -/
theorem compared_blanked (v : Value) :
    (compared v.blanked).map (·.1) = (compared v).map (·.1) := by
  rw [compared, compared, v.kind_blanked]
  split <;> rfl

mutual

/-- A field has its literals at the same places in the template, where they are blanked. One induction with
the five statements after it. -/
theorem fieldLiterals_template (v : Value) :
    (fieldLiterals (fieldTemplate v)).map (·.1) = (fieldLiterals v).map (·.1) := by
  match v with
  | .doc entries => exact places_flatMap (entriesLiterals_template entries)
  | .table .any entries | .table .texts entries | .table .counts entries =>
    exact places_sorted (entriesLiterals_template entries)
  | .noTable | .null | .bool _ | .text _ | .int _ _ | .float _ _ | .numeral _ | .label _ | .bytes _
  | .time _ | .ref none | .ref (some _) | .list _ _ | .table .numbered _ => rfl

/-- The entries of an object have their literals at the same places in the template, key by key, because
blanking keeps all keys. -/
theorem entriesLiterals_template (entries : List (Text × Value)) :
    placesOf (entriesLiterals (entriesTemplate entries)) = placesOf (entriesLiterals entries) := by
  match entries with
  | [] => rfl
  | (key, v) :: rest =>
    simp only [entriesTemplate, entriesLiterals]
    rw [placesOf_cons, placesOf_cons, entriesLiterals_template rest]
    -- the places of the other entries are the same, so one entry is left
    refine congrArg (fun places : List Place => (key, places.map (0 :: ·)) :: _) ?_
    cases directiveName? key with
    | none => exact fieldLiterals_template v
    | some name =>
      dsimp only
      cases nestedOp? name with
      | some c => exact compared_blanked v
      | none =>
        cases name == orName with
        | true => exact orLiterals_template v
        | false => rfl

/-- An `$or` has its literals at the same places in the template. -/
theorem orLiterals_template (v : Value) :
    (orLiterals (orTemplate v)).map (·.1) = (orLiterals v).map (·.1) := by
  match v with
  | .list _ items => exact elementsLiterals_template items
  | .doc _ | .table _ _ | .noTable | .null | .bool _ | .text _ | .int _ _ | .float _ _ | .numeral _
  | .label _ | .bytes _ | .time _ | .ref _ => rfl

/-- The elements of an `$or` have their literals at the same places in the template. -/
theorem elementsLiterals_template (items : List Value) :
    (elementsLiterals (elementsTemplate items)).map (·.1)
      = (elementsLiterals items).map (·.1) := by
  match items with
  | [] => rfl
  | v :: rest =>
    rw [elementsTemplate, elementsLiterals, elementsLiterals, List.map_append, List.map_append,
      places_below, places_below, places_shifted, places_shifted, elementLiterals_template v,
      elementsLiterals_template rest]

/-- An element of an `$or` has its literals at the same places in the template. -/
theorem elementLiterals_template (v : Value) :
    (elementLiterals (elementTemplate v)).map (·.1) = (elementLiterals v).map (·.1) := by
  match v with
  | .doc fields => exact places_flatMap (conditionsLiterals_template fields)
  | .table .any fields | .table .texts fields | .table .counts fields =>
    exact places_sorted (conditionsLiterals_template fields)
  | .noTable | .null | .bool _ | .text _ | .int _ _ | .float _ _ | .numeral _ | .label _ | .bytes _
  | .time _ | .ref _ | .list _ _ | .table .numbered _ => rfl

/-- The fields of a filter have their literals at the same places in the template, key by key. So the places
can be computed without a look at any literal. -/
theorem conditionsLiterals_template (fields : List (Text × Value)) :
    placesOf (conditionsLiterals (template fields)) = placesOf (conditionsLiterals fields) := by
  match fields with
  | [] => rfl
  | (key, v) :: rest =>
    simp only [template, conditionsLiterals]
    rw [placesOf_cons, placesOf_cons, conditionsLiterals_template rest]
    refine congrArg (fun places : List Place => (key, places.map (0 :: ·)) :: _) ?_
    cases directiveName? key with
    | none => exact fieldLiterals_template v
    | some name =>
      dsimp only
      cases name == orName with
      | true => exact orLiterals_template v
      | false => rfl

end

/-! ## A filter is its template and its literals -/

/-- A value that is compared is known from what is left of it and the literal in its place. -/
theorem eq_of_blanked {v v' : Value} (h : v.blanked = v'.blanked)
    (hat : ∀ l ∈ compared v, v'.at? l.1 = some l.2) : v = v' := by
  rw [compared] at hat
  by_cases hv : v.kind == .null
  · -- Nothing was blanked: what is left is the value.
    have hv' : v'.kind == .null := by rw [← v'.kind_blanked, ← h, v.kind_blanked, hv]
    rwa [Value.blanked, if_pos hv, Value.blanked, if_pos hv'] at h
  · rw [if_neg hv] at hat
    exact (Option.some.inj (hat ([], v) (by simp))).symm

/-- The literals of an object stand in another one just below its top. -/
theorem standIn_of_at {v : Value} {parts : List Value} {ls : List (Place × Value)}
    (hls : StandIn parts ls) (hat : ∀ l ∈ ls, v.at? l.1 = some l.2) : StandIn v.parts ls :=
  fun l hl => partAt?_of_at? (ne_nil_of_partAt? (hls l hl)) (hat l hl)

/-- Only a document has a document as its template, and then with the template of its entries. The inversion
lemmas of this section let an equation of templates be read from the outside to the inside. -/
theorem fieldTemplate_eq_doc {v : Value} {entries : List (Text × Value)}
    (h : fieldTemplate v = .doc entries) :
    ∃ entries', v = .doc entries' ∧ entriesTemplate entries' = entries := by
  match v with
  | .doc entries' => exact ⟨entries', rfl, Value.doc.inj h⟩
  | .table .any _ | .table .texts _ | .table .counts _ | .table .numbered _ | .noTable | .null
  | .bool _ | .text _ | .int _ _ | .float _ _ | .numeral _ | .label _ | .bytes _ | .time _
  | .ref none | .ref (some _) | .list _ _ => cases h

/-- Only a table of the same type has a table as its template, and then with the template of its entries. -/
theorem fieldTemplate_eq_table {v : Value} {ty : TableType} {entries : List (Text × Value)}
    (h : fieldTemplate v = .table ty entries) :
    ∃ entries', v = .table ty entries' ∧ entriesTemplate entries' = entries := by
  match v with
  | .table .any entries' | .table .texts entries' | .table .counts entries' =>
    cases h
    exact ⟨entries', rfl, rfl⟩
  | .doc _ | .table .numbered _ | .noTable | .null | .bool _ | .text _ | .int _ _ | .float _ _
  | .numeral _ | .label _ | .bytes _ | .time _ | .ref none | .ref (some _) | .list _ _ => cases h

/-- Nothing, a reference to nothing and a table that was never made are their own templates. -/
theorem fieldTemplate_eq_nothing {v w : Value} (hw : w = .null ∨ w = .ref none ∨ w = .noTable)
    (h : fieldTemplate v = w) : v = w := by
  match v with
  | .null | .ref none | .noTable => exact h
  | .doc _ | .table .any _ | .table .texts _ | .table .counts _ | .table .numbered _ | .bool _
  | .text _ | .int _ _ | .float _ _ | .numeral _ | .label _ | .bytes _ | .time _ | .ref (some _)
  | .list _ _ => rcases hw with rfl | rfl | rfl <;> cases h

/-- Only a list of the same type has a list as its template in an `$or`, and then with the templates of its
elements. -/
theorem orTemplate_eq_list {v : Value} {ty : ListType} {items : List Value}
    (h : orTemplate v = .list ty items) :
    ∃ items', v = .list ty items' ∧ elementsTemplate items' = items := by
  match v with
  | .list _ items' =>
    cases h
    exact ⟨items', rfl, rfl⟩
  | .doc _ | .table _ _ | .noTable | .null | .bool _ | .text _ | .int _ _ | .float _ _ | .numeral _
  | .label _ | .bytes _ | .time _ | .ref _ => cases h

/-- Only a document has a document as its template in an `$or`. -/
theorem elementTemplate_eq_doc {v : Value} {fields : List (Text × Value)}
    (h : elementTemplate v = .doc fields) :
    ∃ fields', v = .doc fields' ∧ template fields' = fields := by
  match v with
  | .doc fields' => exact ⟨fields', rfl, Value.doc.inj h⟩
  | .table .any _ | .table .texts _ | .table .counts _ | .table .numbered _ | .noTable | .null
  | .bool _ | .text _ | .int _ _ | .float _ _ | .numeral _ | .label _ | .bytes _ | .time _ | .ref _
  | .list _ _ => cases h

/-- Only a table of the same type has a table as its template in an `$or`. Numbered tables are left out:
they are not taken apart, so their template is a blank of its own. -/
theorem elementTemplate_eq_table {v : Value} {ty : TableType} {fields : List (Text × Value)}
    (hty : ty ≠ .numbered) (h : elementTemplate v = .table ty fields) :
    ∃ fields', v = .table ty fields' ∧ template fields' = fields := by
  match v with
  | .table .any fields' | .table .texts fields' | .table .counts fields' =>
    cases h
    exact ⟨fields', rfl, rfl⟩
  | .table .numbered _ =>
    cases h
    exact absurd rfl hty
  | .doc _ | .noTable | .null | .bool _ | .text _ | .int _ _ | .float _ _ | .numeral _ | .label _
  | .bytes _ | .time _ | .ref _ | .list _ _ => cases h

mutual

/-- Two values of a field with the same template are equal if the second has the literals of the first at
their places. One induction with the five statements after it. -/
theorem eq_of_fieldTemplate (v v' : Value) (h : fieldTemplate v' = fieldTemplate v)
    (hat : ∀ l ∈ fieldLiterals v, v'.at? l.1 = some l.2) : v = v' := by
  match v with
  | .doc entries =>
    obtain ⟨entries', rfl, hentries⟩ := fieldTemplate_eq_doc h
    rw [eq_of_entriesTemplate entries entries' hentries
      (standIn_of_at (entriesLiterals_stand entries) hat)]
  | .table .any entries | .table .texts entries | .table .counts entries =>
    obtain ⟨entries', rfl, hentries⟩ := fieldTemplate_eq_table h
    have hstand := standIn_of_at (StandIn.sorted_iff.mpr (entriesLiterals_stand entries)) hat
    rw [eq_of_entriesTemplate entries entries' hentries (StandIn.sorted_iff.mp hstand)]
  | .noTable => exact (fieldTemplate_eq_nothing (.inr (.inr rfl)) h).symm
  | .null => exact (fieldTemplate_eq_nothing (.inl rfl) h).symm
  | .ref none => exact (fieldTemplate_eq_nothing (.inr (.inl rfl)) h).symm
  | .bool _ | .text _ | .int _ _ | .float _ _ | .numeral _ | .label _ | .bytes _ | .time _
  | .ref (some _) | .list _ _ | .table .numbered _ =>
    -- The whole value is the literal, and the other document has it at the same place.
    exact (Option.some.inj (hat ([], _) (List.mem_singleton.mpr rfl))).symm

/-- The same for the entries of an object: equal templates give equal keys, and each value is settled by the
literals below its index. -/
theorem eq_of_entriesTemplate (entries entries' : List (Text × Value))
    (h : entriesTemplate entries' = entriesTemplate entries)
    (hat : StandIn (entries'.map (·.2)) ((entriesLiterals entries).flatMap (·.2))) :
    entries = entries' := by
  match entries, entries' with
  | [], [] => rfl
  | [], _ :: _ => cases h
  | _ :: _, [] => cases h
  | (key, v) :: rest, (key', v') :: rest' =>
    simp only [entriesTemplate, List.cons.injEq, Prod.mk.injEq] at h
    obtain ⟨⟨rfl, hhere⟩, hrest⟩ := h
    rw [entriesLiterals, List.map_cons, StandIn.cons_iff] at hat
    obtain ⟨hat, hatRest⟩ := hat
    rw [eq_of_entriesTemplate rest rest' hrest hatRest]
    -- the keys are equal, and so are the other entries; what is left is the value
    refine congrArg (fun w => (key', w) :: rest') ?_
    revert hhere hat
    cases directiveName? key' with
    | none => exact fun hhere hat => eq_of_fieldTemplate v v' hhere hat
    | some name =>
      dsimp only
      cases nestedOp? name with
      | some c => exact fun hhere hat => eq_of_blanked hhere.symm hat
      | none =>
        cases name == orName with
        | true => exact fun hhere hat => eq_of_orTemplate v v' hhere hat
        | false => exact fun hhere _ => hhere.symm

/-- The same for an `$or`; what is no list there is kept in the template as it is. -/
theorem eq_of_orTemplate (v v' : Value) (h : orTemplate v' = orTemplate v)
    (hat : ∀ l ∈ orLiterals v, v'.at? l.1 = some l.2) : v = v' := by
  match v with
  | .list _ items =>
    obtain ⟨items', rfl, hitems⟩ := orTemplate_eq_list h
    rw [eq_of_elementsTemplate items items' hitems
      (standIn_of_at (elementsLiterals_stand items) hat)]
  | .doc _ | .table _ _ | .noTable | .null | .bool _ | .text _ | .int _ _ | .float _ _ | .numeral _
  | .label _ | .bytes _ | .time _ | .ref _ =>
    cases v' with
    | list => cases h
    | _ => exact h.symm

/-- The same for the elements of an `$or`, whose number the template shows. -/
theorem eq_of_elementsTemplate (items items' : List Value)
    (h : elementsTemplate items' = elementsTemplate items)
    (hat : StandIn items' (elementsLiterals items)) : items = items' := by
  match items, items' with
  | [], [] => rfl
  | [], _ :: _ => cases h
  | _ :: _, [] => cases h
  | v :: rest, v' :: rest' =>
    simp only [elementsTemplate, List.cons.injEq] at h
    rw [elementsLiterals, StandIn.append_iff, StandIn.below_iff, StandIn.shifted_iff] at hat
    rw [eq_of_elementTemplate v v' h.1 hat.1, eq_of_elementsTemplate rest rest' h.2 hat.2]

/-- The same for an element of an `$or`: an object is settled by its fields, and anything else is kept in
the template as it is. -/
theorem eq_of_elementTemplate (v v' : Value) (h : elementTemplate v' = elementTemplate v)
    (hat : ∀ l ∈ elementLiterals v, v'.at? l.1 = some l.2) : v = v' := by
  match v with
  | .doc fields =>
    obtain ⟨fields', rfl, hfields⟩ := elementTemplate_eq_doc h
    rw [eq_of_conditionsTemplate fields fields' hfields
      (standIn_of_at (conditionsLiterals_stand fields) hat)]
  | .table .any fields | .table .texts fields | .table .counts fields =>
    obtain ⟨fields', rfl, hfields⟩ := elementTemplate_eq_table (by decide) h
    have hstand := standIn_of_at (StandIn.sorted_iff.mpr (conditionsLiterals_stand fields)) hat
    rw [eq_of_conditionsTemplate fields fields' hfields (StandIn.sorted_iff.mp hstand)]
  | .noTable | .null | .bool _ | .text _ | .int _ _ | .float _ _ | .numeral _ | .label _ | .bytes _
  | .time _ | .ref _ | .list _ _ | .table .numbered _ =>
    match v' with
    | .doc _ | .table .any _ | .table .texts _ | .table .counts _ => cases h
    | .noTable | .null | .bool _ | .text _ | .int _ _ | .float _ _ | .numeral _ | .label _
    | .bytes _ | .time _ | .ref _ | .list _ _ | .table .numbered _ => exact h.symm

/-- Two filters with the same template are equal if the second has the literals of the first at their
places. Nothing else of a filter is hidden in its template. -/
theorem eq_of_conditionsTemplate (fields fields' : List (Text × Value))
    (h : template fields' = template fields)
    (hat : StandIn (fields'.map (·.2)) ((conditionsLiterals fields).flatMap (·.2))) :
    fields = fields' := by
  match fields, fields' with
  | [], [] => rfl
  | [], _ :: _ => cases h
  | _ :: _, [] => cases h
  | (key, v) :: rest, (key', v') :: rest' =>
    simp only [template, List.cons.injEq, Prod.mk.injEq] at h
    obtain ⟨⟨rfl, hhere⟩, hrest⟩ := h
    rw [conditionsLiterals, List.map_cons, StandIn.cons_iff] at hat
    obtain ⟨hat, hatRest⟩ := hat
    rw [eq_of_conditionsTemplate rest rest' hrest hatRest]
    refine congrArg (fun w => (key', w) :: rest') ?_
    revert hhere hat
    cases directiveName? key' with
    | none => exact fun hhere hat => eq_of_fieldTemplate v v' hhere hat
    | some name =>
      dsimp only
      cases name == orName with
      | true => exact fun hhere hat => eq_of_orTemplate v v' hhere hat
      | false => exact fun hhere _ => hhere.symm

end

/-- The places of the literals of a filter. -/
def places (d : Document) : List Place := (literals d).map (·.1)

/-- The places of the literals can be read off the template. -/
theorem places_template (d : Document) : places (template d) = places d :=
  places_flatMap (conditionsLiterals_template d)

/-- The literals of a filter are the values at their places. -/
theorem literals_at (d : Document) :
    (literals d).map (fun l => some l.2) = (places d).map fun p => Value.at? p (.doc d) := by
  rw [places, List.map_map]
  refine List.map_congr_left fun l hl => ?_
  exact (at?_of_partAt? (v := .doc d) (conditionsLiterals_stand d l hl)).symm

/-- Filters with one template that agree at the places of their literals are the same. -/
theorem eq_of_template {d d' : Document} (h : template d = template d')
    (hat : ∀ p ∈ places d, Value.at? p (.doc d) = Value.at? p (.doc d')) : d = d' := by
  refine eq_of_conditionsTemplate d d' h.symm ?_
  refine standIn_of_at (v := .doc d') (conditionsLiterals_stand d) fun l hl => ?_
  rw [← hat l.1 (List.mem_map_of_mem hl)]
  exact at?_of_partAt? (v := .doc d) (conditionsLiterals_stand d l hl)

end Filter

/-- A filter can be interpreted exactly if its template can, and fails with the same error: interpretation
looks at the kinds of literals and not at the literals. -/
theorem interpret_succeeds_template (d : Document) :
    (interpret (Filter.template d)).map (fun _ => ()) = (interpret d).map (fun _ => ()) := by
  rw [interpret_template]
  cases interpret d <;> rfl

/-- The text of a compiled filter is that of its template, since the text has placeholders where the filter
has literals. -/
theorem interpret_compile_template (options : CompileOptions) (d : Document) :
    (interpret (Filter.template d) >>= compile options).map Statement.text
      = (interpret d >>= compile options).map Statement.text := by
  rw [interpret_template]
  cases interpret d with
  | error e => rfl
  | ok ds => exact compile_template options ds

/-- **Literals never influence the text.** Two filters that differ in their literals only are
interpreted both or neither, compile to one text or fail with one error, and have the same
placeholders: there is one list of places, the parameters of each statement are what its filter has
at those places, and filters that have the same there are the same. So the parameters differ just
where a literal was replaced. -/
theorem compile_sameTemplate (options : CompileOptions) (d d' : Document)
    (h : Filter.template d = Filter.template d') :
    (interpret d).map (fun _ => ()) = (interpret d').map (fun _ => ()) ∧
      (interpret d >>= compile options).map Statement.text
        = (interpret d' >>= compile options).map Statement.text ∧
      ∀ st st', interpret d >>= compile options = .ok st →
        interpret d' >>= compile options = .ok st' →
        ∃ places : List Place,
          st.params.map some = places.map (fun p => Value.at? p (.doc d)) ∧
          st'.params.map some = places.map (fun p => Value.at? p (.doc d')) ∧
          ((∀ p ∈ places, Value.at? p (.doc d) = Value.at? p (.doc d')) → d = d') := by
  refine ⟨?_, ?_, fun st st' hst hst' => ⟨Filter.places d, ?_, ?_, Filter.eq_of_template h⟩⟩
  -- both are interpreted like their common template, and compiled like it
  · rw [← interpret_succeeds_template, h, interpret_succeeds_template]
  · rw [← interpret_compile_template, h, interpret_compile_template]
  · rw [compile_literals hst, ← Filter.literals_at, List.map_map]
    rfl
  · rw [compile_literals hst', ← Filter.places_template, h, Filter.places_template,
      ← Filter.literals_at, List.map_map]
    rfl

/-- A filter with literals at every depth: under a name, under operators, and in two groups. -/
def plainLiterals : Document :=
  [("a", .text "x"), ("n", .null),
    ("b", .table .any [("$lt", .int .int 5), ("c", .bool false),
      ("$or", .list .any [.doc [("d", .int .int 1)]])]),
    ("$or", .list .any [.doc [("e", .doc [("$in", .list .any [.int .int 2])])], .doc []])]

/-- The same filter with other literals: texts that look like conditions, an object under an
operator, and a list under a name. -/
def hostileLiterals : Document :=
  [("a", .text "` = $2 OR TRUE"), ("n", .null),
    ("b", .table .any [("$lt", .doc [("$or", .list .any [])]), ("c", .list .any [.null]),
      ("$or", .list .any [.doc [("d", .text "$or")]])]),
    ("$or", .list .any [.doc [("e", .doc [("$in", .table .any [("$ne", .null)])])], .doc []])]

/-- Both compile, to one text, and every parameter is another one. Among the literals are a text that would
close a name and go on with a condition, and documents with the keys of operators. -/
theorem hostileLiterals_sameText :
    Filter.template plainLiterals = Filter.template hostileLiterals ∧
    ∃ st st', interpret plainLiterals >>= compile ⟨"docs", "*"⟩ = .ok st ∧
      interpret hostileLiterals >>= compile ⟨"docs", "*"⟩ = .ok st' ∧ st.text = st'.text ∧
      st.params = [.text "x", .int .int 5, .int .int 1, .bool false, .list .any [.int .int 2]] ∧
      ∃ places : List Place,
        st.params.map some = places.map (fun p => Value.at? p (.doc plainLiterals)) ∧
        st'.params.map some = places.map (fun p => Value.at? p (.doc hostileLiterals)) := by
  have htemplate : Filter.template plainLiterals = Filter.template hostileLiterals := by rfl
  obtain ⟨-, htext, hparams⟩ :=
    compile_sameTemplate ⟨"docs", "*"⟩ plainLiterals hostileLiterals htemplate
  obtain ⟨ds, hds⟩ : ∃ ds, interpret plainLiterals = .ok ds := ⟨_, rfl⟩
  obtain ⟨s, hselect⟩ : ∃ s, select ⟨"docs", "*"⟩ ds = .ok (s,
      [.text "x", .int .int 5, .int .int 1, .bool false, .list .any [.int .int 2]]) := by
    cases hds
    exact ⟨_, rfl⟩
  have hst : interpret plainLiterals >>= compile ⟨"docs", "*"⟩ = .ok ⟨s.text,
      [.text "x", .int .int 5, .int .int 1, .bool false, .list .any [.int .int 2]]⟩ := by
    rw [hds]
    show compile ⟨"docs", "*"⟩ ds = _
    rw [compile, hselect]
    rfl
  -- The other one compiles because the texts are equal.
  rw [hst] at htext
  cases hst' : interpret hostileLiterals >>= compile ⟨"docs", "*"⟩ with
  | error e =>
    rw [hst'] at htext
    cases htext
  | ok st' =>
    rw [hst'] at htext
    obtain ⟨places, hat, hat', -⟩ := hparams _ st' hst hst'
    exact ⟨htemplate, _, st', hst, rfl, Except.ok.inj htext, rfl, places, hat, hat'⟩

end DocFilter
