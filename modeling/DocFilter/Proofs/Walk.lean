import DocFilter.Proofs.Tables
import DocFilter.Query.Interpret

/-!
How a filter is walked. Documents and tables are objects, lists are arrays, and everything below a
value is one of its fields or one of its elements; so a value can be taken apart by induction on these
alone (`Value.partsInduction`). The interpreter goes through the entries of a table in any order and
sorts what they contribute. Going through the sorted entries is the same thing, and this leaves one
equation for each of its functions on objects, one on arrays and one on the rest.
-/

set_option autoImplicit false

namespace DocFilter

open Text (byte)

/-! ## Values and their parts -/

namespace Value

/-- The value of a field is smaller than the object. Inductions over values end because of this and the next
statement. -/
theorem sizeOf_lt_of_mem_fields {v : Value} {e : Text × Value} (he : e ∈ v.fields) :
    sizeOf e.2 < sizeOf v := by
  have below : ∀ es : List (Text × Value), e ∈ es → sizeOf e.2 < 1 + sizeOf es := by
    intro es hes
    have hlt := List.sizeOf_lt_of_mem hes
    obtain ⟨key, w⟩ := e
    simp only [Prod.mk.sizeOf_spec] at hlt ⊢
    omega
  cases v with
  | doc fields =>
    rw [doc.sizeOf_spec]
    exact below fields he
  | table ty entries =>
    -- sorting changes no entry
    have hperm : (sortedByKey entries).Perm entries := sortByKey_perm _ entries
    have hmem : e ∈ entries := by
      cases ty with
      | numbered => cases he
      | any | texts | counts => exact hperm.mem_iff.1 he
    have hlt := below entries hmem
    rw [table.sizeOf_spec]
    omega
  | _ => cases he

theorem sizeOf_lt_of_mem_elements {v w : Value} (hw : w ∈ v.elements) : sizeOf w < sizeOf v := by
  cases v with
  | list ty items =>
    have hlt : sizeOf w < sizeOf items := List.sizeOf_lt_of_mem hw
    rw [list.sizeOf_spec]
    omega
  | _ => cases hw

/-- Only objects have fields. -/
theorem fields_of_not_object {v : Value} (h : v.kind ≠ .object) : v.fields = [] := by
  cases v with
  | doc fields => exact absurd rfl h
  | table ty entries =>
    cases ty with
    | numbered => rfl
    | any | texts | counts => exact absurd rfl h
  | _ => rfl

/-- Induction over values: a value may use what is known of its fields and of its elements. -/
@[elab_as_elim]
theorem partsInduction {p : Value → Prop} (v : Value)
    (parts : ∀ v : Value, (∀ e ∈ v.fields, p e.2) → (∀ w ∈ v.elements, p w) → p v) : p v :=
  parts v (fun e _ => partsInduction e.2 parts) (fun w _ => partsInduction w parts)
termination_by sizeOf v
decreasing_by
  · exact sizeOf_lt_of_mem_fields ‹_›
  · exact sizeOf_lt_of_mem_elements ‹_›

end Value

/-! ## Keys -/

/-- A key that names a directive is the dollar sign and the name. -/
theorem key_of_directiveName? {key name : Text} (h : directiveName? key = some name) :
    key = byte '$' :: name := by
  cases key with
  | nil => cases h
  | cons dollar rest =>
    rw [directiveName?] at h
    split at h
    · next hkey =>
      simp only [Bool.and_eq_true, beq_iff_eq] at hkey
      rw [hkey.1.1, Option.some.inj h]
    · cases h

/-- The key of an operator in filters. -/
def Comparator.key (c : Comparator) : Text := byte '$' :: c.name

theorem directiveName?_key (c : Comparator) : directiveName? c.key = some c.name := by
  cases c <;> decide

theorem Comparator.ofName?_name (c : Comparator) : ofName? c.name = some c := by
  cases c <;> rfl

/-- Nothing but an operator is found under a name, and it has this name. So keys and operators are in
bijection. -/
theorem Comparator.name_of_ofName? {name : Text} {c : Comparator} (h : ofName? name = some c) :
    c.name = name :=
  beq_iff_eq.1 (List.find?_some (p := fun c : Comparator => c.name == name) h)

/-- The operators below a field are all but equality. Equality is written by the value itself, and as a key
below a field it says nothing. -/
theorem nestedOp?_eq_some {name : Text} {c : Comparator} :
    nestedOp? name = some c ↔ c.name = name ∧ c ≠ .eq := by
  constructor
  · intro h
    unfold nestedOp? at h
    split at h
    · cases h
    · next hne => exact ⟨Comparator.name_of_ofName? h, fun heq => hne (heq ▸ h)⟩
  · rintro ⟨rfl, hne⟩
    cases c with
    | eq => exact absurd rfl hne
    | _ => rfl

/-- The keys that mean something at the top of a filter. -/
def reservedKeys : List Text :=
  "$or" :: "$limit" :: "$skip" :: "$select" :: "$sort" :: Comparator.all.map Comparator.key

/-! ## The walk -/

/-- What one entry of an object below a field contributes. -/
def nestedEntry (path key : Text) (v : Value) : Except QueryError (List Directive) :=
  match directiveName? key with
  | some name =>
    match nestedOp? name with
    | some c => .ok [.comparison (.known c) path v]
    | none => if name == orName then (orGroup v).map ([·]) else .ok []
  | none => fieldDirectives (path ++ byte '.' :: key) v

/-- What one entry of an object of a disjunction contributes. -/
def orEntry (key : Text) (v : Value) : Except QueryError (List Directive) :=
  match directiveName? key with
  | some name => if name == orName then (orGroup v).map ([·]) else .ok []
  | none => fieldDirectives key v

/-- Entries below a field contribute one by one, each under its key. -/
theorem nestedEntries_eq (path : Text) (entries : List (Text × Value)) :
    nestedEntries path entries = entries.map fun e => (e.1, nestedEntry path e.1 e.2) := by
  induction entries with
  | nil => rw [nestedEntries, List.map_nil]
  | cons e rest ih =>
    rw [nestedEntries, ih]
    rfl

/-- Entries in an element of an `$or` contribute one by one, each under its key. -/
theorem orEntries_eq (entries : List (Text × Value)) :
    orEntries entries = entries.map fun e => (e.1, orEntry e.1 e.2) := by
  induction entries with
  | nil => rw [orEntries, List.map_nil]
  | cons e rest ih =>
    rw [orEntries, ih]
    rfl

/-- What the entries of a list contribute together. -/
def contributed (entry : Text → Value → Except QueryError (List Directive))
    (entries : List (Text × Value)) : Except QueryError (List Directive) :=
  Contributions.combine (entries.map fun e => (e.1, entry e.1 e.2))

/-- Sorting the contributions is sorting the entries. -/
theorem combine_sorted_map (entry : Text → Value → Except QueryError (List Directive))
    (entries : List (Text × Value)) :
    Contributions.combine (Contributions.sorted (entries.map fun e => (e.1, entry e.1 e.2)))
      = contributed entry (sortedByKey entries) := by
  exact congrArg Contributions.combine
    (sortByKey_map (fun e : Text × Value => (e.1, entry e.1 e.2)) (fun _ => rfl) entries)

/-- An object below a field contributes what its entries do. Documents are in order, tables are sorted, and
`fields` gives both in the order in which they count. -/
theorem fieldDirectives_of_object {v : Value} (h : v.kind = .object) (path : Text) :
    fieldDirectives path v = contributed (nestedEntry path) v.fields := by
  cases v with
  | doc fields =>
    rw [fieldDirectives, nestedEntries_eq]
    rfl
  | table ty entries =>
    cases ty with
    | numbered => cases h
    | any | texts | counts =>
      rw [fieldDirectives, nestedEntries_eq, combine_sorted_map]
      rfl
  | noTable => rfl
  | ref target => cases target <;> cases h
  | _ => cases h

theorem fieldDirectives_of_not_object {v : Value} (h : v.kind ≠ .object) (path : Text) :
    fieldDirectives path v = .ok [.comparison (.known .eq) path v] := by
  cases v with
  | doc fields => exact absurd rfl h
  | table ty entries =>
    cases ty with
    | numbered => rfl
    | any | texts | counts => exact absurd rfl h
  | noTable => exact absurd rfl h
  | _ => rfl

/-- An object in an `$or` contributes what its entries do, in the order in which they count: documents as
they stand, tables sorted. -/
theorem orElement_of_object {v : Value} (h : v.kind = .object) :
    orElement v = contributed orEntry v.fields := by
  cases v with
  | doc fields =>
    rw [orElement, orEntries_eq]
    rfl
  | table ty entries =>
    cases ty with
    | numbered => cases h
    | any | texts | counts =>
      rw [orElement, orEntries_eq, combine_sorted_map]
      rfl
  | noTable => rfl
  | ref target => cases target <;> cases h
  | _ => cases h

theorem orElement_of_not_object {v : Value} (h : v.kind ≠ .object) : orElement v = .error .orShape := by
  cases v with
  | doc fields => exact absurd rfl h
  | table ty entries =>
    cases ty with
    | numbered => rfl
    | any | texts | counts => exact absurd rfl h
  | noTable => exact absurd rfl h
  | _ => rfl

/-- An `$or` over a list is the group of its elements, one conjunction for each. Lists of all types count.
-/
theorem orGroup_of_array {v : Value} (h : v.kind = .array) :
    orGroup v = (orElements v.elements).map (.logical .or) := by
  cases v with
  | list ty items =>
    rw [orGroup]
    show _ = (orElements items).map _
    cases orElements items <;> rfl
  | table ty entries => cases ty <;> cases h
  | ref target => cases target <;> cases h
  | _ => cases h

theorem orGroup_of_not_array {v : Value} (h : v.kind ≠ .array) : orGroup v = .error .orShape := by
  cases v with
  | list ty items => exact absurd rfl h
  | _ => rfl

/-! ## The fields of a filter -/

/-- The ways in which a field of a filter is read, and what each of them comes to. -/
inductive FieldReading (key : Text) (v : Value) : Except QueryError Contribution → Prop
  | ordinary : directiveName? key = none →
      FieldReading key v ((fieldDirectives key v).map fun ds => ⟨[], ds⟩)
  | group : key = "$or" → FieldReading key v ((orGroup v).map fun d => ⟨[], [d]⟩)
  | limit : key = "$limit" → FieldReading key v (.ok ⟨[.modifier ⟨.limit, v, [], []⟩], []⟩)
  | skip : key = "$skip" → FieldReading key v (.ok ⟨[.modifier ⟨.skip, v, [], []⟩], []⟩)
  | select : key = "$select" →
      FieldReading key v ((selectedFields v).map fun fields => ⟨[.select fields], []⟩)
  | sort : key = "$sort" →
      FieldReading key v ((sortKeys v).map fun keys => ⟨[.modifier ⟨.sort, .null, [], keys⟩], []⟩)
  | comparison (c : Comparator) : key = c.key → FieldReading key v (.error (.rootComparison key))
  | extension (name : Text) : directiveName? key = some name → key ∉ reservedKeys →
      FieldReading key v (.ok ⟨[.extension name v], []⟩)

/-- Every field of a filter falls under one of the cases of `FieldReading`. Proofs about the interpreter
split on these, and not on the text of keys. -/
theorem interpretField_reading (key : Text) (v : Value) :
    FieldReading key v (interpretField key v) := by
  unfold interpretField
  cases hname : directiveName? key with
  | none => exact .ordinary hname
  | some name =>
    obtain rfl := key_of_directiveName? hname
    dsimp only
    split_ifs with hlimit hskip hselect hsort hor
    · exact .limit (congrArg _ (eq_of_beq hlimit))
    · exact .skip (congrArg _ (eq_of_beq hskip))
    · exact .select (congrArg _ (eq_of_beq hselect))
    · exact .sort (congrArg _ (eq_of_beq hsort))
    · exact .group (congrArg _ (eq_of_beq hor))
    · cases hop : Comparator.ofName? name with
      | some c => exact .comparison c (congrArg _ (Comparator.name_of_ofName? hop).symm)
      | none =>
        -- no reserved key is left
        refine .extension name hname fun hmem => ?_
        simp only [reservedKeys, List.mem_cons, List.mem_map] at hmem
        rcases hmem with h | h | h | h | h | ⟨c, -, h⟩
        · exact hor (beq_iff_eq.2 (congrArg List.tail h))
        · exact hlimit (beq_iff_eq.2 (congrArg List.tail h))
        · exact hskip (beq_iff_eq.2 (congrArg List.tail h))
        · exact hselect (beq_iff_eq.2 (congrArg List.tail h))
        · exact hsort (beq_iff_eq.2 (congrArg List.tail h))
        · have hc : c.name = name := congrArg List.tail h
          rw [← hc, Comparator.ofName?_name] at hop
          cases hop

end DocFilter
