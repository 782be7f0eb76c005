import DocFilter.Proofs.JsonText
import DocFilter.Proofs.Numerals
import DocFilter.Proofs.Tables
import DocFilter.Proofs.Truth
import DocFilter.Proofs.WrittenNames
import DocFilter.Rows.Stored

/-!
What storage does to values. A value is written and read back; what comes back is *storable*: its
texts are characters, its numbers are numbers of 64 bits and its tables have distinct names
(`Value.storable_of_returned`). A storable value comes back as it is meant, which is up to the type of
a number or a collection and the order of a table (`Value.returned_of_storable`); but the reader has a
limit on how deep collections stand within each other, which the writer does not have, and what is deeper
does not come back at all. A stored row comes back name by name, under the names that its own are read as
(`Value.returned_table`); what stands under a name of characters always comes back under it
(`Row.get?_of_stored`).
-/

set_option autoImplicit false

namespace DocFilter

open Number (double)

instance (f : Number.Format) (m : Nat) (e : Int) : Decidable (f.Canonical m e) :=
  decidable_of_iff (m < 2 ^ f.precision ∧ f.minExponent ≤ e ∧ e ≤ f.maxExponent ∧
      (2 ^ (f.precision - 1) ≤ m ∨ e = f.minExponent))
    ⟨fun ⟨h₁, h₂, h₃, h₄⟩ => ⟨h₁, h₂, h₃, h₄⟩, fun ⟨h₁, h₂, h₃, h₄⟩ => ⟨h₁, h₂, h₃, h₄⟩⟩

namespace Value

mutual

/-- Whether storage keeps the value: null, booleans, texts that are characters, integers up to
`2 ^ 53`, numbers of 64 bits, lists of these, and tables of these with distinct names. -/
def storable : Value → Bool
  | .null => true
  | .bool _ => true
  | .text t => Text.isUtf8 t
  | .int _ n => n.natAbs ≤ 2 ^ 53
  | .float .double (.finite _ m e) => decide (double.Canonical m e)
  | .list _ items => storableItems items
  | .table _ entries => decide (Row.names entries).Nodup && storableEntries entries
  | _ => false

/-- Whether storage keeps all elements. -/
def storableItems : List Value → Bool
  | [] => true
  | v :: rest => v.storable && storableItems rest

/-- Whether storage keeps all entries. -/
def storableEntries : List (Text × Value) → Bool
  | [] => true
  | (k, v) :: rest => Text.isUtf8 k && v.storable && storableEntries rest

end

mutual

/-- The value as it is meant: a whole number is an integer whatever its type is, and collections have
no type and no order but that of the names. -/
def plain : Value → Value
  | .int _ n => .int .int n
  | .float ty x =>
    match x.integer? with
    | some n => .int .int n
    | none => .float ty x
  | .list _ items => .list .any (plainItems items)
  | .table _ entries => .table .any (sortByKey (·.1) (plainEntries entries))
  | v => v

/-- The elements as they are meant. -/
def plainItems : List Value → List Value
  | [] => []
  | v :: rest => v.plain :: plainItems rest

/-- The entries as they are meant. -/
def plainEntries : List (Text × Value) → List (Text × Value)
  | [] => []
  | (k, v) :: rest => (k, v.plain) :: plainEntries rest

end

mutual

/-- How many collections stand within each other where they do so the most. -/
def depth : Value → Nat
  | .doc fields => depthOfEntries fields + 1
  | .list _ items => depthOfItems items + 1
  | .table _ entries => depthOfEntries entries + 1
  | _ => 0

/-- The depth of the deepest element. -/
def depthOfItems : List Value → Nat
  | [] => 0
  | v :: rest => max v.depth (depthOfItems rest)

/-- The depth of the deepest entry. -/
def depthOfEntries : List (Text × Value) → Nat
  | [] => 0
  | (_, v) :: rest => max v.depth (depthOfEntries rest)

end

/-- What storage makes of a value: it is written on its own and read back. -/
def returned (v : Value) : Option Value := do
  let raw ← v.encode.toOption
  let j ← (Json.read raw).toOption
  j.toValue.toOption

theorem storableItems_iff {items : List Value} :
    storableItems items = true ↔ ∀ v ∈ items, v.storable = true := by
  induction items with
  | nil => simp [storableItems]
  | cons v rest ih => simp [storableItems, ih]

/-- Storage keeps entries exactly if their names are characters and their values are kept; that names are
distinct is asked of the table as a whole. -/
theorem storableEntries_iff {entries : List (Text × Value)} :
    storableEntries entries = true ↔ ∀ e ∈ entries, Text.isUtf8 e.1 = true ∧ e.2.storable = true := by
  induction entries with
  | nil => simp [storableEntries]
  | cons e rest ih => simp [storableEntries, ih]

theorem plainItems_eq (items : List Value) : plainItems items = items.map plain := by
  induction items with
  | nil => rfl
  | cons v rest ih => rw [plainItems, ih, List.map_cons]

theorem plainEntries_eq (entries : List (Text × Value)) :
    plainEntries entries = entries.map fun e => (e.1, e.2.plain) := by
  induction entries with
  | nil => rfl
  | cons e rest ih => rw [plainEntries, ih, List.map_cons]

theorem depthOfItems_le {items : List Value} {n : Nat} :
    depthOfItems items ≤ n ↔ ∀ v ∈ items, v.depth ≤ n := by
  induction items with
  | nil => simp [depthOfItems]
  | cons v rest ih => rw [depthOfItems, Nat.max_le, ih, List.forall_mem_cons]

theorem depthOfEntries_le {entries : List (Text × Value)} {n : Nat} :
    depthOfEntries entries ≤ n ↔ ∀ e ∈ entries, e.2.depth ≤ n := by
  induction entries with
  | nil => simp [depthOfEntries]
  | cons e rest ih => rw [depthOfEntries, Nat.max_le, ih, List.forall_mem_cons]

/-- Whether a value holds no other values. -/
def isScalar : Value → Bool
  | .doc _ | .list _ _ | .table _ _ => false
  | _ => true

/-- Induction over values, with the hypothesis for every member of a collection. -/
@[elab_as_elim]
theorem inductionOn {p : Value → Prop} (v : Value)
    (scalar : ∀ v : Value, v.isScalar = true → p v)
    (doc : ∀ fields, (∀ e ∈ fields, p e.2) → p (.doc fields))
    (list : ∀ ty items, (∀ v ∈ items, p v) → p (.list ty items))
    (table : ∀ ty entries, (∀ e ∈ entries, p e.2) → p (.table ty entries)) : p v := by
  match v with
  | .doc fields => exact doc fields fun e _ => inductionOn e.2 scalar doc list table
  | .list ty items => exact list ty items fun v _ => inductionOn v scalar doc list table
  | .table ty entries => exact table ty entries fun e _ => inductionOn e.2 scalar doc list table
  | .null | .bool _ | .text _ | .int _ _ | .float _ _ | .numeral _ | .label _ | .bytes _ | .time _
  | .ref _ | .noTable => exact scalar _ rfl
termination_by sizeOf v
decreasing_by
  · have h := List.sizeOf_lt_of_mem ‹e ∈ fields›
    cases e
    simp only [Prod.mk.sizeOf_spec, Value.doc.sizeOf_spec] at h ⊢
    omega
  · have h := List.sizeOf_lt_of_mem ‹v ∈ items›
    simp only [Value.list.sizeOf_spec]
    omega
  · have h := List.sizeOf_lt_of_mem ‹e ∈ entries›
    cases e
    simp only [Prod.mk.sizeOf_spec, Value.table.sizeOf_spec] at h ⊢
    omega

end Value

/-- Induction over trees, with the hypothesis for every member of a collection. -/
@[elab_as_elim]
theorem Json.inductionOn {p : Json → Prop} (j : Json)
    (scalar : ∀ j : Json, (∀ items, j ≠ .array items) → (∀ members, j ≠ .object members) → p j)
    (array : ∀ items, (∀ j ∈ items, p j) → p (.array items))
    (object : ∀ members, (∀ m ∈ members, p m.2) → p (.object members)) : p j := by
  match j with
  | .array items => exact array items fun j _ => Json.inductionOn j scalar array object
  | .object members => exact object members fun m _ => Json.inductionOn m.2 scalar array object
  | .null | .bool _ | .number _ | .string _ => exact scalar _ (by simp) (by simp)
termination_by sizeOf j
decreasing_by
  · have h := List.sizeOf_lt_of_mem ‹j ∈ items›
    simp only [Json.array.sizeOf_spec]
    omega
  · have h := List.sizeOf_lt_of_mem ‹m ∈ members›
    cases m
    simp only [Prod.mk.sizeOf_spec, Json.object.sizeOf_spec] at h ⊢
    omega

/-! ## Collections, element by element -/

/-- The tree of a value that can be written. -/
def Value.tree (v : Value) : Json := v.toJson.toOption.getD .null

/-- The value of a tree that can be read. -/
def Json.value (j : Json) : Value := j.toValue.toOption.getD .null

/-- The tree of a value that is written is what it is written as. Naming the tree lets statements on
collections speak of each element. -/
theorem Value.tree_of_toJson {v : Value} {j : Json} (h : v.toJson = .ok j) : v.tree = j := by
  rw [Value.tree, h]
  rfl

/-- The value of a tree that is read is what it is read as. -/
theorem Json.value_of_toValue {j : Json} {v : Value} (h : j.toValue = .ok v) : j.value = v := by
  rw [Json.value, h]
  rfl

/-- A computation that succeeds on every element, when its result can only be one value. So elements can be
dealt with by a function, and the computation is a condition on each of them. -/
theorem mapM_eq_ok_iff {ε α β : Type} {g : α → Except ε β} {f : α → β}
    (hf : ∀ a b, g a = .ok b → f a = b) {as : List α} {bs : List β} :
    as.mapM g = .ok bs ↔ bs = as.map f ∧ ∀ a ∈ as, g a = .ok (f a) := by
  induction as generalizing bs with
  | nil => exact ⟨fun h => ⟨(Except.ok.inj h).symm, nofun⟩, fun h => h.1 ▸ rfl⟩
  | cons a rest ih =>
    rw [List.mapM_cons]
    constructor
    · intro h
      obtain ⟨b, hb, h⟩ := bind_eq_ok h
      obtain ⟨more, hmore, h⟩ := bind_eq_ok h
      obtain rfl := Except.ok.inj h
      obtain ⟨rfl, hrest⟩ := ih.1 hmore
      obtain rfl := hf a b hb
      exact ⟨rfl, List.forall_mem_cons.2 ⟨hb, hrest⟩⟩
    · rintro ⟨rfl, h⟩
      obtain ⟨ha, hrest⟩ := List.forall_mem_cons.1 h
      rw [ha, ih.2 ⟨rfl, hrest⟩]
      rfl

/-- The same for a computation on the second component of every pair. -/
theorem mapM_snd_eq_ok_iff {ε κ α β : Type} {g : α → Except ε β} {f : α → β}
    (hf : ∀ a b, g a = .ok b → f a = b) {as : List (κ × α)} {bs : List (κ × β)} :
    as.mapM (fun e => (g e.2).map (e.1, ·)) = .ok bs ↔
      bs = as.map (fun e => (e.1, f e.2)) ∧ ∀ e ∈ as, g e.2 = .ok (f e.2) := by
  rw [mapM_eq_ok_iff (f := fun e => (e.1, f e.2))]
  · refine and_congr_right fun _ => forall₂_congr fun e _ => ?_
    rw [map_eq_ok_iff]
    exact ⟨fun ⟨b, hb, h⟩ => (Prod.mk.inj h).2 ▸ hb, fun h => ⟨_, h, rfl⟩⟩
  · intro e b h
    obtain ⟨c, hc, rfl⟩ := map_eq_ok_iff.1 h
    rw [hf _ _ hc]

/-- Elements are written exactly if each of them is, and then as the list of their trees. The definition
goes through a list with its own recursion; this is the statement element by element. -/
theorem Value.itemsToJson_ok {items : List Value} {js : List Json} :
    itemsToJson items = .ok js ↔ js = items.map tree ∧ ∀ v ∈ items, v.toJson = .ok v.tree := by
  have hmapM : itemsToJson items = items.mapM toJson := by
    induction items with
    | nil => rfl
    | cons v rest ih => rw [itemsToJson, ih, List.mapM_cons]
  rw [hmapM, mapM_eq_ok_iff fun _ _ => tree_of_toJson]

/-- Entries are written exactly if each value is, under the names that they have. -/
theorem Value.entriesToJson_ok {entries : List (Text × Value)} {ms : List (Text × Json)} :
    entriesToJson entries = .ok ms ↔
      ms = entries.map (fun e => (e.1, e.2.tree)) ∧ ∀ e ∈ entries, e.2.toJson = .ok e.2.tree := by
  have hmapM : entriesToJson entries = entries.mapM fun e => e.2.toJson.map (e.1, ·) := by
    induction entries with
    | nil => rfl
    | cons e rest ih =>
      rw [entriesToJson, ih, List.mapM_cons]
      cases e.2.toJson <;> rfl
  rw [hmapM]
  exact mapM_snd_eq_ok_iff (g := toJson) fun _ _ => tree_of_toJson

theorem mapError_eq_ok {ε δ α : Type} {x : Except ε α} {g : ε → δ} {a : α} :
    x.mapError g = .ok a ↔ x = .ok a := by
  cases x with
  | error e => exact ⟨nofun, nofun⟩
  | ok b => exact ⟨fun h => congrArg _ (Except.ok.inj h), fun h => congrArg _ (Except.ok.inj h)⟩

/-- The fields of a document are written exactly if each value is. The errors name the field and so differ
from those of entries, which is why the recursion is another. -/
theorem Value.fieldsToJson_ok {fields : List (Text × Value)} {ms : List (Text × Json)} :
    fieldsToJson fields = .ok ms ↔
      ms = fields.map (fun e => (e.1, e.2.tree)) ∧ ∀ e ∈ fields, e.2.toJson = .ok e.2.tree := by
  -- the names in the errors make no difference to what succeeds
  rw [← entriesToJson_ok]
  induction fields generalizing ms with
  | nil => exact Iff.rfl
  | cons e rest ih =>
    rw [fieldsToJson, entriesToJson]
    cases e.2.toJson with
    | error e => exact ⟨nofun, nofun⟩
    | ok j =>
      show (fieldsToJson rest).map ((e.1, j) :: ·) = .ok ms
        ↔ (entriesToJson rest).map ((e.1, j) :: ·) = .ok ms
      simp only [map_eq_ok_iff, ih]

theorem Json.toValues_ok {items : List Json} {vs : List Value} :
    toValues items = .ok vs ↔ vs = items.map value ∧ ∀ j ∈ items, j.toValue = .ok j.value := by
  have hmapM : toValues items = items.mapM toValue := by
    induction items with
    | nil => rfl
    | cons j rest ih => rw [toValues, ih, List.mapM_cons]
  rw [hmapM, mapM_eq_ok_iff fun _ _ => value_of_toValue]

/-- Members are read exactly if each value is, under the names that they have; repeated names are merged
only afterwards. -/
theorem Json.toEntries_ok {members : List (Text × Json)} {es : List (Text × Value)} :
    toEntries members = .ok es ↔
      es = members.map (fun m => (m.1, m.2.value)) ∧ ∀ m ∈ members, m.2.toValue = .ok m.2.value := by
  have hmapM : toEntries members = members.mapM fun m => m.2.toValue.map (m.1, ·) := by
    induction members with
    | nil => rfl
    | cons m rest ih =>
      rw [toEntries, ih, List.mapM_cons]
      cases m.2.toValue <;> rfl
  rw [hmapM]
  exact mapM_snd_eq_ok_iff (g := toValue) fun _ _ => value_of_toValue

/-- The numbers of an array have the bytes of numbers exactly if those of its elements have. -/
theorem Json.numericItems_iff {items : List Json} :
    NumericItems items ↔ ∀ j ∈ items, j.Numeric := by
  induction items with
  | nil => simp [NumericItems]
  | cons j rest ih => simp [NumericItems, ih]

/-- The numbers of an object have the bytes of numbers exactly if those of its members have. -/
theorem Json.numericMembers_iff {members : List (Text × Json)} :
    NumericMembers members ↔ ∀ m ∈ members, m.2.Numeric := by
  induction members with
  | nil => simp [NumericMembers]
  | cons m rest ih => simp [NumericMembers, ih]

theorem Json.readableItems_iff {items : List Json} :
    readableItems items = true ↔ ∀ j ∈ items, j.readable = true := by
  induction items with
  | nil => simp [readableItems]
  | cons j rest ih => simp [readableItems, ih]

/-- An object can be read exactly if the values of its members can. -/
theorem Json.readableMembers_iff {members : List (Text × Json)} :
    readableMembers members = true ↔ ∀ m ∈ members, m.2.readable = true := by
  induction members with
  | nil => simp [readableMembers]
  | cons m rest ih => simp [readableMembers, ih]

/-- A written list is the array of its elements' trees, and it is written just if all its elements are. -/
theorem Value.list_toJson_ok {ty : ListType} {items : List Value} {j : Json} :
    (Value.list ty items).toJson = .ok j ↔
      j = .array (items.map tree) ∧ ∀ v ∈ items, v.toJson = .ok v.tree := by
  rw [toJson]
  constructor
  · intro h
    obtain ⟨js, hjs, h⟩ := bind_eq_ok h
    obtain rfl := Except.ok.inj h
    obtain ⟨rfl, hall⟩ := itemsToJson_ok.1 hjs
    exact ⟨rfl, hall⟩
  · rintro ⟨rfl, hall⟩
    rw [itemsToJson_ok.2 ⟨rfl, hall⟩]
    rfl

/-- The members of a written document are its fields in their own order, and it is written just if all its
values are and its members pass the check that only documents make. -/
theorem Value.doc_toJson_ok {fields : List (Text × Value)} {j : Json} :
    (Value.doc fields).toJson = .ok j ↔
      j = .object (fields.map fun e => (e.1, e.2.tree)) ∧
        (∀ e ∈ fields, e.2.toJson = .ok e.2.tree) ∧
          checkMembers (fields.map fun e => (e.1, e.2.tree)) = .ok () := by
  rw [toJson]
  constructor
  · intro h
    obtain ⟨ms, hms, h⟩ := bind_eq_ok h
    obtain ⟨_, hchecked, h⟩ := bind_eq_ok h
    obtain rfl := Except.ok.inj h
    obtain ⟨rfl, hall⟩ := fieldsToJson_ok.1 (mapError_eq_ok.1 hms)
    exact ⟨rfl, hall, mapError_eq_ok.1 hchecked⟩
  · rintro ⟨rfl, hall, hchecked⟩
    rw [mapError_eq_ok.2 (fieldsToJson_ok.2 ⟨rfl, hall⟩)]
    show ((checkMembers (fields.map fun e => (e.1, e.2.tree))).mapError EncodeError.inDocument >>= _) = _
    rw [hchecked]
    rfl

/-- The members of a written table are its entries in the order of their written names, and it is written
just if all its values are. -/
theorem Value.table_toJson_ok {ty : TableType} {entries : List (Text × Value)} {j : Json} :
    (Value.table ty entries).toJson = .ok j ↔
      j = .object ((Json.byWrittenName entries).map fun e => (e.1, e.2.tree)) ∧
        ∀ e ∈ entries, e.2.toJson = .ok e.2.tree := by
  have hsort := Json.byWrittenName_map Value.tree entries
  rw [toJson]
  constructor
  · intro h
    obtain ⟨ms, hms, h⟩ := bind_eq_ok h
    obtain rfl := Except.ok.inj h
    obtain ⟨rfl, hall⟩ := entriesToJson_ok.1 hms
    exact ⟨by rw [hsort], hall⟩
  · rintro ⟨rfl, hall⟩
    rw [entriesToJson_ok.2 ⟨rfl, hall⟩, ← hsort]
    rfl

/-! ## Numbers -/

/-- The bytes that go on with a number are the same for the lexer and for the reader of numerals, who each
have a list of their own. -/
theorem continuesNumber_eq (b : UInt8) : Lexeme.continuesNumber b = isNumberByte b := by
  revert b
  exact Text.forall_byte (by decide +kernel)

/-- A numeral with its sign begins like a number. -/
theorem beginsNumber_signed {t : Text} {d : Number.Decimal} (h : Number.Reads t d) (s : Bool) :
    Json.beginsNumber (if s then Text.byte '-' :: t else t) = true := by
  obtain ⟨c, rest, rfl, hc⟩ := h.head
  cases s
  · show (Text.isDigit (Text.byte c) || _) = true
    rw [(Number.byte_of_digit hc).1, Bool.true_or]
  · rfl

/-- A numeral with a sign in front is still made of the bytes of numbers. -/
theorem numeric_signed {t : Text} (ht : ∀ b ∈ t, isNumberByte b = true) (hne : t ≠ []) (s : Bool) :
    (Json.number (if s then Text.byte '-' :: t else t)).Numeric := by
  have hbytes : ∀ b ∈ (if s then Text.byte '-' :: t else t), isNumberByte b = true := by
    intro b hb
    cases s
    · exact ht b hb
    · rcases List.mem_cons.1 hb with rfl | hb
      · decide
      · exact ht b hb
  refine ⟨?_, fun b hb => (continuesNumber_eq b).trans (hbytes b hb)⟩
  cases s
  · exact hne
  · exact List.cons_ne_nil _ _

theorem numeric_ofInt (n : Int) : (Json.number (Text.ofInt n)).Numeric := by
  have h := numeric_signed (Number.reads_ofNat n.natAbs).numeric (by simp [Text.ofNat]) (decide (n < 0))
  simpa only [Text.ofInt, decide_eq_true_eq] using h

/-- A floating-point number is written with the bytes of numbers, in whatever format and with whatever
exponent. -/
theorem numeric_write (f : Number.Format) (s : Bool) (m : Nat) (e : Int) :
    (Json.number (Number.Layout.interchange.write f (.finite s m e))).Numeric := by
  obtain ⟨hne, hnumeric⟩ := Number.Layout.interchange.body_numeric f m e
  exact numeric_signed hnumeric hne s

/-- A kept numeral is written as a number, and in particular as no collection. -/
theorem numeralJson_number {t : Text} {j : Json} (h : numeralJson t = .ok j) :
    ∃ literal, j = .number literal := by
  unfold numeralJson at h
  split at h
  · exact ⟨_, (Except.ok.inj h).symm⟩
  · split at h
    · exact ⟨_, (Except.ok.inj h).symm⟩
    · cases h

/-- A kept numeral is checked byte by byte before it is written. That its bytes also make up a number in
their order is not checked. -/
theorem numeric_numeralJson {t : Text} {j : Json} (h : numeralJson t = .ok j) : j.Numeric := by
  unfold numeralJson at h
  split at h
  · obtain rfl := Except.ok.inj h
    exact ⟨by decide, List.forall_mem_singleton.2 (by decide)⟩
  · next hne =>
    split at h
    · next hall =>
      obtain rfl := Except.ok.inj h
      refine ⟨by simpa using hne, fun b hb => ?_⟩
      rw [continuesNumber_eq]
      exact List.all_eq_true.1 hall b hb
    · cases h

/-- Every number that is written consists of the bytes of numbers: digits of integers, floating-point
numbers in the layout for interchange, and numerals that were checked. The induction is on the value. -/
theorem Value.numeric_toJson (v : Value) : ∀ {j : Json}, v.toJson = .ok j → j.Numeric := by
  induction v using Value.inductionOn with
  | scalar v hv =>
    intro j h
    cases v with
    | int ty n => exact Except.ok.inj h ▸ numeric_ofInt n
    | float ty x =>
      cases x with
      | finite s m e => exact Except.ok.inj h ▸ numeric_write ty.format s m e
      | nan => cases h
      | infinite s => cases h
    | numeral t => exact numeric_numeralJson h
    | ref target =>
      cases target with
      | none => exact Except.ok.inj h ▸ trivial
      | some n => exact Except.ok.inj h ▸ numeric_ofInt n
    | doc fields => cases hv
    | list ty items => cases hv
    | table ty entries => cases hv
    | _ => exact Except.ok.inj h ▸ trivial
  | doc fields ih =>
    intro j h
    obtain ⟨rfl, hall, -⟩ := doc_toJson_ok.1 h
    refine Json.numericMembers_iff.2 fun m hm => ?_
    obtain ⟨e, he, rfl⟩ := List.mem_map.1 hm
    exact ih e he (hall e he)
  | list ty items ih =>
    intro j h
    obtain ⟨rfl, hall⟩ := list_toJson_ok.1 h
    refine Json.numericItems_iff.2 fun j hj => ?_
    obtain ⟨v, hv, rfl⟩ := List.mem_map.1 hj
    exact ih v hv (hall v hv)
  | table ty entries ih =>
    intro j h
    -- the members stand in another order than the entries, but are the same
    obtain ⟨rfl, hall⟩ := table_toJson_ok.1 h
    refine Json.numericMembers_iff.2 fun m hm => ?_
    obtain ⟨e, he, rfl⟩ := List.mem_map.1 hm
    have he := (Json.byWrittenName_perm entries).mem_iff.1 he
    exact ih e he (hall e he)

/-! ## How deep collections stand -/

/-- A value is written as deep as it is: lists and tables become arrays and objects, and nothing else has a
depth. The induction is on the value. -/
theorem Value.depth_of_toJson (v : Value) : ∀ {j : Json}, v.toJson = .ok j → j.depth = v.depth := by
  induction v using Value.inductionOn with
  | scalar v hv =>
    intro j h
    cases v with
    | float ty x =>
      cases x with
      | finite s m e => exact Except.ok.inj h ▸ rfl
      | nan => cases h
      | infinite s => cases h
    | numeral t =>
      obtain ⟨literal, rfl⟩ := numeralJson_number h
      rfl
    | ref target => cases target <;> exact Except.ok.inj h ▸ rfl
    | doc fields => cases hv
    | list ty items => cases hv
    | table ty entries => cases hv
    | _ => exact Except.ok.inj h ▸ rfl
  | doc fields ih =>
    intro j h
    obtain ⟨rfl, hall, -⟩ := doc_toJson_ok.1 h
    refine congrArg (· + 1) (eq_of_forall_ge_iff fun n => ?_)
    rw [Json.depthOfMembers_le, depthOfEntries_le, List.forall_mem_map]
    exact forall₂_congr fun e he => by rw [ih e he (hall e he)]
  | list ty items ih =>
    intro j h
    obtain ⟨rfl, hall⟩ := list_toJson_ok.1 h
    refine congrArg (· + 1) (eq_of_forall_ge_iff fun n => ?_)
    rw [Json.depthOfItems_le, depthOfItems_le, List.forall_mem_map]
    exact forall₂_congr fun v hv => by rw [ih v hv (hall v hv)]
  | table ty entries ih =>
    intro j h
    obtain ⟨rfl, hall⟩ := table_toJson_ok.1 h
    -- the order of the members makes no difference
    have hperm := Json.byWrittenName_perm entries
    refine congrArg (· + 1) (eq_of_forall_ge_iff fun n => ?_)
    rw [Json.depthOfMembers_le, depthOfEntries_le, List.forall_mem_map]
    refine forall_congr' fun e => ?_
    rw [hperm.mem_iff]
    exact forall_congr' fun he => by rw [ih e he (hall e he)]

/-- A tree is read no deeper than it is. It may be read as less deep: of two members with one name only the
later is kept. -/
theorem Json.depth_of_toValue (j : Json) : ∀ {v : Value}, j.toValue = .ok v → v.depth ≤ j.depth := by
  induction j using Json.inductionOn with
  | scalar j harray hobject =>
    intro v h
    cases j with
    | null | bool b | string t => exact Except.ok.inj h ▸ Nat.le_refl _
    | number literal =>
      rw [toValue] at h
      split at h
      · exact Except.ok.inj h ▸ Nat.le_refl _
      · cases h
    | array items => exact absurd rfl (harray items)
    | object members => exact absurd rfl (hobject members)
  | array items ih =>
    intro v h
    rw [toValue] at h
    obtain ⟨vs, hvs, h⟩ := bind_eq_ok h
    obtain rfl := Except.ok.inj h
    obtain ⟨rfl, hall⟩ := toValues_ok.1 hvs
    refine Nat.succ_le_succ (Value.depthOfItems_le.2 (List.forall_mem_map.2 fun j hj => ?_))
    exact (ih j hj (hall j hj)).trans (depthOfItems_le.1 (Nat.le_refl _) j hj)
  | object members ih =>
    intro v h
    rw [toValue] at h
    obtain ⟨es, hes, h⟩ := bind_eq_ok h
    obtain rfl := Except.ok.inj h
    obtain ⟨rfl, hall⟩ := toEntries_ok.1 hes
    -- an entry of the row is one of the members
    refine Nat.succ_le_succ (Value.depthOfEntries_le.2 fun e he => ?_)
    obtain ⟨m, hm, rfl⟩ := List.mem_map.1 ((Row.mem_merge he).resolve_left nofun)
    exact (ih m hm (hall m hm)).trans (depthOfMembers_le.1 (Nat.le_refl _) m hm)

/-! ## What comes back -/

/-- A computation gives a value as an option exactly if it succeeds with it. -/
theorem toOption_eq_some_iff {ε α : Type} {x : Except ε α} {a : α} :
    x.toOption = some a ↔ x = .ok a := by
  cases x with
  | error e => exact ⟨nofun, nofun⟩
  | ok b => exact ⟨fun h => congrArg _ (Option.some.inj h), fun h => congrArg _ (Except.ok.inj h)⟩

/-- What comes back of a value that is written: the value of its repaired tree, provided that the tree can
be read and is not too deep. -/
theorem Value.returned_of_toJson {v : Value} {j : Json} (h : v.toJson = .ok j) :
    v.returned =
      if j.readable ∧ j.depth ≤ Json.maxDepth then j.repaired.toValue.toOption else none := by
  have hencode : v.encode = .ok j.compact := by
    unfold encode
    rw [h]
    rfl
  unfold returned
  rw [hencode]
  show (Json.read j.compact).toOption.bind _ = _
  rw [Json.read_compact (v.numeric_toJson h)]
  split <;> rfl

/-- A value comes back as another one exactly if it is written, its tree can be read and is not too deep,
and the repaired tree has the other value. All statements on storage go through these four. -/
theorem Value.returned_eq_some_iff {v w : Value} :
    v.returned = some w ↔
      v.toJson = .ok v.tree ∧ v.tree.readable = true ∧ v.depth ≤ Json.maxDepth ∧
        v.tree.repaired.toValue = .ok w := by
  cases hj : v.toJson with
  | error e =>
    have : v.returned = none := by
      unfold returned encode
      rw [hj]
      rfl
    rw [this]
    exact ⟨nofun, nofun⟩
  | ok j =>
    -- the tree has the depth of the value, so the limit can be put on either
    rw [returned_of_toJson hj, tree_of_toJson hj, v.depth_of_toJson hj]
    split
    · next h => exact toOption_eq_some_iff.trans ⟨fun hw => ⟨rfl, h.1, h.2, hw⟩, fun hw => hw.2.2.2⟩
    · next h => exact ⟨nofun, fun hw => absurd ⟨hw.2.1, hw.2.2.1⟩ h⟩

/-- The value of a number, if it has one, is a number of 64 bits: finite, canonical, and what its text is
read as. The type that was written is not kept. -/
theorem Json.toValue_number {literal : Text} (hnumeric : (number literal).Numeric) {v : Value}
    (h : (number literal).toValue = .ok v) :
    ∃ s m e, double.Canonical m e ∧ Number.readBinary double literal = .ok (.finite s m e) ∧
      v = .float .double (.finite s m e) := by
  rw [toValue] at h
  cases hread : Number.readBinary double literal with
  | error e =>
    rw [hread] at h
    cases h
  | ok x =>
    rw [hread] at h
    have hbytes : ∀ b ∈ literal, isNumberByte b = true :=
      fun b hb => (continuesNumber_eq b).symm.trans (hnumeric.2 b hb)
    obtain ⟨s, m, e, rfl, hc⟩ := Number.canonical_of_readBinary Number.double_modest hbytes hread
    exact ⟨s, m, e, hc, rfl, (Except.ok.inj h).symm⟩

/-- The value of a repaired tree is storable: its texts are characters, its numbers are canonical, and its
names are distinct. So a second trip through storage changes nothing. -/
theorem Json.storable_of_toValue (j : Json) : j.Numeric → ∀ {w : Value}, j.repaired.toValue = .ok w →
    w.storable = true := by
  induction j using Json.inductionOn with
  | scalar j harray hobject =>
    intro hj w h
    cases j with
    | null => exact Except.ok.inj h ▸ rfl
    | bool b => exact Except.ok.inj h ▸ rfl
    | string t => exact Except.ok.inj h ▸ Text.isUtf8_repaired t
    | number literal =>
      obtain ⟨s, m, e, hc, -, rfl⟩ := toValue_number hj h
      exact decide_eq_true hc
    | array items => exact absurd rfl (harray items)
    | object members => exact absurd rfl (hobject members)
  | array items ih =>
    intro hj w h
    rw [repaired, repairedItems_eq, toValue] at h
    obtain ⟨vs, hvs, h⟩ := bind_eq_ok h
    obtain rfl := Except.ok.inj h
    obtain ⟨rfl, hall⟩ := toValues_ok.1 hvs
    refine Value.storableItems_iff.2 fun v hv => ?_
    obtain ⟨j', hj', rfl⟩ := List.mem_map.1 hv
    obtain ⟨i, hi, rfl⟩ := List.mem_map.1 hj'
    exact ih i hi (numericItems_iff.1 hj i hi) (hall _ hj')
  | object members ih =>
    intro hj w h
    rw [repaired, repairedMembers_eq, toValue] at h
    obtain ⟨es, hes, h⟩ := bind_eq_ok h
    obtain rfl := Except.ok.inj h
    obtain ⟨rfl, hall⟩ := toEntries_ok.1 hes
    show (decide _ && _) = true
    rw [Bool.and_eq_true, decide_eq_true_iff, Value.storableEntries_iff]
    -- of members with one name the last is kept, so names are distinct and each entry is one of the members
    refine ⟨Row.nodup_ofList _, fun e he => ?_⟩
    obtain ⟨m', hm', rfl⟩ := List.mem_map.1 ((Row.mem_merge he).resolve_left nofun)
    obtain ⟨m, hm, rfl⟩ := List.mem_map.1 hm'
    exact ⟨Text.isUtf8_repaired m.1, ih m hm (numericMembers_iff.1 hj m hm) (hall _ hm')⟩

/-- **What comes back is storable.** -/
theorem Value.storable_of_returned {v w : Value} (h : v.returned = some w) : w.storable = true := by
  obtain ⟨hjson, -, -, hvalue⟩ := returned_eq_some_iff.1 h
  exact v.tree.storable_of_toValue (v.numeric_toJson hjson) hvalue

/-- What comes back is no deeper than what was stored. -/
theorem Value.depth_of_returned {v w : Value} (h : v.returned = some w) :
    w.depth ≤ v.depth ∧ v.depth ≤ Json.maxDepth := by
  obtain ⟨hjson, -, hdepth, hvalue⟩ := returned_eq_some_iff.1 h
  refine ⟨?_, hdepth⟩
  calc w.depth ≤ v.tree.repaired.depth := v.tree.repaired.depth_of_toValue hvalue
    _ = v.depth := by rw [Json.depth_repaired, v.depth_of_toJson hjson]

/-! ## What is kept -/

/-- The tree of a value is written, read back as it is, and has the value as it is meant. -/
structure Value.Kept (v : Value) : Prop where
  written : v.toJson = .ok v.tree
  readable : v.tree.readable = true
  repaired : v.tree.repaired = v.tree
  read : v.tree.toValue = .ok v.tree.value
  plain : v.tree.value.plain = v.plain

/-- A value is kept if some tree is what it is written as, and this tree has the four properties. It spares
the proofs below from naming the tree of the value. -/
theorem Value.Kept.of_tree {v w : Value} {j : Json} (hwritten : v.toJson = .ok j)
    (hreadable : j.readable = true) (hrepaired : j.repaired = j) (hread : j.toValue = .ok w)
    (hplain : w.plain = v.plain) : v.Kept := by
  obtain rfl := tree_of_toJson hwritten
  obtain rfl := Json.value_of_toValue hread
  exact ⟨hwritten, hreadable, hrepaired, hread, hplain⟩

/-- Integers up to `2 ^ 53` are kept: their numeral is read as the number of 64 bits that they are, and this
is whole again. -/
theorem Value.kept_int {n : Int} (ty : IntType) (hn : n.natAbs ≤ 2 ^ 53) : (Value.int ty n).Kept := by
  refine .of_tree rfl ?_ rfl (w := .float .double (double.ofInt n)) ?_ ?_
  · have h := beginsNumber_signed (Number.reads_ofNat n.natAbs) (decide (n < 0))
    simpa only [Json.readable, Text.ofInt, decide_eq_true_eq] using h
  · rw [Json.toValue, Number.readBinary_ofInt hn]
  · show (match (double.ofInt n).integer? with
      | some n => Value.int .int n
      | none => .float .double (double.ofInt n)) = _
    rw [Number.integer?_ofInt hn]
    rfl

/-- Numbers of 64 bits are kept, since the shortest numeral of such a number is read as the number. -/
theorem Value.kept_float {s : Bool} {m : Nat} {e : Int} (hc : double.Canonical m e) :
    (Value.float .double (.finite s m e)).Kept := by
  have hread := Number.readBinary_write Number.double_modest Number.Layout.interchange s hc
  refine .of_tree rfl ?_ rfl (w := .float .double (.finite s m e)) ?_ rfl
  · exact beginsNumber_signed (Number.Layout.interchange.body_reads Number.double_modest hc) s
  · rw [Json.toValue]
    dsimp only [FloatType.format]
    rw [hread]

/-- A table is kept if its names are distinct characters and its values are kept. It is written in the order
of its written names and comes back in it; as a table is meant, the order counts for nothing. -/
theorem Value.kept_table {ty : TableType} {entries : List (Text × Value)}
    (hnodup : (Row.names entries).Nodup)
    (hentries : ∀ e ∈ entries, Text.isUtf8 e.1 = true ∧ e.2.Kept) : (Value.table ty entries).Kept := by
  have hperm := Json.byWrittenName_perm entries
  have hsorted : ∀ e ∈ Json.byWrittenName entries, Text.isUtf8 e.1 = true ∧ e.2.Kept :=
    fun e he => hentries e (hperm.mem_iff.1 he)
  have hdistinct : (Row.names (Json.byWrittenName entries)).Nodup := (Row.names_perm hperm).nodup_iff.2 hnodup
  have hnames : (Row.names ((Json.byWrittenName entries).map fun e => (e.1, e.2.tree.value))).Nodup := by
    have : Row.names ((Json.byWrittenName entries).map fun e => (e.1, e.2.tree.value))
        = Row.names (Json.byWrittenName entries) := List.map_map
    rw [this]
    exact hdistinct
  refine .of_tree (table_toJson_ok.2 ⟨rfl, fun e he => (hentries e he).2.written⟩) ?_ ?_
    (w := .table .any ((Json.byWrittenName entries).map fun e => (e.1, e.2.tree.value))) ?_ ?_
  · refine Json.readableMembers_iff.2 fun m hm => ?_
    obtain ⟨e, he, rfl⟩ := List.mem_map.1 hm
    exact (hsorted e he).2.readable
  · rw [Json.repaired, Json.repairedMembers_eq, List.map_map]
    congr 1
    refine List.map_congr_left fun e he => ?_
    show (Text.repaired e.1, e.2.tree.repaired) = (e.1, e.2.tree)
    rw [Text.repaired_of_isUtf8 (hsorted e he).1, (hsorted e he).2.repaired]
  · have hentries' : Json.toEntries ((Json.byWrittenName entries).map fun e => (e.1, e.2.tree))
        = .ok ((Json.byWrittenName entries).map fun e => (e.1, e.2.tree.value)) := by
      refine Json.toEntries_ok.2 ⟨by rw [List.map_map]; rfl, fun m hm => ?_⟩
      obtain ⟨e, he, rfl⟩ := List.mem_map.1 hm
      exact (hsorted e he).2.read
    rw [Json.toValue, hentries']
    show Except.ok (Value.table .any (Row.ofList _)) = _
    rw [Row.ofList_of_nodup hnames]
  · -- the entries come back in the written order, and as they are meant they have one order only
    rw [plain, plain, plainEntries_eq, plainEntries_eq, List.map_map]
    have hmap : ((Json.byWrittenName entries).map
        ((fun e : Text × Value => (e.1, e.2.plain)) ∘ fun e => (e.1, e.2.tree.value)))
        = (Json.byWrittenName entries).map fun e => (e.1, e.2.plain) :=
      List.map_congr_left fun e he => congrArg _ (hsorted e he).2.plain
    rw [hmap, sortByKey_map (fun e : Text × Value => (e.1, e.2.plain)) (fun _ => rfl),
      sortByKey_map (fun e : Text × Value => (e.1, e.2.plain)) (fun _ => rfl),
      sortByKey_eq_of_perm hdistinct hperm]

/-- **Storable values are kept**: they are written, can be read, and come back as themselves up to the types
of collections and integers. The induction is on the value. -/
theorem Value.kept_of_storable (v : Value) : v.storable = true → v.Kept := by
  induction v using Value.inductionOn with
  | scalar v hv =>
    intro h
    cases v with
    | null => exact .of_tree rfl rfl rfl rfl rfl
    | bool b => exact .of_tree rfl rfl rfl rfl rfl
    | text t => exact .of_tree rfl rfl (congrArg _ (Text.repaired_of_isUtf8 h)) rfl rfl
    | int ty n => exact kept_int ty (of_decide_eq_true h)
    | float ty x =>
      cases ty with
      | single => cases x <;> cases h
      | double =>
        cases x with
        | finite s m e => exact kept_float (of_decide_eq_true h)
        | nan => cases h
        | infinite s => cases h
    | doc fields => cases hv
    | list ty items => cases hv
    | table ty entries => cases hv
    | _ => cases h
  | doc fields _ => exact nofun
  | list ty items ih =>
    intro h
    have hkept : ∀ v ∈ items, v.Kept := fun v hv => ih v hv (storableItems_iff.1 h v hv)
    -- written, readable, without repairs, read as a list, and the same list but for its type
    refine .of_tree (j := .array (items.map tree)) ?_ ?_ ?_ (w := .list .any (items.map (·.tree.value))) ?_ ?_
    · exact list_toJson_ok.2 ⟨rfl, fun v hv => (hkept v hv).written⟩
    · refine Json.readableItems_iff.2 fun j hj => ?_
      obtain ⟨v, hv, rfl⟩ := List.mem_map.1 hj
      exact (hkept v hv).readable
    · rw [Json.repaired, Json.repairedItems_eq, List.map_map]
      exact congrArg _ (List.map_congr_left fun v hv => (hkept v hv).repaired)
    · have hvalues : Json.toValues (items.map tree) = .ok (items.map (·.tree.value)) := by
        refine Json.toValues_ok.2 ⟨by rw [List.map_map]; rfl, fun j hj => ?_⟩
        obtain ⟨v, hv, rfl⟩ := List.mem_map.1 hj
        exact (hkept v hv).read
      rw [Json.toValue, hvalues]
      rfl
    · rw [plain, plain, plainItems_eq, plainItems_eq, List.map_map]
      exact congrArg _ (List.map_congr_left fun v hv => (hkept v hv).plain)
  | table ty entries ih =>
    intro h
    rw [storable, Bool.and_eq_true, decide_eq_true_iff, storableEntries_iff] at h
    exact kept_table h.1 fun e he => ⟨(h.2 e he).1, ih e he (h.2 e he).2⟩

/-- **A storable value comes back as it is meant**, if its collections do not stand too deep. -/
theorem Value.returned_of_storable {v : Value} (h : v.storable = true) (hdepth : v.depth ≤ Json.maxDepth) :
    ∃ w, v.returned = some w ∧ w.plain = v.plain := by
  have hkept := v.kept_of_storable h
  refine ⟨v.tree.value, returned_eq_some_iff.2 ⟨hkept.written, hkept.readable, hdepth, ?_⟩, hkept.plain⟩
  rw [hkept.repaired]
  exact hkept.read

/-- If a storable value comes back at all, it does so as it is meant. -/
theorem Value.plain_of_returned {v w : Value} (hv : v.storable = true) (h : v.returned = some w) :
    w.plain = v.plain := by
  obtain ⟨w', hw', hplain⟩ := returned_of_storable hv (depth_of_returned h).2
  obtain rfl := Option.some.inj (hw'.symm.trans h)
  exact hplain

/-! ## Rows -/

/-- A table comes back name by name: under each name there is what comes back of the value that is stored
under it, and nothing in the table is lost on the way. -/
theorem Value.returned_table {ty : TableType} {entries : List (Text × Value)} {w : Value}
    (h : (Value.table ty entries).returned = some w) :
    ∃ row, w = .table .any row ∧
      (∀ name, Row.get? row name = (lastNamed? (Row.renamed entries) name).bind Value.returned) ∧
      ∀ e ∈ entries, ∃ u, e.2.returned = some u := by
  obtain ⟨hjson, hreadable, hdepth, hvalue⟩ := returned_eq_some_iff.1 h
  obtain ⟨htree, hwritten⟩ := table_toJson_ok.1 hjson
  have hperm := Json.byWrittenName_perm entries
  rw [htree] at hreadable hvalue
  rw [Json.repaired, Json.repairedMembers_eq, List.map_map, Json.toValue] at hvalue
  obtain ⟨es, hes, hvalue⟩ := bind_eq_ok hvalue
  obtain rfl := Except.ok.inj hvalue
  obtain ⟨rfl, hread⟩ := Json.toEntries_ok.1 hes
  -- each value comes back on its own as it does in the table
  have hback : ∀ e ∈ entries, e.2.returned = some e.2.tree.repaired.value := by
    intro e he
    have he' := hperm.mem_iff.2 he
    refine returned_eq_some_iff.2 ⟨hwritten e he, ?_, ?_, ?_⟩
    · exact Json.readableMembers_iff.1 hreadable (e.1, e.2.tree) (List.mem_map.2 ⟨e, he', rfl⟩)
    · exact (depthOfEntries_le.1 (Nat.le_of_succ_le hdepth) e he)
    · exact hread (Text.repaired e.1, e.2.tree.repaired) (List.mem_map.2 ⟨e, he', rfl⟩)
  have hrow : ((Json.byWrittenName entries).map
        ((fun m : Text × Json => (Text.repaired m.1, m.2.repaired)) ∘ fun e => (e.1, e.2.tree))).map
          (fun m => (m.1, m.2.value))
      = (Row.renamed entries).map fun e => (e.1, e.2.tree.repaired.value) := by
    rw [Row.renamed, List.map_map, List.map_map]
    rfl
  refine ⟨_, rfl, fun name => ?_, fun e he => ⟨_, hback e he⟩⟩
  rw [hrow, Row.get?_ofList, lastNamed?_map fun v : Value => v.tree.repaired.value]
  cases hlast : lastNamed? (Row.renamed entries) name with
  | none => rfl
  | some v =>
    obtain ⟨k, hk, -⟩ := Row.mem_renamed (mem_of_lastNamed? hlast)
    exact (hback (k, v) hk).symm

namespace Row

/-- A row is not too deep exactly if each of its values leaves room for the row. -/
theorem depth_le_iff {row : Row} :
    (Value.table .any row).depth ≤ Json.maxDepth ↔ ∀ e ∈ row, e.2.depth < Json.maxDepth := by
  have hmax : Json.maxDepth = 9999 + 1 := rfl
  rw [Value.depth, hmax, Nat.add_le_add_iff_right, Value.depthOfEntries_le]
  exact forall₂_congr fun _ _ => Nat.lt_succ_iff.symm

/-- Whether storage keeps the row: it keeps the values, and none of them is so deep that it is too deep
in the row. -/
def storable (row : Row) : Bool :=
  (Value.table .any row).storable && decide ((Value.table .any row).depth ≤ Json.maxDepth)

/-- Storage keeps a row exactly if its names are distinct characters, and its values are kept and not too
deep. -/
theorem storable_iff {row : Row} :
    row.storable = true ↔ row.names.Nodup ∧
      ∀ e ∈ row, Text.isUtf8 e.1 = true ∧ e.2.storable = true ∧ e.2.depth < Json.maxDepth := by
  rw [Row.storable, Value.storable, Bool.and_eq_true, Bool.and_eq_true, decide_eq_true_iff,
    decide_eq_true_iff, Value.storableEntries_iff, depth_le_iff]
  simp only [and_assoc, forall_and]

/-- A row is written if all its values are. -/
theorem encode_of_written {row : Row} (h : ∀ e ∈ row, e.2.toJson = .ok e.2.tree) :
    Row.encode (some row) = .ok (Value.table .any row).tree.compact := by
  have hjson : (Value.table .any row).toJson = .ok _ := Value.table_toJson_ok.2 ⟨rfl, h⟩
  have hencode : (Value.table .any row).encode = .ok (Value.table .any row).tree.compact := by
    rw [Value.tree_of_toJson hjson, Value.encode, hjson]
    rfl
  exact mapError_eq_ok.2 hencode

/-- A stored row is read as the table that comes back. In particular it is never read as no row, although
the text of null would be. -/
theorem decode_of_encode {row : Row} {raw : Text} (h : Row.encode (some row) = .ok raw) {r : Option Row} :
    Row.decode raw = .ok r ↔
      ∃ row', r = some row' ∧ (Value.table .any row).returned = some (.table .any row') := by
  obtain ⟨j, hj, hraw⟩ := bind_eq_ok (mapError_eq_ok.1 h : (Value.table .any row).encode = .ok raw)
  obtain rfl := Except.ok.inj hraw
  -- a row is written as an object, so what is read is no null
  obtain ⟨ms, rfl⟩ : ∃ ms, j = .object ms := ⟨_, (Value.table_toJson_ok.1 hj).1⟩
  unfold Row.decode
  rw [mapError_eq_ok, Json.read_compact (Value.numeric_toJson _ hj), Value.returned_of_toJson hj]
  by_cases hread : (Json.object ms).readable ∧ (Json.object ms).depth ≤ Json.maxDepth
  · rw [if_pos hread, if_pos hread, Json.repaired]
    show Json.toRow (.object _) = _ ↔ _
    rw [Json.toRow, Json.toValue]
    cases Json.toEntries (Json.repairedMembers ms) with
    | error e => exact ⟨nofun, fun ⟨_, _, h⟩ => by cases h⟩
    | ok es =>
      show Except.ok (some (Row.ofList es)) = _ ↔
        ∃ row', _ ∧ some (Value.table .any (Row.ofList es)) = some (.table .any row')
      constructor
      · intro hr
        exact ⟨_, (Except.ok.inj hr).symm, rfl⟩
      · rintro ⟨row', rfl, h⟩
        cases h
        rfl
  · rw [if_neg hread, if_neg hread]
    exact ⟨nofun, fun ⟨_, _, h⟩ => by cases h⟩

/-- The names of a row that is read are distinct: of members with one name the last is kept, in the place of
the first. -/
theorem nodup_of_decode {raw : Text} {row : Row} (h : Row.decode raw = .ok (some row)) :
    row.names.Nodup := by
  obtain ⟨j, -, hrow⟩ := bind_eq_ok (mapError_eq_ok.1 h : (Json.read raw).bind Json.toRow = .ok (some row))
  cases j with
  | object members =>
    obtain ⟨es, -, hes⟩ := bind_eq_ok hrow
    obtain rfl := Option.some.inj (Except.ok.inj hes)
    exact nodup_ofList es
  | _ => cases hrow

/-- A row that comes back can be stored again. -/
theorem storable_of_returned {row row' : Row}
    (h : (Value.table .any row).returned = some (.table .any row')) : row'.storable = true := by
  rw [storable, Bool.and_eq_true, decide_eq_true_iff]
  obtain ⟨hle, hdepth⟩ := Value.depth_of_returned h
  exact ⟨Value.storable_of_returned h, hle.trans hdepth⟩

/-- **What comes back of a stored row.** The row that is read is storable, and under every name that
consists of characters there is what comes back of the value that the row has under it. -/
theorem get?_of_stored {row : Row} {raw : Text} (hnodup : row.names.Nodup)
    (hencode : Row.encode (some row) = .ok raw) {r : Option Row} (hdecode : Row.decode raw = .ok r) :
    ∃ row', r = some row' ∧ row'.storable = true ∧
      ∀ name v, Text.isUtf8 name = true → row.get? name = some v →
        ∃ u, v.returned = some u ∧ row'.get? name = some u := by
  obtain ⟨row', rfl, hreturned⟩ := (decode_of_encode hencode).1 hdecode
  obtain ⟨row'', hrow, hget, hall⟩ := Value.returned_table hreturned
  cases hrow
  refine ⟨row', rfl, storable_of_returned hreturned, fun name v hname hv => ?_⟩
  obtain ⟨u, hu⟩ := hall (name, v) (mem_of_get? hv)
  refine ⟨u, hu, ?_⟩
  rw [hget, lastNamed?_renamed hnodup hname hv]
  exact hu

/-- **A storable row comes back as it is meant**: it is encoded and decoded, and has the same values under
the same names up to types. What comes back is storable again. -/
theorem stored_of_storable {row : Row} (h : row.storable = true) :
    ∃ raw row', Row.encode (some row) = .ok raw ∧ Row.decode raw = .ok (some row') ∧
      row'.storable = true ∧
      ∀ name, (row'.get? name).map Value.plain = (row.get? name).map Value.plain := by
  obtain ⟨hnodup, hentries⟩ := storable_iff.1 h
  have hnames : ∀ name ∈ row.names, Text.isUtf8 name = true := by
    intro name hname
    obtain ⟨e, he, rfl⟩ := List.mem_map.1 hname
    exact (hentries e he).1
  rw [storable, Bool.and_eq_true, decide_eq_true_iff] at h
  have hencode := encode_of_written fun e he => (e.2.kept_of_storable (hentries e he).2.1).written
  -- the table comes back as a whole, and then name by name
  obtain ⟨w, hw, -⟩ := Value.returned_of_storable h.1 h.2
  obtain ⟨row', rfl, hget, -⟩ := Value.returned_table hw
  refine ⟨_, row', hencode, (decode_of_encode hencode).2 ⟨row', rfl, hw⟩,
    storable_of_returned hw, fun name => ?_⟩
  rw [hget, lastNamed?_renamed_of_characters hnodup hnames]
  cases hv : row.get? name with
  | none => rfl
  | some v =>
    obtain ⟨-, hkeeps, hdepth⟩ := hentries _ (mem_of_get? hv)
    obtain ⟨u, hu, hplain⟩ := Value.returned_of_storable hkeeps hdepth.le
    show (v.returned).map _ = some v.plain
    rw [hu, ← hplain]
    rfl

end Row
end DocFilter
