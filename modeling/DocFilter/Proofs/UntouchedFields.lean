import DocFilter.Proofs.FailedWrites
import DocFilter.Proofs.FewDigits
import DocFilter.Proofs.StrictReading

/-!
What a patch leaves alone. A patch reads the whole document, puts its fields into it and writes all of it
again, so that every field it does not name goes through a reading and a writing too. Main result
(`Service.patch_untouched`): no field is lost and none appears that was not asked for, and an untouched
field keeps its words, its texts and its shape; but every number in it is written anew, as the shortest
decimal of the number of 64 bits that it is read as. So the field has its old value exactly if all its
numbers are exact.

Objects are compared name by name, and of several members with one name the last one counts
(`lastNamed?`). Two trees that differ in the texts of their numbers only are `Json.Alike`.
-/

set_option autoImplicit false

namespace DocFilter

open Number (decimalValue double Exact Rewritten Short)
open Service (typeField)
open Text (byte)

theorem Text.repaired_eq_self_iff {t : Text} : repaired t = t ↔ isUtf8 t = true :=
  ⟨fun h => h ▸ isUtf8_repaired t, repaired_of_isUtf8⟩

namespace Row

/-- The names of a merged row are those of the two rows. -/
theorem mem_names_merge {row changes : Row} {name : Text} :
    name ∈ (row.merge changes).names ↔ name ∈ row.names ∨ name ∈ changes.names := by
  induction changes generalizing row with
  | nil => exact (or_iff_left List.not_mem_nil).symm
  | cons e changes ih =>
    rw [merge_cons, ih, mem_names_set]
    show _ ↔ _ ∨ name ∈ e.1 :: names changes
    rw [List.mem_cons]
    tauto

end Row

/-! ## Trees that differ in their numbers -/

namespace Json

/-- Trees that are the same but for the texts of their numbers, which are related. -/
inductive Alike (R : Text → Text → Prop) : Json → Json → Prop
  | null : Alike R .null .null
  | bool (b : Bool) : Alike R (.bool b) (.bool b)
  | number {t t' : Text} : R t t' → Alike R (.number t) (.number t')
  | string (t : Text) : Alike R (.string t) (.string t)
  | array {items items' : List Json} : items.length = items'.length →
      (∀ (i : Nat) x x', items[i]? = some x → items'[i]? = some x' → Alike R x x') →
      Alike R (.array items) (.array items')
  | object {members members' : List (Text × Json)} :
      (∀ name, (lastNamed? members name).isSome = (lastNamed? members' name).isSome) →
      (∀ name x x', lastNamed? members name = some x → lastNamed? members' name = some x' → Alike R x x') →
      Alike R (.object members) (.object members')

/-- Trees with the same value: their numbers have the same decimal values. -/
abbrev Same : Json → Json → Prop := Alike fun t t' => decimalValue t = decimalValue t'

/-- All numbers of a tree are of a kind. -/
inductive Every (P : Text → Prop) : Json → Prop
  | null : Every P .null
  | bool (b : Bool) : Every P (.bool b)
  | number {t : Text} : P t → Every P (.number t)
  | string (t : Text) : Every P (.string t)
  | array {items : List Json} : (∀ x ∈ items, Every P x) → Every P (.array items)
  | object {members : List (Text × Json)} : (∀ name x, lastNamed? members name = some x → Every P x) →
      Every P (.object members)

namespace Alike

variable {R S : Text → Text → Prop} {P : Text → Prop} {j j' : Json}

/-- Another relation between the numbers, which holds where the first number is of a kind. If all numbers of
the first tree are of this kind, then the trees are alike by that relation. -/
theorem of_every (hRS : ∀ t t', R t t' → P t → S t t') (h : Alike R j j') (hP : Every P j) :
    Alike S j j' := by
  induction h with
  | null => exact .null
  | bool b => exact .bool b
  | string t => exact .string t
  | number hR =>
    cases hP with
    | number hP => exact .number (hRS _ _ hR hP)
  | array hlength _ ih =>
    cases hP with
    | array hP => exact .array hlength fun i x x' hi hi' => ih i x x' hi hi' (hP x (List.mem_of_getElem? hi))
  | object hnames _ ih =>
    cases hP with
    | object hP => exact .object hnames fun name x x' hx hx' => ih name x x' hx hx' (hP name x hx)

/-- And the other way round: the first numbers are all of a kind if they have to be. -/
theorem every_of (hRS : ∀ t t', R t t' → S t t' → P t) (h : Alike R j j') (hS : Alike S j j') :
    Every P j := by
  induction h with
  | null => exact .null
  | bool b => exact .bool b
  | string t => exact .string t
  | number hR =>
    cases hS with
    | number hS => exact .number (hRS _ _ hR hS)
  | @array items items' hlength _ ih =>
    cases hS with
    | array _ hS =>
      refine .array fun x hx => ?_
      obtain ⟨i, hi⟩ := List.mem_iff_getElem?.1 hx
      -- the element at the same place of the second array
      have hlt : i < items'.length := hlength ▸ (List.getElem?_eq_some_iff.1 hi).1
      have hi' := List.getElem?_eq_getElem hlt
      exact ih i x _ hi hi' (hS i x _ hi hi')
  | object hnames _ ih =>
    cases hS with
    | object _ hS =>
      refine .object fun name x hx => ?_
      obtain ⟨x', hx'⟩ := Option.isSome_iff_exists.1 ((hnames name).symm.trans (by rw [hx]; rfl))
      exact ih name x x' hx hx' (hS name x x' hx hx')

/-- What holds of the second numbers holds of all numbers of the second tree, since every number there has a
counterpart in the first tree. -/
theorem every_right (hR : ∀ t t', R t t' → P t') (h : Alike R j j') : Every P j' := by
  induction h with
  | null => exact .null
  | bool b => exact .bool b
  | string t => exact .string t
  | number h => exact .number (hR _ _ h)
  | @array items items' hlength _ ih =>
    refine .array fun x' hx' => ?_
    obtain ⟨i, hi'⟩ := List.mem_iff_getElem?.1 hx'
    have hlt : i < items.length := hlength ▸ (List.getElem?_eq_some_iff.1 hi').1
    exact ih i _ x' (List.getElem?_eq_getElem hlt) hi'
  | object hnames _ ih =>
    refine .object fun name x' hx' => ?_
    obtain ⟨x, hx⟩ := Option.isSome_iff_exists.1 ((hnames name).trans (by rw [hx']; rfl))
    exact ih name x x' hx hx'

end Alike

end Json

/-! ## Reading and writing again -/

namespace Grammar

mutual

/-- There is nothing to repair in what the grammar allows. -/
theorem Tree.Proper.repaired {x : Tree} (h : x.Proper) : x.json.repaired = x.json := by
  match x, h with
  | .word w, _ => cases w <;> rfl
  | .number digits, _ => rfl
  | .string parts, h => exact congrArg Json.string (ProperString.repaired_content h)
  | .array items, h => exact congrArg Json.array (Items.Proper.repaired h)
  | .object members, h => exact congrArg Json.object (Members.Proper.repaired h)

/-- There is nothing to repair in the elements of a proper document. -/
theorem Items.Proper.repaired {items : Items} {first : Bool} (h : items.Proper first) :
    Json.repairedItems items.json = items.json := by
  match items, h with
  | .close gap bracket, _ => rfl
  | .item gap x items, h =>
    obtain ⟨-, hx, hitems⟩ := h
    rw [Items.json, Json.repairedItems, hx.repaired, hitems.repaired]

/-- There is nothing to repair in the members of a proper document, names included. -/
theorem Members.Proper.repaired {members : Members} {first : Bool} (h : members.Proper first) :
    Json.repairedMembers members.json = members.json := by
  match members, h with
  | .close gap bracket, _ => rfl
  | .member gap key colon x members, h =>
    obtain ⟨-, hkey, -, hx, hmembers⟩ := h
    rw [Members.json, Json.repairedMembers, hkey.repaired_content, hx.repaired, hmembers.repaired]

end

/-- The members of a text that is an object need no repair. Documents that were stored by others come as
such texts. -/
theorem ObjectText.repaired {t : Text} {members : List (Text × Json)} (h : ObjectText t members) :
    Json.repairedMembers members = members := by
  obtain ⟨-, x, -, -, hx, -, rfl, -⟩ := h
  exact hx.repaired

theorem isWhole_of_digits {t : Text} (hne : t ≠ []) (hdigits : t.all Text.isDigit = true)
    (hhead : t.head? ≠ some (byte '0')) : IsWhole t :=
  ⟨⟨hne, List.all_eq_true.1 hdigits⟩, fun h => absurd h hhead⟩

end Grammar

namespace Json

/-- The row of an object: the names of its members, and their values. -/
def row (members : List (Text × Json)) : Row := Row.ofList (members.map fun m => (m.1, m.2.value))

/-- The row of an object has under a name what the last member with the name stands for. -/
theorem get?_row (members : List (Text × Json)) (name : Text) :
    (row members).get? name = (lastNamed? members name).map value := by
  rw [row, Row.get?_ofList]
  exact lastNamed?_map value members name

theorem nodup_row (members : List (Text × Json)) : (row members).names.Nodup := Row.nodup_ofList _

/-- The names of the row are the names of the members, however often they occur. -/
theorem mem_names_row {members : List (Text × Json)} {name : Text} :
    name ∈ (row members).names ↔ (lastNamed? members name).isSome = true := by
  rw [← not_iff_not, ← Row.get?_eq_none_iff, get?_row, Option.map_eq_none_iff,
    Option.not_isSome_iff_eq_none]

/-- The trees of a row in the order of its written names are those of the row, name by name. -/
theorem lastNamed?_sorted {row : Row} (hrow : row.names.Nodup) (name : Text) :
    lastNamed? ((byWrittenName row).map fun e => (e.1, e.2.tree)) name = (row.get? name).map Value.tree := by
  have hperm := byWrittenName_perm row
  have hsorted : (Row.names (byWrittenName row)).Nodup := (Row.names_perm hperm).nodup_iff.2 hrow
  rw [lastNamed?_map Value.tree, Row.lastNamed?_of_nodup hsorted, Row.get?_perm hsorted hperm]

/-- What a tree needs so that it can be stored again: its numbers consist of the bytes of numbers, its texts
are characters, and it has a value. -/
structure Restorable (j : Json) : Prop where
  numeric : j.Numeric
  repaired : j.repaired = j
  read : j.toValue = .ok j.value

namespace Restorable

variable {j : Json}

theorem kept (h : j.Restorable) : j.value.Kept :=
  Value.kept_of_storable _ (j.storable_of_toValue h.numeric (h.repaired.symm ▸ h.read))

theorem item {items : List Json} (h : (array items).Restorable) : ∀ x ∈ items, x.Restorable := by
  intro x hx
  obtain ⟨hnumeric, hrepaired, hread⟩ := h
  rw [Json.repaired, array.injEq, repairedItems_eq] at hrepaired
  rw [toValue] at hread
  obtain ⟨vs, hvs, -⟩ := bind_eq_ok hread
  exact ⟨numericItems_iff.1 hnumeric x hx,
    List.map_inj_left.1 (hrepaired.trans (List.map_id items).symm) x hx, (toValues_ok.1 hvs).2 x hx⟩

/-- The values of a restorable object are restorable, and its names need no repair. -/
theorem member {members : List (Text × Json)} (h : (object members).Restorable) :
    ∀ m ∈ members, Text.repaired m.1 = m.1 ∧ m.2.Restorable := by
  intro m hm
  obtain ⟨hnumeric, hrepaired, hread⟩ := h
  rw [Json.repaired, object.injEq, repairedMembers_eq] at hrepaired
  rw [toValue] at hread
  obtain ⟨es, hes, -⟩ := bind_eq_ok hread
  have hm' : (Text.repaired m.1, m.2.repaired) = (m.1, m.2) :=
    List.map_inj_left.1 (hrepaired.trans (List.map_id members).symm) m hm
  rw [Prod.mk.injEq] at hm'
  exact ⟨hm'.1, numericMembers_iff.1 hnumeric m hm, hm'.2, (toEntries_ok.1 hes).2 m hm⟩

/-- The value of a restorable array is the list of the values of its elements. -/
theorem value_array {items : List Json} (h : (array items).Restorable) :
    (array items).value = .list .any (items.map value) := by
  refine value_of_toValue ?_
  rw [toValue, toValues_ok.2 ⟨rfl, fun x hx => (h.item x hx).read⟩]
  rfl

/-- The value of a restorable object is the table of its row. -/
theorem value_object {members : List (Text × Json)} (h : (object members).Restorable) :
    (object members).value = .table .any (row members) := by
  refine value_of_toValue ?_
  rw [toValue, toEntries_ok.2 ⟨rfl, fun m hm => (h.member m hm).2.read⟩]
  rfl

/-- **What becomes of a tree that is stored again.** Its numbers are written anew, and all else stays. -/
theorem alike_tree {j : Json} : j.Restorable → j.Alike Rewritten j.value.tree := by
  -- being restorable goes down to the elements and members, so it is carried through the induction
  induction j using Json.inductionOn with
  | scalar j harray hobject =>
    intro h
    cases j with
    | null => exact .null
    | bool b => exact .bool b
    | string t => exact .string t
    | number literal =>
      obtain ⟨s, m, e, hc, hread, hvalue⟩ := toValue_number h.numeric h.read
      rw [hvalue]
      exact .number ⟨s, m, e, hc, hread, rfl⟩
    | array items => exact absurd rfl (harray items)
    | object members => exact absurd rfl (hobject members)
  | array items ih =>
    intro h
    have htree : (array items).value.tree = .array (items.map fun x => x.value.tree) := by
      have hwritten := h.kept.written
      rw [h.value_array] at hwritten
      rw [h.value_array, (Value.list_toJson_ok.1 hwritten).1, List.map_map]
      rfl
    rw [htree]
    refine .array (List.length_map _).symm fun i x x' hi hi' => ?_
    rw [List.getElem?_map, hi] at hi'
    obtain rfl := Option.some.inj hi'
    have hx := List.mem_of_getElem? hi
    exact ih x hx (h.item x hx)
  | object members ih =>
    intro h
    have hwritten := h.kept.written
    rw [h.value_object] at hwritten
    -- the members are sorted and none occurs twice any more, but each name still has its last value
    have hnames : ∀ name, lastNamed? ((byWrittenName (row members)).map fun e => (e.1, e.2.tree)) name
        = (lastNamed? members name).map fun x => x.value.tree := by
      intro name
      rw [lastNamed?_sorted (nodup_row members), get?_row, Option.map_map]
      rfl
    rw [h.value_object, (Value.table_toJson_ok.1 hwritten).1]
    refine .object (fun name => ?_) fun name x x' hx hx' => ?_
    · rw [hnames, Option.isSome_map]
    · rw [hnames, hx] at hx'
      obtain rfl := Option.some.inj hx'
      have hmem := mem_of_lastNamed? hx
      exact ih _ hmem (h.member _ hmem).2

end Restorable

end Json

/-! ## Patches -/

/-- The members of a row that is written and read: the trees of its values, in the order of its written
names. -/
def Row.stored (row : Row) : List (Text × Json) := row.renamed.map fun e => (e.1, e.2.tree.repaired)

/-- Under each name there is the tree of the value that is stored under it. -/
theorem Row.lastNamed?_stored (row : Row) (name : Text) :
    lastNamed? row.stored name = (lastNamed? row.renamed name).map fun v => v.tree.repaired :=
  lastNamed?_map (fun v : Value => v.tree.repaired) row.renamed name

/-- A stored row has a member under a name exactly if a name of the row is read as this name. -/
theorem Row.stored_isSome {row : Row} {name : Text} :
    (lastNamed? row.stored name).isSome = true ↔ name ∈ row.names.map Text.repaired := by
  rw [lastNamed?_stored, Option.isSome_map, renamed_isSome]

namespace Service

variable {s : Service} {w w' : World} {id : Text} {data r : Option Row}

/-- A patch that succeeds has read a document and written it with its fields put in. In every other case it
has ended before, with an error. -/
theorem wrote_of_patch (h : Program.run World.answer (s.patch id data).run w = (.ok r, w')) :
    ∃ doc raw, s.current w id = .ok (some doc) ∧ s.Wrote w (s.patched doc data) id raw (.ok r, w') := by
  rw [patch_run, run_reading id (s.writeBack id data)] at h
  cases hcurrent : s.current w id with
  | error e =>
    rw [hcurrent] at h
    cases h
  | ok doc =>
    rw [hcurrent] at h
    cases doc with
    | none => cases h
    | some doc =>
      unfold writeBack at h
      dsimp only at h
      cases hencode : Row.encode (some (s.patched doc data)) with
      | error e =>
        rw [hencode] at h
        cases h
      | ok raw =>
        rw [hencode] at h
        dsimp only at h
        rcases run_writePatched_cases s w id data hencode with ⟨e, he⟩ | hwrote
        · rw [he] at h
          cases h
        · rw [h] at hwrote
          exact ⟨doc, raw, rfl, hwrote⟩

/-- The row of a text that is an object: the last of the members with each name. Its values can be stored
again, for they were read from a text of the grammar. -/
theorem decode_objectText {before : Text} {members : List (Text × Json)} {doc : Row}
    (hbefore : Grammar.ObjectText before members) (h : Row.decode before = .ok (some doc)) :
    (Json.object members).Restorable ∧ doc = Json.row members := by
  have hparse := Json.parse_of_objectText hbefore
  -- the strict reader has this object, and no other
  have hrow : Json.toRow (.object members) = .ok (some doc) := by
    obtain ⟨j, hj, hrow⟩ :=
      bind_eq_ok (mapError_eq_ok.1 h : (Json.read before).bind Json.toRow = .ok (some doc))
    obtain rfl := Except.ok.inj (hparse.symm.trans (Json.parse_of_read hj))
    exact hrow
  rw [Json.toRow] at hrow
  obtain ⟨es, hes, hrow⟩ := bind_eq_ok hrow
  obtain rfl := Option.some.inj (Except.ok.inj hrow)
  obtain ⟨rfl, hread⟩ := Json.toEntries_ok.1 hes
  have hvalue : (Json.object members).toValue = .ok (.table .any (Json.row members)) := by
    rw [Json.toValue, hes]
    rfl
  refine ⟨⟨Json.numeric_of_parse hparse, congrArg Json.object hbefore.repaired, ?_⟩, rfl⟩
  rw [hvalue, Json.value_of_toValue hvalue]

/-- The answer to a write was read from what is stored. -/
theorem Wrote.decode {row : Row} {raw : Text} (h : s.Wrote w row id raw (.ok r, w')) :
    Row.decode raw = .ok r := by
  have hanswer : Except.ok r = s.current w' id := h.answered
  rw [current_of_found (found_of_current hanswer.symm).1 h.found] at hanswer
  exact mapError_eq_ok.1 hanswer.symm

/-- What is stored after a write that was answered: a text that the strict reader takes, and its tree is the
repaired one of what was written. -/
theorem Wrote.parse {row : Row} {raw : Text} (h : s.Wrote w row id raw (.ok r, w')) :
    Json.parse raw = .ok (.object row.stored) := by
  obtain ⟨row', -, hback⟩ := (Row.decode_of_encode h.encoded).1 h.decode
  obtain ⟨hjson, hreadable, -⟩ := Value.returned_eq_some_iff.1 hback
  obtain ⟨j, hj, hraw⟩ := bind_eq_ok (mapError_eq_ok.1 h.encoded : (Value.table .any row).encode = .ok raw)
  rw [hjson] at hj
  obtain rfl := Except.ok.inj hj
  obtain rfl := Except.ok.inj hraw
  rw [Json.parse_compact (Value.numeric_toJson _ hjson), if_pos hreadable, (Value.table_toJson_ok.1 hjson).1,
    Json.repaired, Json.repairedMembers_eq, Row.stored, Row.renamed, List.map_map, List.map_map]
  rfl

/-- The names of a patched document as they are stored: those that it had, the type, and those of the patch
with repaired bytes. -/
theorem names_patched {doc : Row} (hdoc : ∀ name ∈ doc.names, Text.repaired name = name) {name : Text} :
    name ∈ (s.patched doc data).names.map Text.repaired ↔
      name ∈ doc.names ∨ name = typeField ∨ name ∈ (data.getD []).names.map Text.repaired := by
  have htype : Text.repaired typeField = typeField := by decide
  unfold patched
  simp only [List.mem_map, Row.mem_names_set, Row.mem_names_merge]
  constructor
  · rintro ⟨k, rfl | hk | hk, rfl⟩
    · exact .inr (.inl htype)
    · rw [hdoc k hk]
      exact .inl hk
    · exact .inr (.inr ⟨k, hk, rfl⟩)
  · rintro (hk | rfl | ⟨k, hk, rfl⟩)
    · exact ⟨name, .inr (.inl hk), hdoc name hk⟩
    · exact ⟨typeField, .inl rfl, htype⟩
    · exact ⟨k, .inr (.inr hk), rfl⟩

/-- A field that the patch does not name is stored as the tree of its value. A name of the data that is
read as that of the field does not matter, as it is written in front of it. -/
theorem lastNamed?_patched {doc : Row} (hnodup : doc.names.Nodup) {name : Text} {v : Value}
    (hname : Text.isUtf8 name = true) (hget : doc.get? name = some v) (htype : name ≠ typeField)
    (hdata : name ∉ (data.getD []).names) :
    lastNamed? (s.patched doc data).stored name = some v.tree.repaired := by
  have hpatched : (s.patched doc data).get? name = some v := by
    have hnone : lastNamed? (data.getD []) name = none := by
      refine Option.not_isSome_iff_eq_none.1 fun hsome => hdata ?_
      obtain ⟨e, he, rfl⟩ := lastNamed?_isSome.1 hsome
      exact List.mem_map_of_mem he
    rw [patched, Row.get?_set, if_neg htype, Row.get?_merge_last, hnone, Option.none_or, hget]
  have hstored : (s.patched doc data).names.Nodup := Row.nodup_set (Row.nodup_merge hnodup _) _ _
  rw [Row.lastNamed?_stored, Row.lastNamed?_renamed hstored hname hpatched, Option.map_some]

/-- **What a patch leaves alone.** After a patch that succeeds the stored text is again an object. Its names
are those from before, that of the type and those of the data, as they are stored. A field that is neither
that of the type nor named by the data has kept its words, its texts and its shape, and each of its numbers
is written anew (`Rewritten`). So it has the value from before just if all its numbers are exact, as they are
if they have few digits; and then they stay so. -/
theorem patch_untouched {before : Text} {members : List (Text × Json)}
    (hfound : w.store.find? (s.key id) = some before) (hbefore : Grammar.ObjectText before members)
    (hpatch : Program.run World.answer (s.patch id data).run w = (.ok r, w')) :
    ∃ after members', w'.store.find? (s.key id) = some after ∧
      Json.parse after = .ok (.object members') ∧
      (∀ name, (lastNamed? members' name).isSome = true ↔
        (lastNamed? members name).isSome = true ∨ name = typeField ∨
          name ∈ (data.getD []).names.map Text.repaired) ∧
      ∀ name j, lastNamed? members name = some j → name ≠ typeField → name ∉ (data.getD []).names →
        ∃ j', lastNamed? members' name = some j' ∧ j.Alike Rewritten j' ∧ (j.Same j' ↔ j.Every Exact) ∧
          (j.Every Short → j.Same j') ∧ j'.Every Exact := by
  obtain ⟨doc, raw, hcurrent, hwrote⟩ := wrote_of_patch hpatch
  have hcalm := (found_of_current hcurrent).1
  rw [current_of_found hcalm hfound] at hcurrent
  obtain ⟨hrestorable, rfl⟩ := decode_objectText hbefore (mapError_eq_ok.1 hcurrent)
  -- the names of the document were read from a text, so they are stored as they are
  have hdoc : ∀ name ∈ (Json.row members).names, Text.repaired name = name := by
    intro name hname
    obtain ⟨m, hm, rfl⟩ := lastNamed?_isSome.1 (Json.mem_names_row.1 hname)
    exact (hrestorable.member m hm).1
  refine ⟨raw, _, hwrote.found, hwrote.parse, fun name => ?_, fun name j hj htype hdata => ?_⟩
  · rw [Row.stored_isSome, names_patched hdoc, Json.mem_names_row]
  · have hvalue := (Json.get?_row members name).trans (congrArg _ hj)
    have hstays := (hrestorable.member _ (mem_of_lastNamed? hj)).2
    have halike := hstays.alike_tree
    refine ⟨j.value.tree, ?_, halike, ⟨?_, ?_⟩, ?_, ?_⟩
    · have hname : Text.isUtf8 name = true :=
        Text.repaired_eq_self_iff.1 (hrestorable.member _ (mem_of_lastNamed? hj)).1
      rw [lastNamed?_patched (Json.nodup_row members) hname hvalue htype hdata, hstays.kept.repaired]
    · exact halike.every_of fun t t' hrewritten => hrewritten.same_iff.1
    · exact halike.of_every fun t t' hrewritten => hrewritten.same_iff.2
    · refine halike.of_every fun t t' hrewritten hshort => hrewritten.same_iff.2 ?_
      obtain ⟨s, m, e, hc, hread, -⟩ := hrewritten
      exact hshort.exact hc hread
    · exact halike.every_right fun t t' hrewritten => hrewritten.exact

/-- A note with a count just above `2 ^ 53` and a price. -/
def priced : Grammar.Members :=
  .member [] [.plain (byte 'n')] [byte ':'] (.number "9007199254740993") <|
  .member [byte ','] [.plain (byte 'p')] [byte ':'] (.number "19.990") <|
  .close [] (byte '\x7d')

/-- The text of the note. -/
def pricedText : Text := "\x7b\"n\":9007199254740993,\"p\":19.990\x7d"

/-- The surroundings with the note in the store. -/
def pricedWorld : World := { World.quiet with store := [("note::a", pricedText)] }

theorem price_short : Short "19.990" := by
  have hwhole : ∀ b ∈ ("19" : Text), Text.isDigit b = true := List.all_eq_true.1 (by decide)
  have hfraction : ∀ b ∈ ("990" : Text), Text.isDigit b = true := List.all_eq_true.1 (by decide)
  have hvalue : decimalValue "19.990" = ((19990 : Nat) : ℚ) * 10 ^ (-3 : Int) :=
    Number.decimalValue_parts hwhole hfraction (.inr rfl) (.inl ⟨rfl, rfl⟩) (by decide) false
  have hpos : (0 : ℚ) ≤ ((19990 : Nat) : ℚ) * 10 ^ (-3 : Int) := by positivity
  refine ⟨?_, by decide, ⟨19990, -3, by rw [hvalue, abs_of_nonneg hpos], .inl (by decide)⟩, .inr ?_⟩
  · refine ⟨[], "19", ".990", [], rfl, .inl rfl, Grammar.isWhole_of_digits (by decide) (by decide) (by decide),
      .inr ⟨"990", ⟨by decide, hfraction⟩, rfl⟩, .inl rfl⟩
  · rw [hvalue, abs_of_nonneg hpos]
    calc (2 : ℚ) ^ (-1022 : Int) ≤ 1 := zpow_le_one_of_nonpos₀ (by norm_num) (by norm_num)
      _ ≤ ((19990 : Nat) : ℚ) * 10 ^ (-3 : Int) := by norm_num

/-- The nearest number of 64 bits is the one below, so the value of the text is not the shortest decimal of
what it is read as. -/
theorem count_not_exact : ¬ Exact "9007199254740993" := by
  rintro ⟨s, m, e, hread, hvalue⟩
  have hbinary : (Number.readBinary double "9007199254740993").toOption
      = some (.finite false (2 ^ 52) 1) := by decide +kernel
  rw [hread] at hbinary
  obtain ⟨rfl, rfl, rfl⟩ := Number.Binary.finite.inj (Option.some.inj hbinary)
  have hshortest : double.shortest (2 ^ 52) 1 = ⟨9007199254740992, 0⟩ := by decide +kernel
  have hwhole : ∀ b ∈ ("9007199254740993" : Text), Text.isDigit b = true := List.all_eq_true.1 (by decide)
  have hfraction : ∀ b ∈ ([] : Text), Text.isDigit b = true := List.all_eq_true.1 (by decide)
  have hcount : decimalValue "9007199254740993" = ((9007199254740993 : Nat) : ℚ) * 10 ^ (0 : Int) :=
    Number.decimalValue_parts hwhole hfraction (.inl ⟨rfl, rfl⟩) (.inl ⟨rfl, rfl⟩) (by decide) false
  rw [hcount, hshortest] at hvalue
  norm_num [Number.signed, Number.Decimal.value] at hvalue

theorem pricedText_objectText : Grammar.ObjectText pricedText priced.json := by
  have hkey : ∀ c : Char, 0x20 ≤ c.toNat → c ≠ '"' → c ≠ '\\' → Text.ofChar c = [byte c] →
      Grammar.ProperString [.plain (byte c)] := by
    intro c hcontrol hquote hslash hbyte
    have hproper := Grammar.ProperString.char hcontrol hquote hslash .nil
    rwa [hbyte] at hproper
  have hcount : Grammar.IsNumber "9007199254740993" :=
    ⟨[], "9007199254740993", [], [], rfl, .inl rfl, Grammar.isWhole_of_digits (by decide) (by decide) (by decide),
      .inl rfl, .inl rfl⟩
  exact ⟨[], priced, [], rfl,
    ⟨rfl, hkey 'n' (by decide) (by decide) (by decide) rfl, rfl, hcount, rfl,
      hkey 'p' (by decide) (by decide) (by decide) rfl, rfl, price_short.number, rfl, rfl⟩, rfl, rfl, rfl⟩

/-- A patch of another field leaves the price as it was, and the count as another one. -/
theorem notes_count_rounded :
    pricedWorld.store.find? (notes.key "a") = some pricedText ∧
      Grammar.ObjectText pricedText priced.json ∧
      ∃ r w' after members' n p,
        Program.run World.answer (notes.patch "a" (some [("x", .int .int 1)])).run pricedWorld = (.ok r, w') ∧
        w'.store.find? (notes.key "a") = some after ∧ Json.parse after = .ok (.object members') ∧
        lastNamed? members' "n" = some n ∧ ¬ (Json.number "9007199254740993").Same n ∧
        lastNamed? members' "p" = some p ∧ (Json.number "19.990").Same p := by
  have hfound : pricedWorld.store.find? (notes.key "a") = some pricedText := by decide
  obtain ⟨r, w', hpatch⟩ : ∃ r w', Program.run World.answer
      (notes.patch "a" (some [("x", .int .int 1)])).run pricedWorld = (.ok r, w') := by
    -- only that the run succeeds is evaluated; what it answers stays a variable
    have hsome : (Program.run World.answer
        (notes.patch "a" (some [("x", .int .int 1)])).run pricedWorld).1.toOption.isSome = true := by
      decide +kernel
    generalize Program.run World.answer (notes.patch "a" (some [("x", .int .int 1)])).run pricedWorld = out
      at hsome ⊢
    obtain ⟨r, hr⟩ := Option.isSome_iff_exists.1 hsome
    exact ⟨r, out.2, Prod.ext (toOption_eq_some_iff.1 hr) rfl⟩
  obtain ⟨after, members', hafter, hparse, -, hkept⟩ :=
    patch_untouched hfound pricedText_objectText hpatch
  obtain ⟨n, hn, -, hsame, -⟩ := hkept "n" (.number "9007199254740993") rfl (by decide) (by decide)
  obtain ⟨p, hp, -, -, hshort, -⟩ := hkept "p" (.number "19.990") rfl (by decide) (by decide)
  refine ⟨hfound, pricedText_objectText, r, w', after, members', n, p, hpatch, hafter, hparse, hn, ?_, hp,
    hshort (.number price_short)⟩
  intro h
  obtain - | - | hexact := hsame.1 h
  exact count_not_exact hexact

end Service
end DocFilter
