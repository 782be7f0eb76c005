import DocFilter.Value
import Mathlib.Data.List.Basic
import Mathlib.Data.List.Nodup

/-!
Tables as maps. Sorting by names permutes the entries and looks at names only, and it leaves what is
sorted alone. A row whose names are distinct is a map: putting a value under a name and laying one
row over another act on it name by name, and the order of its entries does not matter.
-/

set_option autoImplicit false

namespace DocFilter

/-! ## Sorting -/

/-- Inserting an element loses nothing and adds nothing but the element. Sorting, which inserts one by one,
is a permutation for that reason. -/
theorem insertByKey_perm {α : Type} (key : α → Text) (x : α) (xs : List α) :
    (insertByKey key x xs).Perm (x :: xs) := by
  induction xs with
  | nil => exact List.Perm.refl _
  | cons y ys ih =>
    rw [insertByKey]
    split
    · exact (ih.cons y).trans (List.Perm.swap x y ys)
    · exact List.Perm.refl _

theorem sortByKey_perm {α : Type} (key : α → Text) (xs : List α) : (sortByKey key xs).Perm xs := by
  induction xs with
  | nil => exact List.Perm.refl _
  | cons x xs ih => exact (insertByKey_perm key x _).trans (ih.cons x)

/-- Inserting commutes with a map that keeps keys. Maps over the values of entries are of this kind. -/
theorem insertByKey_map {α β : Type} (g : α → β) {key : β → Text} {key' : α → Text}
    (hkey : ∀ x, key (g x) = key' x) (x : α) (xs : List α) :
    insertByKey key (g x) (xs.map g) = (insertByKey key' x xs).map g := by
  induction xs with
  | nil => rfl
  | cons y ys ih =>
    rw [List.map_cons, insertByKey, insertByKey, hkey, hkey, ih]
    split <;> rfl

/-- Sorting looks at keys only. -/
theorem sortByKey_map {α β : Type} (g : α → β) {key : β → Text} {key' : α → Text}
    (hkey : ∀ x, key (g x) = key' x) (xs : List α) :
    sortByKey key (xs.map g) = (sortByKey key' xs).map g := by
  induction xs with
  | nil => rfl
  | cons x xs ih => rw [List.map_cons, sortByKey, ih, insertByKey_map g hkey, sortByKey]

/-- Inserting into a sorted list keeps it sorted. What stands before the place of the new element is
smaller, and what stands behind it is not. -/
theorem insertByKey_pairwise {α : Type} {key : α → Text} (x : α) {xs : List α}
    (h : xs.Pairwise fun a b => key a ≤ key b) :
    (insertByKey key x xs).Pairwise fun a b => key a ≤ key b := by
  induction h with
  | nil => exact List.pairwise_singleton _ _
  | @cons y ys hy hys ih =>
    rw [insertByKey]
    split
    -- the element goes further on, and the head stays in front of everything
    · next hlt =>
      refine List.Pairwise.cons (fun z hz => ?_) ih
      rcases List.mem_cons.1 ((insertByKey_perm key x ys).mem_iff.1 hz) with rfl | hz
      · exact List.le_of_lt hlt
      · exact hy z hz
    · next hge =>
      refine List.Pairwise.cons (fun z hz => ?_) (.cons hy hys)
      rcases List.mem_cons.1 hz with rfl | hz
      · exact hge
      · exact List.le_trans hge (hy z hz)

theorem sortByKey_pairwise {α : Type} (key : α → Text) (xs : List α) :
    (sortByKey key xs).Pairwise fun a b => key a ≤ key b := by
  induction xs with
  | nil => exact .nil
  | cons x xs ih => exact insertByKey_pairwise x ih

/-- What is at most as large as everything else goes to the front. -/
theorem insertByKey_of_le {α : Type} {key : α → Text} {x : α} {xs : List α}
    (h : ∀ y ∈ xs, key x ≤ key y) : insertByKey key x xs = x :: xs := by
  cases xs with
  | nil => rfl
  | cons y ys => exact if_neg (h y List.mem_cons_self)

/-- What is sorted stays as it is. -/
theorem sortByKey_of_pairwise {α : Type} {key : α → Text} {xs : List α}
    (h : xs.Pairwise fun a b => key a ≤ key b) : sortByKey key xs = xs := by
  induction h with
  | nil => rfl
  | @cons x xs hx hxs ih =>
    rw [sortByKey, ih]
    exact insertByKey_of_le hx

/-- With distinct keys there is one sorted order, so lists that are permutations of each other are sorted
into the same list. -/
theorem sortByKey_eq_of_perm {α : Type} {key : α → Text} {xs ys : List α}
    (hnodup : (xs.map key).Nodup) (h : xs.Perm ys) : sortByKey key xs = sortByKey key ys := by
  have hxs := sortByKey_perm key xs
  have hys := sortByKey_perm key ys
  refine List.Perm.eq_of_pairwise ?_ (sortByKey_pairwise key xs) (sortByKey_pairwise key ys)
    (hxs.trans (h.trans hys.symm))
  intro a b ha hb hab hba
  have hb' : b ∈ xs := h.mem_iff.2 (hys.mem_iff.1 hb)
  exact List.inj_on_of_nodup_map hnodup (hxs.mem_iff.1 ha) hb' (List.le_antisymm hab hba)

/-- Inserting before or after leaving elements out is the same, if the list is sorted and the element stays.
-/
theorem insertByKey_filter {α : Type} {key : α → Text} {keep : α → Bool} {x : α} (hx : keep x = true)
    {xs : List α} (h : xs.Pairwise fun a b => key a ≤ key b) :
    insertByKey key x (xs.filter keep) = (insertByKey key x xs).filter keep := by
  induction h with
  | nil => simp [insertByKey, hx]
  | @cons y ys hy hys ih =>
    by_cases hlt : key y < key x
    · have hinsert : ∀ zs, insertByKey key x (y :: zs) = y :: insertByKey key x zs :=
        fun zs => if_pos hlt
      by_cases hkeep : keep y = true
      · rw [List.filter_cons_of_pos hkeep, hinsert, hinsert, List.filter_cons_of_pos hkeep, ih]
      · rw [List.filter_cons_of_neg hkeep, hinsert, List.filter_cons_of_neg hkeep, ih]
    · -- everything from here on is at least as large as the new entry
      have hle : ∀ z ∈ y :: ys, key x ≤ key z := by
        intro z hz
        rcases List.mem_cons.1 hz with rfl | hz
        · exact hlt
        · exact List.le_trans hlt (hy z hz)
      rw [insertByKey_of_le hle, List.filter_cons_of_pos hx]
      exact insertByKey_of_le fun z hz => hle z (List.mem_filter.1 hz).1

theorem filter_insertByKey_of_neg {α : Type} {key : α → Text} {keep : α → Bool} {x : α}
    (hx : ¬ keep x = true) (xs : List α) : (insertByKey key x xs).filter keep = xs.filter keep := by
  induction xs with
  | nil => exact List.filter_cons_of_neg hx
  | cons y ys ih =>
    rw [insertByKey]
    split
    · rw [List.filter_cons, List.filter_cons, ih]
    · exact List.filter_cons_of_neg hx

/-- Entries can be left out before or after sorting: sorting is stable, and what is left keeps its order. -/
theorem sortByKey_filter {α : Type} {key : α → Text} (keep : α → Bool) (xs : List α) :
    sortByKey key (xs.filter keep) = (sortByKey key xs).filter keep := by
  induction xs with
  | nil => rfl
  | cons x xs ih =>
    by_cases hx : keep x = true
    · rw [List.filter_cons_of_pos hx, sortByKey, sortByKey, ih,
        insertByKey_filter hx (sortByKey_pairwise key xs)]
    · rw [List.filter_cons_of_neg hx, ih, sortByKey, filter_insertByKey_of_neg hx]

/-! ## Rows -/

namespace Row

/-- The names of a row. -/
def names (row : Row) : List Text := row.map (·.1)

/-- The value under a name, with one more entry in front: the first entry with the name counts. -/
theorem get?_cons (k : Text) (v : Value) (row : Row) (name : Text) :
    Row.get? ((k, v) :: row) name = if name = k then some v else row.get? name := by
  unfold Row.get?
  rw [List.lookup_cons]
  by_cases h : name = k
  · simp [h]
  · rw [if_neg h, beq_false_of_ne h]

/-- There is no value under a name exactly if no entry has it. -/
theorem get?_eq_none_iff {row : Row} {name : Text} : row.get? name = none ↔ name ∉ row.names := by
  unfold Row.get? Row.names
  rw [List.lookup_eq_none_iff]
  constructor
  · intro h hmem
    obtain ⟨e, he, rfl⟩ := List.mem_map.1 hmem
    simpa using h e he
  · intro h e he
    exact bne_iff_ne.2 fun heq => h (heq ▸ List.mem_map_of_mem he)

/-- A value that is found under a name is in an entry with this name. -/
theorem mem_of_get? {row : Row} {name : Text} {v : Value} (h : row.get? name = some v) :
    (name, v) ∈ row := by
  obtain ⟨before, after, rfl, -⟩ := List.lookup_eq_some_iff.1 h
  simp

/-- If names are distinct, the value under a name is that of any entry with it, not only of the first.
Without this, an entry behind another one of its name is never looked up. -/
theorem get?_eq_some_iff {row : Row} (hrow : row.names.Nodup) {name : Text} {v : Value} :
    row.get? name = some v ↔ (name, v) ∈ row := by
  refine ⟨mem_of_get?, fun h => ?_⟩
  induction row with
  | nil => cases h
  | cons e row ih =>
    obtain ⟨k, w⟩ := e
    have hnodup : k ∉ Row.names row ∧ (Row.names row).Nodup := List.nodup_cons.1 hrow
    rw [get?_cons]
    rcases List.mem_cons.1 h with heq | hmem
    · cases heq
      rw [if_pos rfl]
    · have hne : name ≠ k := fun heq => hnodup.1 (heq ▸ List.mem_map_of_mem hmem)
      rw [if_neg hne]
      exact ih hnodup.2 hmem

theorem names_perm {row row' : Row} (h : row.Perm row') : row.names.Perm row'.names := h.map _

/-- The order of the entries does not matter. -/
theorem get?_perm {row row' : Row} (hrow : row.names.Nodup) (h : row.Perm row') (name : Text) :
    row.get? name = row'.get? name := by
  have hrow' : row'.names.Nodup := (names_perm h).nodup_iff.1 hrow
  refine Option.ext fun v => ?_
  rw [get?_eq_some_iff hrow, get?_eq_some_iff hrow', h.mem_iff]

/-- Setting a name gives it the value and leaves every other name as it is. This equation is all that most
proofs use of a row. -/
theorem get?_set (row : Row) (k : Text) (v : Value) (name : Text) :
    (row.set k v).get? name = if name = k then some v else row.get? name := by
  induction row with
  | nil => exact get?_cons k v [] name
  | cons e row ih =>
    obtain ⟨k', old⟩ := e
    rw [Row.set, get?_cons]
    -- the name is here, and is given its value; or it is set further on
    by_cases hk : k' = k
    · subst hk
      rw [if_pos (by simp), get?_cons]
      split <;> rfl
    · rw [if_neg (by simpa using hk), get?_cons, ih]
      by_cases hname : name = k'
      · rw [if_pos hname, if_pos hname, if_neg (hname ▸ hk)]
      · rw [if_neg hname, if_neg hname]

/-- After setting a name the names are those from before and this one. -/
theorem mem_names_set {row : Row} {k name : Text} {v : Value} :
    name ∈ (row.set k v).names ↔ name = k ∨ name ∈ row.names := by
  have h := get?_set row k v name
  rw [← not_iff_not, ← get?_eq_none_iff, h, not_or, ← get?_eq_none_iff]
  split <;> simp_all

/-- Setting a name keeps names distinct, because a name that is there keeps its place. -/
theorem nodup_set {row : Row} (h : row.names.Nodup) (k : Text) (v : Value) :
    (row.set k v).names.Nodup := by
  induction row with
  | nil => exact List.nodup_singleton k
  | cons e row ih =>
    obtain ⟨k', old⟩ := e
    have hnodup : k' ∉ Row.names row ∧ (Row.names row).Nodup := List.nodup_cons.1 h
    rw [Row.set]
    by_cases hk : k' = k
    · rw [if_pos (by simpa using hk), ← hk]
      exact h
    · rw [if_neg (by simpa using hk)]
      refine List.nodup_cons.2 ⟨fun hmem => ?_, ih hnodup.2⟩
      rcases mem_names_set.1 hmem with heq | hmem
      · exact hk heq
      · exact hnodup.1 hmem

/-- An entry after setting a name is the new one or one from before. So what holds of all entries has to be
shown of the new one only. -/
theorem mem_set {row : Row} {k : Text} {v : Value} {e : Text × Value} (h : e ∈ row.set k v) :
    e = (k, v) ∨ e ∈ row := by
  induction row with
  | nil => exact .inl (List.mem_singleton.1 h)
  | cons e' row ih =>
    obtain ⟨k', old⟩ := e'
    rw [Row.set] at h
    split at h
    · rcases List.mem_cons.1 h with rfl | h
      · exact .inl rfl
      · exact .inr (List.mem_cons_of_mem _ h)
    · rcases List.mem_cons.1 h with rfl | h
      · exact .inr List.mem_cons_self
      · exact (ih h).imp_right (List.mem_cons_of_mem _)

theorem merge_cons (row : Row) (k : Text) (v : Value) (changes : Row) :
    row.merge ((k, v) :: changes) = (row.set k v).merge changes := rfl

/-- The changes lie on top of the row: under a name of the changes stands their value, and under every other
name that of the row. Names of the changes have to be distinct. -/
theorem get?_merge {changes : Row} (h : changes.names.Nodup) (row : Row) (name : Text) :
    (row.merge changes).get? name = (changes.get? name).or (row.get? name) := by
  induction changes generalizing row with
  | nil => rfl
  | cons e changes ih =>
    obtain ⟨k, v⟩ := e
    have hnodup : k ∉ Row.names changes ∧ (Row.names changes).Nodup := List.nodup_cons.1 h
    rw [merge_cons, ih hnodup.2, get?_set, get?_cons]
    by_cases hname : name = k
    · subst hname
      rw [if_pos rfl, if_pos rfl, get?_eq_none_iff.2 hnodup.1]
      rfl
    · rw [if_neg hname, if_neg hname]

theorem nodup_merge {row : Row} (h : row.names.Nodup) (changes : Row) :
    (row.merge changes).names.Nodup := by
  induction changes generalizing row with
  | nil => exact h
  | cons e changes ih => exact ih (nodup_set h _ _)

/-- An entry of two rows, one over the other, is an entry of one of them. -/
theorem mem_merge {row changes : Row} {e : Text × Value} (h : e ∈ row.merge changes) :
    e ∈ row ∨ e ∈ changes := by
  induction changes generalizing row with
  | nil => exact .inl h
  | cons c changes ih =>
    rcases ih h with h | h
    · rcases mem_set h with rfl | h
      · exact .inr List.mem_cons_self
      · exact .inl h
    · exact .inr (List.mem_cons_of_mem _ h)

/-- A row made from entries has distinct names, whatever the entries are. -/
theorem nodup_ofList (entries : Row) : (Row.ofList entries).names.Nodup := by
  have hempty : Row.names [] = [] := rfl
  exact nodup_merge (hempty ▸ List.nodup_nil) entries

theorem set_of_not_mem {row : Row} {k : Text} (h : k ∉ row.names) (v : Value) :
    row.set k v = row ++ [(k, v)] := by
  induction row with
  | nil => rfl
  | cons e row ih =>
    obtain ⟨k', old⟩ := e
    have hk : k ≠ k' ∧ k ∉ Row.names row := List.ne_and_not_mem_of_not_mem_cons h
    rw [Row.set, if_neg (by simpa using hk.1.symm), ih hk.2, List.cons_append]

/-- Entries with distinct names are a row as they are, in their order. Only entries with equal names are
merged. -/
theorem ofList_of_nodup {entries : Row} (h : entries.names.Nodup) : Row.ofList entries = entries := by
  -- with a row to begin from, as each entry goes behind those before it
  have hmerge : ∀ row : Row, (row.names ++ entries.names).Nodup → row.merge entries = row ++ entries := by
    clear h
    induction entries with
    | nil => intro row _; exact (List.append_nil row).symm
    | cons e entries ih =>
      obtain ⟨k, v⟩ := e
      intro row hrow
      have hk : k ∉ row.names := by
        intro hmem
        exact (List.nodup_append.1 hrow).2.2 k hmem k List.mem_cons_self rfl
      rw [merge_cons, set_of_not_mem hk, ih, List.append_assoc, List.singleton_append]
      simpa [Row.names] using hrow
  exact hmerge [] h

end Row
end DocFilter
