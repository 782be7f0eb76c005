import DocFilter.Query.Statement
import Mathlib.Data.List.Basic

/-!
The truth of conditions. The atoms of a condition are its comparisons: a field, an operator and what
the field is compared with. A truth assignment says of every atom whether it holds, and nothing else
is known about fields and values, so two conditions that agree under every assignment find the same
documents in every database.

Directives, formulas over values and formulas over placeholders all have atoms. A placeholder stands
for a parameter, and a parameter list that is too short leaves it unbound, which is an atom of its
own; reading a placeholder as anything but its value is therefore never right by accident.
-/

set_option autoImplicit false

namespace DocFilter

/-- What a sequence of two steps that ends well did. -/
theorem bind_eq_ok {ε α β : Type} {x : Except ε α} {f : α → Except ε β} {b : β}
    (h : x >>= f = .ok b) : ∃ a, x = .ok a ∧ f a = .ok b := by
  cases x with
  | error e => exact absurd h (by simp [bind, Except.bind])
  | ok a => exact ⟨a, rfl, h⟩

/-- A mapped computation succeeds exactly if the computation does, with the mapped value. -/
theorem map_eq_ok_iff {ε α β : Type} {x : Except ε α} {g : α → β} {b : β} :
    x.map g = .ok b ↔ ∃ a, x = .ok a ∧ g a = b := by
  cases x with
  | error e => exact ⟨nofun, nofun⟩
  | ok a => exact ⟨fun h => ⟨a, rfl, Except.ok.inj h⟩, fun ⟨_, ha, hb⟩ => by cases ha; rw [← hb]; rfl⟩

/-- A sequence of two computations fails because the first fails or because the second does. This is the
counterpart of `bind_eq_ok`. -/
theorem bind_eq_error {ε α β : Type} {x : Except ε α} {f : α → Except ε β} {e : ε}
    (h : x >>= f = .error e) : x = .error e ∨ ∃ a, x = .ok a ∧ f a = .error e := by
  cases x with
  | error e' => exact .inl (congrArg _ (Except.error.inj h))
  | ok a => exact .inr ⟨a, rfl, h⟩

theorem map_eq_error_iff {ε α β : Type} {x : Except ε α} {g : α → β} {e : ε} :
    x.map g = .error e ↔ x = .error e := by
  cases x <;> simp [Except.map]

theorem mapError_eq_error_iff {ε δ α : Type} {x : Except ε α} {g : ε → δ} {e : δ} :
    x.mapError g = .error e ↔ ∃ cause, x = .error cause ∧ g cause = e := by
  cases x <;> simp [Except.mapError]

/-- Two tests that agree on the elements of a list agree on whether all of them pass. -/
theorem all_congr_of_mem {α : Type} {p q : α → Bool} {l : List α} (h : ∀ a ∈ l, p a = q a) :
    l.all p = l.all q := by
  induction l with
  | nil => rfl
  | cons a l ih =>
    rw [List.all_cons, List.all_cons, h a (by simp), ih (fun b hb => h b (by simp [hb]))]

/-- Two tests that agree on the elements of a list agree on whether one of them passes. -/
theorem any_congr_of_mem {α : Type} {p q : α → Bool} {l : List α} (h : ∀ a ∈ l, p a = q a) :
    l.any p = l.any q := by
  induction l with
  | nil => rfl
  | cons a l ih =>
    rw [List.any_cons, List.any_cons, h a (by simp), ih (fun b hb => h b (by simp [hb]))]

/-! ## Atoms -/

/-- What a field is compared with. Every value of the null kind is written NULL. -/
inductive Literal where
  | null
  | value (v : Value)
  /-- A placeholder to which no parameter belongs. -/
  | unbound (n : Nat)

/-- A comparison of a field. -/
structure Comparison (α : Type) where
  field : Text
  op : Comparator
  rhs : α

/-- The comparison with another right side. -/
def Comparison.map {α β : Type} (g : α → β) (c : Comparison α) : Comparison β :=
  ⟨c.field, c.op, g c.rhs⟩

/-- An atom of a condition. -/
abbrev Atom := Comparison Literal

/-- A truth assignment. -/
abbrev Assignment := Atom → Bool

/-- A value as the right side of an atom. -/
def Value.literal (v : Value) : Literal := if v.kind == .null then .null else .value v

/-- A written operand as the right side of an atom: `$n` is the parameter with the number `n`,
counted from one. -/
def Operand.literal (params : List Value) : Operand → Literal
  | .null => .null
  | .placeholder 0 => .unbound 0
  | .placeholder (n + 1) =>
    match params[n]? with
    | some v => .value v
    | none => .unbound (n + 1)

/-! ## Formulas -/

namespace Formula

variable {α : Type}

mutual

/-- Induction over formulas: a group may use what is known of its parts. -/
theorem partsInduction {P : Formula α → Prop}
    (compare : ∀ field op rhs, P (.compare field op rhs))
    (all : ∀ parts, (∀ f ∈ parts, P f) → P (.all parts))
    (any : ∀ parts, (∀ f ∈ parts, P f) → P (.any parts)) (f : Formula α) : P f := by
  match f with
  | .compare field op rhs => exact compare field op rhs
  | .all parts => exact all parts (partsInduction_list compare all any parts)
  | .any parts => exact any parts (partsInduction_list compare all any parts)

/-- The induction over formulas, for lists of them. It is the other half of the mutual recursion behind
`partsInduction`. -/
theorem partsInduction_list {P : Formula α → Prop}
    (compare : ∀ field op rhs, P (.compare field op rhs))
    (all : ∀ parts, (∀ f ∈ parts, P f) → P (.all parts))
    (any : ∀ parts, (∀ f ∈ parts, P f) → P (.any parts)) (fs : List (Formula α)) :
    ∀ f ∈ fs, P f := by
  match fs with
  | [] => simp
  | g :: rest =>
    intro f hf
    rcases List.mem_cons.mp hf with hg | hf
    · rw [hg]
      exact partsInduction compare all any g
    · exact partsInduction_list compare all any rest f hf

end

mutual

/-- The comparisons of a formula from left to right. -/
def comparisons : Formula α → List (Comparison α)
  | .compare field op rhs => [⟨field, op, rhs⟩]
  | .all parts => comparisonsAll parts
  | .any parts => comparisonsAll parts

/-- The comparisons of several formulas. -/
def comparisonsAll : List (Formula α) → List (Comparison α)
  | [] => []
  | f :: rest => f.comparisons ++ comparisonsAll rest

end

mutual

/-- The truth of a formula whose right sides stand for literals. -/
def holds (lit : α → Literal) (ρ : Assignment) : Formula α → Bool
  | .compare field op rhs => ρ ⟨field, op, lit rhs⟩
  | .all parts => allHold lit ρ parts
  | .any parts => anyHolds lit ρ parts

/-- Whether all of several formulas hold. -/
def allHold (lit : α → Literal) (ρ : Assignment) : List (Formula α) → Bool
  | [] => true
  | f :: rest => holds lit ρ f && allHold lit ρ rest

/-- Whether one of several formulas holds. -/
def anyHolds (lit : α → Literal) (ρ : Assignment) : List (Formula α) → Bool
  | [] => false
  | f :: rest => holds lit ρ f || anyHolds lit ρ rest

end

variable {β : Type}

mutual

/-- The formula with other right sides. -/
def map (g : α → β) : Formula α → Formula β
  | .compare field op rhs => .compare field op (g rhs)
  | .all parts => .all (mapAll g parts)
  | .any parts => .any (mapAll g parts)

/-- The formulas with other right sides. -/
def mapAll (g : α → β) : List (Formula α) → List (Formula β)
  | [] => []
  | f :: rest => f.map g :: mapAll g rest

end

/-- Mapping the parts of a formula is mapping the list of them. This and its like below turn the mutual
recursions into the functions on lists that the library knows. -/
theorem mapAll_eq (g : α → β) (parts : List (Formula α)) : mapAll g parts = parts.map (map g) := by
  induction parts with
  | nil => rfl
  | cons f rest ih => rw [mapAll, ih, List.map_cons]

theorem comparisonsAll_eq (parts : List (Formula α)) :
    comparisonsAll parts = parts.flatMap comparisons := by
  induction parts with
  | nil => rfl
  | cons f rest ih => rw [comparisonsAll, ih, List.flatMap_cons]

variable (lit : α → Literal) (ρ : Assignment)

theorem allHold_eq (parts : List (Formula α)) :
    allHold lit ρ parts = parts.all (holds lit ρ) := by
  induction parts with
  | nil => rfl
  | cons f rest ih => rw [allHold, ih, List.all_cons]

theorem anyHolds_eq (parts : List (Formula α)) :
    anyHolds lit ρ parts = parts.any (holds lit ρ) := by
  induction parts with
  | nil => rfl
  | cons f rest ih => rw [anyHolds, ih, List.any_cons]

@[simp] theorem holds_compare (field : Text) (op : Comparator) (rhs : α) :
    holds lit ρ (.compare field op rhs) = ρ ⟨field, op, lit rhs⟩ := rfl

@[simp] theorem holds_all (parts : List (Formula α)) :
    holds lit ρ (.all parts) = parts.all (holds lit ρ) := allHold_eq lit ρ parts

@[simp] theorem holds_any (parts : List (Formula α)) :
    holds lit ρ (.any parts) = parts.any (holds lit ρ) := anyHolds_eq lit ρ parts

/-- The truth of a formula depends on its right sides only through their literals. -/
theorem holds_map (f : Formula α) : (f.map lit).holds id ρ = f.holds lit ρ := by
  induction f using partsInduction with
  | compare field op rhs => rfl
  | all parts ih =>
    rw [map, mapAll_eq, holds_all, List.all_map, holds_all]
    exact all_congr_of_mem ih
  | any parts ih =>
    rw [map, mapAll_eq, holds_any, List.any_map, holds_any]
    exact any_congr_of_mem ih

end Formula

/-! ## Directives -/

namespace Directive

/-- Whether a directive is a condition. -/
def isCondition : Directive → Bool
  | .comparison _ _ _ | .logical _ _ => true
  | _ => false

mutual

/-- The comparisons of a directive from left to right. -/
def comparisons : Directive → List (Comparison Value)
  | .comparison (.known c) field v => [⟨field, c, v⟩]
  | .logical _ children => comparisonsAll children
  | _ => []

/-- The comparisons of several directives. -/
def comparisonsAll : List Directive → List (Comparison Value)
  | [] => []
  | d :: rest => d.comparisons ++ comparisonsAll rest

end

mutual

/-- The truth of a condition: AND is the conjunction of its parts and OR their disjunction. What is
no condition, or no one knows, says nothing. -/
def holds (ρ : Assignment) : Directive → Bool
  | .comparison (.known c) field v => ρ ⟨field, c, v.literal⟩
  | .logical .and children => allHold ρ children
  | .logical .or children => anyHolds ρ children
  | _ => true

/-- Whether all of several directives hold. -/
def allHold (ρ : Assignment) : List Directive → Bool
  | [] => true
  | d :: rest => holds ρ d && allHold ρ rest

/-- Whether one of several directives holds. -/
def anyHolds (ρ : Assignment) : List Directive → Bool
  | [] => false
  | d :: rest => holds ρ d || anyHolds ρ rest

end

/-- The comparisons of several directives, one after the other, as those of formulas above. -/
theorem comparisonsAll_eq (ds : List Directive) : comparisonsAll ds = ds.flatMap comparisons := by
  induction ds with
  | nil => rfl
  | cons d rest ih => rw [comparisonsAll, ih, List.flatMap_cons]

theorem allHold_eq (ρ : Assignment) (ds : List Directive) : allHold ρ ds = ds.all (holds ρ) := by
  induction ds with
  | nil => rfl
  | cons d rest ih => rw [allHold, ih, List.all_cons]

theorem anyHolds_eq (ρ : Assignment) (ds : List Directive) : anyHolds ρ ds = ds.any (holds ρ) := by
  induction ds with
  | nil => rfl
  | cons d rest ih => rw [anyHolds, ih, List.any_cons]

end Directive

/-! ## From directives to formulas

Turning a condition into a formula fails or loses nothing: the directive can be written down
again. -/

namespace Formula

mutual

/-- The directive of a formula. -/
def toDirective : Formula Value → Directive
  | .compare field op v => .comparison (.known op) field v
  | .all parts => .logical .and (toDirectives parts)
  | .any parts => .logical .or (toDirectives parts)

/-- The directives of several formulas. -/
def toDirectives : List (Formula Value) → List Directive
  | [] => []
  | f :: rest => f.toDirective :: toDirectives rest

end

mutual

/-- A directive that has a formula is determined by it: nothing of it is lost on the way to the formula. One
induction with the statement after it. -/
theorem eq_toDirective (d : Directive) {f : Formula Value} (h : ofDirective d = .ok f) :
    d = f.toDirective := by
  match d with
  | .comparison (.known c) field v =>
    rw [ofDirective] at h
    split at h
    · cases h
    · cases h; rfl
  -- what is not of a known kind has no formula
  | .comparison (.other name) field v =>
    rw [ofDirective] at h
    split at h <;> cases h
  | .logical .and children =>
    rw [ofDirective] at h
    obtain ⟨fs, hfs, h⟩ := bind_eq_ok h
    cases h
    rw [toDirective, eq_toDirectives children hfs]
  | .logical .or children =>
    rw [ofDirective] at h
    obtain ⟨fs, hfs, h⟩ := bind_eq_ok h
    cases h
    rw [toDirective, eq_toDirectives children hfs]
  | .logical (.other name) children => rw [ofDirective] at h; cases h
  | .modifier m => rw [ofDirective] at h; cases h
  | .extension name payload => rw [ofDirective] at h; cases h
  | .missing => rw [ofDirective] at h; cases h

theorem eq_toDirectives (ds : List Directive) {fs : List (Formula Value)}
    (h : ofDirectives ds = .ok fs) : ds = toDirectives fs := by
  match ds with
  | [] => cases h; rfl
  | d :: rest =>
    rw [ofDirectives] at h
    obtain ⟨f, hf, h⟩ := bind_eq_ok h
    obtain ⟨more, hmore, h⟩ := bind_eq_ok h
    cases h
    rw [toDirectives, eq_toDirective d hf, eq_toDirectives rest hmore]

end

theorem toDirectives_eq (fs : List (Formula Value)) : toDirectives fs = fs.map toDirective := by
  induction fs with
  | nil => rfl
  | cons f rest ih => rw [toDirectives, ih, List.map_cons]

/-- The directive of a formula holds exactly if the formula does, under every assignment. -/
theorem toDirective_holds (ρ : Assignment) (f : Formula Value) :
    f.toDirective.holds ρ = f.holds Value.literal ρ := by
  induction f using partsInduction with
  | compare field op v => rfl
  | all parts ih =>
    rw [toDirective, Directive.holds, Directive.allHold_eq, toDirectives_eq, List.all_map,
      holds_all]
    exact all_congr_of_mem ih
  | any parts ih =>
    rw [toDirective, Directive.holds, Directive.anyHolds_eq, toDirectives_eq, List.any_map,
      holds_any]
    exact any_congr_of_mem ih

/-- The directive of a formula compares what the formula compares, in the same order. -/
theorem toDirective_comparisons (f : Formula Value) :
    f.toDirective.comparisons = f.comparisons := by
  induction f using partsInduction with
  | compare field op v => rfl
  | all parts ih | any parts ih =>
    rw [toDirective, Directive.comparisons, Directive.comparisonsAll_eq, toDirectives_eq,
      List.flatMap_map, comparisons, comparisonsAll_eq]
    exact List.flatMap_congr ih

/-! ## Binding

The binder only ever adds parameters at the end, so a placeholder handed out early keeps its value
while the rest of the formula is bound. -/

/-- The values that get a placeholder: those of comparisons with something. -/
def boundValues (cs : List (Comparison Value)) : List Value :=
  (cs.map (·.rhs)).filter (·.kind != .null)

/-- The values bound by two lists of comparisons, one behind the other. -/
theorem boundValues_append (cs cs' : List (Comparison Value)) :
    boundValues (cs ++ cs') = boundValues cs ++ boundValues cs' := by
  rw [boundValues, List.map_append, List.filter_append, boundValues, boundValues]

mutual

/-- Binding a formula appends its values to the parameters, from left to right, and leaves out those of the
null kind. One induction with the statement after it. -/
theorem bind_params (b : Binder) (f : Formula Value) :
    (bind b f).2.params = b.params ++ boundValues f.comparisons := by
  match f with
  | .compare field op v =>
    rw [bind]
    by_cases hv : v.kind == .null
    · rw [if_pos hv]
      simp [comparisons, boundValues, beq_iff_eq.mp hv]
    · rw [if_neg hv]
      simp [comparisons, boundValues, beq_eq_false_iff_ne.mp (Bool.not_eq_true _ ▸ hv), Binder.bind]
  | .all parts => exact bindAll_params b parts
  | .any parts => exact bindAll_params b parts

/-- The same for several formulas, where each goes on with the binder of the one before. -/
theorem bindAll_params (b : Binder) (fs : List (Formula Value)) :
    (bindAll b fs).2.params = b.params ++ boundValues (comparisonsAll fs) := by
  match fs with
  | [] => simp [bindAll, comparisonsAll, boundValues]
  | f :: rest =>
    -- The rest is bound by the binder that the first formula leaves behind.
    have hrest := bindAll_params (bind b f).2 rest
    rw [bind_params b f, List.append_assoc, ← boundValues_append] at hrest
    exact hrest

end

/-- The placeholder of a value stands for the value. -/
theorem literal_placeholder {params : List Value} {b : Binder} {v : Value}
    (h : b.params ++ [v] <+: params) (hv : ¬ v.kind == .null) :
    Operand.literal params (.placeholder (b.size + 1)) = v.literal := by
  obtain ⟨more, rfl⟩ := h
  simp [Operand.literal, Value.literal, Binder.size, hv]

mutual

/-- Binding changes nothing but the right sides, and those stand for what they stood for: null for null, and
a placeholder for the parameter with its number. -/
theorem bind_map {params : List Value} (b : Binder) (f : Formula Value)
    (h : (bind b f).2.params <+: params) :
    (bind b f).1.map (Operand.literal params) = f.map Value.literal := by
  match f with
  | .compare field op v =>
    rw [bind] at h ⊢
    by_cases hv : v.kind == .null
    · rw [if_pos hv, map, map, Value.literal, if_pos hv]
      rfl
    -- the parameter is there, as later ones come behind it
    · rw [if_neg hv] at h ⊢
      rw [Binder.bind] at h ⊢
      rw [map, map, literal_placeholder h hv]
  | .all parts => exact congrArg Formula.all (bindAll_map b parts h)
  | .any parts => exact congrArg Formula.any (bindAll_map b parts h)

/-- With a list of parameters that begins with those of the binder, placeholders are read as the values they
were given for. That the list may be longer lets the induction go through. -/
theorem bindAll_map {params : List Value} (b : Binder) (fs : List (Formula Value))
    (h : (bindAll b fs).2.params <+: params) :
    mapAll (Operand.literal params) (bindAll b fs).1 = mapAll Value.literal fs := by
  match fs with
  | [] => rfl
  | f :: rest =>
    -- The parameters of the first formula are only added to by the rest.
    have hfirst : (bind b f).2.params <+: params := by
      refine List.IsPrefix.trans ?_ h
      rw [bindAll, bindAll_params]
      exact List.prefix_append _ _
    rw [bindAll, mapAll, mapAll, bind_map b f hfirst]
    exact congrArg _ (bindAll_map (bind b f).2 rest h)

end

end Formula

end DocFilter
