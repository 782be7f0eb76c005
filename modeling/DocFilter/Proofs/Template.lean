import DocFilter.Proofs.FilterMeaning

/-!
Templates of filters. A *literal* of a filter is a value that is compared as it is: anything but
nothing or an object under an ordinary key, anything but nothing under an operator. Blanking the
literals of a filter leaves its *template*, and two filters differ in their literals only just if
they have the same template.

Interpreting commutes with blanking (`interpret_template`), and so does compiling as far as the text
goes: a value reaches the text only through the question whether it is of the null kind, and
blanking keeps that. So the text of a statement is the text of its template (`compile_template`).
-/

set_option autoImplicit false

namespace DocFilter

open Text (byte)

/-! ## Templates -/

/-- What stands in a template where a literal was. -/
def Value.blank : Value := .bool true

/-- A value that is compared, blanked. Nothing stays what it is. -/
def Value.blanked (v : Value) : Value := if v.kind == .null then v else .blank

/-- Blanking a value keeps whether it is of the null kind. The compiler asks nothing else of a value before
it binds it, and this is why the template suffices for the text. -/
theorem Value.kind_blanked (v : Value) : (v.blanked.kind == .null) = (v.kind == .null) := by
  rw [blanked]
  split
  · rfl
  · next h => rw [Bool.eq_false_iff.mpr h]; rfl

namespace Filter

mutual

/-- The template of the value of a field. -/
def fieldTemplate : Value → Value
  | .doc entries => .doc (entriesTemplate entries)
  | .table .numbered _ => .blank
  | .table ty entries => .table ty (entriesTemplate entries)
  | .noTable => .noTable
  | v => v.blanked

/-- The template of the entries of an object below a field. -/
def entriesTemplate : List (Text × Value) → List (Text × Value)
  | [] => []
  | (key, v) :: rest =>
    let here :=
      match directiveName? key with
      | some name =>
        match nestedOp? name with
        | some _ => v.blanked
        | none => if name == orName then orTemplate v else v
      | none => fieldTemplate v
    (key, here) :: entriesTemplate rest

/-- The template of an `$or`. -/
def orTemplate : Value → Value
  | .list ty items => .list ty (elementsTemplate items)
  | v => v

/-- The templates of the elements of an `$or`. -/
def elementsTemplate : List Value → List Value
  | [] => []
  | v :: rest => elementTemplate v :: elementsTemplate rest

/-- The template of an element of an `$or`. -/
def elementTemplate : Value → Value
  | .doc fields => .doc (template fields)
  | .table .numbered entries => .table .numbered entries
  | .table ty entries => .table ty (template entries)
  | v => v

/-- The template of a filter: only the values of ordinary fields and groups have literals in them. -/
def template : List (Text × Value) → List (Text × Value)
  | [] => []
  | (key, v) :: rest =>
    let here :=
      match directiveName? key with
      | some name => if name == orName then orTemplate v else v
      | none => fieldTemplate v
    (key, here) :: template rest

end

end Filter

namespace Directive

mutual

/-- A condition with its values blanked. -/
def template : Directive → Directive
  | .comparison op field v => .comparison op field v.blanked
  | .logical op children => .logical op (templates children)
  | d => d

/-- Conditions with their values blanked. -/
def templates : List Directive → List Directive
  | [] => []
  | d :: rest => d.template :: templates rest

end

theorem templates_eq (ds : List Directive) : templates ds = ds.map template := by
  induction ds with
  | nil => rfl
  | cons d rest ih => rw [templates, ih, List.map_cons]

end Directive

/-! ## Sorting and blanking -/

namespace Contributions

/-- Contributions with their values blanked. -/
def template (cs : Contributions) : Contributions :=
  cs.map fun c => (c.1, c.2.map (List.map Directive.template))

/-- Contributions are sorted by their keys, which the template keeps, so it makes no difference whether one
takes the template before or after. -/
theorem sorted_template (cs : Contributions) : cs.template.sorted = cs.sorted.template :=
  sortByKey_map _ (fun _ => rfl) cs

/-- Putting contributions together commutes with taking templates, errors included: the first contribution
that fails is the same in both. -/
theorem combine_template (cs : Contributions) :
    cs.template.combine = cs.combine.map (List.map Directive.template) := by
  induction cs with
  | nil => rfl
  | cons c rest ih =>
    obtain ⟨key, r⟩ := c
    have hcons : template ((key, r) :: rest)
        = (key, r.map (List.map Directive.template)) :: template rest := rfl
    rw [hcons, combine, combine, ih]
    -- an error here comes before anything that follows
    cases r with
    | error e => rfl
    | ok ds =>
      cases combine rest with
      | error e => rfl
      | ok more => exact congrArg Except.ok (List.map_append ..).symm

end Contributions

/-! ## Interpreting commutes with blanking -/

/-- A group as a list of one: the two maps in the definition of a contribution commute. Stated apart because
the goal shows them in either order. -/
theorem orGroup_template_map {r : Except QueryError Directive} :
    (r.map Directive.template).map ([·]) = (r.map ([·])).map (List.map Directive.template) := by
  cases r <;> rfl

mutual

/-- The directives of a blanked field are the blanked directives of the field. This and the next five
statements are one induction over the filter, case by case as the interpreter goes. -/
theorem fieldDirectives_template (path : Text) (v : Value) :
    fieldDirectives path (Filter.fieldTemplate v)
      = (fieldDirectives path v).map (List.map Directive.template) := by
  match v with
  | .doc entries =>
    rw [Filter.fieldTemplate, fieldDirectives, fieldDirectives, nestedEntries_template path entries,
      Contributions.combine_template]
  | .table .any entries | .table .texts entries | .table .counts entries =>
    simp only [Filter.fieldTemplate, fieldDirectives]
    rw [nestedEntries_template path entries, Contributions.sorted_template,
      Contributions.combine_template]
  | .noTable | .null | .bool _ | .text _ | .int _ _ | .float _ _ | .numeral _ | .label _ | .bytes _
  | .time _ | .ref none | .ref (some _) | .list _ _ | .table .numbered _ => rfl

/-- The same for the entries of an object below a field. Keys decide which entry is an operator and which a
longer path, and keys are kept. -/
theorem nestedEntries_template (path : Text) (entries : List (Text × Value)) :
    nestedEntries path (Filter.entriesTemplate entries)
      = (nestedEntries path entries).template := by
  match entries with
  | [] => rfl
  | (key, v) :: rest =>
    simp only [Filter.entriesTemplate, nestedEntries, Contributions.template, List.map_cons]
    refine congrArg₂ List.cons (congrArg (Prod.mk key) ?_) (nestedEntries_template path rest)
    cases directiveName? key with
    | none => exact fieldDirectives_template _ v
    | some name =>
      dsimp only
      cases nestedOp? name with
      | some c => rfl
      | none =>
        -- groups below a field are blanked inside, and all other directive keys contribute nothing
        cases name == orName with
        | true =>
          simp only [if_true]
          rw [orGroup_template v, orGroup_template_map]
        | false => rfl

/-- The same for an `$or`: what is no list is refused with an error that names its kind, and the template
keeps the kind. -/
theorem orGroup_template (v : Value) :
    orGroup (Filter.orTemplate v) = (orGroup v).map Directive.template := by
  match v with
  | .list _ items =>
    simp only [Filter.orTemplate, orGroup]
    rw [orElements_template items]
    cases orElements items with
    | error e => rfl
    | ok ds =>
      exact congrArg (fun ds => Except.ok (Directive.logical .or ds)) (Directive.templates_eq ds).symm
  | .doc _ | .table _ _ | .noTable | .null | .bool _ | .text _ | .int _ _ | .float _ _ | .numeral _
  | .label _ | .bytes _ | .time _ | .ref _ => rfl

/-- The same for the elements of an `$or`, from the first one on; the first error is the same. -/
theorem orElements_template (items : List Value) :
    orElements (Filter.elementsTemplate items)
      = (orElements items).map (List.map Directive.template) := by
  match items with
  | [] => rfl
  | v :: rest =>
    simp only [Filter.elementsTemplate, orElements]
    rw [orElement_template v, orElements_template rest]
    cases orElement v with
    | error e => rfl
    | ok group =>
      cases orElements rest with
      | error e => rfl
      | ok more =>
        -- each element is one conjunction, and blanking goes into it
        show Except.ok (Directive.logical .and (group.map Directive.template) :: _)
          = Except.ok (Directive.logical .and (Directive.templates group) :: _)
        rw [Directive.templates_eq]

/-- The same for one element of an `$or`, which has to be an object. -/
theorem orElement_template (v : Value) :
    orElement (Filter.elementTemplate v)
      = (orElement v).map (List.map Directive.template) := by
  match v with
  | .doc fields =>
    simp only [Filter.elementTemplate, orElement]
    rw [orEntries_template fields, Contributions.combine_template]
  | .table .any fields | .table .texts fields | .table .counts fields =>
    simp only [Filter.elementTemplate, orElement]
    rw [orEntries_template fields, Contributions.sorted_template, Contributions.combine_template]
  | .noTable | .null | .bool _ | .text _ | .int _ _ | .float _ _ | .numeral _ | .label _ | .bytes _
  | .time _ | .ref _ | .list _ _ | .table .numbered _ => rfl

/-- The same for the fields of an element of an `$or`, before they are put together. -/
theorem orEntries_template (fields : List (Text × Value)) :
    orEntries (Filter.template fields) = (orEntries fields).template := by
  match fields with
  | [] => rfl
  | (key, v) :: rest =>
    simp only [Filter.template, orEntries, Contributions.template, List.map_cons]
    refine congrArg₂ List.cons (congrArg (Prod.mk key) ?_) (orEntries_template rest)
    cases directiveName? key with
    | none => exact fieldDirectives_template _ v
    | some name =>
      dsimp only
      cases name == orName with
      | true =>
        simp only [if_true]
        rw [orGroup_template v, orGroup_template_map]
      | false => rfl

end

namespace Contribution

/-- What a field contributes, with the values of its conditions blanked. -/
def template (c : Contribution) : Contribution :=
  ⟨c.clauses, c.conditions.map Directive.template⟩

end Contribution

/-- The template of the value under a key of a filter. -/
def Filter.templateUnder (key : Text) (v : Value) : Value :=
  match directiveName? key with
  | some name => if name == orName then orTemplate v else v
  | none => fieldTemplate v

/-- The template of a filter is taken field by field, and what is done with a value depends on the key above
it only. -/
theorem Filter.template_cons (key : Text) (v : Value) (rest : Document) :
    template ((key, v) :: rest) = (key, templateUnder key v) :: template rest := by
  rw [template, templateUnder]

/-- One field of a filter contributes the same to the template, blanked. Modifiers and extensions are not
blanked: limits, orders and selections are written into the text. -/
theorem interpretField_template (key : Text) (v : Value) :
    interpretField key (Filter.templateUnder key v)
      = (interpretField key v).map Contribution.template := by
  rw [Filter.templateUnder]
  cases hname : directiveName? key with
  | none =>
    simp only [interpretField, hname]
    rw [fieldDirectives_template]
    cases fieldDirectives key v <;> rfl
  | some name =>
    cases hor : name == orName with
    | true =>
      simp only [interpretField, hname, beq_iff_eq.mp hor, beq_self_eq_true, if_true]
      show (orGroup (Filter.orTemplate v) >>= fun d => .ok ⟨[], [d]⟩)
        = (orGroup v >>= fun d => .ok ⟨[], [d]⟩).map Contribution.template
      rw [orGroup_template]
      cases orGroup v <;> rfl
    | false =>
      -- A key that contributes no condition keeps its value, and has nothing to blank.
      simp only [Bool.false_eq_true, if_false, hor]
      cases hc : interpretField key v with
      | error e => rfl
      | ok c =>
        obtain ⟨hconditions, _⟩ := interpretField_clause hname hor hc
        obtain ⟨clauses, conditions⟩ := c
        cases hconditions
        rfl

/-- All fields of a filter contribute the same to the template, blanked. The induction is on the fields, and
the first error is the same. -/
theorem interpretFields_template (d : Document) :
    interpretFields (Filter.template d) = (interpretFields d).map Contribution.template := by
  induction d with
  | nil => rfl
  | cons field rest ih =>
    obtain ⟨key, v⟩ := field
    rw [Filter.template_cons, interpretFields, interpretFields, interpretField_template, ih]
    cases interpretField key v with
    | error e => rfl
    | ok here =>
      cases interpretFields rest with
      | error e => rfl
      | ok more =>
        show Except.ok (Contribution.mk _ _) = Except.ok (Contribution.mk _ _)
        rw [List.map_append]
        rfl

/-- Blanked clauses stay: what is no condition holds no literal. -/
theorem Directive.template_of_not_condition {d : Directive} (h : d.isCondition = false) :
    d.template = d := by
  cases d with
  | comparison | logical => cases h
  | modifier | extension | missing => rfl

/-- **Interpreting commutes with blanking**: the template of a filter is interpreted as the templates of its
directives, or with the same error. Clauses have no literals, so they are their own templates. -/
theorem interpret_template (d : Document) :
    interpret (Filter.template d) = (interpret d).map (List.map Directive.template) := by
  rw [interpret, interpret, interpretFields_template]
  cases hc : interpretFields d with
  | error e => rfl
  | ok c =>
    have hclauses : c.clauses.map Directive.template = c.clauses := by
      have hnone := (interpretFields_denotes hc).2
      rw [List.map_congr_left fun e he => Directive.template_of_not_condition (hnone e he)]
      exact List.map_id' _
    show Except.ok (c.clauses ++ _) = Except.ok (List.map Directive.template (c.clauses ++ _))
    rw [List.map_append, hclauses, Contribution.template, List.isEmpty_map]
    split
    · rfl
    · rw [List.map_singleton, Directive.template, Directive.templates_eq]

/-! ## Compiling commutes with blanking -/

namespace Formula

mutual

/-- The formula of a blanked directive is the blanked formula of the directive, with the same errors. One
induction with the statement after it. -/
theorem ofDirective_template (d : Directive) :
    ofDirective d.template = (ofDirective d).map (map Value.blanked) := by
  match d with
  | .comparison (.known c) field v =>
    rw [Directive.template, ofDirective, ofDirective]
    split <;> rfl
  | .comparison (.other name) field v =>
    rw [Directive.template, ofDirective, ofDirective]
    split <;> rfl
  | .logical .and children | .logical .or children =>
    rw [Directive.template, ofDirective, ofDirective, ofDirectives_templates children]
    cases ofDirectives children <;> rfl
  | .logical (.other name) children | .modifier m | .extension name payload | .missing => rfl

theorem ofDirectives_templates (ds : List Directive) :
    ofDirectives (Directive.templates ds) = (ofDirectives ds).map (mapAll Value.blanked) := by
  match ds with
  | [] => rfl
  | d :: rest =>
    rw [Directive.templates, ofDirectives, ofDirectives, ofDirective_template d,
      ofDirectives_templates rest]
    cases ofDirective d with
    | error e => rfl
    | ok f => cases ofDirectives rest <;> rfl

end

mutual

/-- The placeholders of a formula depend on how many there are before it, and on which of its values are of
the null kind. So blanking the values, which keeps their kinds, changes no placeholder. -/
theorem bind_blanked {b b' : Binder} (h : b.size = b'.size) (f : Formula Value) :
    (bind b (f.map Value.blanked)).1 = (bind b' f).1 ∧
      (bind b (f.map Value.blanked)).2.size = (bind b' f).2.size := by
  match f with
  | .compare field op v =>
    rw [map, bind, bind, Value.kind_blanked]
    split
    · exact ⟨rfl, h⟩
    · simp [Binder.bind, Binder.size] at h ⊢
      exact h
  | .all parts =>
    obtain ⟨hparts, hsize⟩ := bindAll_blanked h parts
    exact ⟨congrArg Formula.all hparts, hsize⟩
  | .any parts =>
    obtain ⟨hparts, hsize⟩ := bindAll_blanked h parts
    exact ⟨congrArg Formula.any hparts, hsize⟩

/-- The placeholders of several formulas do not depend on their values: binders that have given out the same
number of placeholders go on in the same way, and end with the same number. -/
theorem bindAll_blanked {b b' : Binder} (h : b.size = b'.size) (fs : List (Formula Value)) :
    (bindAll b (mapAll Value.blanked fs)).1 = (bindAll b' fs).1 ∧
      (bindAll b (mapAll Value.blanked fs)).2.size = (bindAll b' fs).2.size := by
  match fs with
  | [] => exact ⟨rfl, h⟩
  | f :: rest =>
    obtain ⟨hf, hsize⟩ := bind_blanked h f
    obtain ⟨hrest, hsize'⟩ := bindAll_blanked hsize rest
    exact ⟨congrArg₂ List.cons hf hrest, hsize'⟩

end

end Formula

namespace Clauses

/-- Clauses with the values of their conditions blanked. -/
def template (c : Clauses) : Clauses :=
  { c with conditions := c.conditions.map Directive.template }

/-- One directive goes into the same clauses, blanked. Amounts are checked at this point, and they are not
blanked. -/
theorem add_template (c : Clauses) (d : Directive) :
    c.template.add d.template = (c.add d).map template := by
  cases d with
  | comparison | logical => simp [Directive.template, add, template, Except.map]
  | extension | missing => rfl
  | modifier m =>
    simp only [Directive.template, add]
    cases m.kind with
    | select | other => rfl
    | limit | skip => cases m.amount.amount? <;> rfl
    | sort =>
      dsimp only
      split <;> rfl

/-- The same for a list of directives, with the first error. Whether a directive is accepted never depends
on a literal in it. -/
theorem addAll_template (c : Clauses) (ds : List Directive) :
    c.template.addAll (ds.map Directive.template) = (c.addAll ds).map template := by
  induction ds generalizing c with
  | nil => rfl
  | cons d rest ih =>
    rw [List.map_cons, addAll, addAll, add_template]
    cases c.add d with
    | error e => rfl
    | ok c' => exact ih c'

end Clauses

/-- The clauses of a statement, without its parameters, are the same for the template. Here the two halves
meet: clauses are gathered alike, and the condition is bound with the same numbers. -/
theorem select_template (options : CompileOptions) (ds : List Directive) :
    (select options (ds.map Directive.template)).map Prod.fst
      = (select options ds).map Prod.fst := by
  have haddAll : ({} : Clauses).addAll (ds.map Directive.template)
      = (({} : Clauses).addAll ds).map Clauses.template := Clauses.addAll_template {} ds
  rw [select, select, haddAll]
  cases ({} : Clauses).addAll ds with
  | error e => rfl
  | ok c =>
    -- The clauses differ in their conditions only, and these become the same formula.
    have hcondition : conditionOf c.template.conditions
        = (conditionOf c.conditions).map (Option.map (Formula.map Value.blanked)) := by
      rw [conditionOf, conditionOf, Clauses.template, List.isEmpty_map, ← Directive.templates_eq,
        Formula.ofDirectives_templates]
      split
      · rfl
      · cases Formula.ofDirectives c.conditions <;> rfl
    show (conditionOf c.template.conditions >>= _ : Except _ _).map Prod.fst
      = (conditionOf c.conditions >>= _ : Except _ _).map Prod.fst
    rw [hcondition]
    cases conditionOf c.conditions with
    | error e => rfl
    | ok condition =>
      cases condition with
      | none => rfl
      | some f =>
        have hbind : (Formula.bind {} (f.map Value.blanked)).1 = (Formula.bind {} f).1 :=
          (Formula.bind_blanked rfl f).1
        exact congrArg (fun g => Except.ok (Select.mk _ options.scope (some g) c.order c.limit c.skip))
          hbind

/-- The text of a statement is a function of its clauses. So whatever leaves the clauses as they are leaves
the text as it is. -/
theorem compile_text (options : CompileOptions) (ds : List Directive) :
    (compile options ds).map Statement.text = ((select options ds).map Prod.fst).map Select.text := by
  rw [compile]
  cases select options ds <;> rfl

/-- **The text of a statement is the text of its template.** -/
theorem compile_template (options : CompileOptions) (ds : List Directive) :
    (compile options (ds.map Directive.template)).map Statement.text
      = (compile options ds).map Statement.text := by
  rw [compile_text, compile_text, select_template]

end DocFilter
