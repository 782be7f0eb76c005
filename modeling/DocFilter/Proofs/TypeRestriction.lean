import DocFilter.Proofs.FilterMeaning
import DocFilter.Service.Find

/-!
A search stays within the type of its service. The demand on the type is one entry of a document
that the caller wrote, and what the caller wrote around it may be anything: other entries under the
same key, groups, clauses, and comparisons that the options add.

The conditions of a search are the conjunction of its filter, and beside it the comparisons of the
options. A conjunction of one part is written as that part, so beside a comparison a filter that
were nothing but a disjunction would be read wrongly. The demand on the type rules this out: it is a
part of the conjunction, so the only part, if there is one, is a comparison
(`Directive.sealed_and`).
-/

set_option autoImplicit false

namespace DocFilter

/-! ## What is asked -/

/-- Whether a program asks an operation, given the right answers before. -/
def Program.Asks {Op : Type} {Answer : Op → Type} {α : Type} (op : Op) :
    Program Op Answer α → Prop
  | .done _ => False
  | .ask op' next => op' = op ∨ ∃ r, Asks op (next r)

/-- What a search asks of the database is the statement of its plan. -/
theorem Service.find_asks {s : Service} {filter : Document} {options : List FindOption}
    {call : Call}
    (h : Program.Asks (.query call) (s.find filter options).run) :
    ∃ plan, (options.foldl Search.apply (Search.start s filter)).plan = .ok plan ∧
      call.statement = plan.statement.text ∧ call.args = plan.statement.params := by
  rw [Service.find] at h
  split at h
  · cases h
  · next plan hplan =>
    refine ⟨plan, hplan, ?_⟩
    -- The plan is logged, sent, and logged again if the database failed.
    obtain h | ⟨_, h⟩ := h
    · cases h
    rw [Service.send] at h
    cases hc : plan.builder.consistencyLevel with
    | error e =>
      rw [hc] at h
      obtain h | ⟨_, h⟩ := h
      · cases h
      · cases h
    | ok c =>
      rw [hc] at h
      obtain h | ⟨r, h⟩ := h
      · cases h
        exact ⟨rfl, rfl⟩
      · cases r with
        | error e =>
          obtain h | ⟨_, h⟩ := h
          · cases h
          · cases h
        | ok result => cases h

/-! ## What options add -/

/-- The condition that an option adds. -/
def FindOption.conditions : FindOption → List Directive
  | .compare field op v => [.comparison op field v]
  | _ => []

/-- The truth of the condition that an option adds. -/
def FindOption.holds (ρ : Assignment) (o : FindOption) : Bool :=
  o.conditions.all (Directive.holds ρ)

/-- A builder came out of another one. If nothing has failed, the conditions were added to it. -/
structure Builder.Grows (b b' : Builder) (conditions : List Directive) : Prop where
  scope : b'.scope = b.scope
  conditions : b'.error = none → b.error = none ∧
    b'.directives.filter Directive.isCondition
      = b.directives.filter Directive.isCondition ++ conditions

namespace Builder.Grows

theorem refl (b : Builder) : b.Grows b [] := ⟨rfl, fun h => ⟨h, (List.append_nil _).symm⟩⟩

/-- Growing twice adds the conditions of both steps in their order. -/
theorem trans {b b' b'' : Builder} {conditions conditions' : List Directive}
    (h : b.Grows b' conditions) (h' : b'.Grows b'' conditions') :
    b.Grows b'' (conditions ++ conditions') := by
  refine ⟨h'.scope.trans h.scope, fun herror => ?_⟩
  obtain ⟨herror', hconditions'⟩ := h'.conditions herror
  obtain ⟨herror'', hconditions⟩ := h.conditions herror'
  exact ⟨herror'', by rw [hconditions', hconditions, List.append_assoc]⟩

/-- Adding directives adds the conditions among them. An error adds none, but then the builder has failed,
and no statement comes of it. -/
theorem addResult (b : Builder) {r : Except QueryError (List Directive)}
    {conditions : List Directive}
    (hr : ∀ ds, r = .ok ds → ds.filter Directive.isCondition = conditions) :
    b.Grows (b.addResult r) conditions := by
  -- A builder that has failed, or fails now, has an error, and then nothing is claimed.
  obtain ⟨scope, directives, error, hasQuerier, consistency⟩ := b
  cases error with
  | some e => cases r <;> exact ⟨rfl, fun h => nomatch h⟩
  | none =>
    cases r with
    | error e => exact ⟨rfl, fun h => nomatch h⟩
    | ok ds =>
      refine ⟨rfl, fun _ => ⟨rfl, ?_⟩⟩
      rw [← hr ds rfl]
      exact List.filter_append ..

theorem addOne (b : Builder) {r : Except QueryError Directive} {conditions : List Directive}
    (hr : ∀ d, r = .ok d → [d].filter Directive.isCondition = conditions) :
    b.Grows (b.addOne r) conditions := by
  refine addResult b fun ds hds => ?_
  cases r with
  | error e => cases hds
  | ok d =>
    cases hds
    exact hr d rfl

theorem select (b : Builder) (fields : List Text) : b.Grows (b.select fields) [] := by
  refine addResult b (r := .ok [Directive.select fields]) ?_
  rintro _ ⟨⟩
  rfl

theorem amount (b : Builder) (kind : ModifierKind) (v : Value) :
    b.Grows (b.addOne (Directive.amount kind v)) [] := by
  refine addOne b fun d hd => ?_
  rw [Directive.amount] at hd
  split at hd
  · cases hd
  · cases hd
    rfl

theorem sort (b : Builder) (fields : List Text) (order : Text) :
    b.Grows (b.sort fields order) [] := by
  refine addOne b fun d hd => ?_
  rw [Directive.sort] at hd
  split at hd
  · cases hd
  · obtain ⟨direction, _, hd⟩ := bind_eq_ok hd
    cases hd
    rfl

theorem compare (b : Builder) (field : Text) (op : CompareOp) (v : Value) :
    b.Grows (b.compare field op v) [.comparison op field v] := by
  refine addOne b fun d hd => ?_
  unfold Directive.compare at hd
  split at hd
  · cases hd
  · split at hd
    · cases hd
      rfl
    · cases hd

end Builder.Grows

/-- One option adds its condition, if it has one: only comparisons are conditions, and all other options add
clauses or are kept aside. -/
theorem Search.apply_grows (s : Search) (o : FindOption) :
    s.builder.Grows (s.apply o).builder o.conditions := by
  cases o with
  | select fields => exact Builder.Grows.select s.builder fields
  | limit n => exact Builder.Grows.amount s.builder .limit (.int .int n)
  | skip n => exact Builder.Grows.amount s.builder .skip (.int .int n)
  | ascending field => exact Builder.Grows.sort s.builder [field] "ASC"
  | descending field => exact Builder.Grows.sort s.builder [field] "DESC"
  | compare field op v => exact Builder.Grows.compare s.builder field op v
  | consistency c => exact ⟨rfl, (Builder.Grows.refl s.builder).conditions⟩
  | paginate p => exact Builder.Grows.refl s.builder

/-- All options add their conditions, in order. -/
theorem Search.foldl_grows (s : Search) (options : List FindOption) :
    s.builder.Grows (options.foldl Search.apply s).builder
      (options.flatMap FindOption.conditions) := by
  induction options generalizing s with
  | nil => exact Builder.Grows.refl s.builder
  | cons o rest ih => exact (s.apply_grows o).trans (ih (s.apply o))

/-- Getting a search ready adds no condition, and its statement is compiled from what it has. All that may
be added is the limit of a page. -/
theorem Search.plan_ok {s : Search} {plan : SearchPlan} (h : s.plan = .ok plan) :
    s.builder.Grows plan.builder [] ∧ plan.builder.error = none ∧
      compile { scope := plan.builder.scope } plan.builder.directives = .ok plan.statement := by
  have hbuild : s.builder.Grows plan.builder [] ∧ plan.builder.build id = .ok plan.statement := by
    rw [Search.plan] at h
    obtain ⟨w, _, h⟩ := bind_eq_ok h
    -- with a limit of the page, and without one
    split at h
    · next limit _ =>
      obtain ⟨st, hst, h⟩ := bind_eq_ok h
      cases h
      exact ⟨Builder.Grows.amount s.builder .limit (.int .int64 limit), hst⟩
    · obtain ⟨st, hst, h⟩ := bind_eq_ok h
      cases h
      exact ⟨Builder.Grows.refl s.builder, hst⟩
  refine ⟨hbuild.1, ?_⟩
  have hst := hbuild.2
  rw [Builder.build] at hst
  split at hst
  · cases hst
  · next herror => exact ⟨herror, hst⟩

/-- A search starts in the bucket of its service, with the conditions of its filter. -/
theorem Search.start_ok {s : Service} {filter : Document}
    (h : (Search.start s filter).builder.error = none) :
    (Search.start s filter).builder.scope = s.bucket ∧
      interpret (filter.set Service.typeField (.text s.name))
        = .ok (Search.start s filter).builder.directives := by
  simp only [Search.start, Builder.connected, Builder.interpret] at h ⊢
  cases hds : interpret (filter.set Service.typeField (.text s.name)) with
  | error e =>
    rw [hds] at h
    cases h
  | ok ds => exact ⟨rfl, rfl⟩

/-! ## The demand on the type -/

namespace Document

/-- Setting a key goes along the document to the first entry with the key. -/
theorem set_cons (k : Text) (old : Value) (rest : Document) (key : Text) (v : Value) :
    set ((k, old) :: rest) key v
      = if k == key then (k, v) :: rest else (k, old) :: set rest key v := by
  rw [set, replace?]
  split
  · rfl
  · rw [set]
    cases replace? rest key v <;> rfl

theorem mem_set (d : Document) (key : Text) (v : Value) : (key, v) ∈ d.set key v := by
  induction d with
  | nil => exact List.mem_singleton.mpr rfl
  | cons field rest ih =>
    obtain ⟨k, old⟩ := field
    rw [set_cons]
    split
    · next hk => rw [beq_iff_eq.mp hk]; exact List.mem_cons_self
    · exact List.mem_cons_of_mem _ ih

/-- Setting a field demands it, beside what the document says without the first field of that key. Further
fields with the key stay, and are demanded as well. -/
theorem holds_set (ρ : Assignment) (d : Document) (key : Text) (v : Value) :
    Filter.holds ρ (d.set key v)
      = (Filter.holds ρ [(key, v)] && Filter.holds ρ (d.eraseP (·.1 == key))) := by
  induction d with
  | nil => exact (Bool.and_true _).symm
  | cons field rest ih =>
    obtain ⟨k, old⟩ := field
    rw [set_cons, List.eraseP_cons]
    split
    -- the field is here, and its old value does not count any more
    · next hk =>
      rw [beq_iff_eq.mp hk, Filter.holds_cons]
      simp
    · next hk =>
      simp only [hk]
      rw [Filter.holds_cons, ih, cond_false, Filter.holds_cons ρ k old (rest.eraseP _)]
      exact Bool.and_left_comm _ _ _

end Document

/-- What a field contributes is among the conditions of its filter: nothing that other fields contribute
takes it away. -/
theorem interpretFields_mem {d : Document} {c : Contribution} (h : interpretFields d = .ok c)
    {key : Text} {v : Value} (hmem : (key, v) ∈ d) :
    ∃ here, interpretField key v = .ok here ∧ ∀ e ∈ here.conditions, e ∈ c.conditions := by
  induction d generalizing c with
  | nil => cases hmem
  | cons field rest ih =>
    rw [interpretFields] at h
    obtain ⟨first, hfirst, h⟩ := bind_eq_ok h
    obtain ⟨more, hmore, h⟩ := bind_eq_ok h
    cases h
    rcases List.mem_cons.mp hmem with heq | hmem
    · cases heq
      exact ⟨first, hfirst, fun e he => List.mem_append_left _ he⟩
    · obtain ⟨here, hhere, hconditions⟩ := ih hmore hmem
      exact ⟨here, hhere, fun e he => List.mem_append_right _ (hconditions e he)⟩

/-- A conjunction with a comparison among its parts can stand beside other conditions. -/
theorem Directive.sealed_and {ds : List Directive} (hds : ∀ d ∈ ds, d.Sealed) {op : CompareOp}
    {path : Text} {v : Value} (hmem : Directive.comparison op path v ∈ ds) :
    (Directive.logical .and ds).Sealed := by
  intro f hf
  rw [Formula.ofDirective] at hf
  obtain ⟨fs, hfs, hf⟩ := bind_eq_ok hf
  cases hf
  refine ⟨Formula.guarded_all_of_sealed hfs hds, ?_⟩
  rw [Formula.eq_toDirectives ds hfs] at hmem
  match fs with
  | [] => rfl
  | [g] =>
    -- The only part is the comparison, and that opens nothing.
    have hg := List.mem_singleton.mp hmem
    cases g with
    | compare field c rhs => rfl
    | all parts | any parts => cases hg
  | g :: g' :: rest => rfl

namespace Service

open Formula

/-- What the filter of a search says: the type is that of the service, and the rest of the filter
holds. -/
theorem holds_restricted (s : Service) (ρ : Assignment) (filter : Document) :
    Filter.holds ρ (filter.set typeField (.text s.name))
      = (ρ ⟨typeField, .eq, .value (.text s.name)⟩ &&
          Filter.holds ρ (filter.eraseP (·.1 == typeField))) := by
  rw [Document.holds_set]
  exact congrArg (· && _) (Bool.and_true _)

/-- The conditions of a search in the bucket of its service: the conjunction of its filter, which
demands the type, and the comparisons of its options. -/
theorem plan_conditions {s : Service} {filter : Document} {options : List FindOption}
    {plan : SearchPlan}
    (h : (options.foldl Search.apply (Search.start s filter)).plan = .ok plan) :
    plan.builder.scope = s.bucket ∧
      ∃ c, interpretFields (filter.set typeField (.text s.name)) = .ok c ∧
        Directive.comparison (.known .eq) typeField (.text s.name) ∈ c.conditions ∧
        plan.builder.directives.filter Directive.isCondition
          = .logical .and c.conditions :: options.flatMap FindOption.conditions := by
  obtain ⟨hplan, herror, _⟩ := Search.plan_ok h
  have hgrows := (Search.foldl_grows (Search.start s filter) options).trans hplan
  obtain ⟨hstart, hconditions⟩ := hgrows.conditions herror
  obtain ⟨hscope, hds⟩ := Search.start_ok hstart
  obtain ⟨c, hc, hcs⟩ := interpret_conditions hds
  -- The demand on the type is a field of the filter, so it is one of the conditions.
  have hfield := Document.mem_set filter typeField (.text s.name)
  obtain ⟨here, hhere, hmem⟩ := interpretFields_mem hc hfield
  cases hhere
  have htype := hmem _ (List.mem_singleton.mpr rfl)
  refine ⟨hgrows.scope.trans hscope, c, hc, htype, ?_⟩
  have hne : c.conditions.isEmpty = false := by
    rw [List.isEmpty_eq_false_iff]
    exact List.ne_nil_of_mem htype
  rw [hconditions, hcs, hne, List.append_nil]
  rfl

/-- The conditions that options add are comparisons, which are sealed. -/
theorem sealed_options {options : List FindOption} {d : Directive}
    (hd : d ∈ options.flatMap FindOption.conditions) : d.Sealed := by
  obtain ⟨o, _, hd⟩ := List.mem_flatMap.mp hd
  cases o with
  | compare field op v =>
    rw [List.mem_singleton.mp hd]
    exact Directive.sealed_comparison op field v
  | select | limit | skip | ascending | descending | consistency | paginate => cases hd

/-- **A search never leaves its type.** Whenever a search asks the database, the condition of the
statement it sends can be read in one way, and it says: the type is that of the service, the filter
without its first entry for the type holds, and so do the comparisons of the options. -/
theorem find_within_type (s : Service) (filter : Document) (options : List FindOption) (call : Call)
    (h : Program.Asks (.query call) (s.find filter options).run) :
    ∃ plan t f, (options.foldl Search.apply (Search.start s filter)).plan = .ok plan ∧
      call.statement = plan.statement.text ∧ call.args = plan.statement.params ∧
      HasCondition { scope := s.bucket } plan.builder.directives plan.statement (some t) ∧
      (∀ g, ReadsAs t g ↔ g = f) ∧
      (∀ ρ, f.holds (Operand.literal call.args) ρ
        = (ρ ⟨typeField, .eq, .value (.text s.name)⟩ &&
            Filter.holds ρ (filter.eraseP (·.1 == typeField)) &&
            options.all (FindOption.holds ρ))) ∧
      ∀ ρ, f.holds (Operand.literal call.args) ρ = true →
        ρ ⟨typeField, .eq, .value (.text s.name)⟩ = true := by
  obtain ⟨plan, hplan, hstatement, hargs⟩ := find_asks h
  obtain ⟨hscope, c, hc, htype, hconditions⟩ := plan_conditions hplan
  obtain ⟨_, _, hst⟩ := Search.plan_ok hplan
  rw [hscope] at hst
  have hdenotes := (interpretFields_denotes hc).1
  -- No part of the conjunction is exposed.
  have hsealed : ∀ d ∈ plan.builder.directives.filter Directive.isCondition, d.Sealed := by
    rw [hconditions]
    intro d hd
    rcases List.mem_cons.mp hd with rfl | hd
    · exact Directive.sealed_and hdenotes.isSealed htype
    · exact sealed_options hd
  obtain ⟨fs, hfs, _⟩ := compile_ok hst
  have hne : fs ≠ [] := by
    rintro rfl
    have hnil := eq_toDirectives _ hfs
    rw [hconditions] at hnil
    cases hnil
  obtain ⟨t, f, hw, hread, hholds⟩ :=
    compile_guarded hst hfs hne (guarded_all_of_sealed hfs hsealed)
  have hmeaning : ∀ ρ, f.holds (Operand.literal call.args) ρ
      = (ρ ⟨typeField, .eq, .value (.text s.name)⟩ &&
          Filter.holds ρ (filter.eraseP (·.1 == typeField)) &&
          options.all (FindOption.holds ρ)) := by
    intro ρ
    rw [hargs, hholds, hconditions, List.all_cons, Directive.holds, Directive.allHold_eq,
      hdenotes.holds, holds_restricted, List.all_flatMap]
    rfl
  refine ⟨plan, t, f, hplan, hstatement, hargs, hw, hread, hmeaning, fun ρ hρ => ?_⟩
  rw [hmeaning ρ, Bool.and_eq_true, Bool.and_eq_true] at hρ
  exact hρ.1.1

/-- The service of the documents of type `user`. -/
def users : Service := ⟨"b", "user", "uuid", "::", {}⟩

/-- A filter that is a disjunction, but for a type of its own. -/
def eitherAdmin : Document :=
  [("$or", .list .any [.doc [("a", .int .int 1)], .doc [("b", .int .int 2)]]),
    ("_type", .text "admin")]

/-- A comparison beside the filter. -/
def aboveThree : List FindOption := [.compare "c" (.known .gt) (.int .int 3)]

/-- The clauses of the search. -/
def eitherAdminSelect : Select where
  columns := ["*"]
  scope := "b"
  condition := some (.all [.all
    [.any [.all [.compare "a" .eq (.placeholder 1)], .all [.compare "b" .eq (.placeholder 2)]],
      .compare "_type" .eq (.placeholder 3)], .compare "c" .gt (.placeholder 4)])
  order := []
  limit := none
  offset := none

/-- The search is sent, and stays within `user`: beside a group of alternatives and a further comparison,
the condition on the type is a conjunct of its own. -/
theorem users_find_eitherAdmin :
    ∃ call f, Program.Asks (.query call) (users.find eitherAdmin aboveThree).run ∧
      call.statement = Text.ofString
        "SELECT `b`.* FROM `b` WHERE ((`a` = $1) OR (`b` = $2)) AND `_type` = $3 AND `c` > $4" ∧
      (∃ t, call.statement = eitherAdminSelect.opening ++ Text.ofString " WHERE " ++ t ∧
        ReadsAs t f) ∧
      ∀ ρ, f.holds (Operand.literal call.args) ρ = true →
        ρ ⟨typeField, .eq, .value (.text "user")⟩ = true := by
  let search := aboveThree.foldl Search.apply (Search.start users eitherAdmin)
  let params : List Value := [.int .int 1, .int .int 2, .text "user", .int .int 3]
  have hselect : select { scope := "b" } search.builder.directives
      = .ok (eitherAdminSelect, params) := by rfl
  have hbuild : search.builder.build id = .ok ⟨eitherAdminSelect.text, params⟩ := by
    show compile { scope := "b" } search.builder.directives = _
    rw [compile, hselect]
    rfl
  have hplan : search.plan = .ok ⟨search.builder, ⟨eitherAdminSelect.text, params⟩, 0, 0⟩ := by
    have hwindow : search.builder.window = .ok {} := by rfl
    rw [Search.plan, hwindow]
    show (search.builder.build id >>= fun st => .ok (SearchPlan.mk search.builder st 0 0)) = _
    rw [hbuild]
    rfl
  have hasks : Program.Asks (.query ⟨eitherAdminSelect.text, params, []⟩)
      (users.find eitherAdmin aboveThree).run := by
    rw [find, hplan]
    exact .inr ⟨(), .inl rfl⟩
  -- the general statement, with its parts identified with those of this search
  obtain ⟨plan, t, f, hplan', hstatement, _, ⟨sel, hsel, htext⟩, hread, _, htype⟩ :=
    find_within_type users eitherAdmin aboveThree _ hasks
  cases hplan.symm.trans hplan'
  cases hselect.symm.trans hsel
  refine ⟨_, f, hasks, by decide +kernel, ⟨t, ?_, (hread f).mpr rfl⟩, htype⟩
  rw [hstatement, htext]
  exact List.append_nil _

end Service

end DocFilter
