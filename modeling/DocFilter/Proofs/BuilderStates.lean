import DocFilter.Proofs.ClauseOrder

/-!
What a builder knows at every point of its life. It has been called any number of times, in any order
and with anything (`Action`), and two things can be said of it.

The first call that fails decides. Before it every call adds what it produces, and afterwards nothing
is added and nothing else goes wrong, so that the directives and the error of a builder can be read off
the list of its calls (`acts_until_failure`). From then on the builder has one answer to everything
(`first_error_freezes`).

What a builder announces is what it builds. `window` and `selected` go through the directives on their
own, and never see the statement; still the limit, the skip and the fields that they report are those of
the statement, and where there is no window there is no statement (`build_announced`).
-/

set_option autoImplicit false

namespace DocFilter

namespace Builder

/-! ## Calls of all kinds -/

/-- A call on a builder: one that adds directives, or one that sets something. -/
inductive Action where
  | step (s : Step)
  | interpret (d : Document)
  | within (scope : Text)
  | connected
  | withConsistency (c : Consistency)

/-- The builder after a call. -/
def act (b : Builder) : Action → Builder
  | .step s => b.perform s
  | .interpret d => b.interpret d
  | .within scope => b.within scope
  | .connected => b.connected
  | .withConsistency c => b.withConsistency c

/-- The builder after several calls. -/
def acts (b : Builder) (actions : List Action) : Builder := actions.foldl act b

namespace Action

/-- The directives of a call, or why it fails. A call that sets something has none and cannot fail. -/
def outcome : Action → Except QueryError (List Directive)
  | .step s => s.added
  | .interpret d => DocFilter.interpret d
  | .within _ => .ok []
  | .connected => .ok []
  | .withConsistency _ => .ok []

/-- The directives that a call produces. -/
def produced (a : Action) : List Directive := a.outcome.toOption.getD []

/-- The error of a call that fails. -/
def failure? (a : Action) : Option QueryError :=
  match a.outcome with
  | .ok _ => none
  | .error e => some e

end Action

/-! ## The first error -/

theorem addResult_of_error {b : Builder} {e : QueryError} (h : b.error = some e)
    (r : Except QueryError (List Directive)) : b.addResult r = b := by
  unfold addResult add fail
  cases r <;> simp only [h]

/-- After an error a call leaves the directives and the error alone. -/
theorem act_of_error {b : Builder} {e : QueryError} (h : b.error = some e) (a : Action) :
    (b.act a).directives = b.directives ∧ (b.act a).error = some e := by
  cases a with
  | step s => rw [act, perform_eq, addResult_of_error h]; exact ⟨rfl, h⟩
  | interpret d => rw [act, interpret, addResult_of_error h]; exact ⟨rfl, h⟩
  | within scope => exact ⟨rfl, h⟩
  | connected => exact ⟨rfl, h⟩
  | withConsistency c => exact ⟨rfl, h⟩

/-- Before the first error a call adds what it produces, or it is the one that fails. Calls that set the
scope, the database or the consistency produce nothing and cannot fail. -/
theorem act_of_no_error {b : Builder} (h : b.error = none) (a : Action) :
    (b.act a).directives = b.directives ++ a.produced ∧ (b.act a).error = a.failure? := by
  have hresult : ∀ r : Except QueryError (List Directive), a.outcome = r →
      (b.addResult r).directives = b.directives ++ a.produced ∧ (b.addResult r).error = a.failure? := by
    intro r hr
    unfold Action.produced Action.failure? addResult add fail
    rw [hr]
    cases r with
    | ok ds => simp only [h]; exact ⟨rfl, trivial⟩
    | error e => simp only [h]; exact ⟨(List.append_nil _).symm, trivial⟩
  cases a with
  | step s => rw [act, perform_eq]; exact hresult _ rfl
  | interpret d => exact hresult _ rfl
  | within scope => exact ⟨(List.append_nil _).symm, h⟩
  | connected => exact ⟨(List.append_nil _).symm, h⟩
  | withConsistency c => exact ⟨(List.append_nil _).symm, h⟩

theorem acts_of_error {b : Builder} {e : QueryError} (h : b.error = some e) (actions : List Action) :
    (b.acts actions).directives = b.directives ∧ (b.acts actions).error = some e := by
  induction actions generalizing b with
  | nil => exact ⟨rfl, h⟩
  | cons a rest ih =>
    obtain ⟨hsame, herror⟩ := act_of_error h a
    obtain ⟨hrest, hrest'⟩ := ih herror
    exact ⟨hrest.trans hsame, hrest'⟩

/-- The directives and the error of a builder, read off its calls. -/
theorem acts_until_failure {b : Builder} (h : b.error = none) (actions : List Action) :
    (b.acts actions).directives
        = b.directives ++ (actions.takeWhile fun a => a.failure?.isNone).flatMap Action.produced ∧
      (b.acts actions).error = actions.findSome? Action.failure? := by
  -- on the calls, as long as none has failed; from the first failure on `acts_of_error` takes over
  induction actions generalizing b with
  | nil => exact ⟨(List.append_nil _).symm, h⟩
  | cons a rest ih =>
    obtain ⟨hadded, herror⟩ := act_of_no_error h a
    show ((b.act a).acts rest).directives = _ ∧ ((b.act a).acts rest).error = _
    rw [List.takeWhile_cons, List.findSome?_cons]
    cases hfailure : a.failure? with
    | none =>
      rw [hfailure] at herror
      obtain ⟨hrest, hrest'⟩ := ih herror
      rw [hrest, hrest', hadded, List.append_assoc]
      exact ⟨rfl, rfl⟩
    | some e =>
      -- the call that fails produces nothing
      have hnothing : a.produced = [] := by
        unfold Action.failure? at hfailure
        unfold Action.produced
        cases hout : a.outcome with
        | ok ds => rw [hout] at hfailure; cases hfailure
        | error e' => rfl
      rw [hfailure] at herror
      obtain ⟨hrest, hrest'⟩ := acts_of_error herror rest
      rw [hrest, hrest', hadded, hnothing]
      exact ⟨rfl, rfl⟩

theorem act_hasQuerier (b : Builder) (a : Action) :
    (b.act a).hasQuerier = true ↔ b.hasQuerier = true ∨ a = .connected := by
  have hkept : ∀ r : Except QueryError (List Directive), (b.addResult r).hasQuerier = b.hasQuerier := by
    intro r
    unfold addResult add fail
    cases r <;> cases b.error <;> rfl
  cases a with
  | step s => rw [act, perform_eq, hkept]; simp
  | interpret d => rw [act, interpret, hkept]; simp
  | within scope => simp [act, within]
  | connected => simp [act, connected]
  | withConsistency c => simp [act, withConsistency]

/-- There is a database to ask just if a call has said so, before or after an error. -/
theorem acts_hasQuerier (b : Builder) (actions : List Action) :
    (b.acts actions).hasQuerier = true ↔ b.hasQuerier = true ∨ .connected ∈ actions := by
  induction actions generalizing b with
  | nil => simp [acts]
  | cons a rest ih =>
    show ((b.act a).acts rest).hasQuerier = true ↔ _
    rw [ih, act_hasQuerier, List.mem_cons, or_assoc, eq_comm (a := a)]

/-- A builder with an error has one answer to everything. -/
theorem answers_of_error {b : Builder} {e : QueryError} (h : b.error = some e) :
    (∀ options, b.build options = .error e) ∧ b.window = .error e ∧
      (b.hasQuerier = true → b.call = .error (.query e)) := by
  have hbuild : ∀ options, b.build options = .error e := fun options => by rw [build, h]
  refine ⟨hbuild, by rw [window, h], ?_⟩
  intro hquerier
  rw [call, if_pos hquerier, hbuild]
  rfl

/-- **The first error stays, and the builder with it.** The directives of a builder are those of the
calls before the first one that fails, one after the other, and its error is the error of that call. No
later call changes them; compiling, the window and, where there is a database to ask, the query all end
in this error, and then nothing is sent. -/
theorem first_error_freezes (scope : Text) (actions later : List Action) :
    let b := ({ scope := scope } : Builder).acts actions
    b.directives = (actions.takeWhile fun a => a.failure?.isNone).flatMap Action.produced ∧
      b.error = actions.findSome? Action.failure? ∧
      ∀ e, b.error = some e →
        (b.acts later).directives = b.directives ∧ (b.acts later).error = some e ∧
        (∀ options, (b.acts later).build options = .error e) ∧ (b.acts later).window = .error e ∧
        (.connected ∈ actions ++ later → (b.acts later).call = .error (.query e)) := by
  intro b
  obtain ⟨hdirectives, herror⟩ := acts_until_failure (b := { scope := scope }) rfl actions
  refine ⟨hdirectives, herror, ?_⟩
  intro e he
  -- an error that is there stays, and decides every answer
  obtain ⟨hsame, hstays⟩ := acts_of_error he later
  obtain ⟨hbuild, hwindow, hcall⟩ := answers_of_error hstays
  refine ⟨hsame, hstays, hbuild, hwindow, ?_⟩
  intro hconnected
  apply hcall
  -- the database may have been given before the error or after it
  rw [acts_hasQuerier, acts_hasQuerier, or_assoc, ← List.mem_append]
  exact .inr hconnected

/-- The second group is misshapen, so not even the first one is added, and the calls behind the
disjunction do not count. -/
example : let b := ({} : Builder).acts [.step (.select ["a"]),
      .step (.or [[("b", .int .int 1)], [("$or", .null)]]), .step (.select ["c"]), .step (.skip .null)]
    b.directives = [.select ["a"]] ∧ b.error.isSome = true := ⟨rfl, rfl⟩

end Builder

/-! ## What is announced -/

/-- What stands between the columns of a statement and its window. -/
def Select.middle (s : Select) : Text :=
  clause " FROM " identifier (if s.scope.isEmpty then none else some s.scope) ++
    clause " WHERE " (Formula.text .alone) s.condition ++
    clause " ORDER BY " (fun ks => Text.join ", " (ks.map orderKey))
      (if s.order.isEmpty then none else some s.order)

theorem Select.text_eq_middle (s : Select) :
    s.text = Text.ofString "SELECT " ++ Text.join "," (s.columns.map (column s.scope)) ++ s.middle
      ++ clause " LIMIT " Text.ofNat s.limit ++ clause " OFFSET " Text.ofNat s.offset := by
  simp only [text, middle, List.append_assoc]

/-- Whether a directive neither selects fields nor moves the window. -/
def Directive.isPlain (d : Directive) : Bool :=
  (Builder.selection? d).isNone && (d.amount? .limit).isNone && (d.amount? .skip).isNone

namespace Clauses

/-- The clauses without a selection and without a window. -/
def plain (c : Clauses) : Clauses := { c with selected := [], limit := none, skip := none }

/-- A plain directive is taken into account the same way without selection and window, and no other
directive counts there. -/
theorem plain_add {c c' : Clauses} {d : Directive} (h : c.add d = .ok c') :
    (d.isPlain = true → c.plain.add d = .ok c'.plain) ∧ (d.isPlain = false → c'.plain = c.plain) := by
  cases d with
  | comparison op field v => cases h; exact ⟨fun _ => rfl, fun hplain => by cases hplain⟩
  | logical op children => cases h; exact ⟨fun _ => rfl, fun hplain => by cases hplain⟩
  | extension name payload => cases h; exact ⟨fun _ => rfl, fun hplain => by cases hplain⟩
  | missing => cases h
  | modifier m =>
    obtain ⟨kind, amount, fields, sort⟩ := m
    cases kind with
    | select => cases h; exact ⟨fun hplain => (by cases hplain), fun _ => rfl⟩
    -- the amount is checked either way, but it does not end up in the plain clauses
    | limit =>
      refine ⟨fun hplain => (by cases hplain), fun _ => ?_⟩
      simp only [add] at h
      cases hamount : amount.amount? with
      | none => rw [hamount] at h; cases h
      | some n => rw [hamount] at h; cases h; rfl
    | skip =>
      refine ⟨fun hplain => (by cases hplain), fun _ => ?_⟩
      simp only [add] at h
      cases hamount : amount.amount? with
      | none => rw [hamount] at h; cases h
      | some n => rw [hamount] at h; cases h; rfl
    | sort =>
      refine ⟨fun _ => ?_, fun hplain => by cases hplain⟩
      simp only [add] at h ⊢
      by_cases hempty : sort.isEmpty = true
      · rw [if_pos hempty] at h; cases h
      · rw [if_neg hempty] at h ⊢; cases h; rfl
    | other name => cases h

theorem plain_addAll {c c' : Clauses} {ds : List Directive} (h : c.addAll ds = .ok c') :
    c.plain.addAll (ds.filter Directive.isPlain) = .ok c'.plain := by
  induction ds generalizing c with
  | nil => cases h; rfl
  | cons d rest ih =>
    rw [addAll] at h
    obtain ⟨c₁, hc₁, hrest⟩ := bind_eq_ok h
    obtain ⟨hplain, hother⟩ := plain_add hc₁
    by_cases hd : d.isPlain = true
    · rw [List.filter_cons_of_pos hd, addAll, hplain hd]
      exact ih hrest
    · rw [List.filter_cons_of_neg hd, ← hother (by simpa using hd)]
      exact ih hrest

end Clauses

namespace Builder

/-- The builder without what selects fields or moves the window. -/
def plain (b : Builder) : Builder := { b with directives := b.directives.filter Directive.isPlain }

/-- The columns of a builder: the fields it reports as selected, or else the default projection. -/
def columns (b : Builder) (options : CompileOptions) : List Text :=
  if b.selected.isEmpty then [options.projection] else b.selected

theorem build_ok_iff {b : Builder} {options : CompileOptions → CompileOptions} {st : Statement} :
    b.build options = .ok st ↔
      b.error = none ∧ compile (options { scope := b.scope }) b.directives = .ok st := by
  unfold build
  cases b.error with
  | some e => simp
  | none => simp

/-- The statement of a builder, and that of the builder without selection and window. -/
theorem compile_announced {o : CompileOptions} {b : Builder} {st : Statement}
    (h : compile o b.directives = .ok st) :
    ∃ middle,
      st.text = Text.ofString "SELECT " ++ Text.join "," ((b.columns o).map (Select.column o.scope))
        ++ middle
        ++ Select.clause " LIMIT " Text.ofNat (Value.lastAmount? (Directive.amounts .limit b.directives))
        ++ Select.clause " OFFSET " Text.ofNat (Value.lastAmount? (Directive.amounts .skip b.directives)) ∧
      compile o b.plain.directives
        = .ok ⟨Text.ofString "SELECT " ++ Select.column o.scope o.projection ++ middle, st.params⟩ := by
  rw [compile_eq_statement] at h
  obtain ⟨c, hc, hst⟩ := bind_eq_ok h
  have hplain : ({} : Clauses).addAll b.plain.directives = .ok c.plain := Clauses.plain_addAll hc
  have hselected : c.selected = b.selected := Projection.addAll_selected hc
  have hclauses := Clauses.addAll_eq hc
  have hlimit : c.limit = Value.lastAmount? (Directive.amounts .limit b.directives) := by rw [hclauses]
  have hskip : c.skip = Value.lastAmount? (Directive.amounts .skip b.directives) := by rw [hclauses]
  rw [compile_eq_statement, hplain, ← hlimit, ← hskip, columns, ← hselected]
  -- both statements have the same condition, which does not look at the selection or the window
  obtain ⟨condition, hcondition, hst⟩ := bind_eq_ok hst
  cases hst
  refine ⟨_, Select.text_eq_middle _, ?_⟩
  show conditionOf c.conditions >>= _ = _
  rw [hcondition]
  refine congrArg (fun t => Except.ok (Statement.mk t _)) ((Select.text_eq_middle _).trans ?_)
  exact (List.append_nil _).trans (List.append_nil _)

/-- A builder has a window just if no call has failed and all its amounts are numbers; and then the window
has the last limit, if there is one, and the last skip, or zero. -/
theorem window_ok_iff {b : Builder} {w : Window} :
    b.window = .ok w ↔ b.error = none ∧ Value.Numeric (Directive.amounts .limit b.directives) ∧
      Value.Numeric (Directive.amounts .skip b.directives) ∧
      w = ⟨Value.lastAmount? (Directive.amounts .limit b.directives),
        (Value.lastAmount? (Directive.amounts .skip b.directives)).getD 0⟩ := by
  unfold window
  cases b.error with
  | some e => simp
  | none =>
    constructor
    · intro h
      obtain ⟨hlimits, hskips, hw⟩ := Window.addAll_ok h
      rw [Option.or_none] at hw
      exact ⟨rfl, hlimits, hskips, hw⟩
    · rintro ⟨-, hlimits, hskips, rfl⟩
      cases hw : ({} : Window).addAll b.directives with
      -- an error in the window is an amount that is no number
      | error e =>
        obtain ⟨v, hv, hnone⟩ := Window.addAll_error hw
        exact absurd hnone (hlimits.append hskips v hv)
      | ok w =>
        obtain ⟨-, -, rfl⟩ := Window.addAll_ok hw
        rw [Option.or_none]

/-- A builder that can be built has a window. -/
theorem window_of_build {b : Builder} {options : CompileOptions → CompileOptions} {st : Statement}
    (h : b.build options = .ok st) : ∃ w, b.window = .ok w := by
  obtain ⟨herror, hst⟩ := build_ok_iff.1 h
  obtain ⟨hlimits, hskips⟩ := numeric_of_compile hst
  exact ⟨_, window_ok_iff.2 ⟨herror, hlimits, hskips, rfl⟩⟩

/-- **What a builder announces is what it builds.** Every builder that can be built has a window. The
statement is that of the builder without selections, limits and skips, but for three things: in place of
the default projection stand the fields that the builder reports as selected, if there are any; a LIMIT
clause is added just if the window has a limit, with this limit; and an OFFSET clause may be added, with
the skip of the window, which is zero if there is none. A builder without a window cannot be built. -/
theorem build_announced (b : Builder) (options : CompileOptions → CompileOptions) :
    (∀ st, b.build options = .ok st → ∃ w middle offset,
      b.window = .ok w ∧ w.skip = offset.getD 0 ∧
      st.text = Text.ofString "SELECT " ++ Text.join "," ((b.columns (options { scope := b.scope })).map
          (Select.column (options { scope := b.scope }).scope))
        ++ middle ++ Select.clause " LIMIT " Text.ofNat w.limit
        ++ Select.clause " OFFSET " Text.ofNat offset ∧
      b.plain.build options = .ok ⟨Text.ofString "SELECT "
        ++ Select.column (options { scope := b.scope }).scope (options { scope := b.scope }).projection
        ++ middle, st.params⟩) ∧
    ∀ e, b.window = .error e → ∃ e', b.build options = .error e' := by
  constructor
  -- what is announced is read off the directives, and what is built as well
  · intro st hst
    obtain ⟨w, hw⟩ := window_of_build hst
    obtain ⟨herror, hcompile⟩ := build_ok_iff.1 hst
    obtain ⟨middle, htext, hplain⟩ := compile_announced hcompile
    obtain ⟨-, -, -, rfl⟩ := window_ok_iff.1 hw
    exact ⟨_, middle, _, hw, rfl, htext, build_ok_iff.2 ⟨herror, hplain⟩⟩
  -- a builder that can be built has a window
  · intro e he
    cases hbuild : b.build options with
    | error e' => exact ⟨e', rfl⟩
    | ok st =>
      obtain ⟨w, hw⟩ := window_of_build hbuild
      rw [hw] at he
      cases he

/-- The second page of some names, three to a page. The first limit is replaced by the last one. -/
def secondPage : Builder :=
  ({ scope := "b" } : Builder).run [.limit (.int .int 10), .select ["name"],
    .compare "age" (.known .gt) (.int .int 30), .skip (.int .int 3), .limit (.int .int 3)]

/-- The second page of a search: the window that is announced stands at the end of the statement, and all
else is as without it. -/
theorem secondPage_announced :
    ∃ st plain middle, secondPage.build id = .ok st ∧ secondPage.plain.build id = .ok plain ∧
      st.text = Text.ofString "SELECT `b`.name FROM `b` WHERE `age` > $1 LIMIT 3 OFFSET 3" ∧
      secondPage.window = .ok ⟨some 3, 3⟩ ∧
      st.text = Text.ofString "SELECT " ++ Text.ofString "`b`.name" ++ middle
        ++ Text.ofString " LIMIT 3" ++ Text.ofString " OFFSET 3" ∧
      plain.text = Text.ofString "SELECT " ++ Text.ofString "`b`.*" ++ middle := by
  obtain ⟨st, hst⟩ : ∃ st, secondPage.build id = .ok st := ⟨_, rfl⟩
  have hshown : secondPage.build id
      = .ok ⟨Text.ofString "SELECT `b`.name FROM `b` WHERE `age` > $1 LIMIT 3 OFFSET 3", st.params⟩ := by
    obtain rfl := Except.ok.inj hst
    rfl
  have hwindow : secondPage.window = .ok ⟨some 3, 3⟩ := rfl
  obtain ⟨w, middle, offset, hw, hskip, htext, hplain⟩ := (build_announced secondPage id).1 st hst
  obtain rfl := Except.ok.inj (hw.symm.trans hwindow)
  obtain rfl : offset = some 3 := by
    cases offset with
    | none => cases hskip
    | some n => exact congrArg some hskip.symm
  refine ⟨st, _, middle, hst, hplain, ?_, hwindow, htext, rfl⟩
  exact congrArg Statement.text (Except.ok.inj (hst.symm.trans hshown))

end Builder
end DocFilter
