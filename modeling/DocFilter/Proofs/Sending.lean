import DocFilter.Proofs.Requested

/-!
What a search sends to the database. A search is made ready before anything is sent, so whatever is
wrong with it is found before the database hears of it; and what is ready is sent once.

Everything is said of the operations that a run asks (`Program.asked`), in surroundings that answer in
any way. The statement that is sent is described from the filter and the options alone
(`Service.statement`), and so is what a search is refused for (`Service.Refuses`). Main result:
`Service.find_sends_once`.
-/

set_option autoImplicit false

namespace DocFilter

/-! ## What a run asks -/

/-- The operations that a run of a program asks, in order. -/
def Program.asked {Op : Type} {Answer : Op → Type} {α σ : Type}
    (answer : (op : Op) → σ → Answer op × σ) : Program Op Answer α → σ → List Op
  | .done _, _ => []
  | .ask op next, w => op :: asked answer (next (answer op w).1) (answer op w).2

/-- The call to the database that an effect is, if it is one. -/
def Effect.call? : Effect → Option Call
  | .query call => some call
  | _ => none

namespace Service

/-- What a search ends with. -/
def found {σ : Type} (answer : (e : Effect) → σ → e.Answer × σ) (w : σ) (s : Service)
    (filter : Document) (options : List FindOption) : Except ServiceError Page :=
  ((s.find filter options).run.run answer w).1

/-- The calls that a search makes to the database. -/
def calls {σ : Type} (answer : (e : Effect) → σ → e.Answer × σ) (w : σ) (s : Service)
    (filter : Document) (options : List FindOption) : List Call :=
  ((s.find filter options).run.asked answer w).filterMap Effect.call?

variable {s : Service} {filter : Document} {options : List FindOption}

/-- A search that is sent: it is logged, the database is asked, and only a failure is logged again. A
page reports the window of the plan. -/
theorem find_program {plan : SearchPlan} {c : Consistency}
    (hplan : (s.search filter options).plan = .ok plan)
    (hlevel : plan.builder.consistencyLevel = .ok c) :
    ∃ entry next, (s.find filter options).run = .ask (.log entry) (fun _ =>
        .ask (.query ⟨plan.statement.text, plan.statement.params, c⟩) next) ∧
      (∀ e : BackendError, ∃ entry' e', next (.error e) = .ask (.log entry') fun _ => .done (.error e')) ∧
      ∀ r : QueryResult, ∃ page : Page, next (.ok r) = .done (.ok page) ∧
        page.limit = plan.limit ∧ page.skip = plan.skip := by
  rw [search] at hplan
  rw [find, hplan]
  dsimp only
  rw [send, hlevel]
  exact ⟨_, _, rfl, fun e => ⟨_, _, rfl⟩, fun r => ⟨_, rfl, rfl, rfl⟩⟩

section Runs

variable {σ : Type} (answer : (e : Effect) → σ → e.Answer × σ) (w : σ)

/-- A search that cannot be made ready. -/
theorem find_unplanned {e : QueryError} (hplan : (s.search filter options).plan = .error e) :
    s.calls answer w filter options = [] ∧
      s.found answer w filter options = .error (.badRequest (.query e)) := by
  rw [search] at hplan
  rw [calls, found, find, hplan]
  exact ⟨rfl, rfl⟩

/-- A search that asks for a consistency that no database knows is not sent. The statement has been built by
then, and the answer is a bad request. -/
theorem find_unsent {plan : SearchPlan} {e : QueryError}
    (hplan : (s.search filter options).plan = .ok plan)
    (hlevel : plan.builder.consistencyLevel = .error e) :
    s.calls answer w filter options = [] ∧
      s.found answer w filter options = .error (.badRequest (.query e)) := by
  rw [search] at hplan
  rw [calls, found, find, hplan]
  dsimp only
  rw [send, hlevel]
  exact ⟨rfl, rfl⟩

/-- A search that is sent; if it succeeds it reports the window of its plan. -/
theorem find_sent {plan : SearchPlan} {c : Consistency}
    (hplan : (s.search filter options).plan = .ok plan)
    (hlevel : plan.builder.consistencyLevel = .ok c) :
    s.calls answer w filter options = [⟨plan.statement.text, plan.statement.params, c⟩] ∧
      ∀ page, s.found answer w filter options = .ok page →
        page.limit = plan.limit ∧ page.skip = plan.skip := by
  obtain ⟨entry, next, hfind, hfailed, hanswered⟩ := find_program hplan hlevel
  rw [calls, found, hfind]
  simp only [Program.asked, Program.run]
  -- the answer of the database decides what is left of the program
  generalize (answer (.log entry) w).2 = w₁
  generalize answer (.query ⟨plan.statement.text, plan.statement.params, c⟩) w₁ = reply
  obtain ⟨r, w₂⟩ := reply
  cases r with
  | error e =>
    obtain ⟨entry', e', hnext⟩ := hfailed e
    simp only [hnext, Program.asked, Program.run]
    refine ⟨rfl, ?_⟩
    rintro page ⟨⟩
  | ok result =>
    obtain ⟨page, hnext, hlimit, hskip⟩ := hanswered result
    simp only [hnext, Program.asked, Program.run]
    refine ⟨rfl, ?_⟩
    rintro _ ⟨⟩
    exact ⟨hlimit, hskip⟩

end Runs

end Service

/-! ## The limit of a page -/

namespace Paginate

/-- The limit of a page: the one that is asked for, or the default, within the bounds. -/
def bounded (p : Paginate) (given : Option Nat) : Nat :=
  min (given.getD p.default.toNat) (if 0 < p.max then p.max.toNat else maxAmount)

/-- The limit that the rule for pages adds to a search, if it is on. -/
def clause (p : Paginate) (given : Option Nat) : List Directive :=
  if 0 < p.default then [.modifier ⟨.limit, .int .int64 (p.bounded given), [], []⟩] else []

/-- The limit that a page reports. -/
def reported (p : Paginate) (given : Option Nat) : Nat :=
  if 0 < p.default then p.bounded given else given.getD 0

end Paginate

namespace Search

theorem pageLimit?_eq (p : Paginate) (given : Option Nat) :
    pageLimit? p given = if 0 < p.default then some (p.bounded given) else none := by
  have hclamp : ∀ n hi : Nat, clamp (fun a b => decide (a < b)) n 0 hi = min n hi := by
    intro n hi
    simp only [clamp, decide_eq_true_eq]
    split_ifs <;> omega
  unfold pageLimit?
  simp only [hclamp, Paginate.bounded]

/-- A search with a window is compiled from its directives and the limit of the page. -/
theorem plan_of_window {q : Search} {window : Builder.Window} (herror : q.builder.error = none)
    (hwindow : q.builder.window = .ok window) :
    q.plan = (compile { scope := q.builder.scope }
        (q.builder.directives ++ q.paginate.clause window.limit)).map fun st =>
      ⟨{ q.builder with directives := q.builder.directives ++ q.paginate.clause window.limit }, st,
        q.paginate.reported window.limit, window.skip⟩ := by
  obtain ⟨⟨scope, directives, error, hasQuerier, consistency⟩, paginate⟩ := q
  subst herror
  rw [plan, hwindow]
  dsimp only [bind, Except.bind]
  rw [pageLimit?_eq, Paginate.clause, Paginate.reported]
  -- compiling comes last in both cases; only the limit of the page makes the difference
  by_cases hdefault : 0 < paginate.default
  · simp only [if_pos hdefault]
    have hbuild : (Builder.limit ⟨scope, directives, none, hasQuerier, consistency⟩
          (.int .int64 (paginate.bounded window.limit))).build id
        = compile { scope := scope } (directives
            ++ [.modifier ⟨.limit, .int .int64 (paginate.bounded window.limit), [], []⟩]) := rfl
    rw [hbuild]
    generalize compile _ _ = compiled
    cases compiled <;> rfl
  · simp only [if_neg hdefault, List.append_nil]
    have hbuild : (Builder.mk scope directives none hasQuerier consistency).build id
        = compile { scope := scope } directives := rfl
    rw [hbuild]
    generalize compile _ _ = compiled
    cases compiled <;> rfl

theorem plan_of_no_window {q : Search} {e : QueryError} (hwindow : q.builder.window = .error e) :
    q.plan = .error e := by
  rw [plan, hwindow]
  rfl

end Search

/-! ## One statement or none -/

namespace Service

/-- The statement of a search: what its filter is interpreted as, the directives of its options and,
where results are cut into pages, the limit of the page are built in the bucket of the service. -/
def statement (s : Service) (filter : Document) (options : List FindOption) :
    Except QueryError Statement := do
  let ds ← interpret (s.restricted filter)
  let limit := (s.paging options).clause (Value.lastAmount? (givenLimits filter options))
  Builder.build { scope := s.bucket, directives := ds ++ options.flatMap FindOption.directives ++ limit } id

/-- What a search is refused for: a call that puts it together fails, an amount is no number, its
statement cannot be built, or it asks for a consistency that no database knows. -/
inductive Refuses (s : Service) (filter : Document) (options : List FindOption) : Prop
  | construction (e : QueryError) : (s.search filter options).builder.error = some e →
      Refuses s filter options
  | amount (v : Value) : v ∈ givenLimits filter options ++ givenSkips filter options →
      v.amount? = none → Refuses s filter options
  | statement (e : QueryError) : s.statement filter options = .error e → Refuses s filter options
  | consistency : givenConsistency? filter options = none → Refuses s filter options

variable {s : Service} {filter : Document} {options : List FindOption}

theorem payloads_clause (p : Paginate) (given : Option Nat) (name : Text) :
    (p.clause given).filterMap (Directive.payload? name) = [] := by
  unfold Paginate.clause
  by_cases hdefault : 0 < p.default
  · rw [if_pos hdefault]
    rfl
  · rw [if_neg hdefault]
    rfl

/-- A search without a failed call and with amounts that are numbers is ready as soon as its statement is
built. The statement is that of the directives with the limit of the page behind them. -/
theorem plan_search (herror : (s.search filter options).builder.error = none)
    (hwindow : (s.search filter options).builder.window
      = .ok ⟨Value.lastAmount? (givenLimits filter options),
          (Value.lastAmount? (givenSkips filter options)).getD 0⟩) :
    ∃ b : Builder, b.consistencyLevel.toOption = givenConsistency? filter options ∧
      (s.search filter options).plan = (s.statement filter options).map fun st =>
        ⟨b, st, (s.paging options).reported (Value.lastAmount? (givenLimits filter options)),
          (Value.lastAmount? (givenSkips filter options)).getD 0⟩ := by
  obtain ⟨ds, hds, hscope, hdirectives⟩ := search_directives herror
  let limit := (s.paging options).clause (Value.lastAmount? (givenLimits filter options))
  let b : Builder := { (s.search filter options).builder with
    directives := (s.search filter options).builder.directives ++ limit }
  refine ⟨b, search_consistency herror limit (payloads_clause _ _ _) rfl rfl, ?_⟩
  rw [Search.plan_of_window herror hwindow, search_paginate, hscope, statement, hds]
  show _ = (compile { scope := s.bucket } (ds ++ options.flatMap FindOption.directives ++ limit)).map _
  rw [← hdirectives]

/-- Everything that can become of a search: it is refused, or it is sent and, if it succeeds, reports
the window that it was planned with. -/
theorem find_cases (s : Service) (filter : Document) (options : List FindOption) {σ : Type}
    (answer : (e : Effect) → σ → e.Answer × σ) (w : σ) :
    (s.Refuses filter options ∧ s.calls answer w filter options = [] ∧
        ∃ e : QueryError, s.found answer w filter options = .error (.badRequest (.query e))) ∨
      ((s.search filter options).builder.error = none ∧
        Value.Numeric (givenLimits filter options ++ givenSkips filter options) ∧
        ∃ st c, s.statement filter options = .ok st ∧ givenConsistency? filter options = some c ∧
          s.calls answer w filter options = [⟨st.text, st.params, c⟩] ∧
          ∀ page, s.found answer w filter options = .ok page →
            page.limit = (s.paging options).reported (Value.lastAmount? (givenLimits filter options)) ∧
            page.skip = (Value.lastAmount? (givenSkips filter options)).getD 0) := by
  -- each thing that can be wrong is looked for in the order in which a search comes upon it
  by_cases herror : (s.search filter options).builder.error = none
  swap
  · obtain ⟨e, he⟩ := Option.ne_none_iff_exists'.1 herror
    have hwindow : (s.search filter options).builder.window = .error e := by
      rw [Builder.window, he]
    obtain ⟨hcalls, hfound⟩ := find_unplanned answer w (Search.plan_of_no_window hwindow)
    exact .inl ⟨.construction e he, hcalls, e, hfound⟩
  rcases search_window herror with ⟨⟨v, hv, hnone⟩, e, hwindow⟩ | ⟨hnumeric, hwindow⟩
  · obtain ⟨hcalls, hfound⟩ := find_unplanned answer w (Search.plan_of_no_window hwindow)
    exact .inl ⟨.amount v hv hnone, hcalls, e, hfound⟩
  obtain ⟨b, hlevel, hplan⟩ := plan_search herror hwindow
  cases hst : s.statement filter options with
  | error e =>
    rw [hst] at hplan
    obtain ⟨hcalls, hfound⟩ := find_unplanned answer w hplan
    exact .inl ⟨.statement e hst, hcalls, e, hfound⟩
  | ok st =>
    rw [hst] at hplan
    cases hc : b.consistencyLevel with
    | error e =>
      rw [hc] at hlevel
      obtain ⟨hcalls, hfound⟩ := find_unsent answer w hplan hc
      exact .inl ⟨.consistency hlevel.symm, hcalls, e, hfound⟩
    | ok c =>
      rw [hc] at hlevel
      obtain ⟨hcalls, hpage⟩ := find_sent answer w hplan hc
      exact .inr ⟨herror, hnumeric, st, c, rfl, hlevel.symm, hcalls, hpage⟩

/-- **A search is refused or sent once.** If it is refused the database is not called, and the answer
is a bad request with an error of the query. Otherwise the database is called once, with the text and
the parameters of the statement and the consistency that is asked for. -/
theorem find_sends_once (s : Service) (filter : Document) (options : List FindOption) {σ : Type}
    (answer : (e : Effect) → σ → e.Answer × σ) (w : σ) :
    (s.Refuses filter options ∧ s.calls answer w filter options = [] ∧
        ∃ e : QueryError, s.found answer w filter options = .error (.badRequest (.query e))) ∨
      (¬ s.Refuses filter options ∧ ∃ st c, s.statement filter options = .ok st ∧
        givenConsistency? filter options = some c ∧
        s.calls answer w filter options = [⟨st.text, st.params, c⟩]) := by
  rcases s.find_cases filter options answer w with hrefused | ⟨herror, hnumeric, st, c, hst, hc, hcalls, -⟩
  · exact .inl hrefused
  · refine .inr ⟨?_, st, c, hst, hc, hcalls⟩
    intro hrefuses
    -- each reason for a refusal contradicts what was needed to send the search
    cases hrefuses with
    | construction e he => rw [he] at herror; cases herror
    | amount v hv hnone => exact hnumeric v hv hnone
    | statement e he => rw [he] at hst; cases hst
    | consistency hnone => rw [hnone] at hc; cases hc

end Service

end DocFilter
