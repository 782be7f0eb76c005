import DocFilter.Proofs.Exposure

/-!
The condition of a compiled statement. A statement is its opening (the columns and the collection),
the clause of its condition if it has one, and its closing (the order and the window). The condition
is the text behind WHERE; everything that is said about it here is said about that text, read by the
grammar of conditions, with the parameters of the statement in the place of its placeholders.
-/

set_option autoImplicit false

namespace DocFilter

/-! ## The clauses of a statement -/

namespace Select

/-- What stands before the condition. -/
def opening (s : Select) : Text :=
  "SELECT " ++ Text.join "," (s.columns.map (column s.scope)) ++
    clause " FROM " identifier (if s.scope.isEmpty then none else some s.scope)

/-- What stands after the condition. -/
def closing (s : Select) : Text :=
  clause " ORDER BY " (fun ks => Text.join ", " (ks.map orderKey))
      (if s.order.isEmpty then none else some s.order) ++
    clause " LIMIT " Text.ofNat s.limit ++
    clause " OFFSET " Text.ofNat s.offset

theorem text_eq (s : Select) :
    s.text = s.opening ++ clause " WHERE " id (s.condition.map (Formula.text .alone))
      ++ s.closing := by
  have hclause : clause " WHERE " id (s.condition.map (Formula.text .alone))
      = clause " WHERE " (Formula.text .alone) s.condition := by
    cases s.condition <;> rfl
  rw [hclause, text, opening, closing]
  simp only [List.append_assoc]

end Select

/-- The statement of directives says `w` behind WHERE, or has no condition. -/
def HasCondition (options : CompileOptions) (ds : List Directive) (st : Statement)
    (w : Option Text) : Prop :=
  ∃ s : Select, select options ds = .ok (s, st.params) ∧
    st.text = s.opening ++ Select.clause " WHERE " id w ++ s.closing

/-- A statement has one condition or none. What stands before the condition and behind it is determined by
the directives, so the condition is what is left of the text. -/
theorem HasCondition.unique {options : CompileOptions} {ds : List Directive} {st : Statement}
    {w w' : Option Text} (h : HasCondition options ds st w) (h' : HasCondition options ds st w') :
    w = w' := by
  obtain ⟨s, hs, htext⟩ := h
  obtain ⟨s', hs', htext'⟩ := h'
  cases hs.symm.trans hs'
  -- The clauses around the condition are the same, so the conditions are.
  have hclause := htext.symm.trans htext'
  rw [List.append_cancel_right_eq, List.append_cancel_left_eq] at hclause
  cases w with
  | none =>
    cases w' with
    | none => rfl
    | some t' => cases hclause
  | some t =>
    cases w' with
    | none => cases hclause
    | some t' => exact congrArg some (List.append_cancel_left hclause)

theorem Clauses.add_conditions {c c' : Clauses} {d : Directive} (h : c.add d = .ok c') :
    c'.conditions = c.conditions ++ [d].filter Directive.isCondition := by
  cases d with
  | comparison op field v => cases h; rfl
  | logical op children => cases h; rfl
  | modifier m =>
    -- A modifier changes another clause or is refused.
    simp only [Clauses.add] at h
    split at h
    · cases h; simp [Directive.isCondition]
    · split at h <;> cases h; simp [Directive.isCondition]
    · split at h <;> cases h; simp [Directive.isCondition]
    · split at h <;> cases h; simp [Directive.isCondition]
    · cases h
  | extension name payload => cases h; simp [Directive.isCondition]
  | missing => cases h

/-- The conditions of a statement are the conditions among its directives, in order. -/
theorem Clauses.addAll_conditions {c c' : Clauses} {ds : List Directive}
    (h : c.addAll ds = .ok c') :
    c'.conditions = c.conditions ++ ds.filter Directive.isCondition := by
  induction ds generalizing c with
  | nil => cases h; simp
  | cons d rest ih =>
    rw [Clauses.addAll] at h
    obtain ⟨c₁, hd, hrest⟩ := bind_eq_ok h
    rw [ih hrest, Clauses.add_conditions hd, List.append_assoc, ← List.filter_append]
    rfl

/-- What compiling did if it ended well: the conditions are formulas, their placeholders were handed
out from left to right, and the condition is the text of their conjunction. -/
theorem compile_ok {options : CompileOptions} {ds : List Directive} {st : Statement}
    (h : compile options ds = .ok st) :
    ∃ fs : List (Formula Value), Formula.ofDirectives (ds.filter Directive.isCondition) = .ok fs ∧
      (fs = [] ∧ st.params = [] ∧ HasCondition options ds st none ∨
        fs ≠ [] ∧ st.params = (Formula.bind {} (.all fs)).2.params ∧
          HasCondition options ds st (some ((Formula.bind {} (.all fs)).1.text .alone))) := by
  rw [compile] at h
  obtain ⟨⟨s, params⟩, hs, hst⟩ := bind_eq_ok h
  cases hst
  have hselect := hs
  rw [select] at hs
  obtain ⟨c, hc, hs⟩ := bind_eq_ok hs
  obtain ⟨condition, hcond, hs⟩ := bind_eq_ok hs
  have hconds := Clauses.addAll_conditions hc
  rw [List.nil_append] at hconds
  rw [conditionOf, hconds] at hcond
  -- Without conditions there is no formula, and nothing is bound.
  split at hcond
  · next hempty =>
    cases hcond
    cases hs
    refine ⟨[], ?_, .inl ⟨rfl, rfl, ⟨_, hselect, ?_⟩⟩⟩
    · rw [List.isEmpty_iff.mp hempty]
      rfl
    · exact Select.text_eq _
  · next hempty =>
    obtain ⟨fs, hfs, hcond⟩ := bind_eq_ok hcond
    cases hcond
    cases hs
    refine ⟨fs, hfs, .inr ⟨?_, rfl, ⟨_, hselect, ?_⟩⟩⟩
    · rintro rfl
      exact hempty (List.isEmpty_iff.mpr (Formula.eq_toDirectives _ hfs))
    · exact Select.text_eq _

end DocFilter
