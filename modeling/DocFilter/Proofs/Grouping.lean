import DocFilter.Proofs.WhereClause
import DocFilter.Query.Builder

/-!
Grouping in compiled conditions. Whatever directives are compiled, their condition can be read in
one way, and it never excludes what the directives admit together. Where no group is exposed it says
exactly their conjunction. Where one is, it says less: a comparison beside a filter that is a lone
`$or` compiles to `a AND b OR c`, which holds of everything with `c`, whatever its `a`.
-/

set_option autoImplicit false

namespace DocFilter

namespace Formula

/-- A bound formula, with its parameters in the place of its placeholders, is the formula. -/
theorem bind_holds (ρ : Assignment) (f : Formula Value) :
    (bind {} f).1.holds (Operand.literal (bind {} f).2.params) ρ = f.holds Value.literal ρ := by
  rw [← holds_map, bind_map {} f List.prefix_rfl, holds_map]

theorem bind_guarded (f : Formula Value) : (bind {} f).1.guarded = f.guarded := by
  rw [← guarded_map (Operand.literal (bind {} f).2.params), bind_map {} f List.prefix_rfl,
    guarded_map]

theorem bind_inhabited (f : Formula Value) : (bind {} f).1.inhabited = f.inhabited := by
  rw [← inhabited_map (Operand.literal (bind {} f).2.params), bind_map {} f List.prefix_rfl,
    inhabited_map]

theorem bind_atoms (f : Formula Value) :
    (bind {} f).1.atoms (Operand.literal (bind {} f).2.params) = f.atoms Value.literal := by
  rw [← atoms_map, bind_map {} f List.prefix_rfl, atoms_map]

/-- The conjunction of directives is the conjunction of their formulas. -/
theorem all_holds_of_ofDirectives {ds : List Directive} {fs : List (Formula Value)}
    (h : ofDirectives ds = .ok fs) (ρ : Assignment) :
    ds.all (Directive.holds ρ) = (Formula.all fs).holds Value.literal ρ := by
  rw [eq_toDirectives ds h, toDirectives_eq, List.all_map, holds_all]
  exact all_congr_of_mem fun f _ => toDirective_holds ρ f

/-- The condition of a guarded formula says what the formula means. -/
theorem holds_reading_guarded {f : Formula Value} (hg : f.guarded) (ρ : Assignment) :
    (ofPieces ((bind {} f).1.pieces .alone)).holds (Operand.literal (bind {} f).2.params) ρ
      = f.holds Value.literal ρ := by
  rw [← bind_holds, holds_ofPieces]
  apply piecesHold_guarded
  rw [bind_guarded]
  exact hg

end Formula

open Formula

/-- A condition without exposed groups can be read in one way and says what the directives say. -/
theorem compile_guarded {options : CompileOptions} {ds : List Directive} {st : Statement}
    {fs : List (Formula Value)} (h : compile options ds = .ok st)
    (hfs : ofDirectives (ds.filter Directive.isCondition) = .ok fs) (hne : fs ≠ [])
    (hg : (Formula.all fs).guarded) :
    ∃ t f, HasCondition options ds st (some t) ∧ (∀ g, ReadsAs t g ↔ g = f) ∧
      ∀ ρ, f.holds (Operand.literal st.params) ρ
        = (ds.filter Directive.isCondition).all (Directive.holds ρ) := by
  obtain ⟨fs', hfs', hcond⟩ := compile_ok h
  cases hfs.symm.trans hfs'
  obtain ⟨_, hparams, hsome⟩ : fs ≠ [] ∧ _ ∧ _ := hcond.resolve_left fun hnil => hne hnil.1
  refine ⟨_, _, hsome, readsAs_text_iff _, fun ρ => ?_⟩
  rw [hparams, all_holds_of_ofDirectives hfs]
  exact holds_reading_guarded hg ρ

/-- **What a compiled condition says.** There is one if there are conditions, and one way to read
it. It admits what they admit together. If no group is exposed it admits nothing else; if one is, no
group is empty and no atom occurs twice, it does. -/
theorem compile_grouping (options : CompileOptions) (ds : List Directive) (st : Statement)
    (h : compile options ds = .ok st) :
    ∃ fs, ofDirectives (ds.filter Directive.isCondition) = .ok fs ∧
      (fs = [] → HasCondition options ds st none) ∧
      (fs ≠ [] → ∃ t f, HasCondition options ds st (some t) ∧ (∀ g, ReadsAs t g ↔ g = f) ∧
        (∀ ρ, (ds.filter Directive.isCondition).all (Directive.holds ρ) →
          f.holds (Operand.literal st.params) ρ) ∧
        ((Formula.all fs).guarded → ∀ ρ, f.holds (Operand.literal st.params) ρ
          = (ds.filter Directive.isCondition).all (Directive.holds ρ)) ∧
        ((Formula.all fs).inhabited → ((Formula.all fs).atoms Value.literal).Nodup →
          (Formula.all fs).guarded = false →
          ∃ ρ, f.holds (Operand.literal st.params) ρ = true ∧
            (ds.filter Directive.isCondition).all (Directive.holds ρ) = false)) := by
  obtain ⟨fs, hfs, hcond⟩ := compile_ok h
  have hmeaning := all_holds_of_ofDirectives hfs
  refine ⟨fs, hfs, ?_, ?_⟩
  · intro hnil
    rcases hcond with ⟨_, _, hnone⟩ | ⟨hne, _, _⟩
    · exact hnone
    · exact absurd hnil hne
  · intro hne
    obtain ⟨_, hparams, hsome⟩ : fs ≠ [] ∧ _ ∧ _ := hcond.resolve_left fun hnil => hne hnil.1
    refine ⟨_, _, hsome, readsAs_text_iff _, ?_, ?_, ?_⟩
    · intro ρ hρ
      rw [hmeaning, ← bind_holds] at hρ
      rw [hparams, holds_ofPieces]
      exact piecesHold_of_holds _ ρ _ hρ
    · intro hg ρ
      rw [hparams, hmeaning]
      exact holds_reading_guarded hg ρ
    · intro hinh hn hg
      -- Binding changes no group and no atom, so the fault is in what is written.
      rw [← bind_inhabited] at hinh
      rw [← bind_atoms] at hn
      rw [← bind_guarded] at hg
      obtain ⟨ρ, htext, hholds⟩ := exists_leak _ hinh hn hg
      refine ⟨ρ, ?_, ?_⟩
      · rw [hparams, holds_ofPieces]
        exact htext
      · rw [hmeaning, ← bind_holds]
        exact hholds

/-- A comparison, then a filter that is a disjunction. -/
def besideOr : Builder :=
  (({} : Builder).compare "a" (.known .eq) (.int .int 1)).interpret
    [("$or", .list .any [.doc [("b", .int .int 2)], .doc [("c", .int .int 3)]])]

/-- Its conditions: the disjunction is the only part of a conjunction. -/
def besideOrParts : List (Formula Value) :=
  [.compare "a" .eq (.int .int 1),
    .all [.any [.all [.compare "b" .eq (.int .int 2)], .all [.compare "c" .eq (.int .int 3)]]]]

/-- The clauses that are compiled from it. -/
def besideOrSelect : Select where
  columns := ["*"]
  scope := []
  condition := some (bind {} (.all besideOrParts)).1
  order := []
  limit := none
  offset := none

/-- The disjunction is written without parentheses, and admits what the comparison excludes. -/
theorem besideOr_leaks :
    ∃ st t f, compile {} besideOr.directives = .ok st ∧
      st.text = Text.ofString "SELECT * WHERE `a` = $1 AND (`b` = $2) OR (`c` = $3)" ∧
      HasCondition {} besideOr.directives st (some t) ∧ ReadsAs t f ∧
      ∃ ρ, f.holds (Operand.literal st.params) ρ = true ∧
        (besideOr.directives.filter Directive.isCondition).all (Directive.holds ρ) = false := by
  have hst : compile {} besideOr.directives
      = .ok ⟨besideOrSelect.text, (bind {} (.all besideOrParts)).2.params⟩ := by
    have hselect : select {} besideOr.directives
        = .ok (besideOrSelect, (bind {} (.all besideOrParts)).2.params) := by rfl
    rw [compile, hselect]
    rfl
  obtain ⟨fs, hfs, -, hsome⟩ := compile_grouping _ _ _ hst
  have hparts : ofDirectives (besideOr.directives.filter Directive.isCondition)
      = .ok besideOrParts := by rfl
  cases hparts.symm.trans hfs
  obtain ⟨t, f, hw, hread, -, -, hleak⟩ := hsome (List.cons_ne_nil _ _)
  -- The three fields differ, so the three atoms do.
  have hfields :
      (((Formula.all besideOrParts).atoms Value.literal).map Comparison.field).Nodup := by decide
  have hatoms := List.Pairwise.of_map Comparison.field (fun _ _ h e => h (congrArg _ e)) hfields
  obtain ⟨ρ, htrue, hfalse⟩ := hleak rfl hatoms rfl
  exact ⟨_, t, f, hst, by decide +kernel, hw, (hread f).mpr rfl, ρ, htrue, hfalse⟩

end DocFilter
