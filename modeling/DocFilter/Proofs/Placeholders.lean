import DocFilter.Proofs.Grouping

/-!
Placeholders. The binder is handed from one comparison to the next, through however many groups, and
moves on where a comparison is with something. So which placeholder a comparison gets depends only
on the comparisons before it, and the tree above them does not matter: the comparisons of the bound
formula are those of the formula, numbered from left to right (`bind_comparisons`).

What is compiled is a text, and a field may be called `$1`. Reading the text by its grammar finds
the comparisons of the bound formula again, in their order, also where the groups are read otherwise
than they were written; and no token but an operand is a placeholder (`Reads.numbers`).
-/

set_option autoImplicit false

namespace DocFilter

/-- The number of a placeholder. -/
def Token.number? : Token → Option Nat
  | .placeholder n => some n
  | _ => none

/-- The number of an operand that is a placeholder. -/
def Operand.number? : Operand → Option Nat
  | .placeholder n => some n
  | .null => none

/-- A comparison as it is written when `n` values have been bound before it. -/
def Comparison.written (n : Nat) (c : Comparison Value) : Comparison Operand :=
  ⟨c.field, c.op, if c.rhs.kind == .null then .null else .placeholder (n + 1)⟩

namespace Formula

/-! ## Numbering -/

/-- The comparisons as they are written when `n` values have been bound before the first of them:
the values on the way to a comparison decide its number. -/
def numbered (n : Nat) (cs : List (Comparison Value)) : List (Comparison Operand) :=
  cs.mapIdx fun k c => c.written (n + (boundValues (cs.take k)).length)

theorem numbered_cons (n : Nat) (c : Comparison Value) (cs : List (Comparison Value)) :
    numbered n (c :: cs) = c.written n :: numbered (n + (boundValues [c]).length) cs := by
  rw [numbered, List.mapIdx_cons, numbered]
  refine congrArg₂ _ rfl (congrArg₂ _ (funext fun k => funext fun c' => ?_) rfl)
  have hsplit : boundValues ((c :: cs).take (k + 1))
      = boundValues [c] ++ boundValues (cs.take k) := boundValues_append [c] _
  rw [hsplit, List.length_append, Nat.add_assoc]

theorem numbered_append (n : Nat) (cs cs' : List (Comparison Value)) :
    numbered n (cs ++ cs') = numbered n cs ++ numbered (n + (boundValues cs).length) cs' := by
  induction cs generalizing n with
  | nil => rfl
  | cons c cs ih =>
    have hsplit : boundValues (c :: cs) = boundValues [c] ++ boundValues cs :=
      boundValues_append [c] cs
    rw [List.cons_append, numbered_cons, numbered_cons, ih, List.cons_append, hsplit,
      List.length_append, Nat.add_assoc]

/-- The numbers of numbered comparisons follow each other without a gap, from the next one on. Comparisons
with nothing have no number and leave none out. -/
theorem numbered_numbers (n : Nat) (cs : List (Comparison Value)) :
    (numbered n cs).filterMap (·.rhs.number?) = List.range' (n + 1) (boundValues cs).length := by
  induction cs generalizing n with
  | nil => rfl
  | cons c cs ih =>
    have hsplit : boundValues (c :: cs) = boundValues [c] ++ boundValues cs :=
      boundValues_append [c] cs
    rw [numbered_cons, List.filterMap_cons, ih, hsplit, Comparison.written]
    -- A comparison with nothing has no number and leaves the next number alone.
    by_cases hc : c.rhs.kind = .null
    · have hnone : boundValues [c] = [] := by simp [boundValues, hc]
      simp [hc, hnone, Operand.number?]
    · have hone : boundValues [c] = [c.rhs] := by simp [boundValues, hc]
      simp [hc, hone, Operand.number?, List.range'_succ]

mutual

/-- Binding numbers the comparisons of a formula from left to right, at every depth. Groups have no numbers
of their own. -/
theorem bind_comparisons (b : Binder) (f : Formula Value) :
    (bind b f).1.comparisons = numbered b.size f.comparisons := by
  match f with
  | .compare field op v =>
    rw [bind]
    by_cases hv : v.kind == .null
    · rw [if_pos hv, comparisons, comparisons, numbered_cons, Comparison.written, if_pos hv]
      rfl
    · rw [if_neg hv, Binder.bind, comparisons, comparisons, numbered_cons, Comparison.written,
        if_neg hv]
      rfl
  | .all parts => exact bindAll_comparisons b parts
  | .any parts => exact bindAll_comparisons b parts

theorem bindAll_comparisons (b : Binder) (fs : List (Formula Value)) :
    comparisonsAll (bindAll b fs).1 = numbered b.size (comparisonsAll fs) := by
  match fs with
  | [] => rfl
  | f :: rest =>
    -- The binder has grown by the values of the first formula when it comes to the rest.
    have hsize : (bind b f).2.size = b.size + (boundValues f.comparisons).length := by
      rw [Binder.size, bind_params, List.length_append, Binder.size]
    rw [bindAll, comparisonsAll, comparisonsAll, bind_comparisons b f,
      bindAll_comparisons (bind b f).2 rest, hsize, numbered_append]

end

end Formula

open Formula

/-! ## Placeholders in a text -/

/-- The comparisons of directives are those of their formulas. -/
theorem comparisons_of_ofDirectives {ds : List Directive} {fs : List (Formula Value)}
    (h : ofDirectives ds = .ok fs) :
    ds.flatMap Directive.comparisons = (Formula.all fs).comparisons := by
  rw [eq_toDirectives ds h, toDirectives_eq, List.flatMap_map, comparisons, comparisonsAll_eq]
  exact List.flatMap_congr fun f _ => toDirective_comparisons f

/-- The placeholders among the tokens of a condition are the right sides of its comparisons. -/
theorem Reads.numbers {p : Phrase} {ts : List Token} {f : Formula Operand} (h : Reads p ts f) :
    ts.filterMap Token.number? = f.comparisons.filterMap (·.rhs.number?) := by
  induction h with
  | compare field op rhs => cases op <;> cases rhs <;> rfl
  | true | false => rfl
  | group inner ih =>
    rw [List.filterMap_cons, List.filterMap_append, ih]
    simp [Token.number?]
  | conjunct part ih | disjunct part ih =>
    rw [ih, comparisons, comparisonsAll_eq, List.flatMap_singleton]
  | and part more ihp ihm | or part more ihp ihm =>
    -- The connective between the two is no placeholder.
    rw [comparisons] at ihm ⊢
    rw [List.filterMap_append, List.filterMap_cons, comparisonsAll, List.filterMap_append, ihp,
      ← ihm]
    rfl

/-- **Placeholders and parameters correspond.** The parameters of a statement are the values of its
comparisons from left to right, without those of the null kind. The placeholders among the tokens of
its condition are `$1`, `$2` and so on, each of them once and in order. Each comparison of the
directives is a comparison of the condition, in its place, and compares with the placeholder of its
own value or with NULL. -/
theorem compile_placeholders (options : CompileOptions) (ds : List Directive) (st : Statement)
    (h : compile options ds = .ok st) :
    let cs := (ds.filter Directive.isCondition).flatMap Directive.comparisons
    st.params = boundValues cs ∧
      (ds.filter Directive.isCondition = [] → HasCondition options ds st none) ∧
      (ds.filter Directive.isCondition ≠ [] → ∃ t ts f, HasCondition options ds st (some t) ∧
        Token.scan t = some ts ∧ (∀ g, ReadsAs t g ↔ g = f) ∧
        ts.filterMap Token.number? = List.range' 1 st.params.length ∧
        f.comparisons = numbered 0 cs ∧
        f.atoms (Operand.literal st.params) = cs.map (Comparison.map Value.literal)) := by
  intro cs
  obtain ⟨fs, hfs, hcond⟩ := compile_ok h
  have hds := eq_toDirectives _ hfs
  have hcs : cs = (Formula.all fs).comparisons := comparisons_of_ofDirectives hfs
  rw [hcs]
  refine ⟨?_, ?_, ?_⟩
  · rcases hcond with ⟨rfl, hparams, _⟩ | ⟨_, hparams, _⟩
    · exact hparams
    · rw [hparams, bind_params, List.nil_append]
  · intro hnil
    rcases hcond with ⟨_, _, hnone⟩ | ⟨hne, _, _⟩
    · exact hnone
    · rw [hnil] at hfs
      cases hfs
      exact absurd rfl hne
  · intro hne
    rcases hcond with ⟨rfl, _, _⟩ | ⟨_, hparams, hsome⟩
    · exact absurd hds hne
    -- However the groups are read, the comparisons are those that were bound.
    · have hreads := reads_tokens .alone (bind {} (.all fs)).1
      have hcomparisons := comparisons_pieces .alone (bind {} (.all fs)).1
      refine ⟨_, _, _, hsome, scan_text _, readsAs_text_iff _, ?_, ?_, ?_⟩
      · rw [hreads.numbers, hcomparisons, bind_comparisons, numbered_numbers, hparams, bind_params]
        rfl
      · rw [hcomparisons, bind_comparisons]
        rfl
      · rw [atoms, hcomparisons, hparams]
        exact bind_atoms (.all fs)

/-- Conditions with a name that looks like a placeholder, a comparison with nothing and a group. -/
def dollarNames : List Directive :=
  [.comparison (.known .eq) "`$1`" (.int .int 7),
    .logical .or [.comparison (.known .ne) "$9" .null, .comparison (.known .gt) "c" (.int .int 8)]]

/-- Only the operands of its condition are placeholders, and not the names that look like them: of the four
dollar signs in the text two belong to names. -/
theorem dollarNames_placeholders :
    ∃ st t ts, compile {} dollarNames = .ok st ∧
      st.text = Text.ofString "SELECT * WHERE ```$1``` = $1 AND (`$9` != NULL OR `c` > $2)" ∧
      st.params = [.int .int 7, .int .int 8] ∧ HasCondition {} dollarNames st (some t) ∧
      Token.scan t = some ts ∧ ts.filterMap Token.number? = [1, 2] := by
  have hselect : select {} dollarNames = .ok (⟨["*"], [], some (.all
      [.compare "`$1`" .eq (.placeholder 1),
        .any [.compare "$9" .ne .null, .compare "c" .gt (.placeholder 2)]]), [], none, none⟩,
      [.int .int 7, .int .int 8]) := by rfl
  have hst : ∃ st, compile {} dollarNames = .ok st := by
    rw [compile, hselect]
    exact ⟨_, rfl⟩
  obtain ⟨st, hst⟩ := hst
  obtain ⟨hparams, -, hsome⟩ := compile_placeholders _ _ _ hst
  obtain ⟨t, ts, f, hw, hts, -, hnumbers, -, -⟩ := hsome (List.cons_ne_nil _ _)
  rw [hparams] at hnumbers
  refine ⟨st, t, ts, hst, ?_, hparams, hw, hts, hnumbers⟩
  rw [compile, hselect] at hst
  cases hst
  decide +kernel

end DocFilter
