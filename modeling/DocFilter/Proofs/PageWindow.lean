import DocFilter.Proofs.Amounts
import DocFilter.Proofs.DocumentText
import DocFilter.Proofs.Sending
import DocFilter.Service.World
import Mathlib.Data.List.DropRight

/-!
The window of a page. A page reports the limit and the skip it was found with, and these have to be the
numbers in the statement that was sent. The numbers are read off the end of the statement: the digits
behind OFFSET, and before that the digits behind LIMIT (`limitClause?`, `offsetClause?`).

Two things make the reading right. What stands before the window never looks like a part of it: a
condition or an ordering ends in a word, a parenthesis or a placeholder, and not in a blank with digits
behind it (`Text.Closed`). And the limit of a page is compiled from an integer that was an amount
before, so it comes out as it went in (`Value.Steady`). Main result: `Service.find_reports_window`.

The largest limit of a page is another matter. It holds for every search that is cut into pages, unless
it is so large that it is rounded itself, but where the rule for pages has no default it does not count
at all (`Service.find_caps_limit`).
-/

set_option autoImplicit false

namespace DocFilter

open Text (byte isDigit)

/-! ## What stands before the window -/

namespace Text

/-- The last byte that is no digit is no blank either. -/
def Closed (t : Text) : Prop :=
  ∃ front b digits, t = front ++ b :: digits ∧ isDigit b = false ∧ b ≠ byte ' ' ∧
    ∀ d ∈ digits, isDigit d = true

/-- A text that ends in neither a digit nor a blank is closed. -/
theorem closed_concat (front : Text) {b : UInt8} (hdigit : isDigit b = false) (hblank : b ≠ byte ' ') :
    Closed (front ++ [b]) :=
  ⟨front, b, [], rfl, hdigit, hblank, by simp⟩

/-- Whether a text is closed is seen at its end, so anything may stand in front. -/
theorem Closed.append_left {t : Text} (h : Closed t) (x : Text) : Closed (x ++ t) := by
  obtain ⟨front, b, digits, rfl, hb⟩ := h
  exact ⟨x ++ front, b, digits, (List.append_assoc ..).symm, hb⟩

/-- A closed text with nothing behind it, or with something closed, is closed. -/
theorem Closed.append_right {t rest : Text} (h : Closed t) (hrest : rest = [] ∨ Closed rest) :
    Closed (t ++ rest) := by
  rcases hrest with rfl | hrest
  · rwa [List.append_nil]
  · exact hrest.append_left t

theorem isDigit_of_mem_ofNat {n : Nat} {b : UInt8} (h : b ∈ ofNat n) : isDigit b = true := by
  obtain ⟨c, hc, rfl⟩ := List.mem_map.1 h
  exact (Number.byte_of_digit (Number.digit_of_mem_toDigits hc)).1

/-- The last of several texts ends the joined one, so the whole is closed if each of them is. There has to
be one. -/
theorem closed_join {sep : Text} {ts : List Text} (hne : ts ≠ []) (h : ∀ t ∈ ts, Closed t) :
    Closed (join sep ts) := by
  induction ts with
  | nil => exact absurd rfl hne
  | cons t rest ih =>
    obtain ⟨ht, hrest⟩ := List.forall_mem_cons.1 h
    cases rest with
    | nil => exact ht
    | cons u more => exact (ih (List.cons_ne_nil u more) hrest).append_left (t ++ sep)

end Text

namespace Formula

theorem closed_parenthesised (t : Text) : Text.Closed (parenthesised t) :=
  Text.closed_concat (Text.ofString "(" ++ t) (by decide) (by decide)

/-- What a field is compared with is a placeholder or NULL. The digits of a placeholder have a dollar sign
in front and no blank, so they are not taken for a window. -/
theorem closed_operand (rhs : Operand) : Text.Closed rhs.text := by
  cases rhs with
  | null => exact Text.closed_concat "NUL" (by decide) (by decide)
  | placeholder n =>
    exact ⟨[], byte '$', Text.ofNat n, rfl, by decide, by decide, fun d hd => Text.isDigit_of_mem_ofNat hd⟩

/-- The further parts of a conjunction are closed if the parts are, wherever they stand. -/
theorem closed_conjuncts {fs : List (Formula Operand)} (h : ∀ f ∈ fs, ∀ place, Text.Closed (text place f)) :
    conjuncts fs = [] ∨ Text.Closed (conjuncts fs) := by
  induction fs with
  | nil => exact .inl rfl
  | cons f rest ih =>
    obtain ⟨hf, hrest⟩ := List.forall_mem_cons.1 h
    rw [conjuncts]
    exact .inr (((hf .conjunct).append_left _).append_right (ih hrest))

/-- The further parts of a disjunction are closed if the parts are. -/
theorem closed_disjuncts {fs : List (Formula Operand)} (h : ∀ f ∈ fs, ∀ place, Text.Closed (text place f)) :
    disjuncts fs = [] ∨ Text.Closed (disjuncts fs) := by
  induction fs with
  | nil => exact .inl rfl
  | cons f rest ih =>
    obtain ⟨hf, hrest⟩ := List.forall_mem_cons.1 h
    rw [disjuncts]
    exact .inr (((hf .disjunct).append_left _).append_right (ih hrest))

/-- The text of a formula is closed: nothing at its end can be taken for a clause with a number. Its last
part is a parenthesis, a constant or the operand of a comparison. The induction is over the formula. -/
theorem closed_text (f : Formula Operand) : ∀ place, Text.Closed (text place f) := by
  induction f using partsInduction with
  | compare field op rhs =>
    intro place
    rw [text]
    exact (closed_operand rhs).append_left _
  | all parts ih =>
    intro place
    -- the last part of a conjunction is closed, and so is what stands for none
    have hconjunction : Text.Closed (conjunction parts) := by
      rcases parts with _ | ⟨f, _ | ⟨g, rest⟩⟩
      · exact Text.closed_concat "TRU" (by decide) (by decide)
      · exact ih f (by simp) .alone
      · have hrest : ∀ f' ∈ g :: rest, ∀ place, Text.Closed (text place f') :=
          fun f' hf' => ih f' (List.mem_cons_of_mem f hf')
        exact (ih f (by simp) .conjunct).append_right (closed_conjuncts hrest)
    rw [text]
    by_cases hplace : (place == .disjunct) = true
    · rw [if_pos hplace]
      exact closed_parenthesised _
    · rw [if_neg hplace]
      exact hconjunction
  | any parts ih =>
    intro place
    have hdisjunction : Text.Closed (disjunction parts) := by
      rcases parts with _ | ⟨f, rest⟩
      · exact Text.closed_concat "FALS" (by decide) (by decide)
      · have hrest : ∀ f' ∈ rest, ∀ place, Text.Closed (text place f') :=
          fun f' hf' => ih f' (List.mem_cons_of_mem f hf')
        exact (ih f (by simp) .disjunct).append_right (closed_disjuncts hrest)
    rw [text]
    by_cases hplace : (place == .alone) = true
    · rw [if_pos hplace]
      exact hdisjunction
    · rw [if_neg hplace]
      exact closed_parenthesised _

end Formula

/-! ## Reading the window -/

/-- The text before a keyword, and the number behind it, if the two end the text. -/
def trailing? (keyword t : Text) : Option (Text × Nat) := do
  let before ← List.isSuffixOf? keyword (t.rdropWhile isDigit)
  let n ← (Number.readNat Number.maxUInt64 (t.rtakeWhile isDigit)).toOption
  return (before, n)

/-- The number of the OFFSET clause of a statement, if it has one. -/
def offsetClause? (t : Text) : Option Nat := (trailing? " OFFSET " t).map (·.2)

/-- The number of the LIMIT clause of a statement, if it has one. It stands before the OFFSET clause. -/
def limitClause? (t : Text) : Option Nat :=
  (trailing? " LIMIT " (((trailing? " OFFSET " t).map (·.1)).getD t)).map (·.2)

/-- The digits at the end of a text, up to the last byte that is none: taking them and dropping them. -/
theorem rdropWhile_digits (front : Text) {digits : Text} {b : UInt8} (hb : isDigit b = false)
    (hdigits : ∀ d ∈ digits, isDigit d = true) :
    (front ++ b :: digits).rdropWhile isDigit = front ++ [b] ∧
      (front ++ b :: digits).rtakeWhile isDigit = digits := by
  have hreverse : (front ++ b :: digits).reverse = digits.reverse ++ b :: front.reverse := by simp
  have hall : ∀ d ∈ digits.reverse, isDigit d = true := fun d hd => hdigits d (List.mem_reverse.1 hd)
  constructor
  · rw [List.rdropWhile, hreverse, List.dropWhile_append_of_pos hall,
      List.dropWhile_cons_of_neg (by simp [hb])]
    simp
  · rw [List.rtakeWhile, hreverse, List.takeWhile_append_of_pos hall,
      List.takeWhile_cons_of_neg (by simp [hb])]
    simp

/-- A keyword that ends in a blank, with a number behind it. -/
theorem trailing?_number (front word : Text) {n : Nat} (hn : n ≤ Number.maxUInt64) :
    trailing? (word ++ [byte ' ']) (front ++ (word ++ [byte ' ']) ++ Text.ofNat n) = some (front, n) := by
  have hsplit : front ++ (word ++ [byte ' ']) ++ Text.ofNat n
      = (front ++ word) ++ byte ' ' :: Text.ofNat n := by simp
  have hsuffix : List.isSuffixOf? (word ++ [byte ' ']) ((front ++ word) ++ [byte ' ']) = some front := by
    rw [List.isSuffixOf?_eq_some_iff_append_eq, List.append_assoc]
  have hdigits : ∀ d ∈ Text.ofNat n, isDigit d = true := fun d hd => Text.isDigit_of_mem_ofNat hd
  obtain ⟨hdrop, htake⟩ := rdropWhile_digits (front ++ word) (b := byte ' ') (by decide) hdigits
  rw [trailing?, hsplit, hdrop, htake, hsuffix, Number.readNat_ofNat hn]
  rfl

/-- A number at the end of a closed text is not that of a clause. -/
theorem trailing?_closed {t : Text} (h : Text.Closed t) (word : Text) :
    trailing? (word ++ [byte ' ']) t = none := by
  obtain ⟨front, b, digits, rfl, hb, hblank, hdigits⟩ := h
  have hsuffix : List.isSuffixOf? (word ++ [byte ' ']) (front ++ [b]) = none := by
    rw [Option.eq_none_iff_forall_ne_some]
    intro before hbefore
    rw [List.isSuffixOf?_eq_some_iff_append_eq, ← List.append_assoc] at hbefore
    -- the byte before the digits would have to be the blank of the keyword
    have hlast : [byte ' '] = [b] := (List.append_inj' hbefore rfl).2
    exact hblank (List.singleton_inj.1 hlast).symm
  rw [trailing?, (rdropWhile_digits front hb hdigits).1, hsuffix]
  rfl

/-- A limit is no skip: a text that ends in a LIMIT clause has no OFFSET clause at its end. The words before
the number differ in their last letters. -/
theorem trailing?_limit (front : Text) (n : Nat) :
    trailing? " OFFSET " (front ++ Text.ofString " LIMIT " ++ Text.ofNat n) = none := by
  have hsplit : front ++ Text.ofString " LIMIT " ++ Text.ofNat n
      = (front ++ Text.ofString " LIMIT") ++ byte ' ' :: Text.ofNat n := by
    rw [List.append_assoc, List.append_assoc]
    rfl
  have hsuffix : List.isSuffixOf? (Text.ofString " OFFSET ")
      (front ++ Text.ofString " LIMIT" ++ [byte ' ']) = none := by
    rw [Option.eq_none_iff_forall_ne_some]
    intro before hbefore
    rw [List.isSuffixOf?_eq_some_iff_append_eq, List.append_assoc] at hbefore
    -- the keywords differ in the third byte from the end
    have hend := congrArg (fun t => t.reverse.take 3) hbefore
    simp only [List.reverse_append] at hend
    change [byte ' ', byte 'T', byte 'E'] = [byte ' ', byte 'T', byte 'I'] at hend
    exact absurd hend (by decide)
  have hdigits : ∀ d ∈ Text.ofNat n, isDigit d = true := fun d hd => Text.isDigit_of_mem_ofNat hd
  obtain ⟨hdrop, -⟩ :=
    rdropWhile_digits (front ++ Text.ofString " LIMIT") (b := byte ' ') (by decide) hdigits
  rw [trailing?, hsplit, hdrop, hsuffix]
  rfl

/-- The limit is read off the end of a text that is closed but for it. -/
theorem trailing?_clause {base : Text} (hbase : Text.Closed base) (word : Text) {limit : Option Nat}
    (hlimit : ∀ n ∈ limit, n ≤ Number.maxUInt64) :
    trailing? (word ++ [byte ' ']) (base ++ Select.clause (word ++ [byte ' ']) Text.ofNat limit)
      = limit.map fun n => (base, n) := by
  cases limit with
  | none =>
    rw [Select.clause, List.append_nil]
    exact trailing?_closed hbase word
  | some n =>
    rw [Select.clause, ← List.append_assoc]
    exact trailing?_number base word (hlimit n rfl)

/-- The window is read off the end of a statement, from behind: first an OFFSET clause, if there is one, and
in front of it a LIMIT clause. The text before both of them is closed. -/
theorem window_clauses {base : Text} (hbase : Text.Closed base) {limit offset : Option Nat}
    (hlimit : ∀ n ∈ limit, n ≤ Number.maxUInt64) (hoffset : ∀ n ∈ offset, n ≤ Number.maxUInt64) :
    limitClause? (base ++ Select.clause " LIMIT " Text.ofNat limit
        ++ Select.clause " OFFSET " Text.ofNat offset) = limit ∧
      offsetClause? (base ++ Select.clause " LIMIT " Text.ofNat limit
        ++ Select.clause " OFFSET " Text.ofNat offset) = offset := by
  have hinner : trailing? " LIMIT " (base ++ Select.clause " LIMIT " Text.ofNat limit)
      = limit.map fun n => (base, n) := trailing?_clause hbase " LIMIT" hlimit
  have houter : trailing? " OFFSET " (base ++ Select.clause " LIMIT " Text.ofNat limit
      ++ Select.clause " OFFSET " Text.ofNat offset)
      = offset.map fun n => (base ++ Select.clause " LIMIT " Text.ofNat limit, n) := by
    cases offset with
    | some n =>
      have hnumber := trailing?_number (base ++ Select.clause " LIMIT " Text.ofNat limit) " OFFSET"
        (hoffset n rfl)
      rw [List.append_assoc] at hnumber
      exact hnumber
    | none =>
      rw [Select.clause, List.append_nil]
      cases limit with
      | none =>
        rw [Select.clause, List.append_nil]
        exact trailing?_closed hbase " OFFSET"
      -- a LIMIT clause at the end is not taken for an OFFSET clause
      | some m =>
        rw [Select.clause, ← List.append_assoc]
        exact trailing?_limit base m
  have hbefore : ((offset.map fun n => (base ++ Select.clause " LIMIT " Text.ofNat limit, n)).map
      (·.1)).getD (base ++ Select.clause " LIMIT " Text.ofNat limit
        ++ Select.clause " OFFSET " Text.ofNat offset)
      = base ++ Select.clause " LIMIT " Text.ofNat limit := by
    cases offset with
    | some n => rfl
    | none => exact List.append_nil _
  constructor
  · rw [limitClause?, houter, hbefore, hinner]
    simp
  · rw [offsetClause?, houter]
    simp

/-! ## The window of a compiled statement -/

/-- Every key of an ordering has a direction that is known. -/
def Directive.Directed (d : Directive) : Prop :=
  ∀ m, d = .modifier m → ∀ k ∈ m.sort, k.direction = .asc ∨ k.direction = .desc

/-- A key of an ordering ends in the word of its direction. -/
theorem Select.closed_orderKey {k : SortKey} (h : k.direction = .asc ∨ k.direction = .desc) :
    Text.Closed (orderKey k) := by
  unfold orderKey
  rcases h with h | h
  · rw [h]
    exact (Text.closed_concat "AS" (by decide) (by decide)).append_left _
  · rw [h]
    exact (Text.closed_concat "DES" (by decide) (by decide)).append_left _

/-- A statement with a condition is closed before its window: the condition is closed, and an ordering ends
with the word for a direction. -/
theorem Select.closed_front {s : Select} {f : Formula Operand} (hcondition : s.condition = some f)
    (horder : ∀ k ∈ s.order, k.direction = .asc ∨ k.direction = .desc) :
    Text.Closed (s.opening ++ clause " WHERE " (Formula.text .alone) s.condition ++
      clause " ORDER BY " (fun ks => Text.join ", " (ks.map orderKey))
        (if s.order.isEmpty then none else some s.order)) := by
  have hwhere : Text.Closed (s.opening ++ clause " WHERE " (Formula.text .alone) s.condition) := by
    rw [hcondition]
    exact ((f.closed_text .alone).append_left _).append_left _
  apply hwhere.append_right
  -- without an ordering the condition is what stands last
  by_cases hempty : s.order = []
  · left
    rw [hempty]
    rfl
  · right
    rw [if_neg (by simpa using hempty)]
    apply Text.Closed.append_left
    apply Text.closed_join
    · simpa using hempty
    · intro t ht
      obtain ⟨k, hk, rfl⟩ := List.mem_map.1 ht
      exact closed_orderKey (horder k hk)

/-- The window of a statement is read off its text. -/
theorem Select.window_text {s : Select} {f : Formula Operand} (hcondition : s.condition = some f)
    (horder : ∀ k ∈ s.order, k.direction = .asc ∨ k.direction = .desc)
    (hlimit : ∀ n ∈ s.limit, n ≤ Number.maxUInt64) (hoffset : ∀ n ∈ s.offset, n ≤ Number.maxUInt64) :
    limitClause? s.text = s.limit ∧ offsetClause? s.text = s.offset :=
  window_clauses (closed_front hcondition horder) hlimit hoffset

/-- The keys of an ordering come from the directives. So if the directions are the two usual ones in all
directives, then they are in the clauses. -/
theorem Clauses.addAll_directed {c c' : Clauses} {ds : List Directive} (h : c.addAll ds = .ok c')
    (hds : ∀ d ∈ ds, d.Directed) (hc : ∀ k ∈ c.order, k.direction = .asc ∨ k.direction = .desc) :
    ∀ k ∈ c'.order, k.direction = .asc ∨ k.direction = .desc := by
  induction ds generalizing c with
  | nil =>
    cases h
    exact hc
  | cons d rest ih =>
    rw [addAll] at h
    obtain ⟨c₁, hc₁, hrest⟩ := bind_eq_ok h
    obtain ⟨hd, hmore⟩ := List.forall_mem_cons.1 hds
    refine ih hrest hmore ?_
    unfold add at hc₁
    grind [Directive.Directed]

/-- Amounts are at most the largest signed word, so that the digits of a clause can be read back as an
unsigned one. -/
theorem le_of_lastAmount? {held : Option Nat} {vs : List Value} (h : held = Value.lastAmount? vs) :
    ∀ n ∈ held, n ≤ Number.maxUInt64 := by
  intro n hn
  rw [Option.mem_def, h] at hn
  obtain ⟨v, -, hv⟩ := Option.bind_eq_some_iff.1 hn
  exact (Value.amount?_le hv).trans (by decide)

/-- **The window of a statement is that of the last amounts.** There has to be a condition: without one a
statement may end in a selected field, and this is written as it is, even if it looks like a clause. -/
theorem compile_window {options : CompileOptions} {ds : List Directive} {st : Statement}
    (h : compile options ds = .ok st) (hconditions : ds.filter Directive.isCondition ≠ [])
    (hds : ∀ d ∈ ds, d.Directed) :
    limitClause? st.text = Value.lastAmount? (Directive.amounts .limit ds) ∧
      offsetClause? st.text = Value.lastAmount? (Directive.amounts .skip ds) := by
  rw [compile_eq_statement] at h
  obtain ⟨c, hc, hst⟩ := bind_eq_ok h
  have horder := Clauses.addAll_directed hc hds (by simp)
  have hconditions' : c.conditions ≠ [] := by rwa [Clauses.addAll_conditions hc]
  -- limit and skip of the clauses are the last amounts
  rw [Clauses.addAll_eq_foldlM] at hc
  obtain ⟨-, hlimit⟩ := Clauses.held_limit.foldlM hc
  obtain ⟨-, hskip⟩ := Clauses.held_skip.foldlM hc
  rw [Option.or_none] at hlimit hskip
  obtain ⟨condition, hcondition, hst⟩ := bind_eq_ok hst
  cases hst
  obtain ⟨fs, -, rfl⟩ : ∃ fs, Formula.ofDirectives c.conditions = .ok fs ∧ condition = some (.all fs) := by
    rw [conditionOf, if_neg (by simpa using hconditions')] at hcondition
    obtain ⟨fs, hfs, hcondition⟩ := bind_eq_ok hcondition
    exact ⟨fs, hfs, (Except.ok.inj hcondition).symm⟩
  rw [← hlimit, ← hskip]
  exact Select.window_text rfl horder (le_of_lastAmount? hlimit) (le_of_lastAmount? hskip)

/-! ## The window of a search -/

theorem Directive.directed_of_isCondition {d : Directive} (h : d.isCondition = true) : d.Directed := by
  rintro m rfl
  cases h

/-- A modifier is directed if every key of its ordering is. -/
theorem Directive.directed_modifier {m : Modifier}
    (h : ∀ k ∈ m.sort, k.direction = .asc ∨ k.direction = .desc) : (Directive.modifier m).Directed := by
  rintro _ ⟨⟩
  exact h

/-- What a field contributes beside conditions is directed: a direction other than the two known ones is
refused by the interpreter. -/
theorem directed_of_fieldClauses {v : Value} {key : Text} {ds : List Directive}
    (h : FieldClauses v key ds) : ∀ d ∈ ds, d.Directed := by
  cases h with
  | ordinary | group => simp
  | limit | skip | select => exact List.forall_mem_singleton.2 (Directive.directed_modifier (by simp))
  | extension => exact List.forall_mem_singleton.2 (by rintro m ⟨⟩)
  | @sort keys hkeys =>
    refine List.forall_mem_singleton.2 (Directive.directed_modifier fun k hk => ?_)
    -- a direction that is read from a word is one of the two
    have hparse := parse_of_sortKeys hkeys k hk
    unfold Direction.parse at hparse
    grind

/-- The orderings of an interpreted filter have the two usual directions, field by field, since a filter
gives them by numbers and not by words. -/
theorem directed_of_interpretFields {d : Document} {parts : Contribution}
    (h : interpretFields d = .ok parts) : ∀ x ∈ parts.clauses, x.Directed := by
  induction d generalizing parts with
  | nil =>
    cases h
    simp
  | cons field rest ih =>
    rw [interpretFields] at h
    obtain ⟨here, hhere, h⟩ := bind_eq_ok h
    obtain ⟨more, hmore, h⟩ := bind_eq_ok h
    cases h
    intro x hx
    rcases List.mem_append.1 hx with hx | hx
    · exact directed_of_fieldClauses (fieldClauses_of_interpretField hhere) x hx
    · exact ih hmore x hx

/-- The directives of a filter are directed. Its clauses are, as was shown field by field, and conditions
have no ordering. -/
theorem directed_of_interpret {d : Document} {ds : List Directive} (h : interpret d = .ok ds) :
    ∀ x ∈ ds, x.Directed := by
  obtain ⟨parts, hparts, rfl⟩ := interpret_parts h
  intro x hx
  rcases List.mem_append.1 hx with hx | hx
  · exact directed_of_interpretFields hparts x hx
  · apply Directive.directed_of_isCondition
    unfold conjunction at hx
    split_ifs at hx
    · cases hx
    · rw [List.mem_singleton.1 hx]
      rfl

/-- The directives of an option are directed: there is one option for each direction. -/
theorem directed_of_option (o : FindOption) : ∀ d ∈ o.directives, d.Directed := by
  cases o with
  | select | limit | skip | ascending | descending =>
    exact List.forall_mem_singleton.2 (Directive.directed_modifier (by simp))
  | compare => exact List.forall_mem_singleton.2 (Directive.directed_of_isCondition rfl)
  | consistency | paginate => simp [FindOption.directives]

/-- The clause of a page is a limit, and has no ordering. -/
theorem directed_of_clause (p : Paginate) (given : Option Nat) : ∀ d ∈ p.clause given, d.Directed := by
  unfold Paginate.clause
  by_cases hdefault : 0 < p.default
  · rw [if_pos hdefault]
    exact List.forall_mem_singleton.2 (Directive.directed_modifier (by simp))
  · rw [if_neg hdefault]
    simp

namespace Service

variable {s : Service} {filter : Document} {options : List FindOption}

/-- The demand on the type is a condition of every search. -/
theorem restricted_conditions {ds : List Directive} (h : interpret (s.restricted filter) = .ok ds) :
    ds.filter Directive.isCondition ≠ [] := by
  obtain ⟨c, hc, hconditions⟩ := interpret_conditions h
  obtain ⟨here, hhere, hmem⟩ := interpretFields_mem hc (Document.mem_set filter typeField (.text s.name))
  cases hhere
  have hne : c.conditions ≠ [] := List.ne_nil_of_mem (hmem _ (List.mem_singleton.2 rfl))
  rw [hconditions, if_neg (by simpa using hne)]
  exact List.cons_ne_nil _ _

/-- The limit of a page that is bounded by the rule for pages comes out of the compiler as it went in, if
the rule itself stays below `2 ^ 53`. Beyond that, an amount goes through a number of 64 bits and may be
rounded. -/
theorem steady_bounded {p : Paginate} (hdefault : p.default ≤ 2 ^ 53) (hmax : p.max ≤ 2 ^ 53)
    {vs : List Value} : Value.Steady (p.bounded (Value.lastAmount? vs)) := by
  apply Value.steady_min
  · cases hlast : Value.lastAmount? vs with
    | none => exact Value.steady_of_le (by simp only [Option.getD_none]; omega)
    | some n =>
      obtain ⟨v, -, hv⟩ := Option.bind_eq_some_iff.1 hlast
      exact Value.steady_of_amount? hv
  · by_cases hbound : 0 < p.max
    · rw [if_pos hbound]
      exact Value.steady_of_le (by omega)
    · rw [if_neg hbound]
      exact Value.steady_max

/-- The window of the statement that is sent. The limit of the page comes last, and is looked at again as an
integer; without a rule for pages it is the limit that was given last. -/
theorem statement_clauses {st : Statement} (hst : s.statement filter options = .ok st) :
    limitClause? st.text
        = (if 0 < (s.paging options).default then
            (Value.int .int64
              ((s.paging options).bounded (Value.lastAmount? (givenLimits filter options)))).amount?
          else Value.lastAmount? (givenLimits filter options)) ∧
      (0 < (s.paging options).default → (limitClause? st.text).isSome = true) ∧
      offsetClause? st.text = Value.lastAmount? (givenSkips filter options) := by
  rw [statement] at hst
  obtain ⟨ds, hds, hst⟩ := bind_eq_ok hst
  let limit := (s.paging options).clause (Value.lastAmount? (givenLimits filter options))
  have hcompile : compile { scope := s.bucket } (ds ++ options.flatMap FindOption.directives ++ limit)
      = .ok st := hst
  -- the restriction to the type is a condition, so there is always one
  have hconditions : (ds ++ options.flatMap FindOption.directives ++ limit).filter
      Directive.isCondition ≠ [] := by
    intro hnone
    rw [List.append_assoc, List.filter_append, List.append_eq_nil_iff] at hnone
    exact restricted_conditions hds hnone.1
  -- directives come from the filter, from the options, or from the rule for pages
  have hdirected : ∀ d ∈ ds ++ options.flatMap FindOption.directives ++ limit, d.Directed := by
    intro d hd
    rcases List.mem_append.1 hd with hd | hd
    · rcases List.mem_append.1 hd with hd | hd
      · exact directed_of_interpret hds d hd
      · obtain ⟨o, -, hd⟩ := List.mem_flatMap.1 hd
        exact directed_of_option o d hd
    · exact directed_of_clause _ _ d hd
  obtain ⟨hread, hread'⟩ := compile_window hcompile hconditions hdirected
  have happend : ∀ kind, Directive.amounts kind (ds ++ options.flatMap FindOption.directives ++ limit)
      = Directive.amounts kind (ds ++ options.flatMap FindOption.directives)
        ++ Directive.amounts kind limit := fun kind => List.filterMap_append ..
  rw [hread, hread', happend, happend, gathered_limits hds, gathered_skips hds]
  -- the rule for pages adds a limit behind all others, or nothing at all
  by_cases hpaged : 0 < (s.paging options).default
  · have hlimit : limit = [.modifier ⟨.limit, .int .int64
        ((s.paging options).bounded (Value.lastAmount? (givenLimits filter options))), [], []⟩] :=
      if_pos hpaged
    have hlast : Value.lastAmount? (givenLimits filter options ++ Directive.amounts .limit limit)
        = (Value.int .int64
            ((s.paging options).bounded (Value.lastAmount? (givenLimits filter options)))).amount? := by
      rw [hlimit]
      show Value.lastAmount? (_ ++ [_]) = _
      rw [Value.lastAmount?, List.getLast?_concat]
      rfl
    have hnumeric := (numeric_of_compile hcompile).1
    rw [happend, gathered_limits hds] at hnumeric
    rw [if_pos hpaged]
    refine ⟨hlast, fun _ => hnumeric.isSome_lastAmount?.2 ?_, ?_⟩
    · rw [hlimit]
      exact List.append_ne_nil_of_right_ne_nil _ (List.cons_ne_nil _ _)
    · rw [hlimit]
      exact congrArg _ (List.append_nil _)
  · have hlimit : limit = [] := if_neg hpaged
    rw [hlimit, if_neg hpaged]
    exact ⟨congrArg _ (List.append_nil _), fun hdefault => absurd hdefault hpaged,
      congrArg _ (List.append_nil _)⟩

/-- The window of the statement that is sent, if the bounds of the page are modest. -/
theorem statement_window {st : Statement} (hst : s.statement filter options = .ok st)
    (hdefault : (s.paging options).default ≤ 2 ^ 53) (hmax : (s.paging options).max ≤ 2 ^ 53) :
    limitClause? st.text
        = (if 0 < (s.paging options).default then
            some ((s.paging options).bounded (Value.lastAmount? (givenLimits filter options)))
          else Value.lastAmount? (givenLimits filter options)) ∧
      offsetClause? st.text = Value.lastAmount? (givenSkips filter options) := by
  obtain ⟨hlimit, -, hskip⟩ := statement_clauses hst
  rw [steady_bounded hdefault hmax] at hlimit
  exact ⟨hlimit, hskip⟩

/-- **A page reports the window it was found with.** The statement that was sent has a LIMIT clause
just if a limit was given or results are cut into pages, and an OFFSET clause just if a skip was given;
the page reports the numbers of these clauses, and zero for a clause that is not there. Where results
are cut into pages the limit is the last one that was given, or the default one, within the bounds. -/
theorem find_reports_window (s : Service) (filter : Document) (options : List FindOption) {σ : Type}
    (answer : (e : Effect) → σ → e.Answer × σ) (w : σ) (page : Page)
    (hdefault : (s.paging options).default ≤ 2 ^ 53) (hmax : (s.paging options).max ≤ 2 ^ 53)
    (h : s.found answer w filter options = .ok page) :
    ∃ call, s.calls answer w filter options = [call] ∧
      ((limitClause? call.statement).isSome = true ↔
        givenLimits filter options ≠ [] ∨ 0 < (s.paging options).default) ∧
      page.limit = (limitClause? call.statement).getD 0 ∧
      ((offsetClause? call.statement).isSome = true ↔ givenSkips filter options ≠ []) ∧
      page.skip = (offsetClause? call.statement).getD 0 ∧
      (0 < (s.paging options).default → page.limit
        = (s.paging options).bounded (Value.lastAmount? (givenLimits filter options))) := by
  rcases s.find_cases filter options answer w with
    ⟨-, -, e, hfailed⟩ | ⟨-, hnumeric, st, c, hst, -, hcalls, hpage⟩
  -- a search that fails has no page
  · rw [hfailed] at h
    cases h
  obtain ⟨hlimits, hskips⟩ : Value.Numeric (givenLimits filter options) ∧
      Value.Numeric (givenSkips filter options) := List.forall_mem_append.1 hnumeric
  obtain ⟨hlimit, hskip⟩ := hpage page h
  obtain ⟨hread, hread'⟩ := statement_window hst hdefault hmax
  refine ⟨_, hcalls, ?_⟩
  rw [hread, hread', hlimit, hskip, Paginate.reported]
  by_cases hpaged : 0 < (s.paging options).default
  · simp [hpaged, hskips.isSome_lastAmount?]
  · simp [hpaged, hlimits.isSome_lastAmount?, hskips.isSome_lastAmount?]

/-- A search for the sixth user of a name and those behind, in pages of ten, and of 25 at most. -/
def manyAdas : Document := [("$limit", .text "40"), ("name", .text "Ada")]

/-- The options of that search. -/
def fromSixth : List FindOption := [.paginate ⟨10, 25⟩, .skip 5]

/-- Surroundings with an empty database. -/
def emptyWorld : World := { store := [], database := ⟨[], []⟩, random := [] }

/-- The limit is cut down to the largest one, in the statement and on the page, and the skip of the option
is reported. -/
theorem users_find_manyAdas :
    ∃ page call, users.found World.answer emptyWorld manyAdas fromSixth = .ok page ∧
      users.calls World.answer emptyWorld manyAdas fromSixth = [call] ∧
      page.limit = 25 ∧ limitClause? call.statement = some 25 ∧
      page.skip = 5 ∧ offsetClause? call.statement = some 5 := by
  have hreport : (users.found World.answer emptyWorld manyAdas fromSixth).toOption.map
      (fun page => (page.limit, page.skip)) = some (25, 5) := by decide +kernel
  obtain ⟨page, hpage, hwindow⟩ := Option.map_eq_some_iff.1 hreport
  have hfound := toOption_eq_some_iff.1 hpage
  obtain ⟨h25, h5⟩ : page.limit = 25 ∧ page.skip = 5 := by simpa using hwindow
  obtain ⟨call, hcalls, hlimit, hlimit', hskip, hskip', -⟩ :=
    find_reports_window users manyAdas fromSixth World.answer emptyWorld page (by decide) (by decide) hfound
  obtain ⟨n, hn⟩ := Option.isSome_iff_exists.1 (hlimit.2 (.inr (by decide)))
  obtain ⟨m, hm⟩ := Option.isSome_iff_exists.1 (hskip.2 (List.cons_ne_nil _ _))
  rw [hn, Option.getD_some, h25] at hlimit'
  rw [hm, Option.getD_some, h5] at hskip'
  exact ⟨page, call, hfound, hcalls, h25, hlimit' ▸ hn, h5, hskip' ▸ hm⟩

end Service

/-! ## The largest limit of a page -/

/-- Whether a rule for pages holds limits down to its largest one: the rule is on, and the largest limit
is not rounded up where it is looked at again as an integer. -/
def Paginate.Caps (p : Paginate) : Prop :=
  0 < p.default ∧ ∃ n : Nat, (Value.int .int64 p.max).amount? = some n ∧ (n : Int) ≤ p.max

/-- A rule for pages with a default and with a largest limit below `2 ^ 53` holds for every search. -/
theorem Paginate.caps_of_le {p : Paginate} (hdefault : 0 < p.default) (hmax : 0 < p.max)
    (hle : p.max ≤ 2 ^ 53) : p.Caps := by
  obtain ⟨n, hn⟩ := Int.eq_ofNat_of_zero_le hmax.le
  have hsteady : Value.Steady n := Value.steady_of_le (by omega)
  refine ⟨hdefault, n, ?_, hn.ge⟩
  rw [hn]
  exact hsteady

/-- A limit within the bounds of a page is left as it is, any other is cut down to the largest one. -/
theorem Paginate.bounded_some {p : Paginate} (hmax : 0 < p.max) (asked : Nat) :
    (p.bounded (some asked) : Int) = min (asked : Int) p.max := by
  rw [bounded, if_pos hmax, Option.getD_some, Nat.cast_min, Int.toNat_of_nonneg hmax.le]

namespace Service

/-- **When the largest limit of a page holds.** A search that asks for a limit is sent with a LIMIT
clause. Where the rule for pages is off this is the limit that is asked for, however large; where it is
on the limit is kept within the bounds as long as they are modest. In general the limit is at most the
largest one just if no more than that is asked for, or the rule caps it. -/
theorem find_caps_limit (s : Service) (filter : Document) (options : List FindOption) {σ : Type}
    (answer : (e : Effect) → σ → e.Answer × σ) (w : σ) (call : Call)
    (hmax : 0 < (s.paging options).max) (hgiven : givenLimits filter options ≠ [])
    (hcall : call ∈ s.calls answer w filter options) :
    ∃ asked n, Value.lastAmount? (givenLimits filter options) = some asked ∧
      limitClause? call.statement = some n ∧
      ((s.paging options).default ≤ 0 → n = asked) ∧
      (0 < (s.paging options).default → (s.paging options).max ≤ 2 ^ 53 →
        (n : Int) ≤ (s.paging options).max) ∧
      ((n : Int) ≤ (s.paging options).max ↔
        (asked : Int) ≤ (s.paging options).max ∨ (s.paging options).Caps) := by
  rcases s.find_cases filter options answer w with ⟨-, hnone, -⟩ | ⟨-, hnumeric, st, c, hst, -, hcalls, -⟩
  · rw [hnone] at hcall
    cases hcall
  obtain rfl : call = ⟨st.text, st.params, c⟩ := by rwa [hcalls, List.mem_singleton] at hcall
  obtain ⟨hlimits, -⟩ := List.forall_mem_append.1 hnumeric
  obtain ⟨asked, hasked⟩ := Option.isSome_iff_exists.1 (Value.Numeric.isSome_lastAmount? hlimits |>.2 hgiven)
  obtain ⟨hread, hsome, -⟩ := statement_clauses hst
  generalize s.paging options = p at *
  rw [hasked] at hread
  -- the rule is on: what is within the bounds is steady, and what is beyond is cut to the largest limit
  by_cases hpaged : 0 < p.default
  · rw [if_pos hpaged] at hread
    by_cases hwithin : (asked : Int) ≤ p.max
    · have hbounded : p.bounded (some asked) = asked := by
        have := p.bounded_some hmax asked
        omega
      obtain ⟨v, -, hv⟩ := Option.bind_eq_some_iff.1 hasked
      rw [hbounded, Value.steady_of_amount? hv] at hread
      exact ⟨asked, asked, hasked, hread, fun _ => rfl, fun _ _ => hwithin, by simp [hwithin]⟩
    · have hbounded : (p.bounded (some asked) : Int) = p.max := by
        have := p.bounded_some hmax asked
        omega
      rw [hbounded] at hread
      obtain ⟨n, hn⟩ := Option.isSome_iff_exists.1 (hsome hpaged)
      have hamount : (Value.int .int64 p.max).amount? = some n := by rw [← hread, hn]
      have hcaps : (n : Int) ≤ p.max ↔ p.Caps := by
        refine ⟨fun hle => ⟨hpaged, n, hamount, hle⟩, ?_⟩
        rintro ⟨-, n', hn', hle⟩
        rw [hamount] at hn'
        cases hn'
        exact hle
      refine ⟨asked, n, hasked, hn, fun hoff => absurd hpaged (not_lt.2 hoff), ?_, ?_⟩
      · intro _ hmodest
        exact hcaps.2 (p.caps_of_le hpaged hmax hmodest)
      · rw [hcaps, or_iff_right hwithin]
  -- the rule is off: the limit is the one that is asked for
  · rw [if_neg hpaged] at hread
    refine ⟨asked, asked, hasked, hread, fun _ => rfl, fun hdefault => absurd hdefault hpaged, ?_⟩
    have hoff : ¬ p.Caps := fun hcaps => hpaged hcaps.1
    simp [hoff]

/-- A search for ten users. -/
def tenUsers : Document := [("$limit", .int .int 10)]

/-- A search for as many users as can be asked for. -/
def allUsers : Document := [("$limit", .int .int maxAmount)]

/-- Two limits above the largest one: the first because the rule for pages is off, the second because the
largest limit is rounded up when it is looked at again. -/
theorem users_beyond_largest :
    (∃ call ∈ users.calls World.answer emptyWorld tenUsers [.paginate ⟨0, 5⟩],
        limitClause? call.statement = some 10) ∧
      ∃ call ∈ users.calls World.answer emptyWorld allUsers [.paginate ⟨1, 2 ^ 53 + 3⟩],
        ∃ n, limitClause? call.statement = some n ∧ 2 ^ 53 + 3 < n := by
  have hten : ∃ call, call ∈ users.calls World.answer emptyWorld tenUsers [.paginate ⟨0, 5⟩] :=
    List.exists_mem_of_length_pos (by decide +kernel)
  have hall : ∃ call, call ∈ users.calls World.answer emptyWorld allUsers [.paginate ⟨1, 2 ^ 53 + 3⟩] :=
    List.exists_mem_of_length_pos (by decide +kernel)
  constructor
  · obtain ⟨call, hcall⟩ := hten
    obtain ⟨asked, n, hasked, hn, hoff, -⟩ := find_caps_limit users tenUsers [.paginate ⟨0, 5⟩]
      World.answer emptyWorld call (by decide) (List.cons_ne_nil _ _) hcall
    have h10 : Value.lastAmount? (givenLimits tenUsers [.paginate ⟨0, 5⟩]) = some 10 := by decide +kernel
    rw [hasked] at h10
    rw [hoff (by decide), Option.some.inj h10] at hn
    exact ⟨call, hcall, hn⟩
  · obtain ⟨call, hcall⟩ := hall
    obtain ⟨asked, n, hasked, hn, -, -, hcap⟩ := find_caps_limit users allUsers
      [.paginate ⟨1, 2 ^ 53 + 3⟩] World.answer emptyWorld call (by decide) (List.cons_ne_nil _ _) hcall
    have hmost : Value.lastAmount? (givenLimits allUsers [.paginate ⟨1, 2 ^ 53 + 3⟩]) = some maxAmount := by
      decide +kernel
    have hround : (Value.int .int64 (2 ^ 53 + 3)).amount? = some (2 ^ 53 + 4) := by decide +kernel
    rw [hasked] at hmost
    -- neither is so little asked for, nor does the rule cap the limit
    have hnot : ¬ (n : Int) ≤ 2 ^ 53 + 3 := by
      intro hle
      rcases hcap.1 hle with hasked' | ⟨-, r, hr, hle'⟩
      · rw [Option.some.inj hmost] at hasked'
        exact absurd hasked' (by decide)
      · change (Value.int .int64 (2 ^ 53 + 3)).amount? = some r at hr
        rw [hround] at hr
        cases hr
        exact absurd hle' (by decide)
    exact ⟨call, hcall, n, hn, by omega⟩

end Service

end DocFilter
