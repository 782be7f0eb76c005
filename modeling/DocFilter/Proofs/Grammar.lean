import DocFilter.Proofs.Token

/-!
The grammar of conditions. A condition is a disjunction of conjunctions of primaries, so AND binds
closer than OR; a primary is a comparison, one of the words TRUE and FALSE, or a condition in
parentheses. What a condition reads as is a formula again: `TRUE` is the conjunction of no parts and
`FALSE` the disjunction of none.

The grammar says which token lists are conditions and nothing about how to read one. That there is
only one way is `ReadsAs.unique`. The induction behind it compares two readings that start at the
same token and may go on differently, and needs to know of each rest that its phrase could not have
gone on: a conjunction not with AND, a disjunction not with AND or OR.
-/

set_option autoImplicit false

namespace DocFilter

/-! ## The words of the grammar -/

namespace Token

/-- The connective of conjunctions. -/
def and : Token := .word "AND"

/-- The connective of disjunctions. -/
def or : Token := .word "OR"

end Token

/-- The tokens of an operator. -/
def Comparator.tokens : Comparator → List Token
  | .eq => [.sign "="]
  | .ne => [.sign "!="]
  | .lt => [.sign "<"]
  | .lte => [.sign "<="]
  | .gt => [.sign ">"]
  | .gte => [.sign ">="]
  | .isIn => [.word "IN"]
  | .notIn => [.word "NOT", .word "IN"]

/-- The token of an operand. -/
def Operand.asToken : Operand → Token
  | .null => .word "NULL"
  | .placeholder n => .placeholder n

/-! ## The grammar -/

/-- The kinds of phrases. -/
inductive Phrase where
  | primary
  | conjunction
  | disjunction

/-- The grammar: a list of tokens is a phrase that says a formula. -/
inductive Reads : Phrase → List Token → Formula Operand → Prop where
  | compare (field : Text) (op : Comparator) (rhs : Operand) :
      Reads .primary (.ident field :: (op.tokens ++ [rhs.asToken])) (.compare field op rhs)
  | true : Reads .primary [.word "TRUE"] (.all [])
  | false : Reads .primary [.word "FALSE"] (.any [])
  | group {ts : List Token} {f : Formula Operand} (inner : Reads .disjunction ts f) :
      Reads .primary (.opening :: (ts ++ [.closing])) f
  | conjunct {ts : List Token} {f : Formula Operand} (part : Reads .primary ts f) :
      Reads .conjunction ts (.all [f])
  | and {ts us : List Token} {f : Formula Operand} {fs : List (Formula Operand)}
      (part : Reads .primary ts f) (more : Reads .conjunction us (.all fs)) :
      Reads .conjunction (ts ++ .and :: us) (.all (f :: fs))
  | disjunct {ts : List Token} {f : Formula Operand} (part : Reads .conjunction ts f) :
      Reads .disjunction ts (.any [f])
  | or {ts us : List Token} {f : Formula Operand} {fs : List (Formula Operand)}
      (part : Reads .conjunction ts f) (more : Reads .disjunction us (.any fs)) :
      Reads .disjunction (ts ++ .or :: us) (.any (f :: fs))

/-- The condition in a text says a formula. -/
def ReadsAs (t : Text) (f : Formula Operand) : Prop :=
  ∃ ts, Token.scan t = some ts ∧ Reads .disjunction ts f

/-! ## A condition can be read in one way only -/

/-- A rest with which a phrase does not go on. -/
def Phrase.Stops : Phrase → List Token → Prop
  | .primary, _ => True
  | .conjunction, rest => rest.head? ≠ some .and
  | .disjunction, rest => rest.head? ≠ some .and ∧ rest.head? ≠ some .or

/-- An operator and its operand are told from each other by their tokens. -/
theorem tokens_append_unique {op op' : Comparator} {rhs rhs' : Operand} {rest rest' : List Token}
    (h : op.tokens ++ rhs.asToken :: rest = op'.tokens ++ rhs'.asToken :: rest') :
    op = op' ∧ rhs = rhs' ∧ rest = rest' := by
  have hop : op = op' := by
    cases op <;> cases op' <;> first | rfl | (simp +decide [Comparator.tokens] at h)
  subst hop
  rw [List.append_cancel_left_eq, List.cons.injEq] at h
  refine ⟨rfl, ?_, h.2⟩
  cases rhs <;> cases rhs' <;> simp_all [Operand.asToken]

/-- Two phrases of one kind that begin at the same token and stop are the same. -/
theorem Reads.stops_unique {p : Phrase} {ts : List Token} {f : Formula Operand}
    (h : Reads p ts f) : ∀ {us : List Token} {g : Formula Operand} {rest rest' : List Token},
      Reads p us g → ts ++ rest = us ++ rest' → p.Stops rest → p.Stops rest' →
        f = g ∧ rest = rest' := by
  induction h with
  | compare field op rhs =>
    intro us g rest rest' h' heq _ _
    cases h' with
    | compare field' op' rhs' =>
      simp only [List.cons_append, List.append_assoc, List.nil_append, List.cons.injEq,
        Token.ident.injEq] at heq
      obtain ⟨rfl, rfl, hrest⟩ := tokens_append_unique heq.2
      exact ⟨by rw [heq.1], hrest⟩
    | true | false | group => simp at heq
  | true =>
    intro us g rest rest' h' heq _ _
    cases h' with
    | true => exact ⟨rfl, by simpa using heq⟩
    | compare | false | group => simp +decide at heq
  | false =>
    intro us g rest rest' h' heq _ _
    cases h' with
    | false => exact ⟨rfl, by simpa using heq⟩
    | compare | true | group => simp +decide at heq
  | group inner ih =>
    intro us g rest rest' h' heq _ _
    cases h' with
    | group inner' =>
      -- the parenthesis that closes the group stops the condition in it
      simp only [List.cons_append, List.append_assoc, List.nil_append, List.cons.injEq,
        true_and] at heq
      obtain ⟨hf, hrest⟩ := ih inner' heq (by simp [Phrase.Stops, Token.and, Token.or])
        (by simp [Phrase.Stops, Token.and, Token.or])
      exact ⟨hf, (List.cons.inj hrest).2⟩
    | compare | true | false => simp at heq
  | conjunct part ih =>
    intro us g rest rest' h' heq hstop _
    cases h' with
    | conjunct part' =>
      obtain ⟨rfl, hrest⟩ := ih part' heq trivial trivial
      exact ⟨rfl, hrest⟩
    | and part' more' =>
      rw [List.append_assoc] at heq
      -- the other conjunction goes on where this one stops
      obtain ⟨_, rfl⟩ := ih part' heq trivial trivial
      simp [Phrase.Stops] at hstop
  | and part more ihp ihm =>
    intro us g rest rest' h' heq hstop hstop'
    rw [List.append_assoc] at heq
    cases h' with
    | conjunct part' =>
      obtain ⟨_, rfl⟩ := ihp part' heq trivial trivial
      simp [Phrase.Stops] at hstop'
    | and part' more' =>
      rw [List.append_assoc] at heq
      -- the first parts agree, so both rests begin behind the same AND
      obtain ⟨rfl, hmore⟩ := ihp part' heq trivial trivial
      obtain ⟨hfs, hrest⟩ := ihm more' (List.cons.inj hmore).2 hstop hstop'
      exact ⟨by simpa using hfs, hrest⟩
  | disjunct part ih =>
    intro us g rest rest' h' heq hstop hstop'
    cases h' with
    | disjunct part' =>
      obtain ⟨rfl, hrest⟩ := ih part' heq hstop.1 hstop'.1
      exact ⟨rfl, hrest⟩
    | or part' more' =>
      rw [List.append_assoc] at heq
      -- the other disjunction goes on where this one stops
      obtain ⟨_, rfl⟩ := ih part' heq hstop.1 (by simp +decide [Phrase.Stops])
      simp [Phrase.Stops] at hstop
  | or part more ihp ihm =>
    intro us g rest rest' h' heq hstop hstop'
    rw [List.append_assoc] at heq
    cases h' with
    | disjunct part' =>
      obtain ⟨_, rfl⟩ := ihp part' heq (by simp +decide [Phrase.Stops]) hstop'.1
      simp [Phrase.Stops] at hstop'
    | or part' more' =>
      rw [List.append_assoc] at heq
      -- an OR stops a conjunction, so the first parts agree
      obtain ⟨rfl, hmore⟩ := ihp part' heq (by simp +decide [Phrase.Stops])
        (by simp +decide [Phrase.Stops])
      obtain ⟨hfs, hrest⟩ := ihm more' (List.cons.inj hmore).2 hstop hstop'
      exact ⟨by simpa using hfs, hrest⟩

/-- The grammar is unambiguous. -/
theorem ReadsAs.unique {t : Text} {f g : Formula Operand} (hf : ReadsAs t f) (hg : ReadsAs t g) :
    f = g := by
  obtain ⟨ts, hts, hf⟩ := hf
  obtain ⟨us, hus, hg⟩ := hg
  obtain rfl : ts = us := Option.some.inj (hts.symm.trans hus)
  have hstop : Phrase.disjunction.Stops [] := by simp [Phrase.Stops]
  exact (hf.stops_unique hg rfl hstop hstop).1

end DocFilter
