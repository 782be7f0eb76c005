import DocFilter.Proofs.Grammar

/-!
Written formulas, read again. The text of a formula is taken apart into tokens by the scanner and
put together by the grammar; `readsAs_text_iff` says which formula comes out, for every formula that
goes in.

The answer is the list of the *pieces* of the text, the stretches between those ORs that stand in no
parentheses, each of them a list of conjuncts. Writing AND between two texts does not put one
conjunction beside another: it joins the last piece of the first text to the first piece of the
second. Where both texts have a single piece that is their conjunction. Where one of them has more,
the AND reaches into it, and the formula that is read is not the one that was written.
-/

set_option autoImplicit false

namespace DocFilter

open Text (byte)

/-! ## Texts and their tokens -/

/-- The text has these tokens, whatever follows it after a boundary. -/
def Token.Scans (t : Text) (ts : List Token) : Prop :=
  ∀ rest, Token.Boundary rest → Token.scan (t ++ rest) = (Token.scan rest).map (ts ++ ·)

namespace Token.Scans

/-- Two texts with a blank between them. -/
theorem blank {t u : Text} {ts us : List Token} (ht : Scans t ts) (hu : Scans u us) :
    Scans (t ++ Text.ofString " " ++ u) (ts ++ us) := by
  intro rest hrest
  have hblank : Text.ofString " " ++ (u ++ rest) = byte ' ' :: (u ++ rest) := rfl
  rw [List.append_assoc, List.append_assoc, hblank, ht _ (boundary_blank _), scan_blank,
    hu rest hrest, Option.map_map]
  simp [Function.comp_def]

/-- A text in parentheses is scanned as its tokens between two parentheses, and it ends where it should
whatever follows. -/
theorem parenthesised {t : Text} {ts : List Token} (ht : Scans t ts) :
    Scans (Formula.parenthesised t) (.opening :: (ts ++ [.closing])) := by
  intro rest hrest
  have hshape : Formula.parenthesised t ++ rest = byte '(' :: (t ++ byte ')' :: rest) := by
    rw [Formula.parenthesised, List.append_assoc, List.append_assoc]
    rfl
  -- The parenthesis that closes is a boundary, so the text inside ends where it should.
  rw [hshape, scan_opening, ht _ (boundary_closing _), scan_closing, Option.map_map, Option.map_map]
  simp [Function.comp_def]

/-- Two texts joined by a connective. -/
theorem connective {t u w sep : Text} {ts us : List Token} (ht : Scans t ts) (hu : Scans u us)
    (hw : w.all Text.isLetter) (hne : w ≠ [])
    (hsep : sep = Text.ofString " " ++ w ++ Text.ofString " ") :
    Scans (t ++ sep ++ u) (ts ++ .word w :: us) := by
  have hword : Scans w [.word w] := fun rest hrest => scan_word hw hne hrest
  have h := (ht.blank hword).blank hu
  rw [hsep]
  simpa only [List.append_assoc, List.cons_append, List.nil_append] using h

end Token.Scans

theorem Comparator.scans (op : Comparator) : Token.Scans op.token op.tokens := by
  intro rest hrest
  cases op with
  | eq | ne | lt | lte | gt | gte => exact Token.scan_sign (by decide) (by decide) hrest
  | isIn => exact Token.scan_word (by decide) (by decide) hrest
  | notIn =>
    have hnot : Token.Scans "NOT" [.word "NOT"] :=
      fun _ hrest => Token.scan_word (by decide) (by decide) hrest
    have hin : Token.Scans "IN" [.word "IN"] :=
      fun _ hrest => Token.scan_word (by decide) (by decide) hrest
    exact hnot.blank hin rest hrest

theorem Operand.scans (rhs : Operand) : Token.Scans rhs.text [rhs.asToken] := by
  intro rest hrest
  cases rhs with
  | null => exact Token.scan_word (by decide) (by decide) hrest
  | placeholder n => exact Token.scan_placeholder n hrest

namespace Formula

/-- Tokens in parentheses. -/
def inParentheses (ts : List Token) : List Token := .opening :: (ts ++ [.closing])

mutual

/-- The tokens of a formula in its place. -/
def tokens (place : Place) : Formula Operand → List Token
  | .compare field op rhs => .ident field :: (op.tokens ++ [rhs.asToken])
  | .all parts =>
    if place == .disjunct then inParentheses (conjunctionTokens parts) else conjunctionTokens parts
  | .any parts =>
    if place == .alone then disjunctionTokens parts else inParentheses (disjunctionTokens parts)

/-- The tokens of a conjunction. -/
def conjunctionTokens : List (Formula Operand) → List Token
  | [] => [.word "TRUE"]
  | [f] => f.tokens .alone
  | f :: g :: rest => f.tokens .conjunct ++ conjunctsTokens (g :: rest)

/-- The tokens of the further parts of a conjunction. -/
def conjunctsTokens : List (Formula Operand) → List Token
  | [] => []
  | f :: rest => .and :: (f.tokens .conjunct ++ conjunctsTokens rest)

/-- The tokens of a disjunction. -/
def disjunctionTokens : List (Formula Operand) → List Token
  | [] => [.word "FALSE"]
  | f :: rest => f.tokens .disjunct ++ disjunctsTokens rest

/-- The tokens of the further parts of a disjunction. -/
def disjunctsTokens : List (Formula Operand) → List Token
  | [] => []
  | f :: rest => .or :: (f.tokens .disjunct ++ disjunctsTokens rest)

end

mutual

/-- The text of a formula is scanned as its tokens. This and the next four statements are one induction over
the formula, with the texts that end in a blank or a parenthesis kept apart by `Token.Scans`. -/
theorem scans_text (place : Place) (f : Formula Operand) :
    Token.Scans (f.text place) (f.tokens place) := by
  match f with
  | .compare field op rhs =>
    have hfield : Token.Scans (identifier field) [.ident field] :=
      fun _ hrest => Token.scan_identifier field hrest
    have h := (hfield.blank op.scans).blank rhs.scans
    rw [text, tokens]
    simpa only [List.append_assoc, List.cons_append, List.nil_append] using h
  | .all parts =>
    rw [text, tokens]
    split
    · exact (scans_conjunction parts).parenthesised
    · exact scans_conjunction parts
  | .any parts =>
    rw [text, tokens]
    split
    · exact scans_disjunction parts
    · exact (scans_disjunction parts).parenthesised

theorem scans_conjunction (parts : List (Formula Operand)) :
    Token.Scans (conjunction parts) (conjunctionTokens parts) := by
  match parts with
  | [] => exact fun _ hrest => Token.scan_word (by decide) (by decide) hrest
  | [f] =>
    rw [conjunction, conjunctionTokens]
    exact scans_text .alone f
  | f :: g :: rest =>
    rw [conjunction, conjunctionTokens]
    exact scans_conjuncts (g :: rest) (scans_text .conjunct f)

/-- The same for further parts, each with AND before it, behind any text that has been scanned. -/
theorem scans_conjuncts (parts : List (Formula Operand)) {t : Text} {ts : List Token}
    (h : Token.Scans t ts) : Token.Scans (t ++ conjuncts parts) (ts ++ conjunctsTokens parts) := by
  -- A connective needs the text in front of it, so that text is carried along.
  match parts with
  | [] => simpa [conjuncts, conjunctsTokens] using h
  | f :: rest =>
    have hstep : Token.Scans (t ++ Text.ofString " AND " ++ f.text .conjunct)
        (ts ++ .and :: f.tokens .conjunct) :=
      h.connective (scans_text .conjunct f) (by decide) (by decide) (by decide)
    have hrest := scans_conjuncts rest hstep
    rw [conjuncts, conjunctsTokens]
    simpa only [List.append_assoc, List.cons_append] using hrest

theorem scans_disjunction (parts : List (Formula Operand)) :
    Token.Scans (disjunction parts) (disjunctionTokens parts) := by
  match parts with
  | [] => exact fun _ hrest => Token.scan_word (by decide) (by decide) hrest
  | f :: rest =>
    rw [disjunction, disjunctionTokens]
    exact scans_disjuncts rest (scans_text .disjunct f)

theorem scans_disjuncts (parts : List (Formula Operand)) {t : Text} {ts : List Token}
    (h : Token.Scans t ts) : Token.Scans (t ++ disjuncts parts) (ts ++ disjunctsTokens parts) := by
  match parts with
  | [] => simpa [disjuncts, disjunctsTokens] using h
  | f :: rest =>
    have hstep : Token.Scans (t ++ Text.ofString " OR " ++ f.text .disjunct)
        (ts ++ .or :: f.tokens .disjunct) :=
      h.connective (scans_text .disjunct f) (by decide) (by decide) (by decide)
    have hrest := scans_disjuncts rest hstep
    rw [disjuncts, disjunctsTokens]
    simpa only [List.append_assoc, List.cons_append] using hrest

end

/-- The scanner finds the tokens of a written formula. -/
theorem scan_text (f : Formula Operand) : Token.scan (f.text .alone) = some (f.tokens .alone) := by
  have h := scans_text .alone f [] Token.boundary_nil
  rw [List.append_nil] at h
  rw [h]
  simp [Token.scan, Token.scanFrom, Token.State.finish]

/-! ## Pieces -/

section Pieces

variable {α : Type}

/-- Two lists of pieces with AND between them: the pieces that meet become one. -/
def splice : List (List (Formula α)) → List (List (Formula α)) → List (List (Formula α))
  | [], qs => qs
  | [x], [] => [x]
  | [x], y :: qs => (x ++ y) :: qs
  | x :: x' :: ps, qs => x :: splice (x' :: ps) qs

/-- What pieces say together. -/
def ofPieces (ps : List (List (Formula α))) : Formula α := .any (ps.map .all)

mutual

/-- The pieces of a formula in its place. -/
def pieces (place : Place) : Formula α → List (List (Formula α))
  | .compare field op rhs => [[.compare field op rhs]]
  | .all parts =>
    if place == .disjunct then [[ofPieces (conjunctionPieces parts)]] else conjunctionPieces parts
  | .any parts =>
    if place == .alone then disjunctionPieces parts else [[ofPieces (disjunctionPieces parts)]]

/-- The pieces of a conjunction. -/
def conjunctionPieces : List (Formula α) → List (List (Formula α))
  | [] => [[.all []]]
  | [f] => f.pieces .alone
  | f :: g :: rest => conjunctsPieces (f.pieces .conjunct) (g :: rest)

/-- The pieces of a conjunction of which the first parts are done. -/
def conjunctsPieces (done : List (List (Formula α))) : List (Formula α) → List (List (Formula α))
  | [] => done
  | f :: rest => conjunctsPieces (splice done (f.pieces .conjunct)) rest

/-- The pieces of a disjunction. -/
def disjunctionPieces : List (Formula α) → List (List (Formula α))
  | [] => [[.any []]]
  | f :: rest => f.pieces .disjunct ++ disjunctsPieces rest

/-- The pieces of the further parts of a disjunction. -/
def disjunctsPieces : List (Formula α) → List (List (Formula α))
  | [] => []
  | f :: rest => f.pieces .disjunct ++ disjunctsPieces rest

end

end Pieces

/-! ## Pieces and the grammar -/

/-- A primary is a condition of one piece. -/
theorem reads_piece {ts : List Token} {f : Formula Operand} (h : Reads .primary ts f) :
    Reads .disjunction ts (ofPieces [[f]]) := .disjunct (.conjunct h)

/-- What stands in parentheses is a single piece, whatever it is. -/
theorem reads_inParentheses {ts : List Token} {f : Formula Operand} (h : Reads .disjunction ts f) :
    Reads .disjunction (inParentheses ts) (ofPieces [[f]]) := reads_piece (.group h)

/-- AND joins conjunctions: two pieces with AND between them are read as one piece with the conjuncts of
both. -/
theorem reads_conjunction_append {ts us : List Token} {fs gs : List (Formula Operand)}
    (hf : Reads .conjunction ts (.all fs)) (hg : Reads .conjunction us (.all gs)) :
    Reads .conjunction (ts ++ .and :: us) (.all (fs ++ gs)) := by
  induction fs generalizing ts with
  | nil => cases hf
  | cons f fs ih =>
    cases hf with
    | conjunct part => exact .and part hg
    | and part more =>
      rw [List.append_assoc, List.cons_append]
      exact .and part (ih more)

/-- AND between two conditions joins the pieces that meet, and leaves all others apart. The induction is on
the pieces of the first; only its last one is next to the AND. -/
theorem reads_splice {ts us : List Token} {ps qs : List (List (Formula Operand))}
    (hp : Reads .disjunction ts (ofPieces ps)) (hq : Reads .disjunction us (ofPieces qs)) :
    Reads .disjunction (ts ++ .and :: us) (ofPieces (splice ps qs)) := by
  induction ps generalizing ts with
  | nil => cases hp
  | cons x ps ih =>
    cases ps with
    | nil =>
      cases hp with
      | disjunct part =>
        cases qs with
        | nil => cases hq
        | cons y qs =>
          cases qs with
          | nil =>
            cases hq with
            | disjunct part' => exact .disjunct (reads_conjunction_append part part')
            | or part' more' => cases more'
          | cons y' qs =>
            -- the conjunctions that meet become one, and the rest of the right side stays
            cases hq with
            | or part' more' =>
              have h := Reads.or (reads_conjunction_append part part') more'
              rwa [List.append_assoc, List.cons_append] at h
      | or part more => cases more
    | cons x' ps =>
      -- only the last piece on the left is reached by the AND
      cases hp with
      | or part more =>
        rw [List.append_assoc, List.cons_append]
        exact .or part (ih more)

/-- OR between two conditions puts their pieces beside each other. Nothing binds weaker than OR, so no piece
is taken apart and none are joined. The induction is on the pieces of the first. -/
theorem reads_or_append {ts us : List Token} {ps qs : List (List (Formula Operand))}
    (hp : Reads .disjunction ts (ofPieces ps)) (hq : Reads .disjunction us (ofPieces qs)) :
    Reads .disjunction (ts ++ .or :: us) (ofPieces (ps ++ qs)) := by
  induction ps generalizing ts with
  | nil => cases hp
  | cons x ps ih =>
    cases ps with
    | nil =>
      cases hp with
      | disjunct part => exact .or part hq
      | or part more => cases more
    | cons x' ps =>
      cases hp with
      | or part more =>
        rw [List.append_assoc, List.cons_append]
        exact .or part (ih more)

mutual

/-- The tokens of a formula are read as the formula of its pieces. This and the next four statements are one
induction over the formula, along the one for scanning. -/
theorem reads_tokens (place : Place) (f : Formula Operand) :
    Reads .disjunction (f.tokens place) (ofPieces (f.pieces place)) := by
  match f with
  | .compare field op rhs => exact reads_piece (.compare field op rhs)
  | .all parts =>
    rw [tokens, pieces]
    split
    · exact reads_inParentheses (reads_conjunction parts)
    · exact reads_conjunction parts
  | .any parts =>
    rw [tokens, pieces]
    split
    · exact reads_disjunction parts
    · exact reads_inParentheses (reads_disjunction parts)

theorem reads_conjunction (parts : List (Formula Operand)) :
    Reads .disjunction (conjunctionTokens parts) (ofPieces (conjunctionPieces parts)) := by
  match parts with
  | [] => exact reads_piece .true
  | [f] =>
    rw [conjunctionTokens, conjunctionPieces]
    exact reads_tokens .alone f
  | f :: g :: rest =>
    rw [conjunctionTokens, conjunctionPieces]
    exact reads_conjuncts (g :: rest) (reads_tokens .conjunct f)

/-- The same for further parts with AND. The first piece of each is joined to the last piece of what was
read, which is where a written conjunction and a conjunction part. -/
theorem reads_conjuncts (parts : List (Formula Operand)) {ts : List Token}
    {done : List (List (Formula Operand))} (h : Reads .disjunction ts (ofPieces done)) :
    Reads .disjunction (ts ++ conjunctsTokens parts) (ofPieces (conjunctsPieces done parts)) := by
  match parts with
  | [] =>
    rw [conjunctsTokens, conjunctsPieces, List.append_nil]
    exact h
  | f :: rest =>
    have hrest := reads_conjuncts rest (reads_splice h (reads_tokens .conjunct f))
    rwa [List.append_assoc, List.cons_append] at hrest

theorem reads_disjunction (parts : List (Formula Operand)) :
    Reads .disjunction (disjunctionTokens parts) (ofPieces (disjunctionPieces parts)) := by
  match parts with
  | [] => exact reads_piece .false
  | f :: rest =>
    rw [disjunctionTokens, disjunctionPieces]
    exact reads_disjuncts rest (reads_tokens .disjunct f)

/-- The same for further parts with OR, whose pieces come behind those that were read. -/
theorem reads_disjuncts (parts : List (Formula Operand)) {ts : List Token}
    {done : List (List (Formula Operand))} (h : Reads .disjunction ts (ofPieces done)) :
    Reads .disjunction (ts ++ disjunctsTokens parts)
      (ofPieces (done ++ disjunctsPieces parts)) := by
  match parts with
  | [] =>
    rw [disjunctsTokens, disjunctsPieces, List.append_nil, List.append_nil]
    exact h
  | f :: rest =>
    have hrest := reads_disjuncts rest (reads_or_append h (reads_tokens .disjunct f))
    rwa [List.append_assoc, List.append_assoc, List.cons_append] at hrest

end

/-- **What a written formula says.** It reads as its pieces, and as nothing else. -/
theorem readsAs_text_iff (f g : Formula Operand) :
    ReadsAs (f.text .alone) g ↔ g = ofPieces (f.pieces .alone) := by
  have hself : ReadsAs (f.text .alone) (ofPieces (f.pieces .alone)) :=
    ⟨f.tokens .alone, scan_text f, reads_tokens .alone f⟩
  constructor
  · intro h
    exact h.unique hself
  · rintro rfl
    exact hself

end Formula

end DocFilter
