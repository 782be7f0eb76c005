import DocFilter.Proofs.Truth
import DocFilter.Proofs.Writing

/-!
What a written formula says, against what it means. A disjunction inside a longer conjunction stands
in parentheses, but the rule looks at the part itself, and a conjunction of one part is written as
that part. So a disjunction of several parts inside a conjunction of one part inside a longer
conjunction is written without parentheses, and the ANDs around it reach into it.

A formula in which this does not happen is *guarded*. Three facts say what that is worth. Whatever
the formula, its text never excludes what the formula admits. The text of a guarded formula says
exactly what the formula means. And the condition is the right one: if no group is empty and no
comparison occurs twice, the text of a formula that is not guarded admits more than the formula.
-/

set_option autoImplicit false

namespace DocFilter.Formula

section Guarded

variable {α : Type}

/-- Whether the text of a formula that stands alone has several pieces because it is, behind
conjunctions of one part, a disjunction of several parts. -/
def opens : Formula α → Bool
  | .any (_ :: _ :: _) => true
  | .all [f] => f.opens
  | _ => false

/-- Whether a part of a longer conjunction is written as a disjunction without parentheses. -/
def exposed : Formula α → Bool
  | .all [f] => f.opens
  | _ => false

mutual

/-- Whether no part of a longer conjunction is exposed. -/
def guarded : Formula α → Bool
  | .compare _ _ _ => true
  | .all parts => guardedAll parts && (parts.length ≤ 1 || parts.all (!·.exposed))
  | .any parts => guardedAll parts

/-- Whether several formulas are guarded. -/
def guardedAll : List (Formula α) → Bool
  | [] => true
  | f :: rest => f.guarded && guardedAll rest

end

mutual

/-- Whether no group is empty. -/
def inhabited : Formula α → Bool
  | .compare _ _ _ => true
  | .all parts => !parts.isEmpty && inhabitedAll parts
  | .any parts => !parts.isEmpty && inhabitedAll parts

/-- Whether no group of several formulas is empty. -/
def inhabitedAll : List (Formula α) → Bool
  | [] => true
  | f :: rest => f.inhabited && inhabitedAll rest

end

theorem guardedAll_eq (parts : List (Formula α)) : guardedAll parts = parts.all guarded := by
  induction parts with
  | nil => rfl
  | cons f rest ih => rw [guardedAll, ih, List.all_cons]

theorem guardedAll_iff (parts : List (Formula α)) :
    guardedAll parts = true ↔ ∀ f ∈ parts, f.guarded = true := by
  rw [guardedAll_eq, List.all_eq_true]

theorem inhabitedAll_eq (parts : List (Formula α)) : inhabitedAll parts = parts.all inhabited := by
  induction parts with
  | nil => rfl
  | cons f rest ih => rw [inhabitedAll, ih, List.all_cons]

theorem inhabitedAll_iff (parts : List (Formula α)) :
    inhabitedAll parts = true ↔ ∀ f ∈ parts, f.inhabited = true := by
  rw [inhabitedAll_eq, List.all_eq_true]

/-- A conjunction has no empty group in it if it has parts, and these have none in them. -/
theorem inhabited_all (parts : List (Formula α)) :
    (Formula.all parts).inhabited = true ↔ parts ≠ [] ∧ ∀ f ∈ parts, f.inhabited = true := by
  simp [inhabited, inhabitedAll_iff]

/-- A disjunction has no empty group in it if it has parts, and these have none in them. -/
theorem inhabited_any (parts : List (Formula α)) :
    (Formula.any parts).inhabited = true ↔ parts ≠ [] ∧ ∀ f ∈ parts, f.inhabited = true := by
  simp [inhabited, inhabitedAll_iff]

/-! Groups do not depend on what is compared. -/

variable {β : Type} (g : α → β)

/-- Whether a formula is in effect a disjunction of several parts does not depend on what is compared. -/
theorem opens_map (f : Formula α) : (f.map g).opens = f.opens := by
  induction f using partsInduction with
  | compare field op rhs => rfl
  | any parts ih =>
    match parts with
    | [] => rfl
    | [f] => rfl
    | f :: f' :: rest => rfl
  | all parts ih =>
    match parts with
    | [] => rfl
    | [f] => exact ih f (by simp)
    | f :: f' :: rest => rfl

/-- Whether a part is exposed does not depend on what is compared. -/
theorem exposed_map (f : Formula α) : (f.map g).exposed = f.exposed := by
  match f with
  | .compare field op rhs => rfl
  | .any parts => rfl
  | .all [] => rfl
  | .all [f] => exact opens_map g f
  | .all (f :: f' :: rest) => rfl

/-- Whether a formula is guarded does not depend on what is compared. So it can be seen before literals are
put in. -/
theorem guarded_map (f : Formula α) : (f.map g).guarded = f.guarded := by
  induction f using partsInduction with
  | compare field op rhs => rfl
  | any parts ih =>
    rw [map, guarded, guarded, mapAll_eq, guardedAll_eq, guardedAll_eq, List.all_map]
    exact all_congr_of_mem ih
  | all parts ih =>
    have hparts : guardedAll (mapAll g parts) = guardedAll parts := by
      rw [mapAll_eq, guardedAll_eq, guardedAll_eq, List.all_map]
      exact all_congr_of_mem ih
    have hexp : (mapAll g parts).all (!·.exposed) = parts.all (!·.exposed) := by
      rw [mapAll_eq, List.all_map]
      exact all_congr_of_mem fun f _ => congrArg (!·) (exposed_map g f)
    rw [map, guarded, guarded, hparts, hexp, mapAll_eq, List.length_map]

/-- Whether there are empty groups does not depend on what is compared. -/
theorem inhabited_map (f : Formula α) : (f.map g).inhabited = f.inhabited := by
  induction f using partsInduction with
  | compare field op rhs => rfl
  | all parts ih | any parts ih =>
    have hparts : inhabitedAll (mapAll g parts) = inhabitedAll parts := by
      rw [mapAll_eq, inhabitedAll_eq, inhabitedAll_eq, List.all_map]
      exact all_congr_of_mem ih
    rw [map, inhabited, inhabited, hparts, mapAll_eq, List.isEmpty_map]

end Guarded

/-! ## The truth of pieces -/

section Says

variable {α : Type} (lit : α → Literal) (ρ : Assignment)

/-- Whether a piece holds. -/
def pieceHolds (x : List (Formula α)) : Bool := x.all (holds lit ρ)

/-- Whether one of several pieces holds. -/
def piecesHold (ps : List (List (Formula α))) : Bool := ps.any (pieceHolds lit ρ)

@[simp] theorem pieceHolds_append (x y : List (Formula α)) :
    pieceHolds lit ρ (x ++ y) = (pieceHolds lit ρ x && pieceHolds lit ρ y) := List.all_append

@[simp] theorem pieceHolds_singleton (f : Formula α) : pieceHolds lit ρ [f] = f.holds lit ρ := by
  simp [pieceHolds]

@[simp] theorem piecesHold_append (ps qs : List (List (Formula α))) :
    piecesHold lit ρ (ps ++ qs) = (piecesHold lit ρ ps || piecesHold lit ρ qs) := List.any_append

@[simp] theorem piecesHold_singleton (x : List (Formula α)) :
    piecesHold lit ρ [x] = pieceHolds lit ρ x := by
  simp [piecesHold]

/-- Pieces say that one of them holds. -/
@[simp] theorem holds_ofPieces (ps : List (List (Formula α))) :
    (ofPieces ps).holds lit ρ = piecesHold lit ρ ps := by
  rw [ofPieces, holds_any, List.any_map, piecesHold]
  congr 1
  funext x
  exact holds_all lit ρ x

/-- Parentheses do not change what a formula says. -/
theorem piecesHold_place (place : Place) (f : Formula α) :
    piecesHold lit ρ (f.pieces place) = piecesHold lit ρ (f.pieces .alone) := by
  cases f with
  | compare field op rhs => rfl
  | all parts => cases place <;> simp [pieces]
  | any parts => cases place <;> simp [pieces]

/-- Joining by AND never excludes what both sides admit: if a piece holds on each side, then either one of
them is left apart, or both are in the piece where the sides meet. -/
theorem piecesHold_splice {ps qs : List (List (Formula α))} (hp : piecesHold lit ρ ps)
    (hq : piecesHold lit ρ qs) : piecesHold lit ρ (splice ps qs) := by
  induction ps with
  | nil => exact hq
  | cons x ps ih =>
    cases ps with
    | nil =>
      cases qs with
      | nil => exact hp
      | cons y qs =>
        simp only [piecesHold, List.any_cons, List.any_nil, Bool.or_false, Bool.or_eq_true] at hp hq
        simp only [splice, piecesHold, List.any_cons, pieceHolds_append, Bool.or_eq_true,
          Bool.and_eq_true]
        -- Either the two pieces that meet hold together, or a later piece on the right does.
        exact hq.imp (fun hy => ⟨hp, hy⟩) id
    | cons x' ps =>
      simp only [splice, piecesHold, List.any_cons, Bool.or_eq_true] at hp ih ⊢
      exact hp.imp id ih

/-- A disjunction says that one of its parts does, since each part is one piece and they are put beside each
other. An empty one holds nowhere. -/
theorem piecesHold_disjunction (parts : List (Formula α)) :
    piecesHold lit ρ (disjunctionPieces parts)
      = parts.any fun f => piecesHold lit ρ (f.pieces .alone) := by
  cases parts with
  | nil => simp [disjunctionPieces]
  | cons f rest =>
    have hmore : ∀ fs : List (Formula α), piecesHold lit ρ (disjunctsPieces fs)
        = fs.any fun f => piecesHold lit ρ (f.pieces .alone) := by
      intro fs
      induction fs with
      | nil => rfl
      | cons g rest ih =>
        rw [disjunctsPieces, piecesHold_append, piecesHold_place, ih, List.any_cons]
    rw [disjunctionPieces, piecesHold_append, piecesHold_place, hmore, List.any_cons]

/-! ## The text admits what the formula admits -/

/-- If what was written first has a piece that holds, and so has every part, then the whole text has one: a
piece that was left apart, or the one in which two texts meet. -/
theorem piecesHold_conjuncts {parts : List (Formula α)} {done : List (List (Formula α))}
    (hdone : piecesHold lit ρ done) (h : ∀ f ∈ parts, piecesHold lit ρ (f.pieces .alone)) :
    piecesHold lit ρ (conjunctsPieces done parts) := by
  induction parts generalizing done with
  | nil => exact hdone
  | cons f rest ih =>
    have hf : piecesHold lit ρ (f.pieces .conjunct) := by
      rw [piecesHold_place]
      exact h f (by simp)
    exact ih (piecesHold_splice lit ρ hdone hf) (fun g hg => h g (by simp [hg]))

/-- The text of a conjunction holds where the texts of its parts do. -/
theorem piecesHold_conjunction {parts : List (Formula α)}
    (h : ∀ f ∈ parts, piecesHold lit ρ (f.pieces .alone)) :
    piecesHold lit ρ (conjunctionPieces parts) := by
  match parts with
  | [] => simp [conjunctionPieces]
  | [f] => exact h f (by simp)
  | f :: g :: rest =>
    have hf : piecesHold lit ρ (f.pieces .conjunct) := by
      rw [piecesHold_place]
      exact h f (by simp)
    exact piecesHold_conjuncts lit ρ hf (fun p hp => h p (List.mem_cons_of_mem _ hp))

/-- What a formula admits, its text admits. The induction is over the formula, and the converse is what
fails where a part is exposed. -/
theorem piecesHold_of_holds (f : Formula α) (h : f.holds lit ρ) :
    piecesHold lit ρ (f.pieces .alone) := by
  induction f using partsInduction with
  | compare field op rhs => simpa [pieces] using h
  | all parts ih =>
    rw [holds_all, List.all_eq_true] at h
    exact piecesHold_conjunction lit ρ (fun f hf => ih f hf (h f hf))
  | any parts ih =>
    rw [holds_any, List.any_eq_true] at h
    obtain ⟨f, hf, hholds⟩ := h
    refine (piecesHold_disjunction lit ρ parts).trans ?_
    exact List.any_eq_true.mpr ⟨f, hf, ih f hf hholds⟩

/-! ## The text of a guarded formula

The invariant is about the number of pieces: a part of a longer conjunction that is not exposed has
a single one, so AND joins whole parts. -/

/-- A part of a disjunction is written as a single piece, since groups are put into parentheses there. -/
theorem pieces_disjunct (f : Formula α) : ∃ x, f.pieces .disjunct = [x] := by
  cases f with
  | compare field op rhs => exact ⟨_, rfl⟩
  | all parts => exact ⟨_, rfl⟩
  | any parts => exact ⟨_, rfl⟩

/-- Parts of one piece each make a conjunction of one piece, whatever was written before it in that piece.
-/
theorem conjunctsPieces_single {parts : List (Formula α)} (x : List (Formula α))
    (hone : ∀ f ∈ parts, ∃ y, f.pieces .conjunct = [y]) :
    ∃ y, conjunctsPieces [x] parts = [y] := by
  induction parts generalizing x with
  | nil => exact ⟨x, rfl⟩
  | cons f rest ih =>
    obtain ⟨z, hz⟩ := hone f (by simp)
    rw [conjunctsPieces, hz]
    exact ih (x ++ z) (fun g hg => hone g (by simp [hg]))

/-- Parts of one piece each are joined as wholes, so their conjunction says what it should. -/
theorem piecesHold_conjuncts_single {parts : List (Formula α)} (x : List (Formula α))
    (hone : ∀ f ∈ parts, ∃ y, f.pieces .conjunct = [y]) :
    piecesHold lit ρ (conjunctsPieces [x] parts)
      = (pieceHolds lit ρ x && parts.all fun f => piecesHold lit ρ (f.pieces .alone)) := by
  induction parts generalizing x with
  | nil => simp [conjunctsPieces]
  | cons f rest ih =>
    obtain ⟨z, hz⟩ := hone f (by simp)
    have hf : piecesHold lit ρ (f.pieces .alone) = pieceHolds lit ρ z := by
      rw [← piecesHold_place lit ρ .conjunct, hz, piecesHold_singleton]
    rw [conjunctsPieces, hz, List.all_cons, hf, ← Bool.and_assoc, ← pieceHolds_append]
    exact ih (x ++ z) (fun g hg => hone g (by simp [hg]))

/-- The parts of a guarded conjunction of several parts are guarded and not exposed. -/
theorem guarded_parts {f g : Formula α} {rest : List (Formula α)}
    (hg : (Formula.all (f :: g :: rest)).guarded) :
    ∀ p ∈ f :: g :: rest, p.guarded ∧ p.exposed = false := by
  intro p hp
  simp only [guarded, Bool.and_eq_true, guardedAll_iff, Bool.or_eq_true, List.all_eq_true,
    Bool.not_eq_true'] at hg
  refine ⟨hg.1 p hp, ?_⟩
  rcases hg.2 with hlen | hexp
  · simp at hlen
  · exact hexp p hp

/-- A guarded formula that does not open has one piece. A conjunction of one part is written as the part,
and this is where opening has to be excluded. -/
theorem pieces_guarded (f : Formula α) (hg : f.guarded) :
    (f.opens = false → ∃ x, f.pieces .alone = [x]) ∧
      (f.exposed = false → ∃ x, f.pieces .conjunct = [x]) := by
  induction f using partsInduction with
  | compare field op rhs => exact ⟨fun _ => ⟨_, rfl⟩, fun _ => ⟨_, rfl⟩⟩
  | any parts ih =>
    refine ⟨fun hopen => ?_, fun _ => ⟨_, rfl⟩⟩
    match parts with
    | [] => exact ⟨_, rfl⟩
    | [f] =>
      obtain ⟨x, hx⟩ := pieces_disjunct f
      refine ⟨x, ?_⟩
      show f.pieces .disjunct ++ disjunctsPieces [] = [x]
      rw [hx, disjunctsPieces, List.append_nil]
    | f :: g :: rest => simp [opens] at hopen
  | all parts ih =>
    -- alone and in a conjunction a conjunction is written alike
    suffices h : (Formula.all parts).opens = false → ∃ x, conjunctionPieces parts = [x] by
      refine ⟨h, fun hexp => h ?_⟩
      match parts with
      | [] => rfl
      | [f] => exact hexp
      | f :: g :: rest => rfl
    intro hopen
    match parts with
    | [] => exact ⟨_, rfl⟩
    | [f] =>
      have hf : f.guarded := by simpa [guarded, guardedAll] using hg
      exact (ih f (by simp) hf).1 hopen
    | f :: g :: rest =>
      have hone : ∀ p ∈ f :: g :: rest, ∃ x, p.pieces .conjunct = [x] := fun p hp =>
        (ih p hp (guarded_parts hg p hp).1).2 (guarded_parts hg p hp).2
      obtain ⟨x, hx⟩ := hone f (by simp)
      rw [conjunctionPieces, hx]
      exact conjunctsPieces_single x (fun p hp => hone p (List.mem_cons_of_mem _ hp))

/-- The text of a guarded formula says what the formula means. In a longer conjunction no part is exposed,
so all its parts have one piece and are joined as wholes. -/
theorem piecesHold_guarded (f : Formula α) (hg : f.guarded) :
    piecesHold lit ρ (f.pieces .alone) = f.holds lit ρ := by
  induction f using partsInduction with
  | compare field op rhs => simp [pieces]
  | any parts ih =>
    rw [guarded, guardedAll_iff] at hg
    rw [holds_any]
    refine (piecesHold_disjunction lit ρ parts).trans ?_
    exact any_congr_of_mem (fun f hf => ih f hf (hg f hf))
  | all parts ih =>
    rw [holds_all]
    show piecesHold lit ρ (conjunctionPieces parts) = _
    match parts with
    | [] => simp [conjunctionPieces]
    | [f] =>
      have hf : f.guarded := by simpa [guarded, guardedAll] using hg
      rw [conjunctionPieces, ih f (by simp) hf, List.all_cons, List.all_nil, Bool.and_true]
    | f :: g :: rest =>
      -- No part is exposed, so each is one piece and AND joins them as wholes.
      have hparts := guarded_parts hg
      have hone : ∀ p ∈ f :: g :: rest, ∃ x, p.pieces .conjunct = [x] := fun p hp =>
        (pieces_guarded p (hparts p hp).1).2 (hparts p hp).2
      obtain ⟨x, hx⟩ := hone f (by simp)
      have hf : pieceHolds lit ρ x = piecesHold lit ρ (f.pieces .alone) := by
        rw [← piecesHold_place lit ρ .conjunct, hx, piecesHold_singleton]
      rw [conjunctionPieces, hx, piecesHold_conjuncts_single lit ρ x
        (fun p hp => hone p (List.mem_cons_of_mem _ hp)), hf, ih f (by simp) (hparts f (by simp)).1,
        List.all_cons]
      congr 1
      exact all_congr_of_mem fun p hp =>
        ih p (List.mem_cons_of_mem _ hp) (hparts p (List.mem_cons_of_mem _ hp)).1

end Says

end DocFilter.Formula
