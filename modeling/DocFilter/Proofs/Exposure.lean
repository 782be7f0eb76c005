import DocFilter.Proofs.Precedence

/-!
The text of a formula that is not guarded. The condition of the module on precedence is the right
one: where it fails there is an assignment that the text admits and the formula does not, provided
that no group of the formula is empty and no atom occurs twice in it. Both provisos are needed, for
`a OR b AND TRUE` and `a OR b AND a` say by luck what their formulas mean.

The assignment makes the exposed disjunction true and the parts on one side of it false. Where the
fault lies deeper, the other parts of every conjunction on the way down are made true and those of
every disjunction false, so that the whole follows the faulty part. Atoms that occur once can be
chosen freely, and a formula without empty groups follows its atoms.
-/

set_option autoImplicit false

namespace DocFilter.Formula

variable {α : Type}

/-! ## Atoms -/

/-- The atoms of a formula from left to right. -/
def atoms (lit : α → Literal) (f : Formula α) : List Atom := f.comparisons.map (·.map lit)

variable {lit : α → Literal}

/-- The atoms of a conjunction are those of its parts, in their order. -/
theorem atoms_all (parts : List (Formula α)) :
    atoms lit (.all parts) = parts.flatMap (atoms lit) := by
  rw [atoms, comparisons, comparisonsAll_eq, List.map_flatMap]
  rfl

/-- The atoms of a disjunction are those of its parts, in their order. -/
theorem atoms_any (parts : List (Formula α)) :
    atoms lit (.any parts) = parts.flatMap (atoms lit) := by
  rw [atoms, comparisons, comparisonsAll_eq, List.map_flatMap]
  rfl

/-- The atoms of a formula over values are those of the formula over literals. -/
theorem atoms_map (f : Formula α) : atoms id (f.map lit) = atoms lit f := by
  induction f using partsInduction with
  | compare field op rhs => rfl
  | all parts ih =>
    rw [map, mapAll_eq, atoms_all, List.flatMap_map, atoms_all]
    exact List.flatMap_congr ih
  | any parts ih =>
    rw [map, mapAll_eq, atoms_any, List.flatMap_map, atoms_any]
    exact List.flatMap_congr ih

/-- The truth of a formula depends on its atoms only: assignments that agree on these give the formula the
same truth value. -/
theorem holds_congr {ρ σ : Assignment} (f : Formula α) (h : ∀ a ∈ atoms lit f, ρ a = σ a) :
    f.holds lit ρ = f.holds lit σ := by
  induction f using partsInduction with
  | compare field op rhs => exact h ⟨field, op, lit rhs⟩ (List.mem_singleton.mpr rfl)
  | all parts ih =>
    rw [atoms_all] at h
    rw [holds_all, holds_all]
    exact all_congr_of_mem fun f hf => ih f hf fun a ha => h a (List.mem_flatMap.mpr ⟨f, hf, ha⟩)
  | any parts ih =>
    rw [atoms_any] at h
    rw [holds_any, holds_any]
    exact any_congr_of_mem fun f hf => ih f hf fun a ha => h a (List.mem_flatMap.mpr ⟨f, hf, ha⟩)

/-- A formula without empty groups has the truth value that all its atoms have. An empty group would be true
or false whatever the atoms are. -/
theorem holds_of_atoms {ρ : Assignment} {b : Bool} (f : Formula α) (hf : f.inhabited)
    (h : ∀ a ∈ atoms lit f, ρ a = b) : f.holds lit ρ = b := by
  induction f using partsInduction with
  | compare field op rhs => exact h ⟨field, op, lit rhs⟩ (List.mem_singleton.mpr rfl)
  | all parts ih =>
    rw [inhabited_all] at hf
    rw [atoms_all] at h
    have hparts : ∀ f ∈ parts, f.holds lit ρ = b := fun f hmem =>
      ih f hmem (hf.2 f hmem) fun a ha => h a (List.mem_flatMap.mpr ⟨f, hmem, ha⟩)
    rw [holds_all, all_congr_of_mem hparts]
    obtain ⟨f, rest, rfl⟩ := List.exists_cons_of_ne_nil hf.1
    cases b <;> simp
  | any parts ih =>
    rw [inhabited_any] at hf
    rw [atoms_any] at h
    have hparts : ∀ f ∈ parts, f.holds lit ρ = b := fun f hmem =>
      ih f hmem (hf.2 f hmem) fun a ha => h a (List.mem_flatMap.mpr ⟨f, hmem, ha⟩)
    rw [holds_any, any_congr_of_mem hparts]
    obtain ⟨f, rest, rfl⟩ := List.exists_cons_of_ne_nil hf.1
    cases b <;> simp

/-! ## Pieces keep the comparisons

The parentheses may be wrong, but the pieces of a text hold the comparisons of the formula, each of
them once and in order, and no empty group that the formula does not have. -/

/-- Splicing loses no part: the last piece of the one and the first piece of the other become one, and all
parts are still there. -/
theorem splice_flatten (ps qs : List (List (Formula α))) :
    (splice ps qs).flatten = ps.flatten ++ qs.flatten := by
  induction ps with
  | nil => rfl
  | cons x ps ih =>
    cases ps with
    | nil => cases qs <;> simp [splice]
    | cons x' ps => simp only [splice, ih, List.flatten_cons, List.append_assoc]

theorem comparisons_ofPieces (ps : List (List (Formula α))) :
    (ofPieces ps).comparisons = ps.flatten.flatMap comparisons := by
  rw [ofPieces, comparisons, comparisonsAll_eq, List.flatMap_map]
  induction ps with
  | nil => rfl
  | cons x ps ih =>
    rw [List.flatMap_cons, ih, List.flatten_cons, List.flatMap_append, comparisons,
      comparisonsAll_eq]

/-- Adding the parts of a conjunction to pieces adds their comparisons, if the pieces of each part have its
comparisons. -/
theorem comparisons_conjuncts {parts : List (Formula α)} (done : List (List (Formula α)))
    (h : ∀ f ∈ parts, ∀ place, (ofPieces (f.pieces place)).comparisons = f.comparisons) :
    (ofPieces (conjunctsPieces done parts)).comparisons
      = (ofPieces done).comparisons ++ parts.flatMap comparisons := by
  induction parts generalizing done with
  | nil => rw [conjunctsPieces, List.flatMap_nil, List.append_nil]
  | cons f rest ih =>
    have hf := h f (by simp) .conjunct
    rw [conjunctsPieces, ih _ (fun g hg => h g (by simp [hg])), comparisons_ofPieces,
      splice_flatten, List.flatMap_append, ← comparisons_ofPieces, ← comparisons_ofPieces, hf,
      List.flatMap_cons, List.append_assoc]

/-- The pieces of a disjunction have the comparisons of its parts, under the same condition. -/
theorem comparisons_disjuncts {parts : List (Formula α)}
    (h : ∀ f ∈ parts, ∀ place, (ofPieces (f.pieces place)).comparisons = f.comparisons) :
    (ofPieces (disjunctsPieces parts)).comparisons = parts.flatMap comparisons := by
  induction parts with
  | nil => rfl
  | cons f rest ih =>
    have hf := h f (by simp) .disjunct
    have hrest := ih (fun g hg => h g (by simp [hg]))
    rw [comparisons_ofPieces] at hf hrest ⊢
    rw [disjunctsPieces, List.flatten_append, List.flatMap_append, hf, hrest, List.flatMap_cons]

/-- What is read off a text has the comparisons of the formula in the same order, however the text is
grouped. Only AND and OR change sides, never a comparison. -/
theorem comparisons_pieces (place : Place) (f : Formula α) :
    (ofPieces (f.pieces place)).comparisons = f.comparisons := by
  induction f using partsInduction generalizing place with
  | compare field op rhs => rfl
  | all parts ih =>
    have hconj : (ofPieces (conjunctionPieces parts)).comparisons
        = (Formula.all parts).comparisons := by
      rw [comparisons, comparisonsAll_eq]
      match parts with
      | [] => rfl
      | [f] => rw [conjunctionPieces, ih f (by simp), List.flatMap_singleton]
      -- only here pieces are joined, and joining keeps the order
      | f :: g :: rest =>
        have hrest : ∀ p ∈ g :: rest, ∀ place, (ofPieces (p.pieces place)).comparisons
            = p.comparisons := fun p hp => ih p (List.mem_cons_of_mem _ hp)
        rw [conjunctionPieces, comparisons_conjuncts _ hrest, ih f (by simp)]
        exact List.flatMap_cons.symm
    rw [pieces]
    split
    · rw [comparisons_ofPieces, List.flatten_cons, List.flatten_nil, List.append_nil,
        List.flatMap_singleton, hconj]
    · exact hconj
  | any parts ih =>
    have hdisj : (ofPieces (disjunctionPieces parts)).comparisons
        = (Formula.any parts).comparisons := by
      rw [comparisons, comparisonsAll_eq]
      match parts with
      | [] => rfl
      | f :: rest => exact comparisons_disjuncts ih
    rw [pieces]
    split
    · exact hdisj
    · rw [comparisons_ofPieces, List.flatten_cons, List.flatten_nil, List.append_nil,
        List.flatMap_singleton, hdisj]

/-- What a text says depends on the atoms of the formula only. -/
theorem piecesHold_congr {ρ σ : Assignment} (place : Place) (f : Formula α)
    (h : ∀ a ∈ atoms lit f, ρ a = σ a) :
    piecesHold lit ρ (f.pieces place) = piecesHold lit σ (f.pieces place) := by
  rw [← holds_ofPieces, ← holds_ofPieces]
  apply holds_congr
  rw [atoms, comparisons_pieces]
  exact h

/-- Pieces have no empty group if there are pieces, none is empty, and no part has one. -/
theorem inhabited_ofPieces (ps : List (List (Formula α))) :
    (ofPieces ps).inhabited = true ↔
      ps ≠ [] ∧ ∀ x ∈ ps, x ≠ [] ∧ ∀ f ∈ x, f.inhabited = true := by
  simp [ofPieces, inhabited, inhabitedAll_iff]

/-- Splicing pieces without empty groups gives pieces without empty groups: the piece in which the two meet
has the parts of both. -/
theorem inhabited_splice {ps qs : List (List (Formula α))} (hp : (ofPieces ps).inhabited)
    (hq : (ofPieces qs).inhabited) : (ofPieces (splice ps qs)).inhabited := by
  induction ps with
  | nil => exact hq
  | cons x ps ih =>
    simp only [inhabited_ofPieces] at hp hq ih ⊢
    cases ps with
    | nil =>
      obtain ⟨y, qs, rfl⟩ := List.exists_cons_of_ne_nil hq.1
      refine ⟨by simp [splice], ?_⟩
      intro z hz
      rcases List.mem_cons.mp hz with rfl | hz
      · refine ⟨by simp [(hp.2 x (by simp)).1], fun f hf => ?_⟩
        exact (List.mem_append.mp hf).elim ((hp.2 x (by simp)).2 f) ((hq.2 y (by simp)).2 f)
      · exact hq.2 z (List.mem_cons_of_mem _ hz)
    | cons x' ps =>
      have hrest := ih ⟨by simp, fun z hz => hp.2 z (List.mem_cons_of_mem _ hz)⟩
      refine ⟨by simp [splice], ?_⟩
      intro z hz
      rcases List.mem_cons.mp hz with rfl | hz
      · exact hp.2 z (by simp)
      · exact hrest.2 z hz

/-- The pieces of a conjunction have no empty groups if its parts have none. -/
theorem inhabited_conjuncts {parts : List (Formula α)} {done : List (List (Formula α))}
    (hdone : (ofPieces done).inhabited)
    (h : ∀ f ∈ parts, ∀ place, (ofPieces (f.pieces place)).inhabited) :
    (ofPieces (conjunctsPieces done parts)).inhabited := by
  induction parts generalizing done with
  | nil => exact hdone
  | cons f rest ih =>
    exact ih (inhabited_splice hdone (h f (by simp) .conjunct)) (fun g hg => h g (by simp [hg]))

/-- The pieces of a disjunction have no empty groups if it has parts, and these have none. -/
theorem inhabited_disjuncts {parts : List (Formula α)} (hne : parts ≠ [])
    (h : ∀ f ∈ parts, ∀ place, (ofPieces (f.pieces place)).inhabited) :
    (ofPieces (disjunctsPieces parts)).inhabited := by
  induction parts with
  | nil => exact absurd rfl hne
  | cons f rest ih =>
    have hf := h f (by simp) .disjunct
    rw [inhabited_ofPieces] at hf ⊢
    rw [disjunctsPieces]
    refine ⟨by simp [hf.1], fun x hx => ?_⟩
    rcases List.mem_append.mp hx with hx | hx
    · exact hf.2 x hx
    · have hrest : rest ≠ [] := by
        rintro rfl
        simp [disjunctsPieces] at hx
      exact ((inhabited_ofPieces _).mp (ih hrest fun g hg => h g (by simp [hg]))).2 x hx

/-- Writing a formula without empty groups makes none: what is read off its text has none either. So the
texts of such formulas can be judged by their atoms. -/
theorem inhabited_pieces (place : Place) (f : Formula α) (hf : f.inhabited) :
    (ofPieces (f.pieces place)).inhabited := by
  induction f using partsInduction generalizing place with
  | compare field op rhs => rfl
  | all parts ih =>
    rw [inhabited_all] at hf
    have hparts : ∀ f ∈ parts, ∀ place, (ofPieces (f.pieces place)).inhabited :=
      fun f hmem place => ih f hmem place (hf.2 f hmem)
    -- first without parentheses; these put the whole into a single piece
    have hconj : (ofPieces (conjunctionPieces parts)).inhabited := by
      match parts with
      | [] => exact absurd rfl hf.1
      | [f] => exact hparts f (by simp) .alone
      | f :: g :: rest =>
        exact inhabited_conjuncts (hparts f (by simp) .conjunct)
          (fun p hp => hparts p (List.mem_cons_of_mem _ hp))
    rw [pieces]
    split
    · rw [inhabited_ofPieces]
      simpa using hconj
    · exact hconj
  | any parts ih =>
    rw [inhabited_any] at hf
    have hparts : ∀ f ∈ parts, ∀ place, (ofPieces (f.pieces place)).inhabited :=
      fun f hmem place => ih f hmem place (hf.2 f hmem)
    have hdisj : (ofPieces (disjunctionPieces parts)).inhabited := by
      obtain ⟨f, rest, rfl⟩ := List.exists_cons_of_ne_nil hf.1
      exact inhabited_disjuncts hf.1 hparts
    rw [pieces]
    split
    · exact hdisj
    · rw [inhabited_ofPieces]
      simpa using hdisj

/-- Where all atoms of a formula hold, every piece of its text does. -/
theorem pieceHolds_of_atoms {ρ : Assignment} (place : Place) (f : Formula α) (hf : f.inhabited)
    (h : ∀ a ∈ atoms lit f, ρ a = true) : ∀ x ∈ f.pieces place, pieceHolds lit ρ x = true := by
  intro x hx
  have hinh := ((inhabited_ofPieces _).mp (inhabited_pieces place f hf)).2 x hx
  refine List.all_eq_true.mpr fun g hg => holds_of_atoms g (hinh.2 g hg) fun a ha => h a ?_
  -- An atom of a piece is an atom of the formula.
  have hcomp := comparisons_pieces place f
  rw [comparisons_ofPieces] at hcomp
  obtain ⟨c, hc, rfl⟩ := List.mem_map.mp ha
  refine List.mem_map.mpr ⟨c, ?_, rfl⟩
  rw [← hcomp]
  exact List.mem_flatMap.mpr ⟨g, List.mem_flatten.mpr ⟨x, hx, hg⟩, hc⟩

/-! ## Where the fault is -/

/-- The parts of a conjunction can be added in two steps. The part at fault is then the first of the second
step. -/
theorem conjunctsPieces_append (done : List (List (Formula α))) (fs gs : List (Formula α)) :
    conjunctsPieces done (fs ++ gs) = conjunctsPieces (conjunctsPieces done fs) gs := by
  induction fs generalizing done with
  | nil => rfl
  | cons f fs ih => exact ih _

/-- A formula that opens has several pieces when it stands alone, one for each part of the disjunction that
it is in effect. -/
theorem pieces_of_opens (f : Formula α) (h : f.opens) :
    ∃ x y ps, f.pieces .alone = x :: y :: ps := by
  induction f using partsInduction with
  | compare field op rhs => cases h
  | any parts ih =>
    match parts with
    | [] => cases h
    | [f] => cases h
    | f :: g :: rest =>
      obtain ⟨x, hx⟩ := pieces_disjunct f
      obtain ⟨y, hy⟩ := pieces_disjunct g
      refine ⟨x, y, disjunctsPieces rest, ?_⟩
      show f.pieces .disjunct ++ (g.pieces .disjunct ++ disjunctsPieces rest) = _
      rw [hx, hy]
      rfl
  | all parts ih =>
    match parts with
    | [] => cases h
    | [f] => exact ih f (by simp) h
    | f :: g :: rest => cases h

/-- An exposed part falls into several pieces, which is the fault itself. -/
theorem pieces_of_exposed (f : Formula α) (h : f.exposed) :
    ∃ x y ps, f.pieces .conjunct = x :: y :: ps := by
  match f with
  | .compare field op rhs => cases h
  | .any parts => cases h
  | .all [] => cases h
  | .all [f] => exact pieces_of_opens f h
  | .all (f :: g :: rest) => cases h

/-- Splicing joins the piece before and the piece behind, and leaves all others apart. -/
theorem splice_concat (ps qs : List (List (Formula α))) (x y : List (Formula α)) :
    splice (ps ++ [x]) (y :: qs) = ps ++ (x ++ y) :: qs := by
  induction ps with
  | nil => rfl
  | cons p ps ih =>
    cases ps with
    | nil => rfl
    | cons p' ps =>
      rw [List.cons_append, List.cons_append, splice, ← List.cons_append, ih]
      rfl

/-- The first of several pieces stays as it is when more is joined behind them. -/
theorem conjunctsPieces_cons_cons (x y : List (Formula α)) (ps : List (List (Formula α)))
    (parts : List (Formula α)) : ∃ qs, conjunctsPieces (x :: y :: ps) parts = x :: qs := by
  induction parts generalizing y ps with
  | nil => exact ⟨y :: ps, rfl⟩
  | cons f rest ih =>
    rw [conjunctsPieces, splice]
    cases hsplice : splice (y :: ps) (f.pieces .conjunct) with
    | nil =>
      cases ps with
      | nil => cases hp : f.pieces .conjunct <;> rw [hp] at hsplice <;> cases hsplice
      | cons p ps => cases hsplice
    | cons z qs => exact ih z qs

/-- If the last piece holds and every piece that is joined behind it does, the last one still
holds. -/
theorem piecesHold_conjuncts_of_last {ρ : Assignment} {parts : List (Formula α)}
    (ps : List (List (Formula α))) {x : List (Formula α)} (hx : pieceHolds lit ρ x)
    (h : ∀ f ∈ parts, f.pieces .conjunct ≠ [] ∧ ∀ y ∈ f.pieces .conjunct, pieceHolds lit ρ y) :
    piecesHold lit ρ (conjunctsPieces (ps ++ [x]) parts) := by
  induction parts generalizing ps x with
  | nil => rw [conjunctsPieces, piecesHold_append, piecesHold_singleton, hx, Bool.or_true]
  | cons f rest ih =>
    obtain ⟨hne, hall⟩ := h f (by simp)
    have hrest := fun g (hg : g ∈ rest) => h g (List.mem_cons_of_mem _ hg)
    obtain ⟨y, qs, hf⟩ := List.exists_cons_of_ne_nil hne
    rw [hf] at hall
    rw [conjunctsPieces, hf, splice_concat]
    -- If one piece is joined, the last piece grows; if several are, the last of them comes last.
    rcases List.eq_nil_or_concat qs with rfl | ⟨init, z, rfl⟩
    · refine ih ps ?_ hrest
      rw [pieceHolds_append, hx, hall y (by simp), Bool.and_true]
    · have hz : pieceHolds lit ρ z := hall z (by simp)
      have hassoc : ps ++ (x ++ y) :: (init ++ [z]) = (ps ++ (x ++ y) :: init) ++ [z] := by simp
      rw [List.concat_eq_append, hassoc]
      exact ih _ hz hrest

/-- An exposed part that holds keeps the text true, whatever stands before it. -/
theorem piecesHold_exposed_behind {ρ : Assignment} {f p : Formula α}
    {before behind : List (Formula α)}
    (hinh : ∀ q ∈ f :: (before ++ p :: behind), q.inhabited) (hexp : p.exposed)
    (htrue : ∀ q ∈ p :: behind, ∀ a ∈ atoms lit q, ρ a = true) :
    piecesHold lit ρ (conjunctionPieces (f :: (before ++ p :: behind))) := by
  have hsplit : conjunctionPieces (f :: (before ++ p :: behind))
      = conjunctsPieces (splice (conjunctsPieces (f.pieces .conjunct) before) (p.pieces .conjunct))
          behind := by
    have hlong : conjunctionPieces (f :: (before ++ p :: behind))
        = conjunctsPieces (f.pieces .conjunct) (before ++ p :: behind) := by cases before <;> rfl
    rw [hlong, conjunctsPieces_append, conjunctsPieces]
  have hdone : (ofPieces (conjunctsPieces (f.pieces .conjunct) before)).inhabited :=
    inhabited_conjuncts (inhabited_pieces .conjunct f (hinh f (by simp)))
      (fun q hq place => inhabited_pieces place q (hinh q (by simp [hq])))
  have hsome := ((inhabited_ofPieces _).mp hdone).1
  obtain ⟨init, x, hx⟩ := (List.eq_nil_or_concat _).resolve_left hsome
  obtain ⟨y, z, ps, hp⟩ := pieces_of_exposed p hexp
  have hpall := pieceHolds_of_atoms .conjunct p (hinh p (by simp)) (htrue p (by simp))
  -- the last piece of the exposed part has nothing in front of it
  obtain ⟨more, w, hw⟩ := (List.eq_nil_or_concat (z :: ps)).resolve_left (by simp)
  have hwall : pieceHolds lit ρ w := hpall w (by rw [hp, hw]; simp)
  have hshape : splice (conjunctsPieces (f.pieces .conjunct) before) (p.pieces .conjunct)
      = (init ++ (x ++ y) :: more) ++ [w] := by
    rw [hx, List.concat_eq_append, hp, splice_concat, hw, List.concat_eq_append]
    simp
  rw [hsplit, hshape]
  refine piecesHold_conjuncts_of_last _ hwall fun q hq => ?_
  have hqi := hinh q (by simp [hq])
  exact ⟨((inhabited_ofPieces _).mp (inhabited_pieces .conjunct q hqi)).1,
    pieceHolds_of_atoms .conjunct q hqi (htrue q (by simp [hq]))⟩

/-- An exposed part that holds keeps the text true, whatever stands behind it. -/
theorem piecesHold_exposed_first {ρ : Assignment} {p g : Formula α} {behind : List (Formula α)}
    (hinh : p.inhabited) (hexp : p.exposed) (htrue : ∀ a ∈ atoms lit p, ρ a = true) :
    piecesHold lit ρ (conjunctionPieces (p :: g :: behind)) := by
  obtain ⟨x, y, ps, hp⟩ := pieces_of_exposed p hexp
  have hx : pieceHolds lit ρ x := pieceHolds_of_atoms .conjunct p hinh htrue x (by simp [hp])
  -- the first piece of the exposed part has nothing behind it
  obtain ⟨qs, hqs⟩ := conjunctsPieces_cons_cons x y ps (g :: behind)
  rw [conjunctionPieces, hp, hqs, piecesHold, List.any_cons, hx, Bool.true_or]

/-! ## The assignment -/

open Classical in
/-- The assignment that is `ρ` on some atoms and `b` on all others. -/
noncomputable def override (as : List Atom) (ρ : Assignment) (b : Bool) : Assignment :=
  fun a => if a ∈ as then ρ a else b

theorem override_of_mem {as : List Atom} {a : Atom} (ρ : Assignment) (b : Bool) (h : a ∈ as) :
    override as ρ b a = ρ a := if_pos h

theorem override_of_not_mem {as : List Atom} {a : Atom} (ρ : Assignment) (b : Bool) (h : a ∉ as) :
    override as ρ b a = b := if_neg h

/-- Atoms that occur once are shared by no two parts. -/
theorem atoms_disjoint {before behind : List (Formula α)}
    (h : ((before ++ behind).flatMap (atoms lit)).Nodup) :
    ∀ p ∈ before, ∀ q ∈ behind, ∀ a ∈ atoms lit p, a ∉ atoms lit q := by
  intro p hp q hq a hap haq
  rw [List.flatMap_append, List.nodup_append] at h
  exact h.2.2 a (List.mem_flatMap.mpr ⟨p, hp, hap⟩) a (List.mem_flatMap.mpr ⟨q, hq, haq⟩) rfl

/-- If no atom occurs twice, a part has no atom twice and shares none with the parts beside it. So its atoms
can be chosen without any effect on these. -/
theorem atoms_nodup_part {before behind : List (Formula α)} {p : Formula α}
    (h : ((before ++ p :: behind).flatMap (atoms lit)).Nodup) :
    (atoms lit p).Nodup ∧
      ∀ q, q ∈ before ∨ q ∈ behind → ∀ a ∈ atoms lit q, a ∉ atoms lit p := by
  have hbefore := atoms_disjoint h
  have hbehind : ((before ++ [p]) ++ behind).flatMap (atoms lit) |>.Nodup := by simpa using h
  have hother := atoms_disjoint hbehind
  rw [List.flatMap_append, List.nodup_append, List.flatMap_cons, List.nodup_append] at h
  refine ⟨h.2.1.1, ?_⟩
  rintro q (hq | hq) a haq hap
  · exact hbefore q hq p (by simp) a haq hap
  · exact hother p (by simp) q hq a hap haq

/-- A conjunction is not guarded because a part is not, or because a part of several is exposed. -/
theorem not_guarded_all {parts : List (Formula α)} (h : (Formula.all parts).guarded = false) :
    (∃ p ∈ parts, p.guarded = false) ∨ 2 ≤ parts.length ∧ ∃ p ∈ parts, p.exposed = true := by
  by_cases hparts : ∃ p ∈ parts, p.guarded = false
  · exact .inl hparts
  · have hall : guardedAll parts = true := by
      rw [guardedAll_iff]
      exact fun p hp => by simpa using fun hpg => hparts ⟨p, hp, hpg⟩
    rw [guarded, hall, Bool.true_and, Bool.or_eq_false_iff] at h
    have hlen : ¬ parts.length ≤ 1 := of_decide_eq_false h.1
    refine .inr ⟨by omega, ?_⟩
    simpa using h.2

/-- A disjunction that is not guarded has a part that is not, since parts of a disjunction stand in
parentheses. -/
theorem not_guarded_any {parts : List (Formula α)} (h : (Formula.any parts).guarded = false) :
    ∃ p ∈ parts, p.guarded = false := by
  by_contra hparts
  have hall : guardedAll parts = true := by
    rw [guardedAll_iff]
    exact fun p hp => by simpa using fun hpg => hparts ⟨p, hp, hpg⟩
  rw [guarded, hall] at h
  cases h

/-- A part that leaks makes a disjunction leak: the other parts are made false. No atom is shared, so this
changes nothing in the part itself. -/
theorem leak_any {before behind : List (Formula α)} {p : Formula α} {ρ : Assignment}
    (hinh : ∀ q ∈ before ++ p :: behind, q.inhabited)
    (hn : ((before ++ p :: behind).flatMap (atoms lit)).Nodup)
    (htext : piecesHold lit ρ (p.pieces .alone)) (hp : p.holds lit ρ = false) :
    ∃ σ, piecesHold lit σ ((Formula.any (before ++ p :: behind)).pieces .alone) = true ∧
      (Formula.any (before ++ p :: behind)).holds lit σ = false := by
  -- the assignment is that of the leak on the atoms of the part, and false on all others
  obtain ⟨_, hother⟩ := atoms_nodup_part hn
  have hsame : ∀ a ∈ atoms lit p, override (atoms lit p) ρ false a = ρ a :=
    fun a ha => override_of_mem ρ false ha
  refine ⟨override (atoms lit p) ρ false, ?_, ?_⟩
  · refine (piecesHold_disjunction lit _ _).trans (List.any_eq_true.mpr ⟨p, by simp, ?_⟩)
    rw [piecesHold_congr .alone p hsame]
    exact htext
  · rw [holds_any, List.any_eq_false]
    intro q hq
    rw [Bool.not_eq_true]
    rcases (by simpa [or_left_comm] using hq : q = p ∨ q ∈ before ∨ q ∈ behind) with rfl | hq'
    · rw [holds_congr q hsame, hp]
    · exact holds_of_atoms q (hinh q hq) fun a ha => override_of_not_mem ρ false (hother q hq' a ha)

/-- A part that leaks makes a conjunction leak: the other parts are made true, which again changes nothing
in the part itself. -/
theorem leak_all {before behind : List (Formula α)} {p : Formula α} {ρ : Assignment}
    (hinh : ∀ q ∈ before ++ p :: behind, q.inhabited)
    (hn : ((before ++ p :: behind).flatMap (atoms lit)).Nodup)
    (htext : piecesHold lit ρ (p.pieces .alone)) (hp : p.holds lit ρ = false) :
    ∃ σ, piecesHold lit σ ((Formula.all (before ++ p :: behind)).pieces .alone) = true ∧
      (Formula.all (before ++ p :: behind)).holds lit σ = false := by
  obtain ⟨_, hother⟩ := atoms_nodup_part hn
  have hsame : ∀ a ∈ atoms lit p, override (atoms lit p) ρ true a = ρ a :=
    fun a ha => override_of_mem ρ true ha
  refine ⟨override (atoms lit p) ρ true, ?_, ?_⟩
  · refine piecesHold_conjunction lit _ fun q hq => ?_
    rcases (by simpa [or_left_comm] using hq : q = p ∨ q ∈ before ∨ q ∈ behind) with rfl | hq'
    · rw [piecesHold_congr .alone q hsame]
      exact htext
    · apply piecesHold_of_holds
      exact holds_of_atoms q (hinh q hq) fun a ha => override_of_not_mem ρ true (hother q hq' a ha)
  · rw [holds_all, List.all_eq_false]
    refine ⟨p, by simp, ?_⟩
    rw [holds_congr p hsame, hp]
    simp

/-- An exposed part makes a conjunction leak: the parts on one side of it are made false. -/
theorem leak_exposed {before behind : List (Formula α)} {p : Formula α}
    (hlen : 2 ≤ (before ++ p :: behind).length) (hinh : ∀ q ∈ before ++ p :: behind, q.inhabited)
    (hn : ((before ++ p :: behind).flatMap (atoms lit)).Nodup) (hexp : p.exposed) :
    ∃ σ, piecesHold lit σ ((Formula.all (before ++ p :: behind)).pieces .alone) = true ∧
      (Formula.all (before ++ p :: behind)).holds lit σ = false := by
  cases before with
  | cons f before =>
    -- the first part is made false and everything else true
    have hother : ∀ q ∈ p :: behind, ∀ a ∈ atoms lit q, a ∉ atoms lit f := by
      intro q hq a haq haf
      exact atoms_disjoint hn f (by simp) q hq a haf haq
    refine ⟨override (atoms lit f) (fun _ => false) true, ?_, ?_⟩
    · exact piecesHold_exposed_behind hinh hexp fun q hq a ha =>
        override_of_not_mem _ _ (hother q hq a ha)
    · rw [holds_all, List.all_eq_false]
      refine ⟨f, by simp, ?_⟩
      rw [holds_of_atoms f (hinh f (by simp)) fun a ha => override_of_mem _ _ ha]
      simp
  | nil =>
    -- nothing stands before it, so the part behind it is made false
    rw [List.nil_append] at hlen hinh hn ⊢
    obtain ⟨g, behind, rfl⟩ : ∃ g rest, behind = g :: rest := by
      cases behind with
      | nil => simp at hlen
      | cons g rest => exact ⟨g, rest, rfl⟩
    have hsplit : (([p] ++ (g :: behind)).flatMap (atoms lit)).Nodup := hn
    have hother : ∀ a ∈ atoms lit p, a ∉ atoms lit g :=
      fun a ha => atoms_disjoint hsplit p (by simp) g (by simp) a ha
    refine ⟨override (atoms lit g) (fun _ => false) true, ?_, ?_⟩
    · exact piecesHold_exposed_first (hinh p (by simp)) hexp fun a ha =>
        override_of_not_mem _ _ (hother a ha)
    · rw [holds_all, List.all_eq_false]
      refine ⟨g, by simp, ?_⟩
      rw [holds_of_atoms g (hinh g (by simp)) fun a ha => override_of_mem _ _ ha]
      simp

/-- **The text of a formula that is not guarded admits more than the formula.** -/
theorem exists_leak (f : Formula α) (hf : f.inhabited) (hn : (atoms lit f).Nodup)
    (hg : f.guarded = false) :
    ∃ ρ, piecesHold lit ρ (f.pieces .alone) = true ∧ f.holds lit ρ = false := by
  induction f using partsInduction with
  | compare field op rhs => cases hg
  | any parts ih =>
    obtain ⟨p, hp, hpg⟩ := not_guarded_any hg
    rw [inhabited_any] at hf
    rw [atoms_any] at hn
    -- The faulty part leaks, and the disjunction follows it.
    obtain ⟨before, behind, rfl⟩ := List.append_of_mem hp
    obtain ⟨ρ, htext, hholds⟩ := ih p hp (hf.2 p hp) (atoms_nodup_part hn).1 hpg
    exact leak_any hf.2 hn htext hholds
  | all parts ih =>
    rw [inhabited_all] at hf
    rw [atoms_all] at hn
    -- The fault is inside a part, or it is a part of this very conjunction.
    rcases not_guarded_all hg with ⟨p, hp, hpg⟩ | ⟨hlen, p, hp, hexp⟩
    · obtain ⟨before, behind, rfl⟩ := List.append_of_mem hp
      obtain ⟨ρ, htext, hholds⟩ := ih p hp (hf.2 p hp) (atoms_nodup_part hn).1 hpg
      exact leak_all hf.2 hn htext hholds
    · obtain ⟨before, behind, rfl⟩ := List.append_of_mem hp
      exact leak_exposed hlen hf.2 hn hexp

end DocFilter.Formula
