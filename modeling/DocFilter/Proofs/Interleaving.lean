import DocFilter.Proofs.Operations
import DocFilter.Proofs.Storage

/-!
Edits of one document beside each other. A patch reads the document, writes it back with its fields,
and reads it again; between its read and its write other patches may do the same. The store has no
way to tell that a document has changed since it was read, so a patch that writes what it read too
early takes the fields of others away (`overtaken_edit_lost`). Main result
(`Service.edit_kept_unless_overtaken`): in every interleaving in which all edits succeed, an edit keeps
every field it wrote, as the field comes back from storage, unless another edit reads before its write
and writes after it.
-/

set_option autoImplicit false

namespace DocFilter

open Service (typeField)

/-! ## Races -/

/-- What a step does to the stored document. -/
inductive Move where
  | reads
  | writes
  | other
  deriving DecidableEq

/-- The move of a step. -/
def Effect.move : Effect → Move
  | .get _ => .reads
  | .replace _ _ => .writes
  | _ => .other

/-- Tasks beside each other: what each of them has still to do, the surroundings they share, and
the moves so far. -/
structure Race (n : Nat) where
  tasks : Fin n → ServiceTask (Except ServiceError (Option Row))
  world : World
  trace : List (Fin n × Move)

namespace Race

variable {n : Nat}

/-- One step of one task. A task that is done stays so. -/
def step (r : Race n) (i : Fin n) : Race n :=
  match r.tasks i with
  | .done _ => r
  | .ask op next =>
    let (a, w) := World.answer op r.world
    ⟨fun j => if j = i then next a else r.tasks j, w, r.trace ++ [(i, op.move)]⟩

/-- The steps of a schedule. -/
def run (r : Race n) (schedule : List (Fin n)) : Race n := schedule.foldl step r

/-- Another task reads before the write of a task, and writes after it. -/
def Overtaken (trace : List (Fin n × Move)) (j : Fin n) : Prop :=
  ∃ i, i ≠ j ∧ [(i, Move.reads), (j, Move.writes), (i, Move.writes)].Sublist trace

instance (trace : List (Fin n × Move)) (j : Fin n) : Decidable (Overtaken trace j) :=
  inferInstanceAs (Decidable (∃ i, i ≠ j ∧ [(i, Move.reads), (j, Move.writes), (i, Move.writes)].Sublist trace))

/-- All tasks are done and have succeeded. -/
def Succeeded (r : Race n) : Prop := ∀ i, ∃ row, r.tasks i = .done (.ok row)

instance (r : Race n) : Decidable r.Succeeded :=
  have (i : Fin n) : Decidable (∃ row, r.tasks i = .done (.ok row)) :=
    match r.tasks i with
    | .done (.ok row) => .isTrue ⟨row, rfl⟩
    | .done (.error _) => .isFalse nofun
    | .ask _ _ => .isFalse nofun
  inferInstanceAs (Decidable (∀ i, ∃ row, r.tasks i = .done (.ok row)))

/-- A task has failed. -/
def Failed (r : Race n) : Prop := ∃ i e, r.tasks i = .done (.error e)

theorem Succeeded.not_failed {r : Race n} (h : r.Succeeded) : ¬ r.Failed := by
  rintro ⟨i, e, hi⟩
  obtain ⟨row, hrow⟩ := h i
  rw [hrow] at hi
  cases hi

theorem step_done {r : Race n} {i : Fin n} {a : Except ServiceError (Option Row)}
    (h : r.tasks i = .done a) : r.step i = r := by
  unfold step
  rw [h]

/-- A step of an edit asks for what it waits for, goes on with the answer, and leaves its move in the trace.
The other edits stay where they are. -/
theorem step_ask {r : Race n} {i : Fin n} {op : Effect}
    {next : op.Answer → ServiceTask (Except ServiceError (Option Row))} (h : r.tasks i = .ask op next) :
    r.step i = ⟨fun j => if j = i then next (World.answer op r.world).1 else r.tasks j,
      (World.answer op r.world).2, r.trace ++ [(i, op.move)]⟩ := by
  unfold step
  rw [h]

theorem trace_step (r : Race n) (i : Fin n) : r.trace <+: (r.step i).trace := by
  cases h : r.tasks i with
  | done a =>
    rw [step_done h]
  | ask op next =>
    rw [step_ask h]
    exact List.prefix_append _ _

/-- A run only adds to the trace, so positions in it stay valid. -/
theorem trace_run (r : Race n) (schedule : List (Fin n)) : r.trace <+: (r.run schedule).trace := by
  induction schedule generalizing r with
  | nil => exact List.prefix_rfl
  | cons i schedule ih => exact (r.trace_step i).trans (ih (r.step i))

/-- What has failed stays failed: an edit that is done takes no more steps, and the steps of others leave it
alone. -/
theorem Failed.step {r : Race n} (h : r.Failed) (i : Fin n) : (r.step i).Failed := by
  obtain ⟨k, e, hk⟩ := h
  refine ⟨k, e, ?_⟩
  cases hi : r.tasks i with
  | done a =>
    rw [step_done hi]
    exact hk
  | ask op next =>
    have hne : k ≠ i := by
      rintro rfl
      rw [hk] at hi
      cases hi
    rw [step_ask hi]
    exact (if_neg hne).trans hk

theorem Failed.run {r : Race n} (h : r.Failed) (schedule : List (Fin n)) : (r.run schedule).Failed := by
  induction schedule generalizing r with
  | nil => exact h
  | cons i schedule ih => exact ih (h.step i)

/-- A step that ends in an error makes the race a failed one. -/
theorem failed_of_step {r : Race n} {i : Fin n} {op : Effect}
    {next : op.Answer → ServiceTask (Except ServiceError (Option Row))} (h : r.tasks i = .ask op next)
    {e : ServiceError} (hnext : next (World.answer op r.world).1 = .done (.error e)) :
    (r.step i).Failed := by
  rw [step_ask h]
  exact ⟨i, e, (if_pos rfl).trans hnext⟩

end Race

/-! ## Edits -/

/-- A patch or an update. -/
structure Edit where
  isUpdate : Bool
  data : Option Row

namespace Edit

/-- The operation of an edit. -/
def task (s : Service) (id : Text) (e : Edit) : ServiceResult (Option Row) :=
  if e.isUpdate then s.update id e.data else s.patch id e.data

/-- The fields that an edit names. -/
def row (e : Edit) : Row := e.data.getD []

/-- The fields that an edit writes: those that it names, and the type. -/
def written (s : Service) (e : Edit) : Row := e.row.set typeField (.text s.name)

/-- Both kinds of edits run the same program: an update is a patch. -/
theorem task_eq (s : Service) (id : Text) (e : Edit) : e.task s id = s.patch id e.data := by
  unfold task
  split <;> rfl

end Edit

/-- The race of some edits of one document. -/
def Service.race (s : Service) (id : Text) {n : Nat} (edits : Fin n → Edit) (w : World) : Race n :=
  ⟨fun i => ((edits i).task s id).run, w, []⟩

namespace Service

/-- The stored document of an id, if there is one that can be read. -/
def stored (s : Service) (id : Text) (w : World) : Option Row :=
  (w.store.find? (s.key id)).bind fun raw => (Row.decode raw).toOption.join

/-- A document is stored if there is a text under its key which is decoded as it. -/
theorem stored_eq_some {s : Service} {id : Text} {w : World} {doc : Row} :
    s.stored id w = some doc ↔
      ∃ raw, w.store.find? (s.key id) = some raw ∧ Row.decode raw = .ok (some doc) := by
  refine Option.bind_eq_some_iff.trans (exists_congr fun raw => and_congr_right fun _ => ?_)
  cases Row.decode raw with
  | error e => exact ⟨nofun, nofun⟩
  | ok d => exact ⟨congrArg Except.ok, Except.ok.inj⟩

/-- The row holds what an edit wrote, as it comes back from storage. -/
def Holds (s : Service) (doc : Row) (e : Edit) : Prop :=
  ∀ name v, (e.written s).get? name = some v →
    ∃ u v', v.returned = some u ∧ doc.get? name = some v' ∧ v'.storable = true ∧ v'.plain = u.plain

/-- The names of a row are distinct and valid UTF-8. This is asked of what an edit names, and not of the
document: of two names that are stored as one, the one that is valid keeps its value. -/
structure WellNamed (row : Row) : Prop where
  nodup : row.names.Nodup
  characters : ∀ name ∈ row.names, Text.isUtf8 name = true

variable {s : Service} {doc : Row} {e e' : Edit}

/-- A patched document has the fields that were written, and those of the old one under all other names. -/
theorem get?_patched (s : Service) (doc : Row) (he : e.row.names.Nodup) (name : Text) :
    (s.patched doc e.data).get? name = ((e.written s).get? name).or (doc.get? name) := by
  show ((doc.merge e.row).set typeField _).get? name = ((e.row.set typeField _).get? name).or _
  rw [Row.get?_set, Row.get?_set, Row.get?_merge he]
  split <;> rfl

/-- The fields that an edit writes are as well named as those it names. -/
theorem WellNamed.written (he : WellNamed e.row) : WellNamed (e.written s) := by
  refine ⟨Row.nodup_set he.nodup _ _, fun name hname => ?_⟩
  rcases Row.mem_names_set.1 hname with rfl | hname
  · decide
  · exact he.characters name hname

/-- **What an edit writes.** The document that an edit writes holds the fields of the edit, and all
that it held before of an edit that names other fields. -/
theorem holds_of_written (hdoc : doc.names.Nodup) (he : WellNamed e.row) {raw : Text}
    (hencode : Row.encode (some (s.patched doc e.data)) = .ok raw) {r : Option Row}
    (hdecode : Row.decode raw = .ok r) :
    ∃ doc', r = some doc' ∧ doc'.names.Nodup ∧ s.Holds doc' e ∧
      ∀ e' : Edit, WellNamed e'.row → (∀ name ∈ e'.row.names, name ∉ e.row.names) →
        s.Holds doc e' → s.Holds doc' e' := by
  have hnodup : (s.patched doc e.data).names.Nodup := Row.nodup_set (Row.nodup_merge hdoc _) _ _
  obtain ⟨doc', rfl, hstorable, hback⟩ := Row.get?_of_stored hnodup hencode hdecode
  have hholds : s.Holds doc' e := by
    intro name v hv
    have hname := he.written.characters name (List.mem_map_of_mem (Row.mem_of_get? hv))
    obtain ⟨u, hu, hdoc'⟩ := hback name v hname (by rw [get?_patched s doc he.nodup, hv]; rfl)
    exact ⟨u, u, hu, hdoc', Value.storable_of_returned hu, rfl⟩
  refine ⟨doc', rfl, (Row.storable_iff.1 hstorable).1, hholds, fun e' he' hdisjoint hheld name v hv => ?_⟩
  by_cases htype : name = typeField
  · -- every edit writes the same type
    subst htype
    refine hholds _ v ?_
    rw [Edit.written, Row.get?_set, if_pos rfl] at hv ⊢
    exact hv
  · obtain ⟨u, v', hu, hv', hstored, hplain⟩ := hheld name v hv
    have hname := he'.written.characters name (List.mem_map_of_mem (Row.mem_of_get? hv))
    have hnot : (e.written s).get? name = none := by
      rw [Edit.written, Row.get?_set, if_neg htype] at hv ⊢
      exact Row.get?_eq_none_iff.2 (hdisjoint name (List.mem_map_of_mem (Row.mem_of_get? hv)))
    obtain ⟨u', hu', hdoc'⟩ := hback name v' hname (by rw [get?_patched s doc he.nodup, hnot]; exact hv')
    -- what came back once comes back as itself
    exact ⟨u, u', hu, hdoc', Value.storable_of_returned hu', (Value.plain_of_returned hstored hu').trans hplain⟩

/-! ## How far an edit has come -/

/-- How far an edit has come: it has not begun, it holds a document that it has read and what it will
write, it has written, or it has ended well. -/
inductive Phase where
  | waiting
  | holding (doc : Row) (out : Text)
  | written
  | ended

/-- Whether an edit has written. -/
def Phase.wrote : Phase → Bool
  | .written | .ended => true
  | _ => false

/-- The program of an edit at a phase. -/
def Phase.Fits (s : Service) (id : Text) (e : Edit) :
    Phase → ServiceTask (Except ServiceError (Option Row)) → Prop
  | .waiting, p => p = (s.patch id e.data).run
  | .holding doc out, p =>
    Row.encode (some (s.patched doc e.data)) = .ok out ∧ p = s.writePatched id e.data out
  | .written, p => p = (.ask (.log (s.patchedEntry id e.data)) fun _ => s.finish id) ∨ p = s.finish id
  | .ended, p => ∃ row, p = .done (.ok row)

variable {n : Nat} {id : Text} {edits : Fin n → Edit} {kept : Fin n → Prop} {r : Race n}
  {phase : Fin n → Phase}

/-- The state of a race in which nothing has failed. Of the edits that are to be kept, the stored
document holds all that have written, and so does every document in hand, but for those that wrote
after it was read. -/
structure Sound (s : Service) (id : Text) (edits : Fin n → Edit) (kept : Fin n → Prop) (r : Race n)
    (phase : Fin n → Phase) : Prop where
  fits : ∀ i, (phase i).Fits s id (edits i) (r.tasks i)
  stored : ∃ raw, r.world.store.find? (s.key id) = some raw ∧
    (∀ d, Row.decode raw = .ok d → ∃ doc, d = some doc ∧ doc.names.Nodup ∧
      ∀ j, kept j → (phase j).wrote = true → s.Holds doc (edits j)) ∧
    ((∃ doc, Row.decode raw = .ok (some doc)) ∨ ∃ i, phase i = .written)
  held : ∀ i doc out, phase i = .holding doc out → (i, Move.reads) ∈ r.trace ∧ doc.names.Nodup ∧
    ∀ j, kept j → (phase j).wrote = true →
      s.Holds doc (edits j) ∨ [(i, Move.reads), (j, Move.writes)].Sublist r.trace

/-- The phases after one edit has gone on. -/
def advance (phase : Fin n → Phase) (i : Fin n) (p : Phase) : Fin n → Phase :=
  fun j => if j = i then p else phase j

theorem advance_self (phase : Fin n → Phase) (i : Fin n) (p : Phase) : advance phase i p i = p :=
  if_pos rfl

theorem advance_of_ne {i j : Fin n} (h : j ≠ i) (p : Phase) : advance phase i p j = phase j := if_neg h

namespace Sound

/-- The programs after one edit has gone on: its own program fits its new phase, and those of the others are
where they were. -/
theorem fits_advance (h : Sound s id edits kept r phase) {i : Fin n} {p : Phase}
    {task : ServiceTask (Except ServiceError (Option Row))} (hp : p.Fits s id (edits i) task) (j : Fin n) :
    (advance phase i p j).Fits s id (edits j) (if j = i then task else r.tasks j) := by
  by_cases hj : j = i
  · subst hj
    rw [advance_self, if_pos rfl]
    exact hp
  · rw [advance_of_ne hj, if_neg hj]
    exact h.fits j

/-- A step that writes nothing. If the edit now holds a document, it has read the stored one. -/
theorem still (h : Sound s id edits kept r phase) {i : Fin n} {p : Phase} {r' : Race n}
    (hfits : ∀ j, (advance phase i p j).Fits s id (edits j) (r'.tasks j))
    (hstore : r'.world.store = r.world.store) (htrace : r.trace <+: r'.trace)
    (hwrote : p.wrote = (phase i).wrote)
    (hheld : ∀ doc out, p = .holding doc out →
      (i, Move.reads) ∈ r'.trace ∧ s.stored id r.world = some doc)
    (hopen : p = .written ∨ ∃ doc, s.stored id r.world = some doc) :
    Sound s id edits kept r' (advance phase i p) := by
  -- as nobody writes, the same edits are to be held as before
  have hwrote' : ∀ j, (advance phase i p j).wrote = (phase j).wrote := by
    intro j
    by_cases hj : j = i
    · subst hj
      rw [advance_self, hwrote]
    · rw [advance_of_ne hj]
  obtain ⟨raw, hraw, hdoc, -⟩ := h.stored
  have hread : ∀ {doc}, s.stored id r.world = some doc → Row.decode raw = .ok (some doc) := by
    intro doc hstored
    obtain ⟨raw', hraw', hdecode⟩ := stored_eq_some.1 hstored
    obtain rfl := Option.some.inj (hraw.symm.trans hraw')
    exact hdecode
  refine ⟨hfits, ⟨raw, by rw [hstore]; exact hraw, fun d hd => ?_, ?_⟩, fun k doc out hk => ?_⟩
  · obtain ⟨doc, hsome, hnamed, hall⟩ := hdoc d hd
    exact ⟨doc, hsome, hnamed, fun j hj hw => hall j hj (hwrote' j ▸ hw)⟩
  · rcases hopen with rfl | ⟨doc, hstored⟩
    · exact .inr ⟨i, advance_self _ _ _⟩
    · exact .inl ⟨doc, hread hstored⟩
  · by_cases hki : k = i
    · subst hki
      rw [advance_self] at hk
      obtain ⟨hmem, hstored⟩ := hheld doc out hk
      obtain ⟨doc', hsome, hnamed, hall⟩ := hdoc _ (hread hstored)
      obtain rfl := Option.some.inj hsome
      exact ⟨hmem, hnamed, fun j hj hw => .inl (hall j hj (hwrote' j ▸ hw))⟩
    · rw [advance_of_ne hki] at hk
      obtain ⟨hmem, hnamed, hall⟩ := h.held k doc out hk
      refine ⟨htrace.subset hmem, hnamed, fun j hj hw => ?_⟩
      exact (hall j hj (hwrote' j ▸ hw)).imp_right fun hsub => hsub.trans htrace.sublist

/-- An edit writes what it holds. No edit that is to be kept has written since it read, or it would
overtake that edit now. -/
theorem write (h : Sound s id edits kept r phase) (hedits : ∀ i, WellNamed (edits i).row)
    (hdisjoint : ∀ i j, i ≠ j → ∀ name ∈ (edits i).row.names, name ∉ (edits j).row.names)
    {i : Fin n} {doc : Row} {out : Text} (hi : phase i = .holding doc out) {r' : Race n}
    (htasks : ∀ j, r'.tasks j = if j = i then .ask (.log (s.patchedEntry id (edits i).data)) fun _ => s.finish id
      else r.tasks j)
    (hstore : r'.world.store = r.world.store.put (s.key id) out)
    (htrace : r'.trace = r.trace ++ [(i, .writes)])
    (hkept : ∀ j, kept j → ¬ Race.Overtaken r'.trace j) :
    Sound s id edits kept r' (advance phase i .written) := by
  have hgrows : r.trace <+: r'.trace := htrace ▸ List.prefix_append _ _
  have hfit := h.fits i
  rw [hi] at hfit
  obtain ⟨hread, hnamed, hall⟩ := h.held i doc out hi
  -- what is held has all that is to be kept
  have hheld : ∀ j, kept j → j ≠ i → (phase j).wrote = true → s.Holds doc (edits j) := by
    intro j hj hne hw
    refine (hall j hj hw).resolve_right fun hsub => hkept j hj ⟨i, hne.symm, ?_⟩
    rw [htrace]
    exact hsub.append (List.Sublist.refl [(i, Move.writes)])
  refine ⟨fun j => ?_, ⟨out, ?_, fun d hd => ?_, .inr ⟨i, advance_self _ _ _⟩⟩, fun k doc' out' hk => ?_⟩
  · rw [htasks]
    exact h.fits_advance (p := .written) (.inl rfl) j
  · rw [hstore, Store.find?_put, if_pos rfl]
  · obtain ⟨doc', hsome, hnamed', hown, hothers⟩ := holds_of_written hnamed (hedits i) hfit.1 hd
    refine ⟨doc', hsome, hnamed', fun j hj hw => ?_⟩
    by_cases hji : j = i
    · exact hji ▸ hown
    · rw [advance_of_ne hji] at hw
      exact hothers (edits j) (hedits j) (hdisjoint j i hji) (hheld j hj hji hw)
  · have hki : k ≠ i := by
      rintro rfl
      rw [advance_self] at hk
      cases hk
    rw [advance_of_ne hki] at hk
    obtain ⟨hread', hnamed', hall'⟩ := h.held k doc' out' hk
    refine ⟨hgrows.subset hread', hnamed', fun j hj hw => ?_⟩
    by_cases hji : j = i
    · -- what the others hold was read before this write
      subst hji
      rw [htrace]
      exact .inr ((List.singleton_sublist.2 hread').append (List.Sublist.refl [(j, Move.writes)]))
    · rw [advance_of_ne hji] at hw
      exact (hall' j hj hw).imp_right fun hsub => hsub.trans hgrows.sublist

/-- An edit reads the stored document, or it fails: with a fault in the store, or with a text that makes no
document. In a sound race a text that makes one makes a row. -/
theorem read (h : Sound s id edits kept r phase) {i : Fin n}
    (next : Except ServiceError (Option Row) → ServiceTask (Except ServiceError (Option Row)))
    (htask : r.tasks i = .ask (.get (s.key id)) fun answer => next (reading answer))
    (hnext : ∀ e, next (.error e) = .done (.error e)) :
    (r.step i).Failed ∨ ∃ doc, s.stored id r.world = some doc ∧
      r.step i = ⟨fun j => if j = i then next (.ok (some doc)) else r.tasks j, r.world,
        r.trace ++ [(i, .reads)]⟩ := by
  obtain ⟨raw, hraw, hdoc, -⟩ := h.stored
  cases hfault : r.world.fault .get with
  | some x =>
    refine .inl (Race.failed_of_step htask (e := .ofBackend x) ?_)
    simp only [World.answer, hfault]
    exact hnext _
  | none =>
    have hanswer : World.answer (.get (s.key id)) r.world = (.ok raw, r.world) := by
      simp only [World.answer, hfault, Store.get_eq, hraw]
    cases hdecode : Row.decode raw with
    | error x =>
      refine .inl (Race.failed_of_step htask (e := .unreadable x) ?_)
      simp only [hanswer, reading, hdecode]
      exact hnext _
    | ok d =>
      obtain ⟨doc, rfl, -⟩ := hdoc d hdecode
      refine .inr ⟨doc, stored_eq_some.2 ⟨raw, hraw, hdecode⟩, ?_⟩
      rw [Race.step_ask htask, hanswer, reading_ok hdecode]
      rfl

end Sound

/-! ## One step, and all steps -/

/-- **One step.** A step of any edit keeps the state sound, or the edit fails. -/
theorem Sound.step (h : Sound s id edits kept r phase) (hedits : ∀ i, WellNamed (edits i).row)
    (hdisjoint : ∀ i j, i ≠ j → ∀ name ∈ (edits i).row.names, name ∉ (edits j).row.names)
    (i : Fin n) (hkept : ∀ j, kept j → ¬ Race.Overtaken (r.step i).trace j) :
    (r.step i).Failed ∨ ∃ phase', Sound s id edits kept (r.step i) phase' := by
  have hfit := h.fits i
  have hgrows := r.trace_step i
  cases hi : phase i with
  | waiting =>
    rw [hi] at hfit
    -- what will be written is settled by what is read, so both happen in this step
    have htask := hfit.trans (s.patch_run id (edits i).data)
    rcases h.read _ htask fun _ => rfl with hfailed | ⟨doc, hdoc, hstep⟩
    · exact .inl hfailed
    cases hencode : Row.encode (some (s.patched doc (edits i).data)) with
    | error x =>
      refine .inl ⟨i, .badRequest (.encode x), ?_⟩
      rw [hstep]
      simp only [if_pos, writeBack, hencode]
    | ok out =>
      have hback : s.writeBack id (edits i).data (.ok (some doc)) = s.writePatched id (edits i).data out := by
        simp only [writeBack, hencode]
      refine .inr ⟨_, h.still (p := .holding doc out) ?_ ?_ hgrows (by rw [hi]; rfl) ?_ (.inr ⟨doc, hdoc⟩)⟩
      all_goals rw [hstep]
      · exact h.fits_advance ⟨hencode, hback⟩
      · rintro _ _ ⟨⟩
        exact ⟨by simp, hdoc⟩
  | holding doc out =>
    rw [hi] at hfit
    -- the document is there, so only a fault can stop the write
    have htask := hfit.2
    cases hfault : r.world.fault .replace with
    | some x =>
      refine .inl (Race.failed_of_step htask (e := .ofBackend x) ?_)
      simp only [World.answer, World.change, hfault]
    | none =>
      obtain ⟨raw, hraw, -⟩ := h.stored
      have hanswer : World.answer (.replace (s.key id) out) r.world
          = (.ok (), { r.world with store := r.world.store.put (s.key id) out }) := by
        simp only [World.answer, World.change, hfault, Store.replace, hraw]
        rfl
      refine .inr ⟨_, h.write hedits hdisjoint hi ?_ ?_ ?_ hkept⟩
      all_goals rw [Race.step_ask htask, hanswer]
      · exact fun _ => rfl
      · rfl
  | written =>
    rw [hi] at hfit
    -- the log comes first, then the second read
    rcases hfit with htask | htask
    · refine .inr ⟨_, h.still (i := i) (p := .written) ?_ ?_ hgrows (by rw [hi]) nofun (.inl rfl)⟩
      all_goals rw [Race.step_ask htask]
      · exact h.fits_advance (.inr rfl)
      · rfl
    · rcases h.read .done htask fun _ => rfl with hfailed | ⟨doc, hdoc, hstep⟩
      · exact .inl hfailed
      refine .inr ⟨_, h.still (i := i) (p := .ended) ?_ ?_ hgrows (by rw [hi]; rfl) nofun (.inr ⟨doc, hdoc⟩)⟩
      all_goals rw [hstep]
      exact h.fits_advance ⟨some doc, rfl⟩
  | ended =>
    rw [hi] at hfit
    obtain ⟨row, htask⟩ := hfit
    rw [Race.step_done htask]
    exact .inr ⟨phase, h⟩

/-- **All steps.** A sound race stays sound along a schedule, unless an edit fails. The induction is on the
schedule; that an edit is not overtaken in the end is known of every moment before, as the trace only grows.
-/
theorem Sound.run (h : Sound s id edits kept r phase) (hedits : ∀ i, WellNamed (edits i).row)
    (hdisjoint : ∀ i j, i ≠ j → ∀ name ∈ (edits i).row.names, name ∉ (edits j).row.names)
    (schedule : List (Fin n)) (hkept : ∀ j, kept j → ¬ Race.Overtaken (r.run schedule).trace j) :
    (r.run schedule).Failed ∨ ∃ phase', Sound s id edits kept (r.run schedule) phase' := by
  induction schedule generalizing r phase with
  | nil => exact .inr ⟨phase, h⟩
  | cons i schedule ih =>
    -- what has been overtaken stays so, as traces only grow
    have hstep : ∀ j, kept j → ¬ Race.Overtaken (r.step i).trace j := by
      rintro j hj ⟨k, hne, hsub⟩
      exact hkept j hj ⟨k, hne, hsub.trans ((r.step i).trace_run schedule).sublist⟩
    rcases h.step hedits hdisjoint i hstep with hfailed | ⟨phase', hsound⟩
    · exact .inl (hfailed.run schedule)
    · exact ih hsound hkept

/-- Before the first step. -/
theorem sound_race (s : Service) (id : Text) (edits : Fin n → Edit) (kept : Fin n → Prop) (w : World)
    (hstored : s.stored id w = some doc) :
    Sound s id edits kept (s.race id edits w) fun _ => .waiting := by
  obtain ⟨raw, hraw, hdecode⟩ := stored_eq_some.1 hstored
  refine ⟨fun i => congrArg ExceptT.run ((edits i).task_eq s id),
    ⟨raw, hraw, fun d hd => ?_, .inl ⟨doc, hdecode⟩⟩, fun _ _ _ h => nomatch h⟩
  obtain rfl := Except.ok.inj (hdecode.symm.trans hd)
  exact ⟨doc, rfl, Row.nodup_of_decode hdecode, fun _ _ h => nomatch h⟩

/-- When all edits have succeeded, the stored document holds those that were to be kept. An edit that has
succeeded is in its last phase, so its fields were written. -/
theorem Sound.holds_of_succeeded (h : Sound s id edits kept r phase) (hdone : r.Succeeded) :
    ∃ doc, s.stored id r.world = some doc ∧ ∀ j, kept j → s.Holds doc (edits j) := by
  -- in every other phase the task of an edit still asks for something
  have hended : ∀ i, phase i = .ended := by
    intro i
    obtain ⟨row, hrow⟩ := hdone i
    have hfit := h.fits i
    rw [hrow] at hfit
    cases hi : phase i with
    | waiting =>
      rw [hi] at hfit
      exact nomatch hfit.trans (s.patch_run id (edits i).data)
    | holding doc out =>
      rw [hi] at hfit
      exact nomatch hfit.2
    | written =>
      rw [hi] at hfit
      rcases hfit with hfit | hfit <;> exact nomatch hfit
    | ended => rfl
  obtain ⟨raw, hraw, hdoc, hopen⟩ := h.stored
  rcases hopen with ⟨doc, hdecode⟩ | ⟨i, hi⟩
  · obtain ⟨doc', hsome, -, hall⟩ := hdoc _ hdecode
    obtain rfl := Option.some.inj hsome
    exact ⟨doc, stored_eq_some.2 ⟨raw, hraw, hdecode⟩, fun j hj => hall j hj (by rw [hended j]; rfl)⟩
  -- the document may be unreadable only while an edit has yet to read it back
  · rw [hended i] at hi
    cases hi

/-- **No edit is lost but the overtaken.** Any number of patches and updates of one stored document
name disjoint sets of fields, all valid UTF-8, and take their steps in any order. Once all have succeeded,
the stored document holds every field that an edit wrote, with its value as it comes back from storage,
unless another edit read the document before that edit wrote it and wrote it afterwards. -/
theorem edit_kept_unless_overtaken (s : Service) (id : Text) {n : Nat} (edits : Fin n → Edit) (w : World)
    {doc₀ : Row} (hstored : s.stored id w = some doc₀) (hedits : ∀ i, WellNamed (edits i).row)
    (hdisjoint : ∀ i j, i ≠ j → ∀ name ∈ (edits i).row.names, name ∉ (edits j).row.names)
    (schedule : List (Fin n)) (hdone : ((s.race id edits w).run schedule).Succeeded) :
    ∃ doc, s.stored id ((s.race id edits w).run schedule).world = some doc ∧
      ∀ j, ¬ Race.Overtaken ((s.race id edits w).run schedule).trace j →
        ∀ name v, ((edits j).written s).get? name = some v →
          ∃ u, v.returned = some u ∧ (doc.get? name).map Value.plain = some u.plain := by
  -- which edits are to be kept is settled by the whole trace, before the first step
  have hstart := sound_race s id edits
    (fun j => ¬ Race.Overtaken ((s.race id edits w).run schedule).trace j) w hstored
  rcases hstart.run hedits hdisjoint schedule fun _ hj => hj with hfailed | ⟨phase, hsound⟩
  · exact absurd hfailed hdone.not_failed
  · obtain ⟨doc, hdoc, hall⟩ := hsound.holds_of_succeeded hdone
    refine ⟨doc, hdoc, fun j hj name v hv => ?_⟩
    obtain ⟨u, v', hu, hv', -, hplain⟩ := hall j hj name v hv
    exact ⟨u, hu, by rw [hv', Option.map_some, hplain]⟩

/-- A service of accounts. -/
def accounts : Service := ⟨"b", "user", "uuid", "::", {}⟩

/-- Surroundings that store one account. -/
def storing (raw : Text) : World :=
  { store := [(accounts.key "a", raw)], database := ⟨[], []⟩, random := [] }

/-- A patch of one field, an update of another and a patch of a third. The first two read before
either writes, and the third reads when both have written. -/
def threeEdits : Race 3 :=
  (accounts.race "a" edits (storing "\x7b\"old\":null\x7d")).run [0, 1, 0, 1, 2, 2, 0, 0, 1, 1, 2, 2]
where
  edits : Fin 3 → Edit
    | 0 => ⟨false, some [("age", .int .int 7)]⟩
    | 1 => ⟨true, some [("mail", .text "m")]⟩
    | 2 => ⟨false, some [("tags", .list .texts [.text "x"])]⟩

/-- The second edit overtakes the first one; the second and the third are kept, as nothing is written
between their read and their write that they have not read. -/
theorem accounts_keep_edits :
    threeEdits.Succeeded ∧ Race.Overtaken threeEdits.trace 0 ∧
      ∃ doc, accounts.stored "a" threeEdits.world = some doc ∧
        (doc.get? "mail").map Value.plain = some (.text "m") ∧
        (doc.get? "tags").map Value.plain = some (.list .any [.text "x"]) := by
  have htrace : threeEdits.trace
      = [(0, .reads), (1, .reads), (0, .writes), (1, .writes), (2, .reads), (2, .writes),
        (0, .other), (0, .reads), (1, .other), (1, .reads), (2, .other), (2, .reads)] := rfl
  have hdone : threeEdits.Succeeded := by decide +kernel
  have hstored : accounts.stored "a" (storing "\x7b\"old\":null\x7d") = some ([("old", .null)] : Row) := rfl
  have hnamed : ∀ i, WellNamed (threeEdits.edits i).row :=
    fun i => ⟨by revert i; decide, by revert i; decide⟩
  obtain ⟨doc, hdoc, hkept⟩ := edit_kept_unless_overtaken accounts "a" threeEdits.edits
    (storing "\x7b\"old\":null\x7d") hstored hnamed (by decide) [0, 1, 0, 1, 2, 2, 0, 0, 1, 1, 2, 2] hdone
  have hnot : ∀ j, j ≠ 0 → ¬ Race.Overtaken threeEdits.trace j := by
    rw [htrace]
    decide
  obtain ⟨u, hu, hmail⟩ := hkept 1 (hnot 1 (by decide)) "mail" (.text "m") rfl
  -- a list of declared texts comes back as a list of any values
  obtain ⟨u', hu', htags⟩ := hkept 2 (hnot 2 (by decide)) "tags" (.list .texts [.text "x"]) rfl
  cases hu
  cases hu'
  exact ⟨hdone, by rw [htrace]; decide, doc, hdoc, hmail, htags⟩

/-- Two patches. -/
def twoEdits (row row' : Row) : Fin 2 → Edit
  | 0 => ⟨false, some row⟩
  | 1 => ⟨false, some row'⟩

/-- Both read before either writes. -/
def overlapping : Race 2 :=
  (accounts.race "a" (twoEdits [("a", .bool true)] [("b", .bool false)]) (storing "\x7b\x7d")).run
    [0, 1, 0, 0, 0, 1, 1, 1]

/-- The one after the other, with names that are not valid UTF-8. -/
def strayFields : Race 2 :=
  (accounts.race "a" (twoEdits [([0xFF], .bool true)] [([0xFE], .bool false)]) (storing "\x7b\x7d")).run
    [0, 0, 0, 0, 1, 1, 1, 1]

/-- The one after the other, and the first one writes an integer that is not a number of 64 bits. -/
def wideField : Race 2 :=
  (accounts.race "a" (twoEdits [("n", .int .int64 9007199254740993)] [("b", .bool false)])
    (storing "\x7b\x7d")).run [0, 0, 0, 0, 1, 1, 1, 1]

/-- **Lost edits.** Edits that name different fields succeed, and something that one of them wrote is not
in the stored document: the edit was overtaken, its field is stored under the name that another edit's
field has, or its integer is stored as the nearest number of 64 bits. -/
theorem overtaken_edit_lost :
    (overlapping.Succeeded ∧ (accounts.stored "a" overlapping.world).map (Row.get? · "a") = some none) ∧
    (strayFields.Succeeded ∧ accounts.stored "a" strayFields.world
      = some ([([0xEF, 0xBF, 0xBD], .bool true), ("_type", .text "user")] : Row)) ∧
    (wideField.Succeeded ∧ (accounts.stored "a" wideField.world).map (fun doc => (doc.get? "n").map idText)
      = some (some ("9007199254740992" : Text))) := by
  refine ⟨⟨by decide +kernel, rfl⟩, ⟨by decide +kernel, rfl⟩, by decide +kernel, by decide +kernel⟩

end Service
end DocFilter
