import DocFilter.Proofs.DocumentMap
import DocFilter.Proofs.Readability

/-!
Requests that fail. Creating and patching write a document first and then read it again, and the
reading can fail where the writing did not. Main result (`Service.changed_fails_iff`): a request that has
changed the store fails if its data holds an unreadable value, or if the store refuses to be read, and
for no other reason.

A document with an unreadable value stays behind, and no request gets it out of the way: getting,
patching, updating and removing all begin with a reading that fails (`Service.Stuck`).
-/

set_option autoImplicit false

namespace DocFilter

open Service (typeField)

/-! ## Requests and their data -/

namespace Request

/-- The answer to a request, and the surroundings after it. -/
def outcome (s : Service) (w : World) (r : Request) : Except ServiceError (Option Row) × World :=
  Program.run World.answer (r.task s).run w

/-- What a request brings. -/
def data : Request → Row
  | .create row | .patch _ row | .update _ row => row.getD []
  | .get _ | .remove _ => []

/-- The document that a request is about, if it is there already. -/
def target? : Request → Option Text
  | .create _ => none
  | .get id | .patch id _ | .update id _ | .remove id => some id

/-- The data of a request can exist: its names are distinct, its integers are words and its
floating-point numbers are numbers of their formats. -/
def WellFormed (r : Request) : Prop := r.data.names.Nodup ∧ ∀ e ∈ r.data, e.2.proper = true

/-- A request brings an unreadable value, under a name other than that of the type, which is set
anyway. -/
def BringsUnreadable (r : Request) : Prop :=
  ∃ name v, name ≠ typeField ∧ r.data.get? name = some v ∧ v.unreadable = true

end Request

namespace Row

/-- A row holds an unreadable value. -/
def HasUnreadable (row : Row) : Prop := ∃ name v, row.get? name = some v ∧ v.unreadable = true

/-- A row holds an unreadable value exactly if not all its values are readable. With distinct names, looking
under names and looking at entries is the same. -/
theorem hasUnreadable_iff {row : Row} (hnodup : row.names.Nodup) :
    row.HasUnreadable ↔ ¬ ∀ e ∈ row, e.2.unreadable = false := by
  unfold HasUnreadable
  simp only [get?_eq_some_iff hnodup]
  constructor
  · rintro ⟨name, v, hmem, hbad⟩ hall
    rw [hall _ hmem] at hbad
    cases hbad
  · intro h
    by_contra hnone
    refine h fun e he => ?_
    by_contra hbad
    exact hnone ⟨e.1, e.2, he, by simpa using hbad⟩

/-- A text put into a row covers what was under its name. -/
theorem hasUnreadable_set_text {row : Row} {key t : Text} :
    (row.set key (.text t)).HasUnreadable ↔
      ∃ name v, name ≠ key ∧ row.get? name = some v ∧ v.unreadable = true := by
  unfold HasUnreadable
  constructor
  · rintro ⟨name, v, hget, hbad⟩
    rw [get?_set] at hget
    split at hget
    · obtain rfl := Option.some.inj hget
      cases hbad
    · next hne => exact ⟨name, v, hne, hget, hbad⟩
  · rintro ⟨name, v, hne, hget, hbad⟩
    exact ⟨name, v, by rw [get?_set, if_neg hne, hget], hbad⟩

theorem proper_set_text {row : Row} (h : ∀ e ∈ row, e.2.proper = true) (key t : Text) :
    ∀ e ∈ row.set key (.text t), e.2.proper = true := by
  intro e he
  rcases mem_set he with rfl | he
  · rfl
  · exact h e he

/-- An unreadable value of a patched document comes with the patch if the document was settled. The type is
set over the patch, so what the patch has under its name does not matter. -/
theorem hasUnreadable_patched {doc data : Row} (hdata : data.names.Nodup) (hdoc : ∀ e ∈ doc, e.2.Settled)
    (t : Text) :
    ((doc.merge data).set typeField (.text t)).HasUnreadable ↔
      ∃ name v, name ≠ typeField ∧ data.get? name = some v ∧ v.unreadable = true := by
  rw [hasUnreadable_set_text]
  refine exists_congr fun name => exists_congr fun v => and_congr_right fun _ => ?_
  rw [get?_merge hdata]
  constructor
  · rintro ⟨hget, hbad⟩
    rcases Option.or_eq_some_iff.1 hget with hget | ⟨-, hget⟩
    · exact ⟨hget, hbad⟩
    · rw [(hdoc _ (mem_of_get? hget)).2] at hbad
      cases hbad
  · rintro ⟨hget, hbad⟩
    exact ⟨by rw [hget, Option.some_or], hbad⟩

end Row

/-! ## Answers of the surroundings -/

namespace World

/-- A change of the store that either fails and changes nothing or leads to a known store. -/
theorem change_cases {w : World} {op : StoreOperation} {f : Store → Except BackendError Unit × Store}
    {store : Store} (hf : (∃ e, f w.store = (.error e, w.store)) ∨ f w.store = (.ok (), store)) :
    (∃ e, w.change op f = (.error e, w)) ∨ w.change op f = (.ok (), { w with store }) := by
  unfold change
  cases w.fault op with
  | some e => exact .inl ⟨e, rfl⟩
  | none =>
    rcases hf with ⟨e, he⟩ | hok
    · exact .inl ⟨e, by rw [he]⟩
    · exact .inr (by rw [hok])

/-- An insertion is refused and changes nothing, or puts the document under its key. Why it is refused, by
the store or by a fault, does not matter here. -/
theorem insert_cases (w : World) (key raw : Text) :
    (∃ e, answer (.insert key raw) w = (.error e, w)) ∨
      answer (.insert key raw) w = (.ok (), { w with store := w.store.put key raw }) := by
  apply change_cases (f := fun store => store.insert key raw)
  unfold Store.insert
  cases w.store.find? key with
  | some old => exact .inl ⟨_, rfl⟩
  | none => exact .inr rfl

/-- A replacement is refused and changes nothing, or puts the document under its key. -/
theorem replace_cases (w : World) (key raw : Text) :
    (∃ e, answer (.replace key raw) w = (.error e, w)) ∨
      answer (.replace key raw) w = (.ok (), { w with store := w.store.put key raw }) := by
  apply change_cases (f := fun store => store.replace key raw)
  unfold Store.replace
  cases w.store.find? key with
  | some old => exact .inr rfl
  | none => exact .inl ⟨_, rfl⟩

/-- A removal is refused and changes nothing, or erases the key. -/
theorem remove_cases (w : World) (key : Text) :
    (∃ e, answer (.remove key) w = (.error e, w)) ∨
      answer (.remove key) w = (.ok (), { w with store := w.store.erase key }) := by
  apply change_cases (f := fun store => store.remove key)
  unfold Store.remove
  cases w.store.find? key with
  | some old => exact .inr rfl
  | none => exact .inl ⟨_, rfl⟩

end World

namespace Service

variable {s : Service} {w : World} {id : Text}

/-! ## Readings -/

/-- What reading a document gives in some surroundings. -/
def current (s : Service) (w : World) (id : Text) : Except ServiceError (Option Row) :=
  reading (World.answer (.get (s.key id)) w).1

/-- With a fault in reading, every document is out of reach, and the error is that of the fault. -/
theorem current_of_fault {x : BackendError} (h : w.fault .get = some x) :
    s.current w id = .error (.ofBackend x) := by
  unfold current World.answer
  simp only [h]
  rfl

/-- Without one, a document that is found is what its text is decoded as. -/
theorem current_of_found {raw : Text} (hcalm : w.fault .get = none)
    (hfound : w.store.find? (s.key id) = some raw) :
    s.current w id = (Row.decode raw).mapError .unreadable := by
  unfold current World.answer
  simp only [hcalm, Store.get_eq, hfound]
  rfl

/-- Reading a text that was found fails exactly if the text makes no row or the store is out of order. These
are the only two reasons for a document to be out of reach. -/
theorem current_fails_iff {raw : Text} (hfound : w.store.find? (s.key id) = some raw) :
    (∃ e, s.current w id = .error e) ↔ (¬ ∃ r, Row.decode raw = .ok r) ∨ w.fault .get ≠ none := by
  cases hfault : w.fault .get with
  | some x => exact ⟨fun _ => .inr nofun, fun _ => ⟨_, current_of_fault hfault⟩⟩
  | none =>
    rw [current_of_found hfault hfound]
    cases Row.decode raw with
    | error e => exact ⟨fun _ => .inl (by rintro ⟨r, ⟨⟩⟩), fun _ => ⟨_, rfl⟩⟩
    | ok r =>
      constructor
      · rintro ⟨e, ⟨⟩⟩
      · rintro (h | h)
        · exact absurd ⟨r, rfl⟩ h
        · exact absurd rfl h

/-- A document that is read was stored under a text that is decoded as it, and no fault stood in the way of
reading it. -/
theorem found_of_current {doc : Option Row} (h : s.current w id = .ok doc) :
    w.fault .get = none ∧ ∃ raw, Row.decode raw = .ok doc := by
  cases hfault : w.fault .get with
  | some x =>
    rw [current_of_fault hfault] at h
    cases h
  | none =>
    cases hfind : w.store.find? (s.key id) with
    | some raw =>
      rw [current_of_found hfault hfind] at h
      exact ⟨rfl, raw, mapError_eq_ok.1 h⟩
    | none =>
      unfold current World.answer at h
      simp only [hfault, Store.get_eq, hfind] at h
      cases h

/-- A program that begins with reading a document goes on with what it is at that moment. Reading changes
nothing in the world. -/
theorem run_reading (id : Text)
    (next : Except ServiceError (Option Row) → ServiceTask (Except ServiceError (Option Row))) :
    Program.run World.answer (.ask (.get (s.key id)) fun answer => next (reading answer)) w
      = Program.run World.answer (next (s.current w id)) w := by
  have hsame : (World.answer (.get (s.key id)) w).2 = w := by
    unfold World.answer
    dsimp only
    split <;> rfl
  show Program.run World.answer (next (s.current w id)) (World.answer (.get (s.key id)) w).2 = _
  rw [hsame]

/-- The end of every operation reads the document as it is at that moment. -/
theorem run_current (s : Service) (w : World) (id : Text) :
    Program.run World.answer (s.finish id) w = (s.current w id, w) :=
  run_reading id .done

/-! ## Documents out of reach -/

/-- A document out of reach: in all surroundings with this store, every run of requests for it fails
at each request and leaves the store as it is. -/
def Stuck (s : Service) (store : Store) (id : Text) : Prop :=
  ∀ w : World, w.store = store → ∀ rs : List Request, (∀ r ∈ rs, r.target? = some id) →
    (∀ a ∈ (s.serve rs w).1, ∃ e, a = .error e) ∧ (s.serve rs w).2.store = store

/-- Whatever is asked of a document begins with reading it. So if this fails, the request fails with the
same error, and nothing has been changed. -/
theorem outcome_of_current {e : ServiceError} (h : s.current w id = .error e) {r : Request}
    (hr : r.target? = some id) : r.outcome s w = (.error e, w) := by
  -- updating is patching, so the two share this
  have hpatch : ∀ data, Program.run World.answer (s.patch id data).run w = (.error e, w) := by
    intro data
    rw [patch_run, run_reading id (s.writeBack id data), h]
    rfl
  unfold Request.outcome Request.task
  cases r with
  | create data => cases hr
  | get id' =>
    obtain rfl := Option.some.inj hr
    dsimp only
    rw [get_run, run_current, h]
  | patch id' data =>
    obtain rfl := Option.some.inj hr
    exact hpatch data
  | update id' data =>
    obtain rfl := Option.some.inj hr
    exact hpatch data
  | remove id' =>
    obtain rfl := Option.some.inj hr
    dsimp only
    rw [remove_run, run_reading id' (s.erase id'), h]
    rfl

/-- A document that cannot be read is out of reach: every request for it begins with reading it, fails
there, and leaves the store as it is. The induction is on the requests. -/
theorem stuck_of_undecodable {store : Store} {raw : Text} (hfound : store.find? (s.key id) = some raw)
    (hraw : ¬ ∃ r, Row.decode raw = .ok r) : s.Stuck store id := by
  intro w hw rs hrs
  -- no request changes the surroundings, so the next one finds the same text
  induction rs with
  | nil => exact ⟨nofun, hw⟩
  | cons r rs ih =>
    obtain ⟨e, he⟩ := (current_fails_iff (s := s) (by rw [hw]; exact hfound)).2 (.inl hraw)
    have hfirst : Program.run World.answer (r.task s).run w = (.error e, w) :=
      outcome_of_current he (hrs r List.mem_cons_self)
    obtain ⟨hanswers, hstore⟩ := ih fun r hr => hrs r (List.mem_cons_of_mem _ hr)
    simp only [serve, hfirst]
    exact ⟨List.forall_mem_cons.2 ⟨⟨e, rfl⟩, hanswers⟩, hstore⟩

/-! ## Writes -/

/-- A row was written under an id, and the answer is what reading it gives. -/
structure Wrote (s : Service) (w : World) (row : Row) (id raw : Text)
    (out : Except ServiceError (Option Row) × World) : Prop where
  encoded : Row.encode (some row) = .ok raw
  stored : out.2.store = w.store.put (s.key id) raw
  fault : out.2.fault = w.fault
  answered : out.1 = s.current out.2 id

/-- The end of a write: it is put down in the log, and the document is read. -/
theorem wrote_of_put {row : Row} {raw : Text} (hencode : Row.encode (some row) = .ok raw)
    (logged : LogEntry) :
    s.Wrote w row id raw
      (Program.run World.answer (.ask (.log logged) fun _ => s.finish id)
        { w with store := w.store.put (s.key id) raw }) := by
  rw [Program.run]
  dsimp only [World.answer]
  rw [run_current]
  exact ⟨hencode, rfl, rfl, rfl⟩

/-- Writing a new document fails and changes nothing, or has written it, and the answer is what reading it
gives. It fails where the row cannot be encoded or the insertion is refused. -/
theorem run_writeNew_cases (s : Service) (w : World) (id : Text) (row : Row) :
    (∃ e, Program.run World.answer (s.writeNew id row) w = (.error e, w)) ∨
      ∃ raw, s.Wrote w row id raw (Program.run World.answer (s.writeNew id row) w) := by
  unfold writeNew
  cases hencode : Row.encode (some row) with
  | error e => exact .inl ⟨_, rfl⟩
  | ok raw =>
    dsimp only
    rw [Program.run]
    rcases w.insert_cases (s.key id) raw with ⟨e, he⟩ | hok
    · rw [he]
      exact .inl ⟨_, rfl⟩
    · rw [hok]
      exact .inr ⟨raw, wrote_of_put hencode _⟩

/-- Writing a patched document fails and changes nothing, or has written it, and the answer is what reading
it gives. -/
theorem run_writePatched_cases (s : Service) (w : World) (id : Text) (data : Option Row) {row : Row}
    {raw : Text} (hencode : Row.encode (some row) = .ok raw) :
    (∃ e, Program.run World.answer (s.writePatched id data raw) w = (.error e, w)) ∨
      s.Wrote w row id raw (Program.run World.answer (s.writePatched id data raw) w) := by
  unfold writePatched
  rw [Program.run]
  rcases w.replace_cases (s.key id) raw with ⟨e, he⟩ | hok
  · rw [he]
    exact .inl ⟨_, rfl⟩
  · rw [hok]
    exact .inr (wrote_of_put hencode _)

section Wrote

variable {row : Row} {raw : Text} {out : Except ServiceError (Option Row) × World}

theorem Wrote.found (h : s.Wrote w row id raw out) : out.2.store.find? (s.key id) = some raw := by
  rw [h.stored, Store.find?_put, if_pos rfl]

/-- A write is answered with an error exactly if the row holds an unreadable value or the store refuses
to be read. -/
theorem Wrote.fails_iff (h : s.Wrote w row id raw out) (hnodup : row.names.Nodup)
    (hproper : ∀ e ∈ row, e.2.proper = true) :
    (∃ e, out.1 = .error e) ↔ row.HasUnreadable ∨ w.fault .get ≠ none := by
  rw [h.answered, current_fails_iff h.found, h.fault, Row.decode_iff h.encoded hproper,
    Row.hasUnreadable_iff hnodup]

/-- A row with an unreadable value is out of reach once it is written. -/
theorem Wrote.stuck (h : s.Wrote w row id raw out) (hnodup : row.names.Nodup)
    (hproper : ∀ e ∈ row, e.2.proper = true) (hbad : row.HasUnreadable) : s.Stuck out.2.store id := by
  refine stuck_of_undecodable h.found ?_
  rw [Row.decode_iff h.encoded hproper]
  exact (Row.hasUnreadable_iff hnodup).1 hbad

end Wrote

/-! ## Requests -/

/-- All that a request can do to the store. -/
inductive Ended (s : Service) (w : World) (r : Request) (out : Except ServiceError (Option Row) × World) :
    Prop
  | unchanged : out.2.store = w.store → Ended s w r out
  | removed (doc : Option Row) : out.1 = .ok doc → w.fault .get = none → ¬ r.BringsUnreadable →
      Ended s w r out
  | wrote (row : Row) (id raw : Text) : s.Wrote w row id raw out → row.names.Nodup →
      (∀ e ∈ row, e.2.proper = true) → (row.HasUnreadable ↔ r.BringsUnreadable) → Ended s w r out

/-- Creating changes nothing, or has written a row which holds an unreadable value exactly if the data does.
The type and the id that are set are texts, and so never unreadable. -/
theorem create_ended {data : Option Row} (hr : (Request.create data).WellFormed) :
    s.Ended w (.create data) (Program.run World.answer (s.create data).run w) := by
  cases data with
  | none => exact .unchanged rfl
  | some data =>
    obtain ⟨hnodup, hproper⟩ := hr
    have hnodup' := Row.nodup_set hnodup typeField (.text s.name)
    have hproper' := Row.proper_set_text hproper typeField s.name
    have hstamped : (data.set typeField (.text s.name)).HasUnreadable ↔
        (Request.create (some data)).BringsUnreadable := Row.hasUnreadable_set_text
    by_cases hid : (data.set typeField (.text s.name)).get? s.idField = none ∨
        (data.set typeField (.text s.name)).get? s.idField = some .null
    · -- the document is given an id
      rw [create_run_fresh hid, Program.run]
      dsimp only [World.answer]
      rcases run_writeNew_cases s { w with used := w.used + 16 } (Uuid.ofRandom (w.randomBytes 16)) _ with
        ⟨e, h⟩ | ⟨raw, h⟩
      · rw [h]
        exact .unchanged rfl
      · refine .wrote _ _ raw ⟨h.encoded, h.stored, h.fault, h.answered⟩ (Row.nodup_set hnodup' _ _)
          (Row.proper_set_text hproper' _ _) ?_
        rw [Row.hasUnreadable_set_text, ← hstamped]
        refine exists_congr fun name => exists_congr fun v => and_iff_right_of_imp ?_
        -- there is nothing unreadable under the name of the id: the place was free
        rintro ⟨hget, hbad⟩ rfl
        rcases hid with hid | hid
        · rw [hid] at hget
          cases hget
        · obtain rfl := Option.some.inj (hid.symm.trans hget)
          cases hbad
    · -- the document has an id of its own
      rw [not_or] at hid
      obtain ⟨v, hv⟩ := Option.ne_none_iff_exists'.1 hid.1
      rw [create_run_given hv fun hnull => hid.2 (hnull ▸ hv)]
      rcases run_writeNew_cases s w (idText v) (data.set typeField (.text s.name)) with ⟨e, h⟩ | ⟨raw, h⟩
      · rw [h]
        exact .unchanged rfl
      · exact .wrote _ _ raw h hnodup' hproper' hstamped

/-- Patching changes nothing, or has written a row which holds an unreadable value exactly if the data does:
what was in the document has been read, and is readable. -/
theorem patch_ended {r : Request} (hr : r.WellFormed) {data : Option Row} (hdata : r.data = data.getD [])
    (id : Text) : s.Ended w r (Program.run World.answer (s.patch id data).run w) := by
  rw [patch_run, run_reading id (s.writeBack id data)]
  unfold writeBack
  split
  · exact .unchanged rfl
  · exact .unchanged rfl
  · next doc hdoc =>
    split
    · exact .unchanged rfl
    · next raw hencode =>
      -- the document was read, so it holds nothing unreadable from before
      obtain ⟨-, old, hold⟩ := found_of_current hdoc
      have hsettled := Row.settled_of_decode hold
      obtain ⟨hnodup, hproper⟩ := hr
      rw [hdata] at hnodup hproper
      rcases run_writePatched_cases s w id data hencode with ⟨e, h⟩ | h
      · rw [h]
        exact .unchanged rfl
      · refine .wrote _ _ raw h (Row.nodup_set (Row.nodup_merge (Row.nodup_of_decode hold) _) _ _)
          (Row.proper_set_text (fun e he => ?_) _ _) ?_
        · rcases Row.mem_merge he with he | he
          · exact (hsettled e he).1
          · exact hproper e he
        · unfold Request.BringsUnreadable
          rw [hdata]
          exact Row.hasUnreadable_patched hnodup hsettled s.name

/-- Removing changes nothing, or has removed a document that was read before. It brings no data. -/
theorem remove_ended (s : Service) (w : World) (id : Text) :
    s.Ended w (.remove id) (Program.run World.answer (s.remove id).run w) := by
  rw [remove_run, run_reading id (s.erase id)]
  unfold erase
  split
  · exact .unchanged rfl
  · next doc hdoc =>
    rw [Program.run]
    rcases w.remove_cases (s.key id) with ⟨e, he⟩ | hok
    · rw [he]
      exact .unchanged rfl
    · rw [hok]
      refine .removed doc rfl (found_of_current hdoc).1 ?_
      rintro ⟨name, v, -, ⟨⟩, -⟩

/-- The three cases above for every request; getting changes nothing, and updating is patching. -/
theorem outcome_ended {r : Request} (hr : r.WellFormed) : s.Ended w r (r.outcome s w) := by
  unfold Request.outcome Request.task
  cases r with
  | create data => exact create_ended hr
  | get id =>
    dsimp only
    rw [get_run, run_current]
    exact .unchanged rfl
  | patch id data => exact patch_ended hr rfl id
  | update id data => exact patch_ended hr rfl id
  | remove id => exact remove_ended s w id

/-- **Failed writes.** A request that has changed the store fails exactly if its data holds an
unreadable value or the store refuses to be read; a request that fails for any other reason changes
nothing. After an unreadable value the store differs in one document, and that document is out of
reach. -/
theorem changed_fails_iff (s : Service) (w : World) (r : Request) (hr : r.WellFormed)
    (hchanged : (r.outcome s w).2.store ≠ w.store) :
    ((∃ e, (r.outcome s w).1 = .error e) ↔ r.BringsUnreadable ∨ w.fault .get ≠ none) ∧
      (r.BringsUnreadable → ∃ id raw, (r.outcome s w).2.store = w.store.put (s.key id) raw ∧
        s.Stuck (r.outcome s w).2.store id) := by
  rcases outcome_ended (s := s) (w := w) hr with hsame | ⟨doc, hdoc, hcalm, hnone⟩ |
    ⟨row, id, raw, hwrote, hnodup, hproper, hbad⟩
  · exact absurd hsame hchanged
  · rw [hdoc]
    -- a document that was removed had been read, so the store was in order
    refine ⟨⟨by rintro ⟨e, ⟨⟩⟩, fun h => ?_⟩, fun h => absurd h hnone⟩
    exact absurd hcalm (h.resolve_left hnone)
  · rw [hwrote.fails_iff hnodup hproper, hbad]
    refine ⟨Iff.rfl, fun h => ⟨id, raw, hwrote.stored, ?_⟩⟩
    exact hwrote.stuck hnodup hproper (hbad.2 h)

/-- A note whose number is no number, though all its characters occur in numbers. -/
def oddNote : Request := .create (some [("uuid", .text "a"), ("n", .numeral "1-2")])

/-- The store with the odd note in it. -/
def oddStore : Store := [("note::a", "\x7b\"_type\":\"note\",\"n\":1-2,\"uuid\":\"a\"\x7d")]

/-- Creating the odd note fails and leaves it in the store, where no request reaches it. -/
theorem notes_oddNote_stuck :
    oddNote.WellFormed ∧ World.quiet.fault .get = none ∧
      (oddNote.outcome notes .quiet).2.store = oddStore ∧
      (∃ e, (oddNote.outcome notes .quiet).1 = .error e) ∧
      notes.Stuck (oddNote.outcome notes .quiet).2.store "a" := by
  have hformed : oddNote.WellFormed := ⟨by decide, by decide⟩
  have hstore : (oddNote.outcome notes .quiet).2.store = oddStore := by rfl
  have hbad : oddNote.BringsUnreadable := ⟨"n", .numeral "1-2", by decide, rfl, by decide⟩
  obtain ⟨hfails, hstuck⟩ := changed_fails_iff notes .quiet oddNote hformed (by rw [hstore]; decide)
  obtain ⟨id, raw, hput, hstuck⟩ := hstuck hbad
  -- the one key of the store is that of the id
  have hid : id = "a" := by
    rw [hstore] at hput
    have hkey : ("note::a" : Text) = notes.key id := congrArg Prod.fst (List.cons.inj hput).1
    exact key_inj.1 (show notes.key id = notes.key "a" from hkey.symm)
  exact ⟨hformed, rfl, hstore, hfails.2 (.inl hbad), hid ▸ hstuck⟩

/-! ## Documents that are too deep -/

/-- So many lists within each other. -/
def nested : Nat → Value
  | 0 => .null
  | n + 1 => .list .any [nested n]

theorem depth_nested (n : Nat) : (nested n).depth = n := by
  induction n with
  | zero => rfl
  | succ n ih => rw [nested, Value.depth, Value.depthOfItems, Value.depthOfItems, ih, Nat.max_zero]

theorem proper_nested (n : Nat) : (nested n).proper = true ∧ (nested n).stray = false := by
  induction n with
  | zero => exact ⟨rfl, rfl⟩
  | succ n ih =>
    exact ⟨Value.properItems_iff.2 (List.forall_mem_singleton.2 ih.1),
      Value.strayItems_iff.2 (List.forall_mem_singleton.2 ih.2)⟩

theorem toJson_nested (n : Nat) : (nested n).toJson = .ok (nested n).tree := by
  induction n with
  | zero => rfl
  | succ n ih =>
    have hwritten : (nested (n + 1)).toJson = .ok (.array [(nested n).tree]) :=
      Value.list_toJson_ok.2 ⟨rfl, List.forall_mem_singleton.2 ih⟩
    rw [Value.tree_of_toJson hwritten, hwritten]

/-- A note with lists within each other. -/
def deepNote (n : Nat) : Row := [("uuid", .text "a"), ("n", nested n)]

/-- The note with its type. -/
def stampedNote (n : Nat) : Row := [("uuid", .text "a"), ("n", nested n), ("_type", .text "note")]

/-- **How deep a document can be.** Creating a note is answered with a document exactly as long as the
lists in it leave room for the note around them; beyond this limit the note is written all the same, and
cannot be reached. -/
theorem create_deepNote (n : Nat) :
    ((∃ doc, ((Request.create (some (deepNote n))).outcome notes .quiet).1 = .ok doc) ↔ n < Json.maxDepth) ∧
      (Json.maxDepth ≤ n →
        notes.Stuck ((Request.create (some (deepNote n))).outcome notes .quiet).2.store "a") := by
  have hentries : ∀ e ∈ stampedNote n, e.2.toJson = .ok e.2.tree ∧ e.2.proper = true := by
    unfold stampedNote
    rw [List.forall_mem_cons, List.forall_mem_cons, List.forall_mem_singleton]
    exact ⟨⟨rfl, rfl⟩, ⟨toJson_nested n, (proper_nested n).1⟩, ⟨rfl, rfl⟩⟩
  have hencode := Row.encode_of_written fun e he => (hentries e he).1
  -- the note is written for every depth, as nothing is in its way in an empty store
  have hwrote : notes.Wrote .quiet (stampedNote n) "a" (Value.table .any (stampedNote n)).tree.compact
      ((Request.create (some (deepNote n))).outcome notes .quiet) := by
    have hgiven : ((deepNote n).set typeField (.text notes.name)).get? notes.idField = some (.text "a") := rfl
    have hrun : (Request.create (some (deepNote n))).outcome notes .quiet
        = Program.run World.answer (notes.writeNew "a" (stampedNote n)) .quiet :=
      congrArg (Program.run World.answer · .quiet) (create_run_given hgiven nofun)
    rw [hrun]
    rcases run_writeNew_cases notes .quiet "a" (stampedNote n) with ⟨e, he⟩ | ⟨raw, h⟩
    · rw [run_writeNew (fun _ => rfl) rfl hencode] at he
      cases congrArg World.store (Prod.mk.inj he).2
    · exact Except.ok.inj (hencode.symm.trans h.encoded) ▸ h
  have hnodup : (stampedNote n).names.Nodup := by
    show (["uuid", "n", "_type"] : List Text).Nodup
    decide
  -- and it is unreadable by depth alone, as all its texts are characters
  have hbad : (stampedNote n).HasUnreadable ↔ Json.maxDepth ≤ n := by
    rw [Row.hasUnreadable_iff hnodup, ← Nat.not_lt, not_iff_not, stampedNote, List.forall_mem_cons,
      List.forall_mem_cons, List.forall_mem_singleton, Value.unreadable_eq_false (v := nested n), depth_nested]
    exact ⟨fun h => h.2.1.2, fun h => ⟨rfl, ⟨(proper_nested n).2, h⟩, rfl⟩⟩
  have hproper : ∀ e ∈ stampedNote n, e.2.proper = true := fun e he => (hentries e he).2
  refine ⟨?_, fun h => hwrote.stuck hnodup hproper (hbad.2 h)⟩
  have hfails := hwrote.fails_iff hnodup hproper
  rw [hbad, or_iff_left (fun h => h rfl)] at hfails
  rw [← Nat.not_le, ← hfails]
  cases ((Request.create (some (deepNote n))).outcome notes .quiet).1 with
  | error e => exact iff_of_false nofun fun h => h ⟨e, rfl⟩
  | ok doc => exact iff_of_true ⟨doc, rfl⟩ nofun

end Service

end DocFilter
