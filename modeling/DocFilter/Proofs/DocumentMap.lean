import DocFilter.Proofs.Operations
import DocFilter.Proofs.Storage

/-!
A service is a map of documents. Seen from outside, the documents of a service are a map from ids to
documents, and a document is a map from names to values. `DocumentMap.answer` says what each request
does to such a map, without keys, texts or storage. Main result (`Service.serve_answers`): over a
store that starts empty, every sequence of requests is answered as the map answers it, and all the
time the store holds exactly the documents of the map, each under the key of its id, readable and
stamped with the type of the service.
-/

set_option autoImplicit false

namespace DocFilter

open Service (typeField)

/-! ## Requests -/

/-- A call on single documents. -/
inductive Request where
  | create (data : Option Row)
  | get (id : Text)
  | patch (id : Text) (data : Option Row)
  | update (id : Text) (data : Option Row)
  | remove (id : Text)

namespace Request

/-- The operation that a request calls. -/
def task (s : Service) : Request → ServiceResult (Option Row)
  | .create data => s.create data
  | .get id => s.get id
  | .patch id data => s.patch id data
  | .update id data => s.update id data
  | .remove id => s.remove id

/-- Whether storage keeps all that the request brings, and the id of a new document is a text, null or
missing. -/
def admissible (idField : Text) : Request → Bool
  | .create (some data) =>
    data.storable &&
      match data.get? idField with
      | none | some .null | some (.text _) => true
      | _ => false
  | .patch _ data | .update _ data => Row.storable (data.getD [])
  | _ => true

end Request

/-- Serves requests one after the other. -/
def Service.serve (s : Service) : List Request → World → List (Except ServiceError (Option Row)) × World
  | [], w => ([], w)
  | r :: rs, w =>
    let (a, w') := Program.run World.answer (r.task s).run w
    let (as, w'') := s.serve rs w'
    (a :: as, w'')

/-- The id that the surroundings give after `n` others. -/
def World.freshId (w : World) (n : Nat) : Text :=
  Uuid.ofRandom ({ w with used := w.used + 16 * n }.randomBytes 16)

/-- Surroundings without a document and without faults. -/
def World.quiet : World := { store := [], database := ⟨[], []⟩, random := [7] }

/-! ## Maps of documents -/

/-- A document: the value of each of its fields, as it is meant. -/
abbrev Fields := Text → Option Value

/-- The document that a row holds. -/
def Row.fields (row : Row) : Fields := fun name => (row.get? name).map Value.plain

/-- The document with a value in a field. -/
def Fields.set (doc : Fields) (name : Text) (v : Value) : Fields :=
  fun n => if n = name then some v else doc n

/-- The document with the fields of another one on top. -/
def Fields.override (doc changes : Fields) : Fields := fun n => (changes n).or (doc n)

/-- Documents under their ids, and the ids that new documents will be given. -/
structure DocumentMap where
  docs : Text → Option Fields
  fresh : Nat → Text

namespace DocumentMap

/-- No document. -/
def empty (fresh : Nat → Text) : DocumentMap := ⟨fun _ => none, fresh⟩

/-- The map with a document under an id. -/
def put (m : DocumentMap) (id : Text) (doc : Fields) : DocumentMap :=
  { m with docs := fun i => if i = id then some doc else m.docs i }

/-- The map without an id. -/
def erase (m : DocumentMap) (id : Text) : DocumentMap :=
  { m with docs := fun i => if i = id then none else m.docs i }

/-- The map after an id was given away. -/
def skip (m : DocumentMap) : DocumentMap := { m with fresh := fun n => m.fresh (n + 1) }

/-- Adds a document under a free id. -/
def insert (m : DocumentMap) (id : Text) (doc : Fields) :
    Except ServiceError (Option Fields) × DocumentMap :=
  match m.docs id with
  | some _ => (.error (.conflict .keyExists), m)
  | none => (.ok (some doc), m.put id doc)

/-- What a request does. -/
def answer (m : DocumentMap) (name idField : Text) :
    Request → Except ServiceError (Option Fields) × DocumentMap
  | .create none => (.error (.badRequest .noData), m)
  | .create (some data) =>
    let doc := data.fields.set typeField (.text name)
    match data.get? idField with
    | some (.text id) => m.insert id doc
    | _ => m.skip.insert (m.fresh 0) (doc.set idField (.text (m.fresh 0)))
  | .get id =>
    match m.docs id with
    | none => (.error (.notFound .keyNotFound), m)
    | some doc => (.ok (some doc), m)
  | .patch id data | .update id data =>
    match m.docs id with
    | none => (.error (.notFound .keyNotFound), m)
    | some doc =>
      let doc' := (doc.override (Row.fields (data.getD []))).set typeField (.text name)
      (.ok (some doc'), m.put id doc')
  | .remove id =>
    match m.docs id with
    | none => (.error (.notFound .keyNotFound), m)
    | some doc => (.ok (some doc), m.erase id)

/-- Answers requests one after the other. -/
def answers (m : DocumentMap) (name idField : Text) :
    List Request → List (Except ServiceError (Option Fields)) × DocumentMap
  | [] => ([], m)
  | r :: rs =>
    let (a, m') := m.answer name idField r
    let (as, m'') := m'.answers name idField rs
    (a :: as, m'')

end DocumentMap

/-! ## Fields of rows -/

namespace Row

/-- Setting a name in a row sets the field of the document. -/
theorem fields_set (row : Row) (name : Text) (v : Value) :
    (row.set name v).fields = row.fields.set name v.plain := by
  funext n
  unfold Row.fields Fields.set
  rw [get?_set]
  split <;> rfl

/-- Laying data over a row lays the fields over those of the document. Names of the data have to be
distinct, for of two entries with one name the later counts in the row, and the first in the document. -/
theorem fields_merge {changes : Row} (h : changes.names.Nodup) (row : Row) :
    (row.merge changes).fields = row.fields.override changes.fields := by
  funext n
  unfold Row.fields Fields.override
  rw [get?_merge h]
  dsimp only
  cases changes.get? n <;> rfl

/-- Setting a text under a name, both of characters, keeps a row storable. Types and ids are set in this
way. -/
theorem storable_set_text {row : Row} (h : row.storable = true) {name t : Text}
    (hname : Text.isUtf8 name = true) (ht : Text.isUtf8 t = true) :
    (row.set name (.text t)).storable = true := by
  rw [storable_iff] at h ⊢
  refine ⟨nodup_set h.1 _ _, fun e he => ?_⟩
  rcases mem_set he with rfl | he
  · exact ⟨hname, ht, Json.maxDepth_pos⟩
  · exact h.2 e he

/-- Storable data over a storable row is storable. The bound on depth is one on each value, so it is kept as
well. -/
theorem storable_merge {row changes : Row} (h : row.storable = true) (hc : changes.storable = true) :
    (row.merge changes).storable = true := by
  rw [storable_iff] at h hc ⊢
  refine ⟨nodup_merge h.1 _, fun e he => ?_⟩
  rcases mem_merge he with he | he
  · exact h.2 e he
  · exact hc.2 e he

end Row

/-! ## New ids -/

theorem Text.ascii_hex (width n : Nat) : ∀ b ∈ Text.hex width n, b.toNat < 128 := by
  induction width generalizing n with
  | zero => exact nofun
  | succ width ih =>
    intro b hb
    rcases List.mem_append.1 hb with hb | hb
    · exact ih (n / 16) b hb
    · rw [List.mem_singleton.1 hb]
      have hdigit : ∀ i : Fin 16, (Text.digit i).toNat < 128 := by decide
      exact hdigit ⟨n % 16, Nat.mod_lt _ (by decide)⟩

/-- A new id is a text of characters: hexadecimal digits and hyphens. So it is kept by storage, and found
again under its text. -/
theorem Uuid.isUtf8_ofRandom (bytes : List UInt8) : Text.isUtf8 (Uuid.ofRandom bytes) = true := by
  have hdigits : ∀ bs : List UInt8, ∀ b ∈ Uuid.digits bs, b.toNat < 128 := by
    intro bs b hb
    obtain ⟨c, -, hc⟩ := List.mem_flatMap.1 hb
    exact Text.ascii_hex 2 _ b hc
  refine Text.isUtf8_of_ascii fun b hb => ?_
  rcases Text.mem_join hb with hb | ⟨t, ht, hb⟩
  · rw [List.mem_singleton.1 hb]
    decide
  · simp only [List.mem_cons, List.not_mem_nil, or_false] at ht
    rcases ht with rfl | rfl | rfl | rfl | rfl <;> exact hdigits _ b hb

/-! ## The store of a map -/

namespace Service

/-- A raw document stands for a document: it is readable, it is not null, and it is stamped with the
type of the service. -/
structure Stands (s : Service) (raw : Text) (doc : Fields) : Prop where
  read : ∃ row, Row.decode raw = .ok (some row) ∧ row.storable = true ∧ row.fields = doc
  stamped : doc typeField = some (.text s.name)

/-- The store holds exactly the documents of the map, each under the key of its id. -/
structure Represents (s : Service) (m : DocumentMap) (w : World) : Prop where
  calm : ∀ op, w.fault op = none
  fresh : m.fresh = w.freshId
  keyed : ∀ key raw, w.store.find? key = some raw → ∃ id, key = s.key id
  absent : ∀ id, m.docs id = none → w.store.find? (s.key id) = none
  present : ∀ id doc, m.docs id = some doc →
    ∃ raw, w.store.find? (s.key id) = some raw ∧ s.Stands raw doc

variable {s : Service} {m : DocumentMap} {w : World}

/-- The row of a stored document is what its reading gives. -/
theorem Stands.reading {raw : Text} {doc : Fields} (h : s.Stands raw doc) :
    ∃ row, Service.reading (.ok raw) = .ok (some row) ∧ row.storable = true ∧ row.fields = doc := by
  obtain ⟨row, hdecode, hrow⟩ := h.read
  exact ⟨row, reading_ok hdecode, hrow⟩

/-- A storable row with the type of the service can be stored, and then stands for its document. -/
theorem exists_stands {row : Row} (hrow : row.storable = true)
    (hstamp : row.fields typeField = some (.text s.name)) :
    ∃ raw, Row.encode (some row) = .ok raw ∧ s.Stands raw row.fields := by
  obtain ⟨raw, row', hencode, hdecode, hrow', hfields⟩ := Row.stored_of_storable hrow
  exact ⟨raw, hencode, ⟨row', hdecode, hrow', funext hfields⟩, hstamp⟩

namespace Represents

/-- An id that was given away is gone in the map and in the surroundings alike. -/
theorem skip (h : s.Represents m w) : s.Represents m.skip { w with used := w.used + 16 } where
  calm := h.calm
  fresh := by
    funext n
    show m.fresh (n + 1) = _
    rw [h.fresh]
    unfold World.freshId
    rw [Nat.mul_add, Nat.mul_one, Nat.add_comm (16 * n), ← Nat.add_assoc]
  keyed := h.keyed
  absent := h.absent
  present := h.present

/-- The store after a document was written holds the documents of the map after it was put there. Ids and
keys are in bijection, so the other ids are where they were. -/
theorem put (h : s.Represents m w) {id raw : Text} {doc : Fields} (hstands : s.Stands raw doc)
    (log : List LogEntry) :
    s.Represents (m.put id doc) { w with store := w.store.put (s.key id) raw, log } where
  calm := h.calm
  fresh := h.fresh
  keyed := by
    intro key raw' hfind
    rw [Store.find?_put] at hfind
    split at hfind
    · next heq => exact ⟨id, heq⟩
    · exact h.keyed key raw' hfind
  -- an id that the map does not have is another one, and was absent before
  absent := by
    intro i hi
    unfold DocumentMap.put at hi
    dsimp only at hi
    split at hi
    · cases hi
    · next hne =>
      rw [Store.find?_put, if_neg (mt key_inj.1 hne)]
      exact h.absent i hi
  -- an id that the map has is the one that was written, or was present before
  present := by
    intro i doc' hi
    unfold DocumentMap.put at hi
    dsimp only at hi
    rw [Store.find?_put]
    split at hi
    · next heq =>
      obtain rfl := Option.some.inj hi
      exact ⟨raw, if_pos (key_inj.2 heq), hstands⟩
    · next hne =>
      rw [if_neg (mt key_inj.1 hne)]
      exact h.present i doc' hi

/-- The store after a document was removed holds the documents of the map without it. -/
theorem erase (h : s.Represents m w) (id : Text) (log : List LogEntry) :
    s.Represents (m.erase id) { w with store := w.store.erase (s.key id), log } where
  calm := h.calm
  fresh := h.fresh
  keyed := by
    intro key raw' hfind
    rw [Store.find?_erase] at hfind
    split at hfind
    · cases hfind
    · exact h.keyed key raw' hfind
  absent := by
    intro i hi
    unfold DocumentMap.erase at hi
    dsimp only at hi
    rw [Store.find?_erase]
    split at hi
    · next heq => exact if_pos (key_inj.2 heq)
    · next hne =>
      rw [if_neg (mt key_inj.1 hne)]
      exact h.absent i hi
  -- the id that was removed is no longer there, and every other one is where it was
  present := by
    intro i doc' hi
    unfold DocumentMap.erase at hi
    dsimp only at hi
    split at hi
    · cases hi
    · next hne =>
      rw [Store.find?_erase, if_neg (mt key_inj.1 hne)]
      exact h.present i doc' hi

end Represents

/-! ## One request -/

/-- The end of an operation is the reading of the document, and changes nothing. -/
theorem run_finish (hcalm : ∀ op, w.fault op = none) (id : Text) :
    Program.run World.answer (s.finish id) w = (reading (w.store.get (s.key id)), w) := by
  simp only [finish, Program.run, World.answer, hcalm]

/-- Writing over a document that is there succeeds, is logged, and is answered with what is read back. -/
theorem run_writePatched (hcalm : ∀ op, w.fault op = none) {id old : Text}
    (hfind : w.store.find? (s.key id) = some old) (data : Option Row) (raw : Text) :
    Program.run World.answer (s.writePatched id data raw) w
      = (reading (.ok raw), { w with
          store := w.store.put (s.key id) raw, log := w.log ++ [(s.patchedEntry id data).legible] }) := by
  simp only [writePatched, Program.run, World.answer, World.change, hcalm, Store.replace, hfind, finish,
    Store.get_eq, Store.find?_put, if_true]

/-- Writing under a free key succeeds, is logged, and is answered with what is read back. -/
theorem run_writeNew (hcalm : ∀ op, w.fault op = none) {id : Text}
    (hfind : w.store.find? (s.key id) = none) {doc : Row} {raw : Text}
    (hencode : Row.encode (some doc) = .ok raw) :
    Program.run World.answer (s.writeNew id doc) w
      = (reading (.ok raw), { w with
          store := w.store.put (s.key id) raw, log := w.log ++ [(s.entry "created" id []).legible] }) := by
  simp only [writeNew, hencode, Program.run, World.answer, World.change, hcalm, Store.insert, hfind, finish,
    Store.get_eq, Store.find?_put, if_true]

/-- Writing under a key that is taken is refused as a conflict, and leaves no trace. -/
theorem run_writeNew_conflict (hcalm : ∀ op, w.fault op = none) {id old : Text}
    (hfind : w.store.find? (s.key id) = some old) {doc : Row} {raw : Text}
    (hencode : Row.encode (some doc) = .ok raw) :
    Program.run World.answer (s.writeNew id doc) w = (.error (.conflict .keyExists), w) := by
  simp only [writeNew, hencode, Program.run, World.answer, World.change, hcalm, Store.insert, hfind]
  rfl

theorem run_erase (hcalm : ∀ op, w.fault op = none) {id old : Text}
    (hfind : w.store.find? (s.key id) = some old) (doc : Option Row) :
    Program.run World.answer (s.erase id (.ok doc)) w
      = (.ok doc, { w with
          store := w.store.erase (s.key id), log := w.log ++ [(s.entry "removed" id []).legible] }) := by
  simp only [erase, Program.run, World.answer, World.change, hcalm, Store.remove, hfind]

/-- The answer of a program and the surroundings after it are those of a map. -/
def Agrees (s : Service) (result : Except ServiceError (Option Row) × World)
    (expected : Except ServiceError (Option Fields) × DocumentMap) : Prop :=
  result.1.map (Option.map Row.fields) = expected.1 ∧ s.Represents expected.2 result.2

/-- Reading an id in the store and looking it up in the map come to the same: it is missing in both, or the
row that is read is the document of the map. -/
theorem Represents.reading_get (h : s.Represents m w) (id : Text) :
    match m.docs id with
    | none => reading (w.store.get (s.key id)) = .error (.notFound .keyNotFound)
    | some doc => ∃ raw row, w.store.find? (s.key id) = some raw ∧
        reading (w.store.get (s.key id)) = .ok (some row) ∧ row.storable = true ∧ row.fields = doc := by
  cases hdoc : m.docs id with
  | none =>
    rw [Store.get_eq, h.absent id hdoc]
    rfl
  | some doc =>
    obtain ⟨raw, hfind, hstands⟩ := h.present id doc hdoc
    obtain ⟨row, hread, hrow⟩ := hstands.reading
    exact ⟨raw, row, hfind, by rw [Store.get_eq, hfind]; exact hread, hrow⟩

/-- Getting is answered as the map answers it: with the document, or with the error for a missing one. The
map stays as it is. -/
theorem get_agrees (h : s.Represents m w) (id : Text) :
    s.Agrees (Program.run World.answer (s.get id).run w) (m.answer s.name s.idField (.get id)) := by
  have hread := h.reading_get id
  rw [get_run, run_finish h.calm]
  rw [DocumentMap.answer]
  cases hdoc : m.docs id with
  | none =>
    rw [hdoc] at hread
    dsimp only at hread ⊢
    rw [hread]
    exact ⟨rfl, h⟩
  | some doc =>
    rw [hdoc] at hread
    obtain ⟨raw, row, -, hread, -, rfl⟩ := hread
    dsimp only
    rw [hread]
    exact ⟨rfl, h⟩

/-- Patching is answered as the map answers it. The document that is written is the old one with the data
over it and the type set, and it is storable since both of them are. -/
theorem patch_agrees (hname : Text.isUtf8 s.name = true) (h : s.Represents m w) (id : Text)
    {data : Option Row} (hdata : Row.storable (data.getD []) = true) :
    s.Agrees (Program.run World.answer (s.patch id data).run w)
      (m.answer s.name s.idField (.patch id data)) := by
  have hread := h.reading_get id
  rw [patch_run]
  simp only [Program.run, World.answer, h.calm]
  rw [DocumentMap.answer]
  cases hdoc : m.docs id with
  | none =>
    rw [hdoc] at hread
    dsimp only at hread ⊢
    rw [hread]
    exact ⟨rfl, h⟩
  | some doc =>
    rw [hdoc] at hread
    obtain ⟨old, row, hfind, hread, hrow, rfl⟩ := hread
    dsimp only
    rw [hread]
    have hstorable : (s.patched row data).storable = true :=
      Row.storable_set_text (Row.storable_merge hrow hdata) (by decide) hname
    have hfields : (s.patched row data).fields
        = (row.fields.override (Row.fields (data.getD []))).set typeField (.text s.name) := by
      rw [patched, Row.fields_set, Row.fields_merge (Row.storable_iff.1 hdata).1]
      rfl
    obtain ⟨raw, hencode, hstands⟩ := exists_stands (s := s) hstorable (by rw [hfields]; exact if_pos rfl)
    -- the patch answers with what it reads back
    obtain ⟨row', hread', -, hrow'⟩ := hstands.reading
    simp only [writeBack, hencode]
    rw [run_writePatched h.calm hfind, hread']
    rw [hfields] at hstands hrow'
    exact ⟨congrArg (fun d => Except.ok (some d)) hrow', h.put hstands _⟩

/-- Removing is answered as the map answers it, with the document that was there. It is read before it is
erased, and one that is missing is not erased. -/
theorem remove_agrees (h : s.Represents m w) (id : Text) :
    s.Agrees (Program.run World.answer (s.remove id).run w) (m.answer s.name s.idField (.remove id)) := by
  have hread := h.reading_get id
  rw [remove_run]
  simp only [Program.run, World.answer, h.calm]
  rw [DocumentMap.answer]
  cases hdoc : m.docs id with
  | none =>
    rw [hdoc] at hread
    dsimp only at hread ⊢
    rw [hread]
    exact ⟨rfl, h⟩
  | some doc =>
    rw [hdoc] at hread
    obtain ⟨raw, row, hfind, hread, -, rfl⟩ := hread
    dsimp only
    rw [hread]
    rw [run_erase h.calm hfind]
    exact ⟨rfl, h.erase id _⟩

/-- A new document is added as the map adds it: refused if there is one under the id, and else put there and
returned as it is read back. -/
theorem writeNew_agrees (h : s.Represents m w) (id : Text) {doc : Row} (hdoc : doc.storable = true)
    (hstamp : doc.fields typeField = some (.text s.name)) :
    s.Agrees (Program.run World.answer (s.writeNew id doc) w) (m.insert id doc.fields) := by
  obtain ⟨raw, hencode, hstands⟩ := exists_stands (s := s) hdoc hstamp
  unfold DocumentMap.insert
  cases hid : m.docs id with
  -- the key is taken, and the store refuses the insertion
  | some old =>
    obtain ⟨raw', hfind, -⟩ := h.present id old hid
    rw [run_writeNew_conflict h.calm hfind hencode]
    exact ⟨rfl, h⟩
  | none =>
    obtain ⟨row, hread, -, hrow⟩ := hstands.reading
    rw [run_writeNew h.calm (h.absent id hid) hencode, hread]
    exact ⟨congrArg (fun d => Except.ok (some d)) hrow, h.put hstands _⟩

/-- Creating is answered as the map answers it. The id is the given text, or the next new one if there is
none; the two cases differ in what is put into the document. -/
theorem create_agrees (hname : Text.isUtf8 s.name = true) (hid : Text.isUtf8 s.idField = true)
    (hfield : s.idField ≠ typeField) (h : s.Represents m w) {data : Row}
    (hadm : (Request.create (some data)).admissible s.idField = true) :
    s.Agrees (Program.run World.answer (s.create (some data)).run w)
      (m.answer s.name s.idField (.create (some data))) := by
  rw [Request.admissible, Bool.and_eq_true] at hadm
  obtain ⟨hdata, hidValue⟩ := hadm
  have hdoc : (data.set typeField (.text s.name)).storable = true :=
    Row.storable_set_text hdata (by decide) hname
  have hfields : (data.set typeField (.text s.name)).fields = data.fields.set typeField (.text s.name) :=
    Row.fields_set _ _ _
  have hget : (data.set typeField (.text s.name)).get? s.idField = data.get? s.idField := by
    rw [Row.get?_set, if_neg hfield]
  -- what happens without an id
  have hfresh : data.get? s.idField = none ∨ data.get? s.idField = some .null →
      s.Agrees (Program.run World.answer (s.create (some data)).run w)
        (m.skip.insert (m.fresh 0)
          ((data.fields.set typeField (.text s.name)).set s.idField (.text (m.fresh 0)))) := by
    intro hnone
    rw [create_run_fresh (by rw [hget]; exact hnone)]
    simp only [Program.run, World.answer]
    have hnew : Uuid.ofRandom (w.randomBytes 16) = m.fresh 0 := by rw [h.fresh]; rfl
    rw [hnew, ← hfields]
    have hfields' := Row.fields_set (data.set typeField (.text s.name)) s.idField (.text (m.fresh 0))
    have hutf : Text.isUtf8 (m.fresh 0) = true := by rw [h.fresh]; exact Uuid.isUtf8_ofRandom _
    have := writeNew_agrees h.skip (m.fresh 0) (Row.storable_set_text hdoc hid hutf)
      (by rw [hfields', hfields]; exact (if_neg (Ne.symm hfield)).trans (if_pos rfl))
    rwa [hfields'] at this
  rw [DocumentMap.answer]
  cases hv : data.get? s.idField with
  | none => exact hfresh (.inl hv)
  | some v =>
    rw [hv] at hidValue
    cases v with
    | null => exact hfresh (.inr hv)
    | text t =>
      rw [create_run_given (by rw [hget]; exact hv) (by simp)]
      have := writeNew_agrees h t hdoc (by rw [hfields]; exact if_pos rfl)
      rwa [hfields] at this
    | _ => cases hidValue

/-- **One request.** The answer is that of the map, and the store holds the documents of the map. -/
theorem request_agrees (hname : Text.isUtf8 s.name = true) (hid : Text.isUtf8 s.idField = true)
    (hfield : s.idField ≠ typeField) (h : s.Represents m w) {r : Request}
    (hr : r.admissible s.idField = true) :
    s.Agrees (Program.run World.answer (r.task s).run w) (m.answer s.name s.idField r) := by
  cases r with
  | create data =>
    cases data with
    | none => exact ⟨rfl, h⟩
    | some data => exact create_agrees hname hid hfield h hr
  | get id => exact get_agrees h id
  | patch id data => exact patch_agrees hname h id hr
  | update id data => exact patch_agrees hname h id hr
  | remove id => exact remove_agrees h id

/-! ## Whole runs -/

theorem represents_empty (hcalm : ∀ op, w.fault op = none) (hempty : w.store = []) :
    s.Represents (.empty w.freshId) w where
  calm := hcalm
  fresh := rfl
  keyed := by rw [hempty]; exact nofun
  absent := by rw [hempty]; exact fun _ _ => rfl
  present := fun _ _ => nofun

/-- A sequence of requests is answered as the map answers it, and leaves the store of the map behind. The
induction is on the requests, with `request_agrees` for each. -/
theorem serve_agrees (hname : Text.isUtf8 s.name = true) (hid : Text.isUtf8 s.idField = true)
    (hfield : s.idField ≠ typeField) {rs : List Request}
    (hrs : ∀ r ∈ rs, r.admissible s.idField = true) (h : s.Represents m w) :
    (s.serve rs w).1.map (Except.map (Option.map Row.fields)) = (m.answers s.name s.idField rs).1 ∧
      s.Represents (m.answers s.name s.idField rs).2 (s.serve rs w).2 := by
  induction rs generalizing m w with
  | nil => exact ⟨rfl, h⟩
  | cons r rs ih =>
    obtain ⟨hanswer, hrep⟩ := request_agrees hname hid hfield h (hrs r List.mem_cons_self)
    obtain ⟨hanswers, hrep'⟩ := ih (fun r hr => hrs r (List.mem_cons_of_mem _ hr)) hrep
    exact ⟨congrArg₂ List.cons hanswer hanswers, hrep'⟩

/-- **A service is a map of documents.** Over a store that starts empty and answers without faults,
every sequence of requests is answered as the map of documents answers it, and afterwards the store
holds exactly the documents of the map, each under the key of its id, readable and stamped. The name
and the id field of the service are characters. -/
theorem serve_answers (s : Service) (hname : Text.isUtf8 s.name = true)
    (hid : Text.isUtf8 s.idField = true) (hfield : s.idField ≠ typeField) (w : World)
    (hcalm : ∀ op, w.fault op = none) (hempty : w.store = []) (rs : List Request)
    (hrs : ∀ r ∈ rs, r.admissible s.idField = true) :
    (s.serve rs w).1.map (Except.map (Option.map Row.fields))
        = ((DocumentMap.empty w.freshId).answers s.name s.idField rs).1 ∧
      s.Represents ((DocumentMap.empty w.freshId).answers s.name s.idField rs).2 (s.serve rs w).2 :=
  serve_agrees hname hid hfield hrs (represents_empty hcalm hempty)

/-- The service of the documents of type `note`. -/
def notes : Service := ⟨"b", "note", "uuid", "::", {}⟩

/-- A note is created twice, patched in a field it has and in one it has not, and removed; another
one is created without an id. -/
def notebook : List Request :=
  [.create (some [("uuid", .text "a"), ("stars", .int .int 1), ("tags", .list .texts [.text "x"])]),
    .create (some [("uuid", .text "a")]),
    .patch "a" (some [("stars", .int .int64 9007199254740992), ("by", .table .any [("z", .null), ("y", .bool true)])]),
    .create (some [("uuid", .null)]),
    .remove "a",
    .get "a"]

/-- The notebook is served as the map of documents says. An integer beyond the exact ones comes back
rounded, a table sorted and without types, and a missing id is filled in. -/
theorem notes_serve_notebook :
    (∀ r ∈ notebook, r.admissible notes.idField = true) ∧
      (∃ d₁ d₂ d₃,
        (notes.serve notebook .quiet).1.map (Except.map (Option.map Row.fields))
            = [.ok (some d₁), .error (.conflict .keyExists), .ok (some d₂), .ok (some d₃), .ok (some d₂),
              .error (.notFound .keyNotFound)] ∧
          d₁ "stars" = some (.int .int 1) ∧ d₂ "stars" = some (.int .int 9007199254740992) ∧
          d₂ "by" = some (.table .any [("y", .bool true), ("z", .null)]) ∧
          d₂ "_type" = some (.text "note") ∧
          d₃ "uuid" = some (.text "07070707-0707-4707-8707-070707070707")) ∧
      notes.Represents ((DocumentMap.empty World.quiet.freshId).answers notes.name notes.idField notebook).2
        (notes.serve notebook .quiet).2 := by
  have h := serve_answers notes (by decide) (by decide) (by decide) .quiet (fun _ => rfl) rfl notebook
    (by decide)
  refine ⟨by decide, ⟨_, _, _, h.1.trans rfl, ?_⟩, h.2⟩
  exact ⟨rfl, rfl, rfl, rfl, rfl⟩

/-- A service whose name is no character. -/
def strayName : Service := ⟨"b", [0xFF], "uuid", "::", {}⟩

/-- A service whose id field is no character. -/
def strayIdField : Service := ⟨"b", "note", [0xFF], "::", {}⟩

/-- A name or an id field that is no character is not kept: the document comes back with the
replacement character in its place. -/
theorem stray_names_replaced :
    (strayName.serve [.create (some [("uuid", .text "a")])] .quiet).1.map (Except.map (Option.map Row.fields))
        ≠ ((DocumentMap.empty World.quiet.freshId).answers strayName.name strayName.idField
            [.create (some [("uuid", .text "a")])]).1 ∧
      (strayIdField.serve [.create (some [])] .quiet).1.map (Except.map (Option.map Row.fields))
        ≠ ((DocumentMap.empty World.quiet.freshId).answers strayIdField.name strayIdField.idField
            [.create (some [])]).1 := by
  have hname : (strayName.serve [.create (some [("uuid", .text "a")])] .quiet).1
      = [.ok (some [("_type", .text [0xEF, 0xBF, 0xBD]), ("uuid", .text "a")])] := by rfl
  have hid : (strayIdField.serve [.create (some [])] .quiet).1
      = [.ok (some [([0xEF, 0xBF, 0xBD], .text "07070707-0707-4707-8707-070707070707"),
          ("_type", .text "note")])] := by rfl
  rw [hname, hid]
  refine ⟨fun h => ?_, fun h => ?_⟩
  -- the type comes back as the replacement character
  · have hdoc := Option.some.inj (Except.ok.inj (List.cons.inj h).1)
    have hfield := Value.text.inj (Option.some.inj (congrFun hdoc typeField))
    exact absurd hfield (by decide)
  -- the id comes back under the replacement character, and the name that was asked for is not there
  · have hdoc := Option.some.inj (Except.ok.inj (List.cons.inj h).1)
    have hfield : (none : Option Value) = some _ := congrFun hdoc [0xFF]
    cases hfield

end Service
end DocFilter
