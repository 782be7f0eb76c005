import DocFilter.Service.World
import DocFilter.Proofs.Tables

/-!
The operations of a service on single documents, step by step. Each operation is one program: it
reads, it may write, and it reads again. The equations here show the programs as trees, so that they
can be run to the end against one store or one step at a time beside each other.
-/

set_option autoImplicit false

namespace DocFilter

/-! ## The store -/

namespace Store

/-- What is put under a key is found there, and all else is found as before. A key that is there already
keeps its place, and a new one goes to the end. -/
theorem find?_put (store : Store) (key raw key' : Text) :
    (store.put key raw).find? key' = if key' = key then some raw else store.find? key' := by
  induction store with
  | nil =>
    show List.lookup key' [(key, raw)] = _
    rw [List.lookup_cons]
    by_cases h : key' = key
    · simp [h]
    · rw [beq_false_of_ne h, if_neg h]
      rfl
  | cons e rest ih =>
    obtain ⟨k, old⟩ := e
    unfold find? at ih ⊢
    rw [put]
    by_cases hk : k = key
    · subst hk
      rw [if_pos (by simp), List.lookup_cons, List.lookup_cons]
      by_cases h : key' = k
      · simp [h]
      · rw [beq_false_of_ne h, if_neg h]
    -- the key is looked for further on
    · rw [if_neg (by simpa using hk), List.lookup_cons, List.lookup_cons, ih]
      by_cases h : key' = k
      · subst h
        rw [if_neg hk, if_neg hk]
      · rw [beq_false_of_ne h]

/-- What is erased is not found, and all else is found as before. All entries with the key go, so none of
them comes to light. -/
theorem find?_erase (store : Store) (key key' : Text) :
    (store.erase key).find? key' = if key' = key then none else store.find? key' := by
  induction store with
  | nil => simp [erase, find?]
  | cons e rest ih =>
    obtain ⟨k, old⟩ := e
    unfold find? erase at ih ⊢
    rw [List.filter_cons]
    by_cases hk : k = key
    · subst hk
      rw [if_neg (by simp), ih, List.lookup_cons]
      by_cases h : key' = k
      · rw [if_pos h, if_pos h]
      · rw [if_neg h, if_neg h, beq_false_of_ne h]
    · rw [if_pos (by simpa using hk), List.lookup_cons, List.lookup_cons, ih]
      by_cases h : key' = k
      · subst h
        rw [if_neg hk, if_neg hk]
      · rw [beq_false_of_ne h]

/-- Reading a key is finding its text; a key without one is reported as missing. -/
theorem get_eq (store : Store) (key : Text) :
    store.get key = match store.find? key with
      | some raw => .ok raw
      | none => .error .keyNotFound := rfl

end Store

/-! ## Programs of the operations -/

namespace Service

theorem key_inj {s : Service} {id id' : Text} : s.key id = s.key id' ↔ id = id' := by
  simp [key]

/-- What an answer of the store reads as. -/
def reading : Except BackendError Text → Except ServiceError (Option Row)
  | .error e => .error (.ofBackend e)
  | .ok raw => (Row.decode raw).mapError .unreadable

theorem reading_ok {raw : Text} {row : Option Row} (h : Row.decode raw = .ok row) :
    reading (.ok raw) = .ok row := by
  rw [reading, h]
  rfl

/-- The document that a patch writes. -/
def patched (s : Service) (doc : Row) (data : Option Row) : Row :=
  (doc.merge (data.getD [])).set typeField (.text s.name)

/-- The entry of the log for an operation on a document. -/
def entry (s : Service) (message id : Text) (attributes : List (Text × Text)) : LogEntry :=
  ⟨.info, message, (Text.ofString "service", s.name) :: (Text.ofString "id", id) :: attributes⟩

/-- The entry of the log for a patch. -/
def patchedEntry (s : Service) (id : Text) (data : Option Row) : LogEntry :=
  s.entry "patched" id [(Text.ofString "fields", Text.ofNat (data.getD []).length)]

/-- The program that ends with the reading of a document. -/
def finish (s : Service) (id : Text) : ServiceTask (Except ServiceError (Option Row)) :=
  .ask (.get (s.key id)) fun answer => .done (reading answer)

theorem get_run (s : Service) (id : Text) : (s.get id).run = s.finish id := by
  refine congrArg (Program.ask _) (funext fun answer => ?_)
  cases answer with
  | error e => rfl
  | ok raw =>
    dsimp only [reading, Program.andThen, pure, Except.mapError, ExceptT.bindCont]
    cases Row.decode raw <;> rfl

/-- The end of a patch whose document is written as `raw`. -/
def writePatched (s : Service) (id : Text) (data : Option Row) (raw : Text) :
    ServiceTask (Except ServiceError (Option Row)) :=
  .ask (.replace (s.key id) raw) fun
    | .error e => .done (.error (.ofBackend e))
    | .ok () => .ask (.log (s.patchedEntry id data)) fun _ => s.finish id

/-- A patch after its document has been read. -/
def writeBack (s : Service) (id : Text) (data : Option Row) :
    Except ServiceError (Option Row) → ServiceTask (Except ServiceError (Option Row))
  | .error e => .done (.error e)
  | .ok none => .done (.error .noDocument)
  | .ok (some doc) =>
    match Row.encode (some (s.patched doc data)) with
    | .error e => .done (.error (.badRequest (.encode e)))
    | .ok raw => s.writePatched id data raw

/-- Patching reads the document, and what it does then depends on what was read: an error is handed on, and
a document is encoded with the changes, written, logged and read again. -/
theorem patch_run (s : Service) (id : Text) (data : Option Row) :
    (s.patch id data).run = .ask (.get (s.key id)) fun answer => s.writeBack id data (reading answer) := by
  have hget : (s.patch id data).run = (s.get id).run.andThen (s.writeBack id data) := by
    refine congrArg (Program.andThen _) (funext fun r => ?_)
    rcases r with e | doc
    · rfl
    · cases doc with
      | none => rfl
      | some doc =>
        show ExceptT.run (encode (s.patched doc data) >>= fun raw => _) = _
        unfold encode writeBack
        dsimp only
        -- what cannot be encoded is not written
        cases Row.encode (some (s.patched doc data)) with
        | error e => rfl
        | ok raw =>
          refine congrArg (Program.ask _) (funext fun answer => ?_)
          cases answer with
          | error e => rfl
          | ok done => exact congrArg (Program.ask _) (funext fun _ => s.get_run id)
  rw [hget, get_run]
  rfl

/-- A removal after its document has been read. -/
def erase (s : Service) (id : Text) :
    Except ServiceError (Option Row) → ServiceTask (Except ServiceError (Option Row))
  | .error e => .done (.error e)
  | .ok doc =>
    .ask (.remove (s.key id)) fun
      | .error e => .done (.error (.ofBackend e))
      | .ok () => .ask (.log (s.entry "removed" id [])) fun _ => .done (.ok doc)

theorem remove_run (s : Service) (id : Text) :
    (s.remove id).run = .ask (.get (s.key id)) fun answer => s.erase id (reading answer) := by
  have hget : (s.remove id).run = (s.get id).run.andThen (s.erase id) := by
    refine congrArg (Program.andThen _) (funext fun r => ?_)
    cases r with
    | error e => rfl
    | ok doc =>
      refine congrArg (Program.ask _) (funext fun answer => ?_)
      cases answer <;> rfl
  rw [hget, get_run]
  rfl

/-- A creation after its document has been given its id. -/
def writeNew (s : Service) (id : Text) (doc : Row) : ServiceTask (Except ServiceError (Option Row)) :=
  match Row.encode (some doc) with
  | .error e => .done (.error (.badRequest (.encode e)))
  | .ok raw =>
    .ask (.insert (s.key id) raw) fun
      | .error e => .done (.error (.ofBackend e))
      | .ok () => .ask (.log (s.entry "created" id [])) fun _ => s.finish id

/-- The last part of creating a document as a tree of what it asks for: the insertion, an entry in the log,
and the document as it is read back. -/
theorem writeNew_eq (s : Service) (id : Text) (doc : Row) :
    ExceptT.run (do
      let raw ← encode doc
      tryTo (Effect.ask (.insert (s.key id) raw))
      s.log .info "created" [("id", id)]
      s.get id) = s.writeNew id doc := by
  unfold encode writeNew
  cases Row.encode (some doc) with
  | error e => rfl
  | ok raw =>
    refine congrArg (Program.ask _) (funext fun answer => ?_)
    cases answer with
    | error e => rfl
    | ok done => exact congrArg (Program.ask _) (funext fun _ => s.get_run id)

/-- A document that has an id is created under it, whatever kind of value it is. It is stored with the
value, and under the text of the value. -/
theorem create_run_given {s : Service} {data : Row} {v : Value}
    (h : (data.set typeField (.text s.name)).get? s.idField = some v) (hv : v ≠ .null) :
    (s.create (some data)).run = s.writeNew (idText v) (data.set typeField (.text s.name)) := by
  have hidentify : s.identify (data.set typeField (.text s.name))
      = .done (idText v, data.set typeField (.text s.name)) := by
    unfold identify
    rw [h]
    cases v <;> first | rfl | exact absurd rfl hv
  rw [← writeNew_eq]
  show ExceptT.run (liftM (s.identify (data.set typeField (.text s.name))) >>= fun r => _) = _
  rw [hidentify]
  rfl

/-- A document without an id is given a fresh one, which is asked for first and set into the document. Null
counts as no id. -/
theorem create_run_fresh {s : Service} {data : Row}
    (h : (data.set typeField (.text s.name)).get? s.idField = none ∨
      (data.set typeField (.text s.name)).get? s.idField = some .null) :
    (s.create (some data)).run = .ask .freshId fun id =>
      s.writeNew id ((data.set typeField (.text s.name)).set s.idField (.text id)) := by
  have hidentify : s.identify (data.set typeField (.text s.name))
      = .ask .freshId fun id => .done (id, (data.set typeField (.text s.name)).set s.idField (.text id)) := by
    unfold identify
    rcases h with h | h <;> rw [h] <;> rfl
  show ExceptT.run (liftM (s.identify (data.set typeField (.text s.name))) >>= fun r => _) = _
  rw [hidentify]
  exact congrArg (Program.ask _) (funext fun id => s.writeNew_eq id _)

end Service
end DocFilter
