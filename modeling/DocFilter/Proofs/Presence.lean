import DocFilter.Proofs.DocumentMap
import DocFilter.Proofs.Interleaving

/-!
Creating and removing beside each other. Whoever creates a document inserts it in one step, and that
step tells apart whether the document was there; the same goes for removing. So of several calls that
want to create the same document one succeeds, and the others hear of the conflict.

A call changes the store in one step at most, and after a step that was refused it is done
(`Disciplined`). The history of an interleaving records these steps. At every moment it has as many
successful insertions under a key as removals, and one more while the key is taken
(`Orderly.balance`); as no call has two entries in the history, the calls can be counted instead.
Main result: `Service.creation_exclusive`.
-/

set_option autoImplicit false

namespace DocFilter

/-! ## Changes of the store -/

namespace Effect

/-- The change of the store that an effect asks for, with its key. -/
def change? : Effect → Option (StoreOperation × Text)
  | .insert key _ => some (.insert, key)
  | .replace key _ => some (.replace, key)
  | .remove key => some (.remove, key)
  | .get _ | .query _ | .log _ | .freshId => none

/-- The error with which a change of the store is refused. -/
def refusal? : (e : Effect) → e.Answer → Option BackendError
  | .insert _ _, .error x => some x
  | .replace _ _, .error x => some x
  | .remove _, .error x => some x
  | _, _ => none

end Effect

namespace World

/-- There is a document under a key. -/
def has (w : World) (key : Text) : Bool := (w.store.find? key).isSome

/-- The store keeps to its contract: nothing fails but for the keys. -/
def Faultless (w : World) : Prop := ∀ op, w.fault op = none

variable {w : World} {e : Effect} {key : Text}

/-- Without faults a step on the store is the step of the store, and the rest of the surroundings stays. -/
theorem change_faultless (hw : w.Faultless) (op : StoreOperation)
    (f : Store → Except BackendError Unit × Store) :
    w.change op f = ((f w.store).1, { w with store := (f w.store).2 }) := by
  unfold change
  rw [hw op]

/-- Inserting succeeds exactly if the key is free, and else changes nothing. Whether the document was there
is decided in the step itself. -/
theorem insert_eq (hw : w.Faultless) (key raw : Text) :
    answer (.insert key raw) w = if w.has key then (.error .keyExists, w)
      else (.ok (), { w with store := w.store.put key raw }) := by
  refine (change_faultless hw .insert (·.insert key raw)).trans ?_
  unfold Store.insert has
  cases w.store.find? key <;> rfl

/-- Replacing succeeds exactly if the key is taken, and else changes nothing. -/
theorem replace_eq (hw : w.Faultless) (key raw : Text) :
    answer (.replace key raw) w = if w.has key then (.ok (), { w with store := w.store.put key raw })
      else (.error .keyNotFound, w) := by
  refine (change_faultless hw .replace (·.replace key raw)).trans ?_
  unfold Store.replace has
  cases w.store.find? key <;> rfl

/-- Removing succeeds exactly if the key is taken, and else changes nothing. -/
theorem remove_eq (hw : w.Faultless) (key : Text) :
    answer (.remove key) w = if w.has key then (.ok (), { w with store := w.store.erase key })
      else (.error .keyNotFound, w) := by
  refine (change_faultless hw .remove (·.remove key)).trans ?_
  unfold Store.remove has
  cases w.store.find? key <;> rfl

/-- After a document was put under a key, that key is taken, and all others are as before. -/
theorem has_put (w : World) (key raw k : Text) :
    ({ w with store := w.store.put key raw } : World).has k = (w.has k || k == key) := by
  unfold has
  by_cases hk : k = key <;> simp [hk, Store.find?_put]

/-- After a key was erased it is free, and all others are as before. -/
theorem has_erase (w : World) (key k : Text) :
    ({ w with store := w.store.erase key } : World).has k = (w.has k && k != key) := by
  unfold has
  by_cases hk : k = key <;> simp [hk, Store.find?_erase]

/-- No answer brings a fault about: a store that keeps to its contract goes on doing so, whatever it is
asked. -/
theorem Faultless.answer (hw : w.Faultless) (e : Effect) : (World.answer e w).2.Faultless := by
  cases e with
  | get k =>
    intro op
    unfold World.answer
    dsimp only
    rw [hw .get]
    exact hw op
  | insert k raw =>
    rw [insert_eq hw]
    split_ifs <;> exact hw
  | replace k raw =>
    rw [replace_eq hw]
    split_ifs <;> exact hw
  | remove k =>
    rw [remove_eq hw]
    split_ifs <;> exact hw
  | query | log | freshId => exact hw

/-- A step that does not change the store leaves every key as taken or as free as it was. -/
theorem has_of_unchanging (hw : w.Faultless) (h : e.change? = none) (k : Text) :
    (World.answer e w).2.has k = w.has k := by
  cases e with
  | get key' =>
    unfold World.answer
    dsimp only
    rw [hw .get]
  | insert | replace | remove => cases h
  | query | log | freshId => rfl

/-- Inserting succeeds under a free key, and the key is taken afterwards, also if the insertion was refused
because it had been taken. -/
theorem answer_insert (hw : w.Faultless) (h : e.change? = some (.insert, key)) :
    e.refusal? (World.answer e w).1 = (if w.has key then some .keyExists else none) ∧
      ∀ k, (World.answer e w).2.has k = (w.has k || k == key) := by
  cases e with
  | insert key' raw =>
    cases h
    rw [insert_eq hw]
    by_cases hkey : w.has key = true
    · rw [if_pos hkey, if_pos hkey]
      refine ⟨rfl, fun k => ?_⟩
      by_cases hk : k = key <;> simp [hk, hkey]
    · rw [if_neg hkey, if_neg hkey]
      exact ⟨rfl, has_put w key raw⟩
  | get | replace | remove | query | log | freshId => cases h

/-- Replacing succeeds under a key that is taken, and no key is freed or taken by it. Under a free key it is
refused. -/
theorem answer_replace (hw : w.Faultless) (h : e.change? = some (.replace, key)) :
    e.refusal? (World.answer e w).1 = (if w.has key then none else some .keyNotFound) ∧
      ∀ k, (World.answer e w).2.has k = w.has k := by
  cases e with
  | replace key' raw =>
    cases h
    rw [replace_eq hw]
    by_cases hkey : w.has key = true
    · rw [if_pos hkey, if_pos hkey]
      refine ⟨rfl, fun k => (has_put w key raw k).trans ?_⟩
      by_cases hk : k = key <;> simp [hk, hkey]
    · rw [if_neg hkey, if_neg hkey]
      exact ⟨rfl, fun k => rfl⟩
  | get | insert | remove | query | log | freshId => cases h

/-- Removing succeeds under a key that is taken, and the key is free afterwards in any case. No other key is
freed or taken. -/
theorem answer_remove (hw : w.Faultless) (h : e.change? = some (.remove, key)) :
    e.refusal? (World.answer e w).1 = (if w.has key then none else some .keyNotFound) ∧
      ∀ k, (World.answer e w).2.has k = (w.has k && k != key) := by
  cases e with
  | remove key' =>
    cases h
    rw [remove_eq hw]
    by_cases hkey : w.has key = true
    · rw [if_pos hkey, if_pos hkey]
      exact ⟨rfl, has_erase w key⟩
    · rw [if_neg hkey, if_neg hkey]
      refine ⟨rfl, fun k => ?_⟩
      by_cases hk : k = key <;> simp [hk, hkey]
  | get | insert | replace | query | log | freshId => cases h

end World

/-! ## Calls that change the store once -/

/-- A program that leaves the store as it is. -/
inductive ReadsOnly : ServiceTask (Except ServiceError (Option Row)) → Prop
  | done (a : Except ServiceError (Option Row)) : ReadsOnly (.done a)
  | ask {op : Effect} {next : op.Answer → ServiceTask (Except ServiceError (Option Row))} :
      op.change? = none → (∀ a, ReadsOnly (next a)) → ReadsOnly (.ask op next)

/-- A program that changes the store by one kind of operation, at most once. If the store refuses, it
ends with the error. -/
inductive Disciplined (kind : Option StoreOperation) :
    ServiceTask (Except ServiceError (Option Row)) → Prop
  | done (a : Except ServiceError (Option Row)) : Disciplined kind (.done a)
  | ask {op : Effect} {next : op.Answer → ServiceTask (Except ServiceError (Option Row))} :
      op.change? = none → (∀ a, Disciplined kind (next a)) → Disciplined kind (.ask op next)
  | change {op : Effect} {next : op.Answer → ServiceTask (Except ServiceError (Option Row))}
      (operation : StoreOperation) (key : Text) : op.change? = some (operation, key) →
      kind = some operation → (∀ a, ReadsOnly (next a)) →
      (∀ a x, op.refusal? a = some x → next a = .done (.error (.ofBackend x))) →
      Disciplined kind (.ask op next)

/-- A call that only reads keeps the discipline of every kind, as it never makes the step in question. -/
theorem ReadsOnly.disciplined {p : ServiceTask (Except ServiceError (Option Row))} (h : ReadsOnly p)
    (kind : Option StoreOperation) : Disciplined kind p := by
  induction h with
  | done a => exact .done a
  | ask hop _ ih => exact .ask hop ih

namespace Request

/-- The change of the store that a request makes. -/
def changes : Request → Option StoreOperation
  | .create _ => some .insert
  | .patch _ _ | .update _ _ => some .replace
  | .remove _ => some .remove
  | .get _ => none

/-- The request creates a document. -/
def isCreate : Request → Bool
  | .create _ => true
  | _ => false

/-- The request removes a document. -/
def isRemove : Request → Bool
  | .remove _ => true
  | _ => false

/-- The request is a patch or an update. -/
def isEdit : Request → Bool
  | .patch _ _ | .update _ _ => true
  | _ => false

end Request

namespace Service

theorem readsOnly_finish (s : Service) (id : Text) : ReadsOnly (s.finish id) :=
  .ask rfl fun answer => .done (reading answer)

/-- Creating a document makes one insertion, and is done if this is refused; what follows a success only
reads. -/
theorem disciplined_writeNew (s : Service) (id : Text) (doc : Row) :
    Disciplined (some .insert) (s.writeNew id doc) := by
  unfold writeNew
  cases Row.encode (some doc) with
  | error e => exact .done _
  | ok raw =>
    -- one goal for what follows the insertion, and one for the end after a refusal
    refine .change .insert (s.key id) rfl rfl (fun a => ?_) (fun a x hx => ?_)
    · cases a with
      | error e => exact .done _
      | ok done => exact .ask rfl fun _ => s.readsOnly_finish id
    · cases a with
      | error e =>
        cases hx
        rfl
      | ok done => cases hx

/-- Writing an edited document makes one replacement, and is done if this is refused; a document that was
not found or cannot be encoded is not written at all. -/
theorem disciplined_writeBack (s : Service) (id : Text) (data : Option Row)
    (found : Except ServiceError (Option Row)) :
    Disciplined (some .replace) (s.writeBack id data found) := by
  unfold writeBack
  split
  · exact .done _
  · exact .done _
  · split
    · exact .done _
    · refine .change .replace (s.key id) rfl rfl (fun a => ?_) (fun a x hx => ?_)
      · cases a with
        | error e => exact .done _
        | ok done => exact .ask rfl fun _ => s.readsOnly_finish id
      · cases a with
        | error e =>
          cases hx
          rfl
        | ok done => cases hx

/-- Removing a document makes one removal, and is done if this is refused; after a success there is only an
entry in the log. -/
theorem disciplined_erase (s : Service) (id : Text) (found : Except ServiceError (Option Row)) :
    Disciplined (some .remove) (s.erase id found) := by
  unfold erase
  split
  · exact .done _
  · refine .change .remove (s.key id) rfl rfl (fun a => ?_) (fun a x hx => ?_)
    · cases a with
      | error e => exact .done _
      | ok done => exact .ask rfl fun _ => .done _
    · cases a with
      | error e =>
        cases hx
        rfl
      | ok done => cases hx

/-- Every request changes the store once at most, by its own operation. -/
theorem disciplined_task (s : Service) (q : Request) : Disciplined q.changes (q.task s).run := by
  cases q with
  | create data =>
    cases data with
    | none => exact .done _
    | some data =>
      show Disciplined (some .insert) (s.create (some data)).run
      cases hid : (data.set typeField (.text s.name)).get? s.idField with
      | none =>
        rw [create_run_fresh (.inl hid)]
        exact .ask rfl fun id => s.disciplined_writeNew id _
      | some v =>
        by_cases hv : v = .null
        · subst hv
          rw [create_run_fresh (.inr hid)]
          exact .ask rfl fun id => s.disciplined_writeNew id _
        · rw [create_run_given hid hv]
          exact s.disciplined_writeNew _ _
  | get id =>
    show Disciplined none (s.get id).run
    rw [get_run]
    exact (s.readsOnly_finish id).disciplined none
  | patch id data | update id data =>
    -- The document that was read may be gone by the time of the write: replacing tells.
    show Disciplined (some .replace) (s.patch id data).run
    rw [patch_run]
    exact .ask rfl fun answer => s.disciplined_writeBack id data (reading answer)
  | remove id =>
    show Disciplined (some .remove) (s.remove id).run
    rw [remove_run]
    exact .ask rfl fun answer => s.disciplined_erase id (reading answer)

end Service

/-! ## Histories -/

/-- A step that asks to change the store. -/
structure StoreEvent (n : Nat) where
  task : Fin n
  operation : StoreOperation
  key : Text
  /-- There was a document under the key before the step. -/
  found : Bool
  succeeded : Bool
  deriving DecidableEq

/-- The step has changed the store by an operation on a key. -/
def StoreEvent.did {n : Nat} (e : StoreEvent n) (operation : StoreOperation) (key : Text) : Bool :=
  decide (e.operation = operation ∧ e.key = key ∧ e.succeeded = true)

namespace Race

variable {n : Nat}

/-- The record of the next step of a task, if the step asks to change the store. -/
def event? (r : Race n) (i : Fin n) : Option (StoreEvent n) :=
  match r.tasks i with
  | .done _ => none
  | .ask op _ => op.change?.map fun c =>
      ⟨i, c.1, c.2, r.world.has c.2, (op.refusal? (World.answer op r.world).1).isNone⟩

/-- The steps of a schedule that ask to change the store, in order. -/
def history (r : Race n) : List (Fin n) → List (StoreEvent n)
  | [] => []
  | i :: rest => (r.event? i).toList ++ history (r.step i) rest

end Race

/-! ## What every interleaving keeps -/

/-- How the history of an interleaving of requests fits to where it stands. -/
structure Orderly {n : Nat} (requests : Fin n → Request) (r : Race n) (past : List (StoreEvent n)) :
    Prop where
  faultless : r.world.Faultless
  /-- No request changes the store twice. -/
  distinct : (past.map StoreEvent.task).Nodup
  /-- A request that is not in the history has its change ahead. -/
  ahead : ∀ i ∉ past.map StoreEvent.task, Disciplined (requests i).changes (r.tasks i)
  /-- A request that is in the history has its change behind. -/
  behind : ∀ e ∈ past, ReadsOnly (r.tasks e.task)
  changes : ∀ e ∈ past, (requests e.task).changes = some e.operation
  insertion : ∀ e ∈ past, e.operation = .insert → e.succeeded = !e.found ∧
    (e.found = true → r.tasks e.task = .done (.error (.conflict .keyExists)))
  removal : ∀ e ∈ past, e.operation = .remove → e.succeeded = e.found ∧
    (e.found = false → r.tasks e.task = .done (.error (.notFound .keyNotFound)))
  /-- A key is taken while one more document was inserted under it than removed. -/
  balance : ∀ key, past.countP (·.did .insert key) =
    past.countP (·.did .remove key) + (r.world.has key).toNat

section Steps

variable {n : Nat} {requests : Fin n → Request} {r : Race n} {past : List (StoreEvent n)} {i : Fin n}
  {op : Effect} {next : op.Answer → ServiceTask (Except ServiceError (Option Row))}

namespace Race

/-- A task that is done makes no entry in the history. -/
theorem event?_done {a : Except ServiceError (Option Row)} (h : r.tasks i = .done a) :
    r.event? i = none := by
  unfold event?
  rw [h]

/-- A step that changes the store makes an entry: who made it, of which kind, under which key, whether the
key was taken, and whether the step succeeded. -/
theorem event?_ask (h : r.tasks i = .ask op next) :
    r.event? i = op.change?.map fun c =>
      ⟨i, c.1, c.2, r.world.has c.2, (op.refusal? (World.answer op r.world).1).isNone⟩ := by
  unfold event?
  rw [h]

/-- An entry in the history comes from a task that asks to change the store. -/
theorem event?_eq_some {e : StoreEvent n} (he : r.event? i = some e) :
    ∃ op next operation key, r.tasks i = .ask op next ∧ op.change? = some (operation, key) ∧
      e = ⟨i, operation, key, r.world.has key, (op.refusal? (World.answer op r.world).1).isNone⟩ := by
  cases hi : r.tasks i with
  | done a =>
    rw [event?_done hi] at he
    cases he
  | ask op next =>
    rw [event?_ask hi] at he
    obtain ⟨⟨operation, key⟩, hc, rfl⟩ := Option.map_eq_some_iff.mp he
    exact ⟨op, next, operation, key, rfl, hc, rfl⟩

/-- The task that makes a step goes on with the answer. -/
theorem tasks_step_self (h : r.tasks i = .ask op next) :
    (r.step i).tasks i = next (World.answer op r.world).1 := by
  rw [step_ask h]
  exact if_pos rfl

theorem tasks_step_of_ne {j : Fin n} (h : j ≠ i) : (r.step i).tasks j = r.tasks j := by
  cases hi : r.tasks i with
  | done a => rw [step_done hi]
  | ask op next =>
    rw [step_ask hi]
    exact if_neg h

/-- The surroundings after a step are those that the answer leaves. -/
theorem world_step (h : r.tasks i = .ask op next) :
    (r.step i).world = (World.answer op r.world).2 := by
  rw [step_ask h]

/-- What is done is not undone by further steps. -/
theorem tasks_step_of_done {j : Fin n} {a : Except ServiceError (Option Row)}
    (h : r.tasks j = .done a) : (r.step i).tasks j = .done a := by
  by_cases hj : j = i
  · subst hj
    rw [step_done h, h]
  · rw [tasks_step_of_ne hj, h]

/-- A step takes or frees a key as its entry in the history has it. Written as a balance: what was there and
what was inserted is what was removed and what is there. -/
theorem has_step (hw : r.world.Faultless) {e : StoreEvent n} (he : r.event? i = some e) (k : Text) :
    (e.did .insert k).toNat + (r.world.has k).toNat =
      (e.did .remove k).toNat + ((r.step i).world.has k).toNat := by
  obtain ⟨op, next, operation, key, hi, hc, rfl⟩ := event?_eq_some he
  rw [world_step hi]
  unfold StoreEvent.did
  dsimp only
  cases operation with
  | get => cases op <;> cases hc
  -- under another key nothing changes, and under this one it depends on whether the key was taken
  | insert =>
    obtain ⟨hrefusal, hhas⟩ := World.answer_insert hw hc
    rw [hrefusal, hhas k]
    by_cases hk : k = key
    · subst hk
      cases r.world.has k <;> simp
    · simp [Ne.symm hk, beq_false_of_ne hk]
  | replace =>
    rw [(World.answer_replace hw hc).2 k]
    simp
  | remove =>
    obtain ⟨hrefusal, hhas⟩ := World.answer_remove hw hc
    rw [hrefusal, hhas k]
    by_cases hk : k = key
    · subst hk
      cases r.world.has k <;> simp
    · simp [Ne.symm hk, bne, beq_false_of_ne hk]

/-- A step without an entry in the history takes and frees no key. -/
theorem has_step_of_event?_eq_none (hw : r.world.Faultless) (he : r.event? i = none) (k : Text) :
    (r.step i).world.has k = r.world.has k := by
  cases hi : r.tasks i with
  | done a => rw [step_done hi]
  | ask op next =>
    rw [event?_ask hi] at he
    rw [world_step hi]
    exact World.has_of_unchanging hw (Option.map_eq_none_iff.mp he) k

theorem faultless_step (hw : r.world.Faultless) (i : Fin n) : (r.step i).world.Faultless := by
  cases hi : r.tasks i with
  | done a =>
    rw [step_done hi]
    exact hw
  | ask op next =>
    rw [world_step hi]
    exact hw.answer op

end Race

namespace Orderly

/-- A step that leaves the store as it is keeps the invariant. The request that takes it stays ahead of its
change or behind it, and the others are not touched. -/
theorem step_quiet (h : Orderly requests r past) (he : r.event? i = none) :
    Orderly requests (r.step i) past := by
  refine ⟨Race.faultless_step h.faultless i, h.distinct, fun j hj => ?_, fun e hpast => ?_, h.changes,
    fun e hpast hop => (h.insertion e hpast hop).imp_right fun hends hfound =>
      Race.tasks_step_of_done (hends hfound),
    fun e hpast hop => (h.removal e hpast hop).imp_right fun hends hfound =>
      Race.tasks_step_of_done (hends hfound), fun key => ?_⟩
  -- requests that have not made their change
  · by_cases hji : j = i
    · subst hji
      cases hi : r.tasks j with
      | done a =>
        rw [Race.step_done hi]
        exact h.ahead j hj
      | ask op next =>
        rw [Race.tasks_step_self hi]
        rw [Race.event?_ask hi] at he
        have hahead := h.ahead j hj
        rw [hi] at hahead
        cases hahead with
        | ask _ hnext => exact hnext _
        | change operation key hc =>
          rw [hc] at he
          cases he
    · rw [Race.tasks_step_of_ne hji]
      exact h.ahead j hj
  -- requests that have made it, and only read from then on
  · have hbehind := h.behind e hpast
    by_cases hei : e.task = i
    · cases hi : r.tasks i with
      | done a =>
        rw [Race.step_done hi]
        exact hbehind
      | ask op next =>
        rw [hei, hi] at hbehind
        rw [hei, Race.tasks_step_self hi]
        cases hbehind with
        | ask _ hnext => exact hnext _
    · rw [Race.tasks_step_of_ne hei]
      exact hbehind
  · rw [Race.has_step_of_event?_eq_none h.faultless he]
    exact h.balance key

/-- A request with an entry in the history makes no second one. -/
theorem not_mem_of_event? (h : Orderly requests r past) {e : StoreEvent n} (he : r.event? i = some e) :
    i ∉ past.map StoreEvent.task := by
  intro hmem
  obtain ⟨e', hpast, rfl⟩ := List.mem_map.mp hmem
  obtain ⟨op, next, operation, key, hi, hc, -⟩ := Race.event?_eq_some he
  -- Its change is behind, so it only reads from here on.
  have hbehind := h.behind e' hpast
  rw [hi] at hbehind
  cases hbehind with
  | ask hop _ =>
    rw [hop] at hc
    cases hc

/-- What a step with an entry in the history does to its own request: it makes the one change that this kind
of request makes, only reads from then on, and ends with an error if the change is refused. -/
theorem event?_spec (h : Orderly requests r past) {e : StoreEvent n} (he : r.event? i = some e) :
    e.task = i ∧ (requests i).changes = some e.operation ∧ ReadsOnly ((r.step i).tasks i) ∧
      (e.operation = .insert → e.succeeded = !e.found ∧
        (e.found = true → (r.step i).tasks i = .done (.error (.conflict .keyExists)))) ∧
      (e.operation = .remove → e.succeeded = e.found ∧
        (e.found = false → (r.step i).tasks i = .done (.error (.notFound .keyNotFound)))) := by
  have hahead := h.ahead i (h.not_mem_of_event? he)
  obtain ⟨op, next, operation, key, hi, hc, rfl⟩ := Race.event?_eq_some he
  rw [hi] at hahead
  rw [Race.tasks_step_self hi]
  cases hahead with
  -- a step that changes the store is no mere reading
  | ask hop _ =>
    rw [hop] at hc
    cases hc
  | change operation' key' hc' hkind hreads hends =>
    rw [hc] at hc'
    cases hc'
    -- an insertion is refused if it finds the key taken, and a removal if it finds it free
    refine ⟨rfl, hkind, hreads _, ?_, ?_⟩
    · intro hop
      subst hop
      have hrefusal := (World.answer_insert h.faultless hc).1
      refine ⟨?_, fun hfound => hends _ .keyExists (hrefusal.trans (if_pos hfound))⟩
      rw [hrefusal]
      cases r.world.has key <;> rfl
    · intro hop
      subst hop
      have hrefusal := (World.answer_remove h.faultless hc).1
      refine ⟨?_, fun hfound =>
        hends _ .keyNotFound (hrefusal.trans (if_neg (ne_true_of_eq_false hfound)))⟩
      rw [hrefusal]
      cases r.world.has key <;> rfl

/-- A step that asks to change the store keeps the invariant, with its entry added to the history. The
request had no entry before, and only reads from then on. -/
theorem step_event (h : Orderly requests r past) {e : StoreEvent n} (he : r.event? i = some e) :
    Orderly requests (r.step i) (past ++ [e]) := by
  have hnew := h.not_mem_of_event? he
  obtain ⟨hself, hkind, hreads, hinsertion, hremoval⟩ := h.event?_spec he
  have hother : ∀ e' ∈ past, (r.step i).tasks e'.task = r.tasks e'.task := by
    intro e' he'
    apply Race.tasks_step_of_ne
    rintro rfl
    exact hnew (List.mem_map_of_mem he')
  -- Every property of the entries holds of the old ones by `hother`, and of the new one by its spec.
  refine ⟨Race.faultless_step h.faultless i, ?_, ?_, ?_, ?_, ?_, ?_, ?_⟩
  · rw [List.map_append, List.nodup_append]
    refine ⟨h.distinct, by simp, ?_⟩
    rintro j hj k hk rfl
    rw [List.map_singleton, List.mem_singleton] at hk
    exact hnew (hself ▸ hk ▸ hj)
  · intro j hj
    rw [List.map_append, List.map_singleton, List.mem_append, List.mem_singleton, not_or, hself] at hj
    rw [Race.tasks_step_of_ne hj.2]
    exact h.ahead j hj.1
  · simp only [List.forall_mem_append, List.forall_mem_singleton, hself]
    refine ⟨fun e' he' => ?_, hreads⟩
    rw [hother e' he']
    exact h.behind e' he'
  · simp only [List.forall_mem_append, List.forall_mem_singleton, hself]
    exact ⟨h.changes, hkind⟩
  · simp only [List.forall_mem_append, List.forall_mem_singleton, hself]
    refine ⟨fun e' he' hop => ?_, hinsertion⟩
    rw [hother e' he']
    exact h.insertion e' he' hop
  · simp only [List.forall_mem_append, List.forall_mem_singleton, hself]
    refine ⟨fun e' he' hop => ?_, hremoval⟩
    rw [hother e' he']
    exact h.removal e' he' hop
  · intro key
    have hbefore := h.balance key
    have hhas := Race.has_step h.faultless he key
    have hentry : ∀ operation, [e].countP (·.did operation key) = (e.did operation key).toNat := by
      intro operation
      cases hdid : e.did operation key <;> simp [hdid]
    rw [List.countP_append, List.countP_append, hentry, hentry]
    omega

/-- One step of an interleaving keeps the order. -/
theorem step (h : Orderly requests r past) (i : Fin n) :
    Orderly requests (r.step i) (past ++ (r.event? i).toList) := by
  cases he : r.event? i with
  | none =>
    rw [Option.toList_none, List.append_nil]
    exact h.step_quiet he
  | some e => exact h.step_event he

/-- Every interleaving keeps the order. The induction is on the schedule, and each step is one with an entry
in the history or one without. -/
theorem run (h : Orderly requests r past) (schedule : List (Fin n)) :
    Orderly requests (r.run schedule) (past ++ r.history schedule) := by
  induction schedule generalizing r past with
  | nil =>
    rw [Race.history, List.append_nil]
    exact h
  | cons i rest ih =>
    rw [Race.history, ← List.append_assoc]
    exact ih (h.step i)

/-- A free key is taken only by the insertion of a creation. Nothing else in the balance of a step makes a
free key a taken one. -/
theorem created_of_step (h : Orderly requests r past) {key : Text} (hfree : r.world.has key = false)
    (htaken : (r.step i).world.has key = true) :
    ∃ e, r.event? i = some e ∧ (requests e.task).changes = some .insert ∧
      e.did .insert key = true := by
  cases he : r.event? i with
  | none =>
    rw [Race.has_step_of_event?_eq_none h.faultless he, hfree] at htaken
    cases htaken
  | some e =>
    have hhas := Race.has_step h.faultless he key
    rw [hfree, htaken] at hhas
    have hdid : e.did .insert key = true := by
      cases hdid : e.did .insert key with
      | true => rfl
      | false =>
        rw [hdid, Bool.toNat_false, Bool.toNat_true] at hhas
        omega
    obtain ⟨hself, hkind, -⟩ := h.event?_spec he
    refine ⟨e, rfl, ?_, hdid⟩
    rw [hself, hkind, (of_decide_eq_true hdid).1]

/-- A free key is taken later only if a creation inserts under it meanwhile. -/
theorem created_of_run (h : Orderly requests r past) {key : Text} (hfree : r.world.has key = false)
    {later : List (Fin n)} (htaken : (r.run later).world.has key = true) :
    ∃ e ∈ r.history later, (requests e.task).changes = some .insert ∧ e.did .insert key = true := by
  induction later generalizing r past with
  | nil =>
    rw [Race.run, List.foldl_nil, hfree] at htaken
    cases htaken
  | cons i rest ih =>
    -- The first step that takes the key is this one, or one of the rest.
    cases hstep : (r.step i).world.has key with
    | true =>
      obtain ⟨e, he, hcreated⟩ := h.created_of_step hfree hstep
      refine ⟨e, ?_, hcreated⟩
      rw [Race.history, he]
      exact List.mem_append_left _ (List.mem_singleton_self e)
    | false =>
      obtain ⟨e, he, hcreated⟩ := ih (h.step i) hstep htaken
      exact ⟨e, List.mem_append_right _ he, hcreated⟩

end Orderly

end Steps

/-! ## Calls that have created and removed -/

section Calls

variable {n : Nat}

/-- The calls of a kind that have changed the store by an operation on a key. -/
def callsDone (requests : Fin n → Request) (kind : Request → Bool) (past : List (StoreEvent n))
    (operation : StoreOperation) (key : Text) : Finset (Fin n) :=
  Finset.univ.filter fun i =>
    kind (requests i) = true ∧ ∃ e ∈ past, e.task = i ∧ e.did operation key = true

/-- The creations that have inserted their document under a key. -/
def created (requests : Fin n → Request) (past : List (StoreEvent n)) (key : Text) : Finset (Fin n) :=
  callsDone requests Request.isCreate past .insert key

/-- The removals that have deleted the document under a key. -/
def removed (requests : Fin n → Request) (past : List (StoreEvent n)) (key : Text) : Finset (Fin n) :=
  callsDone requests Request.isRemove past .remove key

theorem isCreate_iff (q : Request) : q.isCreate = true ↔ q.changes = some .insert := by
  cases q <;> simp [Request.isCreate, Request.changes]

theorem isRemove_iff (q : Request) : q.isRemove = true ↔ q.changes = some .remove := by
  cases q <;> simp [Request.isRemove, Request.changes]

theorem isEdit_iff (q : Request) : q.isEdit = true ↔ q.changes = some .replace := by
  cases q <;> simp [Request.isEdit, Request.changes]

/-- As no call has two entries in the history, calls and entries are counted alike: for every entry that did
something there is one call, and another one for another entry. -/
theorem Orderly.card_callsDone {requests : Fin n → Request} {r : Race n} {past : List (StoreEvent n)}
    (h : Orderly requests r past) {kind : Request → Bool} {operation : StoreOperation}
    (hkind : ∀ q, kind q = true ↔ q.changes = some operation) (key : Text) :
    (callsDone requests kind past operation key).card = past.countP (·.did operation key) := by
  have hcalls : callsDone requests kind past operation key =
      ((past.filter (·.did operation key)).map StoreEvent.task).toFinset := by
    ext i
    simp only [callsDone, Finset.mem_filter, Finset.mem_univ, true_and, List.mem_toFinset, List.mem_map,
      List.mem_filter]
    constructor
    · rintro ⟨-, e, he, htask, hdid⟩
      exact ⟨e, ⟨he, hdid⟩, htask⟩
    · rintro ⟨e, ⟨he, hdid⟩, rfl⟩
      refine ⟨(hkind _).mpr ?_, e, he, rfl, hdid⟩
      rw [h.changes e he, (of_decide_eq_true hdid).1]
  have hnodup : ((past.filter (·.did operation key)).map StoreEvent.task).Nodup :=
    h.distinct.sublist (List.filter_sublist.map StoreEvent.task)
  rw [hcalls, List.toFinset_card_of_nodup hnodup, List.length_map, List.countP_eq_length_filter]

end Calls

namespace Service

/-- Requests beside each other, before their first step. -/
def contest (s : Service) {n : Nat} (requests : Fin n → Request) (w : World) : Race n :=
  ⟨fun i => ((requests i).task s).run, w, []⟩

/-- At the beginning nothing has happened: the store is empty, and so is the history. The invariant starts
here. -/
theorem orderly_contest (s : Service) {n : Nat} (requests : Fin n → Request) {w : World}
    (hempty : w.store = []) (hw : w.Faultless) : Orderly requests (s.contest requests w) [] where
  faultless := hw
  distinct := List.nodup_nil
  ahead i _ := s.disciplined_task (requests i)
  behind e he := absurd he List.not_mem_nil
  changes e he := absurd he List.not_mem_nil
  insertion e he := absurd he List.not_mem_nil
  removal e he := absurd he List.not_mem_nil
  balance key := by
    have hfree : (s.contest requests w).world.has key = false := by
      show (w.store.find? key).isSome = false
      rw [hempty]
      rfl
    rw [hfree]
    rfl

/-- **Creating and removing exclude each other.** Requests start beside each other on an empty store
that keeps to its contract. At every moment of every interleaving, as many calls have created the
document of an id as have removed it, and one more exactly while the document is there. The insertion of
a creation fails exactly if it finds the document, and then the creation has ended with a conflict. The
deletion of a removal fails exactly if it finds none, and then the removal has ended as not found. No
patch or update brings a missing document into being, so what is missing stays missing until a creation
inserts it. -/
theorem creation_exclusive (s : Service) {n : Nat} (requests : Fin n → Request) (w : World)
    (hempty : w.store = []) (hw : w.Faultless) (schedule : List (Fin n)) (id : Text) :
    let past := (s.contest requests w).history schedule
    let now := (s.contest requests w).run schedule
    ((created requests past (s.key id)).card =
        (removed requests past (s.key id)).card + (now.world.has (s.key id)).toNat) ∧
    (∀ e ∈ past, (requests e.task).isCreate = true → e.succeeded = !e.found ∧
      (e.found = true → now.tasks e.task = .done (.error (.conflict .keyExists)))) ∧
    (∀ e ∈ past, (requests e.task).isRemove = true → e.succeeded = e.found ∧
      (e.found = false → now.tasks e.task = .done (.error (.notFound .keyNotFound)))) ∧
    (∀ i, (requests i).isEdit = true → now.world.has (s.key id) = false →
      (now.step i).world.has (s.key id) = false) ∧
    ∀ later, now.world.has (s.key id) = false → (now.run later).world.has (s.key id) = true →
      ∃ e ∈ now.history later, (requests e.task).isCreate = true ∧ e.did .insert (s.key id) = true := by
  intro past now
  -- all five parts are read off the invariant of the race
  have h : Orderly requests now past := (s.orderly_contest requests hempty hw).run schedule
  refine ⟨?_, ?_, ?_, ?_, ?_⟩
  · rw [created, removed, h.card_callsDone isCreate_iff, h.card_callsDone isRemove_iff]
    exact h.balance (s.key id)
  · intro e he hcreate
    have hchanges := h.changes e he
    rw [(isCreate_iff _).mp hcreate, Option.some.injEq] at hchanges
    exact h.insertion e he hchanges.symm
  · intro e he hremove
    have hchanges := h.changes e he
    rw [(isRemove_iff _).mp hremove, Option.some.injEq] at hchanges
    exact h.removal e he hchanges.symm
  -- a step of an edit that took a free key would be the insertion of a creation
  · intro i hedit hfree
    by_contra htaken
    obtain ⟨e, he, hcreate, -⟩ := h.created_of_step hfree (eq_true_of_ne_false htaken)
    rw [(h.event?_spec he).1, (isEdit_iff _).mp hedit] at hcreate
    cases hcreate
  · intro later hfree htaken
    obtain ⟨e, he, hcreate, hdid⟩ := h.created_of_run hfree htaken
    exact ⟨e, he, (isCreate_iff _).mpr hcreate, hdid⟩

/-- Surroundings that store nothing. -/
def nothingStored : World := { store := [], database := ⟨[], []⟩, random := [] }

/-- Three creations, a patch and two removals of one account. -/
def rivals : Fin 6 → Request
  | 0 | 1 | 5 => .create (some [("uuid", .text "a")])
  | 2 => .patch "a" (some [("age", .int .int 7)])
  | 3 | 4 => .remove "a"

/-- Two creations insert, the patch and the removals read, and both removals delete. The write of the
patch is ahead. -/
def rivalry : List (Fin 6) := [0, 1, 2, 3, 4, 3, 4]

/-- Six requests for one account: the second creation is refused and the second removal finds nothing, the
patch does not bring the removed account back, and the third creation does. -/
theorem accounts_rivals :
    let past := (accounts.contest rivals nothingStored).history rivalry
    let now := (accounts.contest rivals nothingStored).run rivalry
    now.world.has (accounts.key "a") = false ∧
    (created rivals past (accounts.key "a")).card = (removed rivals past (accounts.key "a")).card ∧
    now.tasks 1 = .done (.error (.conflict .keyExists)) ∧
    now.tasks 4 = .done (.error (.notFound .keyNotFound)) ∧
    (now.step 2).world.has (accounts.key "a") = false ∧
    ∃ e ∈ now.history [2, 5], (rivals e.task).isCreate = true ∧
      e.did .insert (accounts.key "a") = true := by
  intro past now
  have hfree : now.world.has (accounts.key "a") = false := rfl
  obtain ⟨hcount, hcreations, hremovals, hedits, hlater⟩ :=
    creation_exclusive accounts rivals nothingStored rfl (fun _ => rfl) rivalry "a"
  have hsecond : (⟨1, .insert, accounts.key "a", true, false⟩ : StoreEvent 6) ∈ past := by decide +kernel
  have hfourth : (⟨4, .remove, accounts.key "a", false, false⟩ : StoreEvent 6) ∈ past := by decide +kernel
  refine ⟨hfree, ?_, (hcreations _ hsecond rfl).2 rfl, (hremovals _ hfourth rfl).2 rfl,
    hedits 2 rfl hfree, hlater [2, 5] hfree rfl⟩
  rw [hcount]
  exact congrArg _ (congrArg Bool.toNat hfree)

end Service

end DocFilter
