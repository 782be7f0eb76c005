import DocFilter.Proofs.DocumentMap
import DocFilter.Proofs.Readability

/-!
Several services over one store. The key of a document is the *stem* of its service, that is its name
and the separator, and behind it the id. Nothing keeps a stem from going on where another one ends: to
the service `room` the id `x::1` says what the id `1` says to the service `room::x`. So whether services
see each other is a question of keys, not of names.

A request touches one key at most (`Request.steps`). A program that touches no key outside a set
does the same in two surroundings that agree on the set, and one that touches no key of the set leaves
it alone (`Confined.run_same`, `Confined.run_elsewhere`); from these two, by induction over the visits,
a service whose keys no other one touches hears what it would hear without the others
(`serveAll_filter`). Main result (`Service.isolated_iff_stems_apart`): visits that share no key do not
interfere, and no visits ever interfere exactly if no stem begins with another one.
-/

set_option autoImplicit false

namespace DocFilter

open Service (typeField)

/-! ## Stores that agree on some keys -/

namespace Store

/-- Two stores hold the same under some keys. -/
def SameOn (P : Text → Prop) (a b : Store) : Prop := ∀ key, P key → a.find? key = b.find? key

/-- A change of the store that looks at one key and changes nothing but that key. -/
structure ActsOn (key : Text) (f : Store → Except BackendError Unit × Store) : Prop where
  answer : ∀ {a b : Store}, a.find? key = b.find? key → (f a).1 = (f b).1
  there : ∀ {a b : Store}, a.find? key = b.find? key → (f a).2.find? key = (f b).2.find? key
  elsewhere : ∀ (a : Store) {k : Text}, k ≠ key → (f a).2.find? k = a.find? k

/-- Inserting sees and changes no key but its own. The three parts are the answer, the change at the key and
the change elsewhere. -/
theorem actsOn_insert (key raw : Text) : ActsOn key (·.insert key raw) := by
  refine ⟨fun {a b} h => ?_, fun {a b} h => ?_, fun a {k} hk => ?_⟩
  · unfold insert
    rw [h]
    cases b.find? key <;> rfl
  · unfold insert
    rw [h]
    cases b.find? key with
    | none => simp [find?_put]
    | some old => exact h
  · unfold insert
    cases a.find? key with
    | none => simp [find?_put, hk]
    | some old => rfl

/-- Replacing sees and changes no key but its own; it is refused where inserting is not. -/
theorem actsOn_replace (key raw : Text) : ActsOn key (·.replace key raw) := by
  refine ⟨fun {a b} h => ?_, fun {a b} h => ?_, fun a {k} hk => ?_⟩
  · unfold replace
    rw [h]
    cases b.find? key <;> rfl
  · unfold replace
    rw [h]
    cases b.find? key with
    | none => exact h
    | some old => simp [find?_put]
  · unfold replace
    cases a.find? key with
    | none => rfl
    | some old => simp [find?_put, hk]

/-- Removing sees and changes no key but its own. Where there is nothing to remove, the store is left as it
is. -/
theorem actsOn_remove (key : Text) : ActsOn key (·.remove key) := by
  refine ⟨fun {a b} h => ?_, fun {a b} h => ?_, fun a {k} hk => ?_⟩
  · unfold remove
    rw [h]
    cases b.find? key <;> rfl
  · unfold remove
    rw [h]
    cases b.find? key with
    | none => exact h
    | some old => simp [find?_erase]
  · unfold remove
    cases a.find? key with
    | none => rfl
    | some old => simp [find?_erase, hk]

end Store

/-! ## Programs that keep to some keys -/

/-- An effect that touches no key outside a set, and neither the database nor the source of ids. -/
def Effect.Within (P : Text → Prop) : Effect → Prop
  | .get key => P key
  | .insert key _ => P key
  | .replace key _ => P key
  | .remove key => P key
  | .log _ => True
  | .query _ => False
  | .freshId => False

/-- A program that touches no key outside a set. -/
inductive Confined (P : Text → Prop) : ServiceTask (Except ServiceError (Option Row)) → Prop
  | done (a : Except ServiceError (Option Row)) : Confined P (.done a)
  | ask {op : Effect} {next : op.Answer → ServiceTask (Except ServiceError (Option Row))} :
      op.Within P → (∀ a, Confined P (next a)) → Confined P (.ask op next)

namespace World

/-- Two surroundings have the same faults, and their stores the same documents under some keys. -/
structure SameOn (P : Text → Prop) (w w' : World) : Prop where
  fault : w.fault = w'.fault
  store : w.store.SameOn P w'.store

variable {P : Text → Prop} {w w' : World}

/-- A change under a key of the set, made in both surroundings. -/
theorem SameOn.change (h : w.SameOn P w') {key : Text} (hkey : P key) (op : StoreOperation)
    {f : Store → Except BackendError Unit × Store} (hf : Store.ActsOn key f) :
    (w.change op f).1 = (w'.change op f).1 ∧ (w.change op f).2.SameOn P (w'.change op f).2 := by
  unfold World.change
  rw [h.fault]
  cases w'.fault op with
  | some e => exact ⟨rfl, h⟩
  | none =>
    refine ⟨hf.answer (h.store key hkey), rfl, fun k hk => ?_⟩
    by_cases hkk : k = key
    · subst hkk
      exact hf.there (h.store k hk)
    · exact (hf.elsewhere _ hkk).trans ((h.store k hk).trans (hf.elsewhere _ hkk).symm)

/-- A change under another key, made in one of the surroundings, leaves them in agreement on the keys of the
set. It may also have failed, and then nothing has changed. -/
theorem SameOn.change_elsewhere (h : w.SameOn P w') {key : Text} (hkey : ¬ P key) (op : StoreOperation)
    {f : Store → Except BackendError Unit × Store} (hf : Store.ActsOn key f) :
    (w.change op f).2.SameOn P w' := by
  unfold World.change
  cases w.fault op with
  | some e => exact h
  | none =>
    refine ⟨h.fault, fun k hk => ?_⟩
    have hne : k ≠ key := fun heq => hkey (heq ▸ hk)
    exact (hf.elsewhere _ hne).trans (h.store k hk)

/-- What is asked about the keys of the set is answered alike in worlds that agree on them, and the worlds
agree afterwards. Queries and fresh ids are not about keys. -/
theorem SameOn.answer (h : w.SameOn P w') {e : Effect} (he : e.Within P) :
    (World.answer e w).1 = (World.answer e w').1 ∧ (World.answer e w).2.SameOn P (World.answer e w').2 := by
  cases e with
  | get key =>
    have hfind : w.store.find? key = w'.store.find? key := h.store key he
    unfold World.answer
    dsimp only
    rw [h.fault, Store.get_eq, Store.get_eq, hfind]
    cases w'.fault .get with
    | some x => exact ⟨rfl, h⟩
    | none => exact ⟨rfl, h⟩
  | insert key raw => exact h.change he .insert (Store.actsOn_insert key raw)
  | replace key raw => exact h.change he .replace (Store.actsOn_replace key raw)
  | remove key => exact h.change he .remove (Store.actsOn_remove key)
  | log entry => exact ⟨rfl, h.fault, h.store⟩
  | query call => exact False.elim he
  | freshId => exact False.elim he

/-- What is asked about other keys leaves the keys of the set alone. Such a world agrees with the other one
as it did before. -/
theorem SameOn.answer_elsewhere (h : w.SameOn P w') {e : Effect} (he : e.Within fun key => ¬ P key) :
    (World.answer e w).2.SameOn P w' := by
  cases e with
  | get key =>
    unfold World.answer
    dsimp only
    cases w.fault .get with
    | some x => exact h
    | none => exact h
  | insert key raw => exact h.change_elsewhere he .insert (Store.actsOn_insert key raw)
  | replace key raw => exact h.change_elsewhere he .replace (Store.actsOn_replace key raw)
  | remove key => exact h.change_elsewhere he .remove (Store.actsOn_remove key)
  | log entry => exact ⟨h.fault, h.store⟩
  | query call => exact False.elim he
  | freshId => exact False.elim he

end World

/-- Running a program that asks is answering it and running what follows. -/
theorem Program.run_ask {α : Type} (op : Effect) (next : op.Answer → ServiceTask α) (w : World) :
    Program.run World.answer (.ask op next) w
      = Program.run World.answer (next (World.answer op w).1) (World.answer op w).2 := rfl

namespace Confined

variable {P : Text → Prop} {p : ServiceTask (Except ServiceError (Option Row))}

/-- **A confined program does the same wherever its keys hold the same.** -/
theorem run_same (hp : Confined P p) {w w' : World} (h : w.SameOn P w') :
    (Program.run World.answer p w).1 = (Program.run World.answer p w').1 ∧
      (Program.run World.answer p w).2.SameOn P (Program.run World.answer p w').2 := by
  induction hp generalizing w w' with
  | done a => exact ⟨rfl, h⟩
  | @ask op next hop _ ih =>
    obtain ⟨hanswer, hafter⟩ := h.answer hop
    rw [Program.run_ask, Program.run_ask, hanswer]
    exact ih _ hafter

/-- **A program that is confined to other keys leaves the keys of the set alone.** -/
theorem run_elsewhere (hp : Confined (fun key => ¬ P key) p) {w w' : World} (h : w.SameOn P w') :
    (Program.run World.answer p w).2.SameOn P w' := by
  induction hp generalizing w with
  | done a => exact h
  | ask hop _ ih => exact ih _ (h.answer_elsewhere hop)

/-- A program that is confined to some keys is confined to more. -/
theorem mono {Q : Text → Prop} (hp : Confined P p) (h : ∀ key, P key → Q key) : Confined Q p := by
  induction hp with
  | done a => exact .done a
  | @ask op next hop _ ih =>
    refine .ask ?_ ih
    cases op with
    | get key => exact h key hop
    | insert key raw => exact h key hop
    | replace key raw => exact h key hop
    | remove key => exact h key hop
    | log entry => exact hop
    | query call => exact hop
    | freshId => exact hop

end Confined

/-! ## The key of a request -/

/-- The key under which a request reads and writes, if it comes to that. A new document without an id
has the fresh one. -/
def Request.key? (s : Service) (fresh : Text) : Request → Option Text
  | .create none => none
  | .create (some data) =>
    match (data.set typeField (.text s.name)).get? s.idField with
    | none | some .null => some (s.key fresh)
    | some v => some (s.key (Service.idText v))
  | .get id => some (s.key id)
  | .patch id _ => some (s.key id)
  | .update id _ => some (s.key id)
  | .remove id => some (s.key id)

namespace Request

variable {s : Service} {data : Row}

/-- Creating without an id, or with a null one, touches the key of the fresh id. -/
theorem key?_fresh (fresh : Text)
    (h : (data.set typeField (.text s.name)).get? s.idField = none ∨
      (data.set typeField (.text s.name)).get? s.idField = some .null) :
    (Request.create (some data)).key? s fresh = some (s.key fresh) := by
  unfold key?
  dsimp only
  rcases h with h | h <;> rw [h]

/-- Creating with an id touches the key of the text of the id, whatever kind of value it is. -/
theorem key?_given (fresh : Text) {v : Value}
    (h : (data.set typeField (.text s.name)).get? s.idField = some v) (hv : v ≠ .null) :
    (Request.create (some data)).key? s fresh = some (s.key (Service.idText v)) := by
  unfold key?
  dsimp only
  rw [h]
  cases v <;> first | rfl | exact absurd rfl hv

end Request

namespace Service

variable {P : Text → Prop} {s : Service} {id : Text}

/-- The last read of an operation is confined to the key of the id. -/
theorem confined_finish (hkey : P (s.key id)) : Confined P (s.finish id) :=
  .ask hkey fun answer => .done (reading answer)

/-- Writing a new document is confined to the key of its id: the insertion, the log and the read all name
it. -/
theorem confined_writeNew (hkey : P (s.key id)) (doc : Row) : Confined P (s.writeNew id doc) := by
  unfold writeNew
  cases Row.encode (some doc) with
  | error e => exact .done _
  | ok raw =>
    refine .ask hkey fun answer => ?_
    cases answer with
    | error e => exact .done _
    | ok done => exact .ask trivial fun _ => confined_finish hkey

/-- Writing back is confined to the key of the id, whether the document was found, was missing or could not
be read. -/
theorem confined_writeBack (hkey : P (s.key id)) (data : Option Row)
    (found : Except ServiceError (Option Row)) : Confined P (s.writeBack id data found) := by
  unfold writeBack
  split
  · exact .done _
  · exact .done _
  · split
    · exact .done _
    · refine .ask hkey fun answer => ?_
      cases answer with
      | error e => exact .done _
      | ok done => exact .ask trivial fun _ => confined_finish hkey

/-- Erasing is confined to the key of the id, in all these cases too. -/
theorem confined_erase (hkey : P (s.key id)) (found : Except ServiceError (Option Row)) :
    Confined P (s.erase id found) := by
  unfold erase
  split
  · exact .done _
  · refine .ask hkey fun answer => ?_
    cases answer with
    | error e => exact .done _
    | ok done => exact .ask trivial fun _ => .done _

end Service

/-- **A request touches its key and no other.** What it does is what a program does that is confined to
the key; before that it takes `n` random bytes. -/
theorem Request.steps (s : Service) (r : Request) (fresh : Text) :
    ∃ p n, Confined (fun key => r.key? s fresh = some key) p ∧ ∀ w : World, w.freshId 0 = fresh →
      Program.run World.answer (r.task s).run w
        = Program.run World.answer p { w with used := w.used + n } := by
  -- only a new document without an id takes random bytes
  have hplain : Confined (fun key => r.key? s fresh = some key) (r.task s).run →
      ∃ p n, Confined (fun key => r.key? s fresh = some key) p ∧ ∀ w : World, w.freshId 0 = fresh →
        Program.run World.answer (r.task s).run w
          = Program.run World.answer p { w with used := w.used + n } :=
    fun h => ⟨_, 0, h, fun w _ => rfl⟩
  cases r with
  | get id =>
    have hkey : (Request.get id).key? s fresh = some (s.key id) := rfl
    apply hplain
    rw [Request.task, Service.get_run]
    exact Service.confined_finish hkey
  | patch id data =>
    have hkey : (Request.patch id data).key? s fresh = some (s.key id) := rfl
    apply hplain
    rw [Request.task, Service.patch_run]
    exact .ask hkey fun answer => Service.confined_writeBack hkey data _
  | update id data =>
    have hkey : (Request.update id data).key? s fresh = some (s.key id) := rfl
    apply hplain
    rw [Request.task, Service.update, Service.patch_run]
    exact .ask hkey fun answer => Service.confined_writeBack hkey data _
  | remove id =>
    have hkey : (Request.remove id).key? s fresh = some (s.key id) := rfl
    apply hplain
    rw [Request.task, Service.remove_run]
    exact .ask hkey fun answer => Service.confined_erase hkey _
  | create data =>
    cases data with
    | none => exact hplain (.done _)
    | some data =>
      by_cases hnone : (data.set typeField (.text s.name)).get? s.idField = none ∨
          (data.set typeField (.text s.name)).get? s.idField = some .null
      · refine ⟨_, 16, Service.confined_writeNew (Request.key?_fresh fresh hnone)
          ((data.set typeField (.text s.name)).set s.idField (.text fresh)), fun w hw => ?_⟩
        rw [Request.task, Service.create_run_fresh hnone, ← hw]
        rfl
      · push Not at hnone
        obtain ⟨v, hv⟩ := Option.ne_none_iff_exists'.1 hnone.1
        have hnull : v ≠ .null := fun h => hnone.2 (h ▸ hv)
        apply hplain
        rw [Request.task, Service.create_run_given hv hnull]
        exact Service.confined_writeNew (Request.key?_given fresh hv hnull) _

/-! ## Visits -/

/-- A request to one of several services, with the random bytes from which a new id would be made. -/
structure Visit (T : Type) where
  tenant : T
  request : Request
  random : List UInt8

/-- The surroundings with other random bytes. -/
def World.reseeded (w : World) (random : List UInt8) : World := { w with random, used := 0 }

namespace Visit

variable {T : Type}

/-- The id that a new document would be given. -/
def fresh (v : Visit T) : Text := (World.quiet.reseeded v.random).freshId 0

/-- The key that a visit touches. -/
def key? (services : T → Service) (v : Visit T) : Option Text :=
  v.request.key? (services v.tenant) v.fresh

/-- What a visit hears, and the surroundings after it. -/
def serve (services : T → Service) (v : Visit T) (w : World) : Except ServiceError (Option Row) × World :=
  Program.run World.answer (v.request.task (services v.tenant)).run (w.reseeded v.random)

end Visit

/-- Serves visits one after the other, all over the same store. -/
def serveAll {T : Type} (services : T → Service) :
    List (Visit T) → World → List (T × Except ServiceError (Option Row)) × World
  | [], w => ([], w)
  | v :: vs, w =>
    let (a, w') := v.serve services w
    let (as, w'') := serveAll services vs w'
    ((v.tenant, a) :: as, w'')

/-- Serving visits one after the other: the first in the world as it is, the others in the world that it
leaves. -/
theorem serveAll_cons {T : Type} (services : T → Service) (v : Visit T) (vs : List (Visit T)) (w : World) :
    (serveAll services (v :: vs) w).1
      = (v.tenant, (v.serve services w).1) :: (serveAll services vs (v.serve services w).2).1 := rfl

/-- No visit of one tenant touches a key that a visit of another one touches. -/
def KeysApart {T : Type} (services : T → Service) (visits : List (Visit T)) : Prop :=
  ∀ v ∈ visits, ∀ v' ∈ visits, v.tenant ≠ v'.tenant →
    v.key? services = v'.key? services → v.key? services = none

instance {T : Type} [DecidableEq T] (services : T → Service) (visits : List (Visit T)) :
    Decidable (KeysApart services visits) :=
  inferInstanceAs (Decidable (∀ v ∈ visits, ∀ v' ∈ visits, v.tenant ≠ v'.tenant →
    v.key? services = v'.key? services → v.key? services = none))

/-- Every tenant hears what it would hear if the visits of the others were left out. -/
def Isolated {T : Type} [DecidableEq T] (services : T → Service) (visits : List (Visit T)) (w : World) :
    Prop :=
  ∀ t, (serveAll services visits w).1.filter (fun a => a.1 = t)
    = (serveAll services (visits.filter fun v => v.tenant = t) w).1

section

variable {T : Type} {services : T → Service} {P : Text → Prop} {w w' : World}

/-- Worlds that agree on keys do so when both are given the same random bytes; how many were used before
does not matter. -/
theorem World.SameOn.reseeded (h : w.SameOn P w') (random : List UInt8) (n n' : Nat) :
    World.SameOn P { w.reseeded random with used := n } { w'.reseeded random with used := n' } :=
  ⟨h.fault, h.store⟩

/-- A visit under a key of the set, in both surroundings. -/
theorem Visit.serve_same (h : w.SameOn P w') (v : Visit T)
    (hkey : ∀ key, v.key? services = some key → P key) :
    (v.serve services w).1 = (v.serve services w').1 ∧
      (v.serve services w).2.SameOn P (v.serve services w').2 := by
  obtain ⟨p, n, hp, hrun⟩ := v.request.steps (services v.tenant) v.fresh
  unfold Visit.serve
  rw [hrun (w.reseeded v.random) rfl, hrun (w'.reseeded v.random) rfl]
  exact (hp.mono hkey).run_same (h.reseeded _ _ _)

/-- A visit under another key, in one of the surroundings. -/
theorem Visit.serve_elsewhere (h : w.SameOn P w') (v : Visit T)
    (hkey : ∀ key, v.key? services = some key → ¬ P key) : (v.serve services w).2.SameOn P w' := by
  obtain ⟨p, n, hp, hrun⟩ := v.request.steps (services v.tenant) v.fresh
  unfold Visit.serve
  rw [hrun (w.reseeded v.random) rfl]
  exact (hp.mono hkey).run_elsewhere ⟨h.fault, h.store⟩

/-- **A tenant whose keys the others leave alone hears what it would hear without them.** The induction is
on the visits, in two worlds that agree on the keys of the tenant. -/
theorem serveAll_filter [DecidableEq T] {t : T} {visits : List (Visit T)}
    (hown : ∀ v ∈ visits, v.tenant = t → ∀ key, v.key? services = some key → P key)
    (hother : ∀ v ∈ visits, v.tenant ≠ t → ∀ key, v.key? services = some key → ¬ P key)
    (h : w.SameOn P w') :
    (serveAll services visits w).1.filter (fun a => a.1 = t)
      = (serveAll services (visits.filter fun v => v.tenant = t) w').1 := by
  induction visits generalizing w w' with
  | nil => rfl
  | cons v vs ih =>
    have hown' := fun u hu => hown u (List.mem_cons_of_mem v hu)
    have hother' := fun u hu => hother u (List.mem_cons_of_mem v hu)
    by_cases hv : v.tenant = t
    -- a visit of the tenant takes place in both worlds, and is answered alike
    · obtain ⟨hanswer, hafter⟩ := v.serve_same h (hown v List.mem_cons_self hv)
      rw [serveAll_cons, List.filter_cons_of_pos (by simpa using hv),
        List.filter_cons_of_pos (by simpa using hv), serveAll_cons, hanswer]
      exact congrArg _ (ih hown' hother' hafter)
    -- a visit of another one takes place in the first world only, and leaves the keys alone
    · rw [serveAll_cons, List.filter_cons_of_neg (by simpa using hv),
        List.filter_cons_of_neg (by simpa using hv)]
      exact ih hown' hother' (v.serve_elsewhere h (hother v List.mem_cons_self hv))

/-- Visits of different tenants that touch different keys do not interfere. The keys of a tenant are those
that its visits touch, and the others leave these alone. -/
theorem isolated_of_keys [DecidableEq T] {visits : List (Visit T)} (h : KeysApart services visits)
    (w : World) : Isolated services visits w := by
  intro t
  refine serveAll_filter (P := fun key => ∃ v ∈ visits, v.tenant = t ∧ v.key? services = some key)
    (fun v hv ht key hkey => ⟨v, hv, ht, hkey⟩) ?_ ⟨rfl, fun _ _ => rfl⟩
  rintro v hv ht key hkey ⟨v', hv', ht', hkey'⟩
  have hne : v.tenant ≠ v'.tenant := fun heq => ht (heq.trans ht')
  have hnone := h v hv v' hv' hne (hkey.trans hkey'.symm)
  rw [hkey] at hnone
  cases hnone

end

/-! ## Stems -/

namespace Service

/-- What all keys of a service begin with. -/
def stem (s : Service) : Text := s.name ++ s.separator

/-- Two services have a key in common exactly if one of their stems begins with the other. -/
theorem exists_key_eq_iff {s s' : Service} :
    (∃ id id', s.key id = s'.key id') ↔ s.stem <+: s'.stem ∨ s'.stem <+: s.stem := by
  constructor
  · rintro ⟨id, id', heq⟩
    exact List.prefix_or_prefix_of_prefix (List.prefix_append s.stem id) ⟨id', heq.symm⟩
  · rintro (⟨more, hmore⟩ | ⟨more, hmore⟩)
    · exact ⟨more, [], by rw [key, key, List.append_nil]; exact hmore⟩
    · exact ⟨[], more, by rw [key, key, List.append_nil]; exact hmore.symm⟩

/-- No stem begins with the stem of another tenant. -/
def StemsApart {T : Type} (services : T → Service) : Prop :=
  ∀ t t', t ≠ t' → ¬ (services t).stem <+: (services t').stem

end Service

/-- The key of a request is a key of the service. -/
theorem Request.key_of_key? {s : Service} {fresh key : Text} {r : Request}
    (h : r.key? s fresh = some key) : ∃ id, key = s.key id := by
  unfold Request.key? at h
  split at h
  · cases h
  · split at h <;> exact ⟨_, (Option.some.inj h).symm⟩
  all_goals exact ⟨_, (Option.some.inj h).symm⟩

/-- Tenants whose stems are apart never share a key: two keys that are equal begin with both stems, and then
one stem begins with the other. -/
theorem Service.StemsApart.keysApart {T : Type} {services : T → Service} (h : StemsApart services)
    (visits : List (Visit T)) : KeysApart services visits := by
  intro v _ v' _ hne heq
  by_contra hsome
  obtain ⟨key, hkey⟩ := Option.ne_none_iff_exists'.1 hsome
  obtain ⟨id, hid⟩ := Request.key_of_key? hkey
  obtain ⟨id', hid'⟩ := Request.key_of_key? (heq.symm.trans hkey)
  rcases exists_key_eq_iff.1 ⟨id, id', hid.symm.trans hid'⟩ with hstem | hstem
  · exact h _ _ hne hstem
  · exact h _ _ hne.symm hstem

/-- A row of texts can be written, and what is written can be read. -/
theorem Row.exists_stored_of_texts {row : Row} (h : ∀ e ∈ row, ∃ t, e.2 = .text t) :
    ∃ raw doc, Row.encode (some row) = .ok raw ∧ Row.decode raw = .ok (some doc) := by
  have htext : ∀ e ∈ row, e.2.toJson = .ok e.2.tree ∧ e.2.proper = true ∧ e.2.unreadable = false := by
    intro e he
    obtain ⟨t, ht⟩ := h e he
    rw [ht]
    exact ⟨rfl, rfl, rfl⟩
  have hencode := Row.encode_of_written fun e he => (htext e he).1
  obtain ⟨r, hr⟩ := (Row.decode_iff hencode fun e he => (htext e he).2.1).2 fun e he => (htext e he).2.2
  obtain ⟨doc, rfl, -⟩ := (Row.decode_of_encode hencode).1 hr
  exact ⟨_, doc, hencode, hr⟩

namespace Service

/-- A document of a service that can be read, in a store where nothing fails. -/
structure Keeps (s : Service) (w : World) (id : Text) (doc : Row) : Prop where
  calm : ∀ op, w.fault op = none
  found : ∃ raw, w.store.find? (s.key id) = some raw ∧ Row.decode raw = .ok (some doc)

/-- A document that is kept is what reading its key gives. -/
theorem Keeps.reading {s : Service} {w : World} {id : Text} {doc : Row} (h : s.Keeps w id doc) :
    reading (w.store.get (s.key id)) = .ok (some doc) := by
  obtain ⟨raw, hraw, hdecode⟩ := h.found
  rw [Store.get_eq, hraw]
  exact reading_ok hdecode

/-- A document is the other service's too, under another id, if it has the same key there. -/
theorem Keeps.of_key {s s' : Service} {w : World} {id id' : Text} {doc : Row} (h : s.Keeps w id doc)
    (hkey : s'.key id' = s.key id) : s'.Keeps w id' doc :=
  ⟨h.calm, hkey ▸ h.found⟩

/-- An empty document is created in an empty store, under one of the keys of the service. The id is a fresh
one, unless the id field is that of the type, which then is the id. -/
theorem exists_created (s : Service) {w : World} (hcalm : ∀ op, w.fault op = none)
    (hempty : w.store = []) :
    ∃ id doc, (Program.run World.answer (s.create (some [])).run w).1 = .ok (some doc) ∧
      s.Keeps (Program.run World.answer (s.create (some [])).run w).2 id doc := by
  -- a row of texts is written and read back, whatever bytes the texts are made of
  have hwrite : ∀ {w' : World} (id : Text) {row : Row}, (∀ e ∈ row, ∃ t, e.2 = .text t) →
      (∀ op, w'.fault op = none) → w'.store = [] →
      ∃ doc, (Program.run World.answer (s.writeNew id row) w').1 = .ok (some doc) ∧
        s.Keeps (Program.run World.answer (s.writeNew id row) w').2 id doc := by
    intro w' id row hrow hcalm hempty
    obtain ⟨raw, doc, hraw, hdoc⟩ := Row.exists_stored_of_texts hrow
    have hfree : w'.store.find? (s.key id) = none := by
      rw [hempty]
      rfl
    rw [run_writeNew hcalm hfree hraw]
    exact ⟨doc, reading_ok hdoc, hcalm, raw, by simp [Store.find?_put], hdoc⟩
  have hstamped : ∀ e ∈ Row.set [] typeField (.text s.name), ∃ t, e.2 = .text t := by
    intro e he
    rcases Row.mem_set he with rfl | he
    · exact ⟨_, rfl⟩
    · exact absurd he List.not_mem_nil
  by_cases hnone : (Row.set [] typeField (.text s.name)).get? s.idField = none ∨
      (Row.set [] typeField (.text s.name)).get? s.idField = some .null
  · rw [create_run_fresh hnone]
    refine ⟨_, hwrite (Uuid.ofRandom (w.randomBytes 16)) (fun e he => ?_) hcalm hempty⟩
    rcases Row.mem_set he with rfl | he
    · exact ⟨_, rfl⟩
    · exact hstamped e he
  · push Not at hnone
    obtain ⟨v, hv⟩ := Option.ne_none_iff_exists'.1 hnone.1
    rw [create_run_given hv fun h => hnone.2 (h ▸ hv)]
    exact ⟨_, hwrite _ hstamped hcalm hempty⟩

section Serving

variable {T : Type} {services : T → Service} {w : World}

/-- A read is answered with what the store has under the key, and changes nothing but the random bytes. -/
theorem serve_get (hcalm : ∀ op, w.fault op = none) (t : T) (id : Text) (random : List UInt8) :
    Visit.serve services ⟨t, .get id, random⟩ w
      = (reading (w.store.get ((services t).key id)), w.reseeded random) := by
  have hcalm' : ∀ op, (w.reseeded random).fault op = none := hcalm
  show Program.run World.answer ((services t).get id).run (w.reseeded random) = _
  rw [get_run, run_finish hcalm']
  rfl

/-- A removal is answered with the document, which is then no longer in the store. -/
theorem serve_remove {t : T} {id : Text} {doc : Row} (h : (services t).Keeps w id doc) (random : List UInt8) :
    ∃ w', Visit.serve services ⟨t, .remove id, random⟩ w = (.ok (some doc), w') ∧
      (∀ op, w'.fault op = none) ∧ w'.store = w.store.erase ((services t).key id) := by
  have hcalm : ∀ op, (w.reseeded random).fault op = none := h.calm
  have hreading : reading ((w.reseeded random).store.get ((services t).key id)) = .ok (some doc) := h.reading
  obtain ⟨raw, hraw, -⟩ := h.found
  have hfound : (w.reseeded random).store.find? ((services t).key id) = some raw := hraw
  have hserve : Visit.serve services ⟨t, .remove id, random⟩ w
      = Program.run World.answer ((services t).remove id).run (w.reseeded random) := rfl
  rw [hserve, remove_run, Program.run_ask]
  simp only [World.answer, hcalm, hreading]
  rw [run_erase hcalm hfound]
  exact ⟨_, rfl, hcalm, rfl⟩

/-- One tenant creates an empty document; another one asks for it under an id of its own and removes it;
and the first asks for it. -/
def intruding (t t' : T) (id id' : Text) : List (Visit T) :=
  [⟨t', .create (some []), []⟩, ⟨t, .get id, []⟩, ⟨t, .remove id, []⟩, ⟨t', .get id', []⟩]

/-- What is heard of an intrusion: the document three times, when it is created by the one tenant and when
it is read and removed by the other, and then that it is not there. -/
theorem serveAll_intruding {t t' : T} {id id' : Text} {doc : Row} {w' : World}
    (hcreate : Visit.serve services ⟨t', .create (some []), []⟩ w = (.ok (some doc), w'))
    (hkeeps : (services t').Keeps w' id' doc) (hkey : (services t).key id = (services t').key id') :
    (serveAll services (intruding t t' id id') w).1
      = [(t', .ok (some doc)), (t, .ok (some doc)), (t, .ok (some doc)),
        (t', .error (.notFound .keyNotFound))] := by
  have hintruder := hkeeps.of_key hkey
  have hread : Visit.serve services ⟨t, .get id, []⟩ w' = (.ok (some doc), w'.reseeded []) := by
    rw [serve_get hkeeps.calm, hintruder.reading]
  have hstill : (services t).Keeps (w'.reseeded []) id doc := ⟨hintruder.calm, hintruder.found⟩
  obtain ⟨w'', hremove, hcalm, hstore⟩ := serve_remove hstill []
  have hgone : reading (w''.store.get ((services t').key id')) = .error (.notFound .keyNotFound) := by
    rw [hstore, ← hkey, Store.get_eq, Store.find?_erase, if_pos rfl]
    rfl
  rw [intruding, serveAll_cons, serveAll_cons, serveAll_cons, serveAll_cons, hcreate]
  dsimp only
  rw [hread]
  dsimp only
  rw [hremove]
  dsimp only
  rw [serve_get hcalm, hgone]
  rfl

end Serving

/-- Where one stem begins with another, a document that one service has created is read and removed through
the other, and the first one does not find it any more. -/
theorem exists_interference {T : Type} [DecidableEq T] {services : T → Service} {t t' : T} (hne : t ≠ t')
    (hstem : (services t).stem <+: (services t').stem) :
    ∃ id id' doc,
      (serveAll services (intruding t t' id id') .quiet).1
        = [(t', .ok (some doc)), (t, .ok (some doc)), (t, .ok (some doc)),
          (t', .error (.notFound .keyNotFound))] ∧
      ¬ Isolated services (intruding t t' id id') .quiet := by
  obtain ⟨more, hmore⟩ := hstem
  obtain ⟨id, doc, hcreated, hkeeps⟩ : ∃ id doc,
      (Visit.serve services ⟨t', .create (some []), []⟩ .quiet).1 = .ok (some doc) ∧
        (services t').Keeps (Visit.serve services ⟨t', .create (some []), []⟩ .quiet).2 id doc :=
    (services t').exists_created (fun _ => rfl) rfl
  have hkey : (services t).key (more ++ id) = (services t').key id := by
    show (services t).stem ++ (more ++ id) = (services t').stem ++ id
    rw [← List.append_assoc, hmore]
  have hanswers := serveAll_intruding (Prod.ext hcreated rfl) hkeeps hkey
  refine ⟨more ++ id, id, doc, hanswers, fun h => ?_⟩
  -- alone, the first service finds nothing to read
  have halone : (intruding t t' (more ++ id) id).filter (fun v => v.tenant = t)
      = [⟨t, .get (more ++ id), []⟩, ⟨t, .remove (more ++ id), []⟩] := by
    simp [intruding, hne.symm]
  have hheard := h t
  rw [hanswers, halone, List.filter_cons_of_neg (by simpa using hne.symm),
    List.filter_cons_of_pos (by simp), serveAll_cons, serve_get fun _ => rfl] at hheard
  cases congrArg Prod.snd (List.cons.inj hheard).1

/-- **Isolation is a matter of stems.** Visits whose tenants touch different keys do not interfere,
whatever the store holds and whatever fails; no visits at all interfere exactly if no stem begins with
the stem of another tenant; and if one does, then over a store in which nothing was stored before one
tenant creates a document that another one reads and removes, and that is then gone for the first. -/
theorem isolated_iff_stems_apart {T : Type} [DecidableEq T] (services : T → Service) :
    (∀ visits w, KeysApart services visits → Isolated services visits w) ∧
      ((∀ visits w, Isolated services visits w) ↔ StemsApart services) ∧
      (¬ StemsApart services → ∃ t t' id id' doc, t ≠ t' ∧
        (serveAll services (intruding t t' id id') .quiet).1
          = [(t', .ok (some doc)), (t, .ok (some doc)), (t, .ok (some doc)),
            (t', .error (.notFound .keyNotFound))] ∧
        ¬ Isolated services (intruding t t' id id') .quiet) := by
  have hbreach : ¬ StemsApart services → ∃ t t' id id' doc, t ≠ t' ∧
      (serveAll services (intruding t t' id id') .quiet).1
        = [(t', .ok (some doc)), (t, .ok (some doc)), (t, .ok (some doc)),
          (t', .error (.notFound .keyNotFound))] ∧
      ¬ Isolated services (intruding t t' id id') .quiet := by
    intro h
    unfold StemsApart at h
    push Not at h
    obtain ⟨t, t', hne, hstem⟩ := h
    obtain ⟨id, id', doc, hanswers, hvisits⟩ := exists_interference hne hstem
    exact ⟨t, t', id, id', doc, hne, hanswers, hvisits⟩
  refine ⟨fun visits w h => isolated_of_keys h w, ⟨fun h => ?_, fun h visits w => ?_⟩, hbreach⟩
  -- stems that are not apart have visits that interfere, and these are an exception to isolation
  · by_contra hstems
    obtain ⟨t, t', id, id', doc, -, -, hvisits⟩ := hbreach hstems
    exact hvisits (h _ .quiet)
  · exact isolated_of_keys (h.keysApart visits) w

/-- A service with the name `room` and one with the name `room::x`. -/
def roomAndAnnex : Bool → Service
  | false => { bucket := "b", name := "room", idField := "uuid", separator := "::", paginate := {} }
  | true => { bucket := "b", name := "room::x", idField := "uuid", separator := "::", paginate := {} }

/-- A service with the name `room` and one with the name `hall`. -/
def roomAndHall : Bool → Service
  | false => { bucket := "b", name := "room", idField := "uuid", separator := "::", paginate := {} }
  | true => { bucket := "b", name := "hall", idField := "uuid", separator := "::", paginate := {} }

/-- Both tenants store a document under the id `1`, the second removes its own, and the first asks for
its own. -/
def sameIds : List (Visit Bool) :=
  [⟨true, .create (some [("uuid", .text "1")]), []⟩, ⟨false, .create (some [("uuid", .text "1")]), []⟩,
    ⟨true, .remove "1", []⟩, ⟨false, .get "1", []⟩]

/-- The room and the annex do not meet at the ids that both of them use, and the room and the hall nowhere.
Between the room and the annex there are other visits that interfere. -/
theorem sameIds_isolated :
    (KeysApart roomAndAnnex sameIds ∧ Isolated roomAndAnnex sameIds .quiet) ∧
      (StemsApart roomAndHall ∧ ∀ visits w, Isolated roomAndHall visits w) ∧
      (¬ StemsApart roomAndAnnex ∧ ∃ visits, ¬ Isolated roomAndAnnex visits .quiet) := by
  have hkeys : KeysApart roomAndAnnex sameIds := by decide
  have hhall : StemsApart roomAndHall := by
    unfold StemsApart
    decide
  have hannex : ¬ StemsApart roomAndAnnex := by
    unfold StemsApart
    decide
  obtain ⟨hjoint, -, hbreach⟩ := isolated_iff_stems_apart roomAndAnnex
  obtain ⟨t, t', id, id', doc, -, -, hvisits⟩ := hbreach hannex
  exact ⟨⟨hkeys, hjoint _ _ hkeys⟩, ⟨hhall, (isolated_iff_stems_apart roomAndHall).2.1.2 hhall⟩,
    hannex, _, hvisits⟩

/-- The annex stores a document under the id `1`, the room asks for it and removes it as its own
`x::1`, and the annex asks for it. -/
def intrusion : List (Visit Bool) :=
  [⟨true, .create (some [("uuid", .text "1")]), []⟩, ⟨false, .get "x::1", []⟩,
    ⟨false, .remove "x::1", []⟩, ⟨true, .get "1", []⟩]

/-- The document of the annex as it is stored. -/
def annexDocument : Row := [("_type", .text "room::x"), ("uuid", .text "1")]

/-- Services with different names and the same separator, set up with all defaults, read and remove each
other's documents: the room hears of the document of the annex twice, where alone it hears of none, and the
annex does not find it afterwards. -/
theorem annex_open_to_room :
    Service.setUp "b" "room" "" "" true true {} = .ok (roomAndAnnex false) ∧
      Service.setUp "b" "room::x" "" "" true true {} = .ok (roomAndAnnex true) ∧
      (roomAndAnnex false).name ≠ (roomAndAnnex true).name ∧
      (roomAndAnnex false).separator = (roomAndAnnex true).separator ∧
      (serveAll roomAndAnnex intrusion .quiet).1
        = [(true, .ok (some annexDocument)), (false, .ok (some annexDocument)),
          (false, .ok (some annexDocument)), (true, .error (.notFound .keyNotFound))] ∧
      (serveAll roomAndAnnex (intrusion.filter fun v => v.tenant = false) .quiet).1
        = [(false, .error (.notFound .keyNotFound)), (false, .error (.notFound .keyNotFound))] ∧
      ¬ Isolated roomAndAnnex intrusion .quiet := by
  have hjoint : (serveAll roomAndAnnex intrusion .quiet).1
      = [(true, .ok (some annexDocument)), (false, .ok (some annexDocument)),
        (false, .ok (some annexDocument)), (true, .error (.notFound .keyNotFound))] := rfl
  have halone : (serveAll roomAndAnnex (intrusion.filter fun v => v.tenant = false) .quiet).1
      = [(false, .error (.notFound .keyNotFound)), (false, .error (.notFound .keyNotFound))] := rfl
  refine ⟨rfl, rfl, by decide, rfl, hjoint, halone, fun h => ?_⟩
  -- alone the room hears of an error first
  have hroom := h false
  rw [hjoint, halone] at hroom
  cases (List.cons.inj hroom).1

end Service

end DocFilter
