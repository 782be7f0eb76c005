import DocFilter.Service
import DocFilter.Uuid

/-!
Surroundings of a service in memory: a keyed store, a database that follows a script, a log of
characters, and a source of random bytes that repeats itself. They keep what the service asks of them.
-/

set_option autoImplicit false

namespace DocFilter

/-- The operations of a keyed store. -/
inductive StoreOperation where
  | get
  | insert
  | replace
  | remove
  deriving DecidableEq, Repr

/-- A database that gives its answers one after the other, and no rows once they are used up. -/
structure QueryScript where
  answers : List (Except BackendError QueryResult)
  /-- The calls so far, in order. -/
  calls : List Call := []

/-- Answers a call. -/
def QueryScript.answer (call : Call) (s : QueryScript) : Except BackendError QueryResult × QueryScript :=
  (s.answers.head?.getD (.ok ⟨[], {}⟩), ⟨s.answers.drop 1, s.calls ++ [call]⟩)

/-- Surroundings of a service. -/
structure World where
  store : Store
  database : QueryScript
  /-- The errors with which the store answers its operations. -/
  fault : StoreOperation → Option BackendError := fun _ => none
  /-- The log so far, in order. -/
  log : List LogEntry := []
  random : List UInt8
  /-- How many random bytes were used. -/
  used : Nat := 0

namespace World

/-- The next random bytes. -/
def randomBytes (w : World) (count : Nat) : List UInt8 :=
  (List.range count).map fun i => (w.random[(w.used + i) % w.random.length]?).getD 0

/-- Changes the store, unless the operation is to fail. -/
def change (w : World) (op : StoreOperation) (f : Store → Except BackendError Unit × Store) :
    Except BackendError Unit × World :=
  match w.fault op with
  | some e => (.error e, w)
  | none =>
    let (r, store) := f w.store
    (r, { w with store })

/-- Answers what a service asks. -/
def answer (e : Effect) (w : World) : e.Answer × World :=
  match e with
  | .get key =>
    match w.fault .get with
    | some x => (.error x, w)
    | none => (w.store.get key, w)
  | .insert key raw => w.change .insert (·.insert key raw)
  | .replace key raw => w.change .replace (·.replace key raw)
  | .remove key => w.change .remove (·.remove key)
  | .query call =>
    let (r, database) := w.database.answer call
    (r, { w with database })
  | .log entry => ((), { w with log := w.log ++ [entry.legible] })
  | .freshId => (Uuid.ofRandom (w.randomBytes 16), { w with used := w.used + 16 })

end World
end DocFilter
