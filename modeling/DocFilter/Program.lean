/-!
Programs that talk to the outside. A program either is done or asks something and goes on with the
answer. What can be asked is a type of operations, with a type of answers for each. The same program
can be run against a store in memory, against a server, or one question at a time beside other
programs, and nothing about it has to be taken on trust: it is a tree.
-/

set_option autoImplicit false

namespace DocFilter

/-- A program that asks operations of type `Op` and ends with an `α`. -/
inductive Program (Op : Type) (Answer : Op → Type) (α : Type) where
  | done (a : α)
  | ask (op : Op) (next : Answer op → Program Op Answer α)

namespace Program

variable {Op : Type} {Answer : Op → Type} {α β σ : Type}

/-- Goes on with another program where this one is done. -/
def andThen (p : Program Op Answer α) (f : α → Program Op Answer β) : Program Op Answer β :=
  match p with
  | .done a => f a
  | .ask op next => .ask op fun r => andThen (next r) f

instance : Monad (Program Op Answer) where
  pure := .done
  bind := andThen

/-- The program that asks one operation and ends with the answer. -/
def perform (op : Op) : Program Op Answer (Answer op) := .ask op .done

/-- Runs a program against a state that answers its operations. -/
def run (answer : (op : Op) → σ → Answer op × σ) : Program Op Answer α → σ → α × σ
  | .done a, s => (a, s)
  | .ask op next, s =>
    let (r, s') := answer op s
    run answer (next r) s'

/-- Runs a program in a monad that answers its operations. -/
def runM {m : Type → Type} [Monad m] (answer : (op : Op) → m (Answer op)) : Program Op Answer α → m α
  | .done a => pure a
  | .ask op next => do
    let r ← answer op
    runM answer (next r)

end Program
end DocFilter
