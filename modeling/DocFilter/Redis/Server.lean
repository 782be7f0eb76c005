import DocFilter.Redis
import DocFilter.Store

/-!
A Redis server in memory, as far as the commands of this library go. Time does not pass in it, so no
key ever expires. It keeps the commands it was sent, and it can be told to answer some with errors.
-/

set_option autoImplicit false

namespace DocFilter.Redis

/-- Carries out a command on a store. -/
def Command.run (s : Store) : Command → Reply × Store
  | .get key =>
    match s.find? key with
    | some raw => (.value raw, s)
    | none => (.nothing, s)
  | .set key value _ condition =>
    if (s.find? key).isSome == (condition == .taken) then (.outcome true, s.put key value)
    else (.outcome false, s)
  | .del key => (.outcome (s.find? key).isSome, s.erase key)

/-- A server. -/
structure Server where
  store : Store
  /-- The errors it answers with, by the first word of the command. -/
  faults : List (Text × Text) := []
  /-- The commands so far, in order. -/
  commands : List Command := []

/-- The error that a server answers a command with, if it was told to. -/
def Server.fault? (s : Server) (c : Command) : Option Text := do s.faults.lookup (← c.words.head?)

/-- Answers a command. One that is answered with an error changes nothing. -/
def Server.answer (c : Command) (s : Server) : Reply × Server :=
  let commands := s.commands ++ [c]
  match s.fault? c with
  | some words => (.error words, { s with commands })
  | none =>
    let (reply, store) := c.run s.store
    (reply, { s with store, commands })

end DocFilter.Redis
