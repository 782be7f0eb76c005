import DocFilter.CommandLine.Session
import DocFilter.Http.Script
import DocFilter.Redis.Server

/-!
A machine in memory on which sessions run: it has an input, keeps what is printed, and has a web
server and a Redis server beside it.
-/

set_option autoImplicit false

namespace DocFilter.CommandLine

/-- A machine in memory. -/
structure Machine where
  input : Except Text Text
  web : Http.Script
  redis : Redis.Server
  /-- What was printed so far. -/
  output : Text := []

/-- Answers what a session asks. Nothing is random on this machine, and the log is thrown away. -/
def Machine.answer (h : Host) (m : Machine) : h.Answer × Machine :=
  match h with
  | .input => (m.input, m)
  | .print t => ((), { m with output := m.output ++ t })
  | .log _ => ((), m)
  | .exchange request =>
    let (reply, web) := m.web.answer request
    (reply, { m with web })
  | .store command =>
    let (reply, redis) := m.redis.answer command
    (reply, { m with redis })
  | .random count => (List.replicate count 0, m)

/-- Carries out a command line on a machine: how it ended, and the machine afterwards. -/
def Machine.run (m : Machine) (w : Settings.Surroundings) (words : List Text) :
    Except SessionError Unit × Machine :=
  Program.run Machine.answer (CommandLine.run w words).run m

end DocFilter.CommandLine
