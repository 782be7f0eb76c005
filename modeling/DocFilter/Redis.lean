import DocFilter.Backend
import DocFilter.Program

/-!
A keyed store on a Redis server. Every operation of the store is one command, so it is atomic on the
server: inserting sets a key that must not be there, replacing sets one that must, and the reply
tells which of the two was the case.

`Client.get`, `insert`, `replace` and `remove` are the methods of `RedisKV`, and `Expiry` is its
`WithTTL`.
-/

set_option autoImplicit false

namespace DocFilter.Redis

/-- Whether a key has to be free or taken when it is set. -/
inductive Condition where
  | free
  | taken
  deriving DecidableEq, Repr

/-- How long a key lives. -/
inductive Expiry where
  | never
  | seconds (n : Int)
  | milliseconds (n : Int)
  deriving DecidableEq, Repr

/-- The life of a key for a time in nanoseconds: whole seconds if they are, else milliseconds, of
which there is at least one if there is any time at all. -/
def Expiry.ofNanoseconds (n : Int) : Expiry :=
  if n == 0 then .never
  else if n < 1000000000 || n % 1000000000 != 0 then
    .milliseconds (if 0 < n && n < 1000000 then 1 else Int.tdiv n 1000000)
  else .seconds (n / 1000000000)

/-- The words of a life. -/
def Expiry.words : Expiry → List Text
  | .never => []
  | .seconds n => ["ex", Text.ofInt n]
  | .milliseconds n => ["px", Text.ofInt n]

/-- A command. -/
inductive Command where
  | get (key : Text)
  | set (key value : Text) (expiry : Expiry) (condition : Condition)
  | del (key : Text)
  deriving DecidableEq, Repr

/-- The word that asks for a condition. -/
def Condition.word : Condition → Text
  | .free => "nx"
  | .taken => "xx"

/-- A command as it is sent. A free key that lives for ever is set by a command of its own. -/
def Command.words : Command → List Text
  | .get key => ["get", key]
  | .set key value .never .free => ["setnx", key, value]
  | .set key value expiry condition =>
    Text.ofString "set" :: key :: value :: (expiry.words ++ [condition.word])
  | .del key => ["del", key]

/-- What a server answers. -/
inductive Reply where
  | error (words : Text)
  | value (t : Text)
  /-- Whether anything was done. -/
  | outcome (done : Bool)
  | nothing
  deriving DecidableEq, Repr

/-- Programs that send commands to a server. -/
abbrev Session := Program Command fun _ => Reply

/-- A client: how long the keys it sets live, and whether it was closed. -/
structure Client where
  /-- The life of keys in nanoseconds; zero is for ever. -/
  ttl : Int := 0
  closed : Bool := false
  deriving DecidableEq, Repr

namespace Client

/-- The words of a client that was closed. -/
def closedWords : Text := "redis: client is closed"

/-- How a server begins the words with which it asks to be tried again. -/
def busyWords : List Text := ["LOADING ", "READONLY ", "MASTERDOWN ", "CLUSTERDOWN ", "TRYAGAIN "]

/-- Whether a reply asks to be tried again. -/
def isBusy : Reply → Bool
  | .error words =>
    words == Text.ofString "ERR max number of clients reached" || busyWords.any (·.isPrefixOf words)
  | _ => false

/-- Sends a command, and up to `retries` times again as long as the server is busy. -/
def sendAgain (command : Command) : (retries : Nat) → Session Reply
  | 0 => Program.perform command
  | retries + 1 => do
    let reply ← Program.perform command
    if isBusy reply then sendAgain command retries else return reply

/-- Sends a command, unless the client was closed. A busy server is tried four times. -/
def send (c : Client) (command : Command) : Session Reply :=
  if c.closed then return .error closedWords else sendAgain command 3

/-- What an operation makes of a reply that only tells whether anything was done. -/
def done (otherwise : BackendError) : Reply → Except BackendError Unit
  | .error words => .error (.failure words)
  | .outcome true => .ok ()
  | _ => .error otherwise

/-- Reads a document. -/
def get (c : Client) (key : Text) : Session (Except BackendError Text) := do
  match ← c.send (.get key) with
  | .error words => return .error (.failure words)
  | .value t => return .ok t
  | _ => return .error .keyNotFound

/-- Adds a document under a free key. -/
def insert (c : Client) (key raw : Text) : Session (Except BackendError Unit) := do
  return done .keyExists (← c.send (.set key raw (.ofNanoseconds c.ttl) .free))

/-- Puts a document in place of another. -/
def replace (c : Client) (key raw : Text) : Session (Except BackendError Unit) := do
  return done .keyNotFound (← c.send (.set key raw (.ofNanoseconds c.ttl) .taken))

/-- Removes a document. -/
def remove (c : Client) (key : Text) : Session (Except BackendError Unit) := do
  return done .keyNotFound (← c.send (.del key))

/-- Closes the client; nothing can be done with it afterwards. -/
def close (c : Client) : Except BackendError Unit × Client :=
  if c.closed then (.error (.failure closedWords), c) else (.ok (), { c with closed := true })

end Client
end DocFilter.Redis
