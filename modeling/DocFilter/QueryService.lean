import DocFilter.Backend
import DocFilter.Http
import DocFilter.Json.Raw
import DocFilter.Program
import DocFilter.Rows.Record
import DocFilter.Text.Base64
import DocFilter.Url

/-!
The database behind a query service. A statement with its arguments is posted as a JSON object; the
reply is a JSON object with the rows, or with errors, or with neither and a status that says that
something went wrong.

`query` is `QueryService.Query` with its `do`; `timeoutText` is `durationParam`, and
`basicAuthorization` is what `WithBasicAuth` leads to.
-/

set_option autoImplicit false

namespace DocFilter

open Text (byte)

/-- A query service: where it is, who asks, and how long a statement may take, in nanoseconds; a
time that is not positive leaves it to the service. -/
structure QueryService where
  endpoint : Text
  user : Text := []
  password : Text := []
  timeout : Int := 0

namespace QueryService

/-- Programs that talk to a server. -/
abbrev Exchange := Program Http.Request fun _ => Http.Reply

/-! ## The request -/

/-- A time limit as the service reads it: whole milliseconds. -/
def timeoutText (nanoseconds : Int) : Text :=
  if nanoseconds ≤ 0 then [] else Text.ofInt (nanoseconds / 1000000) ++ "ms"

/-- A member that is left out if its text is empty. -/
def optionalMember (key : String) (t : Text) : List (Text × Json) :=
  if t.isEmpty then [] else [(Text.ofString key, .string t)]

/-- The body of a request. -/
def body (q : QueryService) (call : Call) : Except EncodeError Text := do
  let args ← Value.itemsToJson call.args
  let argsMember : List (Text × Json) := if args.isEmpty then [] else [("args", .array args)]
  let members := (Text.ofString "statement", .string call.statement) :: argsMember ++
    optionalMember "scan_consistency" call.consistency ++
    optionalMember "timeout" (timeoutText q.timeout)
  return (Json.object members).compact

/-- Credentials for a user with a password. -/
def basicAuthorization (user password : Text) : Text :=
  "Basic " ++ Text.toBase64 (user ++ [byte ':'] ++ password)

/-- The address that statements are posted to. -/
def address (q : QueryService) : Text :=
  Text.dropEndWhile (· == byte '/') q.endpoint ++ "/query/service"

/-- The credentials of a request: those of the service, else those in its address. -/
def authorization (q : QueryService) (u : Url) : Text :=
  if q.user.isEmpty then
    match u.user with
    | none => []
    | some w => basicAuthorization w.name (w.password.getD [])
  else basicAuthorization q.user q.password

/-! ## The reply -/

/-- The reply of a service. The rows are not read yet. -/
structure Response where
  status : Text := []
  errors : List (Int × Text) := []
  results : List Text := []
  metrics : Metrics := {}

namespace Response

/-- The text of a member; nothing leaves it as it is. -/
def textMember? (old raw : Text) : Option Text :=
  match Json.parse raw with
  | .ok (.string t) => some t
  | .ok .null => some old
  | _ => none

/-- The integer of a member; nothing leaves it as it is. -/
def intMember? (old : Int) (raw : Text) : Option Int :=
  match Json.parse raw with
  | .ok (.number literal) => (readInteger .int literal).toOption
  | .ok .null => some old
  | _ => none

/-- Takes the members of an object into a structure one after the other; nothing leaves it as it
is. -/
def object? {α : Type} (take : α → Text → Text → Option α) (a : α) (raw : Text) : Option α :=
  if Json.Raw.isNull raw then some a
  else
    let found := Json.Raw.members raw
    if found.proper then
      found.items.foldlM (fun a (key, raw) => take a (key.map Text.lowerAscii) raw) a
    else none

/-- The raw texts of the elements of an array; nothing has none. -/
def array? (raw : Text) : Option (List Text) :=
  if Json.Raw.isNull raw then some []
  else
    let found := Json.Raw.elements raw
    if found.proper then some found.items else none

/-- Takes a member into an error. -/
def takeError (e : Int × Text) (key raw : Text) : Option (Int × Text) :=
  if key == Text.ofString "code" then (intMember? e.1 raw).map (·, e.2)
  else if key == Text.ofString "msg" then (textMember? e.2 raw).map (e.1, ·)
  else some e

/-- Takes a member into the metrics. -/
def takeMetric (m : Metrics) (key raw : Text) : Option Metrics :=
  if key == Text.ofString "elapsedtime" then
    (textMember? m.elapsedTime raw).map fun t => { m with elapsedTime := t }
  else if key == Text.ofString "executiontime" then
    (textMember? m.executionTime raw).map fun t => { m with executionTime := t }
  else if key == Text.ofString "resultcount" then
    (intMember? m.resultCount raw).map fun n => { m with resultCount := n }
  else if key == Text.ofString "resultsize" then
    (intMember? m.resultSize raw).map fun n => { m with resultSize := n }
  else some m

/-- Takes a member into the reply. -/
def take (r : Response) (key raw : Text) : Option Response :=
  if key == Text.ofString "requestid" then (textMember? [] raw).map fun _ => r
  else if key == Text.ofString "results" then (array? raw).map fun results => { r with results }
  else if key == Text.ofString "status" then
    (textMember? r.status raw).map fun status => { r with status }
  else if key == Text.ofString "errors" then do
    let errors ← (← array? raw).mapM (object? takeError (0, []))
    return { r with errors }
  else if key == Text.ofString "metrics" then
    (object? takeMetric r.metrics raw).map fun metrics => { r with metrics }
  else some r

/-- Reads the body of a reply. -/
def parse? (raw : Text) : Option Response := object? take {} raw

/-- Reads rows; `index` is the number of the first. -/
def rows : (index : Nat) → List Text → Except BackendError (List (Option Row))
  | _, [] => .ok []
  | index, raw :: rest =>
    match (Json.read raw).bind Json.toRow with
    | .error e =>
      .error (.failure
        ("driver: result " ++ Text.ofNat index ++ " is not an object: " ++ e.message))
    | .ok row => do return row :: (← rows (index + 1) rest)

/-- What a reply with a status code says: an error that it reports, an error that its status stands
for, or rows. -/
def result (code : Nat) (r : Response) : Except BackendError QueryResult :=
  match r.errors with
  | (c, message) :: _ => .error (.service ⟨r.status, c, message⟩)
  | [] =>
    if 300 ≤ code || !(r.status.isEmpty || r.status == Text.ofString "success") then
      .error (.service ⟨r.status, code, Http.statusText code⟩)
    else do return ⟨← rows 0 r.results, r.metrics⟩

end Response

/-- What a reply stands for. -/
def readReply (u : Url) : Http.Reply → Except BackendError QueryResult
  | .failed words =>
    .error (.failure ("driver: query service: Post " ++ Text.quoted u.shown ++ ": " ++ words))
  | .interrupted words => .error (.failure ("driver: read query response: " ++ words))
  | .received status raw =>
    match Response.parse? raw with
    | none =>
      .error (.failure ("driver: decode query response (HTTP " ++ Text.ofNat status ++ "): " ++
        Json.Malformed.malformed.message))
    | some r => r.result status

/-- Sends a statement. What is wrong with the arguments or the address shows before anything is
sent. -/
def query (q : QueryService) (call : Call) : Exchange (Except BackendError QueryResult) := do
  match q.body call with
  | .error e => return .error (.badArguments e)
  | .ok body =>
    match Url.parse q.address with
    | .error e => return .error (.failure e.message)
    | .ok u =>
      let u := u.withoutEmptyPort
      let request : Http.Request :=
        ⟨"POST", u.text, body, "application/json", q.authorization u⟩
      let reply ← Program.perform request
      return readReply u reply

end QueryService
end DocFilter
