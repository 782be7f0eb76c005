import DocFilter.CommandLine.Invocation
import DocFilter.Document.Source
import DocFilter.Index
import DocFilter.QueryService
import DocFilter.Redis
import DocFilter.Service.Find
import DocFilter.Settings
import DocFilter.Uuid

/-!
Carrying out a command line. The session is a program: it reads input, prints, logs and talks to
servers, and what it does in which order is visible in it. The settings are read before anything is
done, except to show the version or to help.

`Session.run` is `Execute` over `NewRootCommand`; `compileTask`, `findTask`, `getTask` and
`indexTask` are what `newCompileCommand`, `newFindCommand`, `newGetCommand` and `newIndexCommand`
run, `filterOf` is `filterFlags.document`, and `serviceOf` is `app.service`.
-/

set_option autoImplicit false

namespace DocFilter.CommandLine

open Text (byte)

/-- What a session asks of the machine it runs on. -/
inductive Host where
  /-- The whole input. -/
  | input
  | print (t : Text)
  | log (entry : LogEntry)
  | exchange (request : Http.Request)
  | store (command : Redis.Command)
  | random (count : Nat)

/-- The answers to what a session asks. -/
def Host.Answer : Host → Type
  | .input => Except Text Text
  | .print _ => Unit
  | .log _ => Unit
  | .exchange _ => Http.Reply
  | .store _ => Redis.Reply
  | .random _ => List UInt8

/-- Programs that run on a machine. -/
abbrev HostTask := Program Host Host.Answer

/-- The program that asks one thing. -/
def Host.ask (h : Host) : HostTask h.Answer := Program.perform h

/-- Why a session ended early. -/
inductive SessionError where
  | usage (cause : UsageError)
  | settings (cause : Settings.LoadError)
  /-- A filter on the command line and one in a file. -/
  | twoFilters
  /-- The filter cannot be read, in the words of whoever tried. -/
  | unreadable (words : Text)
  | source (cause : SourceError)
  | query (cause : QueryError)
  | output (cause : EncodeError)
  | setup (cause : SetupError)
  | consistency (cause : Consistency.Unknown)
  | service (cause : ServiceError)
  | index (cause : IndexError)

/-- The words of the error. -/
def SessionError.message : SessionError → Text
  | .usage cause => cause.message
  | .settings cause => cause.message
  | .twoFilters => "--filter and --file are mutually exclusive"
  | .unreadable words => words
  | .source cause => cause.message
  | .query cause => cause.message
  | .output cause => cause.message
  | .setup cause => cause.message
  | .consistency cause => cause.message
  | .service cause => cause.message
  | .index cause => cause.message

/-- A session, which may end early. -/
abbrev Session (α : Type) := ExceptT SessionError HostTask α

/-- A result that may be an error of a session. -/
def orEnd {ε α : Type} (toError : ε → SessionError) (r : Except ε α) : Session α :=
  ExceptT.mk (pure (r.mapError toError))

/-- Asks something within a session. -/
def ask (h : Host) : Session h.Answer := ExceptT.lift h.ask

/-- Prints a line. -/
def printLine (t : Text) : Session Unit := ask (.print (t ++ [byte '\n']))

/-- Prints a tree with one element on a line. -/
def printTree (r : Except EncodeError Json) : Session Unit := do
  printLine ((← orEnd .output r).indented 0)

/-! ## Servers -/

/-- How severe a level of the log is. -/
def logSeverity : LogLevel → Severity
  | .debug => -4
  | .info => Severity.info
  | .error => 8

/-- Writes to the log what is severe enough for the settings. -/
def writeLog (s : Settings) (entry : LogEntry) : HostTask Unit :=
  if s.severity ≤ logSeverity entry.level then Host.ask (.log entry) else pure ()

/-- The query service of the settings. -/
def queryService (s : Settings) : QueryService where
  endpoint := s.queryEndpoint
  user := s.username
  password := s.password
  timeout := s.queryTimeout

/-- Sends a statement to the query service. -/
def sendCall (s : Settings) (call : Call) : HostTask (Except BackendError QueryResult) :=
  ((queryService s).query call).runM fun request => Host.ask (.exchange request)

/-- Has a program of the keyed store carried out by its server. -/
def onStore {α : Type} (task : Redis.Session α) : HostTask α :=
  task.runM fun command => Host.ask (.store command)

/-- What a service asks for, asked of the machine. -/
def answerEffect (s : Settings) : (e : Effect) → HostTask e.Answer
  | .get key => onStore (({} : Redis.Client).get key)
  | .insert key raw => onStore (({} : Redis.Client).insert key raw)
  | .replace key raw => onStore (({} : Redis.Client).replace key raw)
  | .remove key => onStore (({} : Redis.Client).remove key)
  | .query call => sendCall s call
  | .log entry => writeLog s entry
  | .freshId => do return Uuid.ofRandom (← Host.ask (.random 16))

/-- Carries out an operation of a service. -/
def onService {α : Type} (s : Settings) (task : ServiceResult α) : Session α :=
  ExceptT.mk do return (← task.run.runM (answerEffect s)).mapError .service

/-- The service of the settings, for a document type that is given or theirs. -/
def serviceOf (s : Settings) (name : Text) : Session Service :=
  orEnd .setup (Service.setUp s.bucket (if name.isEmpty then s.name else name) s.idField s.separator
    true true ⟨s.paginateDefault, s.paginateMax⟩)

/-! ## Tasks -/

/-- The text of a filter: what is on the command line, or in the file, of which a hyphen stands for
the input; without either it is empty. -/
def filterText (w : Settings.Surroundings) (f : FilterSource) : Session Text := do
  if !f.inline.isEmpty && !f.file.isEmpty then throw .twoFilters
  else if !f.inline.isEmpty then return f.inline
  else if f.file == Text.ofString "-" then
    let read : Except Text Text ← ask .input
    orEnd .unreadable read
  else if f.file.isEmpty then return []
  else orEnd .unreadable (w.read f.file)

/-- The filter of a task. -/
def filterOf (w : Settings.Surroundings) (f : FilterSource) : Session Document := do
  orEnd .source (Document.parse (← filterText w f))

/-- The tree of a statement. -/
def statementTree (s : Statement) : Except EncodeError Json := do
  let params ← Value.itemsToJson s.params
  return .object [(Text.ofString "params", .array params), (Text.ofString "statement", .string s.text)]

/-- The tree of a page. -/
def pageTree (p : Page) : Except EncodeError Json := do
  let data ← Value.itemsToJson (p.data.map Row.asValue)
  return .object
    [(Text.ofString "total", .number (Text.ofInt p.total)),
      (Text.ofString "limit", .number (Text.ofNat p.limit)),
      (Text.ofString "skip", .number (Text.ofNat p.skip)),
      (Text.ofString "data", .array data)]

/-- Compiles a filter and prints the statement. -/
def compileTask (s : Settings) (filter : Document) (scope : Text) (textOnly : Bool) : Session Unit := do
  let directives ← orEnd .query (interpret filter)
  let statement ← orEnd .query (compile { scope } directives)
  writeLog s ⟨.debug, "compiled",
    [("statement", statement.text), ("params", Text.ofNat statement.params.length)]⟩
  if textOnly then printLine statement.text else printTree (statementTree statement)

/-- Finds documents and prints the page. -/
def findTask (s : Settings) (filter : Document) (name : Text) : Session Unit := do
  let service ← serviceOf s name
  let level ← orEnd .consistency s.scanConsistency
  let options := if level.isEmpty then [] else [FindOption.consistency level]
  let page ← onService s (service.find filter options)
  printTree (pageTree page)

/-- Fetches a document and prints it. -/
def getTask (s : Settings) (name id : Text) : Session Unit := do
  let service ← serviceOf s name
  let row ← onService s (service.get id)
  printTree (Row.asValue row).toJson

/-- Creates an index, or prints the statements that would. -/
def indexTask (s : Settings) (documentType name : Text) (primary dryRun : Bool) (fields : List Text) :
    Session Unit := do
  let documentType := if documentType.isEmpty then s.name else documentType
  let definition ← orEnd .index (Index.ofFields s.bucket fields { name, documentType })
  if dryRun then
    if primary then printLine (Index.primaryText s.bucket)
    printLine definition.text
  else
    let created : HostTask (Except IndexError Unit) :=
      (Index.create s.bucket definition.text primary).runM (sendCall s)
    orEnd .index (← created)
    writeLog s ⟨.info, "index ready", [("statement", definition.text)]⟩

/-- The version of the program. -/
def version : Text := "dev"

/-- How the program is used. -/
def usage : Text :=
  Text.join "\n"
    ["Compile and run filter documents against a document store", "",
      "Usage:", "  docquery [command]", "",
      "Commands:",
      "  compile     Print the statement and parameters for a filter document",
      "  find        Run a filter document against the configured bucket",
      "  get         Fetch one document by id",
      "  index       Create a secondary index over fields of one document type",
      "  version     Print the version", "",
      "Flags:",
      "      --config string      config file (default .docquery.yaml)",
      "      --log-level string   debug, info, warn or error"]

/-- The settings for an invocation. -/
def settingsOf (w : Settings.Surroundings) (i : Invocation) : Session Settings := do
  let s ← orEnd .settings (Settings.load w i.settings).outcome
  return if i.logLevel.isEmpty then s else { s with logLevel := i.logLevel }

/-- Carries out an invocation. -/
def Invocation.run (w : Settings.Surroundings) (i : Invocation) : Session Unit := do
  match i.task with
  | .help => printLine usage
  | .version => printLine (programName ++ " " ++ version)
  | .compile filter scope textOnly =>
    let s ← settingsOf w i
    compileTask s (← filterOf w filter) scope textOnly
  | .find filter name =>
    let s ← settingsOf w i
    findTask s (← filterOf w filter) name
  | .get name id => getTask (← settingsOf w i) name id
  | .index documentType name primary dryRun fields =>
    indexTask (← settingsOf w i) documentType name primary dryRun fields

/-- Carries out a command line. -/
def run (w : Settings.Surroundings) (words : List Text) : Session Unit := do
  (← orEnd .usage (parse words)).run w

/-- The files that an invocation reads apart from those with settings. -/
def Invocation.files (i : Invocation) : List Text :=
  match i.task with
  | .compile filter _ _ => [filter.file]
  | .find filter _ => [filter.file]
  | _ => []

end DocFilter.CommandLine
