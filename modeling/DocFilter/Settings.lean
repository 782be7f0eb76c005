import DocFilter.Consistency
import DocFilter.Duration
import DocFilter.Settings.File
import DocFilter.Settings.Level
import DocFilter.Value.Coerce

/-!
The settings of the program and where they come from. A setting is looked for first among the
variables of the environment, then in a file of settings, and has a default if it is in neither.

Two files of variables, a local and a shared one, add to the environment what is not in it; the local
one comes first. A variable that is there but empty keeps them from adding it, and yet leaves the
setting to the file of settings: for the first question it counts as set, for the second it does not.

`load` is `config.Load`, `addFiles` is `loadDotenv`, `scanConsistency` is `ScanConsistency` and
`severity` is `Level`.
-/

set_option autoImplicit false

namespace DocFilter

open Text (byte)

/-- What the program is told. Times are in nanoseconds. -/
structure Settings where
  queryEndpoint : Text
  username : Text
  password : Text
  bucket : Text
  name : Text
  idField : Text
  separator : Text
  redisAddress : Text
  redisPassword : Text
  redisDatabase : Int
  paginateDefault : Int
  paginateMax : Int
  consistency : Text
  queryTimeout : Int
  logLevel : Text
  deriving DecidableEq, Repr

namespace Settings

/-! ## Keys -/

/-- The keys of the settings. -/
inductive Key where
  | queryEndpoint
  | username
  | password
  | bucket
  | name
  | idField
  | separator
  | redisAddress
  | redisPassword
  | redisDatabase
  | paginateDefault
  | paginateMax
  | consistency
  | queryTimeout
  | logLevel
  deriving DecidableEq, Repr

/-- All keys. -/
def Key.all : List Key :=
  [.queryEndpoint, .username, .password, .bucket, .name, .idField, .separator, .redisAddress,
    .redisPassword, .redisDatabase, .paginateDefault, .paginateMax, .consistency, .queryTimeout, .logLevel]

/-- A key as files write it. -/
def Key.word : Key → Text
  | .queryEndpoint => "query_endpoint"
  | .username => "username"
  | .password => "password"
  | .bucket => "bucket"
  | .name => "name"
  | .idField => "id_field"
  | .separator => "separator"
  | .redisAddress => "redis_addr"
  | .redisPassword => "redis_password"
  | .redisDatabase => "redis_db"
  | .paginateDefault => "paginate_default"
  | .paginateMax => "paginate_max"
  | .consistency => "consistency"
  | .queryTimeout => "query_timeout"
  | .logLevel => "log_level"

/-- The variable of the environment for a key. -/
def Key.variableName (k : Key) : Text := "DOCQUERY_" ++ Text.toUpper k.word

/-- What a setting is if nothing says otherwise. -/
def Key.default : Key → Value
  | .queryEndpoint => .text "http://localhost:8093"
  | .bucket => .text "default"
  | .idField => .text "uuid"
  | .separator => .text "::"
  | .redisAddress => .text "localhost:6379"
  | .queryTimeout => .text "75s"
  | .logLevel => .text "info"
  | .redisDatabase | .paginateDefault | .paginateMax => .int .int 0
  | .username | .password | .name | .redisPassword | .consistency => .null

/-! ## Surroundings -/

/-- What the program finds around it when it starts. -/
structure Surroundings where
  /-- The text of a file, or words that say why it cannot be read. -/
  read : Text → Except Text Text
  /-- Whether a name is that of a file. -/
  isFile : Text → Bool
  /-- The variables of the environment. -/
  getVariable : Text → Option Text
  workingDirectory : Text

/-- The name of a file in a directory. -/
def inDirectory (directory name : Text) : Text :=
  Text.dropEndWhile (· == byte '/') directory ++ byte '/' :: name

/-- The directories in which a file of settings is looked for. -/
def directories (workingDirectory : Text) (home : Option Text) : List Text :=
  match home with
  | none | some [] => [workingDirectory]
  | some home => [workingDirectory, home, inDirectory home ".config/docquery"]

/-- The names under which a file of settings is looked for in a directory. -/
def fileNames : List Text :=
  endings.map (Text.ofString ".docquery." ++ ·) ++ [Text.ofString ".docquery"]

/-- All names under which a file of settings is looked for, in order. -/
def candidates (workingDirectory : Text) (home : Option Text) : List Text :=
  (directories workingDirectory home).flatMap fun d => fileNames.map (inDirectory d)

/-- The files that add to the environment, the stronger first. -/
def variableFiles : List Text := [".env.local", ".env"]

/-! ## Errors -/

/-- Why there are no settings. -/
inductive LoadError where
  | file (name : Text) (cause : FileError)
  | dotenv (name : Text) (cause : Dotenv.ParseError)
  deriving DecidableEq, Repr

/-- The words of the error. -/
def LoadError.message : LoadError → Text
  | .file name cause => "config: read " ++ name ++ ": " ++ cause.message
  | .dotenv name cause => "config: parse " ++ name ++ ": " ++ cause.message

/-! ## The file of settings -/

/-- Reads a file of settings with a reader, if its format is one that can be read at all. -/
def readFile (reader : Reader) (w : Surroundings) (format : Option Format) (name : Text) :
    Except LoadError Table :=
  match w.read name, format with
  | .error words, _ => .error (.file name (.unreadable words))
  | .ok _, none => .error (.file name .noReader)
  | .ok t, some f => (reader f t).mapError (.file name)

/-- The table of the file of settings. Without a path the first file that there is counts, which
need not be one, and which is read as YAML whatever its ending. -/
def fileTable (reader : Reader) (w : Surroundings) (path : Text) : Except LoadError Table :=
  if path.isEmpty then
    match (candidates w.workingDirectory (w.getVariable "HOME")).find? w.isFile with
    | none => .ok []
    | some name => readFile reader w (some .yaml) name
  else if endings.contains (ending path) then readFile reader w (Format.ofEnding? (ending path)) path
  else .error (.file path (.unknownEnding (ending path)))

/-! ## The environment -/

/-- Variables that were added to the environment, in order. -/
abbrev Exports := List (Text × Text)

/-- A variable of the environment with what was added to it. -/
def environment (w : Surroundings) (exports : Exports) (name : Text) : Option Text :=
  match w.getVariable name with
  | some value => some value
  | none => exports.lookup name

/-- Whether an environment can hold a variable: it has a name, and no zero byte ends its value
early. -/
def canExport (name value : Text) : Bool := !name.isEmpty && !value.contains 0

/-- Adds a variable to the environment, unless it is set already. -/
def addVariable (w : Surroundings) (exports : Exports) (entry : Text × Text) : Exports :=
  if (environment w exports entry.1).isSome || !canExport entry.1 entry.2 then exports
  else exports ++ [entry]

/-- Adds the variables of files to the environment. A file that cannot be read has none; a file that
cannot be understood ends it, with what was added before. -/
def addFiles (w : Surroundings) : Exports → List Text → Exports × Except LoadError Unit
  | exports, [] => (exports, .ok ())
  | exports, name :: rest =>
    match w.read name with
    | .error _ => addFiles w exports rest
    | .ok t =>
      match Dotenv.parse t with
      | .error e => (exports, .error (.dotenv name e))
      | .ok vars => addFiles w (vars.foldl (addVariable w) exports) rest

/-! ## Values -/

/-- The value of a setting: that of its variable unless it is empty, else that in the table unless
it is nothing, else the default. -/
def value (env : Text → Option Text) (table : Table) (k : Key) : Value :=
  match env k.variableName with
  | some (b :: rest) => .text (b :: rest)
  | _ =>
    match table.lookup k.word with
    | none | some .null => k.default
    | some v => v

/-- A value as a text; one that has no text is empty. -/
def asText (v : Value) : Text :=
  match v.toText with
  | .ok t => t
  | .error _ => []

/-- A value as an integer; one that is no number is zero. -/
def asInt (v : Value) : Int :=
  match v.toInt64 with
  | .ok n => n
  | .error _ => 0

/-- A value as a time: a number counts nanoseconds, a text is read, and anything else is no time. -/
def asDuration : Value → Int
  | .int ty n => asInt (.int ty n)
  | .float ty x => asInt (.float ty x)
  | .text t => (Duration.parseLenient? t).getD 0
  | _ => 0

/-- The settings that the sources give. -/
def ofSources (env : Text → Option Text) (table : Table) : Settings where
  queryEndpoint := asText (value env table .queryEndpoint)
  username := asText (value env table .username)
  password := asText (value env table .password)
  bucket := asText (value env table .bucket)
  name := asText (value env table .name)
  idField := asText (value env table .idField)
  separator := asText (value env table .separator)
  redisAddress := asText (value env table .redisAddress)
  redisPassword := asText (value env table .redisPassword)
  redisDatabase := asInt (value env table .redisDatabase)
  paginateDefault := asInt (value env table .paginateDefault)
  paginateMax := asInt (value env table .paginateMax)
  consistency := asText (value env table .consistency)
  queryTimeout := asDuration (value env table .queryTimeout)
  logLevel := asText (value env table .logLevel)

/-- What comes of looking for settings: what was added to the environment, and the settings or why
there are none. -/
structure Loaded where
  exports : Exports
  outcome : Except LoadError Settings

/-- Looks for the settings, with a reader for the file of settings. This file is read first: if it
cannot be used, nothing is added to the environment. -/
def loadWith (reader : Reader) (w : Surroundings) (path : Text) : Loaded :=
  match fileTable reader w path with
  | .error e => ⟨[], .error e⟩
  | .ok table =>
    match addFiles w [] variableFiles with
    | (exports, .error e) => ⟨exports, .error e⟩
    | (exports, .ok ()) => ⟨exports, .ok (ofSources (environment w exports) table)⟩

/-- Looks for the settings. The file of settings is read in the environment as it was found. -/
def load (w : Surroundings) (path : Text) : Loaded := loadWith (readTable w.getVariable) w path

/-! ## Readings -/

/-- The level of consistency that the settings ask for; none leaves it to the service. -/
def scanConsistency (s : Settings) : Except Consistency.Unknown Consistency :=
  if s.consistency.isEmpty then .ok [] else Consistency.parse s.consistency

/-- The level from which on messages are logged. -/
def severity (s : Settings) : Severity := (Severity.parse? s.logLevel).getD Severity.info

end Settings
end DocFilter
