import DocFilter.CommandLine.Session

/-!
The program. It gathers what a session may look at, lets the session run, and does what the session
asks: reading the input, printing, logging. It has no network: an exchange with a server fails, and
the session reports it.

This is `main`.
-/

set_option autoImplicit false

namespace DocFilter

open CommandLine (Host)

/-- The bytes of a text. -/
def bytesOf (t : Text) : ByteArray := ⟨t.toArray⟩

/-- The words for a file that cannot be read. -/
def unreadableWords (name : Text) (e : IO.Error) : Text :=
  let reason : Text :=
    match e with
    | .noFileOrDirectory .. => "no such file or directory"
    | .permissionDenied .. => "permission denied"
    | e => Text.ofString (toString e)
  "open " ++ name ++ ": " ++ reason

/-- Reads a file. -/
def readFile (name : Text) : IO (Except Text Text) := do
  match Text.toString? name with
  | none => return .error ("open " ++ name ++ ": no such file or directory")
  | some s =>
    try
      return .ok (← IO.FS.readBinFile s).toList
    catch e => return .error (unreadableWords name e)

/-- Reads files that a session may look at. -/
def readFiles (names : List Text) : IO (List (Text × Except Text Text)) :=
  names.mapM fun name => do return (name, ← readFile name)

/-- Reads variables of the environment. -/
def readVariables (names : List Text) : IO (List (Text × Text)) := do
  let found ← names.mapM fun name => do
    match Text.toString? name with
    | none => return none
    | some s => return (← IO.getEnv s).map fun v => (name, Text.ofString v)
  return found.filterMap id

/-- The names of the variables in a file that was read. -/
def variablesIn (file : Text × Except Text Text) : List Text :=
  match file.2.toOption.map Dotenv.parse with
  | some (.ok vars) => vars.map (·.1)
  | _ => []

/-- Gathers the surroundings of an invocation. -/
def gather (i : CommandLine.Invocation) : IO Settings.Surroundings := do
  let here := Text.ofString (← IO.currentDir).toString
  let home := (← IO.getEnv "HOME").map Text.ofString
  let files ← readFiles
    (i.settings :: i.files ++ Settings.candidates here home ++ Settings.variableFiles)
  let vars ← readVariables
    (Text.ofString "HOME" :: Settings.Key.all.map Settings.Key.variableName ++ files.flatMap variablesIn)
  return {
    read := fun name => (files.lookup name).getD (.error ("open " ++ name ++ ": not gathered"))
    isFile := fun name => ((files.lookup name).bind Except.toOption).isSome
    getVariable := fun name => vars.lookup name
    workingDirectory := here }

/-- A line of the log. -/
def logLine (entry : LogEntry) : Text :=
  let level : Text := (CommandLine.logSeverity entry.level).text
  "level=" ++ level ++ " msg=" ++ Text.quoted entry.message ++
    (entry.attributes.flatMap fun (k, v) => Text.byte ' ' :: k ++ Text.byte '=' :: Text.quoted v) ++ [Text.byte '\n']

/-- The words for a server that cannot be reached. -/
def noNetwork : Text := "network is unreachable"

/-- Does what a session asks. -/
def serve : (h : Host) → IO h.Answer
  | .input => do
    try
      return .ok (← (← IO.getStdin).readBinToEnd).toList
    catch e => return .error (Text.ofString (toString e))
  | .print t => do (← IO.getStdout).write (bytesOf t)
  | .log entry => do (← IO.getStderr).write (bytesOf (logLine entry))
  | .exchange _ => return .failed noNetwork
  | .store _ => return .error noNetwork
  | .random count => do return (← IO.getRandomBytes count.toUSize).toList

/-- Carries out a command line. -/
def session (words : List Text) : IO (Except CommandLine.SessionError Unit) := do
  match CommandLine.parse words with
  | .error e => return .error (.usage e)
  | .ok i => Program.runM serve (i.run (← gather i)).run

end DocFilter

/-- Carries out the command line and says what went wrong. -/
def main (words : List String) : IO UInt32 := do
  match ← DocFilter.session (words.map DocFilter.Text.ofString) with
  | .ok () => return 0
  | .error e =>
    let line := DocFilter.Text.ofString "error: " ++ e.message ++ [DocFilter.Text.byte '\n']
    (← IO.getStderr).write (DocFilter.bytesOf line)
    return 1
