import DocFilter.CommandLine.Flag
import DocFilter.CommandLine.Suggestion

/-!
What a command line asks for. The first word that is neither a flag nor the value of one names the
command; the command says which flags there are and how many arguments it takes.

At that point the flags of the command are not known yet, so every flag without an equals sign is
taken to have the next word as its value.
-/

set_option autoImplicit false

namespace DocFilter.CommandLine

open Text (byte)

/-- The commands. -/
inductive Command where
  | compile
  | find
  | get
  | index
  | version
  | completion
  | help
  deriving DecidableEq, Repr

/-- The commands that are suggested, in order. -/
def Command.suggested : List Command := [.compile, .find, .get, .index, .version, .completion]

/-- All commands. -/
def Command.all : List Command := suggested ++ [.help]

/-- The name of a command. -/
def Command.name : Command → Text
  | .compile => "compile"
  | .find => "find"
  | .get => "get"
  | .index => "index"
  | .version => "version"
  | .completion => "completion"
  | .help => "help"

/-- The command with a name. -/
def Command.ofName? (t : Text) : Option Command := Command.all.find? (·.name == t)

/-- The name of the program. -/
def programName : Text := "docquery"

/-! ## Flags -/

/-- The flags of every command. -/
def commonFlags : List Flag :=
  [⟨"config", none, false⟩, ⟨"log-level", none, false⟩, ⟨"help", some (byte 'h'), true⟩]

/-- The flags that say which filter to use. -/
def filterFlags : List Flag := [⟨"filter", some (byte 'f'), false⟩, ⟨"file", none, false⟩]

/-- The flags of a command. -/
def Command.flags : Command → List Flag
  | .compile => filterFlags ++ [⟨"scope", none, false⟩, ⟨"text", none, true⟩] ++ commonFlags
  | .find => filterFlags ++ [⟨"name", none, false⟩] ++ commonFlags
  | .get => ⟨"name", none, false⟩ :: commonFlags
  | .index =>
    [⟨"type", none, false⟩, ⟨"name", none, false⟩, ⟨"primary", none, true⟩, ⟨"dry-run", none, true⟩] ++
      commonFlags
  | .version | .completion | .help => commonFlags

/-! ## Errors -/

/-- What can be wrong with a command line. -/
inductive UsageError where
  | unknownCommand (word : Text)
  | flag (cause : FlagError)
  /-- A command that takes no arguments has one. -/
  | noArguments (command : Command) (first : Text)
  | exactly (wanted received : Nat)
  | atLeast (wanted received : Nat)
  deriving DecidableEq, Repr

/-- The lines that suggest commands, if there are any. -/
def suggestionLines (word : Text) : Text :=
  match suggestions word (Command.suggested.map Command.name) with
  | [] => []
  | names => "\n\nDid you mean this?\n" ++ names.flatMap fun n => byte '\t' :: n ++ [byte '\n']

/-- The words of the error. -/
def UsageError.message : UsageError → Text
  | .unknownCommand word =>
    "unknown command " ++ Text.quoted word ++ " for " ++ Text.quoted programName ++ suggestionLines word
  | .flag cause => cause.message
  | .noArguments command first =>
    "unknown command " ++ Text.quoted first ++ " for " ++
      Text.quoted (programName ++ " " ++ command.name)
  | .exactly wanted received =>
    "accepts " ++ Text.ofNat wanted ++ " arg(s), received " ++ Text.ofNat received
  | .atLeast wanted received =>
    "requires at least " ++ Text.ofNat wanted ++ " arg(s), only received " ++ Text.ofNat received

/-! ## The command -/

/-- Whether a word is a flag that takes the next word as its value. -/
def takesNext (word : Text) : Bool :=
  let hyphen := byte '-'
  match word with
  | [a, b] => a == hyphen && b != byte '=' && b != hyphen
  | a :: b :: _ => a == hyphen && b == hyphen && !word.contains (byte '=')
  | _ => false

/-- Whether a word is a flag. -/
def isFlag (word : Text) : Bool := word.head? == some (byte '-')

/-- The words that are neither flags nor their values, up to two hyphens alone. A flag whose value
would be the last word, or is not there, ends them. -/
def plainWords : List Text → List Text
  | [] => []
  | word :: rest =>
    if word == Text.ofString "--" then []
    else if takesNext word then
      match rest with
      | [] | [_] => []
      | _ :: rest => plainWords rest
    else if isFlag word || word.isEmpty then plainWords rest
    else word :: plainWords rest

/-- The words without the first that is `name` and neither a flag nor the value of one. -/
def without (name : Text) : List Text → List Text
  | [] => []
  | word :: rest =>
    if word == Text.ofString "--" then word :: rest
    else if takesNext word then
      match rest with
      | [] => [word]
      | given :: rest => word :: given :: without name rest
    else if word == name then rest
    else word :: without name rest

/-- The command that is asked for, and the words for it. Without a word that could name one there is
no command. -/
def findCommand (words : List Text) : Except UsageError (Option Command × List Text) :=
  match plainWords words with
  | [] => .ok (none, words)
  | name :: _ =>
    match Command.ofName? name with
    | none => .error (.unknownCommand name)
    | some c => .ok (some c, without name words)

/-! ## Invocations -/

/-- Where a filter comes from: it is written on the command line or in a file. -/
structure FilterSource where
  inline : Text
  file : Text
  deriving DecidableEq, Repr

/-- What is to be done. -/
inductive Task where
  | help
  | version
  | compile (filter : FilterSource) (scope : Text) (textOnly : Bool)
  | find (filter : FilterSource) (name : Text)
  | get (name id : Text)
  | index (documentType name : Text) (primary dryRun : Bool) (fields : List Text)
  deriving DecidableEq, Repr

/-- A command line that makes sense. -/
structure Invocation where
  task : Task
  /-- The file of settings, empty if it is to be looked for. -/
  settings : Text
  /-- The level of the log, empty if the settings have it. -/
  logLevel : Text
  deriving DecidableEq, Repr

/-- The source of a filter that the flags give. -/
def filterSource (w : Words) : FilterSource := ⟨w.text "filter", w.text "file"⟩

/-- Demands that there are no arguments. -/
def withoutArguments (c : Command) (w : Words) (t : Task) : Except UsageError Task :=
  match w.arguments with
  | [] => .ok t
  | first :: _ => .error (.noArguments c first)

/-- What a command with its words is to do. -/
def task (c : Command) (w : Words) : Except UsageError Task :=
  match c with
  | .compile => withoutArguments c w (.compile (filterSource w) (w.text "scope") (w.isOn "text"))
  | .find => withoutArguments c w (.find (filterSource w) (w.text "name"))
  | .get =>
    match w.arguments with
    | [id] => .ok (.get (w.text "name") id)
    | arguments => .error (.exactly 1 arguments.length)
  | .index =>
    if w.arguments.isEmpty then .error (.atLeast 1 0)
    else .ok (.index (w.text "type") (w.text "name") (w.isOn "primary") (w.isOn "dry-run") w.arguments)
  | .version => withoutArguments c w .version
  | .completion | .help => .ok .help

/-- What a command line asks for. -/
def parse (words : List Text) : Except UsageError Invocation := do
  let (command, words) ← findCommand words
  let flags := (command.map Command.flags).getD commonFlags
  let w ← (takeWords flags words {}).mapError .flag
  let t ←
    match command with
    | none => pure Task.help
    | some c => if w.isOn "help" then pure Task.help else task c w
  return ⟨t, w.text "config", w.text "log-level"⟩

end DocFilter.CommandLine
