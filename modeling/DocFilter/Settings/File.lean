import DocFilter.Json.Strict
import DocFilter.Rows.Stored
import DocFilter.Settings.VariableLines
import DocFilter.Text.Case
import DocFilter.Toml.Table
import DocFilter.Yaml.Table

/-!
Files of settings: tables written in YAML, JSON or TOML, or as variables. The ending of the name of a
file tells which, and keys are the same in upper and lower case. How a text becomes a table is up to a
`Reader`; `readTable` is the one that the program has.
-/

set_option autoImplicit false

namespace DocFilter.Settings

open Text (byte)

/-- The endings that the name of a file of settings may have, in the order in which files are looked
for. -/
def endings : List Text :=
  ["json", "toml", "yaml", "yml", "properties", "props", "prop", "hcl", "tfvars", "dotenv", "env", "ini"]

/-- The formats of files that can be read. -/
inductive Format where
  | yaml
  | json
  | toml
  | variables
  deriving DecidableEq, Repr

/-- The format that an ending stands for. -/
def Format.ofEnding? (t : Text) : Option Format :=
  if t == Text.ofString "yaml" || t == Text.ofString "yml" then some .yaml
  else if t == Text.ofString "json" then some .json
  else if t == Text.ofString "toml" then some .toml
  else if t == Text.ofString "dotenv" || t == Text.ofString "env" then some .variables
  else none

/-- Why a file of settings cannot be used. -/
inductive FileError where
  | unknownEnding (ending : Text)
  /-- The file cannot be read, in the words of whoever tried. -/
  | unreadable (words : Text)
  /-- The ending is known, but not how to read such a file. -/
  | noReader
  | badYaml
  | badJson
  | badToml
  | badVariables (cause : VariableLines.LineError)
  deriving DecidableEq, Repr

/-- The words of the error. -/
def FileError.message : FileError → Text
  | .unknownEnding ending => "Unsupported Config Type " ++ Text.quoted ending
  | .unreadable words => words
  | .noReader => "While parsing config: decoder not found for this format"
  | .badYaml => "While parsing config: yaml: malformed document"
  | .badJson => "While parsing config: " ++ Json.Malformed.malformed.message
  | .badToml => "While parsing config: toml: malformed document"
  | .badVariables cause => "While parsing config: " ++ cause.message

/-- The ending of the name of a file, after the last dot of its last part. -/
def ending (name : Text) : Text :=
  let last := (name.reverse.takeWhile (· != byte '/')).reverse
  let after := (last.reverse.takeWhile (· != byte '.')).reverse
  if after.length == last.length then [] else after

/-- A table of settings: values under keys in lower case. -/
abbrev Table := List (Text × Value)

/-- How the text of a file becomes a table. -/
abbrev Reader := Format → Text → Except FileError Table

/-- The entries of a file. References to variables mean those of `env` before those of the file. -/
def readEntries (env : Text → Option Text) (t : Text) : Format → Except FileError Table
  | .yaml =>
    match Yaml.readTable? t with
    | some entries => .ok entries
    | none => .error .badYaml
  | .json =>
    match (Json.parseStrict t).bind Json.toRow with
    | .ok row => .ok (row.getD [])
    | .error _ => .error .badJson
  | .toml =>
    match Toml.readTable? t with
    | some entries => .ok entries
    | none => .error .badToml
  | .variables =>
    match VariableLines.parse env t with
    | .ok vars => .ok (vars.map fun (k, v) => (k, .text v))
    | .error e => .error (.badVariables e)

/-- The entries under their keys in lower case. Of several that become one, one that was not in lower
case comes first. -/
def inLowerCase (entries : Table) : Table :=
  let isLower (e : Text × Value) : Bool := Text.toLower e.1 == e.1
  (entries.filter (!isLower ·)).map (fun (k, v) => (Text.toLower k, v)) ++ entries.filter isLower

/-- Reads the text of a file of settings. -/
def readTable (env : Text → Option Text) : Reader := fun format t =>
  (readEntries env t format).map inLowerCase

end DocFilter.Settings
