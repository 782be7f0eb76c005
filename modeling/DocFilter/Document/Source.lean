import DocFilter.Document.Reader
import DocFilter.Text.Blank
import DocFilter.Yaml.Document

/-!
Reading a filter from text. A text that begins with a brace is read in the lenient notation with
braces, any other text as YAML. Blanks around the text do not count, and a text with nothing else is
the empty filter.

`Document.parse` is `ParseDocument`.
-/

set_option autoImplicit false

namespace DocFilter

open Text (byte)

/-- Why a text is no filter. -/
inductive SourceError where
  | braced (e : ReadError)
  | yaml (e : Yaml.ReadError)
  | rootNotObject
  deriving DecidableEq, Repr

/-- The words of a source error. -/
def SourceError.message : SourceError → Text
  | .braced e => "query: parse document: " ++ e.message
  | .yaml e => "query: parse document: " ++ e.message
  | .rootNotObject => "query: parse document: root must be an object"

namespace Document

/-- A value as a filter: nothing is the empty one. -/
def ofRoot : Value → Except SourceError Document
  | .null => .ok []
  | .doc fields => .ok fields
  | _ => .error .rootNotObject

/-- The filter written in a text. -/
def parse (t : Text) : Except SourceError Document :=
  match Text.trim t with
  | [] => .ok []
  | b :: rest =>
    if b == byte '\x7b' then
      match readBraced (b :: rest) with
      | .ok v => ofRoot v
      | .error e => .error (.braced e)
    else
      match Yaml.read (b :: rest) with
      | .ok v => ofRoot v
      | .error e => .error (.yaml e)

end Document
end DocFilter
