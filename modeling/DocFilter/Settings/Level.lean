import DocFilter.Number.Numeral
import DocFilter.Text.Case

/-!
Levels of the log: four names, four apart, and numbers between and beyond them.
-/

set_option autoImplicit false

namespace DocFilter

open Text (byte)

/-- A level; the higher, the more severe. -/
abbrev Severity := Int

namespace Severity

/-- The levels with names. -/
def named : List (String × Severity) := [("DEBUG", -4), ("INFO", 0), ("WARN", 4), ("ERROR", 8)]

/-- The level of ordinary messages. -/
def info : Severity := 0

/-- The level with a name. -/
def ofName? (t : Text) : Option Severity :=
  (named.find? fun (name, _) => Text.ofString name == Text.toUpper t).map (·.2)

/-- Reads a level: a name in any case, and perhaps a number with a sign that is added to it. -/
def parse? (t : Text) : Option Severity :=
  let isSign (b : UInt8) : Bool := b == byte '+' || b == byte '-'
  let name := t.takeWhile (!isSign ·)
  let offset := t.drop name.length
  if offset.isEmpty then ofName? name
  else
    match Number.readInt64 offset with
    | .ok n => (ofName? name).map (· + n)
    | .error _ => none

/-- The text of a level: the next lower name, and the distance from it. -/
def text (l : Severity) : Text :=
  let (name, base) : String × Severity :=
    if l < 0 then ("DEBUG", -4) else if l < 4 then ("INFO", 0) else if l < 8 then ("WARN", 4) else ("ERROR", 8)
  let distance := l - base
  let sign : Text := if 0 < distance then "+" else []
  Text.ofString name ++ (if distance == 0 then [] else sign ++ Text.ofInt distance)

end Severity
end DocFilter
