import DocFilter.Text.Blank
import DocFilter.Text.Case
import DocFilter.Text.Quoted

/-!
How fresh the results of a query have to be. A level is passed on as a text; the empty text leaves
the choice to the database.

`Consistency.parse` is `ParseConsistency`.
-/

set_option autoImplicit false

namespace DocFilter

/-- A level of consistency, as it is sent to the database. -/
abbrev Consistency := Text

namespace Consistency

/-- The levels a database knows. -/
def levels : List Consistency := ["not_bounded", "request_plus", "statement_plus"]

/-- A level that no database knows. -/
structure Unknown where
  given : Text

/-- The words of the error. -/
def Unknown.message (e : Unknown) : Text := "driver: unknown scan consistency " ++ Text.quoted e.given

/-- Reads a level in any case, with blanks around it, and with hyphens for underscores. -/
def parse (t : Text) : Except Unknown Consistency :=
  let word := (Text.toLower (Text.trim t)).map fun b =>
    if b == Text.byte '-' then Text.byte '_' else b
  if levels.contains word then .ok word else .error ⟨t⟩

end Consistency
end DocFilter
