/-!
Bounding a value from both sides.

This is `Clamp`, which checks the lower bound first; `Service.Find` calls it with the bounds of a
page.
-/

set_option autoImplicit false

namespace DocFilter

/-- The value itself, or the bound it lies beyond. If the bounds are the wrong way round the lower
one wins for values below it. -/
def clamp {α : Type} (lt : α → α → Bool) (v lo hi : α) : α :=
  if lt v lo then lo else if lt hi v then hi else v

end DocFilter
