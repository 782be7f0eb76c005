import DocFilter.Value

/-!
A binder hands out the placeholders of a statement: the first value it is given becomes `$1`, the
next one `$2`, and so on. Every statement has a binder of its own.

`Binder.bind` is `Bind`, `size` is `Len`, and the values in order are `Params`.
-/

set_option autoImplicit false

namespace DocFilter

/-- The values that have been given a placeholder, in order. -/
structure Binder where
  params : List Value := []

namespace Binder

/-- The number of placeholders handed out so far. -/
def size (b : Binder) : Nat := b.params.length

/-- Gives a value the next placeholder. -/
def bind (b : Binder) (v : Value) : Nat × Binder := (b.size + 1, ⟨b.params ++ [v]⟩)

/-- A placeholder as it is written. -/
def placeholder (n : Nat) : Text := Text.byte '$' :: Text.ofNat n

end Binder
end DocFilter
