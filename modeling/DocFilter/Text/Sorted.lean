import DocFilter.Text

/-!
Sorting by a key that is a text. Keys are compared byte by byte, and elements with equal keys keep
their order.
-/

set_option autoImplicit false

namespace DocFilter

/-- Puts an element in front of the first one whose key is not smaller. -/
def insertByKey {α : Type} (key : α → Text) (x : α) : List α → List α
  | [] => [x]
  | y :: ys => if key y < key x then y :: insertByKey key x ys else x :: y :: ys

/-- The elements in increasing order of their keys. -/
def sortByKey {α : Type} (key : α → Text) : List α → List α
  | [] => []
  | x :: xs => insertByKey key x (sortByKey key xs)

end DocFilter
