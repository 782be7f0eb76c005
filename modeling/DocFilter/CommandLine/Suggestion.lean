import DocFilter.Text.Case

/-!
Words that may have been meant. The distance of two words is the number of bytes that have to be put
in, left out or exchanged to get from one to the other.
-/

set_option autoImplicit false

namespace DocFilter.CommandLine

/-- The distances of a word with one more byte from the prefixes of another word. `previous` has the
distances of the word without the byte, `left` is the distance before the first of them. -/
def nextDistances (b : UInt8) : Text → (previous : List Nat) → (left : Nat) → List Nat
  | c :: rest, diagonal :: above :: more, left =>
    let d := if b == c then diagonal else 1 + min diagonal (min above left)
    d :: nextDistances b rest (above :: more) d
  | _, _, _ => []

/-- The distances of a word from the prefixes of another word, the shortest first. -/
def distances (word other : Text) : List Nat :=
  (word.foldl (fun (n, row) b => (n + 1, (n + 1) :: nextDistances b other row (n + 1)))
    (0, List.range (other.length + 1))).2

/-- The distance of two words. -/
def distance (word other : Text) : Nat := (distances word other).getLast?.getD 0

/-- Whether a name may have been meant by a word: it is at most two bytes away or begins with the
word, in upper or lower case. -/
def mayMean (word name : Text) : Bool :=
  let word := Text.toLower word
  let name := Text.toLower name
  distance word name ≤ 2 || word.isPrefixOf name

/-- The names that may have been meant. -/
def suggestions (word : Text) (names : List Text) : List Text := names.filter (mayMean word)

end DocFilter.CommandLine
