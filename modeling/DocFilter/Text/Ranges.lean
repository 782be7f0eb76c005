import DocFilter.Text.Utf8

/-!
Sets of code points as tables of closed ranges. The ranges of a table are in increasing order, so the
one that can hold a number is found by halving.
-/

set_option autoImplicit false

namespace DocFilter.Text

/-- Looks for the range that holds `n` between the positions `lo` and `hi`, halving their distance. -/
def inRanges (ranges : Array (Nat × Nat)) (n : Nat) : (steps lo hi : Nat) → Bool
  | 0, _, _ => false
  | steps + 1, lo, hi =>
    if hi ≤ lo then false
    else
      let mid := (lo + hi) / 2
      match ranges[mid]? with
      | none => false
      | some (first, last) =>
        if n < first then inRanges ranges n steps lo mid
        else if last < n then inRanges ranges n steps (mid + 1) hi
        else true

/-- Whether a range of the table holds a number. Each step halves the table, so twenty steps cover a
million ranges. -/
def inTable (ranges : Array (Nat × Nat)) (n : Nat) : Bool := inRanges ranges n 20 0 ranges.size

end DocFilter.Text
