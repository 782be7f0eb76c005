import DocFilter.Value.Coerce
import DocFilter.Text.Blank

/-!
Amounts of limits and skips. An amount is a number, or a text that is a numeral; its fraction is
dropped, a negative one is zero, and the largest is the largest signed word.

`Value.amount?` is `amount`, which `Compile` and `Window` share.
-/

set_option autoImplicit false

namespace DocFilter

/-- The largest amount. -/
def maxAmount : Nat := 9223372036854775807

/-- A floating-point number as an amount. -/
def Number.Binary.amount? (x : Number.Binary) : Option Nat :=
  x.truncate?.map fun n => min n.toNat maxAmount

/-- A value as an amount, if it is one. -/
def Value.amount? (v : Value) : Option Nat :=
  match v with
  | .null | .bool _ => none
  | _ =>
    if v.kind != .scalar then none
    else
      match v.toFloat with
      | .error _ => none
      | .ok x =>
        match v with
        | .text t => if (Text.trim t).isEmpty then none else x.amount?
        | _ => x.amount?

end DocFilter
