import DocFilter.Proofs.Amounts
import DocFilter.Proofs.ExactNumbers
import DocFilter.Proofs.Utf8
import DocFilter.Query.Statement
import Mathlib.Data.List.DropRight

/-!
The range of amounts. A limit or a skip may be asked for by any value, and what it comes to is a word
between zero and the largest signed one. Main result (`Value.amount?_range`): the amount is the number
that the value is coerced to, without its fraction and cut off at both ends; it is taken from that number
by a conversion to a word only where the number lies strictly inside the range, so that the conversion
has no case in which the number does not fit; and an amount is an amount again, the same one.

A machine finds amounts with two comparisons of floating-point numbers and a conversion
(`Binary.bounded?`). The upper comparison is not made with the largest word itself, which is no
floating-point number, but with what it is rounded to, `2 ^ 63`. Numbers are compared as rationals
(`Binary.lt_iff`), and their integral part is that of the rational (`Binary.truncate?_eq`).
-/

set_option autoImplicit false

namespace DocFilter

/-! ## Binary numbers as rationals -/

namespace Number

/-- The rational number that a binary number is; nothing for the values off the line. -/
def Binary.value? : Binary → Option ℚ
  | .finite s m e => some (signed s (m * 2 ^ e))
  | .nan | .infinite _ => none

/-- A rational number without its fraction. -/
def truncated (q : ℚ) : Int := if q < 0 then ⌈q⌉ else ⌊q⌋

/-- Truncation of a rational with a sign cuts off the fraction of its magnitude, towards zero. -/
theorem truncated_signed (s : Bool) {q : ℚ} (hq : 0 ≤ q) :
    truncated (signed s q) = if s then -⌊q⌋ else ⌊q⌋ := by
  cases s with
  | false => exact if_neg (not_lt.2 hq)
  | true =>
    show truncated (-q) = -⌊q⌋
    unfold truncated
    rcases hq.eq_or_lt with rfl | hpos
    · simp
    · rw [if_pos (neg_neg_of_pos hpos), Int.ceil_neg]

theorem floor_mul_ofNat (m k : Nat) : ⌊(m : ℚ) * 2 ^ Int.ofNat k⌋ = m * (2 ^ k : Nat) := by
  have hcast : (m : ℚ) * 2 ^ Int.ofNat k = ((m * 2 ^ k : Nat) : ℚ) := by
    rw [Int.ofNat_eq_natCast, zpow_natCast]
    push_cast
    rfl
  rw [hcast, Int.floor_natCast, Nat.cast_mul]

/-- With a negative exponent the integral part is a quotient of integers. -/
theorem floor_mul_negSucc (m k : Nat) : ⌊(m : ℚ) * 2 ^ Int.negSucc k⌋ = m / (2 ^ (k + 1) : Nat) := by
  have hcast : (m : ℚ) * 2 ^ Int.negSucc k = (m : ℚ) / ((2 ^ (k + 1) : Nat) : ℚ) := by
    rw [zpow_negSucc, div_eq_mul_inv]
    push_cast
    rfl
  rw [hcast, Rat.floor_natCast_div_natCast]

/-- What is left without the fraction is the integral part of the rational number. -/
theorem Binary.truncate?_eq (x : Binary) : x.truncate? = x.value?.map truncated := by
  cases x with
  | nan => rfl
  | infinite s => rfl
  | finite s m e =>
    rw [value?, Option.map_some, truncated_signed s (by positivity)]
    cases e with
    | ofNat k => rw [floor_mul_ofNat]; rfl
    | negSucc k => rw [floor_mul_negSucc]; rfl

/-- A number is so many units of any smaller power of two. Two numbers are compared in units of the smaller
of their exponents. -/
theorem Binary.unitsOf_mul (s : Bool) (m : Nat) {e base : Int} (h : base ≤ e) :
    (unitsOf s m e base : ℚ) * 2 ^ base = signed s (m * 2 ^ e) := by
  have hpower : ((2 ^ (e - base).toNat : Nat) : ℚ) * 2 ^ base = 2 ^ e := by
    rw [Nat.cast_pow, Nat.cast_ofNat, ← zpow_natCast, Int.toNat_of_nonneg (Int.sub_nonneg.2 h),
      ← zpow_add₀ two_ne_zero, Int.sub_add_cancel]
  have hmagnitude : (((m : Int) * (2 ^ (e - base).toNat : Nat) : Int) : ℚ) * 2 ^ base = m * 2 ^ e := by
    rw [Int.cast_mul, Int.cast_natCast, Int.cast_natCast, mul_assoc, hpower]
  cases s with
  | false => exact hmagnitude
  | true =>
    show ((-((m : Int) * (2 ^ (e - base).toNat : Nat)) : Int) : ℚ) * 2 ^ base = -(m * 2 ^ e)
    rw [Int.cast_neg, neg_mul, hmagnitude]

/-- **Numbers on the line are compared as rationals.** Both are written in units of the smaller of their
exponents, and the comparison is one of integers. -/
theorem Binary.lt_iff {x y : Binary} {p q : ℚ} (hx : x.value? = some p) (hy : y.value? = some q) :
    x.lt y = true ↔ p < q := by
  cases x with
  | nan | infinite s => cases hx
  | finite s m e =>
    cases y with
    | nan | infinite t => cases hy
    | finite t n d =>
      cases hx
      cases hy
      -- both numbers are multiples of the smaller power of two
      show decide (unitsOf s m e (min e d) < unitsOf t n d (min e d)) = true ↔ _
      rw [decide_eq_true_iff, ← unitsOf_mul s m (min_le_left e d), ← unitsOf_mul t n (min_le_right e d),
        mul_lt_mul_iff_of_pos_right (by positivity), Int.cast_lt]

/-- A number is positive if its value is. Zero with a sign is not negative. -/
theorem Binary.isPositive_iff {x : Binary} {q : ℚ} (h : x.value? = some q) :
    x.isPositive = true ↔ 0 < q := by
  have hzero : zero.value? = some 0 := by simp [zero, value?, signed]
  exact lt_iff hzero h

/-! ## Two comparisons and a conversion -/

/-- The number that the largest amount is rounded to. -/
def amountBound : Binary := double.ofInt maxAmount

/-- What the upper comparison is made with is `2 ^ 63`. -/
theorem value?_amountBound : amountBound.value? = some (2 ^ 63) := by
  have hbound : amountBound = .finite false (2 ^ 52) 11 := by decide +kernel
  rw [hbound]
  norm_num [Binary.value?, signed]

/-- An amount as a machine finds it. Numbers that do not lie above zero and numbers that reach the
largest amount are settled by a comparison; only what lies between is converted to a word. -/
def Binary.bounded? (x : Binary) : Option Int :=
  match x with
  | .nan | .infinite _ => none
  | .finite .. =>
    if !x.isPositive then some 0
    else if !x.lt amountBound then some maxAmount
    else some x.toInt64

/-- What the amount of a number is, by where the number lies. -/
inductive Binary.Comes (x : Binary) (q : ℚ) : Nat → Prop
  | zero : q ≤ 0 → Comes x q 0
  | most : 2 ^ 63 ≤ q → Comes x q maxAmount
  | within {r : Nat} : 0 < q → q < 2 ^ 63 → x.toInt64 = truncated q → truncated q = r → Comes x q r

/-- Inside the range the conversion fits: it gives the integral part. Outside it would be cut off, but it is
never asked for there. -/
theorem Binary.toInt64_within {x : Binary} {q : ℚ} (hx : x.value? = some q) (hpos : 0 < q)
    (hlt : q < 2 ^ 63) : ∃ r : Nat, x.toInt64 = truncated q ∧ truncated q = r ∧ r ≤ maxAmount := by
  have hfloor : truncated q = ⌊q⌋ := if_neg (not_lt.2 hpos.le)
  have hnonneg : 0 ≤ ⌊q⌋ := Int.floor_nonneg.2 hpos.le
  have hsmall : ⌊q⌋ < 2 ^ 63 := Int.floor_lt.2 (by exact_mod_cast hlt)
  obtain ⟨r, hr⟩ := Int.eq_ofNat_of_zero_le hnonneg
  refine ⟨r, ?_, by rw [hfloor, hr], by unfold maxAmount; omega⟩
  -- the integral part is a signed word, so that the case for what does not fit is not reached
  have hword : (leastWord ≤ truncated q && truncated q < -leastWord) = true := by
    rw [hfloor, Bool.and_eq_true, decide_eq_true_iff, decide_eq_true_iff, leastWord]
    omega
  rw [toInt64, truncate?_eq, hx, Option.map_some]
  exact if_pos hword

/-- **The amount of a number, by where the number lies**: zero up to zero, the largest amount from `2 ^ 63`
on, and the integral part between the two. Comparisons and conversion find the same amount as the bound of
the integral part. -/
theorem Binary.comes {x : Binary} {q : ℚ} (hx : x.value? = some q) :
    ∃ r : Nat, x.amount? = some r ∧ x.bounded? = some (r : Int) ∧ x.Comes q r ∧
      (r : Int) = max 0 (min (truncated q) maxAmount) := by
  have hamount : x.amount? = some (min (truncated q).toNat maxAmount) := by
    rw [amount?, truncate?_eq, hx]
    rfl
  have hbounded : x.bounded? = if !x.isPositive then some 0
      else if !x.lt amountBound then some (maxAmount : Int) else some x.toInt64 := by
    cases x with
    | nan | infinite s => cases hx
    | finite s m e => rfl
  -- the two comparisons are those of the rational with zero and with `2 ^ 63`
  have hpositive := isPositive_iff hx
  have hbelow := lt_iff hx value?_amountBound
  rcases le_or_gt q 0 with hlow | hpos
  · have hpart : truncated q ≤ 0 := by
      unfold truncated
      split_ifs with hneg
      · exact Int.ceil_le.2 (by exact_mod_cast hlow)
      · exact (Int.floor_le_floor hlow).trans_eq Int.floor_zero
    refine ⟨0, ?_, ?_, .zero hlow, by omega⟩
    · rw [hamount, Int.toNat_of_nonpos hpart, Nat.zero_min]
    · rw [hbounded, Bool.eq_false_iff.2 (mt hpositive.1 (not_lt.2 hlow))]
      rfl
  · rw [hpositive.2 hpos] at hbounded
    rcases le_or_gt (2 ^ 63) q with hhigh | hlt
    · have hpart : 2 ^ 63 ≤ truncated q := by
        rw [truncated, if_neg (not_lt.2 hpos.le)]
        exact Int.le_floor.2 (by exact_mod_cast hhigh)
      -- the comparison is with one more than the largest amount, and all the same exact: no
      -- integral part lies between the two
      have hmax : (maxAmount : Int) ≤ truncated q := le_trans (by decide) hpart
      refine ⟨maxAmount, ?_, ?_, .most hhigh, by omega⟩
      · rw [hamount, Nat.min_eq_right (by omega)]
      · rw [hbounded, Bool.eq_false_iff.2 (mt hbelow.1 (not_lt.2 hhigh))]
        rfl
    · obtain ⟨r, hword, hr, hmax⟩ := toInt64_within hx hpos hlt
      refine ⟨r, ?_, ?_, .within hpos hlt hword hr, by omega⟩
      · rw [hamount, hr, Int.toNat_natCast, Nat.min_eq_left hmax]
      · rw [hbounded, hbelow.2 hlt, hword, hr]
        rfl

end Number

/-! ## What is no amount -/

namespace Text

theorem Piece.bytes_ne_nil (p : Piece) : p.bytes ≠ [] := by
  cases p with
  | stray b => exact List.cons_ne_nil _ _
  | char c =>
    obtain ⟨b, more, hbytes, -⟩ := leading?_ofChar c []
    rw [bytes, hbytes]
    exact List.cons_ne_nil _ _

/-- Nothing is left of a text without the white space at its ends just if it is all white space. -/
theorem trim_eq_nil_iff {t : Text} : trim t = [] ↔ ∀ p ∈ pieces t, p.isBlank = true := by
  rw [← List.dropWhile_eq_nil_iff]
  have htrim : trim t = (((pieces t).dropWhile Piece.isBlank).rdropWhile Piece.isBlank).flatMap Piece.bytes :=
    rfl
  constructor
  · intro hnil
    rw [htrim, List.flatMap_eq_nil_iff] at hnil
    have hend : ((pieces t).dropWhile Piece.isBlank).rdropWhile Piece.isBlank = [] :=
      List.eq_nil_iff_forall_not_mem.2 fun p hp => p.bytes_ne_nil (hnil p hp)
    rw [List.rdropWhile_eq_nil_iff] at hend
    by_contra hne
    -- what is left begins with something that is not blank
    have hhead := List.head_dropWhile_not Piece.isBlank hne
    rw [hend _ (List.head_mem hne)] at hhead
    cases hhead
  · intro hnil
    rw [htrim, hnil]
    rfl

end Text

namespace Value

open Number

/-- The values that are no amounts. -/
inductive NoAmount : Value → Prop
  /-- Nothing, or a reference to nothing. -/
  | null {v : Value} : v.kind = .null → NoAmount v
  | array {v : Value} : v.kind = .array → NoAmount v
  | object {v : Value} : v.kind = .object → NoAmount v
  | bool (b : Bool) : NoAmount (.bool b)
  /-- A text of white space only. -/
  | blank {t : Text} : (∀ p ∈ Text.pieces t, p.isBlank = true) → NoAmount (.text t)
  /-- A value that cannot be coerced to a number. -/
  | noNumber {v : Value} {e : CoerceError} : v.toFloat = .error e → NoAmount v
  /-- A value that is coerced to an infinity, or to what is not a number. -/
  | offLine {v : Value} {x : Binary} : v.toFloat = .ok x → x.value? = none → NoAmount v

theorem amount?_of_value?_none {x : Binary} (h : x.value? = none) : x.amount? = none := by
  rw [Binary.amount?, Binary.truncate?_eq, h]
  rfl

theorem amount?_of_not_scalar {v : Value} (h : v.kind ≠ .scalar) : v.amount? = none := by
  unfold amount?
  split
  · rfl
  · rfl
  · exact if_pos (bne_iff_ne.2 h)

/-- A blank text comes to no amount, also the empty one. -/
theorem amount?_of_blank {t : Text} (h : ∀ p ∈ Text.pieces t, p.isBlank = true) :
    (Value.text t).amount? = none := by
  have htrim : (Text.trim t).isEmpty = true := List.isEmpty_iff.2 (Text.trim_eq_nil_iff.2 h)
  cases hfloat : (Value.text t).toFloat with
  | error e => simp [amount?, hfloat]
  | ok x => simp [amount?, hfloat, htrim]

/-- Where nothing stands in the way, the amount of a value is that of its number. Three things stand in the
way: a value that is no scalar, a truth value, and a text of nothing but blanks, which would be taken to
zero. -/
theorem amount?_of_number {v : Value} (hkind : v.kind = .scalar) (hbool : ∀ b, v ≠ .bool b)
    (hblank : ∀ t, v = .text t → ¬ ∀ p ∈ Text.pieces t, p.isBlank = true) {x : Binary}
    (hx : v.toFloat = .ok x) : v.amount? = x.amount? := by
  unfold amount?
  split
  · cases hkind
  · exact absurd rfl (hbool _)
  · rw [if_neg (by simp [hkind]), hx]
    dsimp only
    split
    · next t _ _ =>
      have hsome : (Text.trim t).isEmpty = false := by
        rw [List.isEmpty_eq_false_iff, Ne, Text.trim_eq_nil_iff]
        exact hblank t rfl
      rw [hsome]
      rfl
    · rfl

/-- **The values without an amount**: those that are listed in `NoAmount`, and no others. The cases are the
kinds of values, and for texts whether they are blank and whether they can be read. -/
theorem amount?_eq_none_iff {v : Value} : v.amount? = none ↔ v.NoAmount := by
  constructor
  · intro hnone
    by_contra hsome
    -- what is not among the listed values has passed every test on the way to its number
    have hkind : v.kind = .scalar := by
      cases hv : v.kind with
      | null => exact absurd (.null hv) hsome
      | array => exact absurd (.array hv) hsome
      | object => exact absurd (.object hv) hsome
      | scalar => rfl
    have hbool : ∀ b, v ≠ .bool b := by
      rintro b rfl
      exact hsome (.bool b)
    have hblank : ∀ t, v = .text t → ¬ ∀ p ∈ Text.pieces t, p.isBlank = true := by
      rintro t rfl hall
      exact hsome (.blank hall)
    cases hfloat : v.toFloat with
    | error e => exact hsome (.noNumber hfloat)
    | ok x =>
      rw [amount?_of_number hkind hbool hblank hfloat] at hnone
      cases hx : x.value? with
      | none => exact hsome (.offLine hfloat hx)
      | some q =>
        obtain ⟨r, hr, -⟩ := Binary.comes hx
        rw [hr] at hnone
        cases hnone
  · intro hnone
    -- an amount would be that of a number on the line
    have hnumber : ∀ r, v.amount? = some r → ∃ x q, v.toFloat = .ok x ∧ x.value? = some q := by
      intro r hr
      obtain ⟨x, hx, hxr⟩ := toFloat_of_amount? hr
      cases hvalue : x.value? with
      | none =>
        rw [amount?_of_value?_none hvalue] at hxr
        cases hxr
      | some q => exact ⟨x, q, hx, hvalue⟩
    cases hnone with
    | null hkind => exact amount?_of_not_scalar (by simp [hkind])
    | array hkind => exact amount?_of_not_scalar (by simp [hkind])
    | object hkind => exact amount?_of_not_scalar (by simp [hkind])
    | bool b => rfl
    | blank hall => exact amount?_of_blank hall
    | noNumber he =>
      refine Option.eq_none_iff_forall_ne_some.2 fun r hr => ?_
      obtain ⟨x, q, hx, -⟩ := hnumber r hr
      rw [hx] at he
      cases he
    | offLine hy hoff =>
      refine Option.eq_none_iff_forall_ne_some.2 fun r hr => ?_
      obtain ⟨x, q, hx, hq⟩ := hnumber r hr
      rw [hx] at hy
      cases hy
      rw [hoff] at hq
      cases hq

/-! ## The range -/

/-- A value that comes to an amount is accepted as a limit and as a skip, with this amount. -/
theorem add_of_amount? {v : Value} {r : Nat} (h : v.amount? = some r) (c : Clauses) :
    c.add (.modifier ⟨.limit, v, [], []⟩) = .ok { c with limit := some r } ∧
      c.add (.modifier ⟨.skip, v, [], []⟩) = .ok { c with skip := some r } := by
  simp [Clauses.add, h]

/-- A value that comes to no amount is refused as a limit and as a skip, each with an error of its own. -/
theorem add_of_no_amount {v : Value} (h : v.amount? = none) (c : Clauses) :
    c.add (.modifier ⟨.limit, v, [], []⟩) = .error .limitNotNumeric ∧
      c.add (.modifier ⟨.skip, v, [], []⟩) = .error .skipNotNumeric := by
  simp [Clauses.add, h]

/-- **Every value is refused or has an amount within the range.** A value without an amount is one of
those listed, and as a limit or a skip it is refused in the words for that clause. The amount of any
other value is a number of 64 bits, without its fraction and cut off at zero and at the largest signed
word. It is found by comparisons for numbers at the ends and beyond, and by a conversion to a word for
numbers strictly between zero and `2 ^ 63`, all of which fit; and as a word it has the same amount. -/
theorem amount?_range (v : Value) :
    (v.amount? = none ↔ v.NoAmount) ∧
    (v.NoAmount → ∀ c : Clauses,
      c.add (.modifier ⟨.limit, v, [], []⟩) = .error .limitNotNumeric ∧
        c.add (.modifier ⟨.skip, v, [], []⟩) = .error .skipNotNumeric) ∧
    ∀ r, v.amount? = some r →
      (∀ c : Clauses, c.add (.modifier ⟨.limit, v, [], []⟩) = .ok { c with limit := some r } ∧
        c.add (.modifier ⟨.skip, v, [], []⟩) = .ok { c with skip := some r }) ∧
      r ≤ 2 ^ 63 - 1 ∧ (Value.int .int64 r).amount? = some r ∧
      ∃ x q, v.toFloat = .ok x ∧ x.Placed double ∧ x.value? = some q ∧
        (r : Int) = max 0 (min (truncated q) (2 ^ 63 - 1)) ∧ x.bounded? = some (r : Int) ∧ x.Comes q r := by
  refine ⟨amount?_eq_none_iff, fun hnone => add_of_no_amount (amount?_eq_none_iff.2 hnone), ?_⟩
  intro r hr
  refine ⟨add_of_amount? hr, amount?_le hr, steady_of_amount? hr, ?_⟩
  obtain ⟨x, hx, hxr⟩ := toFloat_of_amount? hr
  cases hvalue : x.value? with
  -- what is off the line has no amount, and this value has one
  | none =>
    rw [amount?_of_value?_none hvalue] at hxr
    cases hxr
  | some q =>
    -- on the line the comparisons and the conversion find the amount that was found before
    obtain ⟨r', hr', hbounded, hcomes, hclamped⟩ := Binary.comes hvalue
    obtain rfl : r' = r := by
      rw [hxr] at hr'
      exact (Option.some.inj hr').symm
    exact ⟨x, q, hx, toFloat_placed hx, hvalue, hclamped, hbounded, hcomes⟩

/-- A numeral beyond the range is cut off and then stays what it is, a fraction is dropped, and a blank
text is refused. -/
theorem amounts_at_the_ends :
    (Value.text "9.3e18").amount? = some maxAmount ∧
      (Value.int .int64 maxAmount).amount? = some maxAmount ∧
      (∃ x q, (Value.numeral "-2.75").toFloat = .ok x ∧ x.value? = some q ∧
        (0 : Int) = max 0 (min (truncated q) (2 ^ 63 - 1))) ∧
      ({} : Clauses).add (.modifier ⟨.skip, .text " ", [], []⟩) = .error .skipNotNumeric := by
  have hmost : (Value.text "9.3e18").amount? = some maxAmount := by decide +kernel
  have hbelow : (Value.numeral "-2.75").amount? = some 0 := by decide +kernel
  obtain ⟨-, -, hagain, -⟩ := (amount?_range (.text "9.3e18")).2.2 maxAmount hmost
  obtain ⟨-, -, -, x, q, hx, -, hq, hzero, -⟩ := (amount?_range (.numeral "-2.75")).2.2 0 hbelow
  have hblank : NoAmount (.text " ") := .blank (by decide +kernel)
  exact ⟨hmost, hagain, ⟨x, q, hx, hq, hzero⟩, ((amount?_range (.text " ")).2.1 hblank {}).2⟩

end Value
end DocFilter
