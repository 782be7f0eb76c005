import DocFilter.Proofs.Numerals
import DocFilter.Query.Amount

/-!
Amounts are steady. An amount is found by way of a floating-point number: the value is taken to the
nearest number of 64 bits, the fraction is dropped, and the rest is bounded. An amount that was found
in this way is an integer of the same type when it is looked at again, and then it must not change.

The reason is that whatever a value is taken to has a place in the format (`Binary.Placed`), so an
integral part of it has one too (`whole_of_placed`); and an integer with a place in the format is
taken to itself. The largest amount has no such place, but what it is rounded up to is cut back to it.
-/

set_option autoImplicit false

namespace DocFilter

namespace Number

/-! ## What has a place in a format -/

/-- A number that a format has: a canonical one, or a value off the line. -/
def Binary.Placed (f : Format) : Binary → Prop
  | .finite _ m e => f.Canonical m e
  | .infinite _ | .nan => True

/-- Zero has a place in every format, with the least exponent. -/
theorem Format.zero_canonical {f : Format} (hf : f.Modest) : f.Canonical 0 f.minExponent :=
  ⟨Nat.pow_pos (by decide), le_refl _, hf.least_le, .inr rfl⟩

/-- What is rounded has a place in the format, for rounding gives canonical numbers only. -/
theorem Format.round_placed {f : Format} (hf : f.Modest) (s : Bool) (num : Nat) {den : Nat}
    (hden : 0 < den) : (f.round s num den).Placed f := by
  rcases f.round_canonical hf.one_le hf.least_le s num hden with h | ⟨m, e, h, hc⟩
  · rw [h]
    trivial
  · rw [h]
    exact hc

/-- A decimal is taken to a number with a place in the format. -/
theorem Format.ofDecimal_placed {f : Format} (hf : f.Modest) (s : Bool) (digits : Nat)
    (exponent : Int) : (f.ofDecimal s digits exponent).Placed f := by
  rcases f.ofDecimal_canonical hf s digits exponent with h | ⟨m, e, h, hc⟩
  · rw [h]
    trivial
  · rw [h]
    exact hc

theorem Format.ofScaled_placed {f : Format} (hf : f.Modest) (s : Bool) (digits : Nat)
    (exponent : Int) : (f.ofScaled s digits exponent).Placed f := by
  unfold Format.ofScaled
  dsimp only
  split_ifs
  · exact f.zero_canonical hf
  · trivial
  · cases exponent with
    | ofNat e => exact f.round_placed hf s _ Nat.one_pos
    | negSucc e => exact f.round_placed hf s _ (Nat.pow_pos (by decide))

theorem Binary.convert_placed {f : Format} (hf : f.Modest) (x : Binary) : (x.convert f).Placed f := by
  cases x with
  | nan => trivial
  | infinite s => trivial
  | finite s m e => exact f.ofScaled_placed hf s m e

theorem readSpecial?_placed {f : Format} {t : Text} {x : Binary} (h : readSpecial? t = some x) :
    x.Placed f := by
  unfold readSpecial? at h
  extract_lets lower isInfinity word at h
  split_ifs at h
  · cases h
    trivial
  · cases h
    trivial

/-- Whatever is read from a numeral, in whatever base, has a place: special numbers are off the line, and
the digits of the others are rounded into the format. An overflow is an error, and so no number. -/
theorem readBinary_placed {f : Format} (hf : f.Modest) {t : Text} {x : Binary}
    (h : readBinary f t = .ok x) : x.Placed f := by
  unfold readBinary at h
  cases hspecial : readSpecial? t with
  | some y =>
    rw [hspecial] at h
    cases h
    exact readSpecial?_placed hspecial
  | none =>
    rw [hspecial] at h
    extract_lets negative body hexDigits? isHex m isMark exponent? at h
    generalize exponent? = found at h
    cases found with
    | none => cases h
    | some p =>
      obtain ⟨exponent, rest⟩ := p
      dsimp only at h
      split_ifs at h with hform hhex
      -- hexadecimal digits count four bits for each place
      · have hplaced := f.ofScaled_placed hf negative m.value (exponent - 4 * m.places)
        cases hx : f.ofScaled negative m.value (exponent - 4 * m.places) with
        | infinite s =>
          rw [hx] at h
          cases h
        | nan | finite s m e =>
          rw [hx] at h hplaced
          cases h
          exact hplaced
      · have hplaced := f.ofDecimal_placed hf negative m.value (exponent - m.places)
        cases hx : f.ofDecimal negative m.value (exponent - m.places) with
        | infinite s =>
          rw [hx] at h
          cases h
        | nan | finite s m e =>
          rw [hx] at h hplaced
          cases h
          exact hplaced

/-! ## Whole numbers with a place -/

/-- A natural number that is a canonical number of 64 bits. -/
def Whole (n : Nat) : Prop := ∃ m e, double.Canonical m e ∧ (m : ℚ) * 2 ^ e = n

/-- Integers up to `2 ^ 53` have a place in the format, since all their bits fit into the mantissa. -/
theorem whole_of_le {n : Nat} (h : n ≤ 2 ^ 53) : Whole n := by
  rcases Nat.eq_zero_or_pos n with rfl | hpos
  · exact ⟨0, _, double.zero_canonical double_modest, by simp⟩
  · obtain ⟨m, e, hc, -, heq⟩ := exists_canonical_double hpos h
    exact ⟨m, e, hc, heq⟩

/-- The integral part of a number that is an integer is this integer. With a positive exponent it is a
product, and with a negative one a quotient that leaves no remainder. -/
theorem truncate?_of_eq {m n : Nat} {e : Int} (h : (m : ℚ) * 2 ^ e = n) :
    (Binary.finite false m e).truncate? = some (n : Int) := by
  cases e with
  | ofNat k =>
    have hm : m * 2 ^ k = n := by
      rw [Int.ofNat_eq_natCast, zpow_natCast] at h
      exact_mod_cast h
    show some ((m : Int) * (2 ^ k : Nat)) = _
    rw [← Int.natCast_mul, hm]
  | negSucc k =>
    have hm : m = n * 2 ^ (k + 1) := by
      rw [zpow_negSucc, mul_inv_eq_iff_eq_mul₀ (by positivity)] at h
      exact_mod_cast h
    show some ((m : Int) / ((2 ^ (k + 1) : Nat) : Int)) = _
    rw [hm, ← Int.natCast_ediv, Nat.mul_div_cancel _ (Nat.pow_pos (by decide))]

/-- A whole number is taken to itself: it lies in the interval of the canonical number that it is, so it is
rounded to that number, and the fraction that is dropped is zero. -/
theorem Whole.truncate?_ofInt {n : Nat} (h : Whole n) : (double.ofInt n).truncate? = some (n : Int) := by
  obtain ⟨m, e, hc, heq⟩ := h
  rcases Nat.eq_zero_or_pos m with rfl | hm
  -- intervals are those of positive numbers, so zero is done apart
  · have hn : n = 0 := by simpa using heq.symm
    subst hn
    have hzero : double.ofInt (0 : Nat) = .finite false 0 double.minExponent := rfl
    rw [hzero]
    exact truncate?_of_eq (by simp)
  · have hself : double.RoundsTo m e ((n : ℚ) / (1 : Nat)) := by
      rw [Nat.cast_one, div_one, ← heq]
      exact .self
    have hsign : decide ((n : Int) < 0) = false := by simp
    rw [Format.ofInt, hsign, Int.natAbs_natCast,
      double.round_eq double_modest.one_le hc hm false Nat.one_pos hself]
    exact truncate?_of_eq heq

/-- The integral part of a number with a place is a whole number. -/
theorem whole_of_placed {x : Binary} (hx : x.Placed double) {n : Int} (h : x.truncate? = some n) :
    Whole n.toNat := by
  cases x with
  | nan => cases h
  | infinite s => cases h
  | finite s m e =>
    have hc : double.Canonical m e := hx
    obtain ⟨p, hn, hp⟩ : ∃ p : Nat, n = (if s then -(p : Int) else p) ∧ Whole p := by
      cases e with
      | ofNat k =>
        refine ⟨m * 2 ^ k, ?_, m, k, hc, ?_⟩
        · rw [Int.natCast_mul]
          exact (Option.some.inj h).symm
        · rw [zpow_natCast]
          push_cast
          rfl
      | negSucc k =>
        -- what is left of a number with a fraction is below `2 ^ 53`
        refine ⟨m / 2 ^ (k + 1), ?_, whole_of_le ?_⟩
        · rw [Int.natCast_ediv]
          exact (Option.some.inj h).symm
        · have hbound : m < 2 ^ 53 := hc.bounded
          exact (Nat.div_le_self _ _).trans hbound.le
    cases s with
    | true =>
      have hzero : n.toNat = 0 := by simp [hn]
      rw [hzero]
      exact whole_of_le (by decide)
    | false =>
      have hpart : n.toNat = p := by simp [hn]
      rwa [hpart]

end Number

/-! ## Steady amounts -/

open Number

namespace Value

/-- Looked at again as an integer, the amount is the same. -/
def Steady (n : Nat) : Prop := (Value.int .int64 n).amount? = some n

/-- The amount of an integer is that of the floating-point number nearest to it. -/
theorem amount?_int (n : Int) : (Value.int .int64 n).amount? = (double.ofInt n).amount? := rfl

/-- An integer with a place in the format is steady, as it is taken to itself. -/
theorem steady_of_whole {n : Nat} (h : Whole n) (hmax : n ≤ maxAmount) : Steady n := by
  rw [Steady, amount?_int, Binary.amount?, h.truncate?_ofInt]
  simp [hmax]

theorem steady_of_le {n : Nat} (h : n ≤ 2 ^ 53) : Steady n :=
  steady_of_whole (whole_of_le h) (h.trans (by decide))

/-- The largest amount is rounded up and cut back. -/
theorem steady_max : Steady maxAmount := by
  rw [Steady, amount?_int]
  decide +kernel

/-- The smaller of two steady amounts is steady. Pages are cut to what is left of the limit, and this keeps
them steady. -/
theorem steady_min {m n : Nat} (hm : Steady m) (hn : Steady n) : Steady (min m n) := by
  rcases Nat.le_total m n with h | h
  · rwa [Nat.min_eq_left h]
  · rwa [Nat.min_eq_right h]

/-- Whatever a value is coerced to has a place in the format, be it a constant, an integer, a number of
another format or a numeral in a text. -/
theorem toFloat_placed {v : Value} {x : Binary} (h : v.toFloat = .ok x) : x.Placed double := by
  unfold toFloat at h
  generalize v.resolved = u at h
  cases u with
  -- nothing is taken to zero, and so is an empty text below
  | null =>
    cases h
    exact double.zero_canonical double_modest
  | bool b =>
    cases h
    exact double.round_placed double_modest _ _ Nat.one_pos
  | int ty n =>
    cases h
    exact double.round_placed double_modest _ _ Nat.one_pos
  | float ty y =>
    cases h
    exact y.convert_placed double_modest
  | text t | numeral t =>
    dsimp only [numeralText?] at h
    split_ifs at h
    · cases h
      exact double.zero_canonical double_modest
    · cases hread : readBinary double t with
      | ok y =>
        rw [hread] at h
        cases h
        exact readBinary_placed double_modest hread
      | error e =>
        rw [hread] at h
        cases h
  | _ => cases h

/-- An amount is that of the number that the value is coerced to. Values that have no number have no amount,
and the other checks only refuse. -/
theorem toFloat_of_amount? {v : Value} {n : Nat} (h : v.amount? = some n) :
    ∃ x, v.toFloat = .ok x ∧ x.amount? = some n := by
  unfold amount? at h
  split at h
  · cases h
  · cases h
  · split_ifs at h
    split at h
    · cases h
    · next x hx =>
      refine ⟨x, hx, ?_⟩
      split at h
      · split_ifs at h
        exact h
      · exact h

theorem amount?_le {v : Value} {n : Nat} (h : v.amount? = some n) : n ≤ maxAmount := by
  obtain ⟨x, -, hn⟩ := toFloat_of_amount? h
  obtain ⟨whole, -, rfl⟩ := Option.map_eq_some_iff.1 hn
  exact Nat.min_le_right _ _

/-- **An amount is steady**: as an integer it has the same amount. It is a whole number with a place in the
format, or the largest amount. -/
theorem steady_of_amount? {v : Value} {n : Nat} (h : v.amount? = some n) : Steady n := by
  obtain ⟨x, hx, hn⟩ := toFloat_of_amount? h
  obtain ⟨whole, hwhole, rfl⟩ := Option.map_eq_some_iff.1 hn
  have hplaced := whole_of_placed (toFloat_placed hx) hwhole
  rcases Nat.le_total whole.toNat maxAmount with hle | hle
  · rw [Nat.min_eq_left hle]
    exact steady_of_whole hplaced hle
  · rw [Nat.min_eq_right hle]
    exact steady_max

end Value

end DocFilter
