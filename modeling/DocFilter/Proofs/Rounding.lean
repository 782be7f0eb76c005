import DocFilter.Number.Binary
import Mathlib.Algebra.Order.Field.Power
import Mathlib.Data.Rat.Cast.Order
import Mathlib.Tactic.FieldSimp
import Mathlib.Tactic.Linarith
import Mathlib.Tactic.NormNum
import Mathlib.Tactic.Positivity
import Mathlib.Tactic.Ring

/-!
Rounding to a binary format, over the rationals. A number of a format is *canonical* if its mantissa
has all the bits of the format, or its exponent is the least one. Around every canonical number lies
an interval of rationals that round to it: half a unit on each side, a quarter below a power of two,
the ends included exactly if the mantissa is even. Main results: rounding gives canonical numbers
only (`Format.round_canonical`), whatever lies in the interval of a canonical number rounds to it
(`Format.round_eq`), and nothing else does (`Format.roundsTo_of_round`).
-/

set_option autoImplicit false

namespace DocFilter.Number

/-! ## Scaling and the nearest natural number -/

theorem scaleDown_den_pos {num den : Nat} (hd : 0 < den) (e : Int) :
    0 < (scaleDown num den e).2 := by
  cases e with
  | ofNat e => exact Nat.mul_pos hd (Nat.pow_pos (by decide))
  | negSucc e => exact hd

/-- Scaling divides by a power of two, exactly: a positive exponent goes to the denominator, and a negative
one to the numerator. -/
theorem scaleDown_eq (num den : Nat) (e : Int) :
    ((scaleDown num den e).1 : ℚ) / (scaleDown num den e).2 = num / den / 2 ^ e := by
  cases e with
  | ofNat e =>
    show (num : ℚ) / ((den * 2 ^ e : Nat) : ℚ) = num / den / 2 ^ (e : Int)
    rw [zpow_natCast, div_div, Nat.cast_mul, Nat.cast_pow, Nat.cast_ofNat]
  | negSucc e =>
    show ((num * 2 ^ (e + 1) : Nat) : ℚ) / (den : ℚ) = num / den / 2 ^ (Int.negSucc e)
    rw [zpow_negSucc, div_inv_eq_mul, Nat.cast_mul, Nat.cast_pow, Nat.cast_ofNat, mul_div_right_comm]

/-- The quotient and the remainder of a division, as a fraction. -/
theorem cast_div_add_mod (n : Nat) {d : Nat} (hd : 0 < d) :
    (n : ℚ) / d = (n / d : Nat) + (n % d : Nat) / d := by
  have hd' : (d : ℚ) ≠ 0 := by positivity
  have hn : (n : ℚ) = d * (n / d : Nat) + (n % d : Nat) := by exact_mod_cast (Nat.div_add_mod n d).symm
  field_simp
  exact hn

/-- The nearest natural number to a fraction is at most half away from it, and a half only if it is
even. -/
theorem nearestEven_within {n d : Nat} (hd : 0 < d) :
    (nearestEven n d : ℚ) - 1 / 2 ≤ n / d ∧ (n : ℚ) / d ≤ nearestEven n d + 1 / 2 ∧
      (nearestEven n d % 2 = 0 ∨
        ((nearestEven n d : ℚ) - 1 / 2 < n / d ∧ (n : ℚ) / d < nearestEven n d + 1 / 2)) := by
  have hd' : (0 : ℚ) < d := by exact_mod_cast hd
  have hsplit := cast_div_add_mod n hd
  have hr : (n % d : Nat) / (d : ℚ) < 1 := by
    rw [div_lt_one hd']
    exact_mod_cast Nat.mod_lt n hd
  have hr0 : (0 : ℚ) ≤ (n % d : Nat) / (d : ℚ) := by positivity
  -- the rest in units of the denominator, compared with a half
  have hhalf : 2 * ((n % d : Nat) : ℚ) / d = 2 * ((n % d : Nat) / (d : ℚ)) := mul_div_assoc _ _ _
  unfold nearestEven
  dsimp only
  generalize n / d = q at *
  generalize n % d = r at *
  split_ifs with hlt hgt heven
  · have h : (2 * r : ℚ) / d < 1 := by
      rw [div_lt_one hd']
      exact_mod_cast hlt
    rw [hsplit]
    exact ⟨by linarith, by linarith, .inr ⟨by linarith, by linarith⟩⟩
  · have h : 1 < (2 * r : ℚ) / d := by
      rw [one_lt_div hd']
      exact_mod_cast hgt
    rw [hsplit]
    push_cast
    exact ⟨by linarith, by linarith, .inr ⟨by linarith, by linarith⟩⟩
  all_goals
    have h : (2 * r : ℚ) / d = 1 := by
      rw [div_eq_one_iff_eq hd'.ne']
      exact_mod_cast (by omega : 2 * r = d)
    rw [hsplit]
  · exact ⟨by linarith, by linarith, .inl (by simpa using heven)⟩
  · push_cast
    exact ⟨by linarith, by linarith, .inl (by simp at heven; omega)⟩

/-- A natural number within half of a fraction is the nearest one, if it is even or the distance
is smaller than a half. -/
theorem nearestEven_eq {n d m : Nat} (hd : 0 < d)
    (hlow : (m : ℚ) - 1 / 2 ≤ n / d) (hhigh : (n : ℚ) / d ≤ m + 1 / 2)
    (htie : m % 2 = 0 ∨ ((m : ℚ) - 1 / 2 < n / d ∧ (n : ℚ) / d < m + 1 / 2)) :
    nearestEven n d = m := by
  obtain ⟨hlow', hhigh', htie'⟩ := nearestEven_within (n := n) hd
  generalize nearestEven n d = x at *
  have hle : x ≤ m + 1 := by
    have h : (x : ℚ) ≤ m + 1 := by linarith
    exact_mod_cast h
  have hge : m ≤ x + 1 := by
    have h : (m : ℚ) ≤ x + 1 := by linarith
    exact_mod_cast h
  -- two neighbours are both a half away, and only one of them is even
  have hodd : ∀ a b : Nat, (a % 2 = 0 ∨ (n : ℚ) / d < a + 1 / 2) → (b % 2 = 0 ∨ (b : ℚ) - 1 / 2 < n / d) →
      (n : ℚ) / d ≤ a + 1 / 2 → (b : ℚ) - 1 / 2 ≤ n / d → b ≠ a + 1 := by
    rintro a b ha hb hahigh hblow rfl
    push_cast at hb hblow
    rcases ha with ha | ha
    · rcases hb with hb | hb
      · omega
      · linarith
    · linarith
  have hup := hodd m x (htie.imp_right And.right) (htie'.imp_right And.left) hhigh hlow'
  have hdown := hodd x m (htie'.imp_right And.right) (htie.imp_right And.left) hhigh' hlow
  omega

/-- The nearest natural number to a fraction is no further than a natural bound above it. -/
theorem nearestEven_le {n d k : Nat} (hd : 0 < d) (h : (n : ℚ) / d ≤ k) : nearestEven n d ≤ k := by
  have hd' : (0 : ℚ) < d := by exact_mod_cast hd
  have hn : n ≤ k * d := by rw [div_le_iff₀ hd'] at h; exact_mod_cast h
  have hq : n / d ≤ k := Nat.div_le_of_le_mul (by rw [Nat.mul_comm]; exact hn)
  unfold nearestEven
  rcases Nat.lt_or_eq_of_le hq with hlt | heq
  · dsimp only; split_ifs <;> omega
  · -- nothing is left over when the quotient is the bound
    have hr : n % d = 0 := by
      have := Nat.div_add_mod n d
      rw [heq, Nat.mul_comm] at this
      omega
    simp only [hr, Nat.mul_zero, hd, if_true]
    exact hq

/-- Rounding to the nearest integer is monotone at integers: what is at least an integer is not rounded
below it. -/
theorem le_nearestEven {n d k : Nat} (hd : 0 < d) (h : (k : ℚ) ≤ n / d) : k ≤ nearestEven n d := by
  have hd' : (0 : ℚ) < d := by exact_mod_cast hd
  have hn : k * d ≤ n := by rw [le_div_iff₀ hd'] at h; exact_mod_cast h
  have hq : k ≤ n / d := (Nat.le_div_iff_mul_le hd).2 hn
  unfold nearestEven
  dsimp only
  split_ifs <;> omega

/-! ## The exponent of a fraction -/

/-- The binary logarithm of a number bounds it from below, as a power of two over the rationals. -/
theorem two_zpow_log2_le {n : Nat} (hn : n ≠ 0) : (2 : ℚ) ^ (n.log2 : Int) ≤ n := by
  rw [zpow_natCast]; exact_mod_cast Nat.log2_self_le hn

theorem lt_two_zpow_log2 (n : Nat) : (n : ℚ) < 2 ^ ((n.log2 : Int) + 1) := by
  have h : n < 2 ^ (n.log2 + 1) := Nat.lt_log2_self
  have h' : (n : ℚ) < ((2 ^ (n.log2 + 1) : Nat) : ℚ) := by exact_mod_cast h
  rw [Nat.cast_pow, Nat.cast_ofNat] at h'
  exact_mod_cast h'

theorem two_zpow_lt_iff {a b : Int} : (2 : ℚ) ^ a < 2 ^ b ↔ a < b :=
  zpow_lt_zpow_iff_right₀ (by norm_num)

/-- The exponent of a positive fraction is the one that leaves `precision` bits before the point, or
the least one of the format if that is larger. -/
theorem Format.exponentOf_spec (f : Format) {num den : Nat} (hn : num ≠ 0) (hd : 0 < den) :
    ∃ E : Int, (2 : ℚ) ^ ((f.precision : Int) - 1 + E) ≤ num / den ∧
      (num : ℚ) / den < 2 ^ ((f.precision : Int) + E) ∧
      f.exponentOf num den = max E f.minExponent := by
  have hd' : (0 : ℚ) < den := by exact_mod_cast hd
  set g : Int := (num.log2 : Int) - den.log2 - f.precision with hg
  -- the guess is right or one too small
  have hlow : (2 : ℚ) ^ ((f.precision : Int) - 1 + g) < num / den := by
    rw [lt_div_iff₀ hd']
    calc (2 : ℚ) ^ ((f.precision : Int) - 1 + g) * den
        < 2 ^ ((f.precision : Int) - 1 + g) * 2 ^ ((den.log2 : Int) + 1) := by
          have := lt_two_zpow_log2 den
          gcongr
      _ = 2 ^ (num.log2 : Int) := by
          rw [← zpow_add₀ (by norm_num)]; congr 1; omega
      _ ≤ num := two_zpow_log2_le hn
  have hhigh : (num : ℚ) / den < 2 ^ ((f.precision : Int) + (g + 1)) := by
    rw [div_lt_iff₀ hd']
    calc (num : ℚ) < 2 ^ ((num.log2 : Int) + 1) := lt_two_zpow_log2 num
      _ = 2 ^ ((f.precision : Int) + (g + 1)) * 2 ^ (den.log2 : Int) := by
          rw [← zpow_add₀ (by norm_num)]; congr 1; omega
      _ ≤ 2 ^ ((f.precision : Int) + (g + 1)) * den := by
          have := two_zpow_log2_le hd.ne'
          gcongr
  have hscale := scaleDown_eq num den g
  have hpos : (0 : ℚ) < (scaleDown num den g).2 := by exact_mod_cast scaleDown_den_pos hd g
  have htest : (scaleDown num den g).2 * Nat.pow 2 f.precision ≤ (scaleDown num den g).1 ↔
      (2 : ℚ) ^ ((f.precision : Int) + g) ≤ num / den := by
    have h2 : (0 : ℚ) < 2 ^ g := by positivity
    rw [zpow_add₀ (by norm_num), zpow_natCast, ← le_div_iff₀ h2, ← hscale, le_div_iff₀ hpos,
      mul_comm]
    exact_mod_cast Iff.rfl
  unfold Format.exponentOf
  rw [← hg]
  by_cases htop : (2 : ℚ) ^ ((f.precision : Int) + g) ≤ num / den
  · refine ⟨g + 1, ?_, hhigh, ?_⟩
    · rwa [show (f.precision : Int) - 1 + (g + 1) = f.precision + g by omega]
    · simp only [if_pos (htest.2 htop)]
  · refine ⟨g, hlow.le, not_le.1 htop, ?_⟩
    simp only [if_neg (mt htest.1 htop)]

/-! ## Canonical numbers and their intervals -/

/-- The mantissa has all the bits of the format, or the exponent is the least one. -/
structure Format.Canonical (f : Format) (mantissa : Nat) (exponent : Int) : Prop where
  bounded : mantissa < 2 ^ f.precision
  least_le : f.minExponent ≤ exponent
  le_greatest : exponent ≤ f.maxExponent
  normal : 2 ^ (f.precision - 1) ≤ mantissa ∨ exponent = f.minExponent

/-- Zero has the least exponent. -/
theorem Format.Canonical.exponent_of_zero {f : Format} {e : Int} (hc : f.Canonical 0 e) :
    e = f.minExponent :=
  hc.normal.resolve_left (by simp)

/-- The lower end of the interval of a number, in units of its last place. -/
def Format.lowEnd (f : Format) (m : Nat) (e : Int) : ℚ :=
  if m = 2 ^ (f.precision - 1) ∧ f.minExponent < e then m - 1 / 4 else m - 1 / 2

/-- The rational lies in the interval of a number; the ends belong to an even mantissa. -/
def Format.RoundsTo (f : Format) (m : Nat) (e : Int) (q : ℚ) : Prop :=
  if m % 2 = 0 then f.lowEnd m e * 2 ^ e ≤ q ∧ q ≤ (m + 1 / 2) * 2 ^ e
  else f.lowEnd m e * 2 ^ e < q ∧ q < (m + 1 / 2) * 2 ^ e

/-- The lower end of an interval is at most half a unit away. -/
theorem Format.lowEnd_ge (f : Format) (m : Nat) (e : Int) : (m : ℚ) - 1 / 2 ≤ f.lowEnd m e := by
  unfold Format.lowEnd
  split_ifs <;> linarith

theorem Format.lowEnd_lt (f : Format) (m : Nat) (e : Int) : f.lowEnd m e < m := by
  unfold Format.lowEnd
  split_ifs <;> linarith

namespace Format.RoundsTo

variable {f : Format} {m : Nat} {e : Int} {q : ℚ}

/-- What rounds to a number is at least the lower end of its interval, whether this end belongs to it or
not. -/
theorem low_le (h : f.RoundsTo m e q) : f.lowEnd m e * 2 ^ e ≤ q := by
  unfold Format.RoundsTo at h
  split_ifs at h
  · exact h.1
  · exact h.1.le

/-- What rounds to a number is at most the upper end of its interval. -/
theorem le_high (h : f.RoundsTo m e q) : q ≤ (m + 1 / 2) * 2 ^ e := by
  unfold Format.RoundsTo at h
  split_ifs at h
  · exact h.2
  · exact h.2.le

/-- The ends of an interval belong to it only if the mantissa is even. -/
theorem ends (h : f.RoundsTo m e q) :
    m % 2 = 0 ∨ (f.lowEnd m e * 2 ^ e < q ∧ q < (m + 1 / 2) * 2 ^ e) := by
  unfold Format.RoundsTo at h
  split_ifs at h with heven
  · exact .inl heven
  · exact .inr h

/-- What lies strictly between the ends belongs to the interval whatever the mantissa is. -/
theorem of_lt (hlow : f.lowEnd m e * 2 ^ e < q) (hhigh : q < (m + 1 / 2) * 2 ^ e) :
    f.RoundsTo m e q := by
  unfold Format.RoundsTo
  split_ifs
  · exact ⟨hlow.le, hhigh.le⟩
  · exact ⟨hlow, hhigh⟩

/-- Only positive rationals round to a positive number, since intervals of these lie above zero. -/
theorem pos (h : f.RoundsTo m e q) (hm : 0 < m) : 0 < q := by
  have hm' : (1 : ℚ) ≤ m := by exact_mod_cast hm
  have hge := f.lowEnd_ge m e
  have : 0 < f.lowEnd m e * 2 ^ e := mul_pos (by linarith) (by positivity)
  exact this.trans_le h.low_le

/-- A number lies in its own interval. -/
theorem self : f.RoundsTo m e (m * 2 ^ e) := by
  have h2 : (0 : ℚ) < 2 ^ e := by positivity
  refine of_lt ?_ ?_
  · have := f.lowEnd_lt m e
    gcongr
  · gcongr
    linarith

end Format.RoundsTo

/-! ## Rounding -/

/-- What rounding does with the nearest mantissa at the exponent of the fraction. -/
theorem Format.round_of_ne_zero (f : Format) (s : Bool) {num : Nat} (hn : num ≠ 0) (den : Nat) :
    f.round s num den =
      (let e := f.exponentOf num den
       let m := nearestEven (scaleDown num den e).1 (scaleDown num den e).2
       let carried := if m = 2 ^ f.precision then (2 ^ (f.precision - 1), e + 1) else (m, e)
       if f.maxExponent < carried.2 then .infinite s else .finite s carried.1 carried.2) := by
  unfold Format.round
  rw [if_neg (by simpa using hn)]
  simp only [beq_iff_eq]
  rfl

/-- **Rounding is canonical.** Rounding leaves the format on the far side, or it gives a canonical
number with the sign that was asked for. -/
theorem Format.round_canonical {f : Format} (hp : 1 ≤ f.precision)
    (hrange : f.minExponent ≤ f.maxExponent) (s : Bool) (num : Nat) {den : Nat} (hd : 0 < den) :
    f.round s num den = .infinite s ∨ ∃ m e, f.round s num den = .finite s m e ∧ f.Canonical m e := by
  have hcarry : 2 ^ (f.precision - 1) < 2 ^ f.precision := Nat.pow_lt_pow_right (by decide) (by omega)
  by_cases hn : num = 0
  · subst hn
    exact .inr ⟨0, f.minExponent, rfl, Nat.pow_pos (by decide), le_refl _, hrange, .inr rfl⟩
  · obtain ⟨E, hlow, hhigh, hE⟩ := f.exponentOf_spec hn hd
    have hden : 0 < (scaleDown num den (f.exponentOf num den)).2 := scaleDown_den_pos hd _
    have hscale := scaleDown_eq num den (f.exponentOf num den)
    rw [f.round_of_ne_zero s hn]
    dsimp only
    generalize hx : nearestEven _ _ = x
    -- the mantissa fits, or it carries into one bit more
    have hxle : x ≤ 2 ^ f.precision := by
      rw [← hx]
      refine nearestEven_le hden ?_
      rw [hscale, div_le_iff₀ (by positivity), Nat.cast_pow, Nat.cast_ofNat, ← zpow_natCast,
        ← zpow_add₀ (by norm_num)]
      exact hhigh.le.trans (zpow_le_zpow_right₀ (by norm_num) (by omega))
    -- above the least exponent it has all its bits
    have hxge : f.minExponent < f.exponentOf num den → 2 ^ (f.precision - 1) ≤ x := by
      intro hlt
      rw [← hx]
      refine le_nearestEven hden ?_
      rw [hscale, le_div_iff₀ (by positivity), Nat.cast_pow, Nat.cast_ofNat, ← zpow_natCast,
        ← zpow_add₀ (by norm_num)]
      refine le_trans (zpow_le_zpow_right₀ (by norm_num) ?_) hlow
      omega
    -- a carry makes it a power of two with the next exponent
    by_cases hfull : x = 2 ^ f.precision
    · rw [if_pos hfull]
      by_cases htop : f.maxExponent < f.exponentOf num den + 1
      · exact .inl (if_pos htop)
      · exact .inr ⟨_, _, if_neg htop, hcarry, by omega, by omega, .inl (le_refl _)⟩
    · rw [if_neg hfull]
      by_cases htop : f.maxExponent < f.exponentOf num den
      · exact .inl (if_pos htop)
      · refine .inr ⟨_, _, if_neg htop, by omega, by omega, by omega, ?_⟩
        by_cases hlt : f.minExponent < f.exponentOf num den
        · exact .inl (hxge hlt)
        · exact .inr (by omega)

/-- Fractions below the last power of two do not leave the format. -/
theorem Format.round_finite {f : Format} (hrange : f.minExponent < f.maxExponent) (s : Bool)
    {num den : Nat} (hd : 0 < den)
    (hsmall : (num : ℚ) / den < 2 ^ ((f.precision : Int) - 1 + f.maxExponent)) :
    ∃ m e, f.round s num den = .finite s m e := by
  by_cases hn : num = 0
  · subst hn
    exact ⟨_, _, rfl⟩
  · obtain ⟨E, hlow, -, hE⟩ := f.exponentOf_spec hn hd
    have hlt : E < f.maxExponent := by
      have := (zpow_lt_zpow_iff_right₀ (by norm_num)).1 (hlow.trans_lt hsmall)
      omega
    rw [f.round_of_ne_zero s hn]
    dsimp only
    -- one carry is all that can be added to the exponent
    rw [if_neg (by split <;> dsimp only <;> omega)]
    exact ⟨_, _, rfl⟩

/-! ## Rounding finds the number -/

/-- Powers of two over the natural numbers are powers of two over the rationals. -/
theorem cast_two_pow (k : Nat) : ((2 ^ k : Nat) : ℚ) = 2 ^ (k : Int) := by
  rw [Nat.cast_pow, Nat.cast_ofNat, zpow_natCast]

/-- The same for one exponent less, where subtraction has to be taken care of. -/
theorem cast_two_pow_pred {k : Nat} (hk : 1 ≤ k) : ((2 ^ (k - 1) : Nat) : ℚ) = 2 ^ ((k : Int) - 1) := by
  rw [cast_two_pow, Nat.cast_sub hk, Nat.cast_one]

section

variable {f : Format} {m : Nat} {e : Int}

/-- The interval of a canonical number ends below the next power of two. -/
theorem Format.RoundsTo.lt_next {q : ℚ} (hq : f.RoundsTo m e q) (hc : f.Canonical m e) :
    q < 2 ^ ((f.precision : Int) + e) := by
  have hb : (m : ℚ) + 1 ≤ 2 ^ (f.precision : Int) := by
    rw [← cast_two_pow]
    exact_mod_cast hc.bounded
  calc q ≤ (m + 1 / 2) * 2 ^ e := hq.le_high
    _ < 2 ^ (f.precision : Int) * 2 ^ e := by gcongr; linarith
    _ = 2 ^ ((f.precision : Int) + e) := (zpow_add₀ (by norm_num) _ _).symm

/-- Only the interval of a power of two reaches below the power, and there no further than half a step
of the smaller exponent. -/
theorem Format.RoundsTo.below_power {q : ℚ} (hq : f.RoundsTo m e q) (hp : 1 ≤ f.precision)
    (hc : f.Canonical m e) (hmin : f.minExponent < e) (hlt : q < 2 ^ ((f.precision : Int) - 1 + e)) :
    m = 2 ^ (f.precision - 1) ∧ (2 ^ (f.precision : Int) - 1 / 2) * 2 ^ (e - 1) ≤ q := by
  have hlow := hq.low_le
  have hnormal : 2 ^ (f.precision - 1) ≤ m := by
    rcases hc.normal with h | h
    · exact h
    · omega
  -- the interval of any larger mantissa lies above the power
  have hm : m = 2 ^ (f.precision - 1) := by
    by_contra hne
    have hsucc : 2 ^ (f.precision - 1) + 1 ≤ m := by omega
    have hcast : (2 : ℚ) ^ ((f.precision : Int) - 1) + 1 ≤ m := by
      rw [← cast_two_pow_pred hp]
      exact_mod_cast hsucc
    have habove : (2 : ℚ) ^ ((f.precision : Int) - 1 + e) < f.lowEnd m e * 2 ^ e := by
      rw [zpow_add₀ (by norm_num)]
      have := f.lowEnd_ge m e
      gcongr
      linarith
    linarith
  refine ⟨hm, ?_⟩
  have hend : f.lowEnd m e = 2 ^ ((f.precision : Int) - 1) - 1 / 4 := by
    rw [Format.lowEnd, if_pos ⟨hm, hmin⟩, hm, cast_two_pow_pred hp]
  calc ((2 : ℚ) ^ (f.precision : Int) - 1 / 2) * 2 ^ (e - 1)
      = (2 ^ ((f.precision : Int) - 1) - 1 / 4) * 2 ^ e := by
        rw [zpow_sub_one₀ (by norm_num), zpow_sub_one₀ (by norm_num)]
        ring
    _ = f.lowEnd m e * 2 ^ e := by rw [hend]
    _ ≤ q := hlow

variable {num den : Nat}

/-- At the exponent of a number, the mantissa is the nearest one to what its interval holds. -/
theorem nearestEven_of_roundsTo (hd : 0 < den) (hq : f.RoundsTo m e ((num : ℚ) / den)) :
    nearestEven (scaleDown num den e).1 (scaleDown num den e).2 = m := by
  have h2e : (0 : ℚ) < 2 ^ e := by positivity
  have hscale := scaleDown_eq num den e
  have hend := f.lowEnd_ge m e
  refine nearestEven_eq (scaleDown_den_pos hd _) ?_ ?_ ?_
  · rw [hscale, le_div_iff₀ h2e]
    exact le_trans (by gcongr) hq.low_le
  · rw [hscale, div_le_iff₀ h2e]
    exact hq.le_high
  · rw [hscale, lt_div_iff₀ h2e, div_lt_iff₀ h2e]
    exact hq.ends.imp_right fun h => ⟨lt_of_le_of_lt (by gcongr) h.1, h.2⟩

/-- Just below a power of two, the nearest mantissa at the smaller exponent is one that carries. So what
lies there is rounded up to the power, as it should be. -/
theorem nearestEven_below_power (hp : 1 ≤ f.precision) (hd : 0 < den)
    (hlow : (2 ^ (f.precision : Int) - 1 / 2) * 2 ^ (e - 1) ≤ (num : ℚ) / den)
    (hlt : (num : ℚ) / den < 2 ^ ((f.precision : Int) - 1 + e)) :
    nearestEven (scaleDown num den (e - 1)).1 (scaleDown num den (e - 1)).2 = 2 ^ f.precision := by
  have h2e : (0 : ℚ) < 2 ^ (e - 1) := by positivity
  have hscale := scaleDown_eq num den (e - 1)
  have hpower : (2 : ℚ) ^ ((f.precision : Int) - 1 + e) = 2 ^ (f.precision : Int) * 2 ^ (e - 1) := by
    rw [← zpow_add₀ (by norm_num)]
    congr 1
    omega
  refine nearestEven_eq (scaleDown_den_pos hd _) ?_ ?_ (.inl ?_)
  · rw [hscale, cast_two_pow, le_div_iff₀ h2e]
    exact hlow
  · rw [hscale, cast_two_pow, div_le_iff₀ h2e]
    rw [hpower] at hlt
    nlinarith
  -- a power of two is even, so a tie goes to it
  · obtain ⟨k, hk⟩ := Nat.exists_eq_add_of_le hp
    rw [hk, Nat.pow_add]
    omega

/-- **Rounding finds the number.** A positive fraction in the interval of a canonical number rounds
to it. -/
theorem Format.round_eq (hp : 1 ≤ f.precision) (hc : f.Canonical m e) (hm : 0 < m) (s : Bool)
    (hd : 0 < den) (hq : f.RoundsTo m e ((num : ℚ) / den)) : f.round s num den = .finite s m e := by
  have hn : num ≠ 0 := by
    rintro rfl
    have := hq.pos hm
    simp at this
  obtain ⟨E, hlow, hhigh, hE⟩ := f.exponentOf_spec hn hd
  rw [f.round_of_ne_zero s hn, hE]
  have hle : E ≤ e := by
    have := two_zpow_lt_iff.1 (hlow.trans_lt (hq.lt_next hc))
    omega
  have hleast := hc.least_le
  have hgreatest := hc.le_greatest
  by_cases hbelow : f.minExponent < e ∧ (num : ℚ) / den < 2 ^ ((f.precision : Int) - 1 + e)
  · -- the fraction has a smaller exponent than the number, and the carry restores it
    obtain ⟨hmin, hlt⟩ := hbelow
    obtain ⟨hpower, hquarter⟩ := hq.below_power hp hc hmin hlt
    have hge : e - 1 ≤ E := by
      have hstep : (2 : ℚ) ^ ((f.precision : Int) - 1 + (e - 1))
          ≤ (2 ^ (f.precision : Int) - 1 / 2) * 2 ^ (e - 1) := by
        have hone : (1 : ℚ) ≤ 2 ^ ((f.precision : Int) - 1) := one_le_zpow₀ (by norm_num) (by omega)
        have hdouble : (2 : ℚ) ^ (f.precision : Int) = 2 * 2 ^ ((f.precision : Int) - 1) := by
          rw [zpow_sub_one₀ (by norm_num)]
          ring
        rw [zpow_add₀ (by norm_num)]
        gcongr
        linarith
      have := two_zpow_lt_iff.1 ((hstep.trans hquarter).trans_lt hhigh)
      omega
    have hlt' : E < e := by
      have := two_zpow_lt_iff.1 (hlow.trans_lt hlt)
      omega
    have hexponent : max E f.minExponent = e - 1 := by omega
    simp only [hexponent, nearestEven_below_power hp hd hquarter hlt, if_true]
    rw [if_neg (by omega), hpower]
    congr 1
    omega
  · have hexponent : max E f.minExponent = e := by
      rcases not_and_or.1 hbelow with hmin | hge
      · omega
      · have := two_zpow_lt_iff.1 ((not_lt.1 hge).trans_lt hhigh)
        omega
    simp only [hexponent, nearestEven_of_roundsTo hd hq]
    rw [if_neg hc.bounded.ne, if_neg (by omega)]

end

/-- **What rounding gives has the fraction in its interval.** The interval is half a unit on each side, but
for powers of two, where the unit below is smaller and has to be looked at apart. -/
theorem Format.roundsTo_of_round {f : Format} (hp : 2 ≤ f.precision) {s s' : Bool} {num den m : Nat}
    {e : Int} (hn : num ≠ 0) (hd : 0 < den) (h : f.round s num den = .finite s' m e) :
    s' = s ∧ f.RoundsTo m e ((num : ℚ) / den) := by
  obtain ⟨E, hlow, hhigh, hE⟩ := f.exponentOf_spec hn hd
  obtain ⟨hbelow, habove, htie⟩ := nearestEven_within (n := (scaleDown num den (f.exponentOf num den)).1)
    (scaleDown_den_pos hd (f.exponentOf num den))
  rw [scaleDown_eq] at hbelow habove htie
  rw [f.round_of_ne_zero s hn] at h
  dsimp only at h
  generalize nearestEven _ _ = x at *
  generalize f.exponentOf num den = g at *
  have h2 : (0 : ℚ) < 2 ^ g := by positivity
  rw [le_div_iff₀ h2] at hbelow
  rw [div_le_iff₀ h2] at habove
  rw [lt_div_iff₀ h2, div_lt_iff₀ h2] at htie
  by_cases hcarry : x = 2 ^ f.precision
  · -- the carry leads to a power of two, from the narrow side of its interval
    rw [if_pos hcarry] at h
    dsimp only at h
    split_ifs at h
    cases h
    refine ⟨rfl, ?_⟩
    have heven : 2 ^ (f.precision - 1) % 2 = 0 := by
      obtain ⟨k, hk⟩ := Nat.exists_eq_add_of_le hp
      rw [hk, show 2 + k - 1 = k + 1 by omega, Nat.pow_succ]
      omega
    rw [Format.RoundsTo, if_pos heven, Format.lowEnd, if_pos ⟨rfl, by omega⟩,
      cast_two_pow_pred (by omega : 1 ≤ f.precision), zpow_add_one₀ (by norm_num), zpow_sub_one₀ (by norm_num)]
    rw [hcarry, cast_two_pow] at hbelow
    have hnext : (num : ℚ) / den < 2 ^ (f.precision : Int) * 2 ^ g := by
      rw [← zpow_add₀ (by norm_num)]
      exact hhigh.trans_le (zpow_le_zpow_right₀ (by norm_num) (by omega))
    constructor
    · linarith
    · linarith
  · rw [if_neg hcarry] at h
    dsimp only at h
    split_ifs at h
    cases h
    refine ⟨rfl, ?_⟩
    have hend : f.lowEnd m e * 2 ^ e ≤ num / den ∧
        (m % 2 ≠ 0 → f.lowEnd m e * 2 ^ e < (num : ℚ) / den) := by
      by_cases hnarrow : m = 2 ^ (f.precision - 1) ∧ f.minExponent < e
      · -- no carry, so the fraction is not below the power of two
        have hpower : (m : ℚ) * 2 ^ e ≤ num / den := by
          rw [hnarrow.1, cast_two_pow_pred (by omega : 1 ≤ f.precision), ← zpow_add₀ (by norm_num)]
          rw [show e = E by omega]
          exact hlow
        rw [Format.lowEnd, if_pos hnarrow]
        exact ⟨by linarith, fun _ => by linarith⟩
      · rw [Format.lowEnd, if_neg hnarrow]
        exact ⟨hbelow, fun hodd => (htie.resolve_left hodd).1⟩
    rw [Format.RoundsTo]
    split_ifs with heven
    · exact ⟨hend.1, habove⟩
    · exact ⟨hend.2 heven, (htie.resolve_left heven).2⟩

end DocFilter.Number
