import DocFilter.Number.Shortest
import DocFilter.Proofs.Rounding
import Mathlib.Data.Nat.Cast.Order.Field
import Mathlib.Data.Rat.Floor

/-!
The shortest decimal of a number rounds to the number. The search over the grids always ends with a
decimal: on the grid of the seventeenth digit after the first the decimal just above the number
already lies in its interval. Main results: `Format.shortest_roundsTo`; `Format.shortest_value_eq`, which
says of a decimal of fifteen or sixteen digits when it is the shortest one; and `Format.ofDecimal_eq`,
which takes a decimal in the interval of a number back to the number.
-/

set_option autoImplicit false

namespace DocFilter.Number

/-- The formats within reach of the search: their numbers have at most seventeen digits that matter
and lie between `10 ^ (-400)` and `10 ^ 400`. -/
structure Format.Modest (f : Format) : Prop where
  one_le : 1 ≤ f.precision
  precision_le : f.precision ≤ 55
  least_ge : -1300 ≤ f.minExponent
  least_le : f.minExponent ≤ f.maxExponent
  greatest_le : f.precision + f.maxExponent ≤ 1300

theorem double_modest : double.Modest := by constructor <;> decide

/-- The value of a decimal. -/
def Decimal.value (d : Decimal) : ℚ := d.digits * 10 ^ d.exponent

/-! ## Decimals on a grid -/

theorem timesTen_den_pos (a : Nat) (p : Int) : 0 < (timesTen a p).2 := by
  cases p with
  | ofNat p => exact Nat.one_pos
  | negSucc p => exact Nat.pow_pos (by decide)

theorem timesTen_eq (a : Nat) (p : Int) : ((timesTen a p).1 : ℚ) / (timesTen a p).2 = a * 10 ^ p := by
  cases p with
  | ofNat p =>
    show ((a * 10 ^ p : Nat) : ℚ) / ((1 : Nat) : ℚ) = a * 10 ^ (p : Int)
    rw [Nat.cast_one, div_one, Nat.cast_mul, Nat.cast_pow, zpow_natCast, Nat.cast_ofNat]
  | negSucc p =>
    show (a : ℚ) / ((10 ^ (p + 1) : Nat) : ℚ) = a * 10 ^ Int.negSucc p
    rw [zpow_negSucc, Nat.cast_pow, Nat.cast_ofNat, div_eq_mul_inv]

namespace Rounded

variable {r : Rounded}

/-- The test on cross products compares the decimal with the ends of the interval. -/
theorem holds_iff (hd : 0 < r.den) (n : Nat) (p : Int) :
    r.holds n p = true ↔
      if r.closed then (r.low : ℚ) / r.den ≤ n * 10 ^ p ∧ (n : ℚ) * 10 ^ p ≤ r.high / r.den
      else (r.low : ℚ) / r.den < n * 10 ^ p ∧ (n : ℚ) * 10 ^ p < r.high / r.den := by
  have hd' : (0 : ℚ) < r.den := by exact_mod_cast hd
  have ht : (0 : ℚ) < (timesTen n p).2 := by exact_mod_cast timesTen_den_pos n p
  rw [← timesTen_eq, div_le_div_iff₀ hd' ht, div_le_div_iff₀ ht hd', div_lt_div_iff₀ hd' ht,
    div_lt_div_iff₀ ht hd']
  unfold holds
  cases r.closed <;> simp only [Bool.false_eq_true, if_true, if_false, Bool.and_eq_true,
    decide_eq_true_eq] <;> exact_mod_cast Iff.rfl

/-- A decimal that the search finds on a grid is positive and lies in the interval. It is one of the two
neighbours of the number on the grid, or the nearer one if both lie in the interval. -/
theorem onGrid?_some {p : Int} {n : Nat} (h : r.onGrid? p = some n) : 0 < n ∧ r.holds n p = true := by
  unfold onGrid? at h
  dsimp only at h
  generalize r.value * (timesTen 1 p).2 / (r.den * (timesTen 1 p).1) = below at h
  -- whether the lower and the upper neighbour lie in the interval
  generalize hb : (r.holds below p && decide (0 < below)) = b at h
  generalize ha : r.holds (below + 1) p = a at h
  have hbelow : b = true → 0 < below ∧ r.holds below p = true := by
    rintro rfl
    simpa [and_comm] using hb
  have habove : a = true → 0 < below + 1 ∧ r.holds (below + 1) p = true := by
    rintro rfl
    exact ⟨Nat.succ_pos _, ha⟩
  cases b <;> cases a <;> simp only [Option.some.injEq, reduceCtorEq] at h
  · exact h ▸ habove rfl
  · exact h ▸ hbelow rfl
  · subst h
    split_ifs
    · exact hbelow rfl
    · exact habove rfl

/-- The search ends with a decimal of the interval, if one of its grids has one, and no later than on that
grid. The induction is on the number of grids that are left. -/
theorem search_spec {grids : Nat} {p : Int} {k : Nat} (hk : k < grids)
    (h : (r.onGrid? (p - k)).isSome) :
    0 < (r.search grids p).digits ∧
      r.holds (r.search grids p).digits (r.search grids p).exponent = true ∧
      p - k ≤ (r.search grids p).exponent := by
  induction grids generalizing p k with
  | zero => omega
  | succ grids ih =>
    unfold search
    cases hg : r.onGrid? p with
    | some n =>
      obtain ⟨hpos, hholds⟩ := onGrid?_some hg
      exact ⟨hpos, hholds, by dsimp only; omega⟩
    | none =>
      cases k with
      | zero =>
        rw [Nat.cast_zero, sub_zero, hg] at h
        simp at h
      | succ k =>
        have hstep : p - 1 - (k : Int) = p - (k + 1 : Nat) := by omega
        rw [← hstep] at h ⊢
        exact ih (by omega) h

end Rounded

/-- Dropping zeros at the end keeps the value: a digit less is made up for by the exponent. The bound on the
number of zeros only stops it early. -/
theorem Decimal.trimmed_spec (d : Decimal) (bound : Nat) (hd : 0 < d.digits) :
    (d.trimmed bound).value = d.value ∧ 0 < (d.trimmed bound).digits := by
  induction bound generalizing d with
  | zero => exact ⟨rfl, hd⟩
  | succ bound ih =>
    unfold Decimal.trimmed
    split_ifs with h
    · simp only [Bool.and_eq_true, beq_iff_eq, bne_iff_ne] at h
      obtain ⟨hv, hpos⟩ := ih ⟨d.digits / 10, d.exponent + 1⟩ (by simp only; omega)
      refine ⟨hv.trans ?_, hpos⟩
      have hten : (d.digits : ℚ) = (d.digits / 10 : Nat) * 10 := by
        exact_mod_cast (Nat.div_mul_cancel (Nat.dvd_of_mod_eq_zero h.1)).symm
      rw [Decimal.value, Decimal.value, hten, zpow_add_one₀ (by norm_num)]
      ring
    · exact ⟨rfl, hd⟩

/-- Where all zeros can be dropped none is left, and there are no more digits than before. The bound
suffices if it is at least the number of digits. -/
theorem Decimal.trimmed_last (d : Decimal) {k bound : Nat} (hk : k ≤ bound) (hd : 0 < d.digits)
    (hlt : d.digits < 10 ^ k) :
    (d.trimmed bound).digits % 10 ≠ 0 ∧ (d.trimmed bound).digits ≤ d.digits := by
  induction bound generalizing d k with
  | zero =>
    rw [Nat.le_zero.1 hk] at hlt
    omega
  | succ bound ih =>
    unfold Decimal.trimmed
    split_ifs with h
    · simp only [Bool.and_eq_true, beq_iff_eq] at h
      have hten : d.digits / 10 < 10 ^ (k - 1) := by
        cases k with
        | zero => omega
        | succ k =>
          rw [Nat.pow_succ, Nat.mul_comm] at hlt
          exact Nat.div_lt_of_lt_mul hlt
      obtain ⟨hlast, hle⟩ := ih ⟨d.digits / 10, d.exponent + 1⟩ (by omega) (by simp only; omega) hten
      exact ⟨hlast, hle.trans (Nat.div_le_self _ _)⟩
    · simp only [Bool.and_eq_true, beq_iff_eq, bne_iff_ne, not_and, not_not] at h
      exact ⟨fun hlast => hd.ne' (h hlast), le_refl _⟩

/-! ## The interval of a number -/

/-- The interval in whole units of a quarter of the last place. -/
theorem Format.interval_spec (f : Format) {m : Nat} (hm : 0 < m) (e : Int) :
    0 < (f.interval m e).den ∧
      ((f.interval m e).value : ℚ) / (f.interval m e).den = m * 2 ^ e ∧
      ((f.interval m e).low : ℚ) / (f.interval m e).den = f.lowEnd m e * 2 ^ e ∧
      ((f.interval m e).high : ℚ) / (f.interval m e).den = (m + 1 / 2) * 2 ^ e ∧
      ((f.interval m e).closed = true ↔ m % 2 = 0) := by
  have hquarter : (2 : ℚ) ^ e = 4 * 2 ^ (e - 2) := by
    rw [zpow_sub₀ (by norm_num)]; norm_num; ring
  have hlow : ((if m == Nat.pow 2 (f.precision - 1) && decide (f.minExponent < e) then 4 * m - 1
      else 4 * m - 2 : Nat) : ℚ) = 4 * f.lowEnd m e := by
    have h1 : 1 ≤ 4 * m := by omega
    have h2 : 2 ≤ 4 * m := by omega
    unfold Format.lowEnd
    simp only [Bool.and_eq_true, beq_iff_eq, decide_eq_true_eq]
    show ((if m = 2 ^ (f.precision - 1) ∧ f.minExponent < e then _ else _ : Nat) : ℚ) = _
    split_ifs
    · push_cast [h1]; ring
    · push_cast [h2]; ring
  unfold Format.interval
  dsimp only
  generalize (if m == Nat.pow 2 (f.precision - 1) && decide (f.minExponent < e) then 4 * m - 1
    else 4 * m - 2 : Nat) = low at hlow
  generalize he : e - 2 = u at hquarter
  -- the unit is a whole number from the exponent two on, and one over a whole number below
  cases u with
  | ofNat u =>
    have hu : (2 : ℚ) ^ Int.ofNat u = ((Nat.pow 2 u : Nat) : ℚ) := by
      show (2 : ℚ) ^ (u : Int) = ((2 ^ u : Nat) : ℚ)
      push_cast
      exact zpow_natCast 2 u
    rw [hquarter, hu]
    refine ⟨Nat.one_pos, ?_, ?_, ?_, by simp⟩
    · push_cast; ring
    · push_cast [hlow]; ring
    · push_cast; ring
  | negSucc u =>
    have hu : (2 : ℚ) ^ Int.negSucc u = 1 / ((Nat.pow 2 (u + 1) : Nat) : ℚ) := by
      show (2 : ℚ) ^ Int.negSucc u = 1 / ((2 ^ (u + 1) : Nat) : ℚ)
      rw [zpow_negSucc, Nat.cast_pow, Nat.cast_ofNat, one_div]
    rw [hquarter, hu]
    refine ⟨Nat.pow_pos (by decide), ?_, ?_, ?_, by simp⟩
    · push_cast; ring
    · rw [hlow]; ring
    · push_cast; ring

/-- The test of the search is membership in the interval. -/
theorem Format.interval_holds_iff (f : Format) {m : Nat} (hm : 0 < m) (e : Int) (d : Decimal) :
    (f.interval m e).holds d.digits d.exponent = true ↔ f.RoundsTo m e d.value := by
  obtain ⟨hd, -, hlow, hhigh, hclosed⟩ := f.interval_spec hm e
  rw [Rounded.holds_iff hd, hlow, hhigh, Format.RoundsTo]
  simp only [hclosed, Decimal.value]

/-- A decimal of the interval on a grid makes the search end there or before: one of the two neighbours of
the number lies between the number and the decimal. -/
theorem Format.onGrid?_of_roundsTo (f : Format) {m n : Nat} (hm : 0 < m) (hn : 0 < n) {e p : Int}
    (h : f.RoundsTo m e (n * 10 ^ p)) : ((f.interval m e).onGrid? p).isSome := by
  obtain ⟨hd, hvalue, -⟩ := f.interval_spec hm e
  have hd' : (0 : ℚ) < (f.interval m e).den := by exact_mod_cast hd
  have hten : (0 : ℚ) < 10 ^ p := by positivity
  have hself : f.RoundsTo m e (m * 2 ^ e) := .self
  -- the interval has no holes
  have hbetween : ∀ a b x : ℚ, f.RoundsTo m e a → f.RoundsTo m e b → a ≤ x → x ≤ b → f.RoundsTo m e x := by
    intro a b x ha hb hax hxb
    unfold Format.RoundsTo at *
    split_ifs at *
    · exact ⟨ha.1.trans hax, hxb.trans hb.2⟩
    · exact ⟨ha.1.trans_le hax, hxb.trans_lt hb.2⟩
  have hholds : ∀ k : Nat, f.RoundsTo m e (k * 10 ^ p) → (f.interval m e).holds k p = true :=
    fun k hk => (f.interval_holds_iff hm e ⟨k, p⟩).2 hk
  -- the natural number below the number in units of the grid
  have hone := timesTen_eq 1 p
  have ht : (0 : ℚ) < (timesTen 1 p).2 := by exact_mod_cast timesTen_den_pos 1 p
  rw [Nat.cast_one, one_mul, div_eq_iff ht.ne'] at hone
  have hnum : (0 : ℚ) < (timesTen 1 p).1 := by
    rw [hone]
    positivity
  unfold Rounded.onGrid?
  dsimp only
  generalize hden : (f.interval m e).den * (timesTen 1 p).1 = den
  have hden0 : 0 < den := by
    rw [← hden]
    exact Nat.mul_pos hd (by exact_mod_cast hnum)
  have hunits : (((f.interval m e).value * (timesTen 1 p).2 : Nat) : ℚ) / den * 10 ^ p = m * 2 ^ e := by
    rw [← hvalue, ← hden]
    push_cast
    rw [hone]
    field_simp
  have hsplit := cast_div_add_mod ((f.interval m e).value * (timesTen 1 p).2) hden0
  have hrest0 : (0 : ℚ) ≤ ((f.interval m e).value * (timesTen 1 p).2 % den : Nat) / (den : ℚ) := by
    positivity
  have hrest1 : ((f.interval m e).value * (timesTen 1 p).2 % den : Nat) / (den : ℚ) < 1 := by
    rw [div_lt_one (by exact_mod_cast hden0)]
    exact_mod_cast Nat.mod_lt _ hden0
  generalize (f.interval m e).value * (timesTen 1 p).2 / den = k at *
  generalize (f.interval m e).value * (timesTen 1 p).2 % den = rest at *
  rw [hsplit] at hunits
  rcases Nat.lt_or_ge k n with hlt | hge
  · have hnext : (f.interval m e).holds (k + 1) p = true := by
      refine hholds _ (hbetween _ _ _ hself h ?_ ?_)
      · rw [← hunits]
        push_cast
        gcongr
      · gcongr
        exact_mod_cast hlt
    rw [hnext]
    cases ((f.interval m e).holds k p && decide (0 < k)) <;> rfl
  · have hbelow : (f.interval m e).holds k p = true := by
      refine hholds _ (hbetween _ _ _ h hself ?_ ?_)
      · gcongr
      · rw [← hunits]
        gcongr
        linarith
    rw [hbelow, decide_eq_true (hn.trans_le hge)]
    cases (f.interval m e).holds (k + 1) p <;> rfl

/-! ## The power of the first digit -/

/-- The tens that are counted suffice to reach one, if any number within the bound does. -/
theorem le_mul_pow_tensToReachOne {num den bound : Nat} (h : den ≤ num * 10 ^ bound) :
    den ≤ num * 10 ^ tensToReachOne num den bound := by
  induction bound generalizing num with
  | zero => exact h
  | succ bound ih =>
    unfold tensToReachOne
    split_ifs with hle
    · simpa using hle
    · rw [Nat.add_comm, Nat.pow_succ, Nat.mul_comm _ 10, ← Nat.mul_assoc, Nat.mul_comm num]
      refine ih ?_
      rwa [Nat.mul_comm 10, Nat.mul_assoc, ← Nat.pow_succ']

theorem pow_length_toDigits_le {n : Nat} (hn : 0 < n) :
    10 ^ ((Nat.toDigits 10 n).length - 1) ≤ n := by
  by_contra hlt
  have hlen : 0 < (Nat.toDigits 10 n).length := Nat.length_toDigits_pos
  rcases Nat.eq_zero_or_pos ((Nat.toDigits 10 n).length - 1) with h0 | hpos
  · rw [h0] at hlt; omega
  · have := (Nat.length_toDigits_le_iff (by decide) hpos).2 (not_le.1 hlt)
    omega

theorem lt_pow_length_toDigits (n : Nat) : n < 10 ^ (Nat.toDigits 10 n).length :=
  (Nat.length_toDigits_le_iff (by decide) Nat.length_toDigits_pos).1 (le_refl _)

/-- The power of the first digit of a fraction is not above the fraction. For fractions from one on it is
found from the digits of the quotient, and below one by counting tens. -/
theorem ten_zpow_leadingPower_le {num den : Nat} (hd : 0 < den) (h : den ≤ num * 10 ^ 400) :
    (10 : ℚ) ^ leadingPower num den ≤ num / den := by
  have hd' : (0 : ℚ) < den := by exact_mod_cast hd
  unfold leadingPower
  split_ifs with hle
  · have hq : 0 < num / den := Nat.div_pos hle hd
    have hlen : 0 < (Nat.toDigits 10 (num / den)).length := Nat.length_toDigits_pos
    have hnat := pow_length_toDigits_le hq
    calc (10 : ℚ) ^ ((Nat.toDigits 10 (num / den)).length - 1 : Int)
        = ((10 ^ ((Nat.toDigits 10 (num / den)).length - 1) : Nat) : ℚ) := by
          rw [Nat.cast_pow, Nat.cast_ofNat, ← zpow_natCast]
          congr 1
          omega
      _ ≤ (num / den : Nat) := by exact_mod_cast hnat
      _ ≤ num / den := Nat.cast_div_le
  · rw [zpow_neg, zpow_natCast, le_div_iff₀ hd', inv_mul_le_iff₀ (by positivity), mul_comm]
    exact_mod_cast le_mul_pow_tensToReachOne h

/-- The tens that are counted are not too many: one less does not reach one. So the first digit is where the
search takes it to be. -/
theorem lt_of_tensToReachOne {num den bound : Nat} (hlt : num < den) (h : den ≤ num * 10 ^ bound) :
    num * 10 ^ tensToReachOne num den bound < 10 * den := by
  induction bound generalizing num with
  | zero => omega
  | succ bound ih =>
    unfold tensToReachOne
    rw [if_neg (by omega)]
    have hshift : num * 10 ^ (1 + tensToReachOne (10 * num) den bound)
        = 10 * num * 10 ^ tensToReachOne (10 * num) den bound := by ring
    rw [hshift]
    -- one ten more is needed, or this one was the last
    rcases Nat.lt_or_ge (10 * num) den with hsmall | hlarge
    · refine ih hsmall ?_
      calc den ≤ num * 10 ^ (bound + 1) := h
        _ = 10 * num * 10 ^ bound := by ring
    · have hzero : tensToReachOne (10 * num) den bound = 0 := by
        cases bound with
        | zero => rfl
        | succ bound => exact if_pos hlarge
      rw [hzero]
      omega

/-- A fraction is below the power behind the one of its first digit. Together with the bound from below this
says that the power is the right one. -/
theorem lt_ten_zpow_leadingPower {num den : Nat} (hd : 0 < den) (h : den ≤ num * 10 ^ 400) :
    (num : ℚ) / den < 10 ^ (leadingPower num den + 1) := by
  have hd' : (0 : ℚ) < den := by exact_mod_cast hd
  unfold leadingPower
  split_ifs with hle
  · have hlen : 0 < (Nat.toDigits 10 (num / den)).length := Nat.length_toDigits_pos
    have hpow : num < 10 ^ (Nat.toDigits 10 (num / den)).length * den :=
      (Nat.div_lt_iff_lt_mul hd).1 (lt_pow_length_toDigits _)
    rw [div_lt_iff₀ hd', sub_add_cancel, zpow_natCast]
    exact_mod_cast hpow
  · have hreach := lt_of_tensToReachOne (not_le.1 hle) h
    rw [zpow_add_one₀ (by norm_num), zpow_neg, zpow_natCast, div_lt_iff₀ hd', mul_assoc,
      lt_inv_mul_iff₀ (by positivity), mul_comm]
    exact_mod_cast hreach


/-! ## The shortest decimal -/

/-- A bound between powers of two and of ten, on the scale of all modest formats. -/
theorem two_zpow_lt_ten_zpow : (2 : ℚ) ^ (1302 : Int) < 10 ^ (400 : Int) := by
  calc (2 : ℚ) ^ ((1302 : Nat) : Int) = (2 ^ 93) ^ 14 := by rw [zpow_natCast, ← pow_mul]
    _ < (10 ^ 28) ^ 14 := by gcongr; norm_num
    _ = 10 ^ 392 := by rw [← pow_mul]
    _ < 10 ^ 400 := pow_lt_pow_right₀ (by norm_num) (by norm_num)
    _ = 10 ^ ((400 : Nat) : Int) := (zpow_natCast _ _).symm

/-- The units of a number are within reach of the first digit. -/
theorem Format.Modest.ten_zpow_lt {f : Format} (hf : f.Modest) {e : Int} (he : f.minExponent ≤ e) :
    (10 : ℚ) ^ (-400 : Int) < 2 ^ (e - 2) := by
  have hexp : (-1302 : Int) ≤ e - 2 := by have := hf.least_ge; omega
  calc (10 : ℚ) ^ (-400 : Int) < 2 ^ (-1302 : Int) := by
        rw [zpow_neg, zpow_neg]
        exact inv_strictAnti₀ (by positivity) two_zpow_lt_ten_zpow
    _ ≤ 2 ^ (e - 2) := zpow_le_zpow_right₀ (by norm_num) hexp

/-- Four hundred tens suffice for every number of a modest format, so the bound of the search is never met.
-/
theorem Format.interval_reach {f : Format} (hf : f.Modest) {m : Nat} {e : Int} (hc : f.Canonical m e)
    (hm : 0 < m) : (f.interval m e).den ≤ (f.interval m e).value * 10 ^ 400 := by
  obtain ⟨hd, hvalue, -⟩ := f.interval_spec hm e
  have hd' : (0 : ℚ) < (f.interval m e).den := by exact_mod_cast hd
  have hm' : (1 : ℚ) ≤ m := by exact_mod_cast hm
  have hten := hf.ten_zpow_lt hc.least_le
  have hle : (2 : ℚ) ^ (e - 2) ≤ m * 2 ^ e := by
    calc (2 : ℚ) ^ (e - 2) ≤ 2 ^ e := zpow_le_zpow_right₀ (by norm_num) (by omega)
      _ ≤ m * 2 ^ e := le_mul_of_one_le_left (by positivity) hm'
  have hlt := hten.trans_le hle
  rw [← hvalue, lt_div_iff₀ hd', zpow_neg, inv_mul_lt_iff₀ (by positivity), mul_comm] at hlt
  exact_mod_cast hlt.le

/-- **What the search finds.** Where `k + 1` digits are enough to tell the numbers of a format apart, there is
a decimal of the number with few more digits than these, and the shortest decimal is this one without the
zeros at its end. -/
theorem Format.search_found {f : Format} (hf : f.Modest) {m : Nat} {e : Int} (hc : f.Canonical m e)
    (hm : 0 < m) {k : Nat} (hk : k < 19) (hwide : 2 ^ (f.precision + 1) ≤ 10 ^ k) :
    ∃ d : Decimal, f.shortest m e = d.trimmed 400 ∧ 0 < d.digits ∧ d.digits < 10 ^ (k + 2) ∧
      f.RoundsTo m e d.value := by
  obtain ⟨hd, hvalue, -⟩ := f.interval_spec hm e
  have hreach := f.interval_reach hf hc hm
  have hfirst := ten_zpow_leadingPower_le hd hreach
  have hnext := lt_ten_zpow_leadingPower hd hreach
  rw [hvalue] at hfirst hnext
  unfold Format.shortest
  rw [if_neg (by simpa using hm.ne')]
  dsimp only
  generalize leadingPower (f.interval m e).value (f.interval m e).den = L at *
  -- the step of the grid is less than half that of the numbers
  have hstep : (10 : ℚ) ^ (L - k) < 1 / 2 * 2 ^ e := by
    have hbound : (m : ℚ) < 2 ^ f.precision := by exact_mod_cast hc.bounded
    have hwide' : (2 : ℚ) ^ (f.precision + 1) ≤ 10 ^ k := by exact_mod_cast hwide
    rw [zpow_sub₀ (by norm_num), div_lt_iff₀ (by positivity)]
    refine lt_of_le_of_lt hfirst ?_
    rw [zpow_natCast, mul_right_comm]
    gcongr
    rw [pow_succ] at hwide'
    linarith
  have hgrid : ((f.interval m e).onGrid? (L - k)).isSome := by
    generalize L - (k : Int) = p at hstep ⊢
    have hten : (0 : ℚ) < 10 ^ p := by positivity
    -- the decimal of that grid just above the number
    have habove : (m : ℚ) * 2 ^ e < (⌊(m : ℚ) * 2 ^ e / 10 ^ p⌋₊ + 1) * 10 ^ p :=
      (div_lt_iff₀ hten).1 (Nat.lt_floor_add_one _)
    have hbelow : (⌊(m : ℚ) * 2 ^ e / 10 ^ p⌋₊ : ℚ) * 10 ^ p ≤ m * 2 ^ e :=
      (le_div_iff₀ hten).1 (Nat.floor_le (by positivity))
    refine f.onGrid?_of_roundsTo hm (Nat.succ_pos ⌊(m : ℚ) * 2 ^ e / 10 ^ p⌋₊) ?_
    rw [Nat.cast_succ]
    refine .of_lt (lt_trans ?_ habove) (by linarith)
    have := f.lowEnd_lt m e
    gcongr
  obtain ⟨hpos, hholds, hexponent⟩ := Rounded.search_spec hk hgrid
  have hrounds := (f.interval_holds_iff hm e _).1 hholds
  refine ⟨_, rfl, hpos, ?_, hrounds⟩
  generalize (f.interval m e).search 19 L = d at *
  -- the decimal is at most twice the number, and its last place is one of those that were looked at
  have hm' : (1 : ℚ) ≤ m := by exact_mod_cast hm
  have htwice : (d.digits : ℚ) * 10 ^ (L - k) < 10 ^ (L - k) * 10 ^ (k + 2) := by
    calc (d.digits : ℚ) * 10 ^ (L - k) ≤ d.digits * 10 ^ d.exponent := by gcongr; norm_num
      _ ≤ (m + 1 / 2) * 2 ^ e := hrounds.le_high
      _ ≤ 2 * (m * 2 ^ e) := by
          have htwo : (0 : ℚ) < 2 ^ e := by positivity
          nlinarith
      _ < 10 * 10 ^ (L + 1) := by linarith [show (0 : ℚ) < 10 ^ (L + 1) by positivity]
      _ = 10 ^ (L - k) * 10 ^ (k + 2) := by
          rw [← zpow_natCast, ← zpow_add₀ (by norm_num), ← zpow_one_add₀ (by norm_num)]
          congr 1
          push_cast
          ring
  rw [mul_comm, mul_lt_mul_iff_right₀ (by positivity)] at htwice
  exact_mod_cast htwice

theorem Format.Modest.wide {f : Format} (hf : f.Modest) : 2 ^ (f.precision + 1) ≤ 10 ^ 17 :=
  calc 2 ^ (f.precision + 1) ≤ 2 ^ 56 := Nat.pow_le_pow_right (by decide) (by have := hf.precision_le; omega)
    _ ≤ 10 ^ 17 := by norm_num

/-- **The shortest decimal is a decimal of the number.** -/
theorem Format.shortest_roundsTo {f : Format} (hf : f.Modest) {m : Nat} {e : Int}
    (hc : f.Canonical m e) (hm : 0 < m) :
    0 < (f.shortest m e).digits ∧ f.RoundsTo m e (f.shortest m e).value := by
  obtain ⟨d, hd, hpos, -, hrounds⟩ := f.search_found hf hc hm (by decide : 17 < 19) hf.wide
  obtain ⟨htrim, hpos'⟩ := Decimal.trimmed_spec d 400 hpos
  rw [hd, htrim]
  exact ⟨hpos', hrounds⟩

/-- The shortest decimal has no zero at its end. -/
theorem Format.shortest_trimmed {f : Format} (hf : f.Modest) {m : Nat} {e : Int} (hc : f.Canonical m e)
    (hm : 0 < m) : (f.shortest m e).digits % 10 ≠ 0 := by
  obtain ⟨d, hd, hpos, hlt, -⟩ := f.search_found hf hc hm (by decide : 17 < 19) hf.wide
  rw [hd]
  exact (d.trimmed_last (by decide) hpos hlt).1

/-- **The shortest decimal on a grid that tells the interval apart.** A decimal of fifteen or sixteen digits
in the interval of a number is its shortest one, if its grid has no other decimal in the interval. -/
theorem Format.shortest_value_eq {f : Format} (hf : f.Modest) {m n : Nat} {e p : Int}
    (hc : f.Canonical m e) (hm : 0 < m) (hlow : 10 ^ 14 ≤ n) (hhigh : n < 10 ^ 16)
    (hq : f.RoundsTo m e (n * 10 ^ p))
    (hnarrow : ∀ x, f.RoundsTo m e x → |x - n * 10 ^ p| < 10 ^ p) :
    (f.shortest m e).value = n * 10 ^ p := by
  obtain ⟨hd, hvalue, -⟩ := f.interval_spec hm e
  have hreach := f.interval_reach hf hc hm
  have hfirst := ten_zpow_leadingPower_le hd hreach
  have hnext := lt_ten_zpow_leadingPower hd hreach
  rw [hvalue] at hfirst hnext
  generalize hL : leadingPower (f.interval m e).value (f.interval m e).den = L at *
  have hten : (0 : ℚ) < 10 ^ p := by positivity
  have hlow' : (10 : ℚ) ^ 14 ≤ n := by exact_mod_cast hlow
  have hhigh' : (n : ℚ) + 1 ≤ 10 ^ 16 := by exact_mod_cast hhigh
  obtain ⟨hbelow, habove⟩ := abs_lt.1 (hnarrow _ .self)
  -- the grid is one of those that are searched
  have hp : p ≤ L := by
    have hlt : (10 : ℚ) ^ p < 10 ^ (L + 1) := by
      refine lt_of_le_of_lt ?_ hnext
      nlinarith
    have := (zpow_lt_zpow_iff_right₀ (by norm_num)).1 hlt
    omega
  have hL16 : L < p + 16 := by
    refine (zpow_lt_zpow_iff_right₀ (by norm_num : (1 : ℚ) < 10)).1 (lt_of_le_of_lt hfirst ?_)
    rw [zpow_add₀ (by norm_num)]
    norm_num at hhigh' ⊢
    nlinarith
  obtain ⟨k, hk⟩ := Int.eq_ofNat_of_zero_le (by omega : 0 ≤ L - p)
  have hgrid : ((f.interval m e).onGrid? (L - k)).isSome := by
    rw [show L - (k : Int) = p by omega]
    exact f.onGrid?_of_roundsTo hm (by omega) hq
  obtain ⟨hpos, hholds, hexponent⟩ := Rounded.search_spec (by omega : k < 19) hgrid
  obtain ⟨htrim, -⟩ := Decimal.trimmed_spec _ 400 hpos
  unfold Format.shortest
  rw [if_neg (by simpa using hm.ne')]
  dsimp only
  rw [hL, htrim]
  have hfound := hnarrow _ ((f.interval_holds_iff hm e _).1 hholds)
  generalize (f.interval m e).search 19 L = d at *
  -- what was found is a multiple of the grid as well
  obtain ⟨j, hj⟩ := Int.eq_ofNat_of_zero_le (by omega : 0 ≤ d.exponent - p)
  have hmultiple : d.value = ((d.digits * 10 ^ j : Nat) : ℚ) * 10 ^ p := by
    rw [Decimal.value, show d.exponent = j + p by omega, zpow_add₀ (by norm_num), zpow_natCast]
    push_cast
    ring
  rw [hmultiple, ← sub_mul, abs_mul, abs_of_pos hten, mul_lt_iff_lt_one_left hten] at hfound
  have hsame : ((d.digits * 10 ^ j : Nat) : Int) - n = 0 := by
    rw [← Int.abs_lt_one_iff]
    exact_mod_cast hfound
  rw [hmultiple]
  congr 2
  omega

/-- The size of a decimal of a number is that of the number, so none of the cuts applies to it. -/
theorem Format.RoundsTo.size_bounds {f : Format} (hf : f.Modest) {m : Nat} {e : Int}
    (hc : f.Canonical m e) (hm : 0 < m) {d : Decimal} (hd : f.RoundsTo m e d.value) :
    0 < d.digits ∧ -400 < (d.chars.length : Int) + d.exponent ∧
      (d.chars.length : Int) + d.exponent ≤ 400 := by
  have hpos := hd.pos hm
  have hdigits : 0 < d.digits := by
    refine Nat.pos_of_ne_zero fun h0 => ?_
    rw [Decimal.value, h0, Nat.cast_zero, zero_mul] at hpos
    exact hpos.false
  have hlen : 0 < d.chars.length := Nat.length_toDigits_pos
  have hten : (0 : ℚ) < 10 ^ d.exponent := by positivity
  have hm' : (1 : ℚ) ≤ m := by exact_mod_cast hm
  refine ⟨hdigits, ?_, ?_⟩
  · -- the decimal is at least a quarter of the unit of the number
    have hval : d.value < 10 ^ ((d.chars.length : Int) + d.exponent) := by
      rw [zpow_add₀ (by norm_num), zpow_natCast, Decimal.value]
      have : (d.digits : ℚ) < 10 ^ d.chars.length := by
        exact_mod_cast lt_pow_length_toDigits d.digits
      gcongr
    have hlow : (2 : ℚ) ^ (e - 2) ≤ f.lowEnd m e * 2 ^ e := by
      rw [zpow_sub₀ (by norm_num), div_eq_inv_mul]
      have := f.lowEnd_ge m e
      gcongr
      norm_num
      linarith
    have hchain := ((hf.ten_zpow_lt hc.least_le).trans_le (hlow.trans hd.low_le)).trans hval
    exact (zpow_lt_zpow_iff_right₀ (by norm_num)).1 hchain
  · -- and below the power of two after the largest number
    have hval : (10 : ℚ) ^ ((d.chars.length : Int) - 1 + d.exponent) ≤ d.value := by
      rw [zpow_add₀ (by norm_num), Decimal.value]
      have : (10 : ℚ) ^ ((d.chars.length : Int) - 1) ≤ d.digits := by
        rw [show (d.chars.length : Int) - 1 = ((d.chars.length - 1 : Nat) : Int) by omega,
          zpow_natCast]
        exact_mod_cast pow_length_toDigits_le hdigits
      gcongr
    have hhigh : d.value < 10 ^ (400 : Int) := by
      have hbits : (f.precision : Int) + e ≤ 1302 := by
        have := hf.greatest_le
        have := hc.le_greatest
        omega
      calc d.value < 2 ^ ((f.precision : Int) + e) := hd.lt_next hc
        _ ≤ 2 ^ (1302 : Int) := zpow_le_zpow_right₀ (by norm_num) hbits
        _ < 10 ^ (400 : Int) := two_zpow_lt_ten_zpow
    have := (zpow_lt_zpow_iff_right₀ (by norm_num)).1 (hval.trans_lt hhigh)
    omega

/-- **A decimal in the interval of a number is read as the number.** It is neither so large nor so small
that the reader would not round it, and rounding takes the interval to the number. -/
theorem Format.ofDecimal_eq {f : Format} (hf : f.Modest) {m : Nat} {e : Int} (hc : f.Canonical m e)
    (hm : 0 < m) (s : Bool) {d : Decimal} (hd : f.RoundsTo m e d.value) :
    f.ofDecimal s d.digits d.exponent = .finite s m e := by
  obtain ⟨hdigits, hlow, hhigh⟩ := hd.size_bounds hf hc hm
  unfold Decimal.chars at hlow hhigh
  unfold Format.ofDecimal
  dsimp only
  rw [if_neg (by simp only [Bool.or_eq_true, beq_iff_eq, decide_eq_true_eq]; omega),
    if_neg (by omega)]
  have hvalue := timesTen_eq d.digits d.exponent
  rw [← Decimal.value] at hvalue
  rw [← hvalue] at hd
  cases hexp : d.exponent with
  | ofNat k => exact f.round_eq hf.one_le hc hm s Nat.one_pos (by rw [hexp] at hd; exact hd)
  | negSucc k =>
    exact f.round_eq hf.one_le hc hm s (Nat.pow_pos (by decide)) (by rw [hexp] at hd; exact hd)

/-- A decimal that is zero is read as zero, with its sign. -/
theorem Format.ofDecimal_zero (f : Format) (s : Bool) {d : Decimal} (hd : d.value = 0) :
    f.ofDecimal s d.digits d.exponent = .finite s 0 f.minExponent := by
  have hzero : d.digits = 0 := by
    rcases mul_eq_zero.1 hd with h | h
    · exact_mod_cast h
    · exact absurd h (by positivity)
  rw [hzero]
  rfl

/-- Decimals below the last power of two do not leave the format. -/
theorem Format.ofDecimal_finite {f : Format} (hf : f.Modest) (hrange : f.minExponent < f.maxExponent)
    (s : Bool) {d : Decimal} (hd : d.value < 2 ^ ((f.precision : Int) - 1 + f.maxExponent)) :
    ∃ m e, f.ofDecimal s d.digits d.exponent = .finite s m e := by
  unfold Format.ofDecimal
  dsimp only
  split_ifs with hzero hbig
  · exact ⟨_, _, rfl⟩
  · -- a decimal with so many digits before the point is too large
    exfalso
    have hdigits : 0 < d.digits := by
      simp only [Bool.or_eq_true, beq_iff_eq, not_or] at hzero
      exact Nat.pos_of_ne_zero hzero.1
    have hlead : (10 : ℚ) ^ (400 : Int) ≤ d.value := by
      have hlen : 0 < (Nat.toDigits 10 d.digits).length := Nat.length_toDigits_pos
      have hpow : (10 : ℚ) ^ ((Nat.toDigits 10 d.digits).length - 1 : Nat) ≤ d.digits := by
        exact_mod_cast pow_length_toDigits_le hdigits
      calc (10 : ℚ) ^ (400 : Int)
          ≤ 10 ^ ((((Nat.toDigits 10 d.digits).length - 1 : Nat) : Int) + d.exponent) :=
            zpow_le_zpow_right₀ (by norm_num) (by omega)
        _ = 10 ^ ((Nat.toDigits 10 d.digits).length - 1 : Nat) * 10 ^ d.exponent := by
            rw [zpow_add₀ (by norm_num), zpow_natCast]
        _ ≤ d.digits * 10 ^ d.exponent := by gcongr
    have hbits : (f.precision : Int) - 1 + f.maxExponent ≤ 1302 := by
      have := hf.greatest_le
      omega
    have hlt : d.value < 10 ^ (400 : Int) :=
      (hd.trans_le (zpow_le_zpow_right₀ (by norm_num) hbits)).trans two_zpow_lt_ten_zpow
    exact hlead.not_gt hlt
  · have hvalue := timesTen_eq d.digits d.exponent
    rw [← Decimal.value] at hvalue
    rw [← hvalue] at hd
    cases hexp : d.exponent with
    | ofNat k => exact f.round_finite hrange s Nat.one_pos (by rw [hexp] at hd; exact hd)
    | negSucc k =>
      exact f.round_finite hrange s (Nat.pow_pos (by decide)) (by rw [hexp] at hd; exact hd)

/-- Reading a decimal leaves the format on the far side, or it gives a canonical number. -/
theorem Format.ofDecimal_canonical {f : Format} (hf : f.Modest) (s : Bool) (digits : Nat)
    (exponent : Int) :
    f.ofDecimal s digits exponent = .infinite s ∨
      ∃ m e, f.ofDecimal s digits exponent = .finite s m e ∧ f.Canonical m e := by
  unfold Format.ofDecimal
  dsimp only
  split_ifs
  · exact .inr ⟨0, f.minExponent, rfl, Nat.pow_pos (by decide), le_refl _, hf.least_le, .inr rfl⟩
  · exact .inl rfl
  · cases exponent with
    | ofNat e => exact f.round_canonical hf.one_le hf.least_le s _ Nat.one_pos
    | negSucc e => exact f.round_canonical hf.one_le hf.least_le s _ (Nat.pow_pos (by decide))

end DocFilter.Number
