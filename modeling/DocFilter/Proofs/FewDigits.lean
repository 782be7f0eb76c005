import DocFilter.Proofs.ExactNumbers
import DocFilter.Proofs.ProperText
import DocFilter.Proofs.Storage

/-!
Numbers of few digits are exact. Between numbers of 64 bits there is room for at most one decimal of
fifteen digits, so a decimal of that length is the shortest one of the number that it is read as
(`shortest_of_digits`); the same is true of integers below `2 ^ 53`, which have up to sixteen
(`shortest_of_integer`). Main result (`Short.exact`): a number of the grammar with so few digits keeps its
value when it is read and written again, whatever its layout.
-/

set_option autoImplicit false

namespace DocFilter.Number

open Text (byte isDigit)

/-! ## Few digits -/

/-- The interval of a number is no wider than the step to the next one. -/
theorem Format.RoundsTo.abs_sub_le {f : Format} {m : Nat} {e : Int} {x y : ℚ} (hx : f.RoundsTo m e x)
    (hy : f.RoundsTo m e y) : |x - y| ≤ 2 ^ e := by
  have hend := f.lowEnd_ge m e
  have h2 : (0 : ℚ) < 2 ^ e := by positivity
  have hlow : (m : ℚ) * 2 ^ e - 1 / 2 * 2 ^ e ≤ f.lowEnd m e * 2 ^ e := by
    rw [← sub_mul]
    gcongr
  have hxlow := hx.low_le
  have hxhigh := hx.le_high
  have hylow := hy.low_le
  have hyhigh := hy.le_high
  rw [abs_le]
  constructor <;> linarith

/-- A number that is not too close to zero has a full mantissa: with the least exponent and fewer bits it
would lie below the least normal number by more than its interval reaches. -/
theorem full_of_normal {m : Nat} {e : Int} {q : ℚ} (hc : double.Canonical m e) (hq : double.RoundsTo m e q)
    (hnormal : 2 ^ (-1022 : Int) ≤ q) : 2 ^ 52 ≤ m := by
  rcases hc.normal with hfull | he
  · exact hfull
  · by_contra hlt
    have hm : (m : ℚ) + 1 ≤ 2 ^ 52 := by exact_mod_cast not_le.1 hlt
    have hhigh := hq.le_high
    have hsplit : (2 : ℚ) ^ (-1022 : Int) = 2 ^ 52 * 2 ^ e := by
      rw [he]
      show (2 : ℚ) ^ (-1022 : Int) = 2 ^ 52 * 2 ^ (-1074 : Int)
      rw [← zpow_natCast, ← zpow_add₀ (by norm_num)]
      norm_num
    have hpos : (0 : ℚ) < 2 ^ e := by positivity
    rw [hsplit] at hnormal
    nlinarith

/-- Fifteen digits are always enough to tell a number apart: a decimal with no more digits than that is the
shortest one of the number it is read as. It must not be so small that digits are lost. -/
theorem shortest_of_digits {m n : Nat} {e p : Int} (hc : double.Canonical m e)
    (hq : double.RoundsTo m e (n * 10 ^ p)) (hn : 0 < n) (hfew : n < 10 ^ 15)
    (hnormal : (2 : ℚ) ^ (-1022 : Int) ≤ n * 10 ^ p) : (double.shortest m e).value = n * 10 ^ p := by
  have hfull := full_of_normal hc hq hnormal
  -- with zeros behind them there are exactly fifteen digits
  obtain ⟨k, hlow, hhigh⟩ : ∃ k, 10 ^ 14 ≤ n * 10 ^ k ∧ n * 10 ^ k < 10 ^ 15 := by
    have hlen := (Nat.length_toDigits_le_iff (b := 10) (by decide) (by decide : 0 < 15)).2 hfew
    have hpos : 0 < (Nat.toDigits 10 n).length := Nat.length_toDigits_pos
    refine ⟨15 - (Nat.toDigits 10 n).length, ?_, ?_⟩
    · calc 10 ^ 14 = 10 ^ ((Nat.toDigits 10 n).length - 1) * 10 ^ (15 - (Nat.toDigits 10 n).length) := by
            rw [← Nat.pow_add]
            congr 1
            omega
        _ ≤ n * 10 ^ (15 - (Nat.toDigits 10 n).length) :=
            Nat.mul_le_mul_right _ (pow_length_toDigits_le hn)
    · calc n * 10 ^ (15 - (Nat.toDigits 10 n).length)
          < 10 ^ (Nat.toDigits 10 n).length * 10 ^ (15 - (Nat.toDigits 10 n).length) :=
            Nat.mul_lt_mul_of_pos_right (lt_pow_length_toDigits n) (Nat.pow_pos (by decide))
        _ = 10 ^ 15 := by
            rw [← Nat.pow_add]
            congr 1
            omega
  have hshift : (n : ℚ) * 10 ^ p = ((n * 10 ^ k : Nat) : ℚ) * 10 ^ (p - k) := by
    rw [zpow_sub₀ (by norm_num), zpow_natCast]
    push_cast
    field_simp
  rw [hshift] at hq ⊢
  refine double.shortest_value_eq double_modest hc (by omega) hlow (by omega) hq fun x hx => ?_
  refine lt_of_le_of_lt (hx.abs_sub_le hq) ?_
  -- the step is less than a quarter of the grid
  have hm : (2 : ℚ) ^ 52 ≤ m := by exact_mod_cast hfull
  have hdigits : ((n * 10 ^ k : Nat) : ℚ) < 10 ^ 15 := by exact_mod_cast hhigh
  have hend := double.lowEnd_ge m e
  have hten : (0 : ℚ) < 10 ^ (p - k) := by positivity
  have htwo : (0 : ℚ) < 2 ^ e := by positivity
  have hstep : ((2 : ℚ) ^ 52 - 1 / 2) * 2 ^ e < 10 ^ 15 * 10 ^ (p - k) :=
    calc ((2 : ℚ) ^ 52 - 1 / 2) * 2 ^ e ≤ double.lowEnd m e * 2 ^ e := by
          gcongr
          linarith
      _ ≤ ((n * 10 ^ k : Nat) : ℚ) * 10 ^ (p - k) := hq.low_le
      _ < 10 ^ 15 * 10 ^ (p - k) := by gcongr
  norm_num at hstep
  linarith

/-- Integers below `2 ^ 53` are told apart by their digits, even if there are sixteen. -/
theorem shortest_of_integer {m n : Nat} {e : Int} (hc : double.Canonical m e) (hm : 0 < m)
    (hq : double.RoundsTo m e n) (hlow : 10 ^ 14 ≤ n) (hhigh : n < 2 ^ 53) :
    (double.shortest m e).value = n := by
  have hn : (n : ℚ) + 1 ≤ 2 ^ 53 := by exact_mod_cast hhigh
  -- above the exponent zero the numbers are too large
  have he : e ≤ 0 := by
    by_contra hpos
    have hone : (1 : ℚ) ≤ 2 ^ (e - 1) := one_le_zpow₀ (by norm_num) (by omega)
    have hpower : (n : ℚ) < 2 ^ ((double.precision : Int) - 1 + e) := by
      show (n : ℚ) < 2 ^ ((53 : Int) - 1 + e)
      rw [show (53 : Int) - 1 + e = 53 + (e - 1) by omega, zpow_add₀ (by norm_num)]
      norm_num at hn ⊢
      nlinarith
    have hquarter := (hq.below_power (by decide) hc (show (-1074 : Int) < e by omega) hpower).2
    change ((2 : ℚ) ^ (53 : Int) - 1 / 2) * 2 ^ (e - 1) ≤ n at hquarter
    norm_num at hn hquarter
    nlinarith
  have hgrid : (n : ℚ) = n * 10 ^ (0 : Int) := by rw [zpow_zero, mul_one]
  rw [hgrid] at hq ⊢
  refine double.shortest_value_eq double_modest hc hm hlow (by omega) hq fun x hx => ?_
  rw [zpow_zero, mul_one] at hq ⊢
  rcases Int.lt_or_eq_of_le he with hneg | rfl
  · refine lt_of_le_of_lt (hx.abs_sub_le hq) ?_
    exact zpow_lt_one_of_neg₀ (by norm_num) hneg
  · -- at the exponent zero the number is the integer itself
    have hend := double.lowEnd_ge m 0
    have hqlow := hq.low_le
    have hqhigh := hq.le_high
    have hxlow := hx.low_le
    have hxhigh := hx.le_high
    rw [zpow_zero, mul_one] at hqlow hqhigh hxlow hxhigh
    have hmn : (m : ℚ) = n := by
      have h1 : (m : ℚ) < n + 1 := by linarith
      have h2 : (n : ℚ) < m + 1 := by linarith
      have h1' : m < n + 1 := by exact_mod_cast h1
      have h2' : n < m + 1 := by exact_mod_cast h2
      exact_mod_cast (by omega : m = n)
    rw [abs_lt]
    constructor <;> linarith

/-! ## Reading few digits -/

theorem exists_chars {t : Text} (h : ∀ b ∈ t, isDigit b = true) :
    ∃ cs : List Char, (∀ c ∈ cs, c.isDigit = true) ∧ t = cs.map byte := by
  have hchar : ∀ b : UInt8, isDigit b = true →
      (Char.ofNat b.toNat).isDigit = true ∧ byte (Char.ofNat b.toNat) = b :=
    Text.forall_byte (by decide +kernel)
  refine ⟨t.map fun b => Char.ofNat b.toNat, fun c hc => ?_, ?_⟩
  · obtain ⟨b, hb, rfl⟩ := List.mem_map.1 hc
    exact (hchar b (h b hb)).1
  · rw [List.map_map]
    exact ((List.map_congr_left fun b hb => (hchar b (h b hb)).2).trans (List.map_id t)).symm

/-- The exponent of the grammar, with the mark in front of it. -/
theorem exists_marked {tail : Text} (h : Grammar.IsExponent tail) :
    ∃ exponent, IsMarked tail exponent ∧
      ((integerValue exponent).natAbs < 10000 → decimalExponent? tail = some (integerValue exponent, [])) := by
  rcases h with rfl | ⟨mark, sign, ds, hmark, hsign, ⟨hne, hds⟩, rfl⟩
  · exact ⟨[], .inl ⟨rfl, rfl⟩, fun _ => rfl⟩
  · have hmark' : isMark mark = true := by rcases hmark with rfl | rfl <;> decide
    refine ⟨sign ++ ds, .inr ⟨mark, hmark', rfl⟩, fun hsmall => ?_⟩
    obtain ⟨cs, hcs, rfl⟩ := exists_chars hds
    obtain ⟨c, cs', hcons⟩ := List.exists_cons_of_ne_nil (show cs ≠ [] by simpa using hne)
    obtain ⟨hfirst, -, -, -, -, -, -, hplus, hminus⟩ := byte_of_digit (hcs c (by rw [hcons]; simp))
    have hunsigned : unsigned (sign ++ cs.map byte) = cs.map byte := by
      rcases hsign with rfl | rfl | rfl
      · rw [hcons, List.nil_append, List.map_cons]
        exact if_neg (by simp [hplus, hminus])
      · rfl
      · rfl
    have hnumber : digitsValue (cs.map byte) = Nat.ofDigitChars 10 cs 0 := digitsValue_chars hcs
    -- larger exponents are cut off by the reader, and the bound rules them out
    have hread := readExponentDigits_digits hcs (n := 0) (by
      unfold integerValue at hsmall
      rw [hunsigned, hnumber] at hsmall
      split_ifs at hsmall <;> omega)
    have hexponent : readExponent? (sign ++ cs.map byte)
        = some (integerValue (sign ++ cs.map byte), []) := by
      unfold readExponent? integerValue isNegative
      dsimp only
      rw [hunsigned, hread, hnumber, hcons, List.map_cons]
      dsimp only
      rw [if_pos hfirst]
    exact (if_pos hmark').trans hexponent

/-- A number of the grammar is a numeral with or without a sign, and it is read as its value. -/
theorem exists_reads {t : Text} (h : Grammar.IsNumber t) (hsmall : (exponentOf t).natAbs < 10000) :
    ∃ (s : Bool) (body : Text) (d : Decimal), t = (if s then byte '-' :: body else body) ∧ Reads body d ∧
      decimalValue t = signed s d.value := by
  obtain ⟨sign, whole, point, tail, rfl, hsign, ⟨⟨hne, hwhole⟩, -⟩, hfraction, htail⟩ := h
  obtain ⟨fraction, hdigits, hpoint⟩ : ∃ fraction, (∀ b ∈ fraction, isDigit b = true) ∧ IsPoint point fraction := by
    rcases hfraction with rfl | ⟨ds, hds, rfl⟩
    · exact ⟨[], fun b hb => absurd hb List.not_mem_nil, .inl ⟨rfl, rfl⟩⟩
    · exact ⟨ds, hds.2, .inr rfl⟩
  obtain ⟨exponent, hmarked, hexponent⟩ := exists_marked htail
  -- the sign in front of the numeral
  obtain ⟨s, htext⟩ : ∃ s : Bool, sign ++ whole ++ point ++ tail
      = if s then byte '-' :: (whole ++ point ++ tail) else whole ++ point ++ tail := by
    rcases hsign with rfl | rfl
    · exact ⟨false, rfl⟩
    · exact ⟨true, by simp⟩
  have hvalue := decimalValue_parts hwhole hdigits hpoint hmarked hne s
  rw [htext, exponentOf_parts hwhole hdigits hpoint hmarked hne s] at hsmall
  refine ⟨s, whole ++ point ++ tail,
    ⟨digitsValue (whole ++ fraction), integerValue exponent - fraction.length⟩, htext, ?_, ?_⟩
  · have hbytes : ∀ b ∈ tail, isNumberByte b = true := by
      intro b hb
      rw [← continuesNumber_eq]
      exact Grammar.continuesNumber_of_tail hfraction htail b (List.mem_append_right _ hb)
    obtain ⟨cs, hcs, rfl⟩ := exists_chars hwhole
    obtain ⟨ds, hds, rfl⟩ := exists_chars hdigits
    have hall : ∀ x ∈ cs ++ ds, x.isDigit = true := List.forall_mem_append.2 ⟨hcs, hds⟩
    rw [List.append_assoc, ← List.map_append, digitsValue_chars hall, List.length_map]
    exact reads_parts hcs hds (by simpa using hne) hpoint hmarked hbytes (hexponent hsmall) rfl
  · rw [htext, hvalue]
    rfl

/-- What a decimal is read as has the decimal in its interval. The decimal must not be so small that it is
read as zero without being rounded. -/
theorem Format.roundsTo_of_ofDecimal {f : Format} (hp : 2 ≤ f.precision) {d : Decimal} {s s' : Bool}
    {m : Nat} {e : Int} (hd : (10 : ℚ) ^ (-400 : Int) ≤ d.value)
    (h : f.ofDecimal s d.digits d.exponent = .finite s' m e) : s' = s ∧ f.RoundsTo m e d.value := by
  have hpos : 0 < d.value := lt_of_lt_of_le (by positivity) hd
  have hdigits : d.digits ≠ 0 := by
    intro hzero
    rw [Decimal.value, hzero, Nat.cast_zero, zero_mul] at hpos
    exact lt_irrefl _ hpos
  -- the number of digits and the exponent show that it is not that small
  have hsize : -400 < ((Nat.toDigits 10 d.digits).length : Int) + d.exponent := by
    refine (zpow_lt_zpow_iff_right₀ (by norm_num : (1 : ℚ) < 10)).1 (lt_of_le_of_lt hd ?_)
    rw [zpow_add₀ (by norm_num), zpow_natCast, Decimal.value]
    have hlt : (d.digits : ℚ) < 10 ^ (Nat.toDigits 10 d.digits).length := by
      exact_mod_cast lt_pow_length_toDigits d.digits
    gcongr
  unfold Format.ofDecimal at h
  dsimp only at h
  rw [if_neg (by simp only [Bool.or_eq_true, beq_iff_eq, decide_eq_true_eq]; omega)] at h
  split_ifs at h
  have hvalue := timesTen_eq d.digits d.exponent
  rw [← Decimal.value] at hvalue
  rw [← hvalue]
  cases hexp : d.exponent with
  | ofNat k =>
    rw [hexp] at h
    exact f.roundsTo_of_round hp (Nat.mul_ne_zero hdigits (Nat.pow_pos (by decide)).ne') Nat.one_pos h
  | negSucc k =>
    rw [hexp] at h
    exact f.roundsTo_of_round hp hdigits (Nat.pow_pos (by decide)) h

/-- A number of few digits: at most fifteen, or those of an integer below `2 ^ 53`. It is zero or not too
close to zero, and no exponent of five digits is written with it. -/
structure Short (t : Text) : Prop where
  number : Grammar.IsNumber t
  exponent : (exponentOf t).natAbs < 10000
  digits : ∃ (n : Nat) (p : Int), |decimalValue t| = n * 10 ^ p ∧ (n < 10 ^ 15 ∨ n < 2 ^ 53 ∧ p = 0)
  normal : decimalValue t = 0 ∨ 2 ^ (-1022 : Int) ≤ |decimalValue t|

theorem signed_eq_zero {s : Bool} {q : ℚ} : signed s q = 0 ↔ q = 0 := by
  cases s <;> simp [signed]

theorem abs_signed (s : Bool) (q : ℚ) : |signed s q| = |q| := by
  cases s <;> simp [signed]

/-- **Numbers of few digits are exact**: with at most fifteen digits, or as integers below `2 ^ 53`, they
come back with the same value, unless they are too close to zero. -/
theorem Short.exact {t : Text} (h : Short t) {s : Bool} {m : Nat} {e : Int} (hc : double.Canonical m e)
    (hread : readBinary double t = .ok (.finite s m e)) : Exact t := by
  obtain ⟨s₁, body, d, htext, hreads, hvalue⟩ := exists_reads h.number h.exponent
  obtain ⟨d', hd', hbinary⟩ := hreads.readBinary double s₁
  rw [← htext, hread] at hbinary
  have hdecimal : double.ofDecimal s₁ d'.digits d'.exponent = .finite s m e := by
    cases hx : double.ofDecimal s₁ d'.digits d'.exponent with
    | infinite s => rw [hx] at hbinary; cases hbinary
    | nan => rw [hx] at hbinary; cases hbinary
    | finite s m e => rw [hx] at hbinary; exact (Except.ok.inj hbinary).symm
  refine ⟨s, m, e, hread, ?_⟩
  rw [hvalue, ← hd']
  have hnonneg : 0 ≤ d'.value := by
    unfold Decimal.value
    positivity
  rcases h.normal with hzero | hnormal
  · -- zero is read as zero
    rw [hvalue, signed_eq_zero, ← hd'] at hzero
    rw [double.ofDecimal_zero s₁ hzero] at hdecimal
    cases hdecimal
    have hshortest : (double.shortest 0 double.minExponent).value = 0 := by simp [Format.shortest, Decimal.value]
    rw [hzero, hshortest]
  · rw [hvalue, abs_signed, ← hd', abs_of_nonneg hnonneg] at hnormal
    have htiny : (10 : ℚ) ^ (-400 : Int) ≤ d'.value :=
      (double_modest.ten_zpow_lt (show (-1074 : Int) ≤ -1020 by decide)).le.trans hnormal
    obtain ⟨rfl, hrounds⟩ := double.roundsTo_of_ofDecimal (by decide) htiny hdecimal
    have hfull := full_of_normal hc hrounds hnormal
    obtain ⟨n, p, hn, hfew⟩ := h.digits
    rw [hvalue, abs_signed, ← hd', abs_of_nonneg hnonneg] at hn
    rw [hn] at hrounds hnormal ⊢
    have hpos : 0 < n := by
      refine Nat.pos_of_ne_zero fun hzero => ?_
      rw [hzero, Nat.cast_zero, zero_mul] at hnormal
      exact absurd hnormal (not_le.2 (by positivity))
    -- sixteen digits are few enough only for an integer
    rcases Nat.lt_or_ge n (10 ^ 15) with hlt | hge
    · rw [shortest_of_digits hc hrounds hpos hlt hnormal]
    · obtain ⟨hlt, rfl⟩ := hfew.resolve_left (not_lt.2 hge)
      rw [zpow_zero, mul_one] at hrounds ⊢
      rw [shortest_of_integer hc (by omega) hrounds (by omega) hlt]

end DocFilter.Number
