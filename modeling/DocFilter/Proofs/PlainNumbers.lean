import DocFilter.Proofs.FewDigits

/-!
Numbers in plain digits. Without exponents the text of a number is that of its shortest decimal, and as
this one has no zeros at its end, its value alone decides the text. Two things follow. A number of 32 bits
that is written and read as one of 64 bits has the same plain text as before (`plain_of_single`). An integer
that is read as a number of 64 bits has its own digits as plain text just if it is exact
(`plain_of_integer_iff`), and integers below `2 ^ 53` are (`exact_ofInt`).
-/

set_option autoImplicit false

namespace DocFilter.Number

open Text (byte)

/-! ## Decimals without zeros at their end -/

namespace Decimal

variable {d d' : Decimal}

/-- Of all decimals of a value, the one without zeros at its end has the largest exponent. -/
theorem exponent_le_of_value (hd : d.digits % 10 ≠ 0) (h : d.value = d'.value) :
    d'.exponent ≤ d.exponent := by
  by_contra hlt
  obtain ⟨k, hk⟩ : ∃ k : Nat, d'.exponent = d.exponent + (k + 1) :=
    ⟨(d'.exponent - d.exponent - 1).toNat, by omega⟩
  have hvalue : (d.digits : ℚ) = ((d'.digits * 10 ^ k * 10 : Nat) : ℚ) := by
    have hten : (10 : ℚ) ^ d.exponent ≠ 0 := by positivity
    refine mul_right_cancel₀ hten ?_
    rw [Decimal.value, Decimal.value, hk, zpow_add₀ (by norm_num), zpow_add_one₀ (by norm_num),
      zpow_natCast] at h
    rw [h]
    push_cast
    ring
  have hdigits : d.digits = d'.digits * 10 ^ k * 10 := by exact_mod_cast hvalue
  exact hd (by rw [hdigits, Nat.mul_mod_left])

/-- Decimals without zeros at their end are told apart by their values. -/
theorem eq_of_value (hd : d.digits % 10 ≠ 0) (hd' : d'.digits % 10 ≠ 0) (h : d.value = d'.value) :
    d = d' := by
  have hexponent : d.exponent = d'.exponent :=
    le_antisymm (exponent_le_of_value hd' h.symm) (exponent_le_of_value hd h)
  have hdigits : (d.digits : ℚ) = d'.digits := by
    refine mul_right_cancel₀ (show (10 : ℚ) ^ d.exponent ≠ 0 by positivity) ?_
    rw [Decimal.value, Decimal.value, ← hexponent] at h
    exact h
  obtain ⟨digits, exponent⟩ := d
  obtain ⟨digits', exponent'⟩ := d'
  exact congrArg₂ Decimal.mk (by exact_mod_cast hdigits) hexponent

end Decimal

theorem toDigits_mul_pow {n : Nat} (hn : 0 < n) (k : Nat) :
    Nat.toDigits 10 (n * 10 ^ k) = Nat.toDigits 10 n ++ List.replicate k '0' := by
  induction k with
  | zero => rw [Nat.pow_zero, Nat.mul_one, List.replicate_zero, List.append_nil]
  | succ k ih =>
    have hpos : 0 < n * 10 ^ k := Nat.mul_pos hn (Nat.pow_pos (by decide))
    have hzero : Nat.toDigits 10 0 = ['0'] := rfl
    rw [show n * 10 ^ (k + 1) = 10 * (n * 10 ^ k) + 0 by ring,
      ← Nat.toDigits_append_toDigits (by decide) hpos (by decide), ih, hzero, List.append_assoc,
      ← List.replicate_succ']

/-- An integer has no point: a decimal without zeros at its end that is an integer is written with the
digits of the integer, and zeros behind them where its exponent asks for them. -/
theorem positionalText_integer {d : Decimal} {n : Nat} (hd : d.digits % 10 ≠ 0) (h : d.value = n) :
    positionalText d = Text.ofNat n := by
  obtain ⟨digits, exponent⟩ := d
  have hwhole : (Decimal.mk digits exponent).value = (Decimal.mk n 0).value :=
    h.trans (by simp [Decimal.value])
  have hnonneg : 0 ≤ exponent := Decimal.exponent_le_of_value hd hwhole
  obtain ⟨k, rfl⟩ := Int.eq_ofNat_of_zero_le hnonneg
  have hn : n = digits * 10 ^ k := by
    rw [Decimal.value, zpow_natCast] at h
    exact_mod_cast h.symm
  have hpos : 0 < digits := Nat.pos_of_ne_zero fun hzero => hd (by simp [hzero])
  show (if digits == 0 then (Nat.toDigits 10 digits).map byte
    else (Nat.toDigits 10 digits).map byte ++ List.replicate k (byte '0')) = _
  rw [if_neg (by simpa using hpos.ne'), hn, Text.ofNat, toDigits_mul_pow hpos, List.map_append,
    List.map_replicate]

/-! ## Plain texts -/

theorem plain_write (f : Format) (s : Bool) (m : Nat) (e : Int) :
    Layout.plain.write f (.finite s m e)
      = if s then byte '-' :: positionalText (f.shortest m e) else positionalText (f.shortest m e) := rfl

theorem shortest_zero (f : Format) (e : Int) : f.shortest 0 e = ⟨0, 0⟩ := rfl

/-- The shortest decimals of numbers of 32 bits have few digits. -/
theorem single_shortest_few {m : Nat} {e : Int} (hc : single.Canonical m e) (hm : 0 < m) :
    (single.shortest m e).digits < 10 ^ 15 := by
  obtain ⟨d, hd, hpos, hlt, -⟩ :=
    single.search_found single_modest hc hm (by decide : 8 < 19) (by decide)
  rw [hd]
  calc (d.trimmed 400).digits ≤ d.digits := (d.trimmed_last (by decide : 8 + 2 ≤ 400) hpos hlt).2
    _ < 10 ^ 15 := hlt.trans (by decide)

/-- **A number of 32 bits keeps its plain text** when it is written and read as a number of 64 bits. -/
theorem plain_of_single (l : Layout) {s : Bool} {m : Nat} {e : Int} (hc : single.Canonical m e) {x : Binary}
    (hread : readBinary double (l.write single (.finite s m e)) = .ok x) :
    Layout.plain.write double x = Layout.plain.write single (.finite s m e) := by
  obtain ⟨d, hd, hbinary⟩ := (l.body_reads single_modest hc).readBinary double s
  rw [← Layout.write_finite, hread] at hbinary
  rcases Nat.eq_zero_or_pos m with rfl | hm
  · rw [double.ofDecimal_zero s (hd.trans (by simp [shortest_zero, Decimal.value]))] at hbinary
    rw [Except.ok.inj hbinary, plain_write, plain_write, shortest_zero, shortest_zero]
  · obtain ⟨hpos, hrounds⟩ := single.shortest_roundsTo single_modest hc hm
    -- the smallest number of 32 bits is far from the end of those of 64 bits
    have hnormal : (2 : ℚ) ^ (-1022 : Int) ≤ (single.shortest m e).value := by
      have hm' : (1 : ℚ) ≤ m := by exact_mod_cast hm
      have hend := single.lowEnd_ge m e
      calc (2 : ℚ) ^ (-1022 : Int) ≤ 1 / 2 * 2 ^ (-149 : Int) := by
            rw [one_div, ← zpow_neg_one, ← zpow_add₀ (by norm_num)]
            exact zpow_le_zpow_right₀ (by norm_num) (by norm_num)
        _ ≤ single.lowEnd m e * 2 ^ e := by
            have hleast : (2 : ℚ) ^ (-149 : Int) ≤ 2 ^ e := zpow_le_zpow_right₀ (by norm_num) hc.least_le
            have hhalf : 1 / 2 ≤ single.lowEnd m e := by linarith
            gcongr
        _ ≤ (single.shortest m e).value := hrounds.low_le
    have htiny : (10 : ℚ) ^ (-400 : Int) ≤ d.value :=
      (double_modest.ten_zpow_lt (show (-1074 : Int) ≤ -1020 by decide)).le.trans (hd ▸ hnormal)
    rcases double.ofDecimal_canonical double_modest s d.digits d.exponent with
      hinfinite | ⟨m', e', hfinite, hc'⟩
    · rw [hinfinite] at hbinary
      cases hbinary
    · rw [hfinite] at hbinary
      obtain rfl := Except.ok.inj hbinary
      obtain ⟨-, hrounds'⟩ := double.roundsTo_of_ofDecimal (by decide) htiny hfinite
      rw [hd] at hrounds'
      have hfull := full_of_normal hc' hrounds' hnormal
      -- the few digits are the shortest ones among the numbers of 64 bits as well
      have hvalue : (double.shortest m' e').value = (single.shortest m e).value :=
        shortest_of_digits hc' hrounds' hpos (single_shortest_few hc hm) hnormal
      have hsame : double.shortest m' e' = single.shortest m e :=
        Decimal.eq_of_value (double.shortest_trimmed double_modest hc' (by omega))
          (single.shortest_trimmed single_modest hc hm) hvalue
      rw [plain_write, plain_write, hsame]

/-! ## Integers -/

theorem ofInt_eq_positional (n : Int) :
    Text.ofInt n
      = if decide (n < 0) then byte '-' :: positionalText ⟨n.natAbs, 0⟩ else positionalText ⟨n.natAbs, 0⟩ := by
  have hdigits : positionalText ⟨n.natAbs, 0⟩ = Text.ofNat n.natAbs := by
    show (if n.natAbs == 0 then Text.ofNat n.natAbs else Text.ofNat n.natAbs ++ []) = _
    rw [List.append_nil, ite_self]
  rw [hdigits]
  simp only [Text.ofInt, decide_eq_true_eq]

/-- The value of the digits of an integer. -/
theorem decimalValue_ofInt (n : Int) : decimalValue (Text.ofInt n) = signed (decide (n < 0)) n.natAbs := by
  rw [ofInt_eq_positional, decimalValue_positional, Decimal.value, zpow_zero, mul_one]

/-- Signs of positive numbers are seen. -/
theorem signed_inj {s s' : Bool} {a b : ℚ} (ha : 0 ≤ a) (hb : 0 < b) (h : signed s a = signed s' b) :
    s = s' ∧ a = b := by
  cases s <;> cases s' <;> simp only [signed, Bool.false_eq_true, if_false, if_true] at h
  · exact ⟨rfl, h⟩
  · linarith
  · linarith
  · exact ⟨rfl, neg_inj.1 h⟩

/-- **An integer that is read as a number of 64 bits keeps its digits just if it is exact.** -/
theorem plain_of_integer_iff {n : Int} {s : Bool} {m : Nat} {e : Int} (hc : double.Canonical m e)
    (hread : readBinary double (Text.ofInt n) = .ok (.finite s m e)) :
    Layout.plain.write double (.finite s m e) = Text.ofInt n ↔ Exact (Text.ofInt n) := by
  constructor
  · intro h
    refine ⟨s, m, e, hread, ?_⟩
    rw [← h, decimalValue_write]
  · rintro ⟨s', m', e', hread', hvalue⟩
    rw [hread] at hread'
    cases hread'
    rw [decimalValue_ofInt] at hvalue
    have hnonneg : 0 ≤ (double.shortest m e).value := by
      unfold Decimal.value
      positivity
    -- zero is apart: its shortest decimal has no last digit, and its sign does not show in the value
    rcases Nat.eq_zero_or_pos n.natAbs with hzero | hpos
    · obtain rfl := Int.natAbs_eq_zero.1 hzero
      rw [readBinary_ofInt (by decide)] at hread
      obtain ⟨rfl, rfl, rfl⟩ := Binary.finite.inj (Except.ok.inj hread)
      decide
    · have hpos' : (0 : ℚ) < n.natAbs := by exact_mod_cast hpos
      obtain ⟨rfl, hdigits⟩ := signed_inj hnonneg hpos' hvalue.symm
      have hm : 0 < m := by
        refine Nat.pos_of_ne_zero fun hzero => ?_
        rw [hzero, shortest_zero, Decimal.value, Nat.cast_zero, zero_mul] at hdigits
        exact hpos'.ne hdigits
      rw [plain_write, positionalText_integer (double.shortest_trimmed double_modest hc hm) hdigits]
      simp only [Text.ofInt, decide_eq_true_eq]

/-- **Integers below `2 ^ 53` are exact**: their digits are the shortest decimal of the number that they are
read as. -/
theorem exact_ofInt {n : Int} (hn : n.natAbs < 2 ^ 53) : Exact (Text.ofInt n) := by
  obtain ⟨m, e, hofInt, hc, hvalue⟩ := ofInt_spec hn.le
  refine ⟨_, m, e, (readBinary_ofInt hn.le).trans (congrArg _ hofInt), ?_⟩
  rw [decimalValue_ofInt]
  refine congrArg _ ?_
  rcases Nat.eq_zero_or_pos m with rfl | hm
  · rw [shortest_zero, ← hvalue]
    simp [Decimal.value]
  · have hrounds : double.RoundsTo m e n.natAbs := hvalue ▸ .self
    have hpos : 0 < n.natAbs := by
      have hpos' : (0 : ℚ) < n.natAbs := by rw [← hvalue]; positivity
      exact_mod_cast hpos'
    -- few digits are kept in any case; with more of them an integer is kept because it is one
    rcases Nat.lt_or_ge n.natAbs (10 ^ 14) with hfew | hmany
    · have hone : ((n.natAbs : Nat) : ℚ) = n.natAbs * 10 ^ (0 : Int) := by rw [zpow_zero, mul_one]
      have hnormal : (2 : ℚ) ^ (-1022 : Int) ≤ n.natAbs * 10 ^ (0 : Int) := by
        rw [← hone]
        calc (2 : ℚ) ^ (-1022 : Int) ≤ 1 := zpow_le_one_of_nonpos₀ (by norm_num) (by norm_num)
          _ ≤ n.natAbs := by exact_mod_cast hpos
      rw [hone] at hrounds ⊢
      exact (shortest_of_digits hc hrounds hpos (by omega) hnormal).symm
    · exact (shortest_of_integer hc hm hrounds hmany hn).symm

end DocFilter.Number
