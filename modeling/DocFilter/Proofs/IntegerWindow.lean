import DocFilter.Proofs.AmountRange
import DocFilter.Proofs.ClauseOrder
import DocFilter.Proofs.DocumentText
import DocFilter.Proofs.Readability

/-!
Integers in the window of a statement. A limit or a skip that is given as an integer of 64 bits goes
through a floating-point number like every other amount, and what is written is not always the integer.
Main result (`compile_integers`): it is the nearest multiple of the gap between floating-point numbers
at the integer, ties going to the even one, and at most the largest amount. So the integer is written
as it is just if it is negative (and then zero is written), as large as the largest amount, or a multiple
of the gap, as all integers up to `2 ^ 53` are; and it is exceeded just if it is rounded up.

The window of a filter is the end of its statement and touches nothing else (`compile_windowless`), so
that the number can be said without a look at the rest of the filter.
-/

set_option autoImplicit false

namespace DocFilter

open Text (byte)

/-! ## The nearest floating-point number to an integer -/

namespace Number

/-- The gap between neighbouring numbers of 64 bits at an integer. -/
def gap (n : Nat) : Nat := 2 ^ (n.log2 - 52)

/-- The nearest multiple of the gap; a half goes to the even one. -/
def nearest (n : Nat) : Nat := nearestEven n (gap n) * gap n

/-- Whether the nearest multiple of the gap lies above the integer. -/
def RoundedUp (n : Nat) : Prop :=
  gap n < 2 * (n % gap n) ∨ (2 * (n % gap n) = gap n ∧ n / gap n % 2 = 1)

theorem gap_pos (n : Nat) : 0 < gap n := Nat.pow_pos (by decide)

/-- An integer is its own nearest multiple just if it is a multiple of the gap. -/
theorem nearest_eq_iff {n : Nat} : nearest n = n ↔ gap n ∣ n := by
  constructor
  · intro h
    exact ⟨nearestEven n (gap n), by rw [Nat.mul_comm]; exact h.symm⟩
  · intro h
    have hr : n % gap n = 0 := Nat.mod_eq_zero_of_dvd h
    have hq : nearestEven n (gap n) = n / gap n := by
      rw [nearestEven, hr]
      exact if_pos (gap_pos n)
    rw [nearest, hq, Nat.div_mul_cancel h]

/-- The two multiples that an integer lies between, and which of them is taken: the upper one just if the
integer is rounded up. An integer that is a multiple itself counts as the lower one. -/
theorem nearest_cases (n : Nat) :
    (RoundedUp n ∧ nearest n = n - n % gap n + gap n) ∨ (¬ RoundedUp n ∧ nearest n = n - n % gap n) := by
  have hbelow : n / gap n * gap n = n - n % gap n := by
    have := Nat.div_add_mod n (gap n)
    rw [Nat.mul_comm]
    omega
  unfold nearest RoundedUp nearestEven
  dsimp only
  -- below the middle, above it, and in it, where the even quotient decides
  split_ifs with hlow hhigh htie
  · exact .inr ⟨by omega, hbelow⟩
  · exact .inl ⟨.inl hhigh, by rw [Nat.add_mul, hbelow, Nat.one_mul]⟩
  · rw [beq_iff_eq] at htie
    exact .inr ⟨by omega, hbelow⟩
  · rw [beq_iff_eq] at htie
    exact .inl ⟨.inr ⟨by omega, by omega⟩, by rw [Nat.add_mul, hbelow, Nat.one_mul]⟩

/-- The nearest multiple exceeds an integer just if the integer is rounded up. -/
theorem lt_nearest_iff {n : Nat} : n < nearest n ↔ RoundedUp n := by
  have hmod := Nat.mod_lt n (gap_pos n)
  have hle := Nat.mod_le n (gap n)
  rcases nearest_cases n with ⟨hup, hn⟩ | ⟨hdown, hn⟩
  · exact ⟨fun _ => hup, fun _ => by omega⟩
  · exact ⟨fun h => by omega, fun h => absurd h hdown⟩

/-- Integers up to `2 ^ 53` are multiples of the gap, which is one there, or two at the end. -/
theorem gap_dvd_of_le {n : Nat} (h : n ≤ 2 ^ 53) : gap n ∣ n := by
  rcases Nat.lt_or_eq_of_le h with hlt | rfl
  · have hlog : n.log2 ≤ 52 := by
      rcases Nat.eq_zero_or_pos n with rfl | hpos
      · decide
      · have := (Nat.log2_lt hpos.ne').2 hlt
        omega
    rw [gap, Nat.sub_eq_zero_of_le hlog]
    exact one_dvd n
  · decide +kernel

/-- Rounding does not go below the power of two at or below an integer. -/
theorem two_pow_log2_le_nearest {n : Nat} (hn : n ≠ 0) : 2 ^ n.log2 ≤ nearest n := by
  have hmod := Nat.mod_lt n (gap_pos n)
  have hdvd : gap n ∣ 2 ^ n.log2 := Nat.pow_dvd_pow 2 (Nat.sub_le _ _)
  -- the power is a multiple of the gap, so it is not above the multiple below the integer
  have hbelow : 2 ^ n.log2 ≤ n - n % gap n := by
    obtain ⟨k, hk⟩ := hdvd
    have hcount : k ≤ n / gap n := by
      rw [Nat.le_div_iff_mul_le (gap_pos n), Nat.mul_comm, ← hk]
      exact Nat.log2_self_le hn
    have hle := Nat.mul_le_mul_left (gap n) hcount
    have hsplit := Nat.div_add_mod n (gap n)
    omega
  rcases nearest_cases n with ⟨-, h⟩ | ⟨-, h⟩ <;> omega

/-- The exponent that an integer of more than 53 bits is rounded with is that of the gap. -/
theorem exponentOf_integer {n : Nat} (h : 2 ^ 53 < n) : double.exponentOf n 1 = (n.log2 - 52 : Nat) := by
  have hn : n ≠ 0 := by omega
  have hbits : 53 ≤ n.log2 := (Nat.le_log2 hn).2 h.le
  obtain ⟨E, hlow, hhigh, hE⟩ := double.exponentOf_spec hn Nat.one_pos
  rw [Nat.cast_one, div_one] at hlow hhigh
  -- the two powers that the integer lies between leave one exponent
  have hbelow := two_zpow_lt_iff.1 (hlow.trans_lt (lt_two_zpow_log2 n))
  have habove := two_zpow_lt_iff.1 ((two_zpow_log2_le hn).trans_lt hhigh)
  rw [hE]
  simp only [double] at hbelow habove ⊢
  omega

/-- The number of an integer of up to 64 bits is the nearest multiple of the gap. -/
theorem ofInt_nearest {n : Int} (hn : n.natAbs < 2 ^ 64) :
    ∃ m e, double.ofInt n = .finite (n < 0) m e ∧ (m : ℚ) * 2 ^ e = nearest n.natAbs := by
  by_cases hsmall : n.natAbs ≤ 2 ^ 53
  · obtain ⟨m, e, hfinite, -, heq⟩ := ofInt_spec hsmall
    exact ⟨m, e, hfinite, by rw [heq, nearest_eq_iff.2 (gap_dvd_of_le hsmall)]⟩
  · rw [not_le] at hsmall
    have hpos : n.natAbs ≠ 0 := by omega
    have hlog : n.natAbs.log2 < 64 := (Nat.log2_lt hpos).2 hn
    have hround := double.round_of_ne_zero (decide (n < 0)) hpos 1
    rw [exponentOf_integer hsmall] at hround
    -- scaled down by the gap, the integer is rounded to a whole number of gaps
    have hscaled : scaleDown n.natAbs 1 (n.natAbs.log2 - 52 : Nat) = (n.natAbs, gap n.natAbs) :=
      Prod.ext rfl (Nat.one_mul _)
    dsimp only at hround
    rw [hscaled] at hround
    have hvalue : ((nearestEven n.natAbs (gap n.natAbs) : Nat) : ℚ) * 2 ^ ((n.natAbs.log2 - 52 : Nat) : Int)
        = nearest n.natAbs := by
      rw [nearest, gap, zpow_natCast]
      push_cast
      rfl
    by_cases hfull : nearestEven n.natAbs (gap n.natAbs) = 2 ^ double.precision
    · rw [if_pos hfull, if_neg (by simp only [double]; omega)] at hround
      refine ⟨_, _, hround, ?_⟩
      -- one more gap than there is room for: the mantissa is halved
      rw [← hvalue, hfull, zpow_add_one₀ two_ne_zero]
      norm_num [double]
      ring
    · rw [if_neg hfull, if_neg (by simp only [double]; omega)] at hround
      exact ⟨_, _, hround, hvalue⟩

/-- The digits of an integer of up to 64 bits are read as its number. -/
theorem readBinary_digits {n : Int} (hn : n.natAbs < 2 ^ 64) :
    readBinary double (Text.ofInt n) = .ok (double.ofInt n) := by
  by_cases hsmall : n.natAbs ≤ 2 ^ 53
  · exact readBinary_ofInt hsmall
  · have hpos : n.natAbs ≠ 0 := by omega
    obtain ⟨m, e, hfinite, -⟩ := ofInt_nearest hn
    have hplaced : double.Canonical m e := by
      have := double.round_placed double_modest (decide (n < 0)) n.natAbs Nat.one_pos
      rwa [← Format.ofInt, hfinite] at this
    obtain ⟨-, hrounds⟩ := double.roundsTo_of_round (by decide) hpos Nat.one_pos hfinite
    rw [Nat.cast_one, div_one] at hrounds
    have hm : 0 < m := by
      by_contra hzero
      obtain rfl : m = 0 := by omega
      -- what is rounded to zero lies below one
      have hhigh := hrounds.le_high
      rw [hplaced.exponent_of_zero] at hhigh
      have htiny : (2 : ℚ) ^ double.minExponent < 1 := zpow_lt_one_of_neg₀ (by norm_num) (by decide)
      have hone : (1 : ℚ) ≤ n.natAbs := by exact_mod_cast Nat.one_le_iff_ne_zero.2 hpos
      push_cast at hhigh
      linarith
    obtain ⟨d, hd, hread⟩ := (reads_ofNat n.natAbs).readBinary double (decide (n < 0))
    have hvalue : d.value = n.natAbs := by
      rw [hd]
      simp [Decimal.value]
    have htext : Text.ofInt n
        = if decide (n < 0) = true then byte '-' :: Text.ofNat n.natAbs else Text.ofNat n.natAbs := by
      simp only [Text.ofInt, decide_eq_true_eq]
    rw [htext, hread, hfinite, double.ofDecimal_eq double_modest hplaced hm _ (hvalue ▸ hrounds)]

end Number

/-! ## Integers as amounts -/

/-- The amount of an integer of 64 bits. -/
def nearestAmount (n : Int) : Nat := min (Number.nearest n.toNat) maxAmount

section

open Number

theorem nearestAmount_of_le {n : Int} (h : (maxAmount : Int) ≤ n) : nearestAmount n = maxAmount := by
  refine Nat.min_eq_right ?_
  rcases h.eq_or_lt with heq | hlt
  · -- the largest amount itself is rounded up
    have hmost : nearest maxAmount = 2 ^ 63 := by decide +kernel
    rw [← heq, Int.toNat_natCast, hmost]
    decide
  · have hbig : 2 ^ 63 ≤ n.toNat := by
      unfold maxAmount at hlt
      omega
    have hne : n.toNat ≠ 0 := by omega
    calc maxAmount ≤ 2 ^ 63 := by decide
      _ ≤ 2 ^ n.toNat.log2 := Nat.pow_le_pow_right (by decide) ((Nat.le_log2 hne).2 hbig)
      _ ≤ nearest n.toNat := two_pow_log2_le_nearest hne

/-- **Which integers are amounts of their own**, up to the two ends of the range. -/
theorem nearestAmount_exact_iff (n : Int) :
    (nearestAmount n : Int) = min (max n 0) maxAmount ↔
      n ≤ 0 ∨ (maxAmount : Int) ≤ n ∨ gap n.toNat ∣ n.toNat := by
  rcases le_or_gt n 0 with hlow | hpos
  -- at the low end, at the high end, and between the two
  · have hzero : nearestAmount n = 0 := by
      rw [nearestAmount, Int.toNat_of_nonpos hlow]
      rfl
    rw [hzero]
    refine iff_of_true ?_ (.inl hlow)
    omega
  · rcases le_or_gt (maxAmount : Int) n with hhigh | hlt
    · rw [nearestAmount_of_le hhigh]
      exact iff_of_true (by omega) (.inr (.inl hhigh))
    · rw [← nearest_eq_iff, nearestAmount]
      omega

/-- An integer is exceeded just if it is rounded up. -/
theorem lt_nearestAmount_iff {n : Int} (hn : 0 < n) :
    n < nearestAmount n ↔ n < maxAmount ∧ RoundedUp n.toNat := by
  rw [← lt_nearest_iff, nearestAmount]
  omega

end

namespace Value

open Number

/-- The values that give an integer of 64 bits: a word, or the digits of one. -/
inductive Writes (n : Int) : Value → Prop
  | word {ty : IntType} : ty.holds n = true → Writes n (.int ty n)
  | digits : IntType.int64.holds n = true ∨ IntType.uint64.holds n = true → Writes n (.text (Text.ofInt n))

/-- Integers that can be written in a value have at most 64 bits. -/
theorem Writes.natAbs_lt {n : Int} {v : Value} (h : v.Writes n) : n.natAbs < 2 ^ 64 := by
  cases h with
  | word hty => exact IntType.natAbs_lt_of_holds hty
  | digits hty => exact hty.elim IntType.natAbs_lt_of_holds IntType.natAbs_lt_of_holds

/-- A sign or a digit is no white space, so the text of an integer is not blank, and is taken for a number.
-/
theorem not_blank_ofInt (n : Int) : ¬ ∀ p ∈ Text.pieces (Text.ofInt n), p.isBlank = true := by
  have hfirst : ∀ {b : UInt8} {rest : Text}, b < 0x80 → Text.isBlank (Char.ofNat b.toNat) = false →
      ¬ ∀ p ∈ Text.pieces (b :: rest), p.isBlank = true := by
    intro b rest hb hblank hall
    have hpiece := hall (.char (Char.ofNat b.toNat)) (by
      rw [Text.pieces_cons, Text.leading?_ascii hb]
      exact List.mem_cons_self)
    rw [Text.Piece.isBlank, hblank] at hpiece
    cases hpiece
  unfold Text.ofInt
  split_ifs
  · exact hfirst (by decide) (by decide)
  · obtain ⟨c, rest, htext, hc⟩ := (reads_ofNat n.natAbs).head
    obtain ⟨i, rfl⟩ := exists_of_isDigit hc
    have hdigit : ∀ i : Fin 10, byte (Char.ofNat (48 + i)) < 0x80 ∧
        Text.isBlank (Char.ofNat (byte (Char.ofNat (48 + i))).toNat) = false := by decide
    rw [htext]
    exact hfirst (hdigit i).1 (hdigit i).2

/-- A value that is an integer, as a number or as digits in a text, is taken to the floating-point number
nearest to it. -/
theorem Writes.toFloat {n : Int} {v : Value} (h : v.Writes n) : v.toFloat = .ok (double.ofInt n) := by
  have hword := h.natAbs_lt
  cases h with
  | word hty => rfl
  | digits hty =>
    have hne : (Text.ofInt n).isEmpty = false := by
      rw [List.isEmpty_eq_false_iff]
      intro hnil
      exact not_blank_ofInt n (by simp [hnil, Text.pieces, Text.piecesFrom])
    simp [Value.toFloat, resolved, numeralText?, hne, readBinary_digits hword]

/-- The amount of the floating-point number nearest to an integer is the nearest multiple of the gap, cut
off at both ends. -/
theorem amount?_double {n : Int} (hn : n.natAbs < 2 ^ 64) :
    (double.ofInt n).amount? = some (nearestAmount n) := by
  obtain ⟨m, e, hfinite, hvalue⟩ := ofInt_nearest hn
  have hx : (double.ofInt n).value? = some (signed (n < 0) (nearest n.natAbs)) := by
    rw [hfinite, Binary.value?, hvalue]
  obtain ⟨r, hr, -, -, hclamped⟩ := Binary.comes hx
  rw [hr, nearestAmount]
  refine congrArg some (Int.natCast_inj.1 (hclamped.trans ?_))
  rw [truncated_signed _ (Nat.cast_nonneg _), Int.floor_natCast]
  -- a negative integer is rounded to a negative number, which is cut off
  by_cases hneg : n < 0
  · have hzero : nearest 0 = 0 := rfl
    rw [if_pos (decide_eq_true hneg), Int.toNat_of_nonpos hneg.le, hzero]
    omega
  · rw [if_neg (by simpa using hneg), show n.natAbs = n.toNat by omega]
    omega

/-- **The amount of an integer**, in every way it can be given. -/
theorem Writes.amount? {n : Int} {v : Value} (h : v.Writes n) : v.amount? = some (nearestAmount n) := by
  rw [← amount?_double h.natAbs_lt]
  have hfloat := h.toFloat
  cases h with
  | word hty => rfl
  | digits hty =>
    refine amount?_of_number rfl (by simp) ?_ hfloat
    intro t ht
    cases ht
    exact not_blank_ofInt n

end Value

/-! ## The window is the end of a statement -/

/-- Whether a directive moves the window. -/
def Directive.isWindow (d : Directive) : Bool := (d.amount? .limit).isSome || (d.amount? .skip).isSome

/-- A statement with a window behind it. -/
def Statement.withWindow (st : Statement) (limit skip : Option Nat) : Statement :=
  ⟨st.text ++ Select.clause " LIMIT " Text.ofNat limit ++ Select.clause " OFFSET " Text.ofNat skip,
    st.params⟩

namespace Clauses

/-- The clauses without a window. -/
def withoutWindow (c : Clauses) : Clauses := { c with limit := none, skip := none }

/-- A directive beside the window is taken into account the same way without one. -/
theorem add_beside_window {d : Directive} (h : d.isWindow = false) (c : Clauses) :
    c.withoutWindow.add d = (c.add d).map withoutWindow := by
  cases d with
  | comparison | logical | extension | missing => rfl
  | modifier m =>
    obtain ⟨kind, amount, fields, sort⟩ := m
    cases kind with
    | limit | skip => cases h
    | select | other => rfl
    | sort => cases sort <;> rfl

/-- A directive that moves the window does nothing else: without limit and skip, the clauses are the same as
before. The amount has to be a number, or there would be an error instead. -/
theorem add_window {d : Directive} (h : d.isWindow = true) (c : Clauses)
    (hlimit : ∀ v, d.amount? .limit = some v → v.amount? ≠ none)
    (hskip : ∀ v, d.amount? .skip = some v → v.amount? ≠ none) :
    (c.add d).map withoutWindow = .ok c.withoutWindow := by
  cases d with
  | comparison | logical | extension | missing => cases h
  | modifier m =>
    obtain ⟨kind, amount, fields, sort⟩ := m
    cases kind with
    | limit =>
      obtain ⟨n, hn⟩ := Option.ne_none_iff_exists'.1 (hlimit amount rfl)
      simp [add, hn, Except.map, withoutWindow]
    | skip =>
      obtain ⟨n, hn⟩ := Option.ne_none_iff_exists'.1 (hskip amount rfl)
      simp [add, hn, Except.map, withoutWindow]
    | select | other | sort => cases h

/-- Several directives, without their windows: leaving out the directives for the window leaves the rest of
the clauses as it is, with the same errors. Their amounts have to be numbers, for otherwise one error would
be missing. -/
theorem addAll_withoutWindow {ds : List Directive} (c : Clauses)
    (hlimits : Value.Numeric (Directive.amounts .limit ds))
    (hskips : Value.Numeric (Directive.amounts .skip ds)) :
    c.withoutWindow.addAll (ds.filter fun d => !d.isWindow) = (c.addAll ds).map withoutWindow := by
  have hrest : ∀ {kind : ModifierKind} {d : Directive} {rest : List Directive},
      Value.Numeric (Directive.amounts kind (d :: rest)) →
        (∀ v, d.amount? kind = some v → v.amount? ≠ none) ∧ Value.Numeric (Directive.amounts kind rest) := by
    intro kind d rest h
    constructor
    · intro v hv
      exact h v (List.mem_filterMap.2 ⟨d, List.mem_cons_self, hv⟩)
    · intro v hv
      exact h v (((List.sublist_cons_self d rest).filterMap _).subset hv)
  -- the clauses stay general: those of the first directive are where the rest begins
  induction ds generalizing c with
  | nil => rfl
  | cons d rest ih =>
    obtain ⟨hlimit, hlimits⟩ := hrest hlimits
    obtain ⟨hskip, hskips⟩ := hrest hskips
    rw [addAll]
    cases hd : d.isWindow with
    | false =>
      rw [List.filter_cons_of_pos (by simp [hd]), addAll, add_beside_window hd]
      cases c.add d with
      | error e => rfl
      | ok c₁ => exact ih c₁ hlimits hskips
    | true =>
      rw [List.filter_cons_of_neg (by simp [hd])]
      have hsame := add_window hd c hlimit hskip
      cases hadd : c.add d with
      | error e =>
        rw [hadd] at hsame
        cases hsame
      | ok c₁ =>
        rw [hadd] at hsame
        rw [← Except.ok.inj hsame]
        exact ih c₁ hlimits hskips

/-- The statement of clauses is that without their window, and the window behind it. -/
theorem statement_eq (options : CompileOptions) (c : Clauses) :
    statement options c = (statement options c.withoutWindow).map (·.withWindow c.limit c.skip) := by
  have hconditions : c.withoutWindow.conditions = c.conditions := rfl
  unfold statement
  rw [hconditions]
  cases conditionOf c.conditions with
  | error e => rfl
  | ok condition =>
    refine congrArg (fun t => Except.ok (Statement.mk t _)) ?_
    have hnothing : ∀ keyword : Text, Select.clause keyword Text.ofNat none = [] := fun _ => rfl
    simp only [Select.text, withoutWindow, hnothing, List.append_nil]
    rfl

end Clauses

/-- **The window of directives is the end of their statement**: compiled without limits and skips, the
directives make the same statement, to which the last limit and the last skip are added. -/
theorem compile_withWindow (options : CompileOptions) {ds : List Directive}
    (hlimits : Value.Numeric (Directive.amounts .limit ds))
    (hskips : Value.Numeric (Directive.amounts .skip ds)) :
    compile options ds = (compile options (ds.filter fun d => !d.isWindow)).map
      (·.withWindow (Value.lastAmount? (Directive.amounts .limit ds))
        (Value.lastAmount? (Directive.amounts .skip ds))) := by
  have hwithout : ({} : Clauses).addAll (ds.filter fun d => !d.isWindow)
      = (({} : Clauses).addAll ds).map Clauses.withoutWindow := Clauses.addAll_withoutWindow {} hlimits hskips
  rw [compile_eq_statement, compile_eq_statement, hwithout]
  cases hc : ({} : Clauses).addAll ds with
  | error e => rfl
  | ok c =>
    have hlimit : c.limit = Value.lastAmount? (Directive.amounts .limit ds) := by rw [Clauses.addAll_eq hc]
    have hskip : c.skip = Value.lastAmount? (Directive.amounts .skip ds) := by rw [Clauses.addAll_eq hc]
    rw [← hlimit, ← hskip]
    exact Clauses.statement_eq options c

/-! ## The window of a filter -/

/-- Whether a key of a filter asks for the window. -/
def isWindowKey (key : Text) : Bool := key == Text.ofString "$limit" || key == Text.ofString "$skip"

/-- The filter without its window. -/
def Document.windowless (d : Document) : Document := d.filter fun e => !isWindowKey e.1

/-- What an entry contributes beside the window: nothing if its key asks for the window, and else all. -/
theorem interpretField_window (key : Text) (v : Value) :
    (isWindowKey key = true → ∃ x, interpretField key v = .ok ⟨[x], []⟩ ∧ x.isWindow = true) ∧
      (isWindowKey key = false → ∀ part, interpretField key v = .ok part →
        ∀ x ∈ part.clauses, x.isWindow = false) := by
  constructor
  · intro hkey
    rw [isWindowKey, Bool.or_eq_true, beq_iff_eq, beq_iff_eq] at hkey
    rcases hkey with rfl | rfl
    · exact ⟨_, rfl, rfl⟩
    · exact ⟨_, rfl, rfl⟩
  · intro hkey part hpart
    -- the clauses of an entry are of the kind of its key
    have hclauses := fieldClauses_of_interpretField hpart
    generalize part.clauses = ds at hclauses
    cases hclauses with
    | ordinary | group => simp
    | limit | skip => cases hkey
    | select | sort | extension => simp [Directive.isWindow, Directive.amount?, Directive.select]

/-- What a filter contributes without its window: the same conditions, and the clauses but for limits and
skips. The induction is on the entries, which are dropped or kept by their keys. -/
theorem interpretFields_windowless (d : Document) :
    interpretFields d.windowless = (interpretFields d).map fun parts =>
      ⟨parts.clauses.filter fun x => !x.isWindow, parts.conditions⟩ := by
  induction d with
  | nil => rfl
  | cons e rest ih =>
    obtain ⟨key, v⟩ := e
    obtain ⟨hwindow, hbeside⟩ := interpretField_window key v
    rw [interpretFields]
    cases hkey : isWindowKey key with
    | true =>
      obtain ⟨x, hx, hxwindow⟩ := hwindow hkey
      have hdropped : Document.windowless ((key, v) :: rest) = Document.windowless rest :=
        List.filter_cons_of_neg (by simp [hkey])
      rw [hdropped, ih, hx]
      cases interpretFields rest with
      | error e => rfl
      | ok more => simp [Except.map, bind, Except.bind, pure, Except.pure, hxwindow]
    | false =>
      have hkept : Document.windowless ((key, v) :: rest) = (key, v) :: Document.windowless rest :=
        List.filter_cons_of_pos (by simp [hkey])
      rw [hkept, interpretFields, ih]
      cases hpart : interpretField key v with
      | error e => rfl
      | ok part =>
        have hall : part.clauses.filter (fun x => !x.isWindow) = part.clauses :=
          List.filter_eq_self.2 fun x hx => by simp [hbeside hkey part hpart x hx]
        cases interpretFields rest with
        | error e => rfl
        | ok more => simp [Except.map, bind, Except.bind, pure, Except.pure, hall]

/-- Leaving the window out of a filter leaves the directives for it out of what the filter is interpreted
as, and nothing else. -/
theorem interpret_windowless (d : Document) :
    interpret d.windowless = (interpret d).map fun ds => ds.filter fun x => !x.isWindow := by
  rw [interpret, interpret, interpretFields_windowless]
  cases interpretFields d with
  | error e => rfl
  | ok parts =>
    have hconjunction : (conjunction parts.conditions).filter (fun x => !x.isWindow)
        = conjunction parts.conditions := by
      refine List.filter_eq_self.2 fun x hx => ?_
      rw [mem_conjunction hx]
      rfl
    refine congrArg Except.ok ?_
    show _ ++ conjunction parts.conditions = (parts.clauses ++ conjunction parts.conditions).filter _
    rw [List.filter_append, hconjunction]

/-- **The window of a filter is the end of its statement.** What comes before it is the statement of the
filter without the window, and where that fails the filter fails in the same way. -/
theorem compile_windowless (options : CompileOptions) {d : Document}
    (hlimits : Value.Numeric (d.valuesOf "$limit")) (hskips : Value.Numeric (d.valuesOf "$skip")) :
    (interpret d >>= compile options) = (interpret d.windowless >>= compile options).map
      (·.withWindow (Value.lastAmount? (d.valuesOf "$limit")) (Value.lastAmount? (d.valuesOf "$skip"))) := by
  rw [interpret_windowless]
  cases hds : interpret d with
  | error e => rfl
  | ok ds =>
    have hlimits' : Directive.amounts .limit ds = d.valuesOf "$limit" := picks_limit.interpret hds
    have hskips' : Directive.amounts .skip ds = d.valuesOf "$skip" := picks_skip.interpret hds
    rw [← hlimits'] at hlimits ⊢
    rw [← hskips'] at hskips ⊢
    exact compile_withWindow options hlimits hskips

/-- **An integer in the window is written as the nearest floating-point number.** Where the last limit of
a filter is an integer of 64 bits, as a word or as its digits, its statement is that of the filter without
the window, with the amount of the integer behind LIMIT; a last skip stands in the same way behind OFFSET.
The amount is the integer itself, cut off at both ends of the range, just if the integer lies outside the
range or is a multiple of the gap there, as it is up to `2 ^ 53`; and it exceeds a positive integer just if
this one is rounded up. -/
theorem compile_integers (options : CompileOptions) (d : Document) {n : Int} {v : Value}
    (hv : v.Writes n) :
    (∀ earlier, d.valuesOf "$limit" = earlier ++ [v] → Value.Numeric earlier →
      Value.Numeric (d.valuesOf "$skip") →
      (interpret d >>= compile options) = (interpret d.windowless >>= compile options).map
        (·.withWindow (some (nearestAmount n)) (Value.lastAmount? (d.valuesOf "$skip")))) ∧
    (∀ earlier, d.valuesOf "$skip" = earlier ++ [v] → Value.Numeric earlier →
      Value.Numeric (d.valuesOf "$limit") →
      (interpret d >>= compile options) = (interpret d.windowless >>= compile options).map
        (·.withWindow (Value.lastAmount? (d.valuesOf "$limit")) (some (nearestAmount n)))) ∧
    ((nearestAmount n : Int) = min (max n 0) (2 ^ 63 - 1) ↔
      n ≤ 0 ∨ 2 ^ 63 - 1 ≤ n ∨ Number.gap n.toNat ∣ n.toNat) ∧
    (n ≤ 2 ^ 53 → (nearestAmount n : Int) = max n 0) ∧
    (0 < n → (n < nearestAmount n ↔ n < 2 ^ 63 - 1 ∧ Number.RoundedUp n.toNat)) := by
  -- of several limits, or skips, the last one counts
  have hlast : ∀ earlier, Value.Numeric earlier → Value.Numeric (earlier ++ [v]) ∧
      Value.lastAmount? (earlier ++ [v]) = some (nearestAmount n) := by
    intro earlier hearlier
    refine ⟨hearlier.append (by simp [Value.Numeric, hv.amount?]), ?_⟩
    rw [Value.lastAmount?, List.getLast?_concat, Option.bind_some, hv.amount?]
  refine ⟨?_, ?_, nearestAmount_exact_iff n, ?_, lt_nearestAmount_iff⟩
  · intro earlier hvalues hearlier hskips
    obtain ⟨hnumeric, hamount⟩ := hlast earlier hearlier
    rw [← hvalues] at hnumeric hamount
    rw [compile_windowless options hnumeric hskips, hamount]
  · intro earlier hvalues hearlier hlimits
    obtain ⟨hnumeric, hamount⟩ := hlast earlier hearlier
    rw [← hvalues] at hnumeric hamount
    rw [compile_windowless options hlimits hnumeric, hamount]
  · intro hsmall
    have hexact := (nearestAmount_exact_iff n).2 (.inr (.inr (Number.gap_dvd_of_le (by omega))))
    rw [hexact]
    unfold maxAmount
    omega

/-- A window of two integers that lie between floating-point numbers. -/
def farWindow : Document :=
  [("$limit", .int .int 9007199254740993), ("a", .bool true), ("$skip", .text "9007199254740995")]

/-- Beyond `2 ^ 53` the odd integers have no place in the format. Here the limit is rounded down and the
skip, which is given in digits, is rounded up. -/
theorem farWindow_rounded :
    Value.Writes 9007199254740993 (.int .int 9007199254740993) ∧
      Value.Writes 9007199254740995 (.text "9007199254740995") ∧
      (interpret farWindow >>= compile {}).toOption.map Statement.text
        = some "SELECT * WHERE `a` = $1 LIMIT 9007199254740992 OFFSET 9007199254740996" ∧
      (9007199254740995 : Int) < nearestAmount 9007199254740995 := by
  have hword : Value.Writes 9007199254740993 (.int .int 9007199254740993) := .word (by decide)
  have hdigits : Value.Writes 9007199254740995 (.text "9007199254740995") := by
    have htext : Text.ofInt 9007199254740995 = Text.ofString "9007199254740995" := by decide +kernel
    rw [← htext]
    exact .digits (.inl (by decide))
  have hskip : Value.lastAmount? (farWindow.valuesOf "$skip") = some 9007199254740996 := by decide +kernel
  have hlimit : nearestAmount 9007199254740993 = 9007199254740992 := by decide +kernel
  obtain ⟨hstatement, -⟩ := compile_integers {} farWindow hword
  have hcompiled := hstatement [] rfl (by simp [Value.Numeric])
    (List.forall_mem_singleton.2 (by decide +kernel))
  rw [hskip, hlimit] at hcompiled
  refine ⟨hword, hdigits, ?_, ?_⟩
  · rw [hcompiled]
    decide +kernel
  · have hexceeds := (compile_integers {} farWindow hdigits).2.2.2.2 (by decide)
    exact hexceeds.2 ⟨by decide, .inr (by decide +kernel)⟩

end DocFilter
