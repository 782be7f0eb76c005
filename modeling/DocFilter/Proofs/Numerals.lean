import DocFilter.Proofs.Shortest
import DocFilter.Proofs.Utf8
import DocFilter.Value.Encode

/-!
Numbers written and read back. A decimal numeral is read as digits, a point somewhere among them and
an exponent; `Reads` says that a text is a numeral of a decimal number. Whatever its layout, the
text of a number of a format is a numeral of the shortest decimal of the number, so it is read as
the number itself (`readBinary_write`). The integers up to `2 ^ 53` have exact numbers
(`integer?_ofInt`), and whatever is read from a numeral is canonical (`canonical_of_readBinary`).
-/

set_option autoImplicit false

namespace DocFilter.Number

open Text (byte isDigit digitValue?)

/-! ## Numerals without a base -/

/-- What the exponent of a decimal numeral is, and the text after it. -/
def decimalExponent? : Text → Option (Int × Text)
  | b :: rest => if b == byte 'e' || b == byte 'E' then readExponent? rest else some (0, b :: rest)
  | [] => some (0, [])

theorem mem_of_mem_unsigned {b : UInt8} {t : Text} (h : b ∈ unsigned t) : b ∈ t := by
  cases t with
  | nil => exact h
  | cons c rest =>
    rw [unsigned] at h
    split_ifs at h
    · exact List.mem_cons_of_mem _ h
    · exact h

/-- A text of the bytes of numbers has no prefix for a base, since the letters of such prefixes are not
among them. So it is read in base ten. -/
theorem basePrefix?_of_numeric {t : Text} (ht : ∀ b ∈ t, isNumberByte b = true) :
    basePrefix? t = none := by
  unfold basePrefix?
  split
  · next letter rest =>
    have hletter : isNumberByte letter = true := ht letter (by simp)
    have hnone : ∀ b : UInt8, isNumberByte b = true →
        (b == byte 'b' || b == byte 'B') = false ∧ (b == byte 'o' || b == byte 'O') = false ∧
          (b == byte 'x' || b == byte 'X') = false := Text.forall_byte (by decide +kernel)
    obtain ⟨h2, h8, h16⟩ := hnone letter hletter
    rw [h2, h8, h16]
    rfl
  · rfl

/-- No name of a value off the line is made of the bytes of numbers: each of the names has an `n` or an `i`
in it, and no numeral has, whether capital or not. -/
theorem readSpecial?_of_numeric {t : Text} (ht : ∀ b ∈ t, isNumberByte b = true) :
    readSpecial? t = none := by
  unfold readSpecial?
  extract_lets lower isInfinity word
  have hlower : ∀ b : UInt8, isNumberByte b = true → lower b ≠ byte 'n' ∧ lower b ≠ byte 'i' :=
    Text.forall_byte (by decide +kernel)
  have hword : ∀ b ∈ word, b ≠ byte 'n' ∧ b ≠ byte 'i' := by
    intro b hb
    obtain ⟨c, hc, rfl⟩ := List.mem_map.1 hb
    exact hlower c (ht c hc)
  have hnan : (word == Text.ofString "nan") = false := by
    refine beq_eq_false_iff_ne.2 fun h => ?_
    exact (hword (byte 'n') (by rw [h]; decide)).1 rfl
  have hinf : isInfinity (unsigned word) = false := by
    have hne : ∀ s : Text, byte 'i' ∈ s → (unsigned word == s) = false := by
      intro s hs
      refine beq_eq_false_iff_ne.2 fun h => ?_
      exact (hword (byte 'i') (mem_of_mem_unsigned (h ▸ hs))).2 rfl
    simp only [isInfinity, hne _ (show byte 'i' ∈ Text.ofString "inf" by decide),
      hne _ (show byte 'i' ∈ Text.ofString "infinity" by decide), Bool.or_self]
  rw [hnan, hinf]
  rfl

/-- A text made of the bytes of numbers is read as a decimal numeral. It is no name, has no prefix of
another base and no underscores, so of the general reader only this much is left. -/
theorem readBinary_of_numeric (f : Format) {t : Text} (ht : ∀ b ∈ t, isNumberByte b = true) :
    readBinary f t =
      (let m := readMantissa 10 false 0 0 0 (unsigned t)
       match decimalExponent? m.rest with
       | none => .error .malformed
       | some (exponent, rest) =>
         if m.count == 0 || !rest.isEmpty then .error .malformed
         else
           match f.ofDecimal (t.head? == some (byte '-')) m.value (exponent - m.places) with
           | .infinite _ => .error .outOfRange
           | x => .ok x) := by
  have hscore : t.contains (byte '_') = false := by
    rw [List.contains_eq_mem, decide_eq_false_iff_not]
    intro hmem
    exact absurd (ht _ hmem) (by decide)
  unfold readBinary
  rw [readSpecial?_of_numeric ht]
  dsimp only
  rw [basePrefix?_of_numeric fun b hb => ht b (mem_of_mem_unsigned hb), hscore]
  simp only [Option.isSome_none, Bool.false_eq_true, if_false, Option.getD_none, Bool.false_and,
    Bool.or_false]
  unfold decimalExponent?
  cases (readMantissa 10 false 0 0 0 (unsigned t)).rest <;> rfl

/-- **What is read is canonical.** A numeral that is read at all is read as a finite canonical
number. -/
theorem canonical_of_readBinary {f : Format} (hf : f.Modest) {t : Text}
    (ht : ∀ b ∈ t, isNumberByte b = true) {x : Binary} (h : readBinary f t = .ok x) :
    ∃ s m e, x = .finite s m e ∧ f.Canonical m e := by
  rw [readBinary_of_numeric f ht] at h
  dsimp only at h
  generalize decimalExponent? _ = exponent? at h
  cases exponent? with
  | none => cases h
  | some p =>
    dsimp only at h
    split_ifs at h
    -- what is rounded beyond the largest number is an error
    rcases f.ofDecimal_canonical hf (t.head? == some (byte '-'))
      (readMantissa 10 false 0 0 0 (unsigned t)).value
      (p.1 - (readMantissa 10 false 0 0 0 (unsigned t)).places) with hinf | ⟨m, e, hfin, hc⟩
    · rw [hinf] at h
      cases h
    · rw [hfin] at h
      exact ⟨_, m, e, (Except.ok.inj h).symm, hc⟩

/-! ## Digits -/

/-- A digit is one of ten characters, which lets statements on digits be decided case by case. -/
theorem exists_of_isDigit {c : Char} (hc : c.isDigit = true) :
    ∃ i : Fin 10, c = Char.ofNat (48 + i) := by
  simp only [Char.isDigit, ge_iff_le, Bool.and_eq_true, decide_eq_true_eq, UInt32.le_iff_toNat_le] at hc
  have hlow : 48 ≤ c.toNat := hc.1
  have hhigh : c.toNat ≤ 57 := hc.2
  refine ⟨⟨c.toNat - 48, by omega⟩, ?_⟩
  rw [Nat.add_sub_cancel' hlow, Char.ofNat_toNat]

/-- The byte of a digit. -/
theorem byte_of_digit {c : Char} (hc : c.isDigit = true) :
    isDigit (byte c) = true ∧ isNumberByte (byte c) = true ∧
      digitValue? (byte c) = some (c.toNat - '0'.toNat) ∧ (byte c).toNat - 0x30 = c.toNat - '0'.toNat ∧
      (c.toNat - '0'.toNat) < 10 ∧ byte c ≠ byte '_' ∧ byte c ≠ byte '.' ∧ byte c ≠ byte '+' ∧
      byte c ≠ byte '-' := by
  obtain ⟨i, rfl⟩ := exists_of_isDigit hc
  revert i
  decide

theorem digit_of_mem_toDigits {n : Nat} {c : Char} (h : c ∈ Nat.toDigits 10 n) : c.isDigit = true :=
  Nat.isDigit_of_mem_toDigits (by decide) (by decide) h

/-- Digits are read into the value, and counted; behind the point they also count as places. Stated for a
reader in the middle of its work, as the induction on the digits needs it. -/
theorem readMantissa_digits {cs : List Char} (hcs : ∀ c ∈ cs, c.isDigit = true) (seen : Bool)
    (value places count : Nat) (rest : Text) :
    readMantissa 10 seen value places count (cs.map byte ++ rest)
      = readMantissa 10 seen (Nat.ofDigitChars 10 cs value)
          (if seen then places + cs.length else places) (count + cs.length) rest := by
  induction cs generalizing value places count with
  | nil => cases seen <;> rfl
  | cons c cs ih =>
    obtain ⟨-, -, hvalue, -, hlt, hscore, hpoint, -⟩ := byte_of_digit (hcs c (by simp))
    rw [List.map_cons, List.cons_append, readMantissa, if_neg (by simpa using hscore),
      if_neg (by simpa using hpoint), hvalue]
    dsimp only
    rw [if_pos hlt, ih fun c hc => hcs c (by simp [hc]), Nat.ofDigitChars_cons, Nat.mul_comm 10,
      List.length_cons]
    cases seen
    · simp only [Bool.false_eq_true, if_false]
      congr 1
      omega
    · simp only [if_true]
      congr 1 <;> omega

/-- The first point changes nothing but the way in which further digits count. -/
theorem readMantissa_point (value places count : Nat) (rest : Text) :
    readMantissa 10 false value places count (byte '.' :: rest)
      = readMantissa 10 true value places count rest := rfl

theorem readMantissa_nil (seen : Bool) (value places count : Nat) :
    readMantissa 10 seen value places count [] = ⟨value, places, count, []⟩ := by
  cases seen <;> rfl

/-- Whether a byte marks the exponent of a number. -/
def isMark (b : UInt8) : Bool := b == byte 'e' || b == byte 'E'

/-- The fraction of a number, with the point in front of it, if there is one. -/
def IsPoint (point fraction : Text) : Prop := (point = [] ∧ fraction = []) ∨ point = byte '.' :: fraction

/-- The exponent of a number, with the mark in front of it, if there is one. -/
def IsMarked (tail exponent : Text) : Prop :=
  (tail = [] ∧ exponent = []) ∨ ∃ mark, isMark mark = true ∧ tail = mark :: exponent

/-- The mark of an exponent ends the mantissa, and the exponent is left for the next stage. -/
theorem readMantissa_tail {tail exponent : Text} (h : IsMarked tail exponent) (seen : Bool)
    (value places count : Nat) :
    readMantissa 10 seen value places count tail = ⟨value, places, count, tail⟩ := by
  rcases h with ⟨rfl, -⟩ | ⟨mark, hmark, rfl⟩
  · exact readMantissa_nil seen value places count
  · rw [isMark, Bool.or_eq_true, beq_iff_eq, beq_iff_eq] at hmark
    rcases hmark with rfl | rfl <;> cases seen <;> rfl

/-- The digits before and behind the point are read as one row. -/
theorem readMantissa_parts {cs ds : List Char} {point tail exponent : Text}
    (hcs : ∀ c ∈ cs, c.isDigit = true) (hds : ∀ c ∈ ds, c.isDigit = true)
    (hpoint : IsPoint point (ds.map byte)) (htail : IsMarked tail exponent) :
    readMantissa 10 false 0 0 0 (cs.map byte ++ (point ++ tail))
      = ⟨Nat.ofDigitChars 10 (cs ++ ds) 0, ds.length, cs.length + ds.length, tail⟩ := by
  rw [readMantissa_digits hcs]
  rcases hpoint with ⟨rfl, hempty⟩ | rfl
  · obtain rfl := List.map_eq_nil_iff.1 hempty
    rw [List.nil_append, readMantissa_tail htail, List.append_nil]
    simp
  · rw [List.cons_append, readMantissa_point, readMantissa_digits hds, readMantissa_tail htail,
      ← Nat.ofDigitChars_append]
    simp

/-- The digits of an exponent below ten thousand are all read, and nothing is left behind them. From there
on the reader would not take further digits into account. -/
theorem readExponentDigits_digits {cs : List Char} (hcs : ∀ c ∈ cs, c.isDigit = true) {n : Nat}
    (hsmall : Nat.ofDigitChars 10 cs n < 10000) :
    readExponentDigits n (cs.map byte) = (Nat.ofDigitChars 10 cs n, []) := by
  induction cs generalizing n with
  | nil => rfl
  | cons c cs ih =>
    obtain ⟨hdigit, -, -, htoNat, -, hscore, -⟩ := byte_of_digit (hcs c (by simp))
    rw [Nat.ofDigitChars_cons] at hsmall ⊢
    -- what was read so far is not larger than what is read in the end
    have hn : n < 10000 := by
      rw [Nat.ofDigitChars_eq_ofDigitChars_zero] at hsmall
      have : 1 ≤ 10 ^ cs.length := Nat.one_le_pow _ _ (by decide)
      nlinarith
    rw [List.map_cons, readExponentDigits, if_neg (by simpa using hscore), if_pos hdigit, if_pos hn,
      htoNat, Nat.mul_comm n]
    exact ih (fun c hc => hcs c (by simp [hc])) hsmall

/-! ## Texts of decimals -/

/-- The text is a numeral of the decimal: it begins with a digit, has only the bytes of numbers, and
its digits and exponent have the value of the decimal. -/
structure Reads (t : Text) (d : Decimal) : Prop where
  head : ∃ c rest, t = byte c :: rest ∧ c.isDigit = true
  numeric : ∀ b ∈ t, isNumberByte b = true
  value : ∃ m x, readMantissa 10 false 0 0 0 t = m ∧ decimalExponent? m.rest = some (x, []) ∧
    0 < m.count ∧ (Decimal.mk m.value (x - m.places)).value = d.value

theorem Decimal.chars_digit (d : Decimal) : ∀ c ∈ d.chars, c.isDigit = true :=
  fun _ hc => digit_of_mem_toDigits hc

theorem Decimal.chars_ne_nil (d : Decimal) : d.chars ≠ [] := Nat.toDigits_ne_nil

/-- The digits of a decimal are read as its number of digits. -/
theorem Decimal.ofDigitChars_chars (d : Decimal) : Nat.ofDigitChars 10 d.chars 0 = d.digits :=
  Nat.ofDigitChars_ten_toDigits

theorem numeric_map_byte {cs : List Char} (hcs : ∀ c ∈ cs, c.isDigit = true) :
    ∀ b ∈ cs.map byte, isNumberByte b = true := by
  intro b hb
  obtain ⟨c, hc, rfl⟩ := List.mem_map.1 hb
  exact (byte_of_digit (hcs c hc)).2.1

theorem digit_of_mem_replicate {k : Nat} {c : Char} (h : c ∈ List.replicate k '0') :
    c.isDigit = true := by
  rw [List.eq_of_mem_replicate h]
  decide

/-- A numeral part by part: digits, more of them behind a point, and an exponent behind a mark. Its decimal
has all digits, and the exponent less the places behind the point. -/
theorem reads_parts {cs ds : List Char} {point tail exponent : Text} (hcs : ∀ c ∈ cs, c.isDigit = true)
    (hds : ∀ c ∈ ds, c.isDigit = true) (hne : cs ≠ []) (hpoint : IsPoint point (ds.map byte))
    (htail : IsMarked tail exponent) (hbytes : ∀ b ∈ tail, isNumberByte b = true) {x : Int}
    (hx : decimalExponent? tail = some (x, [])) {d : Decimal}
    (hd : (Decimal.mk (Nat.ofDigitChars 10 (cs ++ ds) 0) (x - ds.length)).value = d.value) :
    Reads (cs.map byte ++ (point ++ tail)) d := by
  have hmantissa := readMantissa_parts hcs hds hpoint htail
  -- every part is made of the bytes of numbers
  have hnumeric : ∀ b ∈ cs.map byte ++ (point ++ tail), isNumberByte b = true := by
    intro b hb
    rcases List.mem_append.1 hb with hb | hb
    · exact numeric_map_byte hcs b hb
    · rcases List.mem_append.1 hb with hb | hb
      · rcases hpoint with ⟨rfl, -⟩ | rfl
        · cases hb
        · rcases List.mem_cons.1 hb with rfl | hb
          · decide
          · exact numeric_map_byte hds b hb
      · exact hbytes b hb
  obtain ⟨c, rest, rfl⟩ := List.exists_cons_of_ne_nil hne
  exact ⟨⟨c, _, rfl, hcs c List.mem_cons_self⟩, hnumeric, _, x, hmantissa, hx,
    Nat.add_pos_left (Nat.succ_pos _) _, hd⟩

/-- Digits with nothing around them. -/
theorem reads_digits {cs : List Char} (hcs : ∀ c ∈ cs, c.isDigit = true) (hne : cs ≠ []) {d : Decimal}
    (hd : (Nat.ofDigitChars 10 cs 0 : ℚ) = d.value) : Reads (cs.map byte) d := by
  have hnone : ∀ c ∈ ([] : List Char), c.isDigit = true := fun c hc => absurd hc List.not_mem_nil
  have hreads := reads_parts (d := d) hcs hnone hne (.inl ⟨rfl, rfl⟩) (.inl ⟨rfl, rfl⟩)
    (fun b hb => absurd hb List.not_mem_nil) rfl (by rw [← hd]; simp [Decimal.value])
  simpa using hreads

/-- Digits around a decimal point are a row of digits, and maybe a second row behind the point. -/
theorem positionalText_parts (d : Decimal) :
    ∃ (cs ds : List Char) (point : Text), (∀ c ∈ cs, c.isDigit = true) ∧ (∀ c ∈ ds, c.isDigit = true) ∧
      cs ≠ [] ∧ IsPoint point (ds.map byte) ∧ positionalText d = cs.map byte ++ point ∧
      (Decimal.mk (Nat.ofDigitChars 10 (cs ++ ds) 0) (-ds.length)).value = d.value := by
  have hdigits := d.chars_digit
  have hvalue := d.ofDigitChars_chars
  unfold positionalText
  cases he : d.exponent with
  | ofNat e =>
    have hnone : ∀ c ∈ ([] : List Char), c.isDigit = true := fun c hc => absurd hc List.not_mem_nil
    dsimp only
    split_ifs with h0
    · refine ⟨d.chars, [], [], hdigits, hnone, d.chars_ne_nil, .inl ⟨rfl, rfl⟩, (List.append_nil _).symm, ?_⟩
      rw [List.append_nil, hvalue, Decimal.value, Decimal.value, eq_of_beq h0]
      simp
    · -- zeros stand for the exponent
      refine ⟨d.chars ++ List.replicate e '0', [], [], ?_, hnone, by simp [d.chars_ne_nil], .inl ⟨rfl, rfl⟩,
        ?_, ?_⟩
      · intro c hc
        rcases List.mem_append.1 hc with hc | hc
        · exact hdigits c hc
        · exact digit_of_mem_replicate hc
      · rw [List.append_nil, List.map_append, List.map_replicate]
      · rw [List.append_nil, Nat.ofDigitChars_append, hvalue, Nat.ofDigitChars_replicate_zero, Decimal.value,
          Decimal.value, he]
        show ((10 ^ e * d.digits : Nat) : ℚ) * 10 ^ (0 : Int) = d.digits * 10 ^ (e : Int)
        rw [zpow_natCast, zpow_zero]
        push_cast
        ring
  | negSucc e =>
    dsimp only
    have hexp : d.exponent = -((e + 1 : Nat) : Int) := by rw [he]; rfl
    split_ifs with hlt
    · -- the point stands among the digits
      rw [List.length_map] at hlt ⊢
      refine ⟨d.chars.take (d.chars.length - (e + 1)), d.chars.drop (d.chars.length - (e + 1)), _,
        fun c hc => hdigits c (List.mem_of_mem_take hc), fun c hc => hdigits c (List.mem_of_mem_drop hc),
        ?_, .inr rfl, ?_, ?_⟩
      · intro hnil
        have := congrArg List.length hnil
        rw [List.length_take, List.length_nil] at this
        omega
      · rw [List.map_take, List.map_drop, List.append_assoc]
        rfl
      · have hplaces : d.chars.length - (d.chars.length - (e + 1)) = e + 1 := by omega
        rw [List.take_append_drop, hvalue, List.length_drop, hplaces, ← hexp]
    · -- the point stands in front of the digits, and zeros between
      have hzeros : (Text.ofString "0." : Text) = ['0'].map byte ++ [byte '.'] := by decide
      rw [List.length_map] at hlt ⊢
      refine ⟨['0'], List.replicate (e + 1 - d.chars.length) '0' ++ d.chars, _,
        List.forall_mem_singleton.2 rfl, ?_, by simp, .inr rfl, ?_, ?_⟩
      · intro c hc
        rcases List.mem_append.1 hc with hc | hc
        · exact digit_of_mem_replicate hc
        · exact hdigits c hc
      · rw [hzeros, List.map_append, List.map_replicate, List.append_assoc, List.append_assoc]
        rfl
      · have hplaces : (List.replicate (e + 1 - d.chars.length) '0' ++ d.chars).length = e + 1 := by
          rw [List.length_append, List.length_replicate]
          omega
        rw [Nat.ofDigitChars_append, Nat.ofDigitChars_append, Nat.ofDigitChars_replicate_zero, hplaces,
          ← hexp]
        show (Decimal.mk (Nat.ofDigitChars 10 d.chars (10 ^ _ * 0)) d.exponent).value = _
        rw [Nat.mul_zero, hvalue]

/-- A decimal written with a point, or without one if it is whole, is a numeral of itself. Zeros that are
put in for the point do not count. -/
theorem reads_positionalText (d : Decimal) : Reads (positionalText d) d := by
  obtain ⟨cs, ds, point, hcs, hds, hne, hpoint, htext, hvalue⟩ := positionalText_parts d
  have hreads := reads_parts (d := d) hcs hds hne hpoint (.inl ⟨rfl, rfl⟩)
    (fun b hb => absurd hb List.not_mem_nil) rfl (by rw [zero_sub]; exact hvalue)
  rwa [List.append_nil, ← htext] at hreads

/-- The digits of an exponent, with zeros in front of them to make two at least. Zeros in front change
nothing in the number that the digits stand for. -/
theorem padded_chars (n : Nat) :
    ∃ cs : List Char, (∀ c ∈ cs, c.isDigit = true) ∧ cs ≠ [] ∧ Text.padded 2 n = cs.map byte ∧
      Nat.ofDigitChars 10 cs 0 = n := by
  refine ⟨List.replicate (2 - (Nat.toDigits 10 n).length) '0' ++ Nat.toDigits 10 n, ?_, by simp, ?_, ?_⟩
  · intro c hc
    rcases List.mem_append.1 hc with hc | hc
    · exact digit_of_mem_replicate hc
    · exact digit_of_mem_toDigits hc
  · rw [List.map_append, List.map_replicate]
    unfold Text.padded Text.ofNat
    dsimp only
    rw [List.length_map]
  · rw [Nat.ofDigitChars_append, Nat.ofDigitChars_replicate_zero, Nat.mul_zero,
      Nat.ofDigitChars_ten_toDigits]

/-- The exponent that is written is the exponent that is read. Its sign is always written, so that a plus
has to be taken off as well as a minus. -/
theorem readExponent?_padded (x : Int) (hx : x.natAbs < 10000) :
    readExponent? ((if x < 0 then byte '-' else byte '+') :: Text.padded 2 x.natAbs) = some (x, []) := by
  obtain ⟨cs, hdigits, hne, hpadded, hvalue⟩ := padded_chars x.natAbs
  have hread := readExponentDigits_digits hdigits (n := 0) (by rw [hvalue]; exact hx)
  rw [hvalue] at hread
  obtain ⟨c, rest, hcons⟩ := List.exists_cons_of_ne_nil hne
  have hhead := (byte_of_digit (hdigits c (by rw [hcons]; simp))).1
  have hunsigned : ∀ b : UInt8, b = byte '-' ∨ b = byte '+' →
      unsigned (b :: cs.map byte) = cs.map byte := by
    rintro b (rfl | rfl) <;> rfl
  rw [hpadded]
  unfold readExponent?
  dsimp only
  rw [hunsigned _ (by split_ifs <;> simp), hread, hcons, List.map_cons]
  dsimp only
  rw [if_pos hhead]
  by_cases hneg : x < 0
  · rw [if_pos hneg, List.head?_cons, if_pos (by decide), show -((x.natAbs : Nat) : Int) = x by omega]
  · rw [if_neg hneg, List.head?_cons, if_neg (by decide), show ((x.natAbs : Nat) : Int) = x by omega]

/-- A decimal written with an exponent has only the bytes of numbers: digits, a point, signs and the letter
of the exponent. -/
theorem numeric_scientificText (d : Decimal) : ∀ b ∈ scientificText d, isNumberByte b = true := by
  have hchars := numeric_map_byte d.chars_digit
  intro b hb
  unfold scientificText at hb
  simp only [List.mem_append] at hb
  -- the first digit, the other digits behind the point, the mark with the sign, and the exponent
  rcases hb with ((hb | hb) | hb) | hb
  · exact hchars b (List.mem_of_mem_take hb)
  · split_ifs at hb
    · cases hb
    · rcases List.mem_cons.1 hb with rfl | hb
      · decide
      · exact hchars b (List.mem_of_mem_drop hb)
  · simp only [List.mem_cons, List.not_mem_nil, or_false] at hb
    rcases hb with rfl | rfl
    · decide
    · split_ifs <;> decide
  · rcases List.mem_append.1 hb with hb | hb
    · rw [List.eq_of_mem_replicate hb]
      decide
    · exact numeric_map_byte (fun _ hc => digit_of_mem_toDigits hc) b hb

/-- One digit, the other ones behind a point, and the exponent. -/
theorem scientificText_eq {d : Decimal} {c : Char} {cs : List Char} (hchars : d.chars = c :: cs) :
    scientificText d = [c].map byte ++ ((if cs = [] then [] else byte '.' :: cs.map byte) ++
      (byte 'e' :: (if d.leading < 0 then byte '-' else byte '+') :: Text.padded 2 d.leading.natAbs)) := by
  unfold scientificText
  rw [hchars]
  cases cs <;> simp

/-- The digits behind the first one stand behind a point, if there are any. -/
theorem isPoint_of_digits (cs : List Char) :
    IsPoint (if cs = [] then [] else byte '.' :: cs.map byte) (cs.map byte) := by
  by_cases hempty : cs = []
  · rw [if_pos hempty, hempty]
    exact .inl ⟨rfl, rfl⟩
  · rw [if_neg hempty]
    exact .inr rfl

/-- A decimal written with an exponent is a numeral of itself. The exponent has to be one that the reader
does not cut off, and those of 64 bits are far below. -/
theorem reads_scientificText (d : Decimal) (hx : d.leading.natAbs < 10000) :
    Reads (scientificText d) d := by
  obtain ⟨c, cs, hchars⟩ := List.exists_cons_of_ne_nil d.chars_ne_nil
  have hdigits := d.chars_digit
  have hvalue := d.ofDigitChars_chars
  rw [hchars] at hdigits hvalue
  obtain ⟨hc, hcs⟩ := List.forall_mem_cons.1 hdigits
  have htext := scientificText_eq hchars
  rw [htext]
  refine reads_parts (List.forall_mem_singleton.2 hc) hcs (by simp) (isPoint_of_digits cs)
    (.inr ⟨byte 'e', by decide, rfl⟩) (fun b hb => ?_) (readExponent?_padded d.leading hx) ?_
  · refine numeric_scientificText d b ?_
    rw [htext]
    exact List.mem_append_right _ (List.mem_append_right _ hb)
  -- the point is moved by all digits but the first
  · have hleading : d.leading - cs.length = d.exponent := by
      rw [Decimal.leading, hchars, List.length_cons]
      omega
    rw [List.singleton_append, hvalue, hleading]

theorem reads_ofNat (n : Nat) : Reads (Text.ofNat n) ⟨n, 0⟩ :=
  reads_digits (fun _ hc => digit_of_mem_toDigits hc) Nat.toDigits_ne_nil
    (by rw [Nat.ofDigitChars_ten_toDigits]; simp [Decimal.value])

/-! ## Reading back -/

/-- A numeral with its sign is read as its decimal, in any of the forms of its value. Digits may be written
with more zeros or with another exponent, but the value is the same. -/
theorem Reads.readBinary {t : Text} {d : Decimal} (h : Reads t d) (f : Format) (s : Bool) :
    ∃ d' : Decimal, d'.value = d.value ∧
      Number.readBinary f (if s then byte '-' :: t else t) =
        match f.ofDecimal s d'.digits d'.exponent with
        | .infinite _ => .error .outOfRange
        | x => .ok x := by
  obtain ⟨⟨c, rest, rfl, hc⟩, hnumeric, m, x, hm, hx, hcount, hvalue⟩ := h
  obtain ⟨-, -, -, -, -, -, -, hplus, hminus⟩ := byte_of_digit hc
  have hunsigned : unsigned (if s then byte '-' :: byte c :: rest else byte c :: rest)
      = byte c :: rest := by
    cases s
    · exact if_neg (by simp [hplus, hminus])
    · rfl
  -- a numeral begins with a digit, so a minus in front can only be the sign
  have hsign : ((if s then byte '-' :: byte c :: rest else byte c :: rest).head? == some (byte '-'))
      = s := by
    cases s
    · simpa using hminus
    · rfl
  refine ⟨⟨m.value, x - m.places⟩, hvalue, ?_⟩
  rw [readBinary_of_numeric f, hunsigned, hsign, hm]
  · dsimp only
    rw [hx]
    dsimp only
    rw [if_neg (by simp [hcount.ne'])]
  · intro b hb
    cases s
    · exact hnumeric b hb
    · rcases List.mem_cons.1 hb with rfl | hb
      · decide
      · exact hnumeric b hb

/-- The text of a number without its sign. -/
def Layout.body (l : Layout) (f : Format) (mantissa : Nat) (exponent : Int) : Text :=
  let d := f.shortest mantissa exponent
  if l.positional d.leading then positionalText d else scientificText d

theorem Layout.write_finite (l : Layout) (f : Format) (s : Bool) (m : Nat) (e : Int) :
    l.write f (.finite s m e) = if s then byte '-' :: l.body f m e else l.body f m e := rfl

/-- Whatever the layout, a number is written with the bytes of numbers and at least one of them. -/
theorem Layout.body_numeric (l : Layout) (f : Format) (m : Nat) (e : Int) :
    l.body f m e ≠ [] ∧ ∀ b ∈ l.body f m e, isNumberByte b = true := by
  unfold Layout.body
  dsimp only
  split_ifs
  · obtain ⟨⟨c, rest, hcons, -⟩, hnumeric, -⟩ := reads_positionalText (f.shortest m e)
    exact ⟨hcons ▸ List.cons_ne_nil _ _, hnumeric⟩
  · exact ⟨by simp [scientificText], numeric_scientificText _⟩

/-- The text of a canonical number is a numeral of its shortest decimal. -/
theorem Layout.body_reads (l : Layout) {f : Format} (hf : f.Modest) {m : Nat} {e : Int}
    (hc : f.Canonical m e) : Reads (l.body f m e) (f.shortest m e) := by
  unfold Layout.body
  dsimp only
  split_ifs
  · exact reads_positionalText _
  · refine reads_scientificText _ ?_
    rcases Nat.eq_zero_or_pos m with rfl | hm
    · exact (by decide : (Decimal.mk 0 0).leading.natAbs < 10000)
    · obtain ⟨-, hlow, hhigh⟩ := (f.shortest_roundsTo hf hc hm).2.size_bounds hf hc hm
      rw [Decimal.leading]
      omega

/-- **Reading what was written.** In every layout the text of a canonical number is read as the
number. -/
theorem readBinary_write {f : Format} (hf : f.Modest) (l : Layout) (s : Bool) {m : Nat} {e : Int}
    (hc : f.Canonical m e) : readBinary f (l.write f (.finite s m e)) = .ok (.finite s m e) := by
  obtain ⟨d, hd, hread⟩ := (l.body_reads hf hc).readBinary f s
  rw [Layout.write_finite, hread]
  rcases Nat.eq_zero_or_pos m with rfl | hm
  · have hzero : d.value = 0 := hd.trans (by simp [Format.shortest, Decimal.value])
    rw [f.ofDecimal_zero s hzero, hc.exponent_of_zero]
  · rw [f.ofDecimal_eq hf hc hm s (hd ▸ (f.shortest_roundsTo hf hc hm).2)]

/-! ## Integers -/

/-- The integer that a number is, if it is one. -/
def Binary.integer? (x : Binary) : Option Int :=
  match x with
  | .finite _ m (.negSucc k) => if m % 2 ^ (k + 1) = 0 then x.truncate? else none
  | _ => x.truncate?

/-- Every positive integer up to `2 ^ 53` is a number of 64 bits. -/
theorem exists_canonical_double {n : Nat} (hn : 0 < n) (h : n ≤ 2 ^ 53) :
    ∃ m e, double.Canonical m e ∧ 0 < m ∧ (m : ℚ) * 2 ^ e = n := by
  rcases Nat.lt_or_eq_of_le h with hlt | rfl
  · -- shifted up until all the bits of the mantissa are used
    have hlog : n.log2 < 53 := (Nat.log2_lt hn.ne').2 hlt
    obtain ⟨b, hb⟩ : ∃ b, n.log2 + b = 52 := ⟨52 - n.log2, by omega⟩
    have hlow : 2 ^ n.log2 * 2 ^ b ≤ n * 2 ^ b := Nat.mul_le_mul_right _ (Nat.log2_self_le hn.ne')
    have hhigh : n * 2 ^ b < 2 ^ (n.log2 + 1) * 2 ^ b :=
      Nat.mul_lt_mul_of_pos_right Nat.lt_log2_self (Nat.pow_pos (by decide))
    rw [← Nat.pow_add, hb] at hlow
    rw [← Nat.pow_add, show n.log2 + 1 + b = 53 by omega] at hhigh
    refine ⟨n * 2 ^ b, -b, ⟨hhigh, ?_, ?_, .inl hlow⟩, by positivity, ?_⟩
    · show (-1074 : Int) ≤ _
      omega
    · show _ ≤ (971 : Int)
      omega
    · rw [zpow_neg, zpow_natCast]
      push_cast
      field_simp
  · exact ⟨2 ^ 52, 1, ⟨by decide, by decide, by decide, .inl (by decide)⟩, by decide, by norm_num⟩

/-- The number of an integer up to `2 ^ 53`, and what reads as it. -/
theorem ofInt_spec {n : Int} (h : n.natAbs ≤ 2 ^ 53) :
    ∃ m e, double.ofInt n = .finite (n < 0) m e ∧ double.Canonical m e ∧ (m : ℚ) * 2 ^ e = n.natAbs := by
  rcases Nat.eq_zero_or_pos n.natAbs with h0 | hpos
  · rw [Int.natAbs_eq_zero] at h0
    subst h0
    exact ⟨0, -1074, rfl, ⟨by decide, by decide, by decide, .inr rfl⟩, by simp⟩
  · obtain ⟨m, e, hc, hm, heq⟩ := exists_canonical_double hpos h
    refine ⟨m, e, ?_, hc, heq⟩
    refine double.round_eq double_modest.one_le hc hm _ Nat.one_pos ?_
    rw [Nat.cast_one, div_one, ← heq]
    exact .self

/-- **Integers are exact** up to `2 ^ 53` on both sides: the floating-point number of such an integer is the
integer again. All its bits have a place in the mantissa. -/
theorem integer?_ofInt {n : Int} (h : n.natAbs ≤ 2 ^ 53) : (double.ofInt n).integer? = some n := by
  obtain ⟨m, e, hn, -, heq⟩ := ofInt_spec h
  have hsigned : (if decide (n < 0) = true then -((n.natAbs : Nat) : Int) else (n.natAbs : Nat)) = n := by
    split_ifs with hneg <;> simp only [decide_eq_true_eq] at hneg <;> omega
  rw [hn]
  cases e with
  | ofNat k =>
    have hm : m * 2 ^ k = n.natAbs := by
      rw [Int.ofNat_eq_natCast, zpow_natCast] at heq
      exact_mod_cast heq
    show some (if decide (n < 0) = true then -((m : Int) * (2 ^ k : Nat)) else (m : Int) * (2 ^ k : Nat)) = _
    rw [← Int.natCast_mul, hm, hsigned]
  | negSucc k =>
    have hm : m = n.natAbs * 2 ^ (k + 1) := by
      rw [zpow_negSucc, mul_inv_eq_iff_eq_mul₀ (by positivity)] at heq
      exact_mod_cast heq
    have hdiv : ((m : Int) / ((2 ^ (k + 1) : Nat) : Int)) = (n.natAbs : Nat) := by
      rw [hm, ← Int.natCast_ediv, Nat.mul_div_cancel _ (Nat.pow_pos (by decide))]
    show (if m % 2 ^ (k + 1) = 0 then
      some (if decide (n < 0) = true then -((m : Int) / (2 ^ (k + 1) : Nat)) else (m : Int) / (2 ^ (k + 1) : Nat))
      else none) = _
    rw [hdiv, hsigned, if_pos (by rw [hm, Nat.mul_mod_left])]

/-- The digits of an integer up to `2 ^ 53` are read as its number. The decimal that they stand for is the
integer, and this lies in the interval of its own number. -/
theorem readBinary_ofInt {n : Int} (h : n.natAbs ≤ 2 ^ 53) :
    readBinary double (Text.ofInt n) = .ok (double.ofInt n) := by
  obtain ⟨m, e, hn, hc, heq⟩ := ofInt_spec h
  obtain ⟨d, hd, hread⟩ := (reads_ofNat n.natAbs).readBinary double (n < 0)
  have htext : Text.ofInt n
      = if decide (n < 0) = true then byte '-' :: Text.ofNat n.natAbs else Text.ofNat n.natAbs := by
    simp only [Text.ofInt, decide_eq_true_eq]
  have hvalue : d.value = m * 2 ^ e := by
    rw [hd, heq]
    simp [Decimal.value]
  rw [htext, hread, hn]
  rcases Nat.eq_zero_or_pos m with rfl | hm
  · rw [double.ofDecimal_zero _ (by simpa using hvalue), hc.exponent_of_zero]
  · rw [double.ofDecimal_eq double_modest hc hm _ (hvalue ▸ .self)]

/-! ## Numerals that have a place -/

/-- A numeral below the last power of two is read as some number of 64 bits. -/
theorem Reads.readBinary_double {t : Text} {d : Decimal} (h : Reads t d) (s : Bool)
    (hd : d.value < 2 ^ (1023 : Int)) :
    ∃ x, Number.readBinary double (if s then byte '-' :: t else t) = .ok x := by
  obtain ⟨d', hd', hread⟩ := h.readBinary double s
  obtain ⟨m, e, hfinite⟩ := double.ofDecimal_finite double_modest (by decide) s (hd'.trans_lt hd)
  rw [hread, hfinite]
  exact ⟨_, rfl⟩

/-- Words of up to 64 bits are read. -/
theorem readBinary_word {n : Int} (hn : n.natAbs < 2 ^ 64) :
    ∃ x, readBinary double (Text.ofInt n) = .ok x := by
  have hvalue : (Decimal.mk n.natAbs 0).value < 2 ^ (1023 : Int) := by
    have hword : ((n.natAbs : Nat) : ℚ) < 2 ^ (64 : Int) := by exact_mod_cast hn
    simp only [Decimal.value, zpow_zero, mul_one]
    exact hword.trans (zpow_lt_zpow_right₀ (by norm_num) (by norm_num))
  have hread := (reads_ofNat n.natAbs).readBinary_double (decide (n < 0)) hvalue
  simpa only [Text.ofInt, decide_eq_true_eq] using hread

theorem single_modest : single.Modest := by constructor <;> decide

/-- Numbers of 32 bits are read as numbers of 64 bits, in every layout. They are far from the largest ones
there, so reading does not overflow. -/
theorem readBinary_single (l : Layout) (s : Bool) {m : Nat} {e : Int} (hc : single.Canonical m e) :
    ∃ x, readBinary double (l.write single (.finite s m e)) = .ok x := by
  -- the shortest decimal lies below the next power of two
  have hvalue : (single.shortest m e).value < 2 ^ (1023 : Int) := by
    rcases Nat.eq_zero_or_pos m with rfl | hm
    · have hzero : (single.shortest 0 e).value = 0 := by simp [Format.shortest, Decimal.value]
      rw [hzero]
      positivity
    · have hbits : (single.precision : Int) + e ≤ 1023 := by
        have hgreatest := hc.le_greatest
        simp only [single] at hgreatest ⊢
        omega
      exact ((single.shortest_roundsTo single_modest hc hm).2.lt_next hc).trans_le
        (zpow_le_zpow_right₀ (by norm_num) hbits)
  rw [Layout.write_finite]
  exact (l.body_reads single_modest hc).readBinary_double s hvalue

end DocFilter.Number
