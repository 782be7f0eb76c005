import DocFilter.Proofs.Numerals

/-!
What a number says, exactly. The text of a number has a decimal value (`decimalValue`): its digits, moved by
the places behind its point and by its exponent, with its sign. A document that is stored again does not
keep this text. The number is read as one of 64 bits and written as the shortest decimal of what was read
(`Rewritten`), so its value is kept just if it is that shortest decimal itself (`Exact`,
`Rewritten.same_iff`). What was written in this way is exact, so no value is lost a second time
(`Rewritten.exact`).
-/

set_option autoImplicit false

namespace DocFilter.Number

open Text (byte isDigit)

/-! ## Decimal values -/

/-- The number that a row of digits writes. -/
def digitsValue (t : Text) : Nat := t.foldl (fun n b => 10 * n + (b.toNat - 0x30)) 0

/-- Whether a number has a minus sign. -/
def isNegative (t : Text) : Bool := t.head? == some (byte '-')

/-- A value with the sign of a number. -/
def signed (negative : Bool) (q : ℚ) : ℚ := if negative then -q else q

/-- The integer that digits with or without a sign write. -/
def integerValue (t : Text) : Int :=
  if isNegative t then -(digitsValue (unsigned t) : Int) else digitsValue (unsigned t)

/-- The exponent that a number is written with; zero if there is none. -/
def exponentOf (t : Text) : Int := integerValue (((unsigned t).dropWhile fun b => !isMark b).drop 1)

/-- The decimal value of a number: its digits without the point, moved by the exponent and by the places
behind the point. -/
def decimalValue (t : Text) : ℚ :=
  let mantissa := (unsigned t).takeWhile fun b => !isMark b
  let fraction := (mantissa.dropWhile fun b => b != byte '.').drop 1
  signed (isNegative t)
    (digitsValue (mantissa.filter fun b => b != byte '.') * 10 ^ (exponentOf t - fraction.length))

/-- The value of digits is the number that they are digits of. -/
theorem digitsValue_chars {cs : List Char} (hcs : ∀ c ∈ cs, c.isDigit = true) :
    digitsValue (cs.map byte) = Nat.ofDigitChars 10 cs 0 := by
  have hfold : ∀ n, (cs.map byte).foldl (fun n b => 10 * n + (b.toNat - 0x30)) n
      = Nat.ofDigitChars 10 cs n := by
    induction cs with
    | nil => exact fun n => rfl
    | cons c cs ih =>
      intro n
      obtain ⟨hc, hrest⟩ := List.forall_mem_cons.1 hcs
      obtain ⟨-, -, -, hvalue, -⟩ := byte_of_digit hc
      rw [List.map_cons, List.foldl_cons, Nat.ofDigitChars_cons, hvalue, ih hrest]
  exact hfold 0

/-- What a digit is not. -/
theorem not_of_isDigit (b : UInt8) : isDigit b = true →
    isMark b = false ∧ (b != byte '.') = true ∧ (b == byte '+' || b == byte '-') = false := by
  revert b
  exact Text.forall_byte (by decide +kernel)

section Parts

variable {whole point fraction tail exponent : Text} (hwhole : ∀ b ∈ whole, isDigit b = true)
  (hfraction : ∀ b ∈ fraction, isDigit b = true) (hpoint : IsPoint point fraction)
  (htail : IsMarked tail exponent)

include hwhole hfraction hpoint in
/-- The digits before and behind the point, found by way of the point. -/
theorem split_point : (whole ++ point).filter (fun b => b != byte '.') = whole ++ fraction ∧
    ((whole ++ point).dropWhile fun b => b != byte '.').drop 1 = fraction := by
  have hpos : ∀ {t : Text}, (∀ b ∈ t, isDigit b = true) → ∀ b ∈ t, (b != byte '.') = true :=
    fun ht b hb => (not_of_isDigit b (ht b hb)).2.1
  have hkept : whole.filter (fun b => b != byte '.') = whole := List.filter_eq_self.2 (hpos hwhole)
  rw [List.filter_append, hkept, List.dropWhile_append_of_pos (hpos hwhole)]
  rcases hpoint with ⟨rfl, rfl⟩ | rfl
  · exact ⟨rfl, rfl⟩
  · refine ⟨?_, rfl⟩
    rw [List.filter_cons_of_neg (by simp), List.filter_eq_self.2 (hpos hfraction)]

include hwhole hfraction hpoint htail in
/-- Mantissa and exponent, found by way of the mark between them. Digits and the point are no marks, so the
first mark is the one that was written. -/
theorem split_mark : (whole ++ point ++ tail).takeWhile (fun b => !isMark b) = whole ++ point ∧
    ((whole ++ point ++ tail).dropWhile fun b => !isMark b).drop 1 = exponent := by
  have hfront : ∀ b ∈ whole ++ point, (!isMark b) = true := by
    intro b hb
    rcases List.mem_append.1 hb with hb | hb
    · rw [(not_of_isDigit b (hwhole b hb)).1]
      rfl
    · rcases hpoint with ⟨rfl, rfl⟩ | rfl
      · cases hb
      · rcases List.mem_cons.1 hb with rfl | hb
        · decide
        · rw [(not_of_isDigit b (hfraction b hb)).1]
          rfl
  rw [List.takeWhile_append_of_pos hfront, List.dropWhile_append_of_pos hfront]
  rcases htail with ⟨rfl, rfl⟩ | ⟨mark, hmark, rfl⟩
  · exact ⟨List.append_nil _, rfl⟩
  · rw [List.takeWhile_cons_of_neg (by simp [hmark]), List.dropWhile_cons_of_neg (by simp [hmark])]
    exact ⟨List.append_nil _, rfl⟩

include hwhole in
/-- The sign of a number is taken off. A number begins with a digit otherwise, so a minus at the front is
the sign. -/
theorem unsigned_parts (hne : whole ≠ []) (point tail : Text) (negative : Bool) :
    unsigned (if negative then byte '-' :: (whole ++ point ++ tail) else whole ++ point ++ tail)
        = whole ++ point ++ tail ∧
      isNegative (if negative then byte '-' :: (whole ++ point ++ tail) else whole ++ point ++ tail)
        = negative := by
  cases negative with
  | true => exact ⟨rfl, rfl⟩
  | false =>
    -- the first byte is a digit, so it is no sign
    obtain ⟨b, rest, rfl⟩ := List.exists_cons_of_ne_nil hne
    obtain ⟨-, -, hsign⟩ := not_of_isDigit b (hwhole b List.mem_cons_self)
    rw [if_neg Bool.false_ne_true, List.cons_append, List.cons_append, unsigned, hsign, isNegative,
      List.head?_cons]
    rw [Bool.or_eq_false_iff] at hsign
    exact ⟨rfl, by simpa using hsign.2⟩

include hwhole hfraction hpoint htail in
/-- The exponent of a number that is put together from its parts. -/
theorem exponentOf_parts (hne : whole ≠ []) (negative : Bool) :
    exponentOf (if negative then byte '-' :: (whole ++ point ++ tail) else whole ++ point ++ tail)
      = integerValue exponent := by
  rw [exponentOf, (unsigned_parts hwhole hne point tail negative).1, (split_mark hwhole hfraction hpoint htail).2]

include hwhole hfraction hpoint htail in
/-- **The value of a number, part by part.** -/
theorem decimalValue_parts (hne : whole ≠ []) (negative : Bool) :
    decimalValue (if negative then byte '-' :: (whole ++ point ++ tail) else whole ++ point ++ tail)
      = signed negative
        (digitsValue (whole ++ fraction) * 10 ^ (integerValue exponent - fraction.length)) := by
  obtain ⟨hunsigned, hnegative⟩ := unsigned_parts hwhole hne point tail negative
  obtain ⟨hdigits, hplaces⟩ := split_point hwhole hfraction hpoint
  rw [decimalValue, exponentOf_parts hwhole hfraction hpoint htail hne, hunsigned, hnegative,
    (split_mark hwhole hfraction hpoint htail).1, hdigits, hplaces]

end Parts

/-! ## Written numbers -/

theorem isDigit_chars {cs : List Char} (hcs : ∀ c ∈ cs, c.isDigit = true) :
    ∀ b ∈ cs.map byte, isDigit b = true := by
  intro b hb
  obtain ⟨c, hc, rfl⟩ := List.mem_map.1 hb
  exact (byte_of_digit (hcs c hc)).1

/-- An exponent is written with its sign and at least two digits, and its value is the exponent. -/
theorem integerValue_exponent (x : Int) :
    integerValue ((if x < 0 then byte '-' else byte '+') :: Text.padded 2 x.natAbs) = x := by
  obtain ⟨cs, hcs, -, hpadded, hvalue⟩ := padded_chars x.natAbs
  have hdigits : digitsValue (Text.padded 2 x.natAbs) = x.natAbs := by
    rw [hpadded, digitsValue_chars hcs, hvalue]
  by_cases hx : x < 0
  · rw [if_pos hx]
    show -(digitsValue (Text.padded 2 x.natAbs) : Int) = x
    omega
  · rw [if_neg hx]
    show (digitsValue (Text.padded 2 x.natAbs) : Int) = x
    omega

/-- A decimal in positional layout has the value of the decimal. There is no exponent, so all is in the
place of the point. -/
theorem decimalValue_positional (d : Decimal) (s : Bool) :
    decimalValue (if s then byte '-' :: positionalText d else positionalText d) = signed s d.value := by
  obtain ⟨cs, ds, point, hcs, hds, hne, hpoint, htext, hvalue⟩ := positionalText_parts d
  have hparts := decimalValue_parts (isDigit_chars hcs) (isDigit_chars hds) hpoint (.inl ⟨rfl, rfl⟩)
    (by simpa using hne) s
  have hdigits : ∀ c ∈ cs ++ ds, c.isDigit = true := List.forall_mem_append.2 ⟨hcs, hds⟩
  rw [List.append_nil, ← List.map_append, digitsValue_chars hdigits, List.length_map] at hparts
  rw [htext, hparts, ← hvalue, Decimal.value]
  exact congrArg (fun p : Int => signed s (_ * 10 ^ p)) (zero_sub _)

/-- A decimal in scientific layout has the value of the decimal. The exponent that is written is the one of
its first digit, and the places behind the point make up for that. -/
theorem decimalValue_scientific (d : Decimal) (s : Bool) :
    decimalValue (if s then byte '-' :: scientificText d else scientificText d) = signed s d.value := by
  obtain ⟨c, cs, hchars⟩ := List.exists_cons_of_ne_nil d.chars_ne_nil
  have hdigits := d.chars_digit
  have hvalue := d.ofDigitChars_chars
  rw [hchars] at hdigits hvalue
  obtain ⟨hc, hcs⟩ := List.forall_mem_cons.1 hdigits
  have hmarked : IsMarked
      (byte 'e' :: (if d.leading < 0 then byte '-' else byte '+') :: Text.padded 2 d.leading.natAbs)
      ((if d.leading < 0 then byte '-' else byte '+') :: Text.padded 2 d.leading.natAbs) :=
    .inr ⟨byte 'e', by decide, rfl⟩
  have hparts := decimalValue_parts (isDigit_chars (List.forall_mem_singleton.2 hc)) (isDigit_chars hcs)
    (isPoint_of_digits cs) hmarked (by simp) s
  rw [integerValue_exponent, ← List.map_append, List.singleton_append, digitsValue_chars hdigits, hvalue,
    List.length_map, List.append_assoc] at hparts
  -- the point stands behind the first digit, so all others are places
  have hexponent : d.leading - cs.length = d.exponent := by
    rw [Decimal.leading, hchars, List.length_cons]
    omega
  rw [scientificText_eq hchars, hparts, hexponent]
  rfl

/-- **What is written has the value of the shortest decimal**, in every layout. -/
theorem decimalValue_write (l : Layout) (f : Format) (s : Bool) (m : Nat) (e : Int) :
    decimalValue (l.write f (.finite s m e)) = signed s (f.shortest m e).value := by
  rw [Layout.write_finite]
  unfold Layout.body
  dsimp only
  by_cases hpositional : l.positional (f.shortest m e).leading = true
  · rw [if_pos hpositional]
    exact decimalValue_positional _ s
  · rw [if_neg hpositional]
    exact decimalValue_scientific _ s

/-! ## Reading and writing again -/

/-- What becomes of the text of a number that is read and written: it is read as a number of 64 bits,
and the shortest decimal of this number is written. -/
def Rewritten (t t' : Text) : Prop :=
  ∃ s m e, double.Canonical m e ∧ readBinary double t = .ok (.finite s m e) ∧
    t' = Layout.interchange.write double (.finite s m e)

/-- A number is exact if its value is the shortest decimal of the number of 64 bits that it is read as. -/
def Exact (t : Text) : Prop :=
  ∃ s m e, readBinary double t = .ok (.finite s m e) ∧
    decimalValue t = signed s (double.shortest m e).value

namespace Rewritten

variable {t t' : Text}

/-- **A number that is read and written keeps its value just if it is exact.** -/
theorem same_iff (h : Rewritten t t') : decimalValue t = decimalValue t' ↔ Exact t := by
  obtain ⟨s, m, e, -, hread, rfl⟩ := h
  rw [decimalValue_write]
  constructor
  · intro hvalue
    exact ⟨s, m, e, hread, hvalue⟩
  · rintro ⟨s', m', e', hread', hvalue⟩
    rw [hread] at hread'
    cases hread'
    exact hvalue

/-- What is written is exact. -/
theorem exact (h : Rewritten t t') : Exact t' := by
  obtain ⟨s, m, e, hc, -, rfl⟩ := h
  exact ⟨s, m, e, readBinary_write double_modest _ s hc, decimalValue_write _ _ s m e⟩

end Rewritten

end DocFilter.Number
