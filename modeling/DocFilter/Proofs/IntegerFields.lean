import DocFilter.Proofs.Truth
import DocFilter.Rows.Record
import Mathlib.Data.Int.ModEq

/-!
Integers in the fields of records. A value is coerced to a word of 64 bits, signed or unsigned as the
field is, and the field keeps as many low bits of it as it has. Nothing looks whether the other bits
matter: a field of 8, 16 or 32 bits stores another integer whenever the one it was given has no place
in it, and decoding goes on (`decodeRows_keeps_low_bits`). A field of 64 bits stores what the value
was coerced to; but the coercion itself wraps an integer, and replaces a floating-point number,
beyond 64 bits.

What a field is filled from is settled place by place. Decoding succeeds just if every place of
every row can be filled, and its error is that of a place that cannot.
-/

set_option autoImplicit false

namespace DocFilter

/-! ## Words -/

namespace IntType

/-- Whether an integer lies between the least and the greatest word of the type. -/
def Fits (ty : IntType) (n : Int) : Prop :=
  if ty.isSigned then -2 ^ (ty.bits - 1) ≤ n ∧ n < 2 ^ (ty.bits - 1) else 0 ≤ n ∧ n < 2 ^ ty.bits

instance (ty : IntType) (n : Int) : Decidable (ty.Fits n) := by
  unfold Fits
  infer_instance

theorem two_pow_bits (ty : IntType) : (2 : Int) ^ ty.bits = 2 * 2 ^ (ty.bits - 1) := by
  cases ty <;> rfl

theorem cast_two_pow_bits (ty : IntType) : ((Nat.pow 2 ty.bits : Nat) : Int) = 2 ^ ty.bits :=
  Int.natCast_pow 2 ty.bits

/-- Keeping the low bits of an integer gives one that fits, with or without a sign. -/
theorem fits_wrap (ty : IntType) (n : Int) : ty.Fits (ty.wrap n) := by
  have hpos : 0 < Nat.pow 2 ty.bits := Nat.pow_pos (by decide)
  have hcast := cast_two_pow_bits ty
  have hhalf := two_pow_bits ty
  unfold Fits wrap
  by_cases hsigned : ty.isSigned
  · rw [if_pos hsigned, if_pos hsigned]
    have hlow := Int.le_bmod (x := n) hpos
    have hhigh := Int.bmod_lt (x := n) hpos
    omega
  · rw [if_neg hsigned, if_neg hsigned, ← hcast]
    have hne : ((Nat.pow 2 ty.bits : Nat) : Int) ≠ 0 := by omega
    exact ⟨Int.emod_nonneg n hne, Int.emod_lt_of_pos n (by omega)⟩

/-- A word has the low bits of the integer that it was made from. -/
theorem wrap_modEq (ty : IntType) (n : Int) : ty.wrap n ≡ n [ZMOD 2 ^ ty.bits] := by
  rw [← cast_two_pow_bits]
  unfold wrap
  by_cases hsigned : ty.isSigned
  · rw [if_pos hsigned]
    exact Int.bmod_emod
  · rw [if_neg hsigned]
    exact Int.mod_modEq n _

/-- An integer that fits keeps its value. With `fits_wrap` this characterises the integers that a type
stores unchanged. -/
theorem wrap_of_fits {ty : IntType} {n : Int} (h : ty.Fits n) : ty.wrap n = n := by
  have hcast := cast_two_pow_bits ty
  have hhalf := two_pow_bits ty
  unfold Fits at h
  unfold wrap
  by_cases hsigned : ty.isSigned
  · rw [if_pos hsigned] at h ⊢
    exact Int.bmod_eq_of_le_mul_two (by omega) (by omega)
  · rw [if_neg hsigned] at h ⊢
    exact Int.emod_eq_of_lt h.1 (by omega)

/-- An integer is its own word just if it has a place in the type. -/
theorem wrap_eq_self_iff (ty : IntType) (n : Int) : ty.wrap n = n ↔ ty.Fits n := by
  constructor
  · intro h
    rw [← h]
    exact fits_wrap ty n
  · exact wrap_of_fits

/-- The type of 64 bits with a sign if the type has one. -/
def wide (ty : IntType) : IntType := if ty.isSigned then .int64 else .uint64

theorem fits_wide_iff (ty : IntType) (n : Int) :
    ty.wide.Fits n ↔ if ty.isSigned then -2 ^ 63 ≤ n ∧ n < 2 ^ 63 else 0 ≤ n ∧ n < 2 ^ 64 := by
  cases ty <;> rfl

/-- What fits into a type fits into 64 bits with the same sign. -/
theorem Fits.wide {ty : IntType} {n : Int} (h : ty.Fits n) : ty.wide.Fits n := by
  revert h
  cases ty <;> simp [Fits, IntType.wide, isSigned, bits] <;> omega

/-- A type of 64 bits is as wide as can be, so that everything coerced to its sign fits. -/
theorem fits_of_wide {ty : IntType} (hbits : ty.bits = 64) {n : Int} (h : ty.wide.Fits n) :
    ty.Fits n := by
  rw [fits_wide_iff] at h
  rw [Fits, hbits]
  exact h

end IntType

/-! ## Coercion -/

namespace Number

/-- The digits that are read never exceed the limit. The reader checks after every digit, and the induction
carries the bound of the value so far. -/
theorem readDigits_le {base limit : Nat} {underscores : Bool} {t : Text} {soFar n : Nat}
    (hstart : soFar ≤ limit) (h : readDigits base limit underscores soFar t = .ok n) : n ≤ limit := by
  induction t generalizing soFar with
  | nil =>
    obtain rfl := Except.ok.inj h
    exact hstart
  | cons b t ih =>
    rw [readDigits] at h
    split at h
    · exact ih hstart h
    split at h
    · cases h
    split at h
    · cases h
    split at h
    · cases h
    · next hlimit => exact ih (Nat.not_lt.mp hlimit) h

theorem readPrefixedNat_le {limit n : Nat} {t : Text} (h : readPrefixedNat limit t = .ok n) :
    n ≤ limit := by
  -- Whichever digits are read, the check of the underscores changes nothing about their number.
  have hread : ∀ {base : Nat} {digits : Text}, (do
      let m ← readDigits base limit true 0 digits
      if t.contains (Text.byte '_') && !underscoresOk t then .error .malformed
      return m) = .ok n → n ≤ limit := by
    intro base digits hread
    obtain ⟨m, hm, hread⟩ := bind_eq_ok hread
    dsimp only at hread
    split at hread
    · cases hread
    · obtain rfl := Except.ok.inj hread
      exact readDigits_le (Nat.zero_le _) hm
  unfold readPrefixedNat at h
  dsimp only at h
  split at h
  · cases h
  · split at h
    · split at h
      · exact hread h
      · exact hread h
    · exact hread h
  · exact hread h

/-- A signed numeral is refused beyond 64 bits, the lower end included: its largest absolute value depends
on the sign. -/
theorem readSigned_range {read : Text → Except NumeralError Nat} {t : Text} {n : Int}
    (h : readSigned read t = .ok n) : -2 ^ 63 ≤ n ∧ n < 2 ^ 63 := by
  unfold readSigned at h
  dsimp only at h
  split at h
  · cases h
  split at h
  -- the bound of the negative numbers, and below that of the others
  · split at h
    · cases h
    · obtain rfl := Except.ok.inj h
      omega
  · split at h
    · cases h
    · obtain rfl := Except.ok.inj h
      omega

namespace Binary

/-- A floating-point number is cut to a signed word, whatever it is: what has no place there becomes the
least word, also if it is too large or no number. -/
theorem toInt64_range (x : Binary) : -2 ^ 63 ≤ x.toInt64 ∧ x.toInt64 < 2 ^ 63 := by
  have hleast : leastWord = -2 ^ 63 := rfl
  unfold toInt64
  split
  · split
    · next h =>
      simp only [Bool.and_eq_true, decide_eq_true_eq] at h
      omega
    · decide
  · decide

theorem toUInt64_lt (x : Binary) : x.toUInt64 < 2 ^ 64 := by
  unfold toUInt64
  split
  · split
    · omega
    split
    · omega
    · decide
  · split <;> decide

/-- A number whose integral part is a signed word of 64 bits becomes that word. -/
theorem toInt64_of_truncate? {x : Binary} {n : Int} (hx : x.truncate? = some n)
    (hn : -2 ^ 63 ≤ n ∧ n < 2 ^ 63) : x.toInt64 = n := by
  have hleast : leastWord = -2 ^ 63 := rfl
  unfold toInt64
  rw [hx]
  dsimp only
  rw [if_pos]
  simp only [Bool.and_eq_true, decide_eq_true_eq]
  omega

/-- A number whose integral part is an unsigned word of 64 bits becomes that word. -/
theorem toUInt64_of_truncate? {x : Binary} {n : Int} (hx : x.truncate? = some n)
    (hn : 0 ≤ n ∧ n < 2 ^ 64) : (x.toUInt64 : Int) = n := by
  unfold toUInt64
  rw [hx]
  dsimp only
  by_cases hsmall : n < 2 ^ 63
  · rw [if_pos (by simpa [leastWord] using hsmall), toInt64_of_truncate? hx ⟨by omega, hsmall⟩]
    omega
  · rw [if_neg (by simpa [leastWord] using hsmall), if_pos (by omega)]
    omega

end Binary
end Number

namespace Value

/-- The word of 64 bits that a value is coerced to for a field. -/
def toWord (ty : IntType) (v : Value) : Except CoerceError Int :=
  if ty.isSigned then v.toInt64 else v.toUInt64

/-- A value that is coerced to a signed word is one: integers beyond 64 bits wrap around, floating-point
numbers are cut, and numerals beyond 64 bits are refused. -/
theorem toInt64_range {v : Value} {n : Int} (h : v.toInt64 = .ok n) : -2 ^ 63 ≤ n ∧ n < 2 ^ 63 := by
  unfold toInt64 at h
  dsimp only at h
  split at h
  · obtain rfl := Except.ok.inj h
    decide
  · next b _ =>
    obtain rfl := Except.ok.inj h
    cases b <;> decide
  · obtain rfl := Except.ok.inj h
    exact IntType.fits_wrap .int64 _
  · obtain rfl := Except.ok.inj h
    exact Number.Binary.toInt64_range _
  · split at h
    · cases h
    split at h
    · obtain rfl := Except.ok.inj h
      decide
    split at h
    · next hread =>
      obtain rfl := Except.ok.inj h
      exact Number.readSigned_range hread
    · cases h

/-- A value that is coerced to an unsigned word is one. Negative numbers are refused, and integers beyond 64
bits wrap around. -/
theorem toUInt64_range {v : Value} {n : Int} (h : v.toUInt64 = .ok n) : 0 ≤ n ∧ n < 2 ^ 64 := by
  unfold toUInt64 at h
  dsimp only at h
  split at h
  · obtain rfl := Except.ok.inj h
    decide
  · next b _ =>
    obtain rfl := Except.ok.inj h
    cases b <;> decide
  · split at h
    · cases h
    · obtain rfl := Except.ok.inj h
      exact IntType.fits_wrap .uint64 _
  · next x _ =>
    split at h
    · cases h
    · obtain rfl := Except.ok.inj h
      have := Number.Binary.toUInt64_lt x
      omega
  · split at h
    · cases h
    split at h
    · obtain rfl := Except.ok.inj h
      decide
    split at h
    · next hread =>
      obtain rfl := Except.ok.inj h
      have := Number.readPrefixedNat_le hread
      simp only [Number.maxUInt64] at this
      omega
    · cases h

/-- What a value is coerced to is a word of 64 bits. -/
theorem fits_wide_of_toWord {ty : IntType} {v : Value} {n : Int} (h : v.toWord ty = .ok n) :
    ty.wide.Fits n := by
  rw [IntType.fits_wide_iff]
  unfold toWord at h
  by_cases hsigned : ty.isSigned
  · rw [if_pos hsigned] at h ⊢
    exact toInt64_range h
  · rw [if_neg hsigned] at h ⊢
    exact toUInt64_range h

/-- The integer of a number: itself, or what is left when its fraction is dropped. -/
def whole? : Value → Option Int
  | .int _ n => some n
  | .float _ x => x.truncate?
  | _ => none

/-- If a value is a whole number of 64 bits, the coercion is this number, whichever of its types the value
has. -/
theorem toInt64_of_whole? {v : Value} {whole n : Int} (hwhole : v.resolved.whole? = some whole)
    (hrange : -2 ^ 63 ≤ whole ∧ whole < 2 ^ 63) (h : v.toInt64 = .ok n) : n = whole := by
  rw [toInt64] at h
  cases hv : v.resolved with
  | int ty m =>
    rw [hv] at h hwhole
    obtain rfl := Option.some.inj hwhole
    obtain rfl := Except.ok.inj h
    -- wrapping changes nothing within the range
    have hfits : IntType.int64.Fits m := hrange
    exact IntType.wrap_of_fits hfits
  | float ty x =>
    rw [hv] at h hwhole
    obtain rfl := Except.ok.inj h
    exact Number.Binary.toInt64_of_truncate? hwhole hrange
  | _ => rw [hv] at hwhole; cases hwhole

/-- The same for unsigned words, from zero on. Negative numbers are refused, and within the range nothing
wraps around. -/
theorem toUInt64_of_whole? {v : Value} {whole n : Int} (hwhole : v.resolved.whole? = some whole)
    (hrange : 0 ≤ whole ∧ whole < 2 ^ 64) (h : v.toUInt64 = .ok n) : n = whole := by
  rw [toUInt64] at h
  cases hv : v.resolved with
  | int ty m =>
    rw [hv] at h hwhole
    obtain rfl := Option.some.inj hwhole
    dsimp only at h
    rw [if_neg (by omega)] at h
    obtain rfl := Except.ok.inj h
    have hfits : IntType.uint64.Fits m := hrange
    exact IntType.wrap_of_fits hfits
  | float ty x =>
    rw [hv] at h hwhole
    dsimp only at h
    split at h
    · cases h
    · obtain rfl := Except.ok.inj h
      exact Number.Binary.toUInt64_of_truncate? hwhole hrange
  | _ => rw [hv] at hwhole; cases hwhole

/-- A number whose integer has a place in the field is coerced to this integer. -/
theorem toWord_of_whole? {ty : IntType} {v : Value} {whole n : Int}
    (hwhole : v.resolved.whole? = some whole) (hfits : ty.Fits whole) (h : v.toWord ty = .ok n) :
    n = whole := by
  have hwide := hfits.wide
  rw [IntType.fits_wide_iff] at hwide
  unfold toWord at h
  by_cases hsigned : ty.isSigned
  · rw [if_pos hsigned] at h hwide
    exact toInt64_of_whole? hwhole hwide h
  · rw [if_neg hsigned] at h hwide
    exact toUInt64_of_whole? hwhole hwide h

end Value

/-! ## Places of a record -/

/-- A computation over a list that succeeds has succeeded at every place, and the results stand in the
places of what they were computed from. -/
theorem getElem?_of_mapM {ε α β : Type} {f : α → Except ε β} {xs : List α} {ys : List β}
    (h : xs.mapM f = .ok ys) {i : Nat} {x : α} (hx : xs[i]? = some x) :
    ∃ y, f x = .ok y ∧ ys[i]? = some y := by
  induction xs generalizing ys i with
  | nil => simp at hx
  | cons x' xs ih =>
    rw [List.mapM_cons] at h
    obtain ⟨y', hy', h⟩ := bind_eq_ok h
    obtain ⟨ys', hys', h⟩ := bind_eq_ok h
    obtain rfl := Except.ok.inj h
    cases i with
    | zero =>
      obtain rfl := Option.some.inj hx
      exact ⟨y', hy', rfl⟩
    | succ i => exact ih hys' hx

/-- A computation over a list that fails has failed at some element. -/
theorem exists_of_mapM_error {ε α β : Type} {f : α → Except ε β} {xs : List α} {e : ε}
    (h : xs.mapM f = .error e) : ∃ x ∈ xs, f x = .error e := by
  induction xs with
  | nil => cases h
  | cons x xs ih =>
    rw [List.mapM_cons] at h
    rcases bind_eq_error h with hx | ⟨y, -, h⟩
    · exact ⟨x, List.mem_cons_self, hx⟩
    rcases bind_eq_error h with hxs | ⟨ys, -, h⟩
    · obtain ⟨x', hmem, hx'⟩ := ih hxs
      exact ⟨x', List.mem_cons_of_mem _ hmem, hx'⟩
    · cases h

namespace FieldSpec

/-- The key and the value that a field is filled from; nothing under its key is as no key. -/
def source? (spec : FieldSpec) (row : Row) : Option (Text × Value) :=
  spec.key.bind fun key => ((row.get? key).filter (!·.isNull)).map (key, ·)

/-- What a field is filled with from a row. -/
def fill (spec : FieldSpec) (index : Nat) (row : Row) : Except DecodeError Datum :=
  (spec.source? row).elim (.ok spec.shape.zero) fun s =>
    (assign spec.shape s.2).mapError (.field index s.1)

end FieldSpec

/-- The fields of a record are filled one by one, and the first that cannot be filled decides. -/
theorem decodeFields_cons (index : Nat) (row : Row) (spec : FieldSpec) (specs : List FieldSpec) :
    decodeFields index row (spec :: specs) = do
      let d ← spec.fill index row
      let more ← decodeFields index row specs
      return (spec.name, d) :: more := by
  rw [decodeFields, FieldSpec.fill, FieldSpec.source?]
  cases spec.key with
  | none => rfl
  | some key =>
    dsimp only [Option.bind_some]
    cases row.get? key with
    | none => rfl
    | some v => cases v <;> rfl

/-- Filling the fields of a record, as a function on the list of fields. -/
theorem decodeFields_eq (index : Nat) (row : Row) (specs : List FieldSpec) :
    decodeFields index row specs = specs.mapM fun spec => (spec.fill index row).map (spec.name, ·) := by
  induction specs with
  | nil => rfl
  | cons spec specs ih =>
    rw [decodeFields_cons, List.mapM_cons, ← ih]
    cases spec.fill index row <;> rfl

/-- Decoding rows, as a function on the list of rows with their numbers. The numbers are needed for the
errors only. -/
theorem decodeRecords_eq (fields : List FieldSpec) (index : Nat) (rows : List (Option Row)) :
    decodeRecords fields index rows
      = (rows.zipIdx index).mapM fun e => decodeFields e.2 (e.1.getD []) fields := by
  induction rows generalizing index with
  | nil => rfl
  | cons row rows ih =>
    rw [decodeRecords, List.zipIdx_cons, List.mapM_cons, ih]

/-- Every place of every row is filled, if decoding succeeds, with what the field makes of the row. Rows are
numbered as they come, and a missing row counts as an empty one. -/
theorem decodeRows_filled {fields : List FieldSpec} {rows : List (Option Row)} {decoded : Decoded}
    (h : decodeRows (.record fields) rows = .ok decoded) {i j : Nat} {row : Option Row}
    {spec : FieldSpec} (hrow : rows[i]? = some row) (hspec : fields[j]? = some spec) :
    ∃ records record d, decoded = .records records ∧ records[i]? = some record ∧
      record[j]? = some (spec.name, d) ∧ spec.fill i (row.getD []) = .ok d := by
  obtain ⟨records, hrecords, h⟩ := bind_eq_ok h
  obtain rfl := Except.ok.inj h
  rw [decodeRecords_eq] at hrecords
  have hplace : rows.zipIdx[i]? = some (row, i) := by simp [List.getElem?_zipIdx, hrow]
  obtain ⟨record, hrecord, hi⟩ := getElem?_of_mapM hrecords hplace
  rw [decodeFields_eq] at hrecord
  obtain ⟨entry, hentry, hj⟩ := getElem?_of_mapM hrecord hspec
  obtain ⟨d, hd, rfl⟩ := map_eq_ok_iff.mp hentry
  exact ⟨records, record, d, rfl, hi, hj, hd⟩

/-- If decoding fails, it is with the error of a place that cannot be filled. -/
theorem decodeRows_unfilled {fields : List FieldSpec} {rows : List (Option Row)} {e : DecodeError}
    (h : decodeRows (.record fields) rows = .error e) :
    ∃ i row spec, rows[i]? = some row ∧ spec ∈ fields ∧ spec.fill i (row.getD []) = .error e := by
  have hrecords : decodeRecords fields 0 rows = .error e := by
    rcases bind_eq_error h with hrecords | ⟨records, -, h⟩
    · exact hrecords
    · cases h
  rw [decodeRecords_eq] at hrecords
  obtain ⟨⟨row, i⟩, hplace, hrecord⟩ := exists_of_mapM_error hrecords
  rw [decodeFields_eq] at hrecord
  obtain ⟨spec, hspec, hfill⟩ := exists_of_mapM_error hrecord
  exact ⟨i, row, spec, List.mem_zipIdx_iff_getElem?.mp hplace, hspec, map_eq_error_iff.mp hfill⟩

/-! ## Integer fields -/

namespace FieldSpec

/-- An integer field takes the word that its value is coerced to, and keeps the low bits. -/
theorem assign_int (ty : IntType) (v : Value) :
    assign (.int ty) v = ((v.toWord ty).mapError .coerce).map fun n => .int (ty.wrap n) := by
  rw [assign, Value.toWord]
  by_cases hsigned : ty.isSigned
  · rw [if_pos hsigned, if_pos hsigned]
    cases v.toInt64 <;> rfl
  · rw [if_neg hsigned, if_neg hsigned]
    cases v.toUInt64 <;> rfl

/-- An integer field whose value is coerced to an integer is filled with its low bits. -/
theorem fill_int {spec : FieldSpec} {ty : IntType} {key : Text} {v : Value} {n : Int}
    (hshape : spec.shape = .int ty) (hkey : spec.key = some key) {row : Row}
    (hv : row.get? key = some v) (hn : v.toWord ty = .ok n) (index : Nat) :
    spec.fill index row = .ok (.int (ty.wrap n)) := by
  rw [fill, source?, hkey, Option.bind_some, hv, hshape]
  by_cases hnull : v = .null
  · -- nothing leaves the field at zero, which is what it would be coerced to
    have hzero : n = 0 := by
      rw [hnull, Value.toWord] at hn
      split at hn <;> exact (Except.ok.inj hn).symm
    rw [hnull, hzero, IntType.wrap_of_fits (by cases ty <;> decide)]
    rfl
  · have hkeep : (some v).filter (!·.isNull) = some v := by
      cases v with
      | null => exact absurd rfl hnull
      | _ => rfl
    rw [hkeep, Option.map_some, Option.elim_some, assign_int, hn]
    rfl

/-- A place that cannot be filled has a value that cannot be put into it. The error names the number of the
row and the key of the field; a value that is absent is no error. -/
theorem assign_of_fill_error {spec : FieldSpec} {index : Nat} {row : Row} {e : DecodeError}
    (h : spec.fill index row = .error e) :
    ∃ key v cause, spec.key = some key ∧ row.get? key = some v ∧
      assign spec.shape v = .error cause ∧ e = .field index key cause := by
  rw [fill] at h
  cases hsource : spec.source? row with
  | none =>
    rw [hsource] at h
    cases h
  | some s =>
    rw [hsource, Option.elim_some] at h
    obtain ⟨key, hkey, hvalue⟩ := Option.bind_eq_some_iff.mp hsource
    obtain ⟨v, hv, rfl⟩ := Option.map_eq_some_iff.mp hvalue
    obtain ⟨cause, hassign, hcause⟩ := mapError_eq_error_iff.mp h
    exact ⟨key, v, cause, hkey, (Option.filter_eq_some_iff.mp hv).1, hassign, hcause.symm⟩

end FieldSpec

/-- What decoding does with a value that is coerced to the integer `n` for an integer field. If it
succeeds, the field has the low bits of `n`, which are `n` just if `n` has a place in the field, as
it always has in one of 64 bits; and for a number, they are its integer just if that has a place
there. If it fails, then with the row and the key of a field whose value cannot be put into it, and
an integer field is such only if its value cannot be coerced, never because the integer is too
large. -/
theorem decodeRows_keeps_low_bits (fields : List FieldSpec) (rows : List (Option Row)) {i j : Nat}
    {row : Option Row} {spec : FieldSpec} {ty : IntType} {key : Text} {v : Value} {n : Int}
    (hrow : rows[i]? = some row) (hspec : fields[j]? = some spec) (hshape : spec.shape = .int ty)
    (hkey : spec.key = some key) (hv : (row.getD []).get? key = some v) (hn : v.toWord ty = .ok n) :
    (∀ decoded, decodeRows (.record fields) rows = .ok decoded →
      ∃ records record m, decoded = .records records ∧ records[i]? = some record ∧
        record[j]? = some (spec.name, .int m) ∧
        ty.Fits m ∧ m ≡ n [ZMOD 2 ^ ty.bits] ∧ (m = n ↔ ty.Fits n) ∧ (ty.bits = 64 → m = n) ∧
        ∀ whole, v.resolved.whole? = some whole → (m = whole ↔ ty.Fits whole)) ∧
    (∀ e, decodeRows (.record fields) rows = .error e →
      ∃ i' row' spec' key' v' cause, rows[i']? = some row' ∧ spec' ∈ fields ∧
        spec'.key = some key' ∧ (row'.getD []).get? key' = some v' ∧
        FieldSpec.assign spec'.shape v' = .error cause ∧ e = .field i' key' cause ∧
        ∀ ty', spec'.shape = .int ty' → ∃ reason, v'.toWord ty' = .error reason) := by
  constructor
  -- success: the place is filled with the integer, wrapped around
  · intro decoded hdecoded
    obtain ⟨records, record, d, hrecords, hi, hj, hd⟩ := decodeRows_filled hdecoded hrow hspec
    rw [FieldSpec.fill_int hshape hkey hv hn] at hd
    obtain rfl := Except.ok.inj hd
    refine ⟨records, record, ty.wrap n, hrecords, hi, hj, ty.fits_wrap n, ty.wrap_modEq n,
      ty.wrap_eq_self_iff n, ?_, ?_⟩
    · intro hbits
      exact IntType.wrap_of_fits (IntType.fits_of_wide hbits (Value.fits_wide_of_toWord hn))
    · intro whole hwhole
      constructor
      · intro hsame
        rw [← hsame]
        exact ty.fits_wrap n
      · intro hfits
        rw [Value.toWord_of_whole? hwhole hfits hn]
        exact IntType.wrap_of_fits hfits
  -- failure: some place could not be filled, and an integer only for want of a coercion
  · intro e he
    obtain ⟨i', row', spec', hrow', hspec', hfill⟩ := decodeRows_unfilled he
    obtain ⟨key', v', cause, hkey', hv', hassign, rfl⟩ := FieldSpec.assign_of_fill_error hfill
    refine ⟨i', row', spec', key', v', cause, hrow', hspec', hkey', hv', hassign, rfl, ?_⟩
    intro ty' hshape'
    rw [hshape', FieldSpec.assign_int, map_eq_error_iff, mapError_eq_error_iff] at hassign
    obtain ⟨reason, hreason, -⟩ := hassign
    exact ⟨reason, hreason⟩

/-- A field of eight bits. -/
def levelField : FieldSpec := ⟨"Level", some "level", .int .int8⟩

/-- The level 300 has no place in eight bits, and decoding succeeds with another level. No error is
reported. -/
theorem highLevel_becomes_another :
    ¬IntType.int8.Fits 300 ∧
    ∃ records record m,
      decodeRows (.record [levelField]) [some [(Text.ofString "level", .int .int 300)]] = .ok (.records records) ∧
      records[0]? = some record ∧ record[0]? = some (levelField.name, .int m) ∧
      IntType.int8.Fits m ∧ m ≡ 300 [ZMOD 2 ^ 8] ∧ m ≠ 300 := by
  have hlevel : ¬IntType.int8.Fits 300 := by decide
  have hdecoded : decodeRows (.record [levelField]) [some [(Text.ofString "level", .int .int 300)]]
      = .ok (.records [[(levelField.name, .int 44)]]) := rfl
  obtain ⟨records, record, m, hrecords, hrow, hfield, hfits, hsame, hexact, -⟩ :=
    (decodeRows_keeps_low_bits [levelField] [some [(Text.ofString "level", .int .int 300)]] (i := 0)
      (j := 0) (n := 300) rfl rfl rfl rfl rfl rfl).1 _ hdecoded
  rw [hrecords] at hdecoded
  exact ⟨hlevel, records, record, m, hdecoded, hrow, hfield, hfits, hsame, fun h => hlevel (hexact.mp h)⟩

end DocFilter
