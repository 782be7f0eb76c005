import DocFilter.Text.Utf8
import Mathlib.Data.List.Basic

/-!
Characters and bytes. Decoding a text and writing its pieces out again gives the text
(`pieces_bytes`), and decoding written characters gives the characters (`pieces_ofChars`). So a text
that is UTF-8 needs no repair, and a repaired text is UTF-8.
-/

set_option autoImplicit false

namespace DocFilter.Text

/-! ## Bytes of a character -/

/-- What holds of the 256 numbers of bytes holds of all bytes. Statements on single bytes are decided in
this way. -/
theorem forall_byte {p : UInt8 → Prop} (h : ∀ n : Fin 256, p (UInt8.ofNat n)) (b : UInt8) : p b := by
  have hb := h ⟨b.toNat, b.toNat_lt⟩
  rwa [UInt8.ofNat_toNat] at hb

theorem toNat_ofNat_byte {n : Nat} (hn : n < 256) : (UInt8.ofNat n).toNat = n :=
  UInt8.toNat_ofNat_of_lt hn

/-- A continuation byte is one from 128 to below 192. -/
theorem continuation?_eq (b : UInt8) :
    continuation? b = if 128 ≤ b.toNat ∧ b.toNat < 192 then some (b.toNat - 128) else none := by
  revert b
  exact forall_byte (by decide +kernel)

/-- A byte with a number from 128 to 191 continues a character, with its lower six bits. -/
theorem continuation?_ofNat {x : Nat} (hx : x < 64) :
    continuation? (UInt8.ofNat (x + 128)) = some x := by
  rw [continuation?_eq, toNat_ofNat_byte (by omega), if_pos (by omega), Nat.add_sub_cancel]

/-- A byte that continues a character is determined by its six bits. -/
theorem eq_of_continuation? {b : UInt8} {x : Nat} (h : continuation? b = some x) :
    x < 64 ∧ b = UInt8.ofNat (x + 128) := by
  rw [continuation?_eq] at h
  split at h
  · next hb =>
    have hx : b.toNat - 128 = x := Option.some.inj h
    refine ⟨by omega, ?_⟩
    rw [← hx, Nat.sub_add_cancel hb.1, UInt8.ofNat_toNat]
  · cases h

theorem leading?_one {x : Nat} (hx : x < 128) (rest : Text) :
    leading? (UInt8.ofNat x) rest = some (Char.ofNat x, 0) := by
  simp only [leading?, UInt8.lt_iff_toNat_lt, toNat_ofNat_byte (show x < 256 by omega)]
  rw [if_pos (by exact hx)]

/-- A character of two bytes. The first byte is at least 194, as smaller ones would spell characters that
have one byte. -/
theorem leading?_two {x y : Nat} (hx : 2 ≤ x) (hx' : x < 32) (hy : y < 64) (rest : Text) :
    leading? (UInt8.ofNat (x + 192)) (UInt8.ofNat (y + 128) :: rest)
      = some (Char.ofNat (x * 64 + y), 1) := by
  simp only [leading?, UInt8.lt_iff_toNat_lt, toNat_ofNat_byte (show x + 192 < 256 by omega),
    continuation?_ofNat hy]
  have hmod : (x + 192) % 32 = x := by omega
  rw [if_neg (by simp), if_neg (by simp; omega), if_pos (by simp; omega), hmod]
  rfl

/-- A character of three bytes, unless the number is small enough for two or belongs to the surrogates,
which are no characters. -/
theorem leading?_three {x y z : Nat} (hx : x < 16) (hy : y < 64) (hz : z < 64) (rest : Text) :
    leading? (UInt8.ofNat (x + 224)) (UInt8.ofNat (y + 128) :: UInt8.ofNat (z + 128) :: rest)
      = if x * 4096 + y * 64 + z < 0x800 ∨
            (0xD800 ≤ x * 4096 + y * 64 + z ∧ x * 4096 + y * 64 + z < 0xE000) then none
        else some (Char.ofNat (x * 4096 + y * 64 + z), 2) := by
  simp only [leading?, UInt8.lt_iff_toNat_lt, toNat_ofNat_byte (show x + 224 < 256 by omega),
    continuation?_ofNat hy, continuation?_ofNat hz]
  have hmod : (x + 224) % 16 = x := by omega
  rw [if_neg (by simp), if_neg (by simp), if_neg (by simp), if_pos (by simp; omega), hmod]
  simp

/-- A character of four bytes, unless the number is small enough for three or beyond the last character. -/
theorem leading?_four {x y z w : Nat} (hx : x < 5) (hy : y < 64) (hz : z < 64) (hw : w < 64)
    (rest : Text) :
    leading? (UInt8.ofNat (x + 240))
        (UInt8.ofNat (y + 128) :: UInt8.ofNat (z + 128) :: UInt8.ofNat (w + 128) :: rest)
      = if x * 262144 + y * 4096 + z * 64 + w < 0x10000 ∨
            0x10FFFF < x * 262144 + y * 4096 + z * 64 + w then none
        else some (Char.ofNat (x * 262144 + y * 4096 + z * 64 + w), 3) := by
  simp only [leading?, UInt8.lt_iff_toNat_lt, toNat_ofNat_byte (show x + 240 < 256 by omega),
    continuation?_ofNat hy, continuation?_ofNat hz, continuation?_ofNat hw]
  have hmod : (x + 240) % 8 = x := by omega
  rw [if_neg (by simp), if_neg (by simp), if_neg (by simp), if_neg (by simp),
    if_pos (by simp; omega), hmod]
  -- for any bounds: with these numbers the comparison is not to be evaluated
  have hbounds : ∀ (low high : Nat) (number : Nat → Nat → Nat → Nat),
      (do
        let y ← some y
        let z ← some z
        let w ← some w
        let n := number y z w
        if n < low || high < n then none else return (Char.ofNat n, 3) : Option (Char × Nat))
      = if number y z w < low ∨ high < number y z w then none else some (Char.ofNat (number y z w), 3) := by
    simp
  exact hbounds 0x10000 0x10FFFF fun y z w => x * 262144 + y * 4096 + z * 64 + w

/-- The bytes of a character, by its number: one below 128, two below 2048, three below 65536, and four
above. -/
theorem ofChar_eq (c : Char) :
    ofChar c =
      if c.toNat ≤ 127 then [UInt8.ofNat c.toNat]
      else if c.toNat ≤ 2047 then
        [UInt8.ofNat (c.toNat / 64 % 32 + 192), UInt8.ofNat (c.toNat % 64 + 128)]
      else if c.toNat ≤ 65535 then
        [UInt8.ofNat (c.toNat / 4096 % 16 + 224), UInt8.ofNat (c.toNat / 64 % 64 + 128),
          UInt8.ofNat (c.toNat % 64 + 128)]
      else [UInt8.ofNat (c.toNat / 262144 % 8 + 240), UInt8.ofNat (c.toNat / 4096 % 64 + 128),
        UInt8.ofNat (c.toNat / 64 % 64 + 128), UInt8.ofNat (c.toNat % 64 + 128)] := rfl

/-- The bytes of a character above 127 are all above 127, so none of them is taken for a sign with a
meaning. -/
theorem ofChar_high {c : Char} (hc : 128 ≤ c.toNat) : ∀ b ∈ ofChar c, 128 ≤ b.toNat := by
  rw [ofChar_eq, if_neg (by omega)]
  intro b hb
  split at hb
  · simp only [List.mem_cons, List.not_mem_nil, or_false] at hb
    rcases hb with rfl | rfl <;> rw [toNat_ofNat_byte (by omega)] <;> omega
  split at hb
  · simp only [List.mem_cons, List.not_mem_nil, or_false] at hb
    rcases hb with rfl | rfl | rfl <;> rw [toNat_ofNat_byte (by omega)] <;> omega
  · simp only [List.mem_cons, List.not_mem_nil, or_false] at hb
    rcases hb with rfl | rfl | rfl | rfl <;> rw [toNat_ofNat_byte (by omega)] <;> omega

/-- The number of a character is below the surrogates or above them. -/
theorem toNat_cases (c : Char) : c.toNat < 0xD800 ∨ (0xDFFF < c.toNat ∧ c.toNat < 0x110000) :=
  c.valid

/-- Decoding a written character gives the character and takes all its bytes, whatever follows. The cases
are the lengths of a written character, and the arithmetic puts its bits together again. -/
theorem leading?_ofChar (c : Char) (rest : Text) :
    ∃ b more, ofChar c = b :: more ∧ leading? b (more ++ rest) = some (c, more.length) := by
  have hc := toNat_cases c
  have hself : Char.ofNat c.toNat = c := Char.ofNat_toNat c
  rw [ofChar_eq]
  generalize c.toNat = n at hc hself
  -- one byte, and then two, three and four
  split
  · refine ⟨_, _, rfl, ?_⟩
    rw [leading?_one (by omega), hself]
    rfl
  split
  · refine ⟨_, _, rfl, ?_⟩
    have hn : n / 64 % 32 * 64 + n % 64 = n := by omega
    rw [List.singleton_append, leading?_two (by omega) (by omega) (by omega), hn, hself]
    rfl
  split
  · refine ⟨_, _, rfl, ?_⟩
    have hn : n / 4096 % 16 * 4096 + n / 64 % 64 * 64 + n % 64 = n := by omega
    rw [List.cons_append, List.singleton_append,
      leading?_three (by omega) (by omega) (by omega), hn, hself, if_neg (by omega)]
    rfl
  · refine ⟨_, _, rfl, ?_⟩
    have hn : n / 262144 % 8 * 262144 + n / 4096 % 64 * 4096 + n / 64 % 64 * 64 + n % 64 = n := by
      omega
    rw [List.cons_append, List.cons_append, List.singleton_append,
      leading?_four (by omega) (by omega) (by omega) (by omega), hn, hself, if_neg (by omega)]
    rfl

/-- The number of a character with a given number, where there is one. -/
theorem toNat_ofNat_char {n : Nat} (h : n < 0xD800 ∨ (0xDFFF < n ∧ n < 0x110000)) :
    (Char.ofNat n).toNat = n := by
  have hvalid : n.isValidChar := h
  rw [Char.ofNat, dif_pos hvalid]
  rfl

theorem ofNat_eq_byte {b : UInt8} {n : Nat} (h : n = b.toNat) : UInt8.ofNat n = b := by
  rw [h, UInt8.ofNat_toNat]

/-- Writing a character of two bytes that was read gives its bytes again. -/
theorem ofChar_two {b : UInt8} {x : Nat} (hlow : 0xC2 ≤ b.toNat) (hhigh : b.toNat < 0xE0) (hx : x < 64) :
    ofChar (Char.ofNat (b.toNat % 32 * 64 + x)) = [b, UInt8.ofNat (x + 128)] := by
  rw [ofChar_eq, toNat_ofNat_char (by omega), if_neg (by omega), if_pos (by omega),
    ofNat_eq_byte (b := b) (by omega), show (b.toNat % 32 * 64 + x) % 64 = x by omega]

/-- The same for three bytes. The conditions are those under which they were read as a character. -/
theorem ofChar_three {b : UInt8} {x y : Nat} (hlow : 0xE0 ≤ b.toNat) (hhigh : b.toNat < 0xF0) (hx : x < 64)
    (hy : y < 64) (hlong : 0x800 ≤ b.toNat % 16 * 4096 + x * 64 + y)
    (hvalid : 0xD800 ≤ b.toNat % 16 * 4096 + x * 64 + y → 0xE000 ≤ b.toNat % 16 * 4096 + x * 64 + y) :
    ofChar (Char.ofNat (b.toNat % 16 * 4096 + x * 64 + y))
      = [b, UInt8.ofNat (x + 128), UInt8.ofNat (y + 128)] := by
  rw [ofChar_eq, toNat_ofNat_char (by omega), if_neg (by omega), if_neg (by omega), if_pos (by omega),
    ofNat_eq_byte (b := b) (by omega), show (b.toNat % 16 * 4096 + x * 64 + y) / 64 % 64 = x by omega,
    show (b.toNat % 16 * 4096 + x * 64 + y) % 64 = y by omega]

theorem ofChar_four {b : UInt8} {x y z : Nat} (hlow : 0xF0 ≤ b.toNat) (hhigh : b.toNat < 0xF5) (hx : x < 64)
    (hy : y < 64) (hz : z < 64) (hlong : 0x10000 ≤ b.toNat % 8 * 262144 + x * 4096 + y * 64 + z)
    (hvalid : b.toNat % 8 * 262144 + x * 4096 + y * 64 + z ≤ 0x10FFFF) :
    ofChar (Char.ofNat (b.toNat % 8 * 262144 + x * 4096 + y * 64 + z))
      = [b, UInt8.ofNat (x + 128), UInt8.ofNat (y + 128), UInt8.ofNat (z + 128)] := by
  rw [ofChar_eq, toNat_ofNat_char (by omega), if_neg (by omega), if_neg (by omega), if_neg (by omega),
    ofNat_eq_byte (b := b) (by omega),
    show (b.toNat % 8 * 262144 + x * 4096 + y * 64 + z) / 4096 % 64 = x by omega,
    show (b.toNat % 8 * 262144 + x * 4096 + y * 64 + z) / 64 % 64 = y by omega,
    show (b.toNat % 8 * 262144 + x * 4096 + y * 64 + z) % 64 = z by omega]

/-- What is decoded as a character is the written form of the character. There is one written form for each
character, since forms that are too long are not decoded. -/
theorem ofChar_of_leading? {b : UInt8} {rest : Text} {c : Char} {k : Nat}
    (h : leading? b rest = some (c, k)) : ofChar c = b :: rest.take k ∧ k ≤ rest.length := by
  simp only [leading?, UInt8.lt_iff_toNat_lt] at h
  split at h
  · next h1 =>
    obtain ⟨rfl, rfl⟩ := Prod.mk.inj (Option.some.inj h)
    have h1 : b.toNat < 128 := h1
    rw [ofChar_eq, toNat_ofNat_char (by omega), if_pos (by omega), UInt8.ofNat_toNat]
    exact ⟨rfl, Nat.zero_le _⟩
  split at h
  · cases h
  split at h
  -- two bytes: the first has five bits, and the second six
  · next h1 h2 h3 =>
    match rest, h with
    | b₁ :: rest, h =>
      obtain ⟨x, hx, hend⟩ := Option.bind_eq_some_iff.mp h
      obtain ⟨rfl, rfl⟩ := Prod.mk.inj (Option.some.inj hend)
      obtain ⟨hx', rfl⟩ := eq_of_continuation? hx
      exact ⟨ofChar_two (Nat.not_lt.1 h2) h3 hx', by simp⟩
  split at h
  -- three bytes, of which surrogates and what fits into two are excluded
  · next h1 h2 h3 h4 =>
    match rest, h with
    | b₁ :: b₂ :: rest, h =>
      obtain ⟨x, hx, hrest⟩ := Option.bind_eq_some_iff.mp h
      obtain ⟨y, hy, hend⟩ := Option.bind_eq_some_iff.mp hrest
      obtain ⟨hx', rfl⟩ := eq_of_continuation? hx
      obtain ⟨hy', rfl⟩ := eq_of_continuation? hy
      split at hend
      · cases hend
      · next hn =>
        obtain ⟨rfl, rfl⟩ := Prod.mk.inj (Option.some.inj hend)
        simp only [Bool.or_eq_true, decide_eq_true_eq, Bool.and_eq_true, not_or, not_and, Nat.not_lt] at hn
        exact ⟨ofChar_three (Nat.not_lt.1 h3) h4 hx' hy' hn.1 hn.2, by simp⟩
  split at h
  -- four bytes, up to the last character
  · next h1 h2 h3 h4 h5 =>
    match rest, h with
    | b₁ :: b₂ :: b₃ :: rest, h =>
      obtain ⟨x, hx, hrest⟩ := Option.bind_eq_some_iff.mp h
      obtain ⟨y, hy, hrest⟩ := Option.bind_eq_some_iff.mp hrest
      obtain ⟨z, hz, hend⟩ := Option.bind_eq_some_iff.mp hrest
      obtain ⟨hx', rfl⟩ := eq_of_continuation? hx
      obtain ⟨hy', rfl⟩ := eq_of_continuation? hy
      obtain ⟨hz', rfl⟩ := eq_of_continuation? hz
      split at hend
      · cases hend
      · next hn =>
        obtain ⟨rfl, rfl⟩ := Prod.mk.inj (Option.some.inj hend)
        simp only [Bool.or_eq_true, decide_eq_true_eq, not_or, Nat.not_lt] at hn
        exact ⟨ofChar_four (Nat.not_lt.1 h4) h5 hx' hy' hz' hn.1 hn.2, by simp⟩
  · cases h

/-! ## Texts -/

/-- Skipping bytes is dropping them. The definition counts down the bytes of a character instead, so that it
is structural on the text. -/
theorem piecesFrom_eq (skip : Nat) (t : Text) : piecesFrom skip t = pieces (t.drop skip) := by
  induction t generalizing skip with
  | nil => cases skip <;> rfl
  | cons b t ih =>
    cases skip with
    | zero => rfl
    | succ skip => exact ih skip

/-- The pieces of a text: a character and what follows it, or a stray byte and what follows that. -/
theorem pieces_cons (b : UInt8) (rest : Text) :
    pieces (b :: rest) =
      match leading? b rest with
      | some (c, more) => .char c :: pieces (rest.drop more)
      | none => .stray b :: pieces rest := by
  rw [pieces, piecesFrom]
  cases leading? b rest with
  | none => rfl
  | some r =>
    show Piece.char r.1 :: piecesFrom r.2 rest = _
    rw [piecesFrom_eq]

/-- The pieces of a text account for all of its bytes, in their order. A text can be taken apart into pieces
and put together again. -/
theorem pieces_bytes (t : Text) : (pieces t).flatMap Piece.bytes = t := by
  match t with
  | [] => rfl
  | b :: rest =>
    rw [pieces_cons]
    cases h : leading? b rest with
    | none =>
      show b :: (pieces rest).flatMap Piece.bytes = _
      rw [pieces_bytes rest]
    | some r =>
      obtain ⟨c, k⟩ := r
      obtain ⟨hchar, hk⟩ := ofChar_of_leading? h
      show ofChar c ++ (pieces (rest.drop k)).flatMap Piece.bytes = _
      rw [pieces_bytes (rest.drop k), hchar, List.cons_append, List.take_append_drop]
termination_by t.length
decreasing_by
  · simp
  · simp only [List.length_drop, List.length_cons]
    omega

/-- A written character in front of a text is its first piece. -/
theorem pieces_ofChar (c : Char) (rest : Text) :
    pieces (ofChar c ++ rest) = .char c :: pieces rest := by
  obtain ⟨b, more, hchar, hleading⟩ := leading?_ofChar c rest
  rw [hchar, List.cons_append, pieces_cons, hleading]
  show Piece.char c :: pieces ((more ++ rest).drop more.length) = _
  rw [List.drop_left]

theorem pieces_ofChars (cs : List Char) : pieces (ofChars cs) = cs.map .char := by
  induction cs with
  | nil => rfl
  | cons c cs ih =>
    rw [ofChars, List.flatMap_cons, pieces_ofChar, List.map_cons]
    exact congrArg _ ih

/-- The character that a piece is repaired to. -/
def Piece.shown : Piece → Char
  | .char c => c
  | .stray _ => replacement

/-- A repaired text consists of the characters that its pieces show, where a stray byte shows the
replacement character. -/
theorem repaired_eq (t : Text) : repaired t = ofChars ((pieces t).map Piece.shown) := by
  rw [repaired, ofChars, List.flatMap_map]
  refine List.flatMap_congr fun p _ => ?_
  cases p <;> rfl

/-- A text is UTF-8 just if it consists of characters, that is, if no byte in it is stray. -/
theorem isUtf8_iff {t : Text} : isUtf8 t ↔ ∃ cs, t = ofChars cs := by
  constructor
  · intro h
    refine ⟨(pieces t).map Piece.shown, ?_⟩
    rw [ofChars, List.flatMap_map]
    conv_lhs => rw [← pieces_bytes t]
    refine List.flatMap_congr fun p hp => ?_
    have hp := List.all_eq_true.mp h p hp
    cases p with
    | char c => rfl
    | stray b => cases hp
  · rintro ⟨cs, rfl⟩
    rw [isUtf8, pieces_ofChars, List.all_map]
    exact List.all_eq_true.mpr fun c _ => rfl

/-- A text that is UTF-8 needs no repair. -/
theorem repaired_of_isUtf8 {t : Text} (h : isUtf8 t) : repaired t = t := by
  obtain ⟨cs, rfl⟩ := isUtf8_iff.mp h
  rw [repaired_eq, pieces_ofChars, List.map_map]
  exact congrArg ofChars (List.map_id cs)

theorem isUtf8_repaired (t : Text) : isUtf8 (repaired t) := isUtf8_iff.mpr ⟨_, repaired_eq t⟩

/-- The bytes of a joined text are those of the separator and of its parts. -/
theorem mem_join {sep : Text} {parts : List Text} {b : UInt8} (h : b ∈ join sep parts) :
    b ∈ sep ∨ ∃ t ∈ parts, b ∈ t := by
  fun_induction join sep parts with
  | case1 => cases h
  | case2 t => exact .inr ⟨t, List.mem_cons_self, h⟩
  | case3 t ts _ ih =>
    rcases List.mem_append.1 h with h | h
    · exact (List.mem_append.1 h).symm.imp_right fun h => ⟨t, List.mem_cons_self, h⟩
    · exact (ih h).imp_right fun ⟨u, hu, hb⟩ => ⟨u, List.mem_cons_of_mem t hu, hb⟩

/-- Bytes below 128 are characters, each of them one. Digits, signs and all that is written in their terms
are valid for that reason. -/
theorem isUtf8_of_ascii {t : Text} (h : ∀ b ∈ t, b.toNat < 128) : isUtf8 t := by
  refine isUtf8_iff.mpr ⟨t.map fun b => Char.ofNat b.toNat, ?_⟩
  rw [ofChars, List.flatMap_map]
  induction t with
  | nil => rfl
  | cons b t ih =>
    have hb := h b List.mem_cons_self
    rw [List.flatMap_cons, ← ih fun c hc => h c (List.mem_cons_of_mem _ hc), ofChar_eq,
      toNat_ofNat_char (by omega), if_pos (by omega), UInt8.ofNat_toNat]
    rfl

end DocFilter.Text
