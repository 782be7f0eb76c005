import DocFilter.Document.Source
import DocFilter.Proofs.LenientReading
import DocFilter.Proofs.Readability

/-!
Filters that are written are read back. What a text with braces can say in full is *expressible*:
nothing, truth values, integers of the default type, texts that are characters, lists and documents of
these, with keys that are characters. Main result (`Document.parse_encode`): an expressible document
can be written, and its text is read as the same document, with its fields in their order, repeated
keys and all, and every value of the type it had.

The written form is an interchange document, which the lenient reader takes because the strict one does
(`readBraced_of_parse`). What is left to see is that nothing is lost on the way: texts of characters are
not repaired, and the digits of an integer are read as an integer.
-/

set_option autoImplicit false

namespace DocFilter

open Text (byte)

/-! ## White space at the ends -/

namespace Text

/-- A byte below 128 is a character of its own, whatever follows. -/
theorem leading?_ascii {b : UInt8} (hb : b < 0x80) (rest : Text) :
    leading? b rest = some (Char.ofNat b.toNat, 0) := by
  unfold leading?
  rw [if_pos hb]

/-- A byte of one character does not complete a longer one: what can be decoded at the front of a text is
the same with such a byte behind it. -/
theorem leading?_snoc {b : UInt8} (hb : b < 0x80) (a : UInt8) (rest : Text) :
    leading? a (rest ++ [b]) = leading? a rest := by
  have hcontinuation : continuation? b = none := by
    have hall : ∀ b : UInt8, b < 0x80 → continuation? b = none := forall_byte (by decide +kernel)
    exact hall b hb
  match rest with
  | [] => simp [leading?, hcontinuation]
  | [x] => simp [leading?, hcontinuation]
  | [x, y] => simp [leading?, hcontinuation]
  | x :: y :: z :: rest => simp [leading?]

/-- A byte of one character at the end of a text is its last piece. Such a byte never belongs to a longer
character, so what stands before it is decoded as it was. -/
theorem pieces_snoc {b : UInt8} (hb : b < 0x80) (t : Text) :
    pieces (t ++ [b]) = pieces t ++ [.char (Char.ofNat b.toNat)] := by
  match t with
  | [] =>
    rw [List.nil_append, pieces_cons, leading?_ascii hb]
    rfl
  | a :: rest =>
    rw [List.cons_append, pieces_cons, pieces_cons, leading?_snoc hb]
    cases h : leading? a rest with
    | none =>
      dsimp only
      rw [pieces_snoc hb rest]
      rfl
    | some r =>
      obtain ⟨c, k⟩ := r
      have hk := (ofChar_of_leading? h).2
      dsimp only
      rw [List.drop_append_of_le_length hk, pieces_snoc hb (rest.drop k)]
      rfl
termination_by t.length

/-- A text between two signs that are no white space is not trimmed. Only whole pieces are trimmed, and the
signs are the first and the last of them. -/
theorem trim_between {a b : UInt8} (ha : a < 0x80) (hb : b < 0x80)
    (hablank : isBlank (Char.ofNat a.toNat) = false) (hbblank : isBlank (Char.ofNat b.toNat) = false)
    (t : Text) : trim (a :: t ++ [b]) = a :: t ++ [b] := by
  have hpieces : pieces (a :: t ++ [b])
      = .char (Char.ofNat a.toNat) :: (pieces t ++ [.char (Char.ofNat b.toNat)]) := by
    rw [List.cons_append, pieces_cons, leading?_ascii ha]
    dsimp only
    rw [List.drop_zero, pieces_snoc hb]
  have hbytes := pieces_bytes (a :: t ++ [b])
  rw [hpieces] at hbytes
  rw [trim, hpieces, List.dropWhile_cons, if_neg (by simp [Piece.isBlank, hablank]), ← List.cons_append,
    List.reverse_append, List.reverse_singleton, List.singleton_append, List.dropWhile_cons,
    if_neg (by simp [Piece.isBlank, hbblank]), List.reverse_cons, List.reverse_reverse]
  exact hbytes

end Text

/-! ## Digits of integers -/

namespace Number

/-- Digits are read as the number that they are digits of, if it is within the limit. -/
theorem readDigits_digits {cs : List Char} (hcs : ∀ c ∈ cs, c.isDigit = true) {limit n : Nat}
    (hlimit : Nat.ofDigitChars 10 cs n ≤ limit) :
    readDigits 10 limit false n (cs.map byte) = .ok (Nat.ofDigitChars 10 cs n) := by
  induction cs generalizing n with
  | nil => rfl
  | cons c cs ih =>
    obtain ⟨-, -, hvalue, -, hlt, -⟩ := byte_of_digit (hcs c (by simp))
    rw [Nat.ofDigitChars_cons] at hlimit ⊢
    -- what has been read so far is no more than the whole
    have hsofar : 10 * n + (c.toNat - '0'.toNat) ≤ limit := by
      rw [Nat.ofDigitChars_eq_ofDigitChars_zero] at hlimit
      have hpow : 1 ≤ 10 ^ cs.length := Nat.one_le_pow _ _ (by decide)
      nlinarith
    rw [List.map_cons, readDigits, Bool.false_and, if_neg (by simp), hvalue]
    dsimp only
    rw [if_neg (by omega), if_neg (by omega), Nat.mul_comm n]
    exact ih (fun c hc => hcs c (by simp [hc])) hlimit

/-- The digits of a natural number are read as the number. -/
theorem readNat_ofNat {limit n : Nat} (h : n ≤ limit) : readNat limit (Text.ofNat n) = .ok n := by
  have hvalue : Nat.ofDigitChars 10 (Nat.toDigits 10 n) 0 = n := Nat.ofDigitChars_ten_toDigits
  have hne : (Text.ofNat n).isEmpty = false := by simp [Text.ofNat]
  rw [readNat, readNatInBase, hne, if_neg (by simp), Text.ofNat,
    readDigits_digits (fun c hc => digit_of_mem_toDigits hc) (by rw [hvalue]; exact h), hvalue]

/-- A word of 64 bits is read from its digits, with a sign in front if it is negative. The digits never
exceed the limit, which is that of unsigned words before the sign is looked at. -/
theorem readInt64_ofInt {n : Int} (hlow : -9223372036854775808 ≤ n) (hhigh : n < 9223372036854775808) :
    readInt64 (Text.ofInt n) = .ok n := by
  have hread : readNat maxUInt64 (Text.ofNat n.natAbs) = .ok n.natAbs :=
    readNat_ofNat (by rw [maxUInt64]; omega)
  rw [readInt64, readSigned]
  by_cases hneg : n < 0
  · have htext : Text.ofInt n = byte '-' :: Text.ofNat n.natAbs := if_pos hneg
    have hunsigned : unsigned (byte '-' :: Text.ofNat n.natAbs) = Text.ofNat n.natAbs := rfl
    rw [htext, hunsigned, hread]
    simp only [List.head?_cons, beq_self_eq_true, if_true]
    rw [if_neg (by omega)]
    congr 1
    omega
  -- the first digit is no sign, so nothing is taken off
  · have htext : Text.ofInt n = Text.ofNat n.natAbs := if_neg hneg
    obtain ⟨c, rest, hcons, hc⟩ := (reads_ofNat n.natAbs).head
    obtain ⟨-, -, -, -, -, -, -, hplus, hminus⟩ := byte_of_digit hc
    have hunsigned : unsigned (Text.ofNat n.natAbs) = Text.ofNat n.natAbs := by
      rw [hcons]
      exact if_neg (by simp [hplus, hminus])
    have hhead : ((Text.ofNat n.natAbs).head? == some (byte '-')) = false := by
      rw [hcons]
      simpa using hminus
    rw [htext, hunsigned, hhead, hread]
    simp only [Bool.false_eq_true, if_false]
    rw [if_neg (by omega)]
    congr 1
    omega

end Number

/-- The digits of an integer of the default type are read as this integer, of this type. -/
theorem numberValue_ofInt {n : Int} (h : IntType.int.holds n = true) :
    numberValue (Text.ofInt n) = .int .int n := by
  have hword : Int.bmod n (2 ^ 64) = n := by
    have hwrap : IntType.int.wrap n = n := beq_iff_eq.1 h
    exact hwrap
  have hlow := Int.le_bmod (x := n) (m := 2 ^ 64) (by decide)
  have hhigh := Int.bmod_lt (x := n) (m := 2 ^ 64) (by decide)
  rw [hword] at hlow hhigh
  rw [numberValue, Number.readInt64_ofInt (by omega) (by omega)]

/-! ## What a text can say -/

namespace Value

mutual

/-- Whether a text with braces can say the value in full: nothing, truth values, words of the default
type, texts that are characters, and lists and documents of these. -/
def expressible : Value → Bool
  | .null => true
  | .bool _ => true
  | .int .int n => IntType.int.holds n
  | .text t => Text.isUtf8 t
  | .list .any items => expressibleItems items
  | .doc fields => expressibleFields fields
  | _ => false

/-- Whether a text can say all elements. -/
def expressibleItems : List Value → Bool
  | [] => true
  | v :: rest => v.expressible && expressibleItems rest

/-- Whether a text can say all fields. -/
def expressibleFields : List (Text × Value) → Bool
  | [] => true
  | (k, v) :: rest => Text.isUtf8 k && v.expressible && expressibleFields rest

end

/-- The elements of a list are expressible if each of them is. -/
theorem expressibleItems_iff {items : List Value} :
    expressibleItems items = true ↔ ∀ v ∈ items, v.expressible = true := by
  induction items with
  | nil => simp [expressibleItems]
  | cons v rest ih => simp [expressibleItems, ih]

/-- Fields are expressible if each value is, and each key is valid text. -/
theorem expressibleFields_iff {fields : List (Text × Value)} :
    expressibleFields fields = true ↔
      ∀ e ∈ fields, Text.isUtf8 e.1 = true ∧ e.2.expressible = true := by
  induction fields with
  | nil => simp [expressibleFields]
  | cons e rest ih => simp [expressibleFields, ih]

end Value

/-- A number that begins like one and is read passes the check. -/
theorem checkNumber_of_readsNumber {t : Text} (h : Json.readsNumber t = true) : checkNumber t = .ok () := by
  obtain ⟨hbegins, x, hx⟩ := Json.readsNumber_iff.1 h
  cases t with
  | nil => rfl
  | cons b rest =>
    rw [Json.beginsNumber] at hbegins
    rw [checkNumber, if_pos hbegins, hx]

namespace Value

/-- A value is written, and what is written stands for the value. -/
structure Transcribed (v : Value) : Prop where
  written : v.toJson = .ok v.tree
  checked : checkNumbers v.tree = .ok ()
  readable : v.tree.readable = true
  kept : v.tree.repaired.filterValue = v

theorem transcribed_int {n : Int} (h : IntType.int.holds n = true) : (Value.int .int n).Transcribed := by
  have hreads := readsNumber_word (IntType.natAbs_lt_of_holds h)
  have htree : (Value.int .int n).tree = .number (Text.ofInt n) := rfl
  refine ⟨rfl, ?_, ?_, ?_⟩
  · rw [htree, checkNumbers, checkNumber_of_readsNumber hreads]
  · rw [htree]
    exact (Json.readsNumber_iff.1 hreads).1
  · rw [htree]
    exact numberValue_ofInt h

/-- Texts are transcribed if they are valid; others would come back repaired. -/
theorem transcribed_text {t : Text} (h : Text.isUtf8 t = true) : (Value.text t).Transcribed := by
  have htree : (Value.text t).tree.repaired = .string (Text.repaired t) := rfl
  refine ⟨rfl, rfl, rfl, ?_⟩
  rw [htree, Text.repaired_of_isUtf8 h, Json.filterValue, Text.repaired_of_isUtf8 h]

/-- A list of any values is transcribed if its elements are. Lists with a declared type of elements come
back without it, so they are not expressible. -/
theorem transcribed_list {items : List Value} (h : ∀ v ∈ items, v.Transcribed) :
    (Value.list .any items).Transcribed := by
  have hwritten : (Value.list .any items).toJson = .ok (.array (items.map tree)) :=
    list_toJson_ok.2 ⟨rfl, fun v hv => (h v hv).written⟩
  have htree := tree_of_toJson hwritten
  refine ⟨htree ▸ hwritten, ?_, ?_, ?_⟩ <;> rw [htree]
  · refine Json.checkItems_ok.2 fun j hj => ?_
    obtain ⟨v, hv, rfl⟩ := List.mem_map.1 hj
    exact (h v hv).checked
  · refine Json.readableItems_iff.2 fun j hj => ?_
    obtain ⟨v, hv, rfl⟩ := List.mem_map.1 hj
    exact (h v hv).readable
  · rw [Json.repaired, Json.filterValue, Json.repairedItems_eq, Json.filterItems_eq, List.map_map,
      List.map_map]
    congr 1
    refine (List.map_congr_left fun v hv => ?_).trans (List.map_id items)
    exact (h v hv).kept

/-- A document is transcribed if its values are and its keys are valid. Repeated keys and the order of
fields stay, as documents are written entry by entry. -/
theorem transcribed_doc {fields : List (Text × Value)} (hkeys : ∀ e ∈ fields, Text.isUtf8 e.1 = true)
    (h : ∀ e ∈ fields, e.2.Transcribed) : (Value.doc fields).Transcribed := by
  -- a document checks the names of its members before it is written
  have hchecked : checkMembers (fields.map fun e => (e.1, e.2.tree)) = .ok () := by
    refine Json.checkMembers_ok.2 fun m hm => ?_
    obtain ⟨e, he, rfl⟩ := List.mem_map.1 hm
    exact (h e he).checked
  have hwritten : (Value.doc fields).toJson = .ok (.object (fields.map fun e => (e.1, e.2.tree))) :=
    doc_toJson_ok.2 ⟨rfl, fun e he => (h e he).written, hchecked⟩
  have htree := tree_of_toJson hwritten
  refine ⟨htree ▸ hwritten, ?_, ?_, ?_⟩ <;> rw [htree]
  · exact hchecked
  · refine Json.readableMembers_iff.2 fun m hm => ?_
    obtain ⟨e, he, rfl⟩ := List.mem_map.1 hm
    exact (h e he).readable
  · rw [Json.repaired, Json.filterValue, Json.repairedMembers_eq, Json.filterMembers_eq, List.map_map,
      List.map_map]
    congr 1
    refine (List.map_congr_left fun e he => ?_).trans (List.map_id fields)
    have hkey := Text.repaired_of_isUtf8 (hkeys e he)
    show (Text.repaired (Text.repaired e.1), e.2.tree.repaired.filterValue) = e
    rw [hkey, hkey, (h e he).kept]

/-- **Expressible values are kept**: each is written, is read by the strict reader, and stands for the value
that was written. The induction is on the value. -/
theorem transcribed (v : Value) : v.expressible = true → v.Transcribed := by
  induction v using Value.inductionOn with
  | scalar v hv =>
    intro h
    cases v with
    | null | bool _ => exact ⟨rfl, rfl, rfl, rfl⟩
    | text t => exact transcribed_text h
    | int ty n =>
      cases ty with
      | int => exact transcribed_int h
      | _ => simp [expressible] at h
    | doc | list | table => simp [isScalar] at hv
    | _ => simp [expressible] at h
  | doc fields ih =>
    intro h
    have hall := expressibleFields_iff.1 h
    exact transcribed_doc (fun e he => (hall e he).1) fun e he => ih e he (hall e he).2
  | list ty items ih =>
    intro h
    cases ty with
    | any =>
      have hall := expressibleItems_iff.1 h
      exact transcribed_list fun v hv => ih v hv (hall v hv)
    | _ => simp [expressible] at h
  -- tables come back as documents, so they are not expressible
  | table ty entries _ =>
    intro h
    simp [expressible] at h

end Value

/-! ## Writing and reading -/

/-- The text of an object begins and ends with braces, so trimming leaves it. -/
theorem Json.trim_object (members : List (Text × Json)) :
    Text.trim (Json.object members).compact = (Json.object members).compact := by
  have hcompact : (Json.object members).compact = byte '\x7b' :: compactMembers members ++ [byte '\x7d'] := rfl
  rw [hcompact]
  exact Text.trim_between (by decide) (by decide) (by decide) (by decide) _

namespace Document

/-- The text of a written object is read with braces, since it begins with one. Nothing around it is
trimmed, for it ends with a brace as well. -/
theorem parse_object {members : List (Text × Json)} {fields : Document}
    (h : readBraced (Json.object members).compact = .ok (.doc fields)) :
    parse (Json.object members).compact = .ok fields := by
  have hcons : (Json.object members).compact
      = byte '\x7b' :: (Json.compactMembers members ++ [byte '\x7d']) := rfl
  unfold parse
  rw [Json.trim_object, hcons]
  dsimp only
  rw [if_pos (by decide), ← hcons, h]
  rfl

/-- **Reading undoes writing.** Every expressible document can be written, and its text is read as the
same document: the same keys in the same order at every level, repeated ones kept, and every value with
the type it had. -/
theorem parse_encode (d : Document) (h : (Value.doc d).expressible = true) :
    ∃ t, d.encode = .ok t ∧ parse t = .ok d := by
  obtain ⟨hwritten, -, hreadable, hkept⟩ := Value.transcribed (.doc d) h
  have hnumeric := Value.numeric_toJson (.doc d) hwritten
  rw [Value.toJson] at hwritten
  obtain ⟨members, hmembers, hwritten⟩ := bind_eq_ok hwritten
  obtain ⟨-, -, hwritten⟩ := bind_eq_ok hwritten
  have htree := Except.ok.inj hwritten
  rw [← htree] at hnumeric hreadable hkept
  have hparse : Json.parse (Json.object members).compact = .ok (Json.object members).repaired := by
    rw [Json.parse_compact hnumeric, hreadable, if_pos rfl]
  -- the lenient reader takes what the strict one takes
  have hread := readBraced_of_parse hparse
  rw [hkept] at hread
  refine ⟨(Json.object members).compact, ?_, parse_object hread⟩
  rw [encode, mapError_eq_ok.1 hmembers]
  rfl

/-- A document with a key that occurs twice, texts with signs, controls and characters of every
length, the least and the greatest word, and empty collections within others. -/
def awkward : Document :=
  [("", .text "\"\\/<&>"), ("k", .text [0x00, 0x1F, 0x7F, 0x0A]),
    ("k", .list .any [.null, .list .any [], .doc [], .bool false]),
    ([0xE2, 0x80, 0xA8], .text [0xF0, 0x9F, 0x98, 0x80, 0xC3, 0xA9]),
    ("z", .doc [("n", .int .int (-9223372036854775808)), ("n", .int .int 9223372036854775807)])]

/-- Its text. -/
def awkwardText : Text :=
  "\x7b\"\":\"\\\"\\\\/\\u003c\\u0026\\u003e\",\"k\":\"\\u0000\\u001f\x7f\\n\",\"k\":[null,[],\x7b\x7d,false]," ++
    Text.ofString "\"\\u2028\":\"😀é\",\"z\":\x7b\"n\":-9223372036854775808,\"n\":9223372036854775807\x7d\x7d"

/-- The document is written and comes back: two fields with one name, an empty name, quotation marks and
bytes of control, empty collections, and integers at both ends of their range. -/
theorem awkward_comes_back :
    (Value.doc awkward).expressible = true ∧ awkward.encode = .ok awkwardText ∧
      parse awkwardText = .ok awkward := by
  have hexpressible : (Value.doc awkward).expressible = true := by decide +kernel
  have htext : awkward.encode.toOption = some awkwardText := by decide +kernel
  obtain ⟨t, hencode, hparse⟩ := parse_encode awkward hexpressible
  rw [hencode] at htext
  obtain rfl : t = awkwardText := Option.some.inj htext
  exact ⟨hexpressible, hencode, hparse⟩

end Document

end DocFilter
