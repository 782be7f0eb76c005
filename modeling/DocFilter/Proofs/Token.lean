import DocFilter.Query.Formula

/-!
The tokens of a written condition. A name between backticks is one token whatever stands in it, so a
field called `` a` AND $1 `` brings no connective and no placeholder into a condition; everything
else is a run of letters, a run of comparison signs, a placeholder or a parenthesis.

The scanner is a machine that takes one byte at a time. Whether a backtick closes a name is seen
only at the byte after it, and a run of letters, signs or digits ends where another byte comes, so
between two bytes a token may be pending. What the lemmas below say about a written piece is always
the same: scanning it in front of a rest that ends it gives its tokens and then those of the rest.
-/

set_option autoImplicit false

namespace DocFilter

open Text (byte)

/-- A token of a condition. -/
inductive Token where
  | ident (name : Text)
  | word (letters : Text)
  | sign (signs : Text)
  | placeholder (n : Nat)
  | opening
  | closing
  deriving DecidableEq, Repr

namespace Token

/-! ## The scanner -/

/-- What the scanner has in hand between two bytes. -/
inductive State where
  | between
  | quoted (name : Text)
  /-- A backtick inside or at the end of a name; the next byte decides. -/
  | tick (name : Text)
  | letters (word : Text)
  | signs (run : Text)
  | dollar
  | digits (n : Nat)
  deriving DecidableEq

/-- Whether a byte may stand in a comparison sign. -/
def isSign (b : UInt8) : Bool :=
  b == byte '=' || b == byte '!' || b == byte '<' || b == byte '>'

/-- The value of a digit. -/
def digitValue (b : UInt8) : Nat := b.toNat - 0x30

/-- The effect of a byte when no token is pending: the tokens it completes and the state after
it. -/
def start (b : UInt8) : Option (List Token × State) :=
  if b == byte ' ' then some ([], .between)
  else if b == byte '\x60' then some ([], .quoted [])
  else if b == byte '(' then some ([.opening], .between)
  else if b == byte ')' then some ([.closing], .between)
  else if b == byte '$' then some ([], .dollar)
  else if Text.isLetter b then some ([], .letters [b])
  else if isSign b then some ([], .signs [b])
  else none

/-- A byte that ends the token `t` and has an effect of its own. -/
def startAfter (t : Token) (b : UInt8) : Option (List Token × State) :=
  (start b).map fun r => (t :: r.1, r.2)

namespace State

/-- One step of the scanner. -/
def step : State → UInt8 → Option (List Token × State)
  | .between, b => start b
  | .quoted name, b =>
    if b == byte '\x60' then some ([], .tick name) else some ([], .quoted (name ++ [b]))
  | .tick name, b =>
    if b == byte '\x60' then some ([], .quoted (name ++ [b])) else startAfter (.ident name) b
  | .letters w, b =>
    if Text.isLetter b then some ([], .letters (w ++ [b])) else startAfter (.word w) b
  | .signs s, b => if isSign b then some ([], .signs (s ++ [b])) else startAfter (.sign s) b
  | .dollar, b => if Text.isDigit b then some ([], .digits (digitValue b)) else none
  | .digits n, b =>
    if Text.isDigit b then some ([], .digits (10 * n + digitValue b))
    else startAfter (.placeholder n) b

/-- The token that would be complete if nothing followed. -/
def pending? : State → Option Token
  | .tick name => some (.ident name)
  | .letters w => some (.word w)
  | .signs s => some (.sign s)
  | .digits n => some (.placeholder n)
  | .between | .quoted _ | .dollar => none

/-- The last tokens of a text that ends in a state; a name or a placeholder must not be cut off. -/
def finish : State → Option (List Token)
  | .between => some []
  | s => s.pending?.map ([·])

end State

/-- The tokens of a text that is read on from a state. -/
def scanFrom : State → Text → Option (List Token)
  | s, [] => s.finish
  | s, b :: rest => (s.step b).bind fun r => (scanFrom r.2 rest).map (r.1 ++ ·)

/-- The tokens of a text. -/
def scan (t : Text) : Option (List Token) := scanFrom .between t

/-! ## Where a token ends -/

/-- A rest that ends every token: it is empty, or begins with a blank or a closing parenthesis. -/
def Boundary (rest : Text) : Prop := ∀ b ∈ rest.head?, b = byte ' ' ∨ b = byte ')'

@[simp] theorem boundary_nil : Boundary [] := by simp [Boundary]

@[simp] theorem boundary_blank (rest : Text) : Boundary (byte ' ' :: rest) := by simp [Boundary]

@[simp] theorem boundary_closing (rest : Text) : Boundary (byte ')' :: rest) := by simp [Boundary]

/-- A byte of a boundary belongs to no token that is pending. -/
theorem step_of_pending {s : State} {t : Token} {b : UInt8} (hs : s.pending? = some t)
    (hb : b = byte ' ' ∨ b = byte ')') : s.step b = startAfter t b := by
  have hbytes : b ≠ byte '\x60' ∧ Text.isLetter b = false ∧ isSign b = false ∧
      Text.isDigit b = false := by
    rcases hb with rfl | rfl <;> decide
  obtain ⟨htick, hletter, hsign, hdigit⟩ := hbytes
  -- No kind of token goes on with such a byte, so each state falls through to `startAfter`.
  cases s <;> simp [State.pending?] at hs <;> subst hs <;>
    simp [State.step, htick, hletter, hsign, hdigit]

/-- A boundary completes the token that is pending and is then read as if it stood alone. -/
theorem scanFrom_of_pending {s : State} {t : Token} {rest : Text} (hs : s.pending? = some t)
    (hrest : Boundary rest) : scanFrom s rest = (scan rest).map (t :: ·) := by
  cases rest with
  | nil => cases s <;> simp [State.pending?] at hs <;> subst hs <;> rfl
  | cons b rest =>
    have hb : b = byte ' ' ∨ b = byte ')' := hrest b (by simp)
    rw [scan, scanFrom, scanFrom, step_of_pending hs hb, startAfter, State.step]
    cases start b with
    | none => rfl
    | some r => simp [Function.comp_def]

/-! ## Single bytes -/

/-- A byte that completes no token. -/
theorem scanFrom_cons_silent {s s' : State} {b : UInt8} (h : s.step b = some ([], s'))
    (rest : Text) : scanFrom s (b :: rest) = scanFrom s' rest := by
  simp [scanFrom, h]

/-- A byte that is a token. -/
theorem scanFrom_cons_token {s s' : State} {b : UInt8} {t : Token}
    (h : s.step b = some ([t], s')) (rest : Text) :
    scanFrom s (b :: rest) = (scanFrom s' rest).map (t :: ·) := by
  simp [scanFrom, h]

theorem scan_blank (rest : Text) : scan (byte ' ' :: rest) = scan rest :=
  scanFrom_cons_silent (by decide) rest

/-- An opening parenthesis is a token, wherever the text goes on. -/
theorem scan_opening (rest : Text) :
    scan (byte '(' :: rest) = (scan rest).map (.opening :: ·) :=
  scanFrom_cons_token (by decide) rest

theorem scan_closing (rest : Text) :
    scan (byte ')' :: rest) = (scan rest).map (.closing :: ·) :=
  scanFrom_cons_token (by decide) rest

/-! ## Names

Inside backticks every byte is part of the name; two backticks are one. -/

/-- The bytes of a name and the backtick that closes it. Backticks in the name are doubled; whether the last
one closes the name is seen at the byte behind it only, so it is still pending. -/
theorem scanFrom_quoted (name done rest : Text) :
    scanFrom (.quoted done)
        (name.flatMap (fun b => if b == byte '\x60' then [b, b] else [b]) ++ byte '\x60' :: rest)
      = scanFrom (.tick (done ++ name)) rest := by
  induction name generalizing done with
  | nil =>
    rw [List.flatMap_nil, List.nil_append, List.append_nil]
    exact scanFrom_cons_silent (by simp [State.step]) rest
  | cons b name ih =>
    have hname := ih (done ++ [b])
    rw [List.append_assoc, List.singleton_append] at hname
    rw [List.flatMap_cons]
    by_cases hb : b == byte '\x60'
    -- A backtick is written twice: the first one may close the name, the second takes that back.
    · have hfirst : (State.quoted done).step b = some ([], .tick done) := by simp [State.step, hb]
      have hsecond : (State.tick done).step b = some ([], .quoted (done ++ [b])) := by
        simp [State.step, hb]
      rw [if_pos hb, List.append_assoc, List.cons_append, List.cons_append, List.nil_append,
        scanFrom_cons_silent hfirst, scanFrom_cons_silent hsecond, hname]
    · have hstep : (State.quoted done).step b = some ([], .quoted (done ++ [b])) := by
        simp [State.step, hb]
      rw [if_neg hb, List.append_assoc, List.cons_append, List.nil_append,
        scanFrom_cons_silent hstep, hname]

/-- A name between backticks is one token, whatever bytes are in it. -/
theorem scan_identifier (name : Text) {rest : Text} (hrest : Boundary rest) :
    scan (identifier name ++ rest) = (scan rest).map (.ident name :: ·) := by
  have hname := scanFrom_quoted name [] rest
  rw [List.nil_append, scanFrom_of_pending rfl hrest] at hname
  have hstart : State.between.step (byte '\x60') = some ([], .quoted []) := by decide
  rw [identifier, List.cons_append, List.cons_append, List.append_assoc, List.singleton_append,
    scan, scanFrom_cons_silent hstart, hname]

/-! ## Words, signs and placeholders -/

/-- A run of bytes that each leave the scanner in a state of the same kind. -/
theorem scanFrom_run {p : UInt8 → Bool} (state : Text → State)
    (hstep : ∀ done b, p b → (state done).step b = some ([], state (done ++ [b])))
    (w done rest : Text) (hw : w.all p) :
    scanFrom (state done) (w ++ rest) = scanFrom (state (done ++ w)) rest := by
  induction w generalizing done with
  | nil => rw [List.nil_append, List.append_nil]
  | cons b w ih =>
    rw [List.all_cons, Bool.and_eq_true] at hw
    rw [List.cons_append, scanFrom_cons_silent (hstep done b hw.1), ih (done ++ [b]) hw.2,
      List.append_assoc, List.singleton_append]

/-- A run of letters in front of a boundary is a word. -/
theorem scan_word {w rest : Text} (hw : w.all Text.isLetter) (hne : w ≠ [])
    (hrest : Boundary rest) : scan (w ++ rest) = (scan rest).map (.word w :: ·) := by
  obtain ⟨b, w, rfl⟩ := List.exists_cons_of_ne_nil hne
  rw [List.all_cons, Bool.and_eq_true] at hw
  have hstart : State.between.step b = some ([], .letters [b]) := by
    -- The bytes that are tested before the letters are no letters.
    have hother : b ≠ byte ' ' ∧ b ≠ byte '\x60' ∧ b ≠ byte '(' ∧ b ≠ byte ')' ∧ b ≠ byte '$' := by
      refine ⟨?_, ?_, ?_, ?_, ?_⟩ <;> rintro rfl <;> exact absurd hw.1 (by decide)
    simp [State.step, start, hother, hw.1]
  have hrun := scanFrom_run .letters (fun done b hb => by simp [State.step, hb])
    w [b] rest hw.2
  rw [List.cons_append, scan, scanFrom_cons_silent hstart, hrun,
    scanFrom_of_pending rfl hrest, List.singleton_append]

/-- A run of comparison signs in front of a boundary is one sign. -/
theorem scan_sign {s rest : Text} (hs : s.all isSign) (hne : s ≠ [])
    (hrest : Boundary rest) : scan (s ++ rest) = (scan rest).map (.sign s :: ·) := by
  obtain ⟨b, s, rfl⟩ := List.exists_cons_of_ne_nil hne
  rw [List.all_cons, Bool.and_eq_true] at hs
  have hstart : State.between.step b = some ([], .signs [b]) := by
    have hb := hs.1
    simp only [isSign, Bool.or_eq_true, beq_iff_eq] at hb
    rcases hb with ((rfl | rfl) | rfl) | rfl <;> decide
  have hrun := scanFrom_run .signs (fun done b hb => by simp [State.step, hb])
    s [b] rest hs.2
  rw [List.cons_append, scan, scanFrom_cons_silent hstart, hrun,
    scanFrom_of_pending rfl hrest, List.singleton_append]

/-- The byte of a digit is one, with the same value. Digits are written as characters and scanned as bytes.
-/
theorem byte_of_isDigit {c : Char} (hc : c.isDigit) :
    Text.isDigit (byte c) ∧ digitValue (byte c) = c.toNat - 48 := by
  have hrange : 48 ≤ c.toNat ∧ c.toNat ≤ 57 := by
    simpa [Char.isDigit, UInt32.le_iff_toNat_le] using hc
  have hbyte : (byte c).toNat = c.toNat := by
    -- A digit is far below 256, so nothing of it is cut off.
    have hnat : (byte c).toNat = c.toNat % 256 := UInt32.toNat_toUInt8 c.val
    omega
  constructor
  · simp [Text.isDigit, UInt8.le_iff_toNat_le, hbyte, hrange]
  · rw [digitValue, hbyte]

/-- A digit adds a place to the number that is being read. -/
theorem scanFrom_digits (cs : List Char) (m : Nat) (rest : Text) (hcs : ∀ c ∈ cs, c.isDigit) :
    scanFrom (.digits m) (cs.map byte ++ rest)
      = scanFrom (.digits (Nat.ofDigitChars 10 cs m)) rest := by
  induction cs generalizing m with
  | nil => rfl
  | cons c cs ih =>
    obtain ⟨hdigit, hvalue⟩ := byte_of_isDigit (hcs c (by simp))
    have hstep : (State.digits m).step (byte c) = some ([], .digits (10 * m + (c.toNat - 48))) := by
      simp [State.step, hdigit, hvalue]
    rw [List.map_cons, List.cons_append, scanFrom_cons_silent hstep,
      ih _ (fun c' hc' => hcs c' (by simp [hc'])), Nat.ofDigitChars_cons]
    rfl

theorem scan_placeholder (n : Nat) {rest : Text} (hrest : Boundary rest) :
    scan (Binder.placeholder n ++ rest) = (scan rest).map (.placeholder n :: ·) := by
  have hcs : ∀ c ∈ Nat.toDigits 10 n, c.isDigit :=
    fun c hc => Nat.isDigit_of_mem_toDigits (by decide) (by decide) hc
  have hvalue : Nat.ofDigitChars 10 (Nat.toDigits 10 n) 0 = n := Nat.ofDigitChars_ten_toDigits
  -- The first digit moves the scanner on from the dollar sign, the others add a place each.
  obtain ⟨c, cs, hdigits⟩ := List.exists_cons_of_ne_nil (Nat.toDigits_ne_nil (n := n) (b := 10))
  rw [hdigits] at hcs hvalue
  obtain ⟨hdigit, hc⟩ := byte_of_isDigit (hcs c (by simp))
  have hdollar : State.between.step (byte '$') = some ([], .dollar) := by decide
  have hfirst : State.dollar.step (byte c) = some ([], .digits (c.toNat - 48)) := by
    simp [State.step, hdigit, hc]
  have hrun := scanFrom_digits cs (c.toNat - 48) rest (fun c' hc' => hcs c' (by simp [hc']))
  have hn : Nat.ofDigitChars 10 cs (c.toNat - 48) = n := by
    rw [← hvalue, Nat.ofDigitChars_cons, Nat.mul_zero, Nat.zero_add]
    rfl
  rw [Binder.placeholder, Text.ofNat, hdigits, List.map_cons, List.cons_append, List.cons_append,
    scan, scanFrom_cons_silent hdollar, scanFrom_cons_silent hfirst, hrun, hn,
    scanFrom_of_pending rfl hrest]

end Token
end DocFilter
