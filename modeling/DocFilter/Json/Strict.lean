import DocFilter.Json.Reader

/-!
Interchange documents by the letter of the grammar. A machine goes through a text byte by byte and
knows at every point what may come next; the objects and arrays that are open stand on a stack.
Unlike `Json.parse` it refuses numbers of other spellings than the grammar's, controls in strings,
and collections that stand too deep within each other, as `Json.read` does.
-/

set_option autoImplicit false

namespace DocFilter.Json

namespace Strict

open Text (byte isDigit)

/-- A collection that is open. -/
inductive Place where
  /-- An object whose last string was the name of a member. -/
  | name
  /-- An object whose last value was that of a member. -/
  | member
  | array
  deriving DecidableEq, Repr

/-- What may come next. -/
inductive Phase where
  | value
  /-- The first element of an array, or its end. -/
  | firstItem
  /-- The first name of an object, or its end. -/
  | firstName
  | nextName
  /-- Whatever may follow a value. -/
  | after
  | string
  | escape
  /-- More digits of an escape by number. -/
  | hex (left : Nat)
  /-- More letters of a constant. -/
  | word (left : Text)
  | minus
  | zero
  | digits
  | point
  | places
  | exponent
  | exponentSign
  | exponentDigits
  deriving DecidableEq, Repr

/-- The state of the machine: what may come next, and the open collections from the innermost on. -/
abbrev State := Phase × List Place

/-- Opens a collection. -/
def openPlace (place : Place) (next : Phase) (stack : List Place) : Option State :=
  if stack.length < maxDepth then some (next, place :: stack) else none

/-- The first byte of a value. -/
def beginValue (b : UInt8) (stack : List Place) : Option State :=
  if b == byte '\x7b' then openPlace .name .firstName stack
  else if b == byte '[' then openPlace .array .firstItem stack
  else if b == byte '"' then some (.string, stack)
  else if b == byte '-' then some (.minus, stack)
  else if b == byte '0' then some (.zero, stack)
  else if isDigit b then some (.digits, stack)
  else if b == byte 't' then some (.word "rue", stack)
  else if b == byte 'f' then some (.word "alse", stack)
  else if b == byte 'n' then some (.word "ull", stack)
  else none

/-- A byte after a value that is complete. -/
def afterValue (b : UInt8) (stack : List Place) : Option State :=
  if isSpace b then some (.after, stack)
  else
    match stack with
    | .name :: outer => if b == byte ':' then some (.value, .member :: outer) else none
    | .member :: outer =>
      if b == byte ',' then some (.nextName, .name :: outer)
      else if b == byte '\x7d' then some (.after, outer)
      else none
    | .array :: outer =>
      if b == byte ',' then some (.value, stack)
      else if b == byte ']' then some (.after, outer)
      else none
    | [] => none

/-- A byte where a number may go on with an exponent or end. -/
def exponentOrAfter (b : UInt8) (stack : List Place) : Option State :=
  if b == byte 'e' || b == byte 'E' then some (.exponent, stack) else afterValue b stack

/-- A byte where a number may go on with a point or an exponent or end. -/
def pointOrAfter (b : UInt8) (stack : List Place) : Option State :=
  if b == byte '.' then some (.point, stack) else exponentOrAfter b stack

/-- One byte. -/
def step : State → UInt8 → Option State
  | (.value, stack), b => if isSpace b then some (.value, stack) else beginValue b stack
  | (.firstItem, stack), b =>
    if isSpace b then some (.firstItem, stack)
    else if b == byte ']' then some (.after, stack.drop 1)
    else beginValue b stack
  | (.firstName, stack), b =>
    if isSpace b then some (.firstName, stack)
    else if b == byte '\x7d' then some (.after, stack.drop 1)
    else if b == byte '"' then some (.string, stack)
    else none
  | (.nextName, stack), b =>
    if isSpace b then some (.nextName, stack)
    else if b == byte '"' then some (.string, stack)
    else none
  | (.after, stack), b => afterValue b stack
  | (.string, stack), b =>
    if b == byte '"' then some (.after, stack)
    else if b == byte '\\' then some (.escape, stack)
    else if b < 0x20 then none
    else some (.string, stack)
  | (.escape, stack), b =>
    if b == byte 'u' then some (.hex 4, stack)
    else (Lexeme.simpleEscape? b).map fun _ => (.string, stack)
  | (.hex left, stack), b =>
    if !isHexDigit b then none
    else if left ≤ 1 then some (.string, stack)
    else some (.hex (left - 1), stack)
  | (.word left, stack), b =>
    match left with
    | [] => afterValue b stack
    | letter :: more =>
      if b != letter then none
      else if more.isEmpty then some (.after, stack)
      else some (.word more, stack)
  | (.minus, stack), b =>
    if b == byte '0' then some (.zero, stack)
    else if isDigit b then some (.digits, stack)
    else none
  | (.zero, stack), b => pointOrAfter b stack
  | (.digits, stack), b => if isDigit b then some (.digits, stack) else pointOrAfter b stack
  | (.point, stack), b => if isDigit b then some (.places, stack) else none
  | (.places, stack), b => if isDigit b then some (.places, stack) else exponentOrAfter b stack
  | (.exponent, stack), b =>
    if b == byte '+' || b == byte '-' then some (.exponentSign, stack)
    else if isDigit b then some (.exponentDigits, stack)
    else none
  | (.exponentSign, stack), b => if isDigit b then some (.exponentDigits, stack) else none
  | (.exponentDigits, stack), b =>
    if isDigit b then some (.exponentDigits, stack) else afterValue b stack

/-- Whether a text is one document and nothing else. A blank at its end closes a number that goes up
to there. -/
def accepts (t : Text) : Bool :=
  match (t ++ [byte ' ']).foldlM step (.value, []) with
  | some (.after, []) => true
  | _ => false

end Strict

/-- Reads an interchange document that keeps to the grammar. Bytes that belong to no character are
replaced. -/
def parseStrict (t : Text) : Except Malformed Json :=
  if Strict.accepts t then parse (Text.repaired t) else .error .malformed

end DocFilter.Json
