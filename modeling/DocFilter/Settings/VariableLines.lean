import DocFilter.Document.Lexeme
import DocFilter.Settings.Dotenv

/-!
Files of settings that are written as variables. They look like the files that `Dotenv` reads, and
are read by other rules: every line has to match one pattern as a whole, a value in quotes may go on
over several lines, and a reference means a variable of the environment before it means one from
further up in the file.
-/

set_option autoImplicit false

namespace DocFilter.VariableLines

open Text (byte isDigit)
open Dotenv (Variables)

/-- What can be wrong with such a file. -/
inductive LineError where
  /-- A line that does not match the pattern. -/
  | mismatch (line : Text)
  /-- A marker for export with a variable that is not set. -/
  | unsetExport (line : Text)
  | openQuote
  /-- A line that is longer than a reader of lines keeps. -/
  | tooLong
  deriving DecidableEq, Repr

/-- The words of the error. -/
def LineError.message : LineError → Text
  | .mismatch line => "line `" ++ line ++ "` doesn't match format"
  | .unsetExport line => "line `" ++ line ++ "` has an unset variable"
  | .openQuote => "missing quotes"
  | .tooLong => "bufio.Scanner: token too long"

/-! ## Bytes and lines -/

/-- The characters of 16-bit words, a pair of surrogates being one character. -/
def ofWords : List Nat → List Char
  | [] => []
  | [n] => [if Lexeme.isHigh n || Lexeme.isLow n then Text.replacement else Char.ofNat n]
  | n :: low :: rest =>
    if Lexeme.isHigh n && Lexeme.isLow low then
      Char.ofNat (0x10000 + (n - 0xD800) * 0x400 + (low - 0xDC00)) :: ofWords rest
    else
      (if Lexeme.isHigh n || Lexeme.isLow n then Text.replacement else Char.ofNat n) ::
        ofWords (low :: rest)

/-- The 16-bit words of bytes; a single byte at the end is no character. -/
def words (bigEndian : Bool) : Text → List Nat
  | a :: b :: rest =>
    (if bigEndian then 256 * a.toNat + b.toNat else 256 * b.toNat + a.toNat) :: words bigEndian rest
  | [_] => [0xFFFD]
  | [] => []

/-- The text of a file that begins with a mark of its encoding. -/
def decoded : Text → Text
  | 0xEF :: 0xBB :: 0xBF :: rest => Text.repaired rest
  | 0xFF :: 0xFE :: rest => Text.ofChars (ofWords (words false rest))
  | 0xFE :: 0xFF :: rest => Text.ofChars (ofWords (words true rest))
  | t => t

/-- The lines of a text. A line feed, a carriage return and one of each end a line. -/
def lines : Text → List Text
  | [] => [[]]
  | 0x0D :: 0x0A :: rest => [] :: lines rest
  | b :: rest =>
    if b == 0x0A || b == 0x0D then [] :: lines rest
    else
      match lines rest with
      | [] => [[b]]
      | line :: more => (b :: line) :: more

/-- The length from which on a line is not kept. -/
def maxLine : Nat := 65536

/-! ## Quotes over several lines -/

/-- The place of the last occurrence of a byte. -/
def lastIndex? (q : UInt8) : Text → Option Nat
  | [] => none
  | b :: rest =>
    match lastIndex? q rest with
    | some n => some (n + 1)
    | none => if b == q then some 0 else none

/-- The quote that a value opens on its line and does not close there. The value begins behind the
first equals sign, or colon if there is none. -/
def openQuote? (line : Text) : Option UInt8 :=
  let at? := (line.findIdx? (· == byte '=')).or (line.findIdx? (· == byte ':'))
  match at? with
  | none => none
  | some i =>
    if i == 0 || line.length ≤ i + 1 then none
    else
      let value := Text.trim (line.drop (i + 1))
      match value with
      | [] => none
      | q :: rest =>
        if q != byte '"' && q != byte '\'' then none
        else
          match lastIndex? q (Text.trim rest) with
          | some n => if value[n]? == some (byte '\\') then some q else none
          | none => some q

/-- Whether a line closes a quote. Only its last occurrence counts, and a backslash before it takes
its meaning away. -/
def closes (q : UInt8) (t : Text) : Bool :=
  match lastIndex? q t with
  | none => false
  | some 0 => true
  | some (n + 1) => t[n]? != some (byte '\\')

/-- Adds lines up to the one that closes a quote; the statement and the lines after it. -/
def untilClosed (q : UInt8) (statement : Text) : List Text → Option (Text × List Text)
  | [] => none
  | line :: rest =>
    let statement := statement ++ 0x0A :: line
    if closes q line then some (statement, rest) else untilClosed q statement rest

/-! ## The pattern of a line -/

/-- The blanks of the pattern. -/
def isSpace (b : UInt8) : Bool := b == 0x09 || b == 0x0A || b == 0x0C || b == 0x0D || b == 0x20

/-- The bytes of a name. -/
def isNameByte (b : UInt8) : Bool := Text.isLetter b || isDigit b || b == byte '_' || b == byte '.'

/-- Whether nothing follows but blanks and a comment on one line. -/
def isTail (t : Text) : Bool :=
  match t.dropWhile isSpace with
  | [] => true
  | b :: rest => b == byte '#' && !rest.contains 0x0A

/-- The place of the last quote with nothing behind it but a tail. -/
def lastClose? (q : UInt8) : Text → Option Nat
  | [] => none
  | b :: rest =>
    match lastClose? q rest with
    | some n => some (n + 1)
    | none => if b == q && isTail rest then some 0 else none

/-- A value in quotes, as long as can be. -/
def quotedValue? : Text → Option Text
  | [] => none
  | q :: rest =>
    if q == byte '"' || q == byte '\'' then
      (lastClose? q rest).map fun n => q :: rest.take (n + 1)
    else none

/-- A value without quotes: what stands before a comment and the end of the line. -/
def bareValue? (t : Text) : Option Text :=
  let run := t.takeWhile fun b => b != byte '#' && b != 0x0A
  if !run.isEmpty && isTail (t.drop run.length) then some run else none

/-- The value at a place: in quotes, without quotes, or none at all. -/
def valueAt? (t : Text) : Option Text :=
  (quotedValue? t).or ((bareValue? t).or (if isTail t then some [] else none))

/-- The value behind a name. Behind an equals sign all blanks are skipped, behind a colon as few as
possible and at least one. -/
def valueAfter? (t : Text) : Option Text :=
  match t.dropWhile isSpace with
  | [] => none
  | b :: rest =>
    if b == byte '=' then valueAt? (rest.dropWhile isSpace)
    else
      match t with
      | c :: rest =>
        if c == byte ':' then
          (List.range (rest.takeWhile isSpace).length).findSome? fun k => valueAt? (rest.drop (k + 1))
        else none
      | [] => none

/-- A name and the value behind it. -/
def pair? (t : Text) : Option (Text × Text) :=
  let name := t.takeWhile isNameByte
  if name.isEmpty then none else (valueAfter? (t.drop name.length)).map (name, ·)

/-- Matches a statement: its name and its value as they are written. -/
def match? (statement : Text) : Option (Text × Text) :=
  let t := statement.dropWhile isSpace
  let marker := Text.ofString "export"
  let rest := t.drop marker.length
  let exported? :=
    if marker.isPrefixOf t && rest.head?.any isSpace then pair? (rest.dropWhile isSpace) else none
  exported?.or (pair? t)

/-! ## Values -/

/-- A byte for every escape with a letter. -/
def unescape (letter b : UInt8) : Text → Text
  | a :: c :: rest =>
    if a == byte '\\' && c == letter then b :: unescape letter b rest
    else a :: unescape letter b (c :: rest)
  | t => t

/-- What a value that was matched means. Quotes are taken off; between double quotes there are
escapes, and except between single quotes there are references. -/
def meaning (env : Text → Option Text) (vars : Variables) (written : Text) : Text :=
  let t := Text.trim written
  let isQuoted (q : UInt8) : Bool := 2 ≤ t.length && t.head? == some q && t.getLast? == some q
  let inner := (t.drop 1).take (t.length - 2)
  let refer (t : Text) : Text :=
    Dotenv.expandFrom false (fun name => ((env name).or (vars.lookup name)).getD []) 0 t
  if isQuoted (byte '\'') then inner
  else if isQuoted (byte '"') then
    refer (Dotenv.dropBackslashes (unescape (byte 'r') 0x0D (unescape (byte 'n') 0x0A inner)))
  else refer t

/-- Why a statement that matches nothing cannot be used. -/
def mismatch (vars : Variables) (statement : Text) : LineError :=
  let t := Text.trim statement
  match (Text.ofString "export").isPrefixOf t, Text.cutAt (byte ' ') t with
  | true, (_, some name) => if (vars.lookup name).isSome then .mismatch statement else .unsetExport t
  | _, _ => .mismatch statement

/-- Reads a statement. -/
def readStatement (env : Text → Option Text) (vars : Variables) (statement : Text) :
    Except LineError Variables :=
  match match? statement with
  | some (name, written) => .ok (Dotenv.set vars name (meaning env vars written))
  | none => .error (mismatch vars statement)

/-- Reads statement after statement; each takes a line, so as many steps as there are lines are
enough. -/
def readLines (env : Text → Option Text) :
    (steps : Nat) → Variables → List Text → Except LineError Variables
  | _, vars, [] => .ok vars
  | 0, vars, _ => .ok vars
  | steps + 1, vars, line :: rest =>
    let statement := Text.trim line
    if statement.isEmpty || statement.head? == some (byte '#') then readLines env steps vars rest
    else
      match openQuote? statement with
      | none => do readLines env steps (← readStatement env vars statement) rest
      | some q =>
        match untilClosed q statement rest with
        | none => .error .openQuote
        | some (statement, rest) => do readLines env steps (← readStatement env vars statement) rest

/-- Reads a file of settings that is written as variables, in a given environment. -/
def parse (env : Text → Option Text) (t : Text) : Except LineError Variables := do
  let all := lines (decoded t)
  let kept := all.takeWhile (·.length < maxLine)
  let vars ← readLines env kept.length [] kept
  if kept.length < all.length then .error .tooLong else return vars

end DocFilter.VariableLines
