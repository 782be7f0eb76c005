import DocFilter.Text.Quoted
import DocFilter.Value.Coerce

/-!
Flags among the words of a command line. A flag is written with two hyphens and its name, or with one
hyphen and its letter, and flags and other words may stand in any order. The value of a flag follows
after an equals sign or as the next word; a letter may also be followed by the value right away, and
letters of switches may stand together behind one hyphen. Two hyphens alone end the flags.
-/

set_option autoImplicit false

namespace DocFilter.CommandLine

open Text (byte)

/-- A flag. A switch is on or off and needs no value; any other flag has a text. -/
structure Flag where
  name : Text
  letter : Option UInt8 := none
  isSwitch : Bool := false
  deriving DecidableEq, Repr

/-- What can be wrong with the flags. -/
inductive FlagError where
  | unknown (name : Text)
  /-- A word with a name that no flag can have. -/
  | malformed (word : Text)
  | valueMissing (name : Text)
  /-- A letter that stands for no flag, with the letters from it on. -/
  | unknownLetter (letter : UInt8) (group : Text)
  | letterValueMissing (letter : UInt8)
  /-- A value that is neither on nor off. -/
  | notTruth (flag : Flag) (given : Text)
  deriving DecidableEq, Repr

/-- How a message shows a letter. A byte beyond ASCII is shown by the first byte of the character
with its number. -/
def shownLetter (b : UInt8) : Text :=
  let c := Char.ofNat (if b < 0x80 then b.toNat else if b < 0xC0 then 0xC2 else 0xC3)
  let inner : Text :=
    if c == '"' then Text.ofChar c else if c == '\'' then byte '\\' :: Text.ofChar c else Text.quotedChar c
  byte '\'' :: inner ++ [byte '\'']

/-- How a message shows a flag. -/
def Flag.shown (f : Flag) : Text :=
  match f.letter with
  | some b => "-" ++ [b] ++ ", --" ++ f.name
  | none => "--" ++ f.name

/-- The words of the error. -/
def FlagError.message : FlagError → Text
  | .unknown name => "unknown flag: --" ++ name
  | .malformed word => "bad flag syntax: " ++ word
  | .valueMissing name => "flag needs an argument: --" ++ name
  | .unknownLetter b group => "unknown shorthand flag: " ++ shownLetter b ++ " in -" ++ group
  | .letterValueMissing b => "flag needs an argument: " ++ shownLetter b ++ " in -" ++ [b]
  | .notTruth f given =>
    "invalid argument " ++ Text.quoted given ++ " for " ++ Text.quoted f.shown ++ " flag: " ++
      (CoerceError.truth given).message

/-- The words of a command line taken apart. -/
structure Words where
  /-- The flags that were set, the last first. -/
  flags : List (Text × Text) := []
  arguments : List Text := []

namespace Words

/-- The text of a flag, empty if it was not set. -/
def text (w : Words) (name : String) : Text := (w.flags.lookup (Text.ofString name)).getD []

/-- Whether a switch is on. -/
def isOn (w : Words) (name : String) : Bool := (Value.readBool? (w.text name)).getD false

/-- Sets a flag. -/
def set (w : Words) (f : Flag) (given : Text) : Except FlagError Words :=
  if f.isSwitch && (Value.readBool? given).isNone then .error (.notTruth f given)
  else .ok { w with flags := (f.name, given) :: w.flags }

/-- Adds an argument. -/
def add (w : Words) (arguments : List Text) : Words :=
  { w with arguments := w.arguments ++ arguments }

end Words

/-- The value of a switch that is only named. -/
def on : Text := "true"

/-- Takes apart the letters after a hyphen. The result has the flag that is still in want of a value,
with its letter. Letters that are meant for a test run are passed over. -/
def takeLetters (flags : List Flag) : Text → Words → Except FlagError (Words × Option (Flag × UInt8))
  | [], w => .ok (w, none)
  | b :: rest, w =>
    if (Text.ofString "test.").isPrefixOf (b :: rest) then .ok (w, none)
    else
      match flags.find? (·.letter == some b) with
      | none => .error (.unknownLetter b (b :: rest))
      | some f =>
        if rest.head? == some (byte '=') && 1 < rest.length then do
          return (← w.set f (rest.drop 1), none)
        else if f.isSwitch then
          match w.set f on with
          | .error e => .error e
          | .ok w => takeLetters flags rest w
        else if rest.isEmpty then .ok (w, some (f, b))
        else do return (← w.set f rest, none)

/-- Takes apart the words of a command line. -/
def takeWords (flags : List Flag) : List Text → Words → Except FlagError Words
  | [], w => .ok w
  | word :: rest, w =>
    match word with
    | a :: b :: more =>
      if a != byte '-' then takeWords flags rest (w.add [word])
      else if b == byte '-' then
        if more.isEmpty then .ok (w.add rest)
        else if more.head? == some (byte '-') || more.head? == some (byte '=') then
          .error (.malformed word)
        else
          let (name, given) := Text.cutAt (byte '=') more
          match flags.find? (·.name == name), given with
          | none, _ => .error (.unknown name)
          | some f, some given =>
            match w.set f given with
            | .error e => .error e
            | .ok w => takeWords flags rest w
          | some f, none =>
            if f.isSwitch then
              match w.set f on with
              | .error e => .error e
              | .ok w => takeWords flags rest w
            else
              match rest with
              | [] => .error (.valueMissing name)
              | given :: rest =>
                match w.set f given with
                | .error e => .error e
                | .ok w => takeWords flags rest w
      else
        match takeLetters flags (b :: more) w with
        | .error e => .error e
        | .ok (w, none) => takeWords flags rest w
        | .ok (w, some (f, letter)) =>
          match rest with
          | [] => .error (.letterValueMissing letter)
          | given :: rest =>
            match w.set f given with
            | .error e => .error e
            | .ok w => takeWords flags rest w
    | _ => takeWords flags rest (w.add [word])

end DocFilter.CommandLine
