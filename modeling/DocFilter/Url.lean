import DocFilter.Text.Case
import DocFilter.Text.Quoted

/-!
Addresses of servers. An address is taken apart into its components, each of them freed from
percent escapes, and is written again with the escapes that each component needs.
-/

set_option autoImplicit false

namespace DocFilter

open Text (byte)

/-- Who asks, as it can stand in an address. -/
structure Userinfo where
  name : Text
  password : Option Text
  deriving DecidableEq, Repr

/-- The components of an address. -/
structure Url where
  scheme : Text := []
  /-- What follows the scheme if no path does. -/
  opaquePart : Text := []
  user : Option Userinfo := none
  host : Text := []
  path : Text := []
  /-- The path as it was written, if its escapes are not the usual ones. -/
  rawPath : Text := []
  /-- Whether a path follows the scheme with no host between them. -/
  omitHost : Bool := false
  /-- Whether there is a question mark, even with nothing after it. -/
  hasQuery : Bool := false
  query : Text := []
  fragment : Text := []
  deriving Repr

namespace Url

/-- What can be wrong with an address. -/
inductive Fault where
  | controlCharacter
  | missingScheme
  | colonInFirstSegment
  | invalidPort (port : Text)
  | missingBracket
  | invalidUserinfo
  | invalidEscape (escape : Text)
  | invalidHostCharacter (c : Text)
  deriving DecidableEq, Repr

/-- The words of a fault. -/
def Fault.message : Fault → Text
  | .controlCharacter => "net/url: invalid control character in URL"
  | .missingScheme => "missing protocol scheme"
  | .colonInFirstSegment => "first path segment in URL cannot contain colon"
  | .invalidPort port => "invalid port " ++ Text.quoted port ++ " after host"
  | .missingBracket => "missing ']' in host"
  | .invalidUserinfo => "net/url: invalid userinfo"
  | .invalidEscape e => "invalid URL escape " ++ Text.quoted e
  | .invalidHostCharacter c => "invalid character " ++ Text.quoted c ++ " in host name"

/-- An address that cannot be used, with its fault. -/
structure ParseError where
  url : Text
  fault : Fault
  deriving DecidableEq, Repr

/-- The words of the error. -/
def ParseError.message (e : ParseError) : Text :=
  "parse " ++ Text.quoted e.url ++ ": " ++ e.fault.message

/-! ## Escapes -/

/-- The components that differ in what has to be escaped. -/
inductive Component where
  | host
  | userinfo
  | path
  | fragment
  deriving DecidableEq, Repr

/-- Whether a byte is one of the characters of a string. -/
def isOneOf (s : String) (b : UInt8) : Bool := s.toList.any (byte · == b)

/-- Whether a byte has to be escaped in a component. -/
def needsEscape (c : Component) (b : UInt8) : Bool :=
  if Text.isLetter b || Text.isDigit b || isOneOf "-_.~" b then false
  else if c == .host && isOneOf "!$&'()*+,;=:[]<>\"" b then false
  else if isOneOf "$&+,/:;=?@" b then
    match c with
    | .path => b == byte '?'
    | .userinfo => isOneOf "@/?:" b
    | .fragment => false
    | .host => true
  else !(c == .fragment && isOneOf "!()*" b)

/-- A component with its escapes. -/
def escape (c : Component) (t : Text) : Text :=
  t.flatMap fun b =>
    if needsEscape c b then
      byte '%' :: (Text.hex 2 b.toNat).map fun d => if 0x61 ≤ d then d - 0x20 else d
    else [b]

/-- The value of a hexadecimal digit. -/
def hexValue? (b : UInt8) : Option Nat := (Text.digitValue? b).filter (· < 16)

/-- A component freed from its escapes, where `skip` bytes of an escape are already read. In a host
only bytes outside ASCII can be escaped, and the percent sign. -/
def unescapeFrom (c : Component) : (skip : Nat) → Text → Except Fault Text
  | _, [] => .ok []
  | skip + 1, _ :: rest => unescapeFrom c skip rest
  | 0, b :: rest =>
    if b == byte '%' then
      match rest with
      | h :: l :: _ =>
        match hexValue? h, hexValue? l with
        | some x, some y =>
          if c == .host && x < 8 && x * 16 + y != 0x25 then .error (.invalidEscape [b, h, l])
          else do return UInt8.ofNat (x * 16 + y) :: (← unescapeFrom c 2 rest)
        | _, _ => .error (.invalidEscape [b, h, l])
      | short => .error (.invalidEscape (b :: short))
    else if c == .host && b < 0x80 && needsEscape .host b then .error (.invalidHostCharacter [b])
    else do return b :: (← unescapeFrom c 0 rest)

/-- A component freed from its escapes. -/
def unescape (c : Component) (t : Text) : Except Fault Text := unescapeFrom c 0 t

/-! ## Reading -/

/-- The scheme of an address and what follows its colon, if it has one. -/
def splitScheme (t : Text) : Except Fault (Text × Text) :=
  let first := t.takeWhile fun b => Text.isLetter b || Text.isDigit b || isOneOf "+-." b
  let rest := t.drop first.length
  if rest.head? == some (byte ':') then
    match first with
    | [] => .error .missingScheme
    | b :: _ => if Text.isLetter b then .ok (first, rest.drop 1) else .ok ([], t)
  else .ok ([], t)

/-- The text before the last occurrence of a byte, if there is one, and the text after it. -/
def cutAtLast (sep : UInt8) (t : Text) : Option Text × Text :=
  let after := (t.reverse.takeWhile (· != sep)).reverse
  if after.length == t.length then (none, t) else (some (t.take (t.length - after.length - 1)), after)

/-- Whether a text is empty or a colon with digits. -/
def isPort (t : Text) : Bool :=
  match t with
  | [] => true
  | b :: digits => b == byte ':' && digits.all Text.isDigit

/-- Reads a host and its port. -/
def readHost (t : Text) : Except Fault Text :=
  if t.head? == some (byte '[') then
    match cutAtLast (byte ']') t with
    | (none, _) => .error .missingBracket
    | (some _, port) => if isPort port then unescape .host t else .error (.invalidPort port)
  else
    match cutAtLast (byte ':') t with
    | (none, _) => unescape .host t
    | (some _, digits) =>
      let port := byte ':' :: digits
      if isPort port then unescape .host t else .error (.invalidPort port)

/-- Whether a byte can stand in the part of an address that says who asks. -/
def isUserinfoByte (b : UInt8) : Bool :=
  Text.isLetter b || Text.isDigit b || isOneOf "-._:~!$&'()*+,;=%@" b

/-- Reads who asks. -/
def readUserinfo (t : Text) : Except Fault Userinfo :=
  if !t.all isUserinfoByte then .error .invalidUserinfo
  else do
    let (name, password) := Text.cutAt (byte ':') t
    let name ← unescape .userinfo name
    match password with
    | none => return ⟨name, none⟩
    | some p => return ⟨name, some (← unescape .userinfo p)⟩

/-- Reads the part of an address that names the server. -/
def readAuthority (t : Text) : Except Fault (Option Userinfo × Text) := do
  let (who, server) := cutAtLast (byte '@') t
  let host ← readHost server
  match who with
  | none => return (none, host)
  | some w => return (some (← readUserinfo w), host)

/-- Whether a byte is a control character. -/
def isControl (b : UInt8) : Bool := b < 0x20 || b == 0x7F

/-- Takes a path into an address. -/
def withPath (u : Url) (raw : Text) : Except Fault Url := do
  let path ← unescape .path raw
  return { u with path, rawPath := if escape .path path == raw then [] else raw }

/-- Reads an address without its fragment. -/
def readMain (t : Text) : Except Fault Url := do
  if t.any isControl then .error .controlCharacter
  let (scheme, rest) ← splitScheme t
  let scheme := Text.toLower scheme
  let (rest, query) := Text.cutAt (byte '?') rest
  let u : Url := { scheme, hasQuery := query.isSome, query := query.getD [] }
  let rooted := rest.head? == some (byte '/')
  if !rooted && !scheme.isEmpty then return { u with opaquePart := rest }
  if !rooted && (Text.cutAt (byte '/') rest).1.contains (byte ':') then .error .colonInFirstSegment
  let hasAuthority := (Text.ofString "//").isPrefixOf rest &&
    (!scheme.isEmpty || !(Text.ofString "///").isPrefixOf rest)
  if hasAuthority then
    let authority := (rest.drop 2).takeWhile (· != byte '/')
    let (user, host) ← readAuthority authority
    withPath { u with user, host } (rest.drop (2 + authority.length))
  else withPath { u with omitHost := !scheme.isEmpty && rooted } rest

/-- Reads an address. -/
def parse (t : Text) : Except ParseError Url :=
  let (main, fragment) := Text.cutAt (byte '#') t
  match readMain main with
  | .error fault => .error ⟨main, fault⟩
  | .ok u =>
    match unescape .fragment (fragment.getD []) with
    | .error fault => .error ⟨t, fault⟩
    | .ok fragment => .ok { u with fragment }

/-! ## Writing -/

/-- Who asks, as it stands in an address. -/
def userinfoText (u : Userinfo) : Text :=
  escape .userinfo u.name ++
    match u.password with
    | none => []
    | some p => byte ':' :: escape .userinfo p

/-- Whether a path as it was written needs no further escapes. -/
def isEscapedPath (t : Text) : Bool :=
  t.all fun b => isOneOf "!$&'()*+,;=:@[]%" b || !needsEscape .path b

/-- The path with its escapes. -/
def pathText (u : Url) : Text :=
  if !u.rawPath.isEmpty && isEscapedPath u.rawPath then u.rawPath else escape .path u.path

/-- The server with who asks it; `who` writes the latter. -/
def authorityText (who : Userinfo → Text) (u : Url) : Text :=
  if u.scheme.isEmpty && u.host.isEmpty && u.user.isNone then []
  else if u.omitHost && u.host.isEmpty && u.user.isNone then []
  else
    let slashes : Text := if u.host.isEmpty && u.path.isEmpty && u.user.isNone then [] else "//"
    let name : Text :=
      match u.user with
      | none => []
      | some w => who w ++ "@"
    slashes ++ name ++ escape .host u.host

/-- An address as it is written; `who` writes who asks. -/
def textWith (who : Userinfo → Text) (u : Url) : Text :=
  let scheme : Text := if u.scheme.isEmpty then [] else u.scheme ++ ":"
  let main : Text :=
    if !u.opaquePart.isEmpty then u.opaquePart
    else
      let path := pathText u
      let slash : Text :=
        if !path.isEmpty && path.head? != some (byte '/') && !u.host.isEmpty then "/" else []
      authorityText who u ++ slash ++ path
  let query : Text := if u.hasQuery then byte '?' :: u.query else []
  let fragment : Text := if u.fragment.isEmpty then [] else byte '#' :: escape .fragment u.fragment
  scheme ++ main ++ query ++ fragment

/-- An address as it is written. -/
def text (u : Url) : Text := textWith userinfoText u

/-- An address as it is shown in messages, which hide the password. -/
def shown (u : Url) : Text :=
  textWith (fun w =>
    match w.password with
    | none => userinfoText w
    | some _ => w.name ++ ":***") u

/-- The address with no colon after a host that has no port. -/
def withoutEmptyPort (u : Url) : Url :=
  if u.host.getLast? == some (byte ':') then { u with host := u.host.dropLast } else u

end Url
end DocFilter
