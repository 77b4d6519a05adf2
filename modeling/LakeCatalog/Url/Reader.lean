import LakeCatalog.Url.Host

/-!
# Web addresses

The parts of an address of a scheme that the web uses, in normal form: scheme and host in lower
case, the default port of the scheme left out, the path resolved into segments, and every
component percent-encoded. The text of an address puts the parts together.

An address as a person writes it, brought into normal form by the rules of the WHATWG URL standard
for texts without a base. Control characters and spaces at the ends, and tabs and line breaks
anywhere, do not count; a backslash separates like a slash; the number of slashes after the scheme
is free. Addresses of schemes outside the web are only checked, and keep nothing but their scheme.
-/

namespace LakeCatalog

structure Url where
  scheme : List Char
  /-- The encoded name and password before the host; empty if there are none. -/
  userinfo : List Char
  host : Url.Host
  port : Option Nat
  /-- The segments of the path, at least one; a path that ends with a slash has an empty last
  segment. -/
  path : List (List Char)
  query : Option (List Char)
  fragment : Option (List Char)
  deriving DecidableEq

namespace Url

open Text

def webSchemes : List (String × Nat) :=
  [("http", 80), ("https", 443), ("ws", 80), ("wss", 443), ("ftp", 21)]

def defaultPort? (scheme : List Char) : Option Nat :=
  webSchemes.lookup (String.ofList scheme)

def pathText (u : Url) : List Char :=
  u.path.flatMap ('/' :: ·)

/-- A part that is written after a mark, if it is there. -/
def marked (mark : Char) : Option (List Char) → List Char
  | none => []
  | some cs => mark :: cs

def chars (u : Url) : List Char :=
  u.scheme ++ [':', '/', '/'] ++ (if u.userinfo.isEmpty then [] else u.userinfo ++ ['@']) ++
    u.host.text ++ marked ':' (u.port.map Text.decimalDigits) ++ u.pathText ++
    marked '?' u.query ++ marked '#' u.fragment

def text (u : Url) : String :=
  String.ofList u.chars

/-- A text that was accepted as an address. -/
inductive Address where
  | web (url : Url)
  /-- An address that is sound but of another scheme. -/
  | other (scheme : List Char)

def Address.scheme : Address → List Char
  | .web url => url.scheme
  | .other scheme => scheme

def isControlOrSpace (c : Char) : Bool := c.toNat ≤ 0x20

/-- The text without the characters that do not count. -/
def cleaned (cs : List Char) : List Char :=
  let cs := cs.dropWhile isControlOrSpace
  let cs := (cs.reverse.dropWhile isControlOrSpace).reverse
  cs.filter fun c => !(c == '\t' || c == '\n' || c == '\r')

def isLetter (c : Char) : Bool :=
  ('a' ≤ c && c ≤ 'z') || ('A' ≤ c && c ≤ 'Z')

/-- A character of a scheme after its first letter. -/
def isSchemeChar (c : Char) : Bool :=
  isLetter c || isDigit c || c == '+' || c == '-' || c == '.'

/-- The scheme in lower case, and what follows its colon. -/
def scheme? (cs : List Char) : Option (List Char × List Char) :=
  match cs with
  | [] => none
  | c :: _ =>
    match isLetter c, cs.dropWhile isSchemeChar with
    | true, ':' :: rest => some ((cs.takeWhile isSchemeChar).map Char.toLower, rest)
    | _, _ => none

/-- A slash, or a backslash where it counts as one. -/
def isSlash (c : Char) : Bool := c == '/' || c == '\\'

/-- The text before the last `@` and the text after it. -/
def cutAtLastAt : List Char → Option (List Char × List Char)
  | [] => none
  | c :: rest =>
    match cutAtLastAt rest with
    | some (before, after) => some (c :: before, after)
    | none => if c = '@' then some ([], rest) else none

/-- Name and password, encoded; an empty password is left out with its colon. -/
def encodedUserinfo (cs : List Char) : List Char :=
  let (user, password) := cutAt (· == ':') cs
  let user := percentEncode userinfoSet user
  match password with
  | none => user
  | some [] => user
  | some password => user ++ ':' :: percentEncode userinfoSet password

/-- Host and port apart: the first colon outside brackets ends the host. -/
def cutHost : Bool → List Char → List Char × Option (List Char)
  | _, [] => ([], none)
  | inside, c :: rest =>
    if c = ':' ∧ inside = false then ([], some rest)
    else
      let inside := if c = '[' then true else if c = ']' then false else inside
      let (host, port) := cutHost inside rest
      (c :: host, port)

/-- The number of a port: digits below 2 ^ 16, or nothing. -/
def readPort (cs : List Char) : Except UrlError (Option Nat) :=
  if cs.isEmpty then .ok none
  else if cs.all isDigit && digitsValue cs < 65536 then .ok (some (digitsValue cs))
  else .error .port

/-- A segment that means "this directory". -/
def isSingleDot (segment : List Char) : Bool :=
  let s := segment.map Char.toLower
  s == ['.'] || s == ['%', '2', 'e']

/-- A segment that means "the directory above". -/
def isDoubleDot (segment : List Char) : Bool :=
  let s := segment.map Char.toLower
  s == ['.', '.'] || s == ['.', '%', '2', 'e'] || s == ['%', '2', 'e', '.'] ||
    s == ['%', '2', 'e', '%', '2', 'e']

/-- A segment that names a drive, such as `C:`; no double dot removes it. -/
def isDrive : List Char → Bool
  | [c, d] => isLetter c && (d == ':' || d == '|')
  | _ => false

/-- The segments without the last one, unless that names a drive. -/
def shortened (segments : List (List Char)) : List (List Char) :=
  match segments.getLast? with
  | some last => if isDrive last then segments else segments.dropLast
  | none => []

def resolved : List (List Char) → List (List Char) → List (List Char)
  | done, [] => done
  | done, [last] =>
    if isDoubleDot last then shortened done ++ [[]]
    else if isSingleDot last then done ++ [[]]
    else done ++ [last]
  | done, segment :: rest =>
    if isDoubleDot segment then resolved (shortened done) rest
    else if isSingleDot segment then resolved done rest
    else resolved (done ++ [segment]) rest

/-- The segments of the path that follows the host. -/
def readPath (cs : List Char) : List (List Char) :=
  let cs := match cs with
    | [] => []
    | c :: rest => if isSlash c then rest else c :: rest
  resolved [] ((pieces isSlash cs).map (percentEncode pathSet))

def endsPath (c : Char) : Bool := c == '?' || c == '#'

def readTail (cs : List Char) : Option (List Char) × Option (List Char) :=
  let (before, fragment) := cutAt (· == '#') cs
  let query := match before with
    | '?' :: query => some (percentEncode querySet query)
    | _ => none
  (query, fragment.map (percentEncode fragmentSet))

def readWeb [DomainRule] (scheme : List Char) (port : Nat) (cs : List Char) :
    Except UrlError Url := do
  let cs := cs.dropWhile isSlash
  let endsAuthority (c : Char) : Bool := isSlash c || endsPath c
  let authority := cs.takeWhile (!endsAuthority ·)
  let rest := cs.dropWhile (!endsAuthority ·)
  let (userinfo, server) := match cutAtLastAt authority with
    | some (before, after) => (encodedUserinfo before, after)
    | none => ([], authority)
  let (host, portText) := cutHost false server
  if host.isEmpty then throw .emptyHost
  let host ← Host.parse host
  let given ← readPort (portText.getD [])
  let (query, fragment) := readTail (rest.dropWhile (!endsPath ·))
  return {
    scheme, userinfo, host
    port := if given = some port then none else given
    path := readPath (rest.takeWhile (!endsPath ·))
    query, fragment }

def checkFile [DomainRule] : List Char → Except UrlError Unit
  | a :: b :: rest =>
    if isSlash a && isSlash b then
      let host := rest.takeWhile fun c => !(isSlash c || endsPath c)
      if host.isEmpty || isDrive host then .ok ()
      else (Host.parse host).map fun _ => ()
    else .ok ()
  | _ => .ok ()

/-- Checks what follows another scheme: only an authority after two slashes can be wrong. -/
def checkOther : List Char → Except UrlError Unit
  | '/' :: '/' :: cs => do
    let endsAuthority (c : Char) : Bool := c == '/' || endsPath c
    let authority := cs.takeWhile (!endsAuthority ·)
    let rest := cs.dropWhile (!endsAuthority ·)
    let (userinfo, server) := match cutAtLastAt authority with
      | some (before, after) => (before, after)
      | none => ([], authority)
    if authority.head? = some '@' && server.length + 1 = authority.length &&
        server.isEmpty && !rest.isEmpty then
      throw .emptyHost
    let (host, portText) := cutHost false server
    checkOpaqueHost host
    if host.isEmpty && (portText.isSome || !(encodedUserinfo userinfo).isEmpty) then
      throw .emptyHost
    let _ ← readPort ((portText.getD []).takeWhile (· != '\\'))
  | _ => .ok ()

def parseChars [DomainRule] (cs : List Char) : Except UrlError Address :=
  match scheme? (cleaned cs) with
  | none => .error .noScheme
  | some (scheme, rest) =>
    match defaultPort? scheme with
    | some port => (readWeb scheme port rest).map .web
    | none =>
      let check := if scheme = ['f', 'i', 'l', 'e'] then checkFile rest else checkOther rest
      check.map fun _ => .other scheme

def parse [DomainRule] (s : String) : Except UrlError Address :=
  parseChars s.toList

end Url

end LakeCatalog
