import LakeCatalog.Digest
import LakeCatalog.Fault
import LakeCatalog.Text.Pieces
import LakeCatalog.Text.Uppercase
import LakeCatalog.Url.Punycode

/-!
# Hosts

In each component of a URL some ASCII characters, and every other character, are written as the
bytes of their UTF-8 form, each byte as a percent sign and two upper-case digits to base sixteen.
A percent sign itself is not encoded, so a text that is already encoded stays as it is.

The host of a URL: a domain name in ASCII, an IPv4 address or an IPv6 address. A domain is
percent-decoded and put into its ASCII form by a rule that depends on the version of Unicode. The
rule that is at hand puts it into lower case and, label by label, into Punycode; beyond the case,
characters are taken as they are, so compatibility forms and marks that could be composed stay. A
domain whose last label is a number must be an IPv4 address, of one to four parts, each decimal,
octal or to base sixteen. An IPv6 address stands between brackets; `::` stands for one or more
groups of zeros.
-/

namespace LakeCatalog.Url

open Text

/-- A set of characters that a component does not hold as they are. -/
abbrev EncodeSet := Char → Bool

/-- Control characters and everything beyond ASCII. -/
def controlSet : EncodeSet := fun c => c.toNat < 0x20 || 0x7E < c.toNat

def fragmentSet : EncodeSet := fun c => controlSet c || [' ', '"', '<', '>', '`'].contains c

def pathSet : EncodeSet := fun c => fragmentSet c || ['#', '?', '{', '}'].contains c

def userinfoSet : EncodeSet := fun c =>
  pathSet c || ['/', ':', ';', '=', '@', '[', '\\', ']', '^', '|'].contains c

def querySet : EncodeSet := fun c => controlSet c || [' ', '"', '#', '<', '>', '\''].contains c

def percentByte (b : UInt8) : List Char :=
  '%' :: (hexByte b).map Char.toUpper

def percentEncode (set : EncodeSet) (cs : List Char) : List Char :=
  cs.flatMap fun c => if set c then (String.utf8EncodeChar c).flatMap percentByte else [c]

/-- The bytes of a text in which a percent sign and two digits stand for a byte. -/
def percentDecode : List Char → List UInt8
  | [] => []
  | '%' :: a :: b :: rest =>
    match hexValue? a, hexValue? b with
    | some m, some n => UInt8.ofNat (16 * m + n) :: percentDecode rest
    | _, _ => '%'.toUInt8 :: percentDecode (a :: b :: rest)
  | c :: rest => String.utf8EncodeChar c ++ percentDecode rest

def decodeUtf8? (bytes : List UInt8) : Option (List Char) :=
  (String.fromUTF8? ⟨bytes.toArray⟩).map String.toList

inductive Host where
  | domain (name : List Char)
  | ipv4 (address : Nat)
  /-- Eight groups of sixteen bits. -/
  | ipv6 (groups : List Nat)
  deriving DecidableEq

def readOctal? (cs : List Char) : Option Nat :=
  cs.foldlM (fun n c => if '0' ≤ c ∧ c ≤ '7' then some (8 * n + (c.toNat - 48)) else none) 0

/-- The number of one part of an IPv4 address: to base sixteen after `0x`, to base eight after
another leading zero, decimal otherwise. Nothing after the mark of the base is zero. -/
def ipv4Part? : List Char → Option Nat
  | '0' :: 'x' :: [] => some 0
  | '0' :: 'X' :: [] => some 0
  | '0' :: 'x' :: ds => readHex? ds
  | '0' :: 'X' :: ds => readHex? ds
  | '0' :: d :: ds => readOctal? (d :: ds)
  | ds => readDecimal? ds

/-- The parts of a dotted name; one empty part at the end does not count. -/
def dottedParts (cs : List Char) : List (List Char) :=
  let parts := pieces (· == '.') cs
  if 1 < parts.length ∧ parts.getLast? = some [] then parts.dropLast else parts

/-- The last part of a name is a number, so that the name has to be an IPv4 address. -/
def endsInNumber (name : List Char) : Bool :=
  match (dottedParts name).getLast? with
  | some last => (!last.isEmpty && last.all isDigit) || (ipv4Part? last).isSome
  | none => false

/-- The address of a dotted name: every part but the last is one byte, and the last fills the
bytes that remain. -/
def ipv4? (name : List Char) : Option Nat := do
  let numbers ← (dottedParts name).mapM ipv4Part?
  let last ← numbers.getLast?
  let front := numbers.dropLast
  if 3 < front.length ∨ front.any (255 < ·) ∨ Nat.pow 256 (4 - front.length) ≤ last then none
  else some (front.zipIdx.foldl (fun sum (n, i) => sum + n * Nat.pow 256 (3 - i)) last)

def ipv4Text (address : Nat) : List Char :=
  joined ['.'] ([3, 2, 1, 0].map fun i => decimalDigits (address / Nat.pow 256 i % 256))

/-- A group of one to four digits to base sixteen. -/
def ipv6Group? (cs : List Char) : Option Nat :=
  if cs.length ≤ 4 then readHex? cs else none

/-- A byte in decimal without leading zeros. -/
def plainByte? (cs : List Char) : Option Nat := do
  let n ← readDecimal? cs
  if 255 < n ∨ (cs.head? = some '0' ∧ 1 < cs.length) then none else some n

/-- The two groups of an IPv4 address at the end of an IPv6 address. -/
def embeddedGroups? (cs : List Char) : Option (List Nat) := do
  match ← (pieces (· == '.') cs).mapM plainByte? with
  | [a, b, c, d] => some [256 * a + b, 256 * c + d]
  | _ => none

/-- The groups between single colons. The last piece may be an IPv4 address where `embedded`
allows it. -/
def ipv6Groups? (embedded : Bool) (cs : List Char) : Option (List Nat) :=
  if cs.isEmpty then some []
  else
    let parts := pieces (· == ':') cs
    match parts.getLast? with
    | none => some []
    | some last =>
      if embedded && last.contains '.' then do
        let front ← parts.dropLast.mapM ipv6Group?
        let groups ← embeddedGroups? last
        some (front ++ groups)
      else parts.mapM ipv6Group?

/-- The text before the first `::` and the text after it. -/
def cutAtDoubleColon : List Char → Option (List Char × List Char)
  | [] => none
  | ':' :: ':' :: rest => some ([], rest)
  | c :: rest => (cutAtDoubleColon rest).map fun (before, after) => (c :: before, after)

def ipv6? (cs : List Char) : Option (List Nat) :=
  match cutAtDoubleColon cs with
  | none => do
    let groups ← ipv6Groups? true cs
    if groups.length = 8 then some groups else none
  | some (before, after) => do
    let front ← ipv6Groups? false before
    let back ← ipv6Groups? true after
    let count := front.length + back.length
    if count ≤ 7 then some (front ++ List.replicate (8 - count) 0 ++ back) else none

def leadingZeros (groups : List Nat) : Nat :=
  (groups.takeWhile (· == 0)).length

/-- The start and the length of the first of the longest runs of zeros. -/
def longestZeros (groups : List Nat) : Nat × Nat :=
  (List.range groups.length).foldl (fun best i =>
    let n := leadingZeros (groups.drop i)
    if best.2 < n then (i, n) else best) (0, 0)

def groupsText (groups : List Nat) : List Char :=
  joined [':'] (groups.map (Nat.toDigits 16))

/-- The text of an address: the first longest run of two or more zeros is left out. -/
def ipv6Text (groups : List Nat) : List Char :=
  let (start, count) := longestZeros groups
  if count < 2 then groupsText groups
  else groupsText (groups.take start) ++ ':' :: ':' :: groupsText (groups.drop (start + count))

/-- A character that no domain holds. -/
def isForbidden (c : Char) : Bool :=
  c.toNat ≤ 0x20 || c.toNat == 0x7F ||
    ['#', '%', '/', ':', '<', '>', '?', '@', '[', '\\', ']', '^', '|'].contains c

def asciiLabel (label : List Char) : List Char :=
  if label.all fun c => c.toNat < 0x80 then label
  else ['x', 'n', '-', '-'] ++ Punycode.encode label

/-- A label that can stand in a domain: what follows `xn--` spells a label beyond ASCII, in lower
case and without control characters. -/
def isSoundLabel : List Char → Bool
  | 'x' :: 'n' :: '-' :: '-' :: form =>
    match Punycode.decode? form with
    | some label =>
      label.any (fun c => 0x80 ≤ c.toNat) &&
        label.all (fun c => c.toNat < 0x80 || 0xA0 < c.toNat) &&
        lower label == label
    | none => false
  | _ => true

/-- A full stop, in any of the forms that separate labels. -/
def isFullStop (c : Char) : Bool :=
  c == '.' || c == '\u3002' || c == '\uff0e' || c == '\uff61'

def asciiDomain? (cs : List Char) : Option (List Char) :=
  let labels := (pieces isFullStop (lower cs)).map asciiLabel
  if cs.any isForbidden || !labels.all isSoundLabel then none
  else some (joined ['.'] labels)

/-- The rule by which a domain is put into its ASCII form, if it has one. -/
class DomainRule where
  ascii? : List Char → Option (List Char)

/-- The rule of lower case and Punycode. -/
instance : DomainRule := ⟨asciiDomain?⟩

/-- The text between the brackets, if the text begins with one. -/
def bracketed? : List Char → Option (Option (List Char))
  | '[' :: rest => some (if rest.getLast? = some ']' then some rest.dropLast else none)
  | _ => none

def bracketedHost : Option (List Char) → Except UrlError Host
  | some cs => match ipv6? cs with
    | some groups => .ok (.ipv6 groups)
    | none => .error .ipv6
  | none => .error .ipv6

def Host.parse [DomainRule] (cs : List Char) : Except UrlError Host :=
  match bracketed? cs with
  | some inner => bracketedHost inner
  | none =>
    match (decodeUtf8? (percentDecode cs)).bind DomainRule.ascii? with
    | none => .error .domainName
    | some [] => .error .emptyHost
    | some name =>
      if endsInNumber name then
        match ipv4? name with
        | some address => .ok (.ipv4 address)
        | none => .error .ipv4
      else .ok (.domain name)

/-- A character that the host of no scheme holds. -/
def isForbiddenAnywhere (c : Char) : Bool :=
  ['\x00', '\t', '\n', '\r', ' ', '#', '/', ':', '<', '>', '?', '@', '[', '\\', ']', '^',
    '|'].contains c

/-- Whether the host of an address outside the web is allowed. -/
def checkOpaqueHost (cs : List Char) : Except UrlError Unit :=
  match bracketed? cs with
  | some inner => (bracketedHost inner).map fun _ => ()
  | none => if cs.any isForbiddenAnywhere then .error .hostCharacter else .ok ()

def Host.text : Host → List Char
  | .domain name => name
  | .ipv4 address => ipv4Text address
  | .ipv6 groups => '[' :: (ipv6Text groups ++ [']'])

end LakeCatalog.Url
