import LakeCatalog.Binary64
import LakeCatalog.Json.Basic
import LakeCatalog.Text.Numeral

/-!
# Numbers and strings in JSON

Reading follows the grammar of JSON and gives an integer where the text has neither fraction nor
exponent and the value fits 64 bits; `-0` is the binary64 number. For every other number the
digits are gathered into a significand below 2 ^ 64 as long as they fit: an integer digit that no
longer fits counts into the power of ten, a fraction digit that no longer fits is passed over. The
significand and the power of ten are rounded to binary64 numbers and then multiplied or divided,
so the value can differ from the nearest one in the last place. A value beyond the format is no
number.

Writing gives integers in decimal and binary64 numbers by their shortest decimal: positional
from 1e-5 up to 1e16, and always with a point or an exponent.

Strings between quotation marks as JSON writes them. A quoted string is first cut into its parts,
characters and numbered UTF-16 units, up to the closing quote; control characters below U+0020
must be escaped. The parts spell a text only if every surrogate unit stands in a pair. Writing
escapes quotation marks, backslashes and control characters, and nothing else.
-/

namespace LakeCatalog.Json

open Text

structure NumberParts where
  negative : Bool
  whole : List Char
  fraction : Option (List Char)
  /-- The sign and the digits of the exponent. -/
  exponent : Option (Bool × List Char)

/-- A non-empty run of digits and the rest. -/
def digits? (cs : List Char) : Option (List Char × List Char) :=
  match cs.takeWhile isDigit with
  | [] => none
  | ds => some (ds, cs.dropWhile isDigit)

/-- The digits before the point; more than one digit must not begin with a zero. -/
def wholeDigits? (cs : List Char) : Option (List Char × List Char) := do
  let (ds, rest) ← digits? cs
  match ds with
  | '0' :: _ :: _ => none
  | _ => some (ds, rest)

def fraction? : List Char → Option (Option (List Char) × List Char)
  | '.' :: rest => (digits? rest).map fun (ds, rest) => (some ds, rest)
  | rest => some (none, rest)

/-- The sign of an exponent, plus if none is written. -/
def exponentSign : List Char → Bool × List Char
  | '-' :: rest => (true, rest)
  | '+' :: rest => (false, rest)
  | rest => (false, rest)

def exponent? : List Char → Option (Option (Bool × List Char) × List Char)
  | [] => some (none, [])
  | c :: rest =>
    if c = 'e' ∨ c = 'E' then
      let (negative, rest) := exponentSign rest
      (digits? rest).map fun (ds, rest) => (some (negative, ds), rest)
    else some (none, c :: rest)

/-- The parts of the number that a text begins with, and the rest. -/
def numberParts? (cs : List Char) : Option (NumberParts × List Char) := do
  let (negative, rest) := match cs with
    | '-' :: rest => (true, rest)
    | rest => (false, rest)
  let (whole, rest) ← wholeDigits? rest
  let (fraction, rest) ← fraction? rest
  let (exponent, rest) ← exponent? rest
  some (⟨negative, whole, fraction, exponent⟩, rest)

/-- A significand below 2 ^ 64 and the power of ten that belongs to it. -/
structure Gathered where
  significand : Nat
  power : Int
  /-- A digit did not fit. -/
  full : Bool

/-- The significand with one more digit, if it still fits. -/
def Gathered.push? (g : Gathered) (d : Char) : Option Nat :=
  let n := g.significand * 10 + (d.toNat - 48)
  if g.full || Nat.pow 2 64 ≤ n then none else some n

def Gathered.pushWhole (g : Gathered) (d : Char) : Gathered :=
  match g.push? d with
  | some n => { g with significand := n }
  | none => { g with power := g.power + 1, full := true }

def Gathered.pushFraction (g : Gathered) (d : Char) : Gathered :=
  match g.push? d with
  | some n => { g with significand := n, power := g.power - 1 }
  | none => { g with full := true }

def NumberParts.gathered (p : NumberParts) : Gathered :=
  let whole := p.whole.foldl Gathered.pushWhole ⟨0, 0, false⟩
  let all := (p.fraction.getD []).foldl Gathered.pushFraction { whole with full := false }
  match p.exponent with
  | none => all
  | some (negative, ds) =>
    let n := digitsValue ds
    { all with power := if negative then all.power - n else all.power + n }

/-- A magnitude times a power of ten. Powers beyond 308 are taken in steps; in the small direction
two steps reach zero from any significand, so `fuel` is never used up. -/
def timesPowerOfTen (fuel : Nat) (x : Binary64) (power : Int) : Option Binary64 :=
  if power.natAbs ≤ 308 then do
    let ten ← Binary64.ofNat? (Nat.pow 10 power.natAbs)
    if 0 ≤ power then x.mul? ten else x.div? ten
  else if x.significand = 0 then some x
  else if 0 ≤ power then none
  else match fuel with
    | 0 => none
    | fuel + 1 => do
      let ten ← Binary64.ofNat? (Nat.pow 10 308)
      let x ← x.div? ten
      timesPowerOfTen fuel x (power + 308)

def NumberParts.double? (p : NumberParts) : Option Number := do
  let g := p.gathered
  let x ← Binary64.ofNat? g.significand
  let x ← timesPowerOfTen 3 x g.power
  some (.double (x.withSign p.negative))

def NumberParts.number? (p : NumberParts) : Option Number :=
  match p.fraction, p.exponent with
  | none, none =>
    let n := digitsValue p.whole
    if p.negative then
      if 0 < n ∧ n ≤ Nat.pow 2 63 then some (.integer (-n)) else p.double?
    else
      if n < Nat.pow 2 64 then some (.integer n) else p.double?
  | _, _ => p.double?

/-- The number that a text begins with, and the rest. -/
def readNumber? (cs : List Char) : Option (Number × List Char) := do
  let (parts, rest) ← numberParts? cs
  let n ← parts.number?
  some (n, rest)

/-- The text of a magnitude. -/
def magnitudeText (x : Binary64) : List Char :=
  let d := x.shortest
  let ds := decimalDigits d.digits
  -- The number of digits before the point.
  let point := d.exponent + ds.length
  if x.significand = 0 then ['0', '.', '0']
  else if 0 ≤ d.exponent ∧ point ≤ 16 then
    ds ++ List.replicate d.exponent.toNat '0' ++ ['.', '0']
  else if 0 < point ∧ point ≤ 16 then
    ds.take point.toNat ++ '.' :: ds.drop point.toNat
  else if -5 < point ∧ point ≤ 0 then
    '0' :: '.' :: List.replicate (-point).toNat '0' ++ ds
  else
    let order := point - 1
    let mantissa := match ds with
      | d :: e :: rest => d :: '.' :: e :: rest
      | ds => ds
    mantissa ++ 'e' :: (if 0 ≤ order then '+' else '-') :: decimalDigits order.natAbs

def Number.text : Number → List Char
  | .integer n => (if n < 0 then ['-'] else []) ++ decimalDigits n.natAbs
  | .double x => (if x.negative then ['-'] else []) ++ magnitudeText x

/-- What a quoted string is made of. -/
inductive QuotedPart where
  | char (c : Char)
  /-- A UTF-16 unit given by its number. -/
  | unit (n : Nat)
  deriving DecidableEq

/-- The character that a backslash and a letter stand for. -/
def escapedChar? : Char → Option Char
  | '"' => some '"'
  | '\\' => some '\\'
  | '/' => some '/'
  | 'b' => some '\x08'
  | 'f' => some '\x0c'
  | 'n' => some '\n'
  | 'r' => some '\r'
  | 't' => some '\t'
  | _ => none

/-- The parts of a quoted string up to its closing quote, and the rest. The opening quote is
already taken. -/
def quotedParts? : List Char → Option (List QuotedPart × List Char)
  | [] => none
  | '\\' :: 'u' :: a :: b :: c :: d :: rest => do
    let n ← readHex? [a, b, c, d]
    let (parts, rest) ← quotedParts? rest
    some (.unit n :: parts, rest)
  | '\\' :: e :: rest => do
    let c ← escapedChar? e
    let (parts, rest) ← quotedParts? rest
    some (.char c :: parts, rest)
  | c :: rest =>
    if c = '"' then some ([], rest)
    else if c = '\\' ∨ c.toNat < 0x20 then none
    else do
      let (parts, rest) ← quotedParts? rest
      some (.char c :: parts, rest)

/-- The first unit of a surrogate pair. -/
def isLeading (n : Nat) : Bool := 0xD800 ≤ n && n < 0xDC00

/-- The second unit of a surrogate pair. -/
def isTrailing (n : Nat) : Bool := 0xDC00 ≤ n && n < 0xE000

def spelled? : List QuotedPart → Option (List Char)
  | [] => some []
  | .char c :: rest => (spelled? rest).map (c :: ·)
  | .unit m :: .unit n :: rest =>
    if isLeading m then
      if isTrailing n then
        (spelled? rest).map (Char.ofNat (0x10000 + (m - 0xD800) * 0x400 + (n - 0xDC00)) :: ·)
      else none
    else if isTrailing m then none
    else (spelled? (.unit n :: rest)).map (Char.ofNat m :: ·)
  | .unit m :: rest =>
    if isLeading m || isTrailing m then none
    else (spelled? rest).map (Char.ofNat m :: ·)

/-- The text of a quoted string whose opening quote is taken, and the rest. -/
def readQuoted? (cs : List Char) : Option (String × List Char) := do
  let (parts, rest) ← quotedParts? cs
  let text ← spelled? parts
  some (String.ofList text, rest)

def escaped (c : Char) : List Char :=
  if c = '"' then ['\\', '"']
  else if c = '\\' then ['\\', '\\']
  else if c = '\x08' then ['\\', 'b']
  else if c = '\x0c' then ['\\', 'f']
  else if c = '\n' then ['\\', 'n']
  else if c = '\r' then ['\\', 'r']
  else if c = '\t' then ['\\', 't']
  else if c.toNat < 0x20 then '\\' :: 'u' :: hexQuad c.toNat
  else [c]

def quoted (s : String) : List Char :=
  '"' :: (s.toList.flatMap escaped ++ ['"'])

end LakeCatalog.Json
