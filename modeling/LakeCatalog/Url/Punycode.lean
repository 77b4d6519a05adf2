/-!
# Punycode

The ASCII form of a label with characters beyond ASCII, by RFC 3492. The ASCII characters come
first; every other character is inserted in ascending order of its code point, and what is written
is the distance between insertions, as a numeral to base thirty-six of variable length whose
thresholds follow the distances seen so far. Reading carries the insertions out one after another.
-/

namespace LakeCatalog.Url.Punycode

/-- The digit for a value below thirty-six: `a` to `z`, then `0` to `9`. -/
def digit (n : Nat) : Char :=
  if n < 26 then Char.ofNat (97 + n) else Char.ofNat (22 + n)

/-- The threshold of the digit at a position, given the bias. -/
def threshold (position bias : Nat) : Nat :=
  if position ≤ bias then 1 else if bias + 26 ≤ position then 26 else position - bias

/-- The digits of a distance, at most `fuel` of them. -/
def distanceDigits (bias : Nat) : Nat → Nat → Nat → List Char
  | 0, _, _ => []
  | fuel + 1, position, q =>
    let t := threshold position bias
    if q < t then [digit q]
    else digit (t + (q - t) % (36 - t)) ::
      distanceDigits bias fuel (position + 36) ((q - t) / (36 - t))

/-- Divides a distance down and counts the divisions in steps of thirty-six. -/
def settle : Nat → Nat → Nat → Nat
  | 0, k, _ => k
  | fuel + 1, k, delta =>
    if 455 < delta then settle fuel (k + 36) (delta / 35) else k + 36 * delta / (delta + 38)

/-- The bias after an insertion. -/
def adapted (delta points : Nat) (first : Bool) : Nat :=
  let delta := if first then delta / 700 else delta / 2
  let delta := delta + delta / points
  settle delta 0 delta

structure Progress where
  written : List Char
  delta : Nat
  bias : Nat
  inserted : Nat

/-- Passes a character of the label while the code point `m` is inserted. -/
def Progress.pass (basic m : Nat) (p : Progress) (c : Char) : Progress :=
  if c.toNat < m then { p with delta := p.delta + 1 }
  else if c.toNat = m then
    { written := p.written ++ distanceDigits p.bias (p.delta + 1) 36 p.delta
      delta := 0
      bias := adapted p.delta (p.inserted + 1) (p.inserted == basic)
      inserted := p.inserted + 1 }
  else p

/-- Inserts the code points of a list that is in ascending order. -/
def insertAll (label : List Char) (basic : Nat) : List Nat → Nat → Progress → Progress
  | [], _, p => p
  | m :: rest, next, p =>
    let p := { p with delta := p.delta + (m - next) * (p.inserted + 1) }
    let p := label.foldl (Progress.pass basic m) p
    insertAll label basic rest (m + 1) { p with delta := p.delta + 1 }

/-- A number put into an ascending list that does not hold it yet. -/
def insertPoint (n : Nat) : List Nat → List Nat
  | [] => [n]
  | m :: rest =>
    if n < m then n :: m :: rest else if n = m then m :: rest else m :: insertPoint n rest

/-- The ASCII form of a label, without the mark that shows it is one. -/
def encode (label : List Char) : List Char :=
  let basic := label.filter fun c => c.toNat < 0x80
  let others := label.foldr (fun c ms => if c.toNat < 0x80 then ms else insertPoint c.toNat ms) []
  let start := if basic.isEmpty then [] else basic ++ ['-']
  (insertAll label basic.length others 0x80 ⟨start, 0, 72, basic.length⟩).written

def digitValue? (c : Char) : Option Nat :=
  if 'a' ≤ c && c ≤ 'z' then some (c.toNat - 97)
  else if '0' ≤ c && c ≤ '9' then some (c.toNat - 22)
  else none

/-- The distance that a text begins with, and the rest. -/
def readDistance? (bias : Nat) : Nat → Nat → List Char → Option (Nat × List Char)
  | _, _, [] => none
  | position, weight, c :: rest => do
    let d ← digitValue? c
    let t := threshold position bias
    if d < t then some (d * weight, rest)
    else
      let (more, rest) ← readDistance? bias (position + 36) (weight * (36 - t)) rest
      some (d * weight + more, rest)

structure Insertion where
  point : Nat
  index : Nat
  bias : Nat

/-- Carries out the insertions that a text stands for, at most `fuel` of them. -/
def carryOut? (first : Bool) : Nat → Insertion → List Char → List Char → Option (List Char)
  | _, _, label, [] => some label
  | 0, _, _, _ => none
  | fuel + 1, s, label, cs => do
    let (delta, rest) ← readDistance? s.bias 36 1 cs
    let count := label.length + 1
    let point := s.point + (s.index + delta) / count
    let index := (s.index + delta) % count
    let label := label.take index ++ Char.ofNat point :: label.drop index
    if point.isValidChar then
      carryOut? false fuel ⟨point, index + 1, adapted delta count first⟩ label rest
    else none

/-- The ASCII characters before the last hyphen, and the digits after it. -/
def cutBasic (cs : List Char) : List Char × List Char :=
  match cs.reverse.dropWhile (· != '-') with
  | [] => ([], cs)
  | _ :: front => (front.reverse, (cs.reverse.takeWhile (· != '-')).reverse)

/-- The label of an ASCII form in lower case. -/
def decode? (cs : List Char) : Option (List Char) :=
  let (basic, digits) := cutBasic cs
  carryOut? true digits.length ⟨0x80, 0, 72⟩ basic digits

end LakeCatalog.Url.Punycode
