import LakeCatalog.PropertiesFile

/-!
# The syntax of properties files

Only four digits to base sixteen number a character. Whatever else follows `\u`, the backslash and
the letter stand for themselves and the reading goes on behind them.

What can be changed about a text without changing its entries: where an entry is broken into lines,
and the blank lines and comments around it. All this depends on whether an entry is still open where
a line begins, for a line that continues an entry is never a comment.

One line `key=value` for each entry of a map. A backslash stands before every backslash and before
every sign that could end a key or begin a comment; in a key also before every space, in a value
before a space at its start. Tabs and line breaks are written by letters, and whatever else is
beyond printable ASCII by the numbers of its UTF-16 units.
-/

namespace LakeCatalog.PropertiesFile

open Text

def unit? (ds : List Char) : Option Char :=
  match ds.map hexValue? with
  | [some w, some x, some y, some z] =>
    let n := 4096 * w + 256 * x + 16 * y + z
    if n.isValidChar then some (Char.ofNat n) else none
  | _ => none

/-- The text with its escapes resolved, where `\u` stands for itself unless four digits name a
character. -/
def decoded : List Char → List Char
  | [] => []
  | '\\' :: 'u' :: a :: b :: c :: d :: rest =>
    match unit? [a, b, c, d] with
    | some x => x :: decoded rest
    | none => '\\' :: 'u' :: decoded (a :: b :: c :: d :: rest)
  | '\\' :: 'u' :: rest => '\\' :: 'u' :: decoded rest
  | '\\' :: c :: rest => escapedChar c :: decoded rest
  | ['\\'] => []
  | c :: rest => c :: decoded rest

/-- One to three digits to base sixteen, also with a plus sign before them. -/
def IsShortNumeral (ds : List Char) : Prop :=
  ∃ digits : List Char, digits ≠ [] ∧ digits.length < 4 ∧
    (∀ d ∈ digits, (hexValue? d).isSome = true) ∧ (ds = digits ∨ ds = '+' :: digits)

/-- A text that `unescape` and `decoded` read alike whatever follows it. -/
def ReadAlike (front : List Char) : Prop :=
  ∃ out, ∀ rest,
    unescape (front ++ rest) = out ++ unescape rest ∧ decoded (front ++ rest) = out ++ decoded rest

def IsLine (line : List Char) : Prop := ∀ c ∈ line, c ≠ '\n' ∧ c ≠ '\r'

instance (line : List Char) : Decidable (IsLine line) :=
  List.decidableBAll (fun c : Char => c ≠ '\n' ∧ c ≠ '\r') line

def ofLines (ls : List (List Char)) : List Char := ls.flatMap (· ++ ['\n'])

inductive IsRemark : List Char → Prop where
  | blank {line : List Char} (blank : ∀ c ∈ line, isBlank c = true) : IsRemark line
  | comment {gap : List Char} {sign : Char} {rest : List Char}
    (blank : ∀ c ∈ gap, isBlank c = true) (marks : sign = '#' ∨ sign = '!') :
    IsRemark (gap ++ sign :: rest)

/-- Lines after which no entry is open: the last one does not ask for more, or it is a remark and
nothing was open before it. -/
inductive Closed : List (List Char) → Prop where
  | nil : Closed []
  | ended {front : List (List Char)} {line : List Char} (ends : continues line = false) :
    Closed (front ++ [line])
  | remark {front : List (List Char)} {line : List Char} (closed : Closed front)
    (remark : IsRemark line) : Closed (front ++ [line])

/-- A text of complete lines after which no entry is open. -/
def IsComplete (text : String) : Prop :=
  ∃ ls, text.toList = ofLines ls ∧ (∀ line ∈ ls, IsLine line) ∧ Closed ls

/-- A line that is an entry by itself can be broken between two parts of it: the first one is more
than an indent and leaves no backslash to the second, which has no blank at its start to lose. -/
structure CanBreak (front back : String) : Prop where
  line : IsLine (front ++ back).toList
  entry : ¬ IsRemark (front ++ back).toList
  ends : continues (front ++ back).toList = false
  front_filled : isAllBlank front = false
  front_ends : continues front.toList = false
  back_starts : ∀ c ∈ back.toList.head?, isBlank c = false

inductive Mark where
  | plain (c : Char)
  /-- A character after a backslash. -/
  | escape (c : Char)
  /-- A UTF-16 unit by its number. -/
  | unit (n : Nat)
  deriving DecidableEq

def Mark.text : Mark → List Char
  | .plain c => [c]
  | .escape c => ['\\', c]
  | .unit n => '\\' :: 'u' :: (hexQuad n).map Char.toUpper

def units (c : Char) : List Nat :=
  if c.toNat < 0x10000 then [c.toNat]
  else [0xD800 + (c.toNat - 0x10000) / 0x400, 0xDC00 + (c.toNat - 0x10000) % 0x400]

def valueMarks (c : Char) : List Mark :=
  if c = '\t' then [.escape 't']
  else if c = '\n' then [.escape 'n']
  else if c = '\r' then [.escape 'r']
  else if c = '\x0c' then [.escape 'f']
  else if c.toNat < 0x20 ∨ 0x7E < c.toNat then (units c).map .unit
  else if ['\\', '=', ':', '#', '!'].contains c then [.escape c]
  else [.plain c]

def keyMarks (c : Char) : List Mark :=
  if c = ' ' then [.escape ' '] else valueMarks c

/-- A value; only a space at its start is escaped. -/
def writtenValue : List Char → List Mark
  | ' ' :: rest => .escape ' ' :: rest.flatMap valueMarks
  | value => value.flatMap valueMarks

def writtenKey (key : List Char) : List Mark := key.flatMap keyMarks

def writtenLine (e : String × String) : List Char :=
  (writtenKey e.1.toList).flatMap Mark.text ++ '=' :: (writtenValue e.2.toList).flatMap Mark.text

def write (entries : List (String × String)) : String :=
  String.ofList (entries.flatMap fun e => writtenLine e ++ ['\n'])

end LakeCatalog.PropertiesFile
