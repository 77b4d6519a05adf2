import LakeCatalog.Dictionary
import LakeCatalog.Text.Blank
import LakeCatalog.Text.Numeral
import LakeCatalog.Text.Pieces

/-!
# Properties files

The text of a properties file as a map of strings. Lines are joined where they end in an odd
number of backslashes, and the blanks at the start of each line are left out. Blank lines and
lines that begin with `#` or `!` do not count unless they continue a line. The first `=`, `:` or
blank that no backslash precedes ends the key; the blanks around the sign do not count. In keys
and values a backslash escapes the character after it.
-/

namespace LakeCatalog.PropertiesFile

open Text

/-- The lines of a text: a line feed ends a line, together with a carriage return before it. -/
def lines (cs : List Char) : List (List Char) :=
  go (pieces (· == '\n') cs)
where
  /-- All pieces but the last were ended by a line feed. -/
  go : List (List Char) → List (List Char)
    | [] => []
    | [last] => if last.isEmpty then [] else [last]
    | piece :: more => (if piece.getLast? = some '\r' then piece.dropLast else piece) :: go more

/-- A line that ends in an odd number of backslashes. -/
def continues (line : List Char) : Bool :=
  (line.reverse.takeWhile (· == '\\')).length % 2 == 1

/-- A blank line or a comment; leading blanks are already off. -/
def isIgnored : List Char → Bool
  | [] => true
  | c :: _ => c == '#' || c == '!'

/-- The entries of a list of lines, given what is pending of a continued line. -/
def logicalLines : List Char → List (List Char) → List (List Char)
  | pending, [] => if pending.isEmpty then [] else [pending]
  | pending, line :: rest =>
    let line := trimStart line
    if pending.isEmpty && isIgnored line then logicalLines pending rest
    else if continues line then logicalLines (pending ++ line.dropLast) rest
    else (pending ++ line) :: logicalLines [] rest

/-- The text up to the first separator that no backslash precedes, and the rest from there. -/
def cutKey : List Char → List Char × List Char
  | [] => ([], [])
  | '\\' :: c :: rest => let (key, rest) := cutKey rest; ('\\' :: c :: key, rest)
  | c :: rest =>
    if c = '=' ∨ c = ':' ∨ isBlank c = true then ([], c :: rest)
    else let (key, rest) := cutKey rest; (c :: key, rest)

def dropSign : List Char → List Char
  | '=' :: rest => rest
  | ':' :: rest => rest
  | rest => rest

/-- The key and the value of an entry, still escaped. -/
def cutEntry (entry : List Char) : List Char × List Char :=
  match cutKey entry with
  | (key, []) => (key, [])
  | (key, c :: rest) =>
    if c = '=' ∨ c = ':' then (trimEnd key, trimStart rest)
    else (key, trimStart (dropSign (trimStart rest)))

/-- The character of a numeral to base sixteen that may begin with a plus sign. -/
def numbered? (ds : List Char) : Option Char := do
  let n ← readHex? (match ds with
    | '+' :: rest => rest
    | ds => ds)
  if n.isValidChar then some (Char.ofNat n) else none

/-- The character that a backslash and a letter other than `u` stand for. -/
def escapedChar : Char → Char
  | 't' => '\t'
  | 'n' => '\n'
  | 'r' => '\r'
  | 'f' => '\x0c'
  | c => c

/-- The text with its escapes resolved. After `\u` up to four characters are taken as the number
of a character; where they are none they stay as they are. A backslash at the end is left out. -/
def unescape : List Char → List Char
  | [] => []
  | '\\' :: 'u' :: a :: b :: c :: d :: rest => numberedOr [a, b, c, d] ++ unescape rest
  | '\\' :: 'u' :: rest => numberedOr rest
  | '\\' :: c :: rest => escapedChar c :: unescape rest
  | ['\\'] => []
  | c :: rest => c :: unescape rest
where
  /-- The numbered character, or the escape as it is written. -/
  numberedOr (ds : List Char) : List Char :=
    match numbered? ds with
    | some c => [c]
    | none => '\\' :: 'u' :: ds

def entries (text : String) : List (String × String) :=
  (logicalLines [] (lines text.toList)).map fun entry =>
    let (key, value) := cutEntry entry
    (String.ofList (unescape key), String.ofList (unescape value))

def parse (text : String) : Dictionary String :=
  .ofList (entries text)

end LakeCatalog.PropertiesFile
