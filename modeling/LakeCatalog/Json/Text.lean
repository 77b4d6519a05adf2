import LakeCatalog.Json.Scalar
import LakeCatalog.Text.Pieces

/-!
# Writing and reading JSON

A value is written without blanks between the tokens, the members of an object in the order in which
they are listed.

A text is read by the grammar of RFC 8259: one value with blanks around it and nothing else. Only
space, tab, line feed and carriage return are blanks, surrogate escapes must pair, and no more than
127 arrays and objects may be open at once. The members of an object come out in ascending order; of
members with one name the last counts.
-/

namespace LakeCatalog.Json

mutual

def text : Json → List Char
  | .null => ['n', 'u', 'l', 'l']
  | .bool true => ['t', 'r', 'u', 'e']
  | .bool false => ['f', 'a', 'l', 's', 'e']
  | .number n => n.text
  | .string s => quoted s
  | .array items => '[' :: (Text.joined [','] (itemTexts items) ++ [']'])
  | .object members => '{' :: (Text.joined [','] (memberTexts members) ++ ['}'])

def itemTexts : List Json → List (List Char)
  | [] => []
  | item :: rest => text item :: itemTexts rest

def memberTexts : List (String × Json) → List (List Char)
  | [] => []
  | (name, value) :: rest => (quoted name ++ ':' :: text value) :: memberTexts rest

end

def compact (j : Json) : String :=
  String.ofList j.text

/-- A blank between the tokens of a text. -/
def isGap (c : Char) : Bool :=
  c == ' ' || c == '\t' || c == '\n' || c == '\r'

def skipGap (cs : List Char) : List Char :=
  cs.dropWhile isGap

/-- A value without parts that a text begins with, and the rest. -/
def readScalar? : List Char → Option (Json × List Char)
  | 'n' :: 'u' :: 'l' :: 'l' :: rest => some (.null, rest)
  | 't' :: 'r' :: 'u' :: 'e' :: rest => some (.bool true, rest)
  | 'f' :: 'a' :: 'l' :: 's' :: 'e' :: rest => some (.bool false, rest)
  | '"' :: rest => (readQuoted? rest).map fun (s, rest) => (.string s, rest)
  | cs => (readNumber? cs).map fun (n, rest) => (.number n, rest)

section

variable (item : List Char → Option (Json × List Char))

def readItems? : Nat → List Char → Option (List Json × List Char)
  | 0, _ => none
  | fuel + 1, cs => do
    let (value, rest) ← item cs
    match skipGap rest with
    | ',' :: rest =>
      let (values, rest) ← readItems? fuel rest
      some (value :: values, rest)
    | ']' :: rest => some ([value], rest)
    | _ => none

def readMember? (cs : List Char) : Option ((String × Json) × List Char) :=
  match skipGap cs with
  | '"' :: rest => do
    let (name, rest) ← readQuoted? rest
    match skipGap rest with
    | ':' :: rest =>
      let (value, rest) ← item rest
      some ((name, value), rest)
    | _ => none
  | _ => none

def readMembers? : Nat → List Char → Option (List (String × Json) × List Char)
  | 0, _ => none
  | fuel + 1, cs => do
    let (entry, rest) ← readMember? item cs
    match skipGap rest with
    | ',' :: rest =>
      let (entries, rest) ← readMembers? fuel rest
      some (entry :: entries, rest)
    | '}' :: rest => some ([entry], rest)
    | _ => none

def readArray? (cs : List Char) : Option (Json × List Char) :=
  match skipGap cs with
  | ']' :: rest => some (.array [], rest)
  | cs => (readItems? item cs.length cs).map fun (values, rest) => (.array values, rest)

def readObject? (cs : List Char) : Option (Json × List Char) :=
  match skipGap cs with
  | '}' :: rest => some (.object [], rest)
  | cs => (readMembers? item cs.length cs).map fun (entries, rest) => (sortedObject entries, rest)

end

/-- The value that a text begins with, and the rest; no more than `depth` arrays and objects may
be open at once. -/
def readValue? : Nat → List Char → Option (Json × List Char)
  | 0, cs => readScalar? (skipGap cs)
  | depth + 1, cs =>
    match skipGap cs with
    | '[' :: rest => readArray? (readValue? depth) rest
    | '{' :: rest => readObject? (readValue? depth) rest
    | cs => readScalar? cs

/-- The number of arrays and objects that may be open at once. -/
def depthLimit : Nat := 127

/-- The value of a text that is one value and nothing else. -/
def parseChars? (cs : List Char) : Option Json := do
  let (value, rest) ← readValue? depthLimit cs
  match skipGap rest with
  | [] => some value
  | _ => none

def parse? (s : String) : Option Json :=
  parseChars? s.toList

end LakeCatalog.Json
