import LakeCatalog.Dictionary
import LakeCatalog.Json.Text
import LakeCatalog.Text.Blank

/-!
# The body of a properties request

The body is JSON: an object with a member `properties`, an object of strings, and perhaps a member
`name`, a string or null; or the array of both values, name first. Members with other names are
passed over. The text is read from front to back, and the first problem decides the answer: what is
not JSON is malformed, and what is JSON of another shape is mismatched. The body comes as bytes, of
which only those of strings that are asked for have to be characters.
-/

namespace LakeCatalog.Service

open Json

inductive BodyFault where
  | malformed
  | mismatched
  deriving DecidableEq

structure PropertiesRequest where
  name : Option String
  properties : Dictionary String
  deriving DecidableEq

/-- The greatest number of bytes that a body may have. -/
def bodyLimit : Nat := 2097152

/-- What is read for a byte that belongs to no character: a letter and an escape that no string can
hold. A string that is passed over is not decoded, so the byte is passed over like a letter; where a
string is read, or anything else is expected, it is refused. -/
def strayByte : List Char := "x\\ud800x".toList

/-- The characters of bytes from an index on, at most `fuel` of them. -/
def charsFrom (bytes : ByteArray) : Nat → Nat → List Char
  | 0, _ => []
  | fuel + 1, i =>
    if i < bytes.size then
      match bytes.utf8DecodeChar? i with
      | some c => c :: charsFrom bytes fuel (i + c.utf8Size)
      | none => strayByte ++ charsFrom bytes fuel (i + 1)
    else []

def bodyText (body : ByteArray) : List Char := charsFrom body body.size 0

/-- The result of a reader of JSON, whose only problem is malformed text. -/
def wellFormed {α : Type} : Option α → Except BodyFault α
  | some x => .ok x
  | none => .error .malformed

inductive Frame where
  | array
  | object
  deriving DecidableEq

/-- The rest after a value without parts; the size of a number and the pairing of surrogates do not
matter. -/
def passScalar? : List Char → Option (List Char)
  | 'n' :: 'u' :: 'l' :: 'l' :: rest => some rest
  | 't' :: 'r' :: 'u' :: 'e' :: rest => some rest
  | 'f' :: 'a' :: 'l' :: 's' :: 'e' :: rest => some rest
  | '"' :: rest => (quotedParts? rest).map Prod.snd
  | cs => (numberParts? cs).map Prod.snd

def passName? (cs : List Char) : Option (List Char) :=
  match skipGap cs with
  | '"' :: rest => do
    let (_, rest) ← quotedParts? rest
    match skipGap rest with
    | ':' :: rest => some rest
    | _ => none
  | _ => none

inductive Expected where
  | value
  /-- A comma or the end of what is open; at its very start the first part instead of a comma. -/
  | more (first : Bool)

def passValue? : Nat → Expected → List Frame → List Char → Option (List Char)
  | 0, _, _, _ => none
  | fuel + 1, .value, frames, cs =>
    match skipGap cs with
    | '[' :: rest => passValue? fuel (.more true) (.array :: frames) rest
    | '{' :: rest => passValue? fuel (.more true) (.object :: frames) rest
    | cs => do passValue? fuel (.more false) frames (← passScalar? cs)
  | _ + 1, .more _, [], cs => some cs
  | fuel + 1, .more first, .array :: frames, cs =>
    match skipGap cs with
    | ']' :: rest => passValue? fuel (.more false) frames rest
    | ',' :: rest => if first then none else passValue? fuel .value (.array :: frames) rest
    | cs => if first then passValue? fuel .value (.array :: frames) cs else none
  | fuel + 1, .more first, .object :: frames, cs =>
    match skipGap cs with
    | '}' :: rest => passValue? fuel (.more false) frames rest
    | ',' :: rest =>
      if first then none else do passValue? fuel .value (.object :: frames) (← passName? rest)
    | cs => if first then do passValue? fuel .value (.object :: frames) (← passName? cs) else none

def passOver (cs : List Char) : Except BodyFault (List Char) :=
  wellFormed (passValue? (2 * cs.length + 3) .value [] cs)

/-- The fault of a value of the wrong kind: arrays and objects are refused at their start, other
values after they are read. -/
def wrongKind (cs : List Char) : BodyFault :=
  match cs with
  | '[' :: _ => .mismatched
  | '{' :: _ => .mismatched
  | cs => if (readScalar? cs).isSome then .mismatched else .malformed

def stringValue (cs : List Char) : Except BodyFault (String × List Char) :=
  match skipGap cs with
  | '"' :: rest => wellFormed (readQuoted? rest)
  | cs => .error (wrongKind cs)

def optionalString (cs : List Char) : Except BodyFault (Option String × List Char) :=
  match skipGap cs with
  | 'n' :: rest =>
    match rest with
    | 'u' :: 'l' :: 'l' :: rest => .ok (none, rest)
    | _ => .error .malformed
  | cs => (stringValue cs).map fun (s, rest) => (some s, rest)

def afterColon (cs : List Char) : Except BodyFault (List Char) :=
  match skipGap cs with
  | ':' :: rest => .ok rest
  | _ => .error .malformed

/-- The name of the next member, or none at the end of the object. -/
def nextName (first : Bool) (cs : List Char) : Except BodyFault (Option String × List Char) :=
  match skipGap cs with
  | '}' :: rest => .ok (none, rest)
  | '"' :: rest =>
    if first then do let (s, rest) ← wellFormed (readQuoted? rest); return (some s, rest)
    else .error .malformed
  | ',' :: rest =>
    if first then .error .malformed
    else match skipGap rest with
      | '"' :: rest => do let (s, rest) ← wellFormed (readQuoted? rest); return (some s, rest)
      | _ => .error .malformed
  | _ => .error .malformed

def stringMembers :
    Nat → Bool → List Char → Except BodyFault (List (String × String) × List Char)
  | 0, _, _ => .error .malformed
  | fuel + 1, first, cs => do
    match ← nextName first cs with
    | (none, rest) => return ([], rest)
    | (some name, rest) =>
      let (value, rest) ← stringValue (← afterColon rest)
      let (members, rest) ← stringMembers fuel false rest
      return ((name, value) :: members, rest)

/-- An object of strings; of members with one name the last counts. -/
def stringMap (cs : List Char) : Except BodyFault (Dictionary String × List Char) :=
  match skipGap cs with
  | '{' :: rest => do
    let (members, rest) ← stringMembers (rest.length + 1) true rest
    return (.ofList members, rest)
  | cs => .error (wrongKind cs)

structure Found where
  name : Option (Option String)
  properties : Option (Dictionary String)

/-- The request of an object whose opening brace is taken. -/
def requestMembers :
    Nat → Bool → Found → List Char → Except BodyFault (PropertiesRequest × List Char)
  | 0, _, _, _ => .error .malformed
  | fuel + 1, first, found, cs => do
    match ← nextName first cs with
    | (none, rest) =>
      match found.properties with
      | some properties => return (⟨found.name.getD none, properties⟩, rest)
      | none => throw .mismatched
    | (some "name", rest) =>
      if found.name.isSome then throw .mismatched
      let (name, rest) ← optionalString (← afterColon rest)
      requestMembers fuel false { found with name := some name } rest
    | (some "properties", rest) =>
      if found.properties.isSome then throw .mismatched
      let (properties, rest) ← stringMap (← afterColon rest)
      requestMembers fuel false { found with properties := some properties } rest
    | (some _, rest) =>
      let rest ← passOver (← afterColon rest)
      requestMembers fuel false found rest

/-- The text before the next item of an array, or the fault of an array that is too short. -/
def nextItem (first : Bool) (cs : List Char) : Except BodyFault (List Char) :=
  match skipGap cs with
  | [] => .error .malformed
  | ']' :: _ => .error .mismatched
  | ',' :: rest =>
    if first then .ok (',' :: rest)
    else match skipGap rest with
      | [] => .error .malformed
      | ']' :: _ => .error .malformed
      | cs => .ok cs
  | cs => if first then .ok cs else .error .malformed

def requestItems (cs : List Char) : Except BodyFault (PropertiesRequest × List Char) := do
  let (name, rest) ← optionalString (← nextItem true cs)
  let (properties, rest) ← stringMap (← nextItem false rest)
  match skipGap rest with
  | ']' :: rest => return (⟨name, properties⟩, rest)
  | _ => throw .malformed

def PropertiesRequest.parse (text : List Char) : Except BodyFault PropertiesRequest := do
  let (request, rest) ← match skipGap text with
    | '{' :: rest => requestMembers (rest.length + 1) true ⟨none, none⟩ rest
    | '[' :: rest => requestItems rest
    | cs => .error (wrongKind cs)
  match skipGap rest with
  | [] => return request
  | _ => throw .malformed

/-- What is wrong with a request that could be read, in alphabetical order. -/
def PropertiesRequest.problems (r : PropertiesRequest) : List String :=
  (match r.name with
    | some name =>
      if 1 ≤ name.length && name.length ≤ 256 then []
      else ["name: Name must be between 1 and 256 characters"]
    | none => []) ++
  if r.properties.keys.any Text.isAllBlank then ["properties: Property keys must not be blank"]
  else []

end LakeCatalog.Service
