import LakeCatalog.Text.Pieces

/-!
# Requests to the service

A request names a method and a path and may carry headers and a body. The routes of the service are
matched by the whole path, without its query; a route that can be read answers to `GET` and `HEAD`,
every other to `POST`.
-/

namespace LakeCatalog.Service

open Text

structure Request where
  method : String
  path : String
  headers : List (String × String)
  body : ByteArray

def asciiLower (s : String) : List Char := s.toList.map Char.toLower

/-- The first header with a name, in whatever case it is written. -/
def Request.header? (r : Request) (name : String) : Option String :=
  (r.headers.find? fun h => asciiLower h.1 == asciiLower name).map Prod.snd

/-- The id that a client gives to its request; the reply to it carries the same id. -/
def Request.id? (r : Request) : Option String := r.header? "x-request-id"

inductive Route where
  | health
  | scope
  | syncTable
  | syncSchema
  | updateProperties
  | syncLastCommit
  | lastSynced
  deriving DecidableEq, Inhabited

namespace Route

def paths : List (String × Route) :=
  [("/health", .health), ("/scope", .scope), ("/sync", .syncTable), ("/sync/schema", .syncSchema),
    ("/sync/properties", .updateProperties), ("/sync/last-commit", .syncLastCommit),
    ("/sync/last-synced", .lastSynced)]

/-- The route of a path; a query does not count. -/
def ofPath? (path : String) : Option Route :=
  paths.lookup (String.ofList (cutAt (· == '?') path.toList).1)

def methods : Route → List String
  | .health => ["GET", "HEAD"]
  | .scope => ["GET", "HEAD"]
  | .lastSynced => ["GET", "HEAD"]
  | _ => ["POST"]

/-- The route admits one request at a time. -/
def isExclusive : Route → Bool
  | .health => false
  | .scope => false
  | _ => true

end Route

def isTokenChar (c : Char) : Bool :=
  ('a' ≤ c && c ≤ 'z') || ('A' ≤ c && c ≤ 'Z') || ('0' ≤ c && c ≤ '9') ||
    ['!', '#', '$', '%', '&', '\'', '*', '+', '-', '.', '^', '_', '`', '|', '~'].contains c

/-- The rest after a parameter value that stands in quotes: blanks up to the next semicolon. -/
def afterQuoted : List Char → Option (List Char)
  | [] => some []
  | ';' :: rest => some rest
  | ' ' :: rest => afterQuoted rest
  | _ => none

/-- The rest after the value of a parameter. -/
def afterValue : List Char → Option (List Char)
  | '"' :: rest =>
    let inside (c : Char) : Bool := c != '"' && 0x20 ≤ c.toNat && c.toNat != 0x7F
    match rest.takeWhile inside, rest.dropWhile inside with
    | _ :: _, '"' :: rest => afterQuoted rest
    | _, _ => none
  | cs =>
    match cs.takeWhile isTokenChar, cs.dropWhile isTokenChar with
    | _, [] => some []
    | _ :: _, ';' :: rest => some rest
    | _, _ => none

/-- Whether a text is a list of parameters, at most `fuel` of them. -/
def areParameters : Nat → List Char → Bool
  | _, [] => true
  | 0, _ => false
  | fuel + 1, cs =>
    let cs := cs.dropWhile (· == ' ')
    let isNameChar (c : Char) : Bool := isTokenChar c && c != '='
    match cs.takeWhile isNameChar, cs.dropWhile isNameChar with
    | [], [] => true
    | _ :: _, '=' :: rest =>
      match afterValue rest with
      | some rest => areParameters fuel rest
      | none => false
    | _, _ => false

/-- A subtype up to its last plus sign, and what follows that sign. A sign at the start is part of
the subtype. -/
def cutSuffix (subtype : List Char) : List Char × Option (List Char) :=
  let back := subtype.reverse
  match back.dropWhile (· != '+') with
  | '+' :: c :: front => ((c :: front).reverse, some (back.takeWhile (· != '+')).reverse)
  | _ => (subtype, none)

/-- The value of a content type that says that a body is JSON: `application/json`, or any subtype
of `application` that ends in `+json`, with parameters or without. -/
def isJsonType (contentType : String) : Bool :=
  let cs := asciiLower contentType
  match cutAt (· == '/') cs with
  | (type, some rest) =>
    let (subtype, parameters) := cutAt (· == ';') rest
    let (name, suffix) := cutSuffix subtype
    cs.all (fun c => 0x20 ≤ c.toNat && c.toNat < 0x7F) &&
      type == "application".toList && !subtype.isEmpty && subtype.all isTokenChar &&
      areParameters rest.length (parameters.getD []) &&
      (name == "json".toList || suffix == some "json".toList)
  | _ => false

end LakeCatalog.Service
