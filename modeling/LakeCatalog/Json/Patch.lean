import LakeCatalog.Json.Basic
import LakeCatalog.Text.Numeral
import LakeCatalog.Text.Pieces

/-!
# Pointers and patches

A pointer names a place in a value by the names on the way to it. Its text is empty for the value
itself, and otherwise a slash stands before every name. Within a name `~1` stands for a slash and
`~0` for a tilde, and a tilde stands before nothing else.

A patch is a list of operations that are carried out on a value one after the other, and all of them
or none. An operation is itself a JSON value. The operation that is defined here adds a value at a
place: a member of an object is added or replaced, and an item of a list is put before the one that
stood there. What holds the place must be there already.
-/

namespace LakeCatalog.Json

/-- The names on the way to a place in a value. -/
abbrev Pointer := List String

namespace Pointer

/-- The name that is written between two slashes; none if a tilde escapes nothing. -/
def unescape? : List Char → Option (List Char)
  | [] => some []
  | '~' :: '0' :: rest => (unescape? rest).map ('~' :: ·)
  | '~' :: '1' :: rest => (unescape? rest).map ('/' :: ·)
  | c :: rest => if c = '~' then none else (unescape? rest).map (c :: ·)

def read? (text : String) : Option Pointer :=
  match text.toList with
  | [] => some []
  | '/' :: names =>
    (Text.pieces (· == '/') names).mapM fun name => (unescape? name).map String.ofList
  | _ => none

/-- The place in a list that a name stands for: its number without leading zeros. -/
def index? (name : String) : Option Nat :=
  (Text.readDecimal? name.toList).filter fun n => Text.decimal n = name

/-- The place in a list of some length at which a name lets an item be added; a hyphen stands for
its end. -/
def newIndex? (length : Nat) (name : String) : Option Nat :=
  if name = "-" then some length else (index? name).filter (· ≤ length)

end Pointer

/-- A value with another one added at a place. -/
def added? (new : Json) : Pointer → Json → Option Json
  | [], _ => some new
  | [name], .object members =>
    some (.object ((Dictionary.ofList members).insert name new).entries)
  | [name], .array items => do
    let i ← Pointer.newIndex? items.length name
    some (.array (items.insertIdx i new))
  | name :: rest, .object members => do
    let member ← (Dictionary.ofList members).get? name
    let changed ← added? new rest member
    some (.object ((Dictionary.ofList members).insert name changed).entries)
  | name :: rest, .array items => do
    let i ← Pointer.index? name
    let item ← items[i]?
    let changed ← added? new rest item
    some (.array (items.set i changed))
  | _ :: _, _ => none

/-- A value after an operation on it; none for anything but an addition that can be carried out. -/
def afterOperation? (value operation : Json) : Option Json := do
  let kind ← operation.member? "op"
  let path ← (operation.member? "path").bind string?
  let new ← operation.member? "value"
  if kind.string? = some "add" then added? new (← Pointer.read? path) value else none

def patched? (value patch : Json) : Option Json := do
  (← patch.array?).foldlM afterOperation? value

end LakeCatalog.Json
