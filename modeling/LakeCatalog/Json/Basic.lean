import LakeCatalog.Binary64
import LakeCatalog.Dictionary

/-!
# JSON values

The values of JSON text. A number that is written as an integer and fits 64 bits is kept exactly;
every other number is a binary64 number. The members of an object are listed in the order in which
they are written; reading a text lists them in ascending order of their names.

Reading puts the members of every object in ascending order, at every level. Whether a value can be
read from its text at all depends on how many arrays and objects are open at once and on its
numbers; here only integers of 64 bits are considered, for which the text says all.
-/

namespace LakeCatalog

inductive Json.Number where
  | integer (n : Int)
  | double (x : Binary64)
  deriving DecidableEq, Inhabited

inductive Json where
  | null
  | bool (b : Bool)
  | number (n : Json.Number)
  | string (s : String)
  | array (items : List Json)
  | object (members : List (String × Json))
  deriving Inhabited

namespace Json

/-- An object whose members are put in ascending order; of members with one name the last counts. -/
def sortedObject (members : List (String × Json)) : Json :=
  .object (Dictionary.ofList members).entries

def ofNat (n : Nat) : Json := .number (.integer n)

def ofStrings (items : List String) : Json := .array (items.map .string)

def ofDictionary (d : Dictionary String) : Json :=
  .object (d.entries.map fun e => (e.1, .string e.2))

/-- The member of an object with a name; none for other values. -/
def member? (name : String) : Json → Option Json
  | .object members => members.lookup name
  | _ => none

theorem member?_entries (d : Dictionary Json) (name : String) :
    (Json.object d.entries).member? name = d.get? name := rfl

def string? : Json → Option String
  | .string s => some s
  | _ => none

def array? : Json → Option (List Json)
  | .array items => some items
  | _ => none

def object? : Json → Option (List (String × Json))
  | .object members => some members
  | _ => none

/-- The number of a value that is written as a natural number below 2 ^ 64. -/
def natural? : Json → Option Nat
  | .number (.integer n) => if 0 ≤ n then some n.toNat else none
  | _ => none

mutual

/-- The value with the members of all its objects in ascending order. -/
def ordered : Json → Json
  | .array items => .array (orderedItems items)
  | .object members => sortedObject (orderedMembers members)
  | .null => .null
  | .bool b => .bool b
  | .number n => .number n
  | .string s => .string s

def orderedItems : List Json → List Json
  | [] => []
  | item :: rest => ordered item :: orderedItems rest

def orderedMembers : List (String × Json) → List (String × Json)
  | [] => []
  | (name, value) :: rest => (name, ordered value) :: orderedMembers rest

end

/-- The number is an integer of 64 bits. -/
def Number.IsWhole : Number → Prop
  | .integer n => -9223372036854775808 ≤ n ∧ n < 18446744073709551616
  | .double _ => False

/-- No more than `depth` arrays and objects are open at once, and all numbers are integers. -/
def Fits : Nat → Json → Prop
  | depth + 1, .array items => ∀ item ∈ items, Fits depth item
  | depth + 1, .object members => ∀ m ∈ members, Fits depth m.2
  | 0, .array _ => False
  | 0, .object _ => False
  | _, .number n => n.IsWhole
  | _, .null => True
  | _, .bool _ => True
  | _, .string _ => True

theorem orderedItems_eq_map (items : List Json) : orderedItems items = items.map ordered := by
  induction items with
  | nil => rfl
  | cons item rest ih => rw [orderedItems, ih, List.map_cons]

theorem orderedMembers_eq_map (members : List (String × Json)) :
    orderedMembers members = members.map fun m => (m.1, ordered m.2) := by
  induction members with
  | nil => rfl
  | cons m rest ih => rw [orderedMembers, ih, List.map_cons]

/-- Of members with one name the last counts. -/
theorem member?_sortedObject (members : List (String × Json)) (name : String) :
    (sortedObject members).member? name = members.reverse.lookup name := by
  rw [sortedObject, member?_entries, Dictionary.get?_ofList]

/-- How deep a value without parts may be nested does not matter. -/
theorem Fits.of_scalar {depth : Nat} {j : Json} (fits : Fits depth j)
    (items : ∀ items, j ≠ .array items) (members : ∀ members, j ≠ .object members)
    (depth' : Nat) : Fits depth' j := by
  cases j with
  | array list => exact absurd rfl (items list)
  | object list => exact absurd rfl (members list)
  | _ => cases depth <;> cases depth' <;> exact fits

theorem Fits.mono {depth depth' : Nat} {j : Json} (fits : Fits depth j) (deeper : depth ≤ depth') :
    Fits depth' j := by
  induction depth' generalizing depth j with
  | zero => exact Nat.le_zero.mp deeper ▸ fits
  | succ depth' ih =>
    cases depth with
    | zero =>
      cases j with
      | array | object => exact fits.elim
      | _ => exact fits
    | succ depth =>
      have shallower := Nat.le_of_succ_le_succ deeper
      cases j with
      | array items => exact fun item mem => ih (fits item mem) shallower
      | object members => exact fun m mem => ih (fits m mem) shallower
      | _ => exact fits

/-- What fits as a whole fits in every part. -/
theorem Fits.of_mem_items {depth : Nat} {items : List Json} (fits : Fits depth (.array items))
    {item : Json} (mem : item ∈ items) : Fits depth item := by
  cases depth with
  | zero => exact fits.elim
  | succ depth => exact Fits.mono (fits item mem) (Nat.le_succ depth)

theorem Fits.of_mem_members {depth : Nat} {members : List (String × Json)}
    (fits : Fits depth (.object members)) {m : String × Json} (mem : m ∈ members) :
    Fits depth m.2 := by
  cases depth with
  | zero => exact fits.elim
  | succ depth => exact Fits.mono (fits m mem) (Nat.le_succ depth)

/-- Of members with different names each is found, and it is ordered. -/
theorem member?_ordered (members : List (String × Json))
    (distinct : members.Pairwise fun a b => a.1 ≠ b.1) (name : String) :
    (ordered (.object members)).member? name = (members.lookup name).map ordered := by
  rw [ordered, member?_sortedObject, orderedMembers_eq_map, lookup_reverse, lookup_map_values]
  exact List.pairwise_map.mpr distinct

/-- A value that fits the reader and is listed as it is read. -/
def Settled (depth : Nat) (j : Json) : Prop := Fits depth j ∧ ordered j = j

section

variable {depth : Nat} {members : List (String × Json)}

theorem settled_string (depth : Nat) (s : String) : Settled depth (.string s) := by
  cases depth <;> exact ⟨trivial, rfl⟩

theorem settled_bool (depth : Nat) (b : Bool) : Settled depth (.bool b) := by
  cases depth <;> exact ⟨trivial, rfl⟩

theorem settled_array {items : List Json} (settled : ∀ j ∈ items, Settled depth j) :
    Settled (depth + 1) (.array items) := by
  have same : orderedItems items = items := by
    rw [orderedItems_eq_map, List.map_congr_left fun j hj => (settled j hj).2, List.map_id']
  exact ⟨fun j hj => (settled j hj).1, congrArg Json.array same⟩

theorem settled_ofStrings (depth : Nat) (items : List String) :
    Settled (depth + 1) (.ofStrings items) := by
  refine settled_array fun j hj => ?_
  obtain ⟨s, -, rfl⟩ := List.mem_map.mp hj
  exact settled_string depth s

private theorem orderedMembers_eq_self (settled : ∀ m ∈ members, Settled depth m.2) :
    orderedMembers members = members := by
  have same : ∀ m ∈ members, (m.1, ordered m.2) = m := fun m hm =>
    Prod.ext rfl (settled m hm).2
  rw [orderedMembers_eq_map, List.map_congr_left same, List.map_id']

/-- An object that is listed in ascending order stays as it is. -/
theorem settled_object (ascending : Ascending members)
    (settled : ∀ m ∈ members, Settled depth m.2) : Settled (depth + 1) (.object members) := by
  have listed := Dictionary.ofList_entries ⟨members, ascending⟩
  refine ⟨fun m hm => (settled m hm).1, ?_⟩
  rw [ordered, orderedMembers_eq_self settled, sortedObject]
  exact congrArg (fun d => Json.object d.entries) listed

theorem settled_singleton {name : String} {j : Json} (settled : Settled depth j) :
    Settled (depth + 1) (.object [(name, j)]) :=
  settled_object (List.pairwise_singleton _ _) fun _ hm => List.mem_singleton.mp hm ▸ settled

theorem settled_sortedObject (settled : ∀ m ∈ members, Settled depth m.2) :
    Settled (depth + 1) (sortedObject members) :=
  settled_object (Dictionary.ofList members).ascending fun m hm =>
    settled m (Dictionary.mem_of_mem_ofList hm)

end

end Json

end LakeCatalog
