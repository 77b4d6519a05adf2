import LakeCatalog.Digest
import LakeCatalog.Fault
import LakeCatalog.Json.Basic
import LakeCatalog.Json.Text
import LakeCatalog.Text.Blank

/-!
# The identity of a table in the catalog

The catalog addresses an entity by a URN `urn:li:T:K`: the entity type `T` is an ASCII letter
followed by ASCII letters and digits, and the key `K` is any non-empty text without a line feed.
Blanks around a URN do not belong to it.

A URN is spelled from its entity type and its key, with nothing around them but what every URN
begins with and a colon between them.

A table is published under three entities: the platform, the container that stands for its
database, and the dataset that stands for the table itself. The container is named by a digest of
platform, database and environment, so all tables of one database share it.
-/

namespace LakeCatalog

namespace Urn

def isLetter (c : Char) : Bool :=
  ('a' ≤ c && c ≤ 'z') || ('A' ≤ c && c ≤ 'Z')

def isLetterOrDigit (c : Char) : Bool :=
  isLetter c || ('0' ≤ c && c ≤ '9')

/-- The entity type and the key of a text after `urn:li:`. -/
def typeAndKey? (cs : List Char) : Option (List Char × List Char) :=
  match cs.takeWhile isLetterOrDigit, cs.dropWhile isLetterOrDigit with
  | first :: more, ':' :: key =>
    if isLetter first && !key.isEmpty && !key.contains '\n' then some (first :: more, key) else none
  | _, _ => none

/-- The entity type and the key of a text that is a URN. -/
def parts? : List Char → Option (List Char × List Char)
  | 'u' :: 'r' :: 'n' :: ':' :: 'l' :: 'i' :: ':' :: rest => typeAndKey? rest
  | _ => none

end Urn

structure Urn where
  text : String
  wellFormed : (Urn.parts? text.toList).isSome = true
  deriving DecidableEq

namespace Urn

/-- A text is a URN once the blanks around it are taken off. -/
def isValid (raw : String) : Bool :=
  (parts? (Text.trimmed raw).toList).isSome

def parse? (raw : String) : Option Urn :=
  if h : (parts? (Text.trimmed raw).toList).isSome = true then some ⟨Text.trimmed raw, h⟩ else none

/-- The URN of a text, or the fault that it is none. -/
def parse (raw : String) : Except Fault Urn :=
  match parse? raw with
  | some urn => .ok urn
  | none => .error (.build (.invalidUrn raw))

/-- The URN that a JSON value holds; only a string can. -/
def ofJson? (j : Json) : Option Urn :=
  j.string?.bind parse?

def entityType (urn : Urn) : String :=
  String.ofList ((parts? urn.text.toList).get urn.wellFormed).1

def key (urn : Urn) : String :=
  String.ofList ((parts? urn.text.toList).get urn.wellFormed).2

theorem parse?_isSome (raw : String) : (parse? raw).isSome = isValid raw := by
  unfold parse? isValid
  split <;> simp_all

theorem ofJson?_string (raw : String) : ofJson? (.string raw) = parse? raw := by
  rw [ofJson?, Json.string?, Option.bind_some]

theorem isValid_iff {raw : String} : isValid raw = true ↔ ∃ urn, parse raw = .ok urn := by
  rw [← parse?_isSome, Option.isSome_iff_exists]
  refine exists_congr fun urn => ?_
  unfold parse
  split
  · rename_i found hfound
    simp [hfound]
  · rename_i missing
    simp [missing]

theorem toList_text_of_parse {raw : String} {urn : Urn} (h : parse raw = .ok urn) :
    urn.text.toList = Text.trim raw.toList := by
  unfold parse at h
  split at h
  · rename_i found hfound
    cases h
    unfold parse? at hfound
    split at hfound
    · cases hfound
      exact String.toList_ofList
    · cases hfound
  · cases h

/-- A URN is its text. -/
theorem text_injective : Function.Injective Urn.text := by
  rintro ⟨s, _⟩ ⟨t, _⟩ same
  cases same
  rfl

/-- An ASCII letter and after it ASCII letters and digits. -/
inductive IsEntityType : List Char → Prop where
  | intro {first : Char} {more : List Char} (letter : isLetter first = true)
    (others : ∀ c ∈ more, isLetterOrDigit c = true) : IsEntityType (first :: more)

instance : (kind : List Char) → Decidable (IsEntityType kind)
  | [] => .isFalse nofun
  | first :: more =>
    decidable_of_iff (isLetter first = true ∧ more.all isLetterOrDigit = true)
      ⟨fun ⟨letter, others⟩ => .intro letter (List.all_eq_true.mp others),
        fun ⟨letter, others⟩ => ⟨letter, List.all_eq_true.mpr others⟩⟩

/-- A text on one line that is not empty. -/
def IsKey (key : List Char) : Prop := key ≠ [] ∧ '\n' ∉ key

/-- A text is the URN of an entity type and a key. -/
structure Spells (text entityType key : String) : Prop where
  text : text = "urn:li:" ++ entityType ++ ":" ++ key
  entityType : IsEntityType entityType.toList
  key : IsKey key.toList

end Urn

structure TableIdentity where
  dataset : Urn
  container : Urn
  platform : Urn
  table : String
  database : String
  deriving DecidableEq

namespace TableIdentity

/-- The text that names a database on a platform in an environment. -/
def containerKey (platform database env : String) : String :=
  (Json.object [("database", .string database), ("env", .string env),
    ("platform", .string platform)]).compact

/-- The key of the container of a database: half of the digest of its name. -/
def containerGuid (platform database env : String) : String :=
  String.ofList ((Digest.sha256Hex (containerKey platform database env)).toList.take 32)

def of (platform database table env : String) : Except Fault TableIdentity := do
  if Text.isAllBlank database || Text.isAllBlank table then
    throw (.build .blankTableName)
  let platformUrn ← Urn.parse ("urn:li:dataPlatform:" ++ platform)
  let dataset ← Urn.parse
    ("urn:li:dataset:(" ++ platformUrn.text ++ "," ++ database ++ "." ++ table ++ "," ++ env ++ ")")
  let container ← Urn.parse ("urn:li:container:" ++ containerGuid platform database env)
  return { dataset, container, platform := platformUrn, table, database }

def qualifiedName (t : TableIdentity) : String :=
  t.database ++ "." ++ t.table

end TableIdentity

end LakeCatalog
