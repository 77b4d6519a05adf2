import LakeCatalog.Proofs.Json.RoundTrip
import LakeCatalog.Proofs.TableIdentity

/-!
# Tables that share a container

The container of a table is named by the first half of the digest of a JSON text that holds the
platform, the database and the environment of the table. Reading this text gives the three names
back, so no name can imitate another one, whatever quotes and backslashes it holds. Two tables share
a container if these names are the same, and otherwise only if the digests of two different texts
begin alike. Unlike in the name of a dataset, blanks at the end of the platform count.
-/

namespace LakeCatalog

open Text

namespace Digest

def first128 (s : String) : List UInt8 := (sha256 (utf8 s)).take 16

/-- Two strings whose digests begin with the same 128 bits. -/
def Collide (s s' : String) : Prop := s ≠ s' ∧ first128 s = first128 s'

lemma take_flatMap_hexByte (n : Nat) (bytes : List UInt8) :
    (bytes.flatMap hexByte).take (2 * n) = (bytes.take n).flatMap hexByte := by
  induction n generalizing bytes with
  | zero => rfl
  | succ n ih =>
    cases bytes with
    | nil => rfl
    | cons b rest =>
      have digits : 2 * (n + 1) = (hexByte b).length + 2 * n := by
        rw [hexByte, List.length_cons, List.length_singleton]
        omega
      rw [List.flatMap_cons, digits, List.take_length_add_append, ih, List.take_succ_cons,
        List.flatMap_cons]

lemma flatMap_hexByte_injective {bytes bytes' : List UInt8}
    (same : bytes.flatMap hexByte = bytes'.flatMap hexByte) : bytes = bytes' := by
  induction bytes generalizing bytes' with
  | nil =>
    cases bytes' with
    | nil => rfl
    | cons b rest => cases same
  | cons b rest ih =>
    cases bytes' with
    | nil => cases same
    | cons b' rest' =>
      obtain ⟨first, others⟩ := List.append_inj same rfl
      rw [hexByte_injective first, ih others]

lemma first128_eq_iff {s s' : String} : first128 s = first128 s' ↔ s = s' ∨ Collide s s' := by
  by_cases same : s = s' <;> simp [Collide, same]

end Digest

namespace TableIdentity

section

variable {platform database table env platform' database' table' env' : String}
  {t t' : TableIdentity}

variable (platform database env) in
/-- Platform, database and environment are read back. -/
lemma parse?_containerKey : Json.parse? (containerKey platform database env) =
    some (.object [("database", .string database), ("env", .string env),
      ("platform", .string platform)]) := by
  have settled : Json.Settled (126 + 1) (.object [("database", .string database),
      ("env", .string env), ("platform", .string platform)]) := by
    refine Json.settled_object ?_ ?_
    · have keys : ["database", "env", "platform"].Pairwise (· < ·) := by decide
      exact List.Pairwise.of_map Prod.fst (fun _ _ less => less) keys
    · simp [Json.settled_string]
  exact settled.parse?_compact

lemma containerKey_eq_iff :
    containerKey platform database env = containerKey platform' database' env' ↔
      platform = platform' ∧ database = database' ∧ env = env' := by
  constructor
  · intro same
    have read := parse?_containerKey platform database env
    rw [same, parse?_containerKey] at read
    simp only [Option.some.injEq, Json.object.injEq, List.cons.injEq, Prod.mk.injEq,
      Json.string.injEq] at read
    obtain ⟨⟨-, rfl⟩, ⟨-, rfl⟩, ⟨-, rfl⟩, -⟩ := read
    exact ⟨rfl, rfl, rfl⟩
  · rintro ⟨rfl, rfl, rfl⟩
    rfl

lemma toList_containerGuid : (containerGuid platform database env).toList =
    (Digest.first128 (containerKey platform database env)).flatMap hexByte := by
  rw [containerGuid, Digest.sha256Hex, String.toList_ofList, String.toList_ofList]
  exact Digest.take_flatMap_hexByte 16 _

lemma container_eq_iff (named : of platform database table env = .ok t)
    (named' : of platform' database' table' env' = .ok t') :
    t.container = t'.container ↔
      Digest.first128 (containerKey platform database env) =
        Digest.first128 (containerKey platform' database' env') := by
  rw [← Urn.text_injective.eq_iff, text_container named, text_container named',
    ← String.toList_inj, String.toList_append, String.toList_append, List.append_cancel_left_eq,
    toList_containerGuid, toList_containerGuid]
  exact ⟨Digest.flatMap_hexByte_injective, congrArg _⟩

end

/-- The container of a table is named by the digits of the first 128 bits of the digest of a text,
and the texts of two tables are the same exactly if platform, database and environment are. So
tables share a container exactly if they belong to one database on one platform in one environment,
unless the digests of their texts collide. -/
theorem same_container_iff {platform database table env platform' database' table' env' : String}
    {t t' : TableIdentity} (named : of platform database table env = .ok t)
    (named' : of platform' database' table' env' = .ok t') :
    let key := containerKey platform database env
    let key' := containerKey platform' database' env'
    t.container.text =
        "urn:li:container:" ++ String.ofList ((Digest.first128 key).flatMap hexByte) ∧
      (key = key' ↔ platform = platform' ∧ database = database' ∧ env = env') ∧
      (t.container = t'.container ↔
        (platform = platform' ∧ database = database' ∧ env = env') ∨ Digest.Collide key key') := by
  intro key key'
  refine ⟨?_, containerKey_eq_iff, ?_⟩
  · rw [text_container named, ← toList_containerGuid, String.ofList_toList]
  · rw [container_eq_iff named named', Digest.first128_eq_iff, containerKey_eq_iff]

/-- Two tables of one database share a container. A database and an environment whose names would
be put together to the same text, if quotes were not escaped, have another one. -/
theorem same_container_of_quoted_names : ∃ orders customers other,
    of "hudi" "sales\",\"env\":\"PROD" "orders" "EU" = .ok orders ∧
      of "hudi" "sales\",\"env\":\"PROD" "customers" "EU" = .ok customers ∧
      of "hudi" "sales" "orders" "PROD\",\"env\":\"EU" = .ok other ∧
      orders.container = customers.container ∧ orders.container ≠ other.container := by
  obtain ⟨orders, named⟩ := exists_of_visible "hudi" "sales\",\"env\":\"PROD" "orders" "EU"
    (by decide) (by decide)
  obtain ⟨customers, named'⟩ := exists_of_visible "hudi" "sales\",\"env\":\"PROD" "customers" "EU"
    (by decide) (by decide)
  obtain ⟨other, named''⟩ := exists_of_visible "hudi" "sales" "orders" "PROD\",\"env\":\"EU"
    (by decide) (by decide)
  obtain ⟨-, -, shared⟩ := same_container_iff named named'
  obtain ⟨-, -, distinct⟩ := same_container_iff named named''
  refine ⟨orders, customers, other, named, named', named'', ?_, ?_⟩
  · exact shared.mpr (.inl ⟨rfl, rfl, rfl⟩)
  · rw [Ne, distinct, not_or]
    refine ⟨by decide, fun ⟨_, collide⟩ => ?_⟩
    revert collide
    decide +kernel

end TableIdentity

end LakeCatalog
