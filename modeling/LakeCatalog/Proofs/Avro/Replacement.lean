import LakeCatalog.Proofs.Avro.Scope

/-!
# Another definition at a place

Replacing a part of a definition that can be read leaves its form, its other parts and its own name
as they were. So where the new definition stands, nothing else is known than what was known there
before: that depends on earlier parts only.
-/

namespace LakeCatalog.Avro

open Schema

variable {members : List (String × Json)} {names after : Names}

lemma text?_replaceMember {key name : String} (other : name ≠ key) (new : Json) :
    text? name (replaceMember key new members) = text? name members := by
  rw [text?, lookup_replaceMember, if_neg other, text?]

lemma requireText_replaceMember {key name : String} (other : name ≠ key) (new : Json) :
    requireText name (replaceMember key new members) = requireText name members := by
  rw [requireText, text?_replaceMember other, requireText]

lemma naturalOr0_replaceMember {key name : String} (other : name ≠ key) (new : Json) :
    naturalOr0 name (replaceMember key new members) = naturalOr0 name members := by
  rw [naturalOr0, lookup_replaceMember, if_neg other, naturalOr0]

/-- The attributes that decide what an object defines. -/
def deciding : List String :=
  ["type", "logicalType", "precision", "scale"]

lemma form?_replaceMember {key : String} (other : key ∉ deciding) (new : Json) :
    form? (replaceMember key new members) = form? members := by
  simp only [deciding, List.mem_cons, List.not_mem_nil, or_false, not_or] at other
  obtain ⟨type, logical, precision, scale⟩ := other
  have same (base : String) :
      logicalType? (replaceMember key new members) base = logicalType? members base := by
    rw [logicalType?, logicalType?, logicalType?.decimal, logicalType?.decimal,
      text?_replaceMember (Ne.symm logical), naturalOr0_replaceMember (Ne.symm precision),
      naturalOr0_replaceMember (Ne.symm scale)]
  rw [form?, form?, lookup_replaceMember, if_neg (Ne.symm type)]
  simp only [formOf, same]

/-- An object around a definition can be written around another one that is no name. -/
lemma form?_of_around {old new : Json} (around : form? members = some (.around old))
    (unnamed : ∀ base, new ≠ .string base) :
    form? (replaceMember "type" new members) = some (.around new) := by
  have written := (form?_eq_around_iff.mp around).1
  refine form?_eq_around_iff.mpr ⟨?_, unnamed⟩
  rw [lookup_replaceMember, if_pos rfl, written, Option.map_some]

lemma fieldType_retype {field : Json} (typed : (field.member? "type").isSome) (new : Json) :
    fieldType (retype new field) = new := by
  cases field with
  | object attributes =>
    obtain ⟨type, found⟩ := Option.isSome_iff_exists.mp typed
    rw [Json.member?] at found
    rw [retype, fieldType, Json.member?, lookup_replaceMember, if_pos rfl, found]
    rfl
  | _ => cases typed

lemma toList_lookup_replaceMember {key : String} {i : Nat} {new : Json}
    (bound : i < (members.lookup key).toList.length) :
    ((replaceMember key new members).lookup key).toList =
      (members.lookup key).toList.set i new := by
  rw [lookup_replaceMember, if_pos rfl]
  cases written : members.lookup key with
  | none =>
    rw [written] at bound
    exact absurd bound (Nat.not_lt_zero i)
  | some old =>
    rw [written] at bound
    cases Nat.lt_one_iff.mp bound
    rfl

/-- The types of a record's fields are replaced one at a time. -/
lemma fieldTypes_replaceMember {i : Nat} {new : Json}
    (listed : members.lookup "fields" = some (.array (fields members)))
    (typed : ∀ field ∈ fields members, (field.member? "type").isSome) :
    (fields (replaceMember "fields" (.array ((fields members).modify i (retype new)))
      members)).map fieldType = ((fields members).map fieldType).set i new := by
  have replaced : fields (replaceMember "fields" (.array ((fields members).modify i (retype new)))
      members) = (fields members).modify i (retype new) := by
    rw [fields, lookup_replaceMember, if_pos rfl, listed]
    rfl
  rw [replaced]
  refine List.ext_getElem? fun j => ?_
  rw [List.getElem?_map, List.getElem?_modify, List.getElem?_set, List.length_map]
  cases here : (fields members)[j]? with
  | none =>
    have short := List.getElem?_eq_none_iff.mp here
    rw [List.getElem?_map, here]
    split_ifs <;> first | rfl | omega
  | some field =>
    obtain ⟨bound, -⟩ := List.getElem?_eq_some_iff.mp here
    have replaced := fieldType_retype (typed field (List.mem_of_getElem? here)) new
    rw [List.getElem?_map, here, Option.map_eq_map, Option.map_some, Option.map_some]
    by_cases same : i = j
    · rw [if_pos same, if_pos same, if_pos (same ▸ bound), replaced]
    · rw [if_neg same, if_neg same, Option.map_some]

/-- A definition that can be read keeps its other parts when one of them is replaced. -/
lemma parts_replacePart {value new : Json} {found : Definition} {i : Nat}
    (read : readType value names = .ok (found, after)) (bound : i < (parts value).length)
    (inner : isAround value = true → ∀ base, new ≠ .string base) :
    parts (replacePart i new value) = (parts value).set i new := by
  cases value with
  | array branches => rfl
  | object members =>
    rw [readType_object] at read
    rw [isAround] at inner
    rw [parts] at bound ⊢
    rw [replacePart]
    generalize stands : form? members = form at read inner bound ⊢
    obtain _ | form := form
    · exact absurd bound (Nat.not_lt_zero i)
    cases form with
    | around old =>
      cases Nat.lt_one_iff.mp bound
      dsimp only
      rw [parts, form?_of_around stands (inner rfl)]
      rfl
    | record =>
      obtain ⟨name, known, -, read⟩ := Reading.bind_ok read
      obtain ⟨columns, through, columnsRead, -⟩ := Reading.bind_ok read
      obtain ⟨listed, columnsRead⟩ := readColumnsOf_ok columnsRead
      dsimp only
      rw [parts, form?_replaceMember (by decide), stands]
      exact fieldTypes_replaceMember listed (readColumns_ok columnsRead).2
    | array | map =>
      dsimp only
      rw [parts, form?_replaceMember (by decide), stands]
      exact toList_lookup_replaceMember bound
    | refined | enumeration | fixed | reference =>
      exact absurd bound (Nat.not_lt_zero i)
  | _ => exact absurd bound (Nat.not_lt_zero i)

lemma put_cons {i : Nat} {p : Place} {value part : Json} (here : (parts value)[i]? = some part)
    (new : Json) : put (i :: p) new value = replacePart i (put p new part) value := by
  rw [put, here]

/-- A definition with parts is no name, and stays none when one of them is replaced. -/
lemma replacePart_ne_string {i : Nat} {value part : Json} (here : (parts value)[i]? = some part)
    (new : Json) (base : String) : replacePart i new value ≠ .string base := by
  cases value with
  | array branches => exact nofun
  | object members =>
    rw [replacePart]
    split <;> exact nofun
  | _ => cases here

lemma put_ne_string {value whole : Json} {outer : Place} {i : Nat}
    (inside : at? outer value = some whole) (bound : i < (parts whole).length) (new : Json)
    (base : String) : put (outer ++ [i]) new value ≠ .string base := by
  cases outer with
  | nil =>
    cases inside
    have here : (parts value)[i]? = some (parts value)[i] := List.getElem?_eq_getElem bound
    rw [List.nil_append, put_cons here]
    exact replacePart_ne_string here _ base
  | cons j outer =>
    obtain ⟨part, here, -⟩ := at?_cons_eq_some_iff.mp inside
    rw [List.cons_append, put_cons here]
    exact replacePart_ne_string here _ base

/-- A replaced part is reached through the parts before it, which are the same. -/
lemma reached_replacePart {i : Nat} {p : Place} {value part : Json}
    (bound : i < (parts value).length)
    (others : parts (replacePart i part value) = (parts value).set i part) (names : Names) :
    at? (i :: p) (replacePart i part value) = at? p part ∧
      namesAt? (i :: p) (replacePart i part value) names =
        (namesThrough? ((parts value).take i) names).bind (namesAt? p part) := by
  have here : (parts (replacePart i part value))[i]? = some part := by
    rw [others, List.getElem?_set_self bound]
  constructor
  · rw [at?, here, Option.bind_some]
  · rw [namesAt?_cons here, others, List.take_set_of_le (Nat.le_refl i)]

/-- A new definition at a place is found there, and what is known there stays the same. -/
theorem reached_put {value whole : Json} {found : Definition} {outer : Place} {i : Nat}
    (read : readType value names = .ok (found, after)) (inside : at? outer value = some whole)
    (writable : isAround whole = false) (bound : i < (parts whole).length) (new : Json) :
    at? (outer ++ [i]) (put (outer ++ [i]) new value) = some new ∧
      namesAt? (outer ++ [i]) (put (outer ++ [i]) new value) names =
        namesAt? (outer ++ [i]) value names := by
  induction outer generalizing value names found after with
  | nil =>
    cases inside
    have here : (parts whole)[i]? = some (parts whole)[i] := List.getElem?_eq_getElem bound
    have others : parts (replacePart i new whole) = (parts whole).set i new :=
      parts_replacePart read bound fun around => absurd around (Bool.eq_false_iff.mp writable)
    obtain ⟨holds, reached⟩ := reached_replacePart bound others names
    rw [List.nil_append, put_cons here, namesAt?_cons here]
    exact ⟨holds, reached⟩
  | cons j outer ih =>
    obtain ⟨part, here, inside⟩ := at?_cons_eq_some_iff.mp inside
    obtain ⟨known, through, -⟩ := names_of_readType read
    obtain ⟨start, following, first, passed, -⟩ := namesThrough?_split here through
    have unnamed := put_ne_string inside bound new
    obtain ⟨rfl, -⟩ | ⟨inner, readPart⟩ := bare_or_ok passed
    · cases outer <;> exact absurd rfl (unnamed "null")
    · obtain ⟨holds, same⟩ := ih readPart inside
      have within : j < (parts value).length := (List.getElem?_eq_some_iff.mp here).1
      have others := parts_replacePart read within fun _ => unnamed
      obtain ⟨holds', reached⟩ := reached_replacePart within others names
      rw [List.cons_append, put_cons here, namesAt?_cons here, holds', reached, first]
      exact ⟨holds, same⟩

end LakeCatalog.Avro
