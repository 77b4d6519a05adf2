import LakeCatalog.Proofs.Avro.Replacement

/-!
# Definitions that are read alike

A definition is read part by part, and of a part only what is read of it counts. So a part other
than null can be replaced by an array or an object that is read alike, and the whole definition is
read as before, whether it can be read or not. Of a union it counts which branches other than null
there are, in their order, and whether null is among the branches: not where it stands, and not how
often.
-/

namespace LakeCatalog.Avro

open Schema

def IsCompound : Json → Prop
  | .array _ => True
  | .object _ => True
  | _ => False

variable {members : List (String × Json)} {value part new : Json} {i : Nat}

lemma IsCompound.ne_string (compound : IsCompound value) (text : String) :
    value ≠ .string text := by
  rintro rfl
  exact compound

lemma IsCompound.isProper (compound : IsCompound value) : isProper value = true :=
  isProper_iff.mpr (compound.ne_string "null")

lemma isCompound_of_part (here : (parts value)[i]? = some part) : IsCompound value := by
  cases value with
  | array | object => trivial
  | _ => cases here

lemma isProper_at {q : Place} {old : Json} (there : at? q value = some old)
    (proper : isProper old = true) : isProper value = true := by
  cases q with
  | nil => cases there; exact proper
  | cons i q =>
    obtain ⟨part, here, -⟩ := at?_cons_eq_some_iff.mp there
    exact (isCompound_of_part here).isProper

lemma readBranches_cons {branch : Json} (proper : isProper branch = true) (rest : List Json) :
    readBranches (branch :: rest) = do
      let first ← readType branch
      let (types, nullable) ← readBranches rest
      return (first.type :: types, first.nullable || nullable) := by
  rw [readBranches]
  exact isProper_iff.mp proper

lemma readBranches_set {branches : List Json} (here : branches[i]? = some part)
    (same : readType new = readType part) (proper : isProper part = true)
    (proper' : isProper new = true) :
    readBranches (branches.set i new) = readBranches branches := by
  induction branches generalizing i with
  | nil => cases here
  | cons branch rest ih =>
    cases i with
    | zero =>
      cases here
      rw [List.set_cons_zero, readBranches_cons proper', readBranches_cons proper, same]
    | succ i =>
      rw [List.set_cons_succ]
      by_cases bare : branch = .string "null"
      · subst bare
        rw [readBranches, readBranches, ih here]
      · have other := isProper_iff.mpr bare
        rw [readBranches_cons other, readBranches_cons other, ih here]

lemma readMember_replaceMember {key : String} (missing : SchemaFault)
    (same : ∀ old, members.lookup key = some old → readType new = readType old) :
    readMember key missing (replaceMember key new members) = readMember key missing members := by
  rw [readMember_eq, readMember_eq, lookup_replaceMember, if_pos rfl]
  cases written : members.lookup key with
  | none => rfl
  | some old => exact same old written

lemma readColumn_retype {record : String} {field : Json}
    (same : readType new = readType (fieldType field)) :
    readColumn record (retype new field) = readColumn record field := by
  cases field with
  | object attributes =>
    have alike (old : Json) (written : attributes.lookup "type" = some old) :
        readType new = readType old := by
      rw [same, fieldType, Json.member?, written, Option.getD_some]
    rw [retype, readColumn, readColumn,
      requireText_replaceMember (show "name" ≠ "type" by decide), doc?, doc?,
      text?_replaceMember (show "doc" ≠ "type" by decide)]
    simp only [readMember_replaceMember _ alike]
  | _ => rfl

lemma readColumns_modify {record : String} {fields : List Json}
    (here : (fields.map fieldType)[i]? = some part) (same : readType new = readType part) :
    readColumns record (fields.modify i (retype new)) = readColumns record fields := by
  induction fields generalizing i with
  | nil => cases here
  | cons field rest ih =>
    cases i with
    | zero =>
      cases here
      rw [List.modify_zero_cons, readColumns, readColumns, readColumn_retype same]
    | succ i =>
      rw [List.modify_succ_cons, readColumns, readColumns, ih here]

lemma fields_of_part (here : ((fields members).map fieldType)[i]? = some part) :
    members.lookup "fields" = some (.array (fields members)) := by
  cases written : members.lookup "fields" with
  | none => simp [fields, written] at here
  | some value =>
    cases value with
    | array items => simp [fields, written, Json.array?]
    | _ => simp [fields, written, Json.array?] at here

/-- The whole is read as before when a part is replaced by one that is read alike. -/
lemma readType_replacePart (here : (parts value)[i]? = some part)
    (same : readType new = readType part) (proper : isProper part = true)
    (compound : IsCompound new) : readType (replacePart i new value) = readType value := by
  cases value with
  | array branches =>
    have branchesSame : readBranches (branches.set i new) = readBranches branches :=
      readBranches_set here same proper compound.isProper
    rw [replacePart, readType, readType, branchesSame]
  | object members =>
    rw [parts] at here
    rw [replacePart, readType_object]
    generalize stands : form? members = form at here ⊢
    obtain _ | form := form
    · cases here
    cases form with
    | around inner =>
      obtain ⟨bound, rfl⟩ := List.getElem?_eq_some_iff.mp here
      cases Nat.lt_one_iff.mp bound
      dsimp only
      rw [readType_object, form?_of_around stands compound.ne_string]
      exact same
    | record =>
      have listed := fields_of_part here
      dsimp only
      rw [readType_object, form?_replaceMember (by decide), stands]
      have columns (name : String) : readColumnsOf name (replaceMember "fields"
          (.array ((fields members).modify i (retype new))) members) =
            readColumnsOf name members := by
        rw [readColumnsOf_eq, readColumnsOf_eq, lookup_replaceMember, if_pos rfl, listed]
        exact readColumns_modify here same
      have registered (name : String) (type : ColumnType) : register (replaceMember "fields"
          (.array ((fields members).modify i (retype new))) members) name type =
            register members name type := by
        funext names
        rw [register, register, text?_replaceMember (by decide)]
      simp only [requireText_replaceMember (show "name" ≠ "fields" by decide), columns, registered]
    | array | map =>
      obtain ⟨bound, rfl⟩ := List.getElem?_eq_some_iff.mp here
      have written := Option.mem_toList.mp (List.getElem_mem bound)
      dsimp only
      rw [readType_object, form?_replaceMember (by decide), stands]
      simp only [readMember_replaceMember _ fun old found =>
        same.trans (congrArg readType (Option.some.inj (written.symm.trans found)))]
    | refined | enumeration | fixed | reference => cases here
  | _ => cases here

lemma isCompound_replacePart (here : (parts value)[i]? = some part) (new : Json) :
    IsCompound (replacePart i new value) := by
  cases value with
  | array => trivial
  | object members =>
    rw [replacePart]
    split <;> trivial
  | _ => cases here

lemma isCompound_put {old : Json} {q : Place} (there : at? q value = some old)
    (compound : IsCompound new) : IsCompound (put q new value) := by
  cases q with
  | nil => exact compound
  | cons i q =>
    obtain ⟨part, here, -⟩ := at?_cons_eq_some_iff.mp there
    rw [put_cons here]
    exact isCompound_replacePart here _

/-- The whole is read as before when what is at a place is replaced by what is read alike. -/
theorem readType_put {old : Json} {q : Place} (there : at? q value = some old)
    (same : readType new = readType old) (proper : isProper old = true)
    (compound : IsCompound new) : readType (put q new value) = readType value := by
  induction q generalizing value with
  | nil =>
    cases there
    exact same
  | cons i q ih =>
    obtain ⟨part, here, inside⟩ := at?_cons_eq_some_iff.mp there
    rw [put_cons here]
    exact readType_replacePart here (ih inside) (isProper_at inside proper)
      (isCompound_put inside compound)

lemma member?_replacePart {key : String}
    (other : key ∉ ["type", "fields", "items", "values"]) (i : Nat) (new value : Json) :
    (replacePart i new value).member? key = value.member? key := by
  simp only [List.mem_cons, List.not_mem_nil, or_false, not_or] at other
  obtain ⟨type, fields, items, values⟩ := other
  cases value with
  | object members =>
    rw [replacePart]
    split <;> simp [Json.member?, lookup_replaceMember, *]
  | _ => rfl

lemma namespace_put {q : Place} (inside : q ≠ []) (new value : Json) :
    (put q new value).member? "namespace" = value.member? "namespace" := by
  cases q with
  | nil => exact absurd rfl inside
  | cons i q =>
    rw [put]
    split
    · exact member?_replacePart (by decide) i _ value
    · rfl

/-- Texts of definitions that are read alike and have the same namespace have the same schema. -/
lemma parse_alike {raw raw' : String} {value' : Json} (text : Json.parse? raw = some value)
    (text' : Json.parse? raw' = some value') (alike : readType value' = readType value)
    (space : value'.member? "namespace" = value.member? "namespace") :
    parse raw' = (parse raw).map ({ · with raw := raw' }) := by
  rw [parse, parse, text, text']
  dsimp only
  rw [alike, space]
  cases readType value [] with
  | error fault => rfl
  | ok found =>
    obtain ⟨⟨type, nullable⟩, after⟩ := found
    cases type <;> rfl

/-- Null among the branches of a union only makes it admit null. -/
lemma readBranches_proper (branches : List Json) (names : Names) :
    readBranches branches names =
      (readBranches (branches.filter isProper) names).map fun (found, after) =>
        ((found.1, found.2 || branches.any (!isProper ·)), after) := by
  induction branches generalizing names with
  | nil => rfl
  | cons branch rest ih =>
    by_cases bare : branch = .string "null"
    · subst bare
      have dropped : (Json.string "null" :: rest).filter isProper = rest.filter isProper := rfl
      rw [dropped, readBranches, Reading.bind_apply, ih]
      cases readBranches (rest.filter isProper) names with
      | error fault => rfl
      | ok found =>
        exact congrArg (fun n => Except.ok ((found.1.1, n), found.2)) (Bool.or_true _).symm
    · have proper : isProper branch = true := isProper_iff.mpr bare
      rw [List.filter_cons_of_pos proper, List.any_cons, proper, Bool.not_true, Bool.false_or,
        readBranches_cons proper, readBranches_cons proper, Reading.bind_apply, Reading.bind_apply]
      cases readType branch names with
      | error fault => rfl
      | ok first =>
        dsimp only
        rw [Reading.bind_apply, Reading.bind_apply, ih]
        cases readBranches (rest.filter isProper) first.2 with
        | error fault => rfl
        | ok found =>
          exact congrArg (fun n => Except.ok ((first.1.type :: found.1.1, n), found.2))
            (Bool.or_assoc ..).symm

/-- Unions with the same branches other than null that both have null among them are read alike. -/
lemma readType_union {branches branches' : List Json}
    (proper : branches'.filter isProper = branches.filter isProper)
    (bare : .string "null" ∈ branches) (bare' : .string "null" ∈ branches') :
    readType (.array branches') = readType (.array branches) := by
  have admits {list : List Json} (listed : .string "null" ∈ list) :
      list.any (!isProper ·) = true :=
    List.any_eq_true.mpr ⟨_, listed, rfl⟩
  have same : readBranches branches' = readBranches branches := by
    funext names
    rw [readBranches_proper branches', readBranches_proper branches, proper, admits bare,
      admits bare']
  rw [readType, readType, same]

/-- Where null stands in a union that is part of a definition, and how often, makes no difference to
what is read. -/
theorem parse_put_union {raw raw' : String} {value : Json} {q : Place}
    {branches branches' : List Json} (text : Json.parse? raw = some value)
    (there : at? q value = some (.array branches))
    (proper : branches'.filter isProper = branches.filter isProper)
    (bare : .string "null" ∈ branches) (bare' : .string "null" ∈ branches')
    (text' : Json.parse? raw' = some (put q (.array branches') value)) :
    parse raw' = (parse raw).map ({ · with raw := raw' }) := by
  refine parse_alike text text'
    (readType_put there (readType_union proper bare bare') rfl trivial) ?_
  cases q with
  | nil => cases there; rfl
  | cons i q => exact namespace_put (List.cons_ne_nil i q) _ value

end LakeCatalog.Avro
