import LakeCatalog.Avro.Scope
import Mathlib.Tactic.Common

/-!
# How a definition is read

A definition is read part by part. What is known afterwards is what is known after its last part
and, before that, the names under which the definition itself is filed, all of them for the type
that it stands for. Nothing else about a definition matters for what its surroundings know.
-/

namespace LakeCatalog.Avro

open Schema

namespace Reading

variable {α β : Type} {r : Reading α} {f : α → Reading β} {names after : Names}

lemma bind_apply (r : Reading α) (f : α → Reading β) (names : Names) :
    (r >>= f) names =
      match r names with
      | .ok (x, known) => f x known
      | .error fault => .error fault := rfl

lemma bind_ok {y : β} (read : (r >>= f) names = .ok (y, after)) :
    ∃ x known, r names = .ok (x, known) ∧ f x known = .ok (y, after) := by
  rw [bind_apply] at read
  cases first : r names with
  | error fault => rw [first] at read; cases read
  | ok found => rw [first] at read; exact ⟨found.1, found.2, rfl, read⟩

lemma bind_of_ok {x : α} {known : Names} (read : r names = .ok (x, known)) :
    (r >>= f) names = f x known := by
  rw [bind_apply, read]

lemma bind_of_error {fault : Fault} (read : r names = .error fault) :
    (r >>= f) names = .error fault := by
  rw [bind_apply, read]

lemma pure_ok {x y : α} (read : (Reading.pure x) names = .ok (y, after)) :
    y = x ∧ after = names := by
  cases read
  exact ⟨rfl, rfl⟩

end Reading

variable {names known after : Names}

lemma readMember_eq (key : String) (missing : SchemaFault) (members : List (String × Json)) :
    readMember key missing members =
      match members.lookup key with
      | some value => readType value
      | none => .fail missing := by
  induction members with
  | nil => rw [readMember, List.lookup_nil]
  | cons m rest ih =>
    obtain ⟨k, value⟩ := m
    rw [readMember, lookup_cons_entry, ih]
    by_cases same : k = key
    · rw [if_pos same, if_pos same.symm]
    · rw [if_neg same, if_neg (Ne.symm same)]

lemma readColumnsOf_eq (record : String) (members : List (String × Json)) :
    readColumnsOf record members =
      match members.lookup "fields" with
      | some value => readFieldList record value
      | none => .fail (.recordWithoutFields record) := by
  induction members with
  | nil => rw [readColumnsOf, List.lookup_nil]
  | cons m rest ih =>
    obtain ⟨k, value⟩ := m
    rw [readColumnsOf, lookup_cons_entry, ih]
    by_cases same : k = "fields"
    · rw [if_pos same, if_pos same.symm]
    · rw [if_neg same, if_neg (Ne.symm same)]

lemma lookup_of_text? {key text : String} {members : List (String × Json)}
    (found : text? key members = some text) : members.lookup key = some (.string text) := by
  obtain ⟨value, present, isText⟩ := Option.bind_eq_some_iff.mp found
  cases value with
  | string text => cases isText; exact present
  | _ => cases isText

/-- The types of an object's definition, form by form. -/
lemma readType_object (members : List (String × Json)) :
    readType (.object members) =
      match form? members with
      | none => .fail .noTypeAttribute
      | some (.around inner) => readType inner
      | some (.refined type) => .pure ⟨type, false⟩
      | some .record => do
        let name ← requireText "name" members
        let columns ← readColumnsOf name members
        register members name (.record name columns)
        return ⟨.record name columns, false⟩
      | some .enumeration => do
        let name ← requireText "name" members
        register members name (.enumeration (symbols members))
        return ⟨.enumeration (symbols members), false⟩
      | some .fixed => do
        let name ← requireText "name" members
        register members name (.fixed (naturalOr0 "size" members))
        return ⟨.fixed (naturalOr0 "size" members), false⟩
      | some .array => do
        let items ← readMember "items" .arrayWithoutItems members
        return ⟨.array items.type items.nullable, false⟩
      | some .map => do
        let values ← readMember "values" .mapWithoutValues members
        return ⟨.map values.type values.nullable, false⟩
      | some (.reference name) => do return ⟨← resolve name, false⟩ := by
  rw [readType, form?]
  cases found : members.lookup "type" with
  | none => rfl
  | some type =>
    cases type with
    | string base =>
      dsimp only
      rw [formOf]
      cases logicalType? members base with
      | some type => rfl
      | none => dsimp only; split_ifs <;> rfl
    | _ => dsimp only; rw [readMember_eq, found]

lemma bare_or_ok {value : Json} (passed : namesAfter? value names = some after) :
    (value = .string "null" ∧ after = names) ∨
      ∃ found, readType value names = .ok (found, after) := by
  rw [namesAfter?.eq_def] at passed
  split at passed
  · cases passed
    exact .inl ⟨rfl, rfl⟩
  · split at passed
    · rename_i read
      cases passed
      exact .inr ⟨_, read⟩
    · cases passed

lemma namesAfter?_of_ok {value : Json} {found : Definition}
    (read : readType value names = .ok (found, after)) : namesAfter? value names = some after := by
  rw [namesAfter?.eq_def]
  split
  · rw [readType] at read
    obtain ⟨_, _, resolved, _⟩ := Reading.bind_ok read
    cases resolved
  · rw [read]

lemma namesThrough?_append (earlier later : List Json) :
    namesThrough? (earlier ++ later) names =
      (namesThrough? earlier names).bind (namesThrough? later) := by
  induction earlier generalizing names with
  | nil => rfl
  | cons value rest ih =>
    rw [List.cons_append, namesThrough?, namesThrough?, Option.bind_assoc]
    exact Option.bind_congr fun known _ => ih

lemma namesThrough?_of_readBranches {branches : List Json} {found : List ColumnType × Bool}
    (read : readBranches branches names = .ok (found, after)) :
    namesThrough? branches names = some after := by
  induction branches generalizing names found with
  | nil =>
    rw [readBranches] at read
    cases read
    rfl
  | cons branch rest ih =>
    rw [namesThrough?]
    by_cases bare : branch = .string "null"
    · subst bare
      rw [readBranches] at read
      obtain ⟨types, known, rest, done⟩ := Reading.bind_ok read
      cases done
      exact ih rest
    · rw [readBranches] at read
      swap
      · exact bare
      obtain ⟨first, known, first, read⟩ := Reading.bind_ok read
      obtain ⟨types, known', rest, done⟩ := Reading.bind_ok read
      cases done
      rw [namesAfter?_of_ok first]
      exact ih rest

lemma resolve_names {name : String} {type : ColumnType}
    (read : resolve name names = .ok (type, after)) : after = names := by
  rw [resolve] at read
  split at read
  · cases read; rfl
  · split at read
    · cases read
    · split at read <;> cases read
      rfl

lemma requireText_ok {key : String} {members : List (String × Json)} {text : String}
    (read : requireText key members names = .ok (text, after)) :
    text? key members = some text ∧ after = names := by
  rw [requireText] at read
  cases found : text? key members with
  | none => rw [found] at read; cases read
  | some s =>
    rw [found] at read
    obtain ⟨rfl, rfl⟩ := Reading.pure_ok read
    exact ⟨rfl, rfl⟩

lemma register_ok {members : List (String × Json)} {name : String} {type : ColumnType}
    {u : Unit} (read : register members name type names = .ok (u, after)) :
    after = (fileNames members name).map (·, type) ++ names := by
  rw [register] at read
  rw [fileNames]
  cases found : text? "namespace" members with
  | none => rw [found] at read; cases read; rfl
  | some space => rw [found] at read; cases read; rfl

lemma unionOf_ok {nullable : Bool} {types : List ColumnType} {found : Definition}
    (read : unionOf nullable types names = .ok (found, after)) :
    after = names ∧
      (types = [found.type] ∨ types.length ≠ 1 ∧ found.type = .union types) := by
  match types with
  | [] => cases read
  | [_] => cases read; exact ⟨rfl, .inl rfl⟩
  | _ :: _ :: _ => cases read; exact ⟨rfl, .inr ⟨by simp, rfl⟩⟩

lemma readColumn_ok {record : String} {field : Json} {column : Column}
    (read : readColumn record field names = .ok (column, after)) :
    ∃ type found, field.member? "type" = some type ∧
      readType type names = .ok (found, after) ∧ column.type = found.type := by
  cases field with
  | object members =>
    rw [readColumn] at read
    obtain ⟨name, known, named, read⟩ := Reading.bind_ok read
    obtain ⟨found, known', typed, done⟩ := Reading.bind_ok read
    obtain ⟨-, rfl⟩ := requireText_ok named
    cases done
    rw [readMember_eq] at typed
    cases written : members.lookup "type" with
    | none => rw [written] at typed; cases typed
    | some type => rw [written] at typed; exact ⟨type, found, written, typed, rfl⟩
  | _ => cases read

lemma readColumns_ok {record : String} {fields : List Json} {columns : List Column}
    (read : readColumns record fields names = .ok (columns, after)) :
    namesThrough? (fields.map fieldType) names = some after ∧
      ∀ field ∈ fields, (field.member? "type").isSome := by
  induction fields generalizing names columns with
  | nil =>
    rw [readColumns] at read
    cases read
    exact ⟨rfl, nofun⟩
  | cons field rest ih =>
    rw [readColumns] at read
    obtain ⟨first, known, first, read⟩ := Reading.bind_ok read
    obtain ⟨columns, known', rest, done⟩ := Reading.bind_ok read
    cases done
    obtain ⟨type, found, typed, first, -⟩ := readColumn_ok first
    obtain ⟨through, all⟩ := ih rest
    constructor
    · rw [List.map_cons, namesThrough?, fieldType, typed, Option.getD_some,
        namesAfter?_of_ok first]
      exact through
    · exact List.forall_mem_cons.mpr ⟨Option.isSome_iff_exists.mpr ⟨type, typed⟩, all⟩

/-- The fields of a record that is read are those of an array. -/
lemma readColumnsOf_ok {record : String} {members : List (String × Json)}
    {columns : List Column} (read : readColumnsOf record members names = .ok (columns, after)) :
    members.lookup "fields" = some (.array (fields members)) ∧
      readColumns record (fields members) names = .ok (columns, after) := by
  rw [readColumnsOf_eq] at read
  cases found : members.lookup "fields" with
  | none => rw [found] at read; cases read
  | some value =>
    rw [found] at read
    cases value with
    | array items =>
      have listed : fields members = items := by rw [fields, found]; rfl
      rw [listed]
      exact ⟨rfl, read⟩
    | _ => cases read

/-- A type that is made known and is all that a definition stands for. -/
lemma registered_ok {members : List (String × Json)} {name : String} {type : ColumnType}
    {found : Definition}
    (read : (do register members name type; return ⟨type, false⟩ : Reading Definition) names =
      .ok (found, after)) :
    found = ⟨type, false⟩ ∧ after = (fileNames members name).map (·, found.type) ++ names := by
  obtain ⟨_, known, registered, done⟩ := Reading.bind_ok read
  cases done
  exact ⟨rfl, register_ok registered⟩

/-- A container that has one part leaves what its part leaves. -/
lemma member_ok {key : String} {missing : SchemaFault} {members : List (String × Json)}
    {container : Definition → Definition} {found : Definition}
    (read : (do return container (← readMember key missing members) : Reading Definition) names =
      .ok (found, after)) :
    ∃ value part, members.lookup key = some value ∧ readType value names = .ok (part, after) ∧
      found = container part := by
  obtain ⟨part, known, first, done⟩ := Reading.bind_ok read
  cases done
  rw [readMember_eq] at first
  cases found : members.lookup key with
  | none => rw [found] at first; cases first
  | some value => rw [found] at first; exact ⟨value, part, rfl, first, rfl⟩

lemma namesThrough?_singleton {value : Json} {found : Definition}
    (read : readType value names = .ok (found, after)) :
    namesThrough? [value] names = some after := by
  rw [namesThrough?, namesAfter?_of_ok read]
  rfl

/-- What is known after a definition: its own names, and before that what its parts leave. -/
theorem names_of_readType {value : Json} {found : Definition}
    (read : readType value names = .ok (found, after)) :
    ∃ known, namesThrough? (parts value) names = some known ∧
      after = (filed value).map (·, found.type) ++ known := by
  cases value with
  | string name =>
    rw [readType] at read
    obtain ⟨type, known, resolved, done⟩ := Reading.bind_ok read
    cases done
    exact ⟨names, rfl, resolve_names resolved⟩
  | array branches =>
    rw [readType] at read
    obtain ⟨⟨types, nullable⟩, known, branches, united⟩ := Reading.bind_ok read
    exact ⟨known, namesThrough?_of_readBranches branches, (unionOf_ok united).1⟩
  | object members =>
    rw [readType_object] at read
    rw [parts, filed]
    generalize form? members = form at read ⊢
    match form with
    | none => cases read
    | some (.around inner) => exact ⟨after, namesThrough?_singleton read, rfl⟩
    | some (.refined type) =>
      cases read
      exact ⟨names, rfl, rfl⟩
    | some .record =>
      obtain ⟨name, known, asked, read⟩ := Reading.bind_ok read
      obtain ⟨columns, through, listed, registered⟩ := Reading.bind_ok read
      obtain ⟨written, rfl⟩ := requireText_ok asked
      dsimp only
      rw [written]
      exact ⟨through, (readColumns_ok (readColumnsOf_ok listed).2).1, (registered_ok registered).2⟩
    | some .enumeration | some .fixed =>
      obtain ⟨name, known, asked, registered⟩ := Reading.bind_ok read
      obtain ⟨written, rfl⟩ := requireText_ok asked
      dsimp only
      rw [written]
      exact ⟨known, rfl, (registered_ok registered).2⟩
    | some .array | some .map =>
      obtain ⟨value, part, written, read, -⟩ := member_ok read
      dsimp only
      rw [written]
      exact ⟨after, namesThrough?_singleton read, rfl⟩
    | some (.reference name) =>
      obtain ⟨type, known, resolved, done⟩ := Reading.bind_ok read
      cases done
      exact ⟨names, rfl, resolve_names resolved⟩
  | _ => cases read

end LakeCatalog.Avro
