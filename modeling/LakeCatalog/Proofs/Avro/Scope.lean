import LakeCatalog.Proofs.Avro.Reading

/-!
# What is known at a place

Definitions end one after another, the parts of a definition before the definition itself. So what a
name means at a place was settled by the last definition with that name that ended before: inside
a definition by induction on the place of that last one, and at a place by induction on the place.
-/

namespace LakeCatalog.Avro

open Schema

lemma sizeOf_lookup_lt {members : List (String × Json)} {key : String} {value : Json}
    (found : members.lookup key = some value) : sizeOf value < sizeOf members := by
  obtain ⟨before, after, rfl, -⟩ := List.lookup_eq_some_iff.mp found
  have entry : (key, value) ∈ before ++ (key, value) :: after := by simp
  have less := List.sizeOf_lt_of_mem entry
  have pair : sizeOf (key, value) = 1 + sizeOf key + sizeOf value := rfl
  omega

lemma sizeOf_fieldType_lt {members : List (String × Json)} {field : Json}
    (listed : field ∈ fields members) : sizeOf (fieldType field) < sizeOf members := by
  rw [fields] at listed
  cases found : members.lookup "fields" with
  | none => rw [found] at listed; cases listed
  | some value =>
    rw [found] at listed
    cases value with
    | array items =>
      have whole : sizeOf (Json.array items) = 1 + sizeOf items := by simp
      have outer := sizeOf_lookup_lt found
      have inner : sizeOf field < sizeOf items := List.sizeOf_lt_of_mem listed
      suffices less : sizeOf (fieldType field) ≤ sizeOf field by omega
      cases field with
      | object attributes =>
        rw [fieldType, Json.member?]
        cases typed : attributes.lookup "type" with
        | none => simp
        | some type =>
          have less := sizeOf_lookup_lt typed
          have object : sizeOf (Json.object attributes) = 1 + sizeOf attributes := by simp
          rw [Option.getD_some]
          omega
      | _ => simp [fieldType, Json.member?]
    | _ => cases listed

/-- The parts of a definition are smaller than it is. -/
lemma sizeOf_part_lt {value part : Json} (mem : part ∈ parts value) :
    sizeOf part < sizeOf value := by
  cases value with
  | array branches =>
    have whole : sizeOf (Json.array branches) = 1 + sizeOf branches := by simp
    have less : sizeOf part < sizeOf branches := List.sizeOf_lt_of_mem mem
    omega
  | object members =>
    have whole : sizeOf (Json.object members) = 1 + sizeOf members := by simp
    suffices less : sizeOf part < sizeOf members by omega
    rw [parts] at mem
    generalize stands : form? members = form at mem
    obtain _ | form := form
    · cases mem
    cases form with
    | around inner =>
      cases List.mem_singleton.mp mem
      exact sizeOf_lookup_lt (form?_eq_around_iff.mp stands).1
    | record =>
      obtain ⟨field, listed, rfl⟩ := List.mem_map.mp mem
      exact sizeOf_fieldType_lt listed
    | array | map => exact sizeOf_lookup_lt (Option.mem_toList.mp mem)
    | refined | enumeration | fixed | reference => cases mem
  | _ => cases mem

/-- What holds of a definition whenever it holds of its parts holds of every definition. -/
theorem induction_on_parts {motive : Json → Prop}
    (step : ∀ value, (∀ part ∈ parts value, motive part) → motive value) (value : Json) :
    motive value :=
  step value fun part _ => induction_on_parts step part
termination_by sizeOf value
decreasing_by exact sizeOf_part_lt ‹_›

lemma at?_cons_eq_some_iff {i : Nat} {p : Place} {value definition : Json} :
    at? (i :: p) value = some definition ↔
      ∃ part, (parts value)[i]? = some part ∧ at? p part = some definition :=
  Option.bind_eq_some_iff

/-- A name has no parts. -/
lemma eq_of_at?_string {p : Place} {text : String} {definition : Json}
    (there : at? p (.string text) = some definition) : p = [] ∧ definition = .string text := by
  cases p with
  | nil => cases there; exact ⟨rfl, rfl⟩
  | cons i p =>
    obtain ⟨part, here, -⟩ := at?_cons_eq_some_iff.mp there
    cases here

lemma files_nil_iff {name : String} {value : Json} :
    Files [] name value ↔ name ∈ filed value := by
  constructor
  · rintro ⟨definition, found, mem⟩
    cases found
    exact mem
  · intro mem
    exact ⟨value, rfl, mem⟩

lemma files_cons_iff {i : Nat} {p : Place} {name : String} {value : Json} :
    Files (i :: p) name value ↔ ∃ part, (parts value)[i]? = some part ∧ Files p name part := by
  constructor
  · rintro ⟨definition, found, mem⟩
    obtain ⟨part, here, found⟩ := at?_cons_eq_some_iff.mp found
    exact ⟨part, here, definition, found, mem⟩
  · rintro ⟨part, here, definition, found, mem⟩
    exact ⟨definition, at?_cons_eq_some_iff.mpr ⟨part, here, found⟩, mem⟩

lemma namesAt?_cons {i : Nat} {q : Place} {value part : Json} (here : (parts value)[i]? = some part)
    (names : Names) :
    namesAt? (i :: q) value names =
      (namesThrough? ((parts value).take i) names).bind (namesAt? q part) := by
  rw [namesAt?, here]
  rfl

lemma at?_append (p q : Place) (value : Json) :
    at? (p ++ q) value = (at? p value).bind (at? q) := by
  induction p generalizing value with
  | nil => rfl
  | cons i p ih =>
    rw [List.cons_append, at?, at?, Option.bind_assoc]
    exact Option.bind_congr fun part _ => ih part

lemma typeAt?_of_read {p : Place} {value definition : Json} {names known after : Names}
    {found : Definition} (there : at? p value = some definition)
    (reached : namesAt? p value names = some known)
    (read : readType definition known = .ok (found, after)) :
    typeAt? p value names = some found.type := by
  simp only [typeAt?, there, reached, Option.bind_eq_bind, Option.bind_some, read]

lemma typeAt?_nil {value : Json} {names after : Names} {found : Definition}
    (read : readType value names = .ok (found, after)) :
    typeAt? [] value names = some found.type :=
  typeAt?_of_read rfl rfl read

lemma typeAt?_cons {i : Nat} {q : Place} {value part : Json} (here : (parts value)[i]? = some part)
    (names : Names) :
    typeAt? (i :: q) value names =
      (namesThrough? ((parts value).take i) names).bind (typeAt? q part) := by
  simp only [typeAt?, at?, namesAt?_cons here, here, Option.bind_eq_bind, Option.bind_some]
  cases namesThrough? ((parts value).take i) names with
  | none => cases at? q part <;> rfl
  | some known => rfl

variable {name : String} {names after known : Names}

lemma lookup_filed (filed : List String) (type : ColumnType) (rest : Names) (name : String) :
    (filed.map (·, type) ++ rest).lookup name =
      if name ∈ filed then some type else rest.lookup name := by
  induction filed with
  | nil => simp
  | cons first more ih =>
    rw [List.map_cons, List.cons_append, lookup_cons_entry, ih]
    by_cases same : name = first <;> simp [same]

lemma getElem?_take_iff {values : List Json} {i j : Nat} {part : Json} :
    (values.take i)[j]? = some part ↔ j < i ∧ values[j]? = some part := by
  rw [List.getElem?_take]
  split_ifs with earlier
  · exact (and_iff_right earlier).symm
  · exact ⟨nofun, fun h => absurd h.1 earlier⟩

/-- The parts before one of several parts are read first, then that part and then the others. -/
lemma namesThrough?_split {values : List Json} {i : Nat} {part : Json}
    (here : values[i]? = some part) (through : namesThrough? values names = some after) :
    ∃ start following, namesThrough? (values.take i) names = some start ∧
      namesAfter? part start = some following ∧
      namesThrough? (values.drop (i + 1)) following = some after := by
  obtain ⟨bound, rfl⟩ := List.getElem?_eq_some_iff.mp here
  have whole : values = values.take i ++ values[i] :: values.drop (i + 1) := by
    rw [← List.drop_eq_getElem_cons bound, List.take_append_drop]
  rw [whole, namesThrough?_append] at through
  obtain ⟨start, first, through⟩ := Option.bind_eq_some_iff.mp through
  rw [namesThrough?] at through
  obtain ⟨following, second, third⟩ := Option.bind_eq_some_iff.mp through
  exact ⟨start, following, first, second, third⟩

/-- What does not change the meaning of a name part by part does not change it at all. -/
lemma lookup_through {values : List Json} (through : namesThrough? values names = some after)
    (quiet : ∀ value ∈ values, ∀ names after : Names, namesAfter? value names = some after →
      after.lookup name = names.lookup name) :
    after.lookup name = names.lookup name := by
  induction values generalizing names with
  | nil => cases through; rfl
  | cons value rest ih =>
    rw [namesThrough?] at through
    obtain ⟨middle, first, through⟩ := Option.bind_eq_some_iff.mp through
    have later := ih through fun v hv => quiet v (List.mem_cons_of_mem _ hv)
    exact later.trans (quiet value List.mem_cons_self names middle first)

/-- A definition without a definition of a name in it leaves the meaning of the name as it was. -/
lemma lookup_of_files_nowhere {value : Json} (quiet : ∀ p, ¬ Files p name value)
    (passed : namesAfter? value names = some after) : after.lookup name = names.lookup name := by
  induction value using induction_on_parts generalizing names after with
  | step value ih =>
    obtain ⟨-, rfl⟩ | ⟨found, read⟩ := bare_or_ok passed
    · rfl
    · obtain ⟨known, through, rfl⟩ := names_of_readType read
      have own : name ∉ filed value := fun mem => quiet [] (files_nil_iff.mpr mem)
      rw [lookup_filed, if_neg own]
      refine lookup_through through fun part hpart names after passed => ih part hpart ?_ passed
      intro p files
      obtain ⟨i, here⟩ := List.mem_iff_getElem?.mp hpart
      exact quiet (i :: p) (files_cons_iff.mpr ⟨part, here, files⟩)

lemma lookup_through_of_files_nowhere {values : List Json}
    (quiet : ∀ value ∈ values, ∀ p, ¬ Files p name value)
    (through : namesThrough? values names = some after) :
    after.lookup name = names.lookup name :=
  lookup_through through fun value hvalue _ _ => lookup_of_files_nowhere (quiet value hvalue)

/-- After several parts a name means what the last definition with that name stands for. -/
lemma lookup_through_of_last {values : List Json} {i : Nat} {p : Place} {part : Json}
    (here : values[i]? = some part) (through : namesThrough? values names = some after)
    (inside : ∀ start following, namesAfter? part start = some following →
      ∃ type, typeAt? p part start = some type ∧ following.lookup name = some type)
    (quiet : ∀ j > i, ∀ other, values[j]? = some other → ∀ p, ¬ Files p name other) :
    ∃ type, (namesThrough? (values.take i) names).bind (typeAt? p part) = some type ∧
      after.lookup name = some type := by
  obtain ⟨start, following, first, passed, rest⟩ := namesThrough?_split here through
  obtain ⟨type, typed, found⟩ := inside start following passed
  refine ⟨type, ?_, ?_⟩
  · rw [first, Option.bind_some, typed]
  · rw [lookup_through_of_files_nowhere _ rest, found]
    intro value hvalue p
    obtain ⟨j, there⟩ := List.mem_iff_getElem?.mp hvalue
    rw [List.getElem?_drop] at there
    exact quiet (i + 1 + j) (by omega) value there p

lemma not_files_string (p : Place) (name text : String) : ¬ Files p name (.string text) := by
  rintro ⟨definition, there, mem⟩
  obtain ⟨-, rfl⟩ := eq_of_at?_string there
  exact List.not_mem_nil mem

/-- After a definition a name means what the last definition with that name in it stands for. -/
lemma lookup_of_last {value : Json} {p : Place} (files : Files p name value)
    (last : ∀ p', EndsBefore p p' → ¬ Files p' name value)
    (passed : namesAfter? value names = some after) :
    ∃ type, typeAt? p value names = some type ∧ after.lookup name = some type := by
  induction p generalizing value names after with
  | nil =>
    obtain ⟨rfl, -⟩ | ⟨found, read⟩ := bare_or_ok passed
    · exact absurd files (not_files_string _ _ _)
    · obtain ⟨known, -, rfl⟩ := names_of_readType read
      refine ⟨found.type, typeAt?_nil read, ?_⟩
      rw [lookup_filed, if_pos (files_nil_iff.mp files)]
  | cons i p ih =>
    obtain ⟨rfl, -⟩ | ⟨found, read⟩ := bare_or_ok passed
    · exact absurd files (not_files_string _ _ _)
    · obtain ⟨known, through, rfl⟩ := names_of_readType read
      obtain ⟨part, here, files⟩ := files_cons_iff.mp files
      -- The definition itself ends after its parts, so the name cannot be its own.
      have own : name ∉ filed value := fun mem => last [] trivial (files_nil_iff.mpr mem)
      rw [lookup_filed, if_neg own, typeAt?_cons here]
      refine lookup_through_of_last here through ?_ ?_
      · intro start following passed
        refine ih files (fun p' ends files' => ?_) passed
        exact last (i :: p') (.inr ⟨rfl, ends⟩) (files_cons_iff.mpr ⟨part, here, files'⟩)
      · intro j later other there p' files'
        exact last (j :: p') (.inl later) (files_cons_iff.mpr ⟨other, there, files'⟩)

/-- A name that no definition before a place has means there what it meant at the start. -/
lemma lookup_at_of_files_nowhere {value : Json} {q : Place}
    (quiet : ∀ p, Before p q → ¬ Files p name value)
    (reached : namesAt? q value names = some known) :
    known.lookup name = names.lookup name := by
  induction q generalizing value names with
  | nil => cases reached; rfl
  | cons i q ih =>
    rw [namesAt?] at reached
    obtain ⟨part, here, reached⟩ := Option.bind_eq_some_iff.mp reached
    obtain ⟨start, through, reached⟩ := Option.bind_eq_some_iff.mp reached
    have outside : start.lookup name = names.lookup name := by
      refine lookup_through_of_files_nowhere (fun other hother p files => ?_) through
      obtain ⟨j, there⟩ := List.mem_iff_getElem?.mp hother
      obtain ⟨earlier, there⟩ := getElem?_take_iff.mp there
      exact quiet (j :: p) (.inl earlier) (files_cons_iff.mpr ⟨other, there, files⟩)
    have inside : known.lookup name = start.lookup name := by
      refine ih (fun p before files => ?_) reached
      exact quiet (i :: p) (.inr ⟨rfl, before⟩) (files_cons_iff.mpr ⟨part, here, files⟩)
    exact inside.trans outside

/-- At a place a name means what the last definition with that name before it stands for. -/
theorem lookup_at_of_last {value : Json} {p q : Place} (filed : LastFiled p name q value)
    (reached : namesAt? q value names = some known) :
    ∃ type, typeAt? p value names = some type ∧ known.lookup name = some type := by
  induction q generalizing value names p with
  | nil => cases p <;> exact filed.before.elim
  | cons i q ih =>
    obtain ⟨files, before, last⟩ := filed
    rw [namesAt?] at reached
    obtain ⟨here, hereIs, rest⟩ := Option.bind_eq_some_iff.mp reached
    obtain ⟨start, through, inner⟩ := Option.bind_eq_some_iff.mp rest
    cases p with
    | nil => exact before.elim
    | cons j p =>
      obtain ⟨there, thereIs, files⟩ := files_cons_iff.mp files
      rw [typeAt?_cons thereIs]
      obtain earlier | ⟨rfl, before⟩ := before
      · -- The last one ended in an earlier part, and nothing with its name came since.
        have among := getElem?_take_iff.mpr ⟨earlier, thereIs⟩
        have unchanged : known.lookup name = start.lookup name := by
          refine lookup_at_of_files_nowhere (fun p' before files' => ?_) inner
          exact last (i :: p') (.inl earlier) (.inr ⟨rfl, before⟩)
            (files_cons_iff.mpr ⟨here, hereIs, files'⟩)
        rw [unchanged]
        have first : ((parts value).take i).take j = (parts value).take j := by
          rw [List.take_take, Nat.min_eq_left (Nat.le_of_lt earlier)]
        rw [← first]
        refine lookup_through_of_last among through ?_ ?_
        · intro start following passed
          refine lookup_of_last files (fun p' ends files' => ?_) passed
          exact last (j :: p') (.inr ⟨rfl, ends⟩) (.inl earlier)
            (files_cons_iff.mpr ⟨there, thereIs, files'⟩)
        · intro k later other otherIs p' files'
          obtain ⟨bound, otherIs⟩ := getElem?_take_iff.mp otherIs
          exact last (k :: p') (.inl later) (.inl bound)
            (files_cons_iff.mpr ⟨other, otherIs, files'⟩)
      · cases Option.some.inj (thereIs.symm.trans hereIs)
        rw [through, Option.bind_some]
        refine ih ⟨files, before, fun p' ends before' files' => ?_⟩ inner
        exact last (j :: p') (.inr ⟨rfl, ends⟩) (.inr ⟨rfl, before'⟩)
          (files_cons_iff.mpr ⟨here, hereIs, files'⟩)

/-- Every place in a definition that can be read is reached. -/
theorem exists_namesAt? {value definition : Json} {q : Place} {found : Definition}
    (read : readType value names = .ok (found, after)) (inside : at? q value = some definition) :
    ∃ known, namesAt? q value names = some known := by
  induction q generalizing value names found after with
  | nil => exact ⟨names, rfl⟩
  | cons i q ih =>
    obtain ⟨known, through, -⟩ := names_of_readType read
    obtain ⟨part, here, inside⟩ := at?_cons_eq_some_iff.mp inside
    obtain ⟨start, following, first, passed, -⟩ := namesThrough?_split here through
    rw [namesAt?_cons here, first, Option.bind_some]
    obtain ⟨rfl, -⟩ | ⟨found, read⟩ := bare_or_ok passed
    · obtain ⟨rfl, -⟩ := eq_of_at?_string inside
      exact ⟨start, rfl⟩
    · exact ih read inside

/-- Of the items of a list that have a property one is the last. -/
lemma exists_last_index {α : Type} {has : α → Prop} {items : List α} (some' : ∃ a ∈ items, has a) :
    ∃ (i : Nat) (a : α), items[i]? = some a ∧ has a ∧
      ∀ j > i, ∀ b, items[j]? = some b → ¬ has b := by
  induction items with
  | nil =>
    obtain ⟨_, mem, -⟩ := some'
    cases mem
  | cons item rest ih =>
    by_cases later : ∃ a ∈ rest, has a
    · obtain ⟨i, a, here, holds, last⟩ := ih later
      refine ⟨i + 1, a, here, holds, fun j above b there => ?_⟩
      obtain ⟨k, rfl⟩ : ∃ k, j = k + 1 := ⟨j - 1, by omega⟩
      exact last k (by omega) b there
    · obtain ⟨a, mem, holds⟩ := some'
      obtain rfl | mem := List.mem_cons.mp mem
      · refine ⟨0, a, rfl, holds, fun j above b there hasB => later ⟨b, ?_, hasB⟩⟩
        obtain ⟨k, rfl⟩ : ∃ k, j = k + 1 := ⟨j - 1, by omega⟩
        exact List.mem_of_getElem? there
      · exact absurd ⟨a, mem, holds⟩ later

/-- Of the definitions with a name in several parts one ends last if one does in each part. -/
lemma exists_last_among {values : List Json}
    (each : ∀ value ∈ values, ∀ p, Files p name value → ∃ last, Files last name value ∧
      ∀ p', EndsBefore last p' → ¬ Files p' name value)
    (among : ∃ value ∈ values, ∃ p, Files p name value) :
    ∃ i last value, values[i]? = some value ∧ Files last name value ∧
      ∀ j p other, values[j]? = some other → EndsBefore (i :: last) (j :: p) →
        ¬ Files p name other := by
  obtain ⟨i, value, here, ⟨p, files⟩, final⟩ := exists_last_index among
  obtain ⟨last, lastFiles, inner⟩ := each value (List.mem_of_getElem? here) p files
  refine ⟨i, last, value, here, lastFiles, ?_⟩
  rintro j p other there (later | ⟨rfl, ends⟩) files'
  · exact final j later other there ⟨p, files'⟩
  · cases Option.some.inj (here.symm.trans there)
    exact inner p ends files'

/-- Of the definitions with a name in a definition one ends last. -/
lemma exists_last {value : Json} {p : Place} (files : Files p name value) :
    ∃ last, Files last name value ∧ ∀ p', EndsBefore last p' → ¬ Files p' name value := by
  induction value using induction_on_parts generalizing p with
  | step value ih =>
    by_cases own : name ∈ filed value
    · exact ⟨[], files_nil_iff.mpr own, fun p' ends => by cases p' <;> exact ends.elim⟩
    · cases p with
      | nil => exact absurd (files_nil_iff.mp files) own
      | cons i p =>
        obtain ⟨part, here, files⟩ := files_cons_iff.mp files
        obtain ⟨i, last, part, here, lastFiles, none⟩ :=
          exists_last_among (fun part hpart p => ih part hpart)
            ⟨part, List.mem_of_getElem? here, p, files⟩
        refine ⟨i :: last, files_cons_iff.mpr ⟨part, here, lastFiles⟩, ?_⟩
        rintro (_ | ⟨j, p⟩) ends files'
        · exact own (files_nil_iff.mp files')
        · obtain ⟨other, there, files'⟩ := files_cons_iff.mp files'
          exact none j p other there ends files'

/-- Of the definitions with a name that end before a place one ends last. -/
theorem exists_lastFiled {value : Json} {p q : Place} (files : Files p name value)
    (before : Before p q) : ∃ last, LastFiled last name q value := by
  induction q generalizing value p with
  | nil => cases p <;> exact before.elim
  | cons i q ih =>
    by_cases inner : ∃ p, Before p q ∧ Files (i :: p) name value
    · obtain ⟨p, before, files⟩ := inner
      obtain ⟨part, here, files⟩ := files_cons_iff.mp files
      obtain ⟨last, lastFiles, lastBefore, none⟩ := ih files before
      refine ⟨i :: last, files_cons_iff.mpr ⟨part, here, lastFiles⟩, .inr ⟨rfl, lastBefore⟩, ?_⟩
      rintro (_ | ⟨j, p⟩) ends before files'
      · exact before.elim
      · obtain above | ⟨rfl, ends⟩ := ends
        · obtain below | ⟨rfl, -⟩ := before <;> omega
        · obtain below | ⟨-, before⟩ := before
          · omega
          · obtain ⟨other, there, files'⟩ := files_cons_iff.mp files'
            cases Option.some.inj (here.symm.trans there)
            exact none p ends before files'
    · -- No such definition is inside the part of the place, so the last one is in an earlier part.
      have earlier : ∃ part ∈ (parts value).take i, ∃ p, Files p name part := by
        cases p with
        | nil => exact before.elim
        | cons j p =>
          obtain below | ⟨rfl, before⟩ := before
          · obtain ⟨part, there, files⟩ := files_cons_iff.mp files
            exact ⟨part, List.mem_of_getElem? (getElem?_take_iff.mpr ⟨below, there⟩), p, files⟩
          · exact absurd ⟨p, before, files⟩ inner
      obtain ⟨j, last, part, there, lastFiles, none⟩ :=
        exists_last_among (fun part _ p => exists_last) earlier
      obtain ⟨below, there⟩ := getElem?_take_iff.mp there
      refine ⟨j :: last, files_cons_iff.mpr ⟨part, there, lastFiles⟩, .inl below, ?_⟩
      rintro (_ | ⟨k, p⟩) ends before files'
      · exact before.elim
      · obtain below | ⟨rfl, inside⟩ := before
        · obtain ⟨other, otherIs, files'⟩ := files_cons_iff.mp files'
          exact none k p other (getElem?_take_iff.mpr ⟨below, otherIs⟩) ends files'
        · exact inner ⟨p, inside, files'⟩

end LakeCatalog.Avro
