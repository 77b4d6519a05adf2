import LakeCatalog.Avro.Scope
import LakeCatalog.Proofs.Avro.Reference

/-!
# References by full name

A reference by a full name finds the definition with that full name if the definition says itself
what its namespace is. A definition that takes its namespace from around it is known by its own
name only, so a reference to it is looked up by what follows the last point and means the last
definition with that name.
-/

namespace LakeCatalog.Avro

open Schema

variable {members : List (String × Json)} {name full around : String}

/-- A definition that says what its namespace is, is filed under its full name. -/
lemma mem_fileNames_of_stated
    (stated : '.' ∈ name.toList ∨ (text? "namespace" members).isSome) :
    fullName around members name ∈ fileNames members name := by
  rw [fullName]
  split_ifs with plain
  · exact mem_fileNames_self members name
  · obtain ⟨dotless, -⟩ := not_or.mp plain
    obtain ⟨space, given⟩ := Option.isSome_iff_exists.mp (stated.resolve_left dotless)
    rw [spaceOf, if_neg dotless, fileNames, given]
    exact List.mem_cons_of_mem _ List.mem_cons_self

/-- A definition that does not say what its namespace is has its own name only, which is the short
form of its full name. -/
lemma fileNames_of_unstated (unstated : ¬ ('.' ∈ name.toList ∨ (text? "namespace" members).isSome))
    (dotted : '.' ∈ (fullName around members name).toList) :
    fileNames members name = [name] ∧ shortName (fullName around members name) = name := by
  obtain ⟨dotless, given⟩ := not_or.mp unstated
  constructor
  · rw [fileNames, Option.not_isSome_iff_eq_none.mp given]
  · rw [fullName] at dotted ⊢
    split_ifs at dotted ⊢
    · exact absurd dotted dotless
    · exact shortName_qualified _ dotless

lemma exists_named_of_fullNameAt? {p : Place} {value : Json}
    (named : fullNameAt? p around value = some full) :
    ∃ definition members name around', at? p value = some definition ∧
      named? definition = some (members, name) ∧ full = fullName around' members name := by
  induction p generalizing value around with
  | nil =>
    obtain ⟨⟨members, name⟩, definition, same⟩ := Option.map_eq_some_iff.mp named
    exact ⟨value, members, name, around, rfl, definition, same.symm⟩
  | cons i p ih =>
    obtain ⟨part, here, named⟩ := Option.bind_eq_some_iff.mp named
    obtain ⟨definition, members, name, around', inside, named, same⟩ := ih named
    exact ⟨definition, members, name, around', at?_cons_eq_some_iff.mpr ⟨part, here, inside⟩, named,
      same⟩

lemma exists_fullNameAt? {p : Place} {value : Json} (files : Files p name value) :
    ∃ full, fullNameAt? p around value = some full := by
  induction p generalizing value around with
  | nil =>
    obtain ⟨members, name, named, -⟩ := exists_named_of_mem_filed (files_nil_iff.mp files)
    exact ⟨fullName around members name, by rw [fullNameAt?, named]; rfl⟩
  | cons i p ih =>
    obtain ⟨part, here, files⟩ := files_cons_iff.mp files
    rw [fullNameAt?, here]
    exact ih files

lemma simpleType?_of_dotted (dotted : '.' ∈ name.toList) : simpleType? name = none := by
  rw [simpleType?.eq_def]
  split <;> first | rfl | exact absurd dotted (by decide)

lemma readType_of_reference {definition : Json} {type : ColumnType} {names : Names}
    (refers : reference? definition = some name)
    (resolved : resolve name names = .ok (type, names)) :
    readType definition names = .ok (⟨type, false⟩, names) := by
  cases definition with
  | string other =>
    cases refers
    exact readType_string resolved
  | object members =>
    rw [reference?] at refers
    split at refers
    · rename_i base form
      cases refers
      rw [readType_object, form]
      exact Reading.bind_of_ok resolved
    · cases refers
  | _ => cases refers

/-- What a reference by a name with a point finds is in the schema of the definition. -/
lemma typeIn?_of_find? {raw : String} {value : Json} {schema : TableSchema} {q : Place}
    {known : Names} {type : ColumnType} (text : Json.parse? raw = some value)
    (accepted : parse raw = .ok schema) (refers : (at? q value).bind reference? = some name)
    (dotted : '.' ∈ name.toList) (reached : namesAt? q value [] = some known)
    (found : known.find? name = some type) : typeIn? q value (rowType schema) = some type := by
  obtain ⟨definition, there, refers⟩ := Option.bind_eq_some_iff.mp refers
  have notNull : name ≠ "null" := by
    rintro rfl
    exact absurd dotted (by decide)
  have proper : isProper definition = true := by
    refine isProper_iff.mpr ?_
    rintro rfl
    exact notNull (Option.some.inj refers).symm
  have resolved := resolve_of_find? (simpleType?_of_dotted dotted) notNull found
  rw [typeIn?_of_parse text accepted there proper]
  exact typeAt?_of_read there reached (readType_of_reference refers resolved)

/-- A name means at a place what the last definition with that name before it has in the schema. -/
lemma lookup_at_of_lastFiled {raw : String} {value : Json} {schema : TableSchema} {last q : Place}
    {known : Names} (text : Json.parse? raw = some value) (accepted : parse raw = .ok schema)
    (filed : LastFiled last name q value) (reached : namesAt? q value [] = some known) :
    ∃ type, typeIn? last value (rowType schema) = some type ∧ known.lookup name = some type := by
  obtain ⟨type, typed, meaning⟩ := lookup_at_of_last filed reached
  obtain ⟨definition, there, mem⟩ := filed.files
  obtain ⟨members, name, named, -⟩ := exists_named_of_mem_filed mem
  refine ⟨type, ?_, meaning⟩
  rw [typeIn?_of_parse text accepted there (isProper_of_named named), typed]

/-- In a definition that is accepted and whose types have different full names, a reference by a
full name to a definition that has ended stands for the type of that definition if it says itself
what its namespace is, and if no later one is filed under the same name in place of its own.
Otherwise it stands for the type of the last definition before it with the name that follows the
last point, if none at all is filed under the whole name in place of its own. A definition that a
logical type takes the place of cannot be referred to. -/
theorem qualified_reference_resolves {raw : String} {value : Json} {schema : TableSchema}
    {p q : Place} (text : Json.parse? raw = some value) (accepted : parse raw = .ok schema)
    (distinct : DistinctNames value) (named : fullNameAt? p "" value = some full)
    (dotted : '.' ∈ full.toList) (unrefined : (at? p value).map isRefined = some false)
    (refers : (at? q value).bind reference? = some full) (before : Before p q) :
    (StatesSpace p value →
      (∀ p', EndsBefore p p' → Before p' q → Files p' full value →
        fullNameAt? p' "" value = some full) →
      ∃ type, typeIn? p value (rowType schema) = some type ∧
        typeIn? q value (rowType schema) = some type) ∧
    (¬ StatesSpace p value →
      Files p (shortName full) value ∧ (∃ last, LastFiled last (shortName full) q value) ∧
      ((∀ p', Before p' q → Files p' full value → fullNameAt? p' "" value = some full) →
        ∀ last, LastFiled last (shortName full) q value →
          ∃ type, typeIn? last value (rowType schema) = some type ∧
            typeIn? q value (rowType schema) = some type)) := by
  obtain ⟨found, after, read, -⟩ := readType_of_parse text accepted
  obtain ⟨target, there, -⟩ := Option.bind_eq_some_iff.mp refers
  obtain ⟨known, reached⟩ := exists_namesAt? read there
  obtain ⟨definition, members, name, around, here, naming, rfl⟩ :=
    exists_named_of_fullNameAt? named
  rw [here, Option.map_some, Option.some.injEq] at unrefined
  have own := filed_of_named naming unrefined
  constructor
  · rintro ⟨definition', members', name', here', naming', stated⟩ apart
    cases Option.some.inj (here.symm.trans here')
    cases Option.some.inj (naming.symm.trans naming')
    have files : Files p (fullName around members name) value := by
      refine ⟨definition, here, ?_⟩
      rw [own]
      exact mem_fileNames_of_stated stated
    have last : LastFiled p (fullName around members name) q value := by
      refine ⟨files, before, fun p' ends before' files' => ?_⟩
      have same := distinct p p' _ named (apart p' ends before' files')
      exact not_endsBefore_self p (same ▸ ends)
    obtain ⟨type, typed, meaning⟩ := lookup_at_of_lastFiled text accepted last reached
    refine ⟨type, typed, typeIn?_of_find? text accepted refers dotted reached ?_⟩
    rw [Names.find?, meaning]
    rfl
  · intro unstated
    have unstated' : ¬ ('.' ∈ name.toList ∨ (text? "namespace" members).isSome) :=
      fun stated => unstated ⟨definition, members, name, here, naming, stated⟩
    obtain ⟨only, short⟩ := fileNames_of_unstated unstated' dotted
    have files : Files p (shortName (fullName around members name)) value := by
      refine ⟨definition, here, ?_⟩
      rw [own, only, short]
      exact List.mem_singleton_self name
    refine ⟨files, exists_lastFiled files before, fun apart last lastFiled => ?_⟩
    have unfiled : ∀ p', Before p' q → ¬ Files p' (fullName around members name) value := by
      intro p' before' files'
      cases distinct p p' _ named (apart p' before' files')
      obtain ⟨definition', here', mem⟩ := files'
      cases Option.some.inj (here.symm.trans here')
      rw [own, only] at mem
      exact (not_or.mp unstated').1 (List.mem_singleton.mp mem ▸ dotted)
    obtain ⟨type, typed, meaning⟩ := lookup_at_of_lastFiled text accepted lastFiled reached
    refine ⟨type, typed, typeIn?_of_find? text accepted refers dotted reached ?_⟩
    rw [Names.find?, lookup_at_of_files_nowhere unfiled reached, meaning]
    rfl

def recordIn (space name : String) (types : List (String × Json)) : Json :=
  .object [("fields", fieldsOf types), ("name", .string name), ("namespace", .string space),
    ("type", .string "record")]

def enumIn (space name : String) (symbols : List String) : Json :=
  .object [("name", .string name), ("namespace", .string space), ("symbols", .ofStrings symbols),
    ("type", .string "enum")]

/-- A record that defines two kinds of building and two states of an order. -/
def customer : Json :=
  recordOf "customer" [
    ("home", recordIn "private" "home" [("building", enumOf "kind" ["HOUSE"])]),
    ("office", recordIn "business" "office" [("building", enumOf "kind" ["TOWER"])]),
    ("billed", .string "private.kind"),
    ("visited", .string "business.kind"),
    ("placed", enumOf "shop.order.state" ["OPEN"]),
    ("cancelled", enumIn "shop" "order.state" ["SHUT"]),
    ("last", .string "shop.order.state")]

lemma settled_customer : Json.Settled Json.depthLimit customer :=
  ⟨by simp [Json.Fits, Json.depthLimit, customer, recordOf, recordIn, fieldsOf, enumOf, enumIn,
    Json.ofStrings], rfl⟩

/-- The definitions of named types in the sample with their full names. -/
def customerNames : List (Place × String) :=
  [([], "customer"), ([0], "private.home"), ([0, 0], "private.kind"), ([1], "business.office"),
    ([1, 0], "business.kind"), ([4], "shop.order.state"), ([5], "order.state")]

lemma mem_customerNames {p : Place} (named : fullNameAt? p "" customer = some full) :
    (p, full) ∈ customerNames := by
  match p with
  | [] | [0] | [0, 0] | [1] | [1, 0] | [4] | [5] => cases named; decide
  | [2] | [3] | [6] => cases named
  | 0 :: 0 :: _ :: _ | 0 :: (_ + 1) :: _ | 1 :: 0 :: _ :: _ | 1 :: (_ + 1) :: _ => cases named
  | 2 :: _ :: _ | 3 :: _ :: _ | 4 :: _ :: _ | 5 :: _ :: _ | 6 :: _ :: _ => cases named
  | (_ + 7) :: _ => cases named

lemma distinctNames_customer : DistinctNames customer := by
  intro p p' full named named'
  have different : ∀ a ∈ customerNames, ∀ b ∈ customerNames, a.2 = b.2 → a.1 = b.1 := by decide
  exact different _ (mem_customerNames named) _ (mem_customerNames named') rfl

/-- The kind of building that was visited is the last one that is defined. -/
theorem qualified_reference_to_last_kind :
    ∃ schema, parse customer.compact = .ok schema ∧
      fullNameAt? [1, 0] "" customer = some "business.kind" ∧ ¬ StatesSpace [1, 0] customer ∧
      LastFiled [1, 0] "kind" [3] customer ∧
      typeIn? [3] customer (rowType schema) = some (.enumeration ["TOWER"]) := by
  have unstated : ¬ StatesSpace [1, 0] customer := by
    rintro ⟨definition, members, name, there, named, stated⟩
    cases there
    cases named
    exact absurd stated (by decide)
  have last : LastFiled [1, 0] "kind" [3] customer := by
    refine ⟨by decide, by decide, fun p' ends before files => ?_⟩
    obtain ⟨full, named⟩ := exists_fullNameAt? files
    have none : ∀ a ∈ customerNames, EndsBefore [1, 0] a.1 → Before a.1 [3] →
        ¬ Files a.1 "kind" customer := by decide
    exact none _ (mem_customerNames named) ends before files
  have apart : ∀ p', Before p' [3] → Files p' "business.kind" customer →
      fullNameAt? p' "" customer = some "business.kind" := by
    intro p' before files
    obtain ⟨full, named⟩ := exists_fullNameAt? files
    have none : ∀ a ∈ customerNames, Before a.1 [3] → ¬ Files a.1 "business.kind" customer := by
      decide
    exact absurd files (none _ (mem_customerNames named) before)
  have named : fullNameAt? [1, 0] "" customer = some "business.kind" := rfl
  have refers : (at? [3] customer).bind reference? = some "business.kind" := rfl
  obtain ⟨schema, accepted, records⟩ := parse_compact settled_customer rfl
  obtain ⟨-, -, inherited⟩ :=
    (qualified_reference_resolves settled_customer.parse?_compact accepted
      distinctNames_customer named (by decide) rfl refers (by decide)).2 unstated
  obtain ⟨type, defined, found⟩ := inherited apart [1, 0] last
  have tower : typeIn? [1, 0] customer (rowType schema) = some (.enumeration ["TOWER"]) := by
    rw [records]
    rfl
  refine ⟨schema, accepted, named, unstated, last, ?_⟩
  rw [found, ← defined, tower]

/-- Full names of different types are taken for one another where a namespace comes from around a
definition and where it is stated beside a name with points. -/
theorem qualified_reference_misled :
    ∃ raw value schema, Json.parse? raw = some value ∧ parse raw = .ok schema ∧
      DistinctNames value ∧
      (fullNameAt? [0, 0] "" value = some "private.kind" ∧ Before [0, 0] [2] ∧
        (at? [2] value).bind reference? = some "private.kind" ∧
        typeIn? [0, 0] value (rowType schema) = some (.enumeration ["HOUSE"]) ∧
        typeIn? [2] value (rowType schema) = some (.enumeration ["TOWER"])) ∧
      (fullNameAt? [4] "" value = some "shop.order.state" ∧ Before [4] [6] ∧
        (at? [6] value).bind reference? = some "shop.order.state" ∧
        typeIn? [4] value (rowType schema) = some (.enumeration ["OPEN"]) ∧
        typeIn? [6] value (rowType schema) = some (.enumeration ["SHUT"])) := by
  obtain ⟨schema, accepted, records⟩ := parse_compact settled_customer rfl
  refine ⟨_, customer, schema, settled_customer.parse?_compact, accepted,
    distinctNames_customer, ?_⟩
  rw [records]
  exact ⟨⟨rfl, by decide, rfl, rfl, rfl⟩, rfl, by decide, rfl, rfl, rfl⟩

end LakeCatalog.Avro
