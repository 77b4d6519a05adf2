import LakeCatalog.Proofs.Avro.Replacement
import LakeCatalog.Proofs.Avro.WholeType
import LakeCatalog.Proofs.Json.RoundTrip
import Mathlib.Data.List.TakeWhile

/-!
# References by name

Where a definition has ended its name can be written in its place. The name means the type of the
definition as long as no other definition with that name ends in between. What a logical type
takes the place of is not made known: a fixed type that is read as a decimal has no name.
-/

namespace LakeCatalog.Avro

open Schema

/-- Without a logical type, the name in a definition decides whether it defines a named type. -/
lemma formOf_cases (members : List (String × Json)) (base : String) :
    (∃ type, formOf members base = .refined type) ∨
      base ∈ ["record", "error", "enum", "fixed"] ∧
        formOf members base ∈ [.record, .enumeration, .fixed] ∨
      base ∉ ["record", "error", "enum", "fixed"] ∧
        formOf members base ∈ [.array, .map, .reference base] := by
  rw [formOf]
  cases logicalType? members base with
  | some type => exact .inl ⟨type, rfl⟩
  | none =>
    refine .inr ?_
    dsimp only
    split_ifs with record <;> simp_all [← or_assoc]

/-- The definition of a named type is filed unless a logical type takes its place. -/
lemma filed_eq (value : Json) :
    filed value =
      if isRefined value then []
      else match named? value with
        | some (members, name) => fileNames members name
        | none => [] := by
  cases value with
  | object members =>
    cases found : members.lookup "type" with
    | none => simp [filed, isRefined, named?, text?, form?, found]
    | some type =>
      cases type with
      | string base =>
        have named : text? "type" members = some base := by rw [text?, found]; rfl
        simp only [filed, isRefined, named?, named, form?, found, Option.bind_eq_bind,
          Option.bind_some]
        obtain ⟨type, form⟩ | ⟨mem, form⟩ | ⟨mem, form⟩ := formOf_cases members base
        · simp [form]
        · cases text? "name" members <;> simp at form <;> grind
        · cases text? "name" members <;> simp at form <;> grind
      | _ => simp [filed, isRefined, named?, text?, form?, found, Json.string?]
  | _ => rfl

/-- What a definition is filed under says how it is named. -/
lemma exists_named_of_mem_filed {key : String} {definition : Json} (mem : key ∈ filed definition) :
    ∃ members name, named? definition = some (members, name) ∧ key ∈ fileNames members name := by
  rw [filed_eq] at mem
  split_ifs at mem with refined
  · cases mem
  · cases named : named? definition with
    | none => rw [named] at mem; cases mem
    | some named' => rw [named] at mem; exact ⟨named'.1, named'.2, rfl, mem⟩

lemma filed_of_named {definition : Json} {members : List (String × Json)} {name : String}
    (named : named? definition = some (members, name)) (unrefined : isRefined definition = false) :
    filed definition = fileNames members name := by
  rw [filed_eq, unrefined, named]
  rfl

lemma mem_fileNames_self (members : List (String × Json)) (name : String) :
    name ∈ fileNames members name := by
  rw [fileNames]
  split <;> exact List.mem_cons_self

lemma pointless {name : String} (dotless : '.' ∉ name.toList) :
    ∀ c ∈ name.toList.reverse, (c != '.') = true := by
  intro c hc
  refine bne_iff_ne.mpr ?_
  rintro rfl
  exact dotless (List.mem_reverse.mp hc)

lemma shortName_of_dotless {name : String} (dotless : '.' ∉ name.toList) :
    shortName name = name := by
  rw [shortName, List.takeWhile_eq_self_iff.mpr (pointless dotless), List.reverse_reverse,
    String.ofList_toList]

lemma shortName_qualified (space : String) {name : String} (dotless : '.' ∉ name.toList) :
    shortName (space ++ "." ++ name) = name := by
  have letters : (space ++ "." ++ name).toList.reverse =
      name.toList.reverse ++ '.' :: space.toList.reverse := by simp
  rw [shortName, letters, List.takeWhile_append_of_pos (pointless dotless),
    List.takeWhile_cons_of_neg (by simp), List.append_nil, List.reverse_reverse,
    String.ofList_toList]

/-- A name without a point is filed by the definitions that are named so. -/
lemma eq_of_mem_fileNames {members : List (String × Json)} {name key : String}
    (mem : key ∈ fileNames members name) (dotless : '.' ∉ key.toList) : key = name := by
  rw [fileNames] at mem
  split at mem
  · obtain rfl | qualified := List.mem_cons.mp mem
    · rfl
    · rw [List.mem_singleton.mp qualified] at dotless
      simp at dotless
  · exact List.mem_singleton.mp mem

lemma isProper_of_named {definition : Json} {members : List (String × Json)} {name : String}
    (named : named? definition = some (members, name)) : isProper definition = true := by
  refine isProper_iff.mpr ?_
  rintro rfl
  cases named

lemma resolve_of_find? {name : String} {type : ColumnType} {names : Names}
    (simple : simpleType? name = none) (notNull : name ≠ "null")
    (found : names.find? name = some type) : resolve name names = .ok (type, names) := by
  rw [resolve, simple]
  dsimp only
  rw [if_neg notNull, found]

lemma readType_string {name : String} {type : ColumnType} {names : Names}
    (resolved : resolve name names = .ok (type, names)) :
    readType (.string name) names = .ok (⟨type, false⟩, names) := by
  rw [readType, Reading.bind_of_ok resolved]
  rfl

lemma readType_of_parse {raw : String} {value : Json} {schema : TableSchema}
    (text : Json.parse? raw = some value) (accepted : parse raw = .ok schema) :
    ∃ found after, readType value [] = .ok (found, after) ∧ found.type = rowType schema := by
  rw [parse, text] at accepted
  dsimp only at accepted
  split at accepted
  · cases accepted
  · rename_i read
    cases accepted
    exact ⟨_, _, read, rfl⟩
  · cases accepted

/-- What a definition that is accepted says at a place, another than null, is in its schema. -/
lemma typeIn?_of_parse {raw : String} {value definition : Json} {schema : TableSchema} {q : Place}
    (text : Json.parse? raw = some value) (accepted : parse raw = .ok schema)
    (there : at? q value = some definition) (proper : isProper definition = true) :
    typeIn? q value (rowType schema) = typeAt? q value [] := by
  obtain ⟨found, after, read, same⟩ := readType_of_parse text accepted
  obtain ⟨type, typed, inWhole⟩ := typeIn?_of_read read there proper
  rw [← same, typed, inWhole]

/-- The definition at a place has a name without a point that means no type by itself, and it is the
last one with that name that ends before a position. -/
structure Offers (p : Place) (name : String) (q : Place) (value : Json) : Prop where
  named : ∃ definition members, at? p value = some definition ∧
    named? definition = some (members, name)
  dotless : '.' ∉ name.toList
  compound : simpleType? name = none
  notNull : name ≠ "null"
  before : Before p q
  position : IsPosition q value
  last : ∀ p' definition members other, EndsBefore p p' → Before p' q →
    at? p' value = some definition → named? definition = some (members, other) →
      shortName other ≠ name

lemma Offers.lastFiled {p q : Place} {name : String} {value : Json} (offers : Offers p name q value)
    (unrefined : (at? p value).map isRefined = some false) : LastFiled p name q value := by
  obtain ⟨definition, members, there, named⟩ := offers.named
  rw [there, Option.map_some, Option.some.injEq] at unrefined
  have filed := filed_of_named named unrefined
  refine ⟨⟨definition, there, filed ▸ mem_fileNames_self members name⟩, offers.before, ?_⟩
  rintro p' ends before ⟨later, there', mem⟩
  obtain ⟨members', other, named', mem'⟩ := exists_named_of_mem_filed mem
  have same := eq_of_mem_fileNames mem' offers.dotless
  refine offers.last p' later members' other ends before there' named' ?_
  rw [← same]
  exact shortName_of_dotless offers.dotless

/-- In a definition that is accepted, the name of a definition that has ended can be written in any
position after it and stands for the type that the definition itself stands for, unless a logical
type took its place. -/
theorem name_stands_for_definition {raw : String} {value : Json} {schema : TableSchema}
    {p q : Place} {name : String} (text : Json.parse? raw = some value)
    (accepted : parse raw = .ok schema) (offers : Offers p name q value)
    (unrefined : (at? p value).map isRefined = some false) :
    let written := put q (.string name) value
    ∃ type, typeIn? p value (rowType schema) = some type ∧ typeAt? q written [] = some type ∧
      ∀ raw' schema', Json.parse? raw' = some written → parse raw' = .ok schema' →
        typeIn? q written (rowType schema') = some type := by
  intro written
  obtain ⟨found, after, read, -⟩ := readType_of_parse text accepted
  obtain ⟨outer, i, whole, rfl, inside, writable, bound⟩ := offers.position
  obtain ⟨holds, same⟩ := reached_put read inside writable bound (.string name)
  have there : at? (outer ++ [i]) value = some (parts whole)[i] := by
    rw [at?_append, inside, Option.bind_some, at?, List.getElem?_eq_getElem bound]
    rfl
  obtain ⟨known, reached⟩ := exists_namesAt? read there
  obtain ⟨type, typed, meaning⟩ := lookup_at_of_last (offers.lastFiled unrefined) reached
  have spelled : typeAt? (outer ++ [i]) written [] = some type := by
    have resolved : resolve name known = .ok (type, known) :=
      resolve_of_find? offers.compound offers.notNull (by rw [Names.find?, meaning]; rfl)
    exact typeAt?_of_read holds (same.trans reached) (readType_string resolved)
  refine ⟨type, ?_, spelled, fun raw' schema' text' accepted' => ?_⟩
  · obtain ⟨definition, members, defined, named⟩ := offers.named
    rw [typeIn?_of_parse text accepted defined (isProper_of_named named), typed]
  · have proper : isProper (.string name) = true :=
      isProper_iff.mpr fun bare => offers.notNull (Json.string.inj bare)
    rw [typeIn?_of_parse text' accepted' holds proper, spelled]

def fieldsOf (types : List (String × Json)) : Json :=
  .array (types.map fun f => .object [("name", .string f.1), ("type", f.2)])

def recordOf (name : String) (types : List (String × Json)) : Json :=
  .object [("fields", fieldsOf types), ("name", .string name), ("type", .string "record")]

def enumOf (name : String) (symbols : List String) : Json :=
  .object [("name", .string name), ("symbols", .ofStrings symbols), ("type", .string "enum")]

def money : Json :=
  .object [("logicalType", .string "decimal"), ("name", .string "money"), ("precision", .ofNat 10),
    ("scale", .ofNat 2), ("size", .ofNat 8), ("type", .string "fixed")]

/-- A record that defines a status twice and has an optional field of a given type. -/
def orders (shipped : String) : Json :=
  recordOf "orders" [("placed", enumOf "status" ["NEW"]), ("settled", enumOf "status" ["PAID"]),
    ("shipped", .array [.string "null", .string shipped])]

def invoice (total : String) : Json :=
  recordOf "invoice" [("price", money), ("total", .string total)]

lemma parse_compact {value : Json} {name : String} {columns : List Column} {nullable : Bool}
    {after : Names} (settled : Json.Settled Json.depthLimit value)
    (read : readType value [] = .ok (⟨.record name columns, nullable⟩, after)) :
    ∃ schema, parse value.compact = .ok schema ∧ rowType schema = .record name columns := by
  rw [parse, settled.parse?_compact]
  dsimp only
  rw [read]
  exact ⟨_, rfl, rfl⟩

lemma fits_orders (shipped : String) : Json.Fits Json.depthLimit (orders shipped) := by
  simp [Json.Fits, Json.depthLimit, orders, recordOf, fieldsOf, enumOf, Json.ofStrings]

lemma fits_invoice (total : String) : Json.Fits Json.depthLimit (invoice total) := by
  simp [Json.Fits, Json.Number.IsWhole, Json.depthLimit, invoice, recordOf, fieldsOf, money,
    Json.ofNat]

/-- A branch of a union can be the status that was defined last. -/
theorem name_stands_for_last_status :
    ∃ schema, Offers [1] "status" [2, 1] (orders "long") ∧
      put [2, 1] (.string "status") (orders "long") = orders "status" ∧
      parse (orders "status").compact = .ok schema ∧
      typeIn? [2, 1] (orders "status") (rowType schema) = some (.enumeration ["PAID"]) := by
  have offers : Offers [1] "status" [2, 1] (orders "long") := by
    refine ⟨⟨_, _, rfl, rfl⟩, by decide, rfl, by decide, by decide,
      ⟨[2], 1, _, rfl, rfl, rfl, by decide⟩, ?_⟩
    intro p definition members other ends before there named
    match p with
    | [2, 0] => cases there; cases named
    | 2 :: 0 :: _ :: _ => cases there
    | [] | 0 :: _ | 1 :: _ | [2] | 2 :: (_ + 1) :: _ => simp [EndsBefore, Before] at ends before
    | (i + 3) :: _ => exact absurd before (by simp [Before])
  have settled : Json.Settled Json.depthLimit (orders "long") := ⟨fits_orders "long", rfl⟩
  have settled' : Json.Settled Json.depthLimit (orders "status") := ⟨fits_orders "status", rfl⟩
  obtain ⟨schema, accepted, records⟩ := parse_compact settled rfl
  obtain ⟨schema', accepted', -⟩ := parse_compact settled' rfl
  obtain ⟨type, defined, -, spelled⟩ :=
    name_stands_for_definition settled.parse?_compact accepted offers rfl
  have paid : typeIn? [1] (orders "long") (rowType schema) = some (.enumeration ["PAID"]) := by
    rw [records]
    rfl
  refine ⟨schema', offers, rfl, accepted', ?_⟩
  rw [← paid, defined]
  exact spelled _ schema' settled'.parse?_compact accepted'

/-- A fixed type that is read as a decimal cannot be named again. -/
theorem decimal_has_no_name :
    ∃ raw value schema, Json.parse? raw = some value ∧ parse raw = .ok schema ∧
      Offers [0] "money" [1] value ∧
      typeIn? [0] value (rowType schema) = some (.decimal 10 2) ∧
      typeAt? [1] (put [1] (.string "money") value) [] = none ∧
      parse (put [1] (.string "money") value).compact =
        .error (.schema (.unknownType "money")) := by
  have settled : Json.Settled Json.depthLimit (invoice "long") := ⟨fits_invoice "long", rfl⟩
  obtain ⟨schema, accepted, records⟩ := parse_compact settled rfl
  refine ⟨_, invoice "long", schema, settled.parse?_compact, accepted, ?_, ?_, rfl, ?_⟩
  · refine ⟨⟨_, _, rfl, rfl⟩, by decide, rfl, by decide, by decide,
      ⟨[], 1, _, rfl, rfl, rfl, by decide⟩, ?_⟩
    intro p definition members other ends before there named
    match p with
    | [] | 0 :: _ | [1] | 1 :: _ :: _ | (_ + 2) :: _ =>
      simp [EndsBefore, Before] at ends before
  · rw [records]
    rfl
  · have written : put [1] (.string "money") (invoice "long") = invoice "money" := rfl
    rw [written, parse, Json.Settled.parse?_compact ⟨fits_invoice "money", rfl⟩]
    rfl

end LakeCatalog.Avro
