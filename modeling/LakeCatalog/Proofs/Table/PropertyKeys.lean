import LakeCatalog.Proofs.KeyValues
import LakeCatalog.Proofs.Table.DerivedProperties

/-!
# The keys of derived properties

The properties of a table are named by the settings, by the properties for Spark and by fixed names.
Only the settings can name a property that has no name: an entry that begins with its equals sign
stands for the empty key. Every other key that the settings or any other source give has a character
that is not blank.
-/

namespace LakeCatalog

open Text

/-- Nothing is left of a key when the blanks are taken off. -/
def IsBlankKey (key : String) : Prop := trim key.toList = []

lemma isBlankKey_empty : IsBlankKey "" := rfl

lemma isBlankKey_trim_iff {cs : List Char} :
    IsBlankKey (String.ofList (trim cs)) ↔ trim cs = [] := by
  rw [IsBlankKey, String.toList_ofList, trim_trim]

namespace KeyValues

/-- An entry of a text of settings that begins with its equals sign. -/
def HasNameless (raw : String) : Prop :=
  ∃ piece ∈ pieces endsEntry raw.toList, (trim piece).head? = some '='

instance (raw : String) : Decidable (HasNameless raw) :=
  inferInstanceAs (Decidable (∃ piece ∈ pieces endsEntry raw.toList, _ = _))

/-- An entry has a blank key exactly if it begins with its equals sign. -/
lemma isBlankKey_iff_nameless {piece : List Char} {e : String × String}
    (said : assignment? piece = some e) :
    IsBlankKey e.1 ↔ (trim piece).head? = some '=' := by
  by_cases mem : '=' ∈ piece
  · obtain ⟨front, rest, rfl, first⟩ := List.eq_append_cons_of_mem mem
    rw [assignment?_of_mem first] at said
    cases said
    -- What is left of the key begins the entry, and it has no equals sign.
    have kept : '=' ∉ trimStart front := fun mem => first (mem_of_mem_trimStart mem)
    have start : trim front = [] ↔ trimStart front = [] :=
      trim_eq_nil_iff.trans List.dropWhile_eq_nil_iff.symm
    rw [isBlankKey_trim_iff, start, trim_append_cons front isBlank_equals rest]
    cases left : trimStart front with
    | nil => simp
    | cons c key =>
      rw [left] at kept
      simp [Ne.symm (List.ne_of_not_mem_cons kept)]
  · have kept : '=' ∉ trim piece := fun listed =>
      mem (mem_of_mem_trimStart (mem_of_mem_trimEnd listed))
    rw [assignment?_of_notMem mem] at said
    refine iff_of_false ?_ fun first => kept (List.mem_of_mem_head? first)
    split_ifs at said with filled
    cases said
    exact fun blank => filled (isBlankKey_trim_iff.mp blank)

/-- The only blank key that an entry can have is the empty one. -/
lemma eq_empty_of_isBlankKey {piece : List Char} {e : String × String}
    (said : assignment? piece = some e) (blank : IsBlankKey e.1) : e.1 = "" := by
  rw [← trimmed_key_of_assignment? said, trimmed, blank]

/-- A text of settings gives a blank key exactly if one of its entries has no name, and then it is
the empty one. -/
lemma isBlankKey_and_mem_keys_iff {raw : String} {named : Dictionary String}
    (parsed : parse raw = .ok named) (key : String) :
    IsBlankKey key ∧ key ∈ named.keys ↔ key = "" ∧ HasNameless raw := by
  obtain ⟨-, rfl⟩ := parse_eq_ok_iff.mp parsed
  rw [Dictionary.mem_keys_ofList]
  constructor
  · rintro ⟨blank, e, he, rfl⟩
    obtain ⟨piece, hpiece, said⟩ := List.mem_filterMap.mp he
    exact ⟨eq_empty_of_isBlankKey said blank, piece, hpiece,
      (isBlankKey_iff_nameless said).mp blank⟩
  · rintro ⟨rfl, piece, hpiece, nameless⟩
    have filled : trim piece ≠ [] := fun empty => by rw [empty] at nameless; cases nameless
    have said : assignment? piece = some (keyOf piece, valueOf piece) := if_neg filled
    have blank := (isBlankKey_iff_nameless said).mpr nameless
    exact ⟨isBlankKey_empty, _, List.mem_filterMap.mpr ⟨piece, hpiece, said⟩,
      eq_empty_of_isBlankKey said blank⟩

end KeyValues

namespace DerivedProperties

variable {s : SyncSettings} {facts : TableFacts} {derived : Dictionary String}

lemma not_isBlankKey_iff {key : String} : ¬ IsBlankKey key ↔ isAllBlank key = false := by
  rw [IsBlankKey, ← isAllBlank_iff, Bool.not_eq_true]

/-- No fixed name is blank. -/
lemma isAllBlank_fixed : ∀ key ∈ ["hudi.table.type", "hudi.table.version", "hudi.base.path",
    "hudi.partition.fields", "spark.sql.sources.provider", "spark.sql.create.version",
    "spark.hoodie.query.as.ro.table", "spark.path", "inputFormat", "outputFormat",
    "serdeClass"], isAllBlank key = false := by
  decide +kernel

lemma isAllBlank_schemaKey (suffix : String) : isAllBlank (Spark.schemaKey suffix) = false := by
  have start : isAllBlank "spark.sql.sources.schema." = false := by decide +kernel
  refine (isAllBlank_append "spark.sql.sources.schema." suffix).trans ?_
  rw [start, Bool.false_and]

variable (s facts)

lemma isAllBlank_factEntries : ∀ e ∈ factEntries s facts, isAllBlank e.1 = false := by
  have fixed := isAllBlank_fixed
  unfold factEntries
  split <;> simp_all

lemma isAllBlank_readerDefaults : ∀ e ∈ readerDefaults s, isAllBlank e.1 = false := by
  have fixed := isAllBlank_fixed
  simp_all [readerDefaults]

lemma isAllBlank_formatEntries (format : FileFormat) :
    ∀ e ∈ formatEntries format, isAllBlank e.1 = false := by
  have fixed := isAllBlank_fixed
  simp_all [formatEntries]

lemma isAllBlank_counted (count stem : String) (values : List String) :
    ∀ e ∈ Spark.counted count stem values, isAllBlank e.1 = false := by
  intro e he
  obtain ⟨suffix, key, -⟩ := Spark.exists_belongs_of_mem_counted he
  rw [key]
  exact isAllBlank_schemaKey suffix

lemma isAllBlank_sparkProperties {key : String} (mem : key ∈ (sparkProperties s facts).keys) :
    isAllBlank key = false := by
  obtain ⟨e, he, rfl⟩ := Dictionary.mem_keys_ofList.mp mem
  simp only [List.mem_append] at he
  obtain (front | schema) | partitions := he
  · rcases List.mem_cons.mp front with rfl | version
    · exact isAllBlank_fixed _ (by simp)
    · obtain ⟨v, -, -, rfl⟩ := Spark.mem_versionEntry_iff.mp version
      exact isAllBlank_fixed _ (by simp)
  · exact isAllBlank_counted _ _ _ e schema
  · exact isAllBlank_counted _ _ _ e (Spark.mem_partitionEntries_iff.mp partitions).2

variable {s facts}

/-- The derived properties have the empty key exactly if an entry of the settings has no name, and
no other key of theirs is blank. -/
theorem isBlankKey_derived_iff (derives : derive s facts = .ok derived) (key : String) :
    IsBlankKey key ∧ key ∈ derived.keys ↔ key = "" ∧
      (KeyValues.HasNameless s.tableProperties ∨ KeyValues.HasNameless s.serdeProperties) := by
  obtain ⟨user, format, readers, named, -, named', rfl⟩ := derive_eq_ok derives
  have blank_user := KeyValues.isBlankKey_and_mem_keys_iff named key
  have blank_readers := KeyValues.isBlankKey_and_mem_keys_iff named' key
  have filled {entries : List (String × String)} (all : ∀ e ∈ entries, isAllBlank e.1 = false)
      (blank : IsBlankKey key) : ¬ ∃ e ∈ entries, e.1 = key := by
    rintro ⟨e, he, rfl⟩
    exact not_isBlankKey_iff.mpr (all e he) blank
  simp only [Dictionary.mem_keys_insertMany, Dictionary.mem_keys_overriddenBy,
    Dictionary.mem_keys_ofList]
  constructor
  · rintro ⟨blank, ((((fact | mem) | spark) | default) | mem) | format⟩
    · exact absurd fact (filled (isAllBlank_factEntries s facts) blank)
    · exact (blank_user.mp ⟨blank, mem⟩).imp_right .inl
    · exact absurd blank (not_isBlankKey_iff.mpr (isAllBlank_sparkProperties s facts spark))
    · exact absurd default (filled (isAllBlank_readerDefaults s) blank)
    · exact (blank_readers.mp ⟨blank, mem⟩).imp_right .inr
    · exact absurd format (filled (isAllBlank_formatEntries _) blank)
  · rintro ⟨empty, nameless | nameless⟩
    · obtain ⟨blank, mem⟩ := blank_user.mpr ⟨empty, nameless⟩
      exact ⟨blank, .inl (.inl (.inl (.inl (.inr mem))))⟩
    · obtain ⟨blank, mem⟩ := blank_readers.mpr ⟨empty, nameless⟩
      exact ⟨blank, .inl (.inr mem)⟩

end DerivedProperties

end LakeCatalog
