import LakeCatalog.Schema
import Mathlib.Data.List.Nodup
import Mathlib.Data.List.Perm.Basic
import Mathlib.Tactic.Common

/-!
# Laws of schema differences

A column is looked up by its name, and the first column of that name is found. So what one schema
has more than another is what the other has less, and both lists follow from the names alone. Where
no name is repeated, a column is found wherever it stands: then the updated columns are those that
the two schemas define differently, and nothing has changed exactly if the schemas have the same
columns up to their order and their documentation.
-/

namespace LakeCatalog.Schema

/-- What a difference compares of a column. -/
def ColumnOf.signature (c : Column) : String × ColumnType × Bool := (c.name, c.type, c.nullable)

namespace TableSchema

def names (s : TableSchema) : List String := s.columns.map (·.name)

def signatures (s : TableSchema) : List (String × ColumnType × Bool) :=
  s.columns.map ColumnOf.signature

def HasDistinctNames (s : TableSchema) : Prop := s.names.Nodup

instance (s : TableSchema) : Decidable s.HasDistinctNames :=
  inferInstanceAs (Decidable s.names.Nodup)

variable {s : TableSchema} {name : String}

lemma mem_names_iff : name ∈ s.names ↔ ∃ c ∈ s.columns, c.name = name := List.mem_map

lemma column?_isNone_iff : (s.column? name).isNone = true ↔ name ∉ s.names := by
  simp [column?, names]

lemma mem_of_column? {c : Column} (found : s.column? name = some c) :
    c ∈ s.columns ∧ c.name = name :=
  ⟨List.mem_of_find?_eq_some found, by simpa using List.find?_some found⟩

/-- Distinct names determine their columns. -/
lemma HasDistinctNames.eq_of_name_eq (distinct : s.HasDistinctNames) {c d : Column}
    (hc : c ∈ s.columns) (hd : d ∈ s.columns) (same : c.name = d.name) : c = d :=
  List.inj_on_of_nodup_map distinct hc hd same

/-- A column with a name of its own is found by its name. -/
lemma HasDistinctNames.column?_name (distinct : s.HasDistinctNames) {c : Column}
    (hc : c ∈ s.columns) : s.column? c.name = some c := by
  cases found : s.column? c.name with
  | none =>
    have missing : c.name ∉ s.names := column?_isNone_iff.mp (by rw [found]; rfl)
    exact absurd (mem_names_iff.mpr ⟨c, hc, rfl⟩) missing
  | some d =>
    obtain ⟨hd, same⟩ := mem_of_column? found
    rw [distinct.eq_of_name_eq hd hc same]

end TableSchema

namespace Difference

open TableSchema

variable {p c : TableSchema} {name : String}

lemma mem_missingFrom_iff {s t : TableSchema} :
    name ∈ missingFrom s t ↔ name ∈ s.names ∧ name ∉ t.names := by
  simp only [missingFrom, List.mem_map, List.mem_filter, column?_isNone_iff, mem_names_iff]
  constructor
  · rintro ⟨column, ⟨mem, missing⟩, rfl⟩
    exact ⟨⟨column, mem, rfl⟩, missing⟩
  · rintro ⟨⟨column, mem, rfl⟩, missing⟩
    exact ⟨column, ⟨mem, missing⟩, rfl⟩

lemma missingFrom_sublist (s t : TableSchema) : (missingFrom s t).Sublist s.names :=
  List.filter_sublist.map _

lemma updated_sublist (p c : TableSchema) : (between p c).updated.Sublist c.names :=
  List.filter_sublist.map _

/-- The names after a change are those before it without the deleted ones and with the added
ones. -/
lemma mem_names_after_iff : name ∈ c.names ↔
    (name ∈ p.names ∧ name ∉ (between p c).deleted) ∨ name ∈ (between p c).added := by
  simp only [between, mem_missingFrom_iff]
  by_cases before : name ∈ p.names
  · by_cases after : name ∈ c.names <;> simp [before, after]
  · simp [before]

lemma isUpdated_iff {column : Column} : isUpdated p column = true ↔
    ∃ old, p.column? column.name = some old ∧
      (old.type ≠ column.type ∨ old.nullable ≠ column.nullable) := by
  unfold isUpdated
  cases p.column? column.name with
  | none => simp
  | some old => simp

lemma signature_ne_iff {old column : Column} (same : old.name = column.name) :
    old.signature ≠ column.signature ↔
      old.type ≠ column.type ∨ old.nullable ≠ column.nullable := by
  simp only [ColumnOf.signature, ne_eq, Prod.mk.injEq, same, true_and, not_and_or]

/-- The updated columns are those that both schemas have and define differently. -/
lemma mem_updated_iff (distinct : p.HasDistinctNames) : name ∈ (between p c).updated ↔
    ∃ old ∈ p.columns, ∃ new ∈ c.columns,
      old.name = name ∧ new.name = name ∧ old.signature ≠ new.signature := by
  simp only [between, List.mem_map, List.mem_filter, isUpdated_iff]
  constructor
  · rintro ⟨new, ⟨hnew, old, found, differs⟩, rfl⟩
    obtain ⟨hold, same⟩ := mem_of_column? found
    exact ⟨old, hold, new, hnew, same, rfl, (signature_ne_iff same).mpr differs⟩
  · rintro ⟨old, hold, new, hnew, same, rfl, differs⟩
    have found := distinct.column?_name hold
    rw [same] at found
    exact ⟨new, ⟨hnew, old, found, (signature_ne_iff same).mp differs⟩, rfl⟩

/-- No matter which of two schemas came first, the same columns are updated. -/
lemma mem_updated_comm (distinct : p.HasDistinctNames) (distinct' : c.HasDistinctNames) :
    name ∈ (between p c).updated ↔ name ∈ (between c p).updated := by
  rw [mem_updated_iff distinct, mem_updated_iff distinct']
  constructor
  · rintro ⟨old, hold, new, hnew, oldName, newName, differs⟩
    exact ⟨new, hnew, old, hold, newName, oldName, differs.symm⟩
  · rintro ⟨old, hold, new, hnew, oldName, newName, differs⟩
    exact ⟨new, hnew, old, hold, newName, oldName, differs.symm⟩

lemma mem_names_of_mem_updated (distinct : p.HasDistinctNames)
    (h : name ∈ (between p c).updated) : name ∈ p.names ∧ name ∈ c.names := by
  obtain ⟨old, hold, new, hnew, oldName, newName, -⟩ := (mem_updated_iff distinct).mp h
  exact ⟨mem_names_iff.mpr ⟨old, hold, oldName⟩, mem_names_iff.mpr ⟨new, hnew, newName⟩⟩

lemma isEmpty_iff {d : Difference} :
    d.isEmpty = true ↔ d.added = [] ∧ d.updated = [] ∧ d.deleted = [] := by
  simp [isEmpty, and_assoc]

/-- A schema of which nothing is deleted or updated is part of the next one. -/
lemma signatures_subset (distinct : p.HasDistinctNames) (kept : (between p c).deleted = [])
    (same : (between p c).updated = []) : p.signatures ⊆ c.signatures := by
  intro signature mem
  obtain ⟨old, hold, rfl⟩ := List.mem_map.mp mem
  have after : old.name ∈ c.names := by
    by_contra missing
    have deleted : old.name ∈ (between p c).deleted :=
      mem_missingFrom_iff.mpr ⟨mem_names_iff.mpr ⟨old, hold, rfl⟩, missing⟩
    rw [kept] at deleted
    cases deleted
  obtain ⟨new, hnew, newName⟩ := mem_names_iff.mp after
  by_cases unchanged : old.signature = new.signature
  · rw [unchanged]
    exact List.mem_map_of_mem hnew
  · have updated : old.name ∈ (between p c).updated :=
      (mem_updated_iff distinct).mpr ⟨old, hold, new, hnew, rfl, newName, unchanged⟩
    rw [same] at updated
    cases updated

lemma missingFrom_of_subset {s t : TableSchema} (subset : s.signatures ⊆ t.signatures) :
    missingFrom s t = [] := by
  apply List.eq_nil_iff_forall_not_mem.mpr
  intro name mem
  obtain ⟨before, missing⟩ := mem_missingFrom_iff.mp mem
  obtain ⟨column, hcolumn, rfl⟩ := mem_names_iff.mp before
  obtain ⟨other, hother, same⟩ := List.mem_map.mp (subset (List.mem_map_of_mem hcolumn))
  exact missing (mem_names_iff.mpr ⟨other, hother, congrArg Prod.fst same⟩)

lemma updated_of_subset (distinct : p.HasDistinctNames) (distinct' : c.HasDistinctNames)
    (subset : p.signatures ⊆ c.signatures) : (between p c).updated = [] := by
  apply List.eq_nil_iff_forall_not_mem.mpr
  intro name mem
  obtain ⟨old, hold, new, hnew, rfl, newName, differs⟩ := (mem_updated_iff distinct).mp mem
  obtain ⟨kept, hkept, same⟩ := List.mem_map.mp (subset (List.mem_map_of_mem hold))
  have keptName : kept.name = new.name := (congrArg Prod.fst same).trans newName.symm
  rw [distinct'.eq_of_name_eq hkept hnew keptName] at same
  exact differs same.symm

lemma isEmpty_between_iff (distinct : p.HasDistinctNames) (distinct' : c.HasDistinctNames) :
    (between p c).isEmpty = true ↔
      ∀ signature, signature ∈ p.signatures ↔ signature ∈ c.signatures := by
  rw [isEmpty_iff]
  constructor
  · rintro ⟨added, updated, deleted⟩ signature
    have updated' : (between c p).updated = [] := by
      apply List.eq_nil_iff_forall_not_mem.mpr
      intro name mem
      rw [← mem_updated_comm distinct distinct', updated] at mem
      cases mem
    constructor
    · intro mem
      exact signatures_subset distinct deleted updated mem
    · intro mem
      exact signatures_subset distinct' added updated' mem
  · intro same
    have subset : p.signatures ⊆ c.signatures := fun signature => (same signature).mp
    have subset' : c.signatures ⊆ p.signatures := fun signature => (same signature).mpr
    exact ⟨missingFrom_of_subset subset', updated_of_subset distinct distinct' subset,
      missingFrom_of_subset subset⟩

/-- A schema does not differ from its columns in another order. -/
lemma isEmpty_of_perm (distinct : p.HasDistinctNames) (reordered : c.columns.Perm p.columns) :
    (between p c).isEmpty = true := by
  have distinct' : c.HasDistinctNames := (reordered.map _).nodup_iff.mpr distinct
  apply (isEmpty_between_iff distinct distinct').mpr
  intro signature
  exact (reordered.map ColumnOf.signature).mem_iff.symm

/-- Adding and deleting are the same change seen from its two ends, and they account for all names.
Where no schema repeats a name, no name is listed twice, the updated columns are those that the two
schemas define differently, and there is no difference exactly between schemas that have the same
columns by name, type and whether they may be absent, in whatever order. -/
theorem difference_is_by_name (p c : TableSchema) :
    let d := between p c
    d.added = (between c p).deleted ∧
      (∀ name, name ∈ c.names ↔ (name ∈ p.names ∧ name ∉ d.deleted) ∨ name ∈ d.added) ∧
      (p.HasDistinctNames → c.HasDistinctNames →
        (d.added.Nodup ∧ d.updated.Nodup ∧ d.deleted.Nodup) ∧
        (d.added.Disjoint d.updated ∧ d.added.Disjoint d.deleted ∧ d.updated.Disjoint d.deleted) ∧
        (∀ name, name ∈ d.updated ↔ ∃ old ∈ p.columns, ∃ new ∈ c.columns,
          old.name = name ∧ new.name = name ∧ old.signature ≠ new.signature) ∧
        (∀ name, name ∈ d.updated ↔ name ∈ (between c p).updated) ∧
        (d.isEmpty = true ↔
          ∀ signature, signature ∈ p.signatures ↔ signature ∈ c.signatures) ∧
        (c.columns.Perm p.columns → d.isEmpty = true)) := by
  intro d
  refine ⟨rfl, fun name => mem_names_after_iff, fun distinct distinct' => ?_⟩
  have added {name : String} (h : name ∈ d.added) : name ∈ c.names ∧ name ∉ p.names :=
    mem_missingFrom_iff.mp h
  have deleted {name : String} (h : name ∈ d.deleted) : name ∈ p.names ∧ name ∉ c.names :=
    mem_missingFrom_iff.mp h
  have updated {name : String} (h : name ∈ d.updated) : name ∈ p.names ∧ name ∈ c.names :=
    mem_names_of_mem_updated distinct h
  refine ⟨⟨?_, ?_, ?_⟩, ⟨?_, ?_, ?_⟩, ?_, ?_, ?_, ?_⟩
  · exact distinct'.sublist (missingFrom_sublist c p)
  · exact distinct'.sublist (updated_sublist p c)
  · exact distinct.sublist (missingFrom_sublist p c)
  · exact fun name new changed => (added new).2 (updated changed).1
  · exact fun name new gone => (added new).2 (deleted gone).1
  · exact fun name changed gone => (deleted gone).2 (updated changed).2
  · exact fun name => mem_updated_iff distinct
  · exact fun name => mem_updated_comm distinct distinct'
  · exact isEmpty_between_iff distinct distinct'
  · exact isEmpty_of_perm distinct

def ordersBefore : TableSchema where
  name := "orders"
  spaceName := none
  columns := [⟨"id", .simple .long, false, none⟩, ⟨"amount", .simple .int, true, none⟩,
    ⟨"legacy", .simple .string, true, some "unused"⟩]
  raw := ""

/-- The columns of orders after it, one of them moved and documented. -/
def ordersAfter : TableSchema where
  name := "orders"
  spaceName := none
  columns := [⟨"amount", .decimal 10 2, true, none⟩, ⟨"region", .simple .string, true, none⟩,
    ⟨"id", .simple .long, false, some "number of the order"⟩]
  raw := ""

/-- One column of orders is new, one has another type, one is gone, and the one that has only moved
and been documented is none of these. -/
theorem difference_is_by_name_of_orders :
    ordersBefore.HasDistinctNames ∧ ordersAfter.HasDistinctNames ∧
      between ordersBefore ordersAfter = ⟨["region"], ["amount"], ["legacy"]⟩ ∧
      (between ordersBefore ordersAfter).added.Disjoint (between ordersBefore ordersAfter).deleted ∧
      "amount" ∈ (between ordersAfter ordersBefore).updated ∧
      (between ordersBefore { ordersBefore with columns := ordersBefore.columns.reverse }).isEmpty =
        true := by
  have before : ordersBefore.HasDistinctNames := by decide
  have after : ordersAfter.HasDistinctNames := by decide
  have reordered := List.reverse_perm ordersBefore.columns
  have turned : { ordersBefore with columns := ordersBefore.columns.reverse }.HasDistinctNames := by
    decide
  obtain ⟨-, -, laws⟩ := difference_is_by_name ordersBefore ordersAfter
  obtain ⟨-, ⟨-, disjoint, -⟩, -, comm, -, -⟩ := laws before after
  obtain ⟨-, -, laws'⟩ :=
    difference_is_by_name ordersBefore { ordersBefore with columns := ordersBefore.columns.reverse }
  obtain ⟨-, -, -, -, -, unchanged⟩ := laws' before turned
  have found : between ordersBefore ordersAfter = ⟨["region"], ["amount"], ["legacy"]⟩ := by
    decide +kernel
  refine ⟨before, after, found, disjoint, (comm "amount").mp ?_, unchanged reordered⟩
  rw [found]
  exact List.mem_singleton_self "amount"

end Difference

end LakeCatalog.Schema
