import LakeCatalog.Proofs.TableIdentity
import Mathlib.Data.List.Count
import Mathlib.Data.List.TakeWhile

/-!
# Tables that share a dataset

The dataset of a table is named by its platform, its database, its table name and its environment,
put together with commas and a point. None of these is escaped, so a name that holds a separator
itself can be cut elsewhere: the database `sales.eu` with the table `orders` and the database
`sales` with the table `eu.orders` have one dataset. Blanks at the end of the platform do not count.
That is all: two tables share a dataset exactly if their names are put together to the same text,
and if their names hold equally many separators they are then the same table.
-/

namespace LakeCatalog

section

variable {α : Type} [DecidableEq α] {c : α} {a b a' b' : List α}

/-- Lists are cut at the same separator if equally many separators stand before it. -/
lemma append_cons_eq_iff_of_count (same : a.count c = a'.count c) :
    a ++ c :: b = a' ++ c :: b' ↔ a = a' ∧ b = b' := by
  constructor
  · intro h
    induction a generalizing a' with
    | nil =>
      cases a' with
      | nil => exact ⟨rfl, (List.cons.inj h).2⟩
      | cons d a' =>
        obtain ⟨rfl, -⟩ := List.cons.inj h
        simp at same
    | cons d a ih =>
      cases a' with
      | nil =>
        obtain ⟨rfl, -⟩ := List.cons.inj h
        simp at same
      | cons d' a' =>
        obtain ⟨rfl, rest⟩ := List.cons.inj h
        rw [List.count_cons, List.count_cons, Nat.add_right_cancel_iff] at same
        obtain ⟨rfl, rfl⟩ := ih same rest
        exact ⟨rfl, rfl⟩
  · rintro ⟨rfl, rfl⟩
    rfl

lemma append_cons_eq_iff_of_count_after (same : b.count c = b'.count c) :
    a ++ c :: b = a' ++ c :: b' ↔ a = a' ∧ b = b' := by
  constructor
  · intro h
    have counts := congrArg (List.count c) h
    simp only [List.count_append, List.count_cons_self, same] at counts
    exact (append_cons_eq_iff_of_count (by omega)).mp h
  · rintro ⟨rfl, rfl⟩
    rfl

end

namespace Text

lemma count_trimEnd {c : Char} (kept : isBlank c = false) (cs : List Char) :
    (trimEnd cs).count c = cs.count c := by
  have dropped : (cs.reverse.takeWhile isBlank).count c = 0 := by
    refine List.count_eq_zero.mpr fun h => ?_
    rw [List.mem_takeWhile_imp h] at kept
    cases kept
  have parts := congrArg (List.count c) (List.takeWhile_append_dropWhile (p := isBlank)
    (l := cs.reverse))
  rw [List.count_append, dropped, List.count_reverse] at parts
  rw [trimEnd, List.count_reverse]
  omega

end Text

namespace TableIdentity

open Text

/-- The names of a table as they stand in the name of its dataset. -/
def datasetKey (platform database table env : String) : List Char :=
  trimEnd platform.toList ++ ',' ::
    (database.toList ++ '.' :: (table.toList ++ ',' :: env.toList))

/-- The names of two tables hold equally many separators: commas in platform and environment, and
points in the database. -/
structure SameSeparators (platform database env platform' database' env' : String) : Prop where
  platform : platform.toList.count ',' = platform'.toList.count ','
  database : database.toList.count '.' = database'.toList.count '.'
  env : env.toList.count ',' = env'.toList.count ','

section

variable {platform database table env platform' database' table' env' : String}
  {t t' : TableIdentity}

lemma toList_platform (h : of platform database table env = .ok t) :
    t.platform.text.toList = "urn:li:dataPlatform:".toList ++ trimEnd platform.toList := by
  obtain ⟨-, -, parsed, -⟩ := of_eq_ok h
  have ends : "urn:li:dataPlatform:".toList = "urn:li:dataPlatform".toList ++ [':'] := by
    decide
  have start : trimStart ("urn:li:dataPlatform:".toList ++ platform.toList) =
      "urn:li:dataPlatform:".toList ++ platform.toList :=
    trimStart_eq_self fun c hc => by cases hc; decide
  rw [Urn.toList_text_of_parse parsed, String.toList_append, trim, start, ends, List.append_assoc,
    List.singleton_append, trimEnd_append_cons _ (by decide), List.append_assoc,
    List.singleton_append]

lemma toList_dataset (h : of platform database table env = .ok t) :
    t.dataset.text.toList = "urn:li:dataset:(urn:li:dataPlatform:".toList ++
      (datasetKey platform database table env ++ [')']) := by
  obtain ⟨-, -, -, parsed, -⟩ := of_eq_ok h
  have written : ("urn:li:dataset:(" ++ t.platform.text ++ "," ++ database ++ "." ++ table ++ "," ++
      env ++ ")").toList = ("urn:li:dataset:(urn:li:dataPlatform:".toList ++
        datasetKey platform database table env) ++ [')'] := by
    simp [datasetKey, toList_platform h]
  rw [Urn.toList_text_of_parse parsed, written, ← List.append_assoc, trim,
    trimStart_eq_self fun c hc => by cases hc; decide]
  exact trimEnd_append_of_not_blank _ (by decide)

lemma text_dataset (h : of platform database table env = .ok t) :
    t.dataset.text = "urn:li:dataset:(" ++ t.platform.text ++ "," ++ database ++ "." ++ table ++
      "," ++ env ++ ")" := by
  rw [← String.toList_inj, toList_dataset h]
  simp [datasetKey, toList_platform h]

lemma dataset_eq_iff (h : of platform database table env = .ok t)
    (h' : of platform' database' table' env' = .ok t') : t.dataset = t'.dataset ↔
      datasetKey platform database table env = datasetKey platform' database' table' env' := by
  rw [← Urn.text_injective.eq_iff, ← String.toList_inj, toList_dataset h, toList_dataset h',
    List.append_cancel_left_eq, List.append_cancel_right_eq]

lemma platform_eq_iff (h : of platform database table env = .ok t)
    (h' : of platform' database' table' env' = .ok t') :
    t.platform = t'.platform ↔ trimEnd platform.toList = trimEnd platform'.toList := by
  rw [← Urn.text_injective.eq_iff, ← String.toList_inj, toList_platform h, toList_platform h',
    List.append_cancel_left_eq]

/-- Names that are put together to one text and hold equally many separators are the same. -/
lemma datasetKey_eq_iff
    (separators : SameSeparators platform database env platform' database' env') :
    datasetKey platform database table env = datasetKey platform' database' table' env' ↔
      trimEnd platform.toList = trimEnd platform'.toList ∧ database = database' ∧ table = table' ∧
        env = env' := by
  have platforms : (trimEnd platform.toList).count ',' = (trimEnd platform'.toList).count ',' := by
    rw [count_trimEnd (by decide), count_trimEnd (by decide), separators.platform]
  -- The environment is cut off before database and table are, at the last comma.
  have cut (d t e : List Char) : d ++ '.' :: (t ++ ',' :: e) = (d ++ '.' :: t) ++ ',' :: e := by
    simp
  rw [datasetKey, datasetKey, append_cons_eq_iff_of_count platforms, cut, cut,
    append_cons_eq_iff_of_count_after separators.env,
    append_cons_eq_iff_of_count separators.database]
  simp only [String.toList_inj, and_assoc]

end

/-- The dataset of a table is named by the name of its platform, which loses the blanks at its end,
and by the other names as they are. So two tables share a dataset exactly if their names are put
together to the same text. They are then the same table exactly if these names hold equally many
separators: commas in platform and environment, points in the database. Platforms are the same up to
blanks at their end. -/
theorem same_dataset_iff {platform database table env platform' database' table' env' : String}
    {t t' : TableIdentity} (named : of platform database table env = .ok t)
    (named' : of platform' database' table' env' = .ok t') :
    t.platform.text.toList = "urn:li:dataPlatform:".toList ++ trimEnd platform.toList ∧
    t.dataset.text = "urn:li:dataset:(" ++ t.platform.text ++ "," ++ database ++ "." ++ table ++
      "," ++ env ++ ")" ∧
    (t.dataset = t'.dataset ↔
      datasetKey platform database table env = datasetKey platform' database' table' env') ∧
    (t.dataset = t'.dataset ∧
        SameSeparators platform database env platform' database' env' ↔
      t.platform = t'.platform ∧ database = database' ∧ table = table' ∧ env = env') ∧
    (t.platform = t'.platform ↔ trimEnd platform.toList = trimEnd platform'.toList) := by
  have dataset := dataset_eq_iff named named'
  have sameUrn := platform_eq_iff named named'
  refine ⟨toList_platform named, text_dataset named, dataset, ?_, sameUrn⟩
  rw [dataset, sameUrn]
  constructor
  · rintro ⟨same, separators⟩
    exact (datasetKey_eq_iff separators).mp same
  · rintro ⟨platforms, rfl, rfl, rfl⟩
    have commas : platform.toList.count ',' = platform'.toList.count ',' := by
      rw [← count_trimEnd (by decide) platform.toList, platforms, count_trimEnd (by decide)]
    have separators : SameSeparators platform database env platform' database env :=
      ⟨commas, rfl, rfl⟩
    exact ⟨(datasetKey_eq_iff separators).mpr ⟨platforms, rfl, rfl, rfl⟩, separators⟩

/-- A blank behind the platform changes neither the platform nor the dataset. -/
theorem same_dataset_of_blank_platform : ∃ t t',
    of "hudi" "sales" "orders" "PROD" = .ok t ∧ of "hudi " "sales" "orders" "PROD" = .ok t' ∧
      t.platform = t'.platform ∧ t.dataset = t'.dataset := by
  obtain ⟨t, named⟩ :=
    exists_of_visible "hudi" "sales" "orders" "PROD" (by decide) (by decide)
  obtain ⟨t', named'⟩ := (exists_of_iff "hudi " "sales" "orders" "PROD").mpr (by decide)
  obtain ⟨-, -, -, sameTable, platforms⟩ := same_dataset_iff named named'
  have platform : t.platform = t'.platform := platforms.mpr (by decide)
  exact ⟨t, t', named, named', platform, (sameTable.mpr ⟨platform, rfl, rfl, rfl⟩).1⟩

/-- A point in a name makes one dataset of two tables. -/
theorem dataset_shared_by_two_tables : ∃ t t',
    of "hudi" "sales.eu" "orders" "PROD" = .ok t ∧ of "hudi" "sales" "eu.orders" "PROD" = .ok t' ∧
      t.dataset = t'.dataset ∧ ¬ ("sales.eu" = "sales" ∧ "orders" = "eu.orders") := by
  obtain ⟨t, named⟩ :=
    exists_of_visible "hudi" "sales.eu" "orders" "PROD" (by decide) (by decide)
  obtain ⟨t', named'⟩ :=
    exists_of_visible "hudi" "sales" "eu.orders" "PROD" (by decide) (by decide)
  exact ⟨t, t', named, named', (dataset_eq_iff named named').mpr (by decide), by decide⟩

end TableIdentity

end LakeCatalog
