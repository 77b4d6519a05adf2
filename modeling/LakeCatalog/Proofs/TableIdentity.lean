import LakeCatalog.Proofs.Urn
import LakeCatalog.TableIdentity

/-!
# The entities of a table

The entities under which a table is published are read from texts with fixed beginnings, and the
blanks that reading takes off stand behind them. So the name of an entity still begins with its
entity type, and the dataset of a table is never its container, whatever platform, database, table
and environment are called. The container always has a name, for the digits of a digest are a key.
-/

namespace LakeCatalog

open Text

namespace Text

lemma isBlank_hexDigit : ∀ n < 16, isBlank (hexDigit n) = false := by decide

lemma lineFeed_notMem {cs : List Char} (visible : ∀ c ∈ cs, isBlank c = false) : '\n' ∉ cs :=
  fun mem => absurd (visible '\n' mem) (by decide)

lemma isAllBlank_of_visible {s : String} (filled : s.toList ≠ [])
    (visible : ∀ c ∈ s.toList, isBlank c = false) : isAllBlank s = false := by
  obtain ⟨c, mem⟩ := List.exists_mem_of_ne_nil _ filled
  exact List.all_eq_false.mpr ⟨c, mem, by simp [visible c mem]⟩

end Text

namespace TableIdentity

section

variable (platform database env : String)

lemma containerGuid_spec : (containerGuid platform database env).toList ≠ [] ∧
    ∀ c ∈ (containerGuid platform database env).toList, isBlank c = false := by
  let digits := ((Digest.sha256 (Digest.utf8 (containerKey platform database env))).flatMap
    hexByte).take 32
  have guid : (containerGuid platform database env).toList = digits := by
    rw [containerGuid, Digest.sha256Hex, String.toList_ofList, String.toList_ofList]
  have filled : digits ≠ [] := by
    simp [digits, Digest.sha256, Digest.HashState.words, Digest.bytesOfWord, hexByte]
  rw [guid]
  refine ⟨filled, fun c hc => ?_⟩
  obtain ⟨b, -, hc⟩ := List.mem_flatMap.mp (List.mem_of_mem_take hc)
  rcases List.mem_cons.mp hc with rfl | hc
  · exact isBlank_hexDigit _ (Nat.div_lt_of_lt_mul b.toNat_lt)
  · rw [List.mem_singleton.mp hc]
    exact isBlank_hexDigit _ (Nat.mod_lt _ (by decide))

lemma spells_container : Urn.Spells ("urn:li:container:" ++ containerGuid platform database env)
    "container" (containerGuid platform database env) := by
  obtain ⟨filled, visible⟩ := containerGuid_spec platform database env
  exact ⟨rfl, by decide, filled, lineFeed_notMem visible⟩

lemma containerGuid_ends :
    ∀ c ∈ (containerGuid platform database env).toList.getLast?, isBlank c = false :=
  fun c hc => (containerGuid_spec platform database env).2 c (List.mem_of_getLast? hc)

/-- The name of a container has no blanks to lose. -/
lemma trimmed_container : trimmed ("urn:li:container:" ++ containerGuid platform database env) =
    "urn:li:container:" ++ containerGuid platform database env :=
  (spells_container platform database env).trimmed (containerGuid_ends platform database env)

lemma isValid_container :
    Urn.isValid ("urn:li:container:" ++ containerGuid platform database env) = true :=
  (spells_container platform database env).isValid (containerGuid_ends platform database env)

end

section

variable {platform database table env : String} {t : TableIdentity}

/-- What the identity of a table is made of. -/
lemma of_eq_ok (h : of platform database table env = .ok t) :
    Text.isAllBlank database = false ∧ Text.isAllBlank table = false ∧
      Urn.parse ("urn:li:dataPlatform:" ++ platform) = .ok t.platform ∧
      Urn.parse ("urn:li:dataset:(" ++ t.platform.text ++ "," ++ database ++ "." ++ table ++ "," ++
        env ++ ")") = .ok t.dataset ∧
      Urn.parse ("urn:li:container:" ++ containerGuid platform database env) = .ok t.container ∧
      t.table = table ∧ t.database = database := by
  unfold of at h
  by_cases blank : (Text.isAllBlank database || Text.isAllBlank table) = true
  · simp [blank, throw, throwThe, MonadExceptOf.throw, bind, Except.bind] at h
  · simp only [blank] at h
    obtain ⟨platformUrn, hplatform, h⟩ := bind_eq_ok_iff.mp h
    obtain ⟨dataset, hdataset, h⟩ := bind_eq_ok_iff.mp h
    obtain ⟨container, hcontainer, h⟩ := bind_eq_ok_iff.mp h
    cases h
    rw [Bool.not_eq_true, Bool.or_eq_false_iff] at blank
    exact ⟨blank.1, blank.2, hplatform, hdataset, hcontainer, rfl, rfl⟩

lemma prefix_dataset (h : of platform database table env = .ok t) :
    "urn:li:dataset:".toList <+: t.dataset.text.toList := by
  obtain ⟨-, -, -, parsed, -⟩ := of_eq_ok h
  rw [Urn.toList_text_of_parse parsed]
  refine Text.prefix_trim (by decide) (by decide) (by decide) ?_
  have start : "urn:li:dataset:".toList <+: "urn:li:dataset:(".toList := by decide
  iterate 8 refine Text.prefix_toList_append ?_ _
  exact start

lemma text_container (h : of platform database table env = .ok t) :
    t.container.text = "urn:li:container:" ++ containerGuid platform database env := by
  obtain ⟨-, -, -, -, parsed, -⟩ := of_eq_ok h
  rw [Urn.parse_eq_ok_iff.mp parsed, trimmed_container]

lemma prefix_container (h : of platform database table env = .ok t) :
    "urn:li:container:".toList <+: t.container.text.toList := by
  rw [text_container h]
  exact Text.prefix_toList_append (List.prefix_refl _) _

lemma dataset_ne_container (h : of platform database table env = .ok t) :
    t.dataset ≠ t.container := by
  intro same
  have dataset := prefix_dataset h
  rw [same] at dataset
  have shorter : "urn:li:dataset:".toList <+: "urn:li:container:".toList :=
    List.prefix_of_prefix_length_le dataset (prefix_container h) (by decide)
  revert shorter
  decide

end

section

variable (platform database table env : String)

/-- A table has an identity exactly if neither its database nor its name is blank and platform and
dataset are named by URNs; the container always is. -/
lemma exists_of_iff : (∃ t, of platform database table env = .ok t) ↔
    isAllBlank database = false ∧ isAllBlank table = false ∧
      Urn.isValid ("urn:li:dataPlatform:" ++ platform) = true ∧
      Urn.isValid ("urn:li:dataset:(" ++ trimmed ("urn:li:dataPlatform:" ++ platform) ++ "," ++
        database ++ "." ++ table ++ "," ++ env ++ ")") = true := by
  have text {t : Urn} (parsed : Urn.parse ("urn:li:dataPlatform:" ++ platform) = .ok t) :
      t.text = trimmed ("urn:li:dataPlatform:" ++ platform) := by
    rw [← String.toList_inj, Urn.toList_text_of_parse parsed, trimmed, String.toList_ofList]
  constructor
  · rintro ⟨t, h⟩
    obtain ⟨filled, named, platformParsed, datasetParsed, -⟩ := of_eq_ok h
    rw [text platformParsed] at datasetParsed
    exact ⟨filled, named, Urn.isValid_iff.mpr ⟨_, platformParsed⟩,
      Urn.isValid_iff.mpr ⟨_, datasetParsed⟩⟩
  · rintro ⟨filled, named, platformValid, datasetValid⟩
    obtain ⟨platformUrn, platformParsed⟩ := Urn.isValid_iff.mp platformValid
    obtain ⟨dataset, datasetParsed⟩ := Urn.isValid_iff.mp datasetValid
    obtain ⟨container, containerParsed⟩ :=
      Urn.isValid_iff.mp (isValid_container platform database env)
    rw [← text platformParsed] at datasetParsed
    refine ⟨⟨dataset, container, platformUrn, table, database⟩, ?_⟩
    rw [of, filled, named]
    refine bind_eq_ok_iff.mpr ⟨_, platformParsed, ?_⟩
    refine bind_eq_ok_iff.mpr ⟨_, datasetParsed, ?_⟩
    exact bind_eq_ok_iff.mpr ⟨_, containerParsed, rfl⟩

/-- A table with filled names has an identity exactly if its names stand on one line; line feeds
behind the platform do not count. -/
lemma exists_of_iff_lines (filled : isAllBlank platform = false) :
    (∃ t, of platform database table env = .ok t) ↔
      (isAllBlank database = false ∧ isAllBlank table = false) ∧
        '\n' ∉ trimEnd platform.toList ∧ '\n' ∉ database.toList ∧ '\n' ∉ table.toList ∧
          '\n' ∉ env.toList := by
  have platformFilled : trimEnd platform.toList ≠ [] := by
    intro nothing
    obtain ⟨back, whole, blank⟩ := exists_trimEnd_eq platform.toList
    rw [nothing, List.nil_append] at whole
    rw [isAllBlank, List.all_eq_false] at filled
    obtain ⟨c, mem, visible⟩ := filled
    exact visible (blank c (whole ▸ mem))
  have platformValid : Urn.isValid ("urn:li:dataPlatform:" ++ platform) = true ↔
      '\n' ∉ trimEnd platform.toList := by
    have kind : Urn.IsEntityType "dataPlatform".toList := by decide
    exact (Urn.isValid_iff_isKey kind rfl).trans (and_iff_right platformFilled)
  have trimmedPlatform : (trimmed ("urn:li:dataPlatform:" ++ platform)).toList =
      "urn:li:dataPlatform".toList ++ ':' :: trimEnd platform.toList := by
    have split : ("urn:li:dataPlatform:" ++ platform).toList =
        "urn:li:dataPlatform".toList ++ ':' :: platform.toList := by simp
    have start : trimStart "urn:li:dataPlatform".toList = "urn:li:dataPlatform".toList :=
      trimStart_eq_self fun c hc => by cases hc; decide
    rw [trimmed, String.toList_ofList, split, trim_append_cons _ (by decide), start]
  let key := "(" ++ trimmed ("urn:li:dataPlatform:" ++ platform) ++ "," ++ database ++ "." ++
    table ++ "," ++ env ++ ")"
  have datasetValid : Urn.isValid ("urn:li:dataset:(" ++ trimmed ("urn:li:dataPlatform:" ++
      platform) ++ "," ++ database ++ "." ++ table ++ "," ++ env ++ ")") = true ↔
        '\n' ∉ trimEnd platform.toList ∧ '\n' ∉ database.toList ∧ '\n' ∉ table.toList ∧
          '\n' ∉ env.toList := by
    have kind : Urn.IsEntityType "dataset".toList := by decide
    have whole : "urn:li:dataset:(" ++ trimmed ("urn:li:dataPlatform:" ++ platform) ++ "," ++
        database ++ "." ++ table ++ "," ++ env ++ ")" = "urn:li:" ++ "dataset" ++ ":" ++ key := by
      rw [← String.toList_inj]
      simp [key]
    have closed : trimEnd key.toList = key.toList := by
      rw [show key.toList = ("(" ++ trimmed ("urn:li:dataPlatform:" ++ platform) ++ "," ++
        database ++ "." ++ table ++ "," ++ env).toList ++ [')'] by simp [key]]
      exact trimEnd_append_of_not_blank _ (by decide)
    rw [Urn.isValid_iff_isKey kind whole, closed]
    simp [key, Urn.IsKey, trimmedPlatform]
  rw [exists_of_iff, platformValid, datasetValid, and_assoc]
  refine and_congr_right fun _ => and_congr_right fun _ => ?_
  exact ⟨And.right, fun lines => ⟨lines.1, lines⟩⟩

/-- Names that are filled and hold no blanks are those of a table. -/
lemma exists_of_visible
    (filled : platform.toList ≠ [] ∧ database.toList ≠ [] ∧ table.toList ≠ [])
    (visible : (platform ++ database ++ table ++ env).toList.any isBlank = false) :
    ∃ t, of platform database table env = .ok t := by
  simp only [String.toList_append, List.any_append, Bool.or_eq_false_iff, List.any_eq_false,
    Bool.not_eq_true] at visible
  obtain ⟨⟨⟨platformVisible, databaseVisible⟩, tableVisible⟩, envVisible⟩ := visible
  have platformSpelled : Urn.Spells ("urn:li:dataPlatform:" ++ platform) "dataPlatform" platform :=
    ⟨rfl, by decide, filled.1, lineFeed_notMem platformVisible⟩
  have platformEnds : ∀ c ∈ platform.toList.getLast?, isBlank c = false :=
    fun c hc => platformVisible c (List.mem_of_getLast? hc)
  have datasetSpelled : Urn.Spells ("urn:li:dataset:(" ++ ("urn:li:dataPlatform:" ++ platform) ++
      "," ++ database ++ "." ++ table ++ "," ++ env ++ ")") "dataset" ("(urn:li:dataPlatform:" ++
      platform ++ "," ++ database ++ "." ++ table ++ "," ++ env ++ ")") := by
    refine ⟨?_, by decide, by simp, ?_⟩
    · rw [← String.toList_inj]
      simp
    · simp [lineFeed_notMem platformVisible, lineFeed_notMem databaseVisible,
        lineFeed_notMem tableVisible, lineFeed_notMem envVisible]
  refine (exists_of_iff platform database table env).mpr
    ⟨isAllBlank_of_visible filled.2.1 databaseVisible,
      isAllBlank_of_visible filled.2.2 tableVisible, platformSpelled.isValid platformEnds, ?_⟩
  rw [platformSpelled.trimmed platformEnds]
  refine datasetSpelled.isValid fun c hc => ?_
  rw [String.toList_append, show ")".toList = [')'] by simp, List.getLast?_concat] at hc
  cases hc
  decide

end

end TableIdentity

end LakeCatalog
