import LakeCatalog.Text.Pieces
import LakeCatalog.TableIdentity
import Mathlib.Tactic.Common

/-!
# Reading a URN

The entity type ends at the first character that is neither a letter nor a digit, so a text is
spelled in at most one way. A text is read exactly if it is a URN once the blanks around it are off,
and then as this URN.
-/

namespace LakeCatalog.Urn

open Text

lemma IsEntityType.letterOrDigit {kind : List Char} (isType : IsEntityType kind) :
    ∀ c ∈ kind, isLetterOrDigit c = true := by
  obtain ⟨letter, others⟩ := isType
  exact List.forall_mem_cons.mpr ⟨by simp [isLetterOrDigit, letter], others⟩

lemma typeAndKey?_eq_some_iff {cs kind key : List Char} : typeAndKey? cs = some (kind, key) ↔
    cs = kind ++ ':' :: key ∧ IsEntityType kind ∧ IsKey key := by
  constructor
  · intro found
    have whole := List.takeWhile_append_dropWhile (p := isLetterOrDigit) (l := cs)
    have taken : ∀ c ∈ cs.takeWhile isLetterOrDigit, isLetterOrDigit c = true :=
      List.all_eq_true.mp List.all_takeWhile
    unfold typeAndKey? at found
    split at found
    · rename_i first more rest front back
      rw [front, back] at whole
      rw [front] at taken
      obtain ⟨checked, same⟩ := Option.ite_none_right_eq_some.mp found
      cases same
      simp only [Bool.and_eq_true] at checked
      obtain ⟨⟨letter, filled⟩, single⟩ := checked
      exact ⟨whole.symm, ⟨letter, (List.forall_mem_cons.mp taken).2⟩, by simpa using filled,
        by simpa using single⟩
    · cases found
  · rintro ⟨rfl, isType, filled, single⟩
    have colon : isLetterOrDigit ':' = false := by decide
    have letters := isType.letterOrDigit
    obtain ⟨letter, others⟩ := isType
    rw [typeAndKey?, List.takeWhile_append_of_pos letters, List.dropWhile_append_of_pos letters,
      List.takeWhile_cons_of_neg (by simp [colon]), List.dropWhile_cons_of_neg (by simp [colon]),
      List.append_nil]
    simp [letter, filled, single]

lemma parts?_eq_some_iff {cs : List Char} {parts : List Char × List Char} :
    parts? cs = some parts ↔
      ∃ rest, cs = "urn:li:".toList ++ rest ∧ typeAndKey? rest = some parts := by
  have start : "urn:li:".toList = ['u', 'r', 'n', ':', 'l', 'i', ':'] := by simp
  rw [start]
  constructor
  · intro found
    unfold parts? at found
    split at found
    · exact ⟨_, rfl, found⟩
    · cases found
  · rintro ⟨rest, rfl, found⟩
    exact found

/-- A text is spelled as it is taken apart. -/
lemma spells_iff {text entityType key : String} : Spells text entityType key ↔
    parts? text.toList = some (entityType.toList, key.toList) := by
  simp only [parts?_eq_some_iff, typeAndKey?_eq_some_iff]
  constructor
  · rintro ⟨rfl, isType, isKey⟩
    exact ⟨entityType.toList ++ ':' :: key.toList, by simp, rfl, isType, isKey⟩
  · rintro ⟨rest, whole, rfl, isType, isKey⟩
    refine ⟨?_, isType, isKey⟩
    rw [← String.toList_inj, whole]
    simp

/-- A text that is spelled as a URN loses nothing at its start, so its last character decides. -/
lemma Spells.trimmed {text entityType key : String} (spells : Spells text entityType key)
    (ends : ∀ c ∈ key.toList.getLast?, isBlank c = false) : trimmed text = text := by
  obtain ⟨rfl, -, filled, -⟩ := spells
  obtain ⟨init, last, split⟩ := (List.eq_nil_or_concat key.toList).resolve_left filled
  rw [List.concat_eq_append] at split
  have visible : isBlank last = false := ends last (by simp [split])
  have whole : ("urn:li:" ++ entityType ++ ":" ++ key).toList =
      'u' :: ("rn:li:".toList ++ entityType.toList ++ ':' :: init ++ [last]) := by
    simp [split]
  have kept : trim (("urn:li:" ++ entityType ++ ":" ++ key).toList) =
      ("urn:li:" ++ entityType ++ ":" ++ key).toList := by
    rw [whole, trim_cons, if_neg (by decide), trimEnd_append_of_not_blank _ visible]
  rw [Text.trimmed, kept, String.ofList_toList]

variable {raw : String} {urn : Urn}

/-- A URN is spelled from its entity type and its key, and in no other way. -/
lemma spells_text_iff {entityType key : String} :
    Spells urn.text entityType key ↔ entityType = urn.entityType ∧ key = urn.key := by
  obtain ⟨parts, found⟩ := Option.isSome_iff_exists.mp urn.wellFormed
  have kind : urn.entityType = String.ofList parts.1 := by simp [Urn.entityType, found]
  have rest : urn.key = String.ofList parts.2 := by simp [Urn.key, found]
  rw [spells_iff, found, kind, rest, Option.some.injEq, Prod.ext_iff, ← String.toList_inj,
    ← String.toList_inj, String.toList_ofList, String.toList_ofList, eq_comm, @eq_comm _ parts.2]

lemma isValid_iff_spells : isValid raw = true ↔
    ∃ entityType key, Spells (trimmed raw) entityType key := by
  simp only [isValid, Option.isSome_iff_exists, spells_iff]
  constructor
  · rintro ⟨⟨kind, rest⟩, found⟩
    exact ⟨String.ofList kind, String.ofList rest, by simpa using found⟩
  · rintro ⟨entityType, key, found⟩
    exact ⟨_, found⟩

lemma Spells.isValid {text entityType key : String} (spells : Spells text entityType key)
    (ends : ∀ c ∈ key.toList.getLast?, isBlank c = false) : isValid text = true := by
  rw [isValid_iff_spells, spells.trimmed ends]
  exact ⟨entityType, key, spells⟩

/-- A text that is put together from an entity type and a key is a URN exactly if the key is one
without the blanks behind it. -/
lemma isValid_iff_isKey {raw entityType key : String} (isType : IsEntityType entityType.toList)
    (whole : raw = "urn:li:" ++ entityType ++ ":" ++ key) :
    isValid raw = true ↔ IsKey (trimEnd key.toList) := by
  have front : trimStart ("urn:li:" ++ entityType).toList = ("urn:li:" ++ entityType).toList := by
    rw [String.toList_append]
    exact trimStart_eq_self fun c hc => by cases hc; decide
  have split : raw.toList = ("urn:li:" ++ entityType).toList ++ ':' :: key.toList := by
    simp [whole]
  have trimmedText : (trimmed raw).toList =
      "urn:li:".toList ++ (entityType.toList ++ ':' :: trimEnd key.toList) := by
    rw [trimmed, String.toList_ofList, split, trim_append_cons _ (by decide), front,
      String.toList_append, List.append_assoc]
  have colonless {kind : List Char} (kindIsType : IsEntityType kind) :
      ∀ c ∈ kind, (c == ':') = false := by
    refine beq_eq_false_of_notMem fun mem => ?_
    have letter := kindIsType.letterOrDigit ':' mem
    revert letter
    decide
  rw [isValid, Option.isSome_iff_exists]
  constructor
  · rintro ⟨⟨kind, rest⟩, found⟩
    obtain ⟨tail, start, parts⟩ := parts?_eq_some_iff.mp found
    obtain ⟨rfl, kindIsType, isKey⟩ := typeAndKey?_eq_some_iff.mp parts
    rw [trimmedText, List.append_cancel_left_eq] at start
    have cut := cutAt_append_cons (colonless isType) (beq_self_eq_true ':') (trimEnd key.toList)
    rw [start, cutAt_append_cons (colonless kindIsType) (beq_self_eq_true ':')] at cut
    rw [← Option.some.inj (Prod.ext_iff.mp cut).2]
    exact isKey
  · intro isKey
    refine ⟨(entityType.toList, trimEnd key.toList), parts?_eq_some_iff.mpr ⟨_, trimmedText, ?_⟩⟩
    exact typeAndKey?_eq_some_iff.mpr ⟨rfl, isType, isKey⟩

/-- A text is read as the URN that it is without the blanks around it. -/
lemma parse?_eq_some_iff : parse? raw = some urn ↔ urn.text = trimmed raw := by
  constructor
  · intro read
    unfold parse? at read
    split at read
    · cases read
      rfl
    · cases read
  · intro same
    have valid : (parts? (trimmed raw).toList).isSome = true := same ▸ urn.wellFormed
    rw [parse?, dif_pos valid, Option.some.injEq]
    exact text_injective same.symm

lemma parse_eq_ok_iff : parse raw = .ok urn ↔ urn.text = trimmed raw := by
  rw [← parse?_eq_some_iff, parse]
  cases parse? raw <;> simp

lemma trimmed_text (read : parse raw = .ok urn) : trimmed urn.text = urn.text := by
  rw [parse_eq_ok_iff.mp read, trimmed, trimmed, String.toList_ofList, trim_trim]

end LakeCatalog.Urn
