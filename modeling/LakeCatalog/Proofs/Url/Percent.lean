import LakeCatalog.Url.Host
import Mathlib.Tactic.Common

/-!
# Texts that are already encoded

What encoding writes is itself never encoded: a percent sign and digits stay as they are in every
component. So an encoded text holds no character of its set, and encoding it again changes nothing.
Decoding a text without a percent sign gives the text back.
-/

namespace LakeCatalog.Url

open Text

/-- A printable ASCII character other than the space. -/
def IsVisible (c : Char) : Prop := 0x20 < c.toNat ∧ c.toNat < 0x7F

instance (c : Char) : Decidable (IsVisible c) := inferInstanceAs (Decidable (_ ∧ _))

/-- A property of the characters of a list, checked one by one. -/
lemma forall_mem_of_all {P : Char → Prop} [DecidablePred P] {cs : List Char}
    (all : cs.all (P ·) = true) : ∀ c ∈ cs, P c := fun c hc =>
  of_decide_eq_true (List.all_eq_true.mp all c hc)

/-- A property of digits, checked one by one. -/
lemma of_isDigit {P : Char → Prop} (digits : ∀ n < 58, 48 ≤ n → P (Char.ofNat n)) {c : Char}
    (digit : isDigit c = true) : P c := by
  simp only [isDigit, Bool.and_eq_true, decide_eq_true_eq, Char.le_def] at digit
  rw [← Char.ofNat_toNat c]
  exact digits _ (Nat.lt_succ_of_le digit.2) digit.1

def Avoids (set : EncodeSet) (cs : List Char) : Prop := ∀ c ∈ cs, set c = false

instance (set : EncodeSet) (cs : List Char) : Decidable (Avoids set cs) :=
  List.decidableBAll (fun c : Char => set c = false) cs

/-- A set that leaves percent signs and digits as they are and nothing that cannot be seen. -/
structure EncodeSet.IsSound (set : EncodeSet) : Prop where
  percent : set '%' = false
  digit : ∀ d < 16, set (hexDigit d).toUpper = false
  visible : ∀ c, set c = false → IsVisible c

lemma isVisible_of_controlSet {c : Char} (kept : controlSet c = false) (noSpace : c ≠ ' ') :
    IsVisible c := by
  have other : c.toNat ≠ 0x20 := fun same => noSpace (Char.toNat_inj.mp same)
  simp only [controlSet, Bool.or_eq_false_iff, decide_eq_false_iff_not] at kept
  constructor <;> omega

lemma fragmentSet_isSound : EncodeSet.IsSound fragmentSet where
  percent := by decide
  digit := by decide
  visible c kept := by
    simp only [fragmentSet, Bool.or_eq_false_iff] at kept
    refine isVisible_of_controlSet kept.1 ?_
    rintro rfl
    exact absurd kept.2 (by decide)

lemma querySet_isSound : EncodeSet.IsSound querySet where
  percent := by decide
  digit := by decide
  visible c kept := by
    simp only [querySet, Bool.or_eq_false_iff] at kept
    refine isVisible_of_controlSet kept.1 ?_
    rintro rfl
    exact absurd kept.2 (by decide)

lemma pathSet_isSound : EncodeSet.IsSound pathSet where
  percent := by decide
  digit := by decide
  visible c kept := by
    simp only [pathSet, Bool.or_eq_false_iff] at kept
    exact fragmentSet_isSound.visible c kept.1

lemma userinfoSet_isSound : EncodeSet.IsSound userinfoSet where
  percent := by decide
  digit := by decide
  visible c kept := by
    simp only [userinfoSet, Bool.or_eq_false_iff] at kept
    exact pathSet_isSound.visible c kept.1

/-- What encoding writes is taken from the text or spells a byte. -/
lemma of_mem_percentEncode {set : EncodeSet} {cs : List Char} {c : Char}
    (h : c ∈ percentEncode set cs) :
    (c ∈ cs ∧ set c = false) ∨ c = '%' ∨ ∃ d < 16, c = (hexDigit d).toUpper := by
  obtain ⟨d, hd, hc⟩ := List.mem_flatMap.mp h
  by_cases encoded : set d = true
  · rw [if_pos encoded] at hc
    obtain ⟨b, -, hc⟩ := List.mem_flatMap.mp hc
    right
    rcases List.mem_cons.mp hc with percent | hc
    · exact .inl percent
    · obtain ⟨digit, hdigit, rfl⟩ := List.mem_map.mp hc
      rcases List.mem_cons.mp hdigit with rfl | hdigit
      · exact .inr ⟨_, Nat.div_lt_of_lt_mul b.toNat_lt, rfl⟩
      · rw [List.mem_singleton.mp hdigit]
        exact .inr ⟨_, Nat.mod_lt _ (by decide), rfl⟩
  · rw [if_neg encoded] at hc
    left
    rw [List.mem_singleton.mp hc]
    exact ⟨hd, Bool.eq_false_iff.mpr encoded⟩

lemma avoids_percentEncode {set : EncodeSet} (sound : set.IsSound) (cs : List Char) :
    Avoids set (percentEncode set cs) := by
  intro c mem
  rcases of_mem_percentEncode mem with ⟨-, kept⟩ | rfl | ⟨d, hd, rfl⟩
  · exact kept
  · exact sound.percent
  · exact sound.digit d hd

lemma percentEncode_ne_nil {set : EncodeSet} {cs : List Char} (filled : cs ≠ []) :
    percentEncode set cs ≠ [] := by
  cases cs with
  | nil => exact absurd rfl filled
  | cons c rest =>
    rw [percentEncode, List.flatMap_cons]
    refine List.append_ne_nil_of_left_ne_nil ?_ _
    split
    · obtain ⟨b, bytes, same⟩ := List.exists_cons_of_ne_nil (String.utf8EncodeChar_ne_nil (c := c))
      rw [same]
      exact List.cons_ne_nil _ _
    · exact List.cons_ne_nil _ _

/-- A text that is encoded already stays as it is. -/
lemma percentEncode_of_avoids {set : EncodeSet} {cs : List Char} (avoids : Avoids set cs) :
    percentEncode set cs = cs := by
  induction cs with
  | nil => rfl
  | cons c cs ih =>
    obtain ⟨first, others⟩ := List.forall_mem_cons.mp avoids
    have kept := ih others
    rw [percentEncode] at kept ⊢
    rw [List.flatMap_cons, kept, first]
    rfl

lemma percentDecode_of_notMem {cs : List Char} (plain : '%' ∉ cs) :
    percentDecode cs = cs.flatMap String.utf8EncodeChar := by
  induction cs with
  | nil => rfl
  | cons c cs ih =>
    rw [List.mem_cons, not_or] at plain
    conv_lhs => unfold percentDecode
    split
    · rename_i nothing
      cases nothing
    · rename_i a b rest same
      exact absurd (List.cons.inj same).1.symm plain.1
    · rename_i d rest _ same
      cases same
      rw [ih plain.2, List.flatMap_cons]

/-- A text without a percent sign is what its bytes spell. -/
lemma decodeUtf8?_percentDecode {cs : List Char} (plain : '%' ∉ cs) :
    decodeUtf8? (percentDecode cs) = some cs := by
  have bytes : (⟨(cs.flatMap String.utf8EncodeChar).toArray⟩ : ByteArray) = cs.utf8Encode :=
    ByteArray.ext List.data_toByteArray.symm
  have valid : ByteArray.IsValidUTF8 cs.utf8Encode := .intro cs rfl
  have text : String.fromUTF8 cs.utf8Encode valid = String.ofList cs := rfl
  rw [decodeUtf8?, percentDecode_of_notMem plain, bytes, String.fromUTF8?, dif_pos valid,
    Option.map_some, text, String.toList_ofList]

end LakeCatalog.Url
