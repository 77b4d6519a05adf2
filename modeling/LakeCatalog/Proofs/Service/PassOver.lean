import LakeCatalog.Service.BodyText
import Mathlib.Data.List.DropRight

/-!
# Values that are passed over

What has been read of a text is never empty, so what is left of it is shorter. The values that do
not matter are passed by a machine with a stack; what its stack still demands of a text is written
down, so that every run of the machine has a reading of the text behind it, and the machine is quick
enough for every value.
-/

namespace LakeCatalog.Service

open Json

lemma skipGap_skipGap (cs : List Char) : skipGap (skipGap cs) = skipGap cs :=
  List.dropWhile_idempotent isGap cs

lemma length_skipGap_le (cs : List Char) : (skipGap cs).length ≤ cs.length :=
  List.length_dropWhile_le ..

lemma length_of_skipGap {cs rest : List Char} {c : Char} (h : skipGap cs = c :: rest) :
    rest.length < cs.length := by
  have short := length_skipGap_le cs
  rw [h, List.length_cons] at short
  omega

lemma length_of_quotedParts? {cs rest : List Char} {parts : List QuotedPart}
    (h : quotedParts? cs = some (parts, rest)) : rest.length < cs.length := by
  induction cs using quotedParts?.induct generalizing parts with
  | case1 => simp [quotedParts?] at h
  | case2 a b c d cs ih =>
    simp only [quotedParts?, Option.bind_eq_bind, Option.bind_eq_some_iff] at h
    obtain ⟨n, -, read, inner, ⟨⟩⟩ := h
    have short := ih inner
    simp only [List.length_cons]
    omega
  | case3 e cs apart ih =>
    simp only [quotedParts?, Option.bind_eq_bind, Option.bind_eq_some_iff] at h
    obtain ⟨c, -, read, inner, ⟨⟩⟩ := h
    have short := ih inner
    simp only [List.length_cons]
    omega
  | case4 cs =>
    simp only [quotedParts?, if_true] at h
    cases h
    exact Nat.lt_succ_self _
  | case5 c cs unit letter other bad =>
    rw [quotedParts?.eq_4 c cs unit letter, if_neg other, if_pos bad] at h
    cases h
  | case6 c cs unit letter other good ih =>
    rw [quotedParts?.eq_4 c cs unit letter, if_neg other, if_neg good] at h
    simp only [Option.bind_eq_bind, Option.bind_eq_some_iff] at h
    obtain ⟨read, inner, ⟨⟩⟩ := h
    have short := ih inner
    simp only [List.length_cons]
    omega

lemma length_of_readQuoted? {cs rest : List Char} {s : String}
    (h : readQuoted? cs = some (s, rest)) : rest.length < cs.length := by
  simp only [readQuoted?, Option.bind_eq_bind, Option.bind_eq_some_iff] at h
  obtain ⟨⟨parts, after⟩, read, text, -, same⟩ := h
  obtain ⟨-, rfl⟩ := Prod.mk.inj (Option.some.inj same)
  exact length_of_quotedParts? read

lemma StringText.length_lt {cs rest : List Char} {s : String} (h : StringText cs s rest) :
    rest.length < cs.length := by
  obtain ⟨inner, opened, read⟩ := h
  have outer := length_of_skipGap opened
  have short := length_of_readQuoted? read
  omega

lemma Named.length_lt {cs rest : List Char} {name : String} (h : Named cs name rest) :
    rest.length < cs.length := by
  obtain ⟨after, text, colon⟩ := h
  have outer := text.length_lt
  have short := length_of_skipGap colon
  omega

lemma Separated.length_le {first : Bool} {cs rest : List Char} (h : Separated first cs rest) :
    rest.length ≤ cs.length := by
  cases first with
  | true => exact Nat.le_of_eq (congrArg List.length h)
  | false => exact Nat.le_of_lt (length_of_skipGap h)

lemma length_of_digits? {cs ds rest : List Char} (h : digits? cs = some (ds, rest)) :
    rest.length < cs.length := by
  have whole := congrArg List.length (List.takeWhile_append_dropWhile (p := Text.isDigit) (l := cs))
  rw [List.length_append] at whole
  unfold digits? at h
  split at h
  · cases h
  · rename_i some_digit
    cases h
    have filled := List.length_pos_iff.mpr some_digit
    omega

lemma length_of_wholeDigits? {cs ds rest : List Char} (h : wholeDigits? cs = some (ds, rest)) :
    rest.length < cs.length := by
  simp only [wholeDigits?, Option.bind_eq_bind, Option.bind_eq_some_iff] at h
  obtain ⟨read, digits, same⟩ := h
  split at same
  · cases same
  · cases same
    exact length_of_digits? digits

lemma length_of_fraction? {cs rest : List Char} {ds : Option (List Char)}
    (h : fraction? cs = some (ds, rest)) : rest.length ≤ cs.length := by
  unfold fraction? at h
  split at h
  · obtain ⟨read, digits, ⟨⟩⟩ := Option.map_eq_some_iff.mp h
    exact Nat.le_of_lt (Nat.lt_succ_of_lt (length_of_digits? digits))
  · cases h
    exact Nat.le_refl _

lemma length_exponentSign_le (cs : List Char) : (exponentSign cs).2.length ≤ cs.length := by
  unfold exponentSign
  split <;> simp

lemma length_of_exponent? {cs rest : List Char} {e : Option (Bool × List Char)}
    (h : exponent? cs = some (e, rest)) : rest.length ≤ cs.length := by
  unfold exponent? at h
  split at h
  · cases h
    exact Nat.le_refl _
  · rename_i c cs
    split at h
    · obtain ⟨read, digits, same⟩ := Option.map_eq_some_iff.mp h
      obtain ⟨-, rfl⟩ := Prod.mk.inj same
      have short : read.2.length < (exponentSign cs).2.length := length_of_digits? digits
      have sign := length_exponentSign_le cs
      simp only [List.length_cons]
      omega
    · cases h
      exact Nat.le_refl _

lemma length_of_numberParts? {cs rest : List Char} {parts : NumberParts}
    (h : numberParts? cs = some (parts, rest)) : rest.length < cs.length := by
  simp only [numberParts?, Option.bind_eq_bind, Option.bind_eq_some_iff] at h
  obtain ⟨whole, hwhole, fraction, hfraction, exponent, hexponent, ⟨⟩⟩ := h
  have first := length_of_wholeDigits? hwhole
  have second := length_of_fraction? hfraction
  have third := length_of_exponent? hexponent
  split at first
  · dsimp only [List.length_cons] at first ⊢
    omega
  · dsimp only at first
    omega

lemma length_of_passScalar? {cs rest : List Char} (h : passScalar? cs = some rest) :
    rest.length < cs.length := by
  unfold passScalar? at h
  split at h
  · cases h
    simp only [List.length_cons]
    omega
  · cases h
    simp only [List.length_cons]
    omega
  · cases h
    simp only [List.length_cons]
    omega
  · obtain ⟨⟨parts, after⟩, read, rfl⟩ := Option.map_eq_some_iff.mp h
    exact Nat.lt_succ_of_lt (length_of_quotedParts? read)
  · obtain ⟨⟨parts, after⟩, read, rfl⟩ := Option.map_eq_some_iff.mp h
    exact length_of_numberParts? read

lemma length_of_passName? {cs rest : List Char} (h : passName? cs = some rest) :
    rest.length < cs.length := by
  unfold passName? at h
  split at h
  · rename_i inner opened
    simp only [Option.bind_eq_bind, Option.bind_eq_some_iff] at h
    obtain ⟨read, name, colon⟩ := h
    split at colon
    · rename_i after found
      cases colon
      have outer := length_of_skipGap opened
      have named := length_of_quotedParts? name
      have last := length_of_skipGap found
      omega
    · cases colon
  · cases h

lemma Passes.of_skipGap {cs rest : List Char} (h : Passes .value (skipGap cs) rest) :
    Passes .value cs rest := by
  cases h with
  | scalar passed => exact .scalar (skipGap_skipGap cs ▸ passed)
  | array opened items => exact .array (skipGap_skipGap cs ▸ opened) items
  | object opened members => exact .object (skipGap_skipGap cs ▸ opened) members

lemma passName?_skipGap (cs : List Char) : passName? (skipGap cs) = passName? cs := by
  rw [passName?, passName?, skipGap_skipGap]

/-- What the open arrays and objects still demand of a text. -/
inductive Closes : List Frame → List Char → List Char → Prop where
  | done (cs : List Char) : Closes [] cs cs
  | array {frames : List Frame} {cs after rest : List Char} (items : Passes (.items false) cs after)
      (more : Closes frames after rest) : Closes (.array :: frames) cs rest
  | object {frames : List Frame} {cs after rest : List Char}
      (members : Passes (.members false) cs after) (more : Closes frames after rest) :
      Closes (.object :: frames) cs rest

/-- What is demanded of a text where a value, or more of what is open, is expected. -/
def Demanded : Expected → List Frame → List Char → List Char → Prop
  | .value, frames, cs, rest => ∃ after, Passes .value cs after ∧ Closes frames after rest
  | .more _, [], cs, rest => rest = cs
  | .more first, .array :: frames, cs, rest =>
    ∃ after, Passes (.items first) cs after ∧ Closes frames after rest
  | .more first, .object :: frames, cs, rest =>
    ∃ after, Passes (.members first) cs after ∧ Closes frames after rest

lemma Closes.of_demanded {frames : List Frame} {cs rest : List Char}
    (h : Demanded (.more false) frames cs rest) : Closes frames cs rest := by
  match frames, h with
  | [], same => exact same ▸ .done cs
  | .array :: _, ⟨_, items, more⟩ => exact .array items more
  | .object :: _, ⟨_, members, more⟩ => exact .object members more

/-- A text that the machine passes is one that is demanded. -/
lemma demanded_of_passValue? {fuel : Nat} {expected : Expected} {frames : List Frame}
    {cs rest : List Char} (h : passValue? fuel expected frames cs = some rest) :
    Demanded expected frames cs rest := by
  induction fuel generalizing expected frames cs with
  | zero => simp [passValue?] at h
  | succ fuel ih =>
    cases expected with
    | value =>
      rw [passValue?] at h
      split at h
      · rename_i inner opened
        obtain ⟨after, items, more⟩ := ih h
        exact ⟨after, .array opened items, more⟩
      · rename_i inner opened
        obtain ⟨after, members, more⟩ := ih h
        exact ⟨after, .object opened members, more⟩
      · simp only [Option.bind_eq_bind, Option.bind_eq_some_iff] at h
        obtain ⟨after, passed, more⟩ := h
        exact ⟨after, .scalar passed, .of_demanded (ih more)⟩
    | more first =>
      cases frames with
      | nil =>
        rw [passValue?] at h
        exact (Option.some.inj h).symm
      | cons frame frames =>
        cases frame with
        | array =>
          rw [passValue?] at h
          split at h
          · rename_i after closed
            exact ⟨after, .noItem closed, .of_demanded (ih h)⟩
          · rename_i inner comma
            cases first with
            | true => cases h
            | false =>
              obtain ⟨_, value, closes⟩ := ih h
              cases closes with
              | array items more => exact ⟨_, .item comma value items, more⟩
          · cases first with
            | false => cases h
            | true =>
              obtain ⟨_, value, closes⟩ := ih h
              cases closes with
              | array items more => exact ⟨_, .item rfl value.of_skipGap items, more⟩
        | object =>
          rw [passValue?] at h
          split at h
          · rename_i after closed
            exact ⟨after, .noMember closed, .of_demanded (ih h)⟩
          · rename_i inner comma
            cases first with
            | true => cases h
            | false =>
              obtain ⟨named, name, h⟩ := Option.bind_eq_some_iff.mp h
              obtain ⟨_, value, closes⟩ := ih h
              cases closes with
              | object members more => exact ⟨_, .member comma name value members, more⟩
          · cases first with
            | false => cases h
            | true =>
              obtain ⟨named, name, h⟩ := Option.bind_eq_some_iff.mp h
              rw [passName?_skipGap] at name
              obtain ⟨_, value, closes⟩ := ih h
              cases closes with
              | object members more => exact ⟨_, .member rfl name value members, more⟩

def Part.expected (frames : List Frame) : Part → Expected × List Frame
  | .value => (.value, frames)
  | .items first => (.more first, .array :: frames)
  | .members first => (.more first, .object :: frames)

lemma passValue?_skipGap (fuel : Nat) (frames : List Frame) (cs : List Char) :
    passValue? fuel .value frames (skipGap cs) = passValue? fuel .value frames cs := by
  cases fuel with
  | zero => rfl
  | succ fuel => rw [passValue?, passValue?, skipGap_skipGap]

/-- A value does not begin with what ends an item or an array. -/
lemma Passes.not_ended {cs rest inner : List Char} {c : Char} (h : Passes .value cs rest)
    (ending : c = ']' ∨ c = ',') : skipGap cs ≠ c :: inner := by
  intro begins
  cases h with
  | scalar passed =>
    rw [begins] at passed
    rcases ending with rfl | rfl <;> cases passed
  | array opened items =>
    rw [begins] at opened
    rcases ending with rfl | rfl <;> cases opened
  | object opened members =>
    rw [begins] at opened
    rcases ending with rfl | rfl <;> cases opened

/-- Before an item the machine goes on to its value, in the array that is open. -/
lemma passValue?_item {first : Bool} {cs inner after : List Char} {fuel : Nat}
    {frames : List Frame} (separated : Separated first cs inner)
    (value : Passes .value inner after) :
    passValue? (fuel + 1) (.more first) (.array :: frames) cs =
      passValue? fuel .value (.array :: frames) inner := by
  rw [passValue?]
  cases first with
  | false =>
    have comma : skipGap cs = ',' :: inner := separated
    simp only [comma]
    rfl
  | true =>
    obtain rfl : inner = cs := separated
    split
    · rename_i closed
      exact absurd closed (value.not_ended (Or.inl rfl))
    · rename_i comma
      exact absurd comma (value.not_ended (Or.inr rfl))
    · exact passValue?_skipGap ..

/-- Before a member the machine passes its name and goes on to its value. -/
lemma passValue?_member {first : Bool} {cs inner named : List Char} {fuel : Nat}
    {frames : List Frame} (separated : Separated first cs inner)
    (name : passName? inner = some named) :
    passValue? (fuel + 1) (.more first) (.object :: frames) cs =
      passValue? fuel .value (.object :: frames) named := by
  rw [passValue?]
  cases first with
  | false =>
    have comma : skipGap cs = ',' :: inner := separated
    simp only [comma]
    rw [name]
    rfl
  | true =>
    obtain rfl : inner = cs := separated
    split
    · rename_i closed
      rw [passName?, closed] at name
      cases name
    · rename_i comma
      rw [passName?, comma] at name
      cases name
    · rw [passName?_skipGap, name]
      rfl

/-- A part of a value is passed in less than two steps for each of its characters. -/
lemma Passes.steps {part : Part} {cs rest : List Char} (h : Passes part cs rest) :
    ∃ n, n + 2 * rest.length + 1 ≤ 2 * cs.length ∧ ∀ fuel frames,
      passValue? (fuel + n) (part.expected frames).1 (part.expected frames).2 cs =
        passValue? fuel (.more false) frames rest := by
  induction h with
  | @scalar cs rest passed =>
    have short := length_of_passScalar? passed
    have gap := length_skipGap_le cs
    refine ⟨1, by omega, fun fuel frames => ?_⟩
    rw [Part.expected, passValue?]
    split
    · rename_i inner opened
      rw [opened] at passed
      cases passed
    · rename_i inner opened
      rw [opened] at passed
      cases passed
    · rw [passed]
      rfl
  | array opened items ih =>
    obtain ⟨n, bound, steps⟩ := ih
    have short := length_of_skipGap opened
    refine ⟨n + 1, by omega, fun fuel frames => ?_⟩
    rw [Part.expected, ← Nat.add_assoc, passValue?]
    simp only [opened]
    exact steps fuel frames
  | object opened members ih =>
    obtain ⟨n, bound, steps⟩ := ih
    have short := length_of_skipGap opened
    refine ⟨n + 1, by omega, fun fuel frames => ?_⟩
    rw [Part.expected, ← Nat.add_assoc, passValue?]
    simp only [opened]
    exact steps fuel frames
  | noItem closed | noMember closed =>
    have short := length_of_skipGap closed
    refine ⟨1, by omega, fun fuel frames => ?_⟩
    rw [Part.expected, passValue?]
    simp only [closed]
  | @item first cs inner after rest separated value more ihValue ihMore =>
    obtain ⟨n, bound, steps⟩ := ihValue
    obtain ⟨m, bound', steps'⟩ := ihMore
    have short := separated.length_le
    refine ⟨m + n + 1, by omega, fun fuel frames => ?_⟩
    have through := (steps (fuel + m) (.array :: frames)).trans (steps' fuel frames)
    rw [← through, ← Nat.add_assoc, ← Nat.add_assoc]
    exact passValue?_item separated value
  | @member first cs inner named after rest separated name value more ihValue ihMore =>
    obtain ⟨n, bound, steps⟩ := ihValue
    obtain ⟨m, bound', steps'⟩ := ihMore
    have short := separated.length_le
    have shorter := length_of_passName? name
    refine ⟨m + n + 1, by omega, fun fuel frames => ?_⟩
    have through := (steps (fuel + m) (.object :: frames)).trans (steps' fuel frames)
    rw [← through, ← Nat.add_assoc, ← Nat.add_assoc]
    exact passValue?_member separated name

/-- A value that does not matter is passed over. -/
lemma passOver_eq_ok_iff {cs rest : List Char} :
    passOver cs = .ok rest ↔ Passes .value cs rest := by
  constructor
  · intro h
    unfold passOver wellFormed at h
    split at h
    · cases h
      rename_i passed
      obtain ⟨after, value, closes⟩ := demanded_of_passValue? passed
      cases closes
      exact value
    · cases h
  · intro h
    obtain ⟨n, bound, steps⟩ := h.steps
    obtain ⟨fuel, enough⟩ : ∃ fuel, 2 * cs.length + 3 = fuel + 1 + n :=
      ⟨2 * cs.length + 2 - n, by omega⟩
    have passed := steps (fuel + 1) []
    dsimp only [Part.expected] at passed
    rw [passOver, enough, passed]
    rfl

lemma Passes.length_lt {cs rest : List Char} (h : Passes .value cs rest) :
    rest.length < cs.length := by
  obtain ⟨n, bound, -⟩ := h.steps
  omega

end LakeCatalog.Service
