import LakeCatalog.Proofs.Json.Scalar

/-!
# Reading back a value

The compact text of a value is read as that value, with the members of its objects in ascending
order. Between two values stand a comma and nothing else, so no number goes on there, and the first
character of a value says of what kind it is.
-/

namespace LakeCatalog.Json

open Text

lemma itemTexts_eq_map (items : List Json) : itemTexts items = items.map text := by
  induction items with
  | nil => rfl
  | cons item rest ih => rw [itemTexts, ih, List.map_cons]

def memberText (m : String × Json) : List Char := quoted m.1 ++ ':' :: text m.2

lemma memberTexts_eq_map (members : List (String × Json)) :
    memberTexts members = members.map memberText := by
  induction members with
  | nil => rfl
  | cons m rest ih => rw [memberTexts, ih, List.map_cons, memberText]

lemma skipGap_cons {c : Char} (token : isGap c = false) (rest : List Char) :
    skipGap (c :: rest) = c :: rest := by
  simp [skipGap, token]

lemma endsNumber_cons {c : Char} (token : c = ',' ∨ c = ']' ∨ c = '}') (rest : List Char) :
    EndsNumber (c :: rest) := by
  intro d hd
  cases hd
  rcases token with rfl | rfl | rfl <;> decide

lemma length_le_length_joined (between : List Char) {texts : List (List Char)}
    (filled : ∀ t ∈ texts, t ≠ []) : texts.length ≤ (joined between texts).length := by
  induction texts with
  | nil => exact Nat.zero_le _
  | cons t more ih =>
    obtain ⟨first, others⟩ := List.forall_mem_cons.mp filled
    have positive : 0 < t.length := List.length_pos_iff.mpr first
    have later := ih others
    cases more with
    | nil => exact positive
    | cons u more =>
      rw [joined_cons_cons, List.length_append, List.length_append, List.length_cons]
      omega

lemma length_le_of_mem_joined (between : List Char) {t : List Char} {texts : List (List Char)}
    (mem : t ∈ texts) : t.length ≤ (Text.joined between texts).length := by
  induction texts with
  | nil => cases mem
  | cons first more ih =>
    cases more with
    | nil => exact Nat.le_of_eq (congrArg _ (List.mem_singleton.mp mem))
    | cons next more =>
      rw [Text.joined_cons_cons, List.length_append, List.length_append]
      rcases List.mem_cons.mp mem with rfl | mem
      · omega
      · have := ih mem
        omega

lemma exists_text_number {n : Number} (whole : n.IsWhole) :
    ∃ c rest, n.text = c :: rest ∧ (c = '-' ∨ isDigit c = true) := by
  cases n with
  | double x => exact whole.elim
  | integer n =>
    by_cases negative : n < 0
    · exact ⟨'-', decimalDigits n.natAbs, by simp [Number.text, negative], .inl rfl⟩
    · cases digits : decimalDigits n.natAbs with
      | nil => exact absurd digits Nat.toDigits_ne_nil
      | cons d ds =>
        have digit : isDigit d = true := isDigit_of_mem_decimalDigits (digits ▸ List.mem_cons_self)
        exact ⟨d, ds, by simp [Number.text, negative, digits], .inr digit⟩

lemma ne_of_startsNumber {c d : Char} (start : c = '-' ∨ isDigit c = true)
    (other : ¬ (d = '-' ∨ isDigit d = true)) : c ≠ d := by
  rintro rfl
  exact other start

lemma isGap_of_startsNumber {c : Char} (start : c = '-' ∨ isDigit c = true) :
    isGap c = false := by
  have other (d : Char) := ne_of_startsNumber (d := d) start
  simp [isGap, other ' ' (by decide), other '\t' (by decide), other '\n' (by decide),
    other '\r' (by decide)]

/-- A value begins with a character that is no gap and closes nothing. -/
lemma exists_text_cons {depth : Nat} {j : Json} (fits : Fits depth j) :
    ∃ c rest, text j = c :: rest ∧ isGap c = false ∧ c ≠ ']' := by
  cases j with
  | null => exact ⟨_, _, rfl, by decide⟩
  | bool b => cases b <;> exact ⟨_, _, rfl, by decide⟩
  | string s => exact ⟨'"', _, rfl, by decide⟩
  | array items => exact ⟨'[', _, rfl, by decide⟩
  | object members => exact ⟨'{', _, rfl, by decide⟩
  | number n =>
    have whole : n.IsWhole := by cases depth <;> exact fits
    obtain ⟨c, rest, written, start⟩ := exists_text_number whole
    exact ⟨c, rest, written, isGap_of_startsNumber start, ne_of_startsNumber start (by decide)⟩

lemma readScalar?_number {n : Number} (whole : n.IsWhole) {rest : List Char}
    (ends : EndsNumber rest) : readScalar? (n.text ++ rest) = some (.number n, rest) := by
  have number := readNumber?_text ends whole
  obtain ⟨c, more, written, start⟩ := exists_text_number whole
  rw [written] at number ⊢
  unfold readScalar?
  -- Neither the sign nor a digit begins a word or a string.
  split
  any_goals
    rename_i same
    obtain ⟨rfl, -⟩ := List.cons.inj same
    exact absurd start (by decide)
  rw [number]
  rfl

lemma readValue?_of_ne {depth : Nat} {c : Char} {rest : List Char} (token : isGap c = false)
    (item : c ≠ '[') (member : c ≠ '{') :
    readValue? depth (c :: rest) = readScalar? (c :: rest) := by
  cases depth <;> simp [readValue?, skipGap_cons token, item, member]

section

variable {item : List Char → Option (Json × List Char)} (fuel : Nat) (rest : List Char)

lemma readItems?_joined {items : List Json} (filled : items ≠ [])
    (each : ∀ j ∈ items, ∀ rest, EndsNumber rest → item (text j ++ rest) = some (ordered j, rest))
    (enough : items.length ≤ fuel) :
    readItems? item fuel (joined [','] (items.map text) ++ ']' :: rest) =
      some (items.map ordered, rest) := by
  induction items generalizing fuel with
  | nil => exact absurd rfl filled
  | cons j more ih =>
    obtain ⟨first, others⟩ := List.forall_mem_cons.mp each
    cases fuel with
    | zero => simp at enough
    | succ fuel =>
      cases more with
      | nil =>
        have read := first (']' :: rest) (endsNumber_cons (by simp) rest)
        simp [joined, readItems?, read, skipGap_cons (show isGap ']' = false by decide)]
      | cons k more =>
        have later := ih fuel (List.cons_ne_nil _ _) others (by simpa using enough)
        have read := first (',' :: (joined [','] ((k :: more).map text) ++ ']' :: rest))
          (endsNumber_cons (by simp) _)
        have regroup : joined [','] ((j :: k :: more).map text) ++ ']' :: rest =
            text j ++ ',' :: (joined [','] ((k :: more).map text) ++ ']' :: rest) := by
          simp [joined]
        rw [regroup]
        simp only [readItems?, read, Option.bind_eq_bind, Option.bind_some,
          skipGap_cons (show isGap ',' = false by decide), later]
        rfl

lemma readMember?_text {m : String × Json} {rest : List Char}
    (value : ∀ rest, EndsNumber rest → item (text m.2 ++ rest) = some (ordered m.2, rest))
    (ends : EndsNumber rest) :
    readMember? item (memberText m ++ rest) = some ((m.1, ordered m.2), rest) := by
  have regroup : memberText m ++ rest =
      '"' :: (m.1.toList.flatMap escaped ++ '"' :: (':' :: (text m.2 ++ rest))) := by
    simp [memberText, quoted]
  rw [regroup, readMember?, skipGap_cons (by decide)]
  simp only [readQuoted?_quoted, Option.bind_eq_bind, Option.bind_some,
    skipGap_cons (show isGap ':' = false by decide), value rest ends]

lemma readMembers?_joined {members : List (String × Json)} (filled : members ≠ [])
    (each : ∀ m ∈ members, ∀ rest, EndsNumber rest →
      item (text m.2 ++ rest) = some (ordered m.2, rest))
    (enough : members.length ≤ fuel) :
    readMembers? item fuel (joined [','] (members.map memberText) ++ '}' :: rest) =
      some (members.map fun m => (m.1, ordered m.2), rest) := by
  induction members generalizing fuel with
  | nil => exact absurd rfl filled
  | cons m more ih =>
    obtain ⟨first, others⟩ := List.forall_mem_cons.mp each
    cases fuel with
    | zero => simp at enough
    | succ fuel =>
      cases more with
      | nil =>
        have read := readMember?_text first (@endsNumber_cons '}' (by simp) rest)
        simp [joined, readMembers?, read, skipGap_cons (show isGap '}' = false by decide)]
      | cons k more =>
        have later := ih fuel (List.cons_ne_nil _ _) others (by simpa using enough)
        have read := readMember?_text first (@endsNumber_cons ',' (by simp)
          (joined [','] ((k :: more).map memberText) ++ '}' :: rest))
        have regroup : joined [','] ((m :: k :: more).map memberText) ++ '}' :: rest =
            memberText m ++ ',' :: (joined [','] ((k :: more).map memberText) ++ '}' :: rest) := by
          simp [joined]
        rw [regroup]
        simp only [readMembers?, read, Option.bind_eq_bind, Option.bind_some,
          skipGap_cons (show isGap ',' = false by decide), later]
        rfl

end

lemma readArray?_text {depth : Nat} {items : List Json} (fit : ∀ j ∈ items, Fits depth j)
    (each : ∀ j ∈ items, ∀ rest, EndsNumber rest →
      readValue? depth (text j ++ rest) = some (ordered j, rest)) (rest : List Char) :
    readArray? (readValue? depth) (joined [','] (items.map text) ++ ']' :: rest) =
      some (.array (items.map ordered), rest) := by
  have texts : ∀ t ∈ items.map text, t ≠ [] := by
    intro t ht
    obtain ⟨j, hj, rfl⟩ := List.mem_map.mp ht
    obtain ⟨c, more, written, -⟩ := exists_text_cons (fit j hj)
    rw [written]
    exact List.cons_ne_nil _ _
  have enough := length_le_length_joined [','] texts
  cases items with
  | nil => rfl
  | cons j more =>
    obtain ⟨c, tail, written, token, opens⟩ := exists_text_cons (fit j List.mem_cons_self)
    have start : ∃ tail', joined [','] ((j :: more).map text) ++ ']' :: rest = c :: tail' := by
      cases more with
      | nil => exact ⟨_, by rw [List.map_singleton, joined, written, List.cons_append]⟩
      | cons k more =>
        exact ⟨_, by rw [List.map_cons, List.map_cons, joined_cons_cons, written]; rfl⟩
    obtain ⟨tail', start⟩ := start
    have read := readItems?_joined (joined [','] ((j :: more).map text) ++ ']' :: rest).length
      rest (List.cons_ne_nil j more) each
      (by simp only [List.length_append, List.length_map] at enough ⊢; omega)
    rw [start] at read ⊢
    simp only [readArray?, skipGap_cons token]
    split
    · rename_i closes
      exact absurd (List.cons.inj closes).1 opens
    · rw [read]
      rfl

lemma readObject?_text {depth : Nat} {members : List (String × Json)}
    (each : ∀ m ∈ members, ∀ rest, EndsNumber rest →
      readValue? depth (text m.2 ++ rest) = some (ordered m.2, rest)) (rest : List Char) :
    readObject? (readValue? depth) (joined [','] (members.map memberText) ++ '}' :: rest) =
      some (ordered (.object members), rest) := by
  have texts : ∀ t ∈ members.map memberText, t ≠ [] := by
    intro t ht
    obtain ⟨m, -, rfl⟩ := List.mem_map.mp ht
    simp [memberText]
  have enough := length_le_length_joined [','] texts
  cases members with
  | nil => rfl
  | cons m more =>
    have start : ∃ tail,
        joined [','] ((m :: more).map memberText) ++ '}' :: rest = '"' :: tail := by
      cases more with
      | nil => exact ⟨_, rfl⟩
      | cons k more => exact ⟨_, rfl⟩
    obtain ⟨tail, start⟩ := start
    have read := readMembers?_joined
      (joined [','] ((m :: more).map memberText) ++ '}' :: rest).length rest
      (List.cons_ne_nil m more) each
      (by simp only [List.length_append, List.length_map] at enough ⊢; omega)
    rw [start] at read ⊢
    rw [ordered, orderedMembers_eq_map]
    exact congrArg (Option.map fun found => (sortedObject found.1, found.2)) read

lemma readValue?_scalar {depth : Nat} {j : Json} (fits : Fits depth j)
    (items : ∀ items, j ≠ .array items) (members : ∀ members, j ≠ .object members)
    {rest : List Char} (ends : EndsNumber rest) :
    readValue? depth (text j ++ rest) = some (ordered j, rest) := by
  cases j with
  | null => exact readValue?_of_ne (by decide) (by decide) (by decide)
  | bool b => cases b <;> exact readValue?_of_ne (by decide) (by decide) (by decide)
  | string s =>
    refine (readValue?_of_ne (by decide) (by decide) (by decide)).trans ?_
    show readScalar? ('"' :: (s.toList.flatMap escaped ++ ['"'] ++ rest)) = _
    rw [List.append_assoc, List.singleton_append, readScalar?, readQuoted?_quoted]
    rfl
  | number n =>
    have whole : n.IsWhole := by cases depth <;> exact fits
    obtain ⟨c, more, written, start⟩ := exists_text_number whole
    have scalar := readScalar?_number whole ends
    rw [text, ordered, ← scalar, written]
    exact readValue?_of_ne (isGap_of_startsNumber start) (ne_of_startsNumber start (by decide))
      (ne_of_startsNumber start (by decide))
  | array list => exact absurd rfl (items list)
  | object list => exact absurd rfl (members list)

/-- Reading finds the value whose text stands there, whatever follows that does not go on with a
number. -/
lemma readValue?_text {depth : Nat} {j : Json} (fits : Fits depth j) {rest : List Char}
    (ends : EndsNumber rest) :
    readValue? depth (text j ++ rest) = some (ordered j, rest) := by
  induction depth generalizing j rest with
  | zero =>
    refine readValue?_scalar fits ?_ ?_ ends
    · rintro items rfl
      exact fits
    · rintro members rfl
      exact fits
  | succ depth ih =>
    by_cases array : ∃ items, j = .array items
    · obtain ⟨items, rfl⟩ := array
      have read := readArray?_text fits (fun k hk rest ends => ih (fits k hk) ends) rest
      rw [text, itemTexts_eq_map, ordered, orderedItems_eq_map, ← read]
      simp [readValue?, skipGap_cons (show isGap '[' = false by decide)]
    by_cases object : ∃ members, j = .object members
    · obtain ⟨members, rfl⟩ := object
      have read := readObject?_text (fun m hm rest ends => ih (fits m hm) ends) rest
      rw [text, memberTexts_eq_map, ← read]
      simp [readValue?, skipGap_cons (show isGap '{' = false by decide)]
    · exact readValue?_scalar fits (fun items same => array ⟨items, same⟩)
        (fun members same => object ⟨members, same⟩) ends

/-- No more arrays and objects are open at once than the text has characters. -/
lemma Fits.length_text {depth : Nat} {j : Json} (fits : Fits depth j) : Fits (text j).length j := by
  induction depth generalizing j with
  | zero =>
    cases j with
    | array | object => exact fits.elim
    | _ => exact fits.of_scalar nofun nofun _
  | succ depth ih =>
    cases j with
    | array items =>
      rw [text, List.length_cons]
      intro item mem
      have part := length_le_of_mem_joined [',']
        (itemTexts_eq_map items ▸ List.mem_map_of_mem mem)
      refine (ih (fits item mem)).mono ?_
      rw [List.length_append]
      omega
    | object members =>
      rw [text, List.length_cons]
      intro m mem
      have part := length_le_of_mem_joined [',']
        (memberTexts_eq_map members ▸ List.mem_map_of_mem mem)
      refine (ih (fits m mem)).mono ?_
      rw [memberText, List.length_append, List.length_cons] at part
      rw [List.length_append]
      omega
    | _ => exact fits.of_scalar nofun nofun _

/-- The compact text of a value that fits the reader is read as that value. -/
theorem parse?_compact {j : Json} (fits : Fits depthLimit j) :
    parse? j.compact = some (ordered j) := by
  have read := readValue?_text fits (show EndsNumber [] from fun c hc => by cases hc)
  rw [List.append_nil] at read
  rw [parse?, compact, String.toList_ofList, parseChars?, read]
  rfl

theorem Settled.parse?_compact {j : Json} (settled : Settled depthLimit j) :
    parse? j.compact = some j := by
  rw [Json.parse?_compact settled.1, settled.2]

end LakeCatalog.Json
