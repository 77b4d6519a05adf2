import LakeCatalog.KeyValues
import Mathlib.Tactic.Common

/-!
# Reading a list of settings

A piece of a text of settings says a key and a value, and cannot be read if it has more than one
equals sign. A text is read if all its pieces are, and for every key the last piece that has it
counts. Blanks and separators are free: every layout of the same entries is read as the same map.
-/

namespace LakeCatalog.KeyValues

open Text

/-- What a piece says that can be read. -/
def assignment? (piece : List Char) : Option (String × String) :=
  if trim piece = [] then none else some (keyOf piece, valueOf piece)

lemma trimmed_key_of_assignment? {piece : List Char} {e : String × String}
    (said : assignment? piece = some e) : trimmed e.1 = e.1 := by
  rw [assignment?] at said
  split at said
  · cases said
  · cases said
    rw [trimmed, keyOf, String.toList_ofList, trim_trim]

lemma isBlank_equals : isBlank '=' = false := by decide

lemma mem_of_mem_trimStart {c : Char} {cs : List Char} (mem : c ∈ trimStart cs) : c ∈ cs := by
  obtain ⟨front, whole, -⟩ := exists_trimStart_eq cs
  exact whole ▸ List.mem_append_right front mem

lemma mem_of_mem_trimEnd {c : Char} {cs : List Char} (mem : c ∈ trimEnd cs) : c ∈ cs := by
  obtain ⟨back, whole, -⟩ := exists_trimEnd_eq cs
  exact whole ▸ List.mem_append_left back mem

/-- A piece without an equals sign says a key. -/
lemma assignment?_of_notMem {piece : List Char} (key : '=' ∉ piece) :
    assignment? piece =
      if trim piece = [] then none else some (String.ofList (trim piece), "") := by
  rw [assignment?, keyOf, valueOf, cutAt_of_not_separates (beq_eq_false_of_notMem key)]
  rfl

lemma assignment?_of_mem {front : List Char} (first : '=' ∉ front) (rest : List Char) :
    assignment? (front ++ '=' :: rest) =
      some (String.ofList (trim front), String.ofList (trim rest)) := by
  have filled : trim (front ++ '=' :: rest) ≠ [] := by
    simp [trim_append_cons front isBlank_equals rest]
  rw [assignment?, if_neg filled, keyOf, valueOf,
    cutAt_append_cons (beq_eq_false_of_notMem first) (beq_self_eq_true '=')]
  rfl

lemma entry_of_ne_nil {piece : List Char} (filled : trim piece ≠ []) :
    entry piece = match pieces (· == '=') (trim piece) with
      | [key] => .ok (some (String.ofList (trim key), ""))
      | [key, value] => .ok (some (String.ofList (trim key), String.ofList (trim value)))
      | _ => .error (.build (repeatedIn piece)) := by
  unfold entry
  split
  · rename_i empty
    exact absurd empty filled
  · rfl

lemma entry_of_notMem {piece : List Char} (key : '=' ∉ piece) :
    entry piece = .ok (assignment? piece) := by
  rw [assignment?_of_notMem key]
  by_cases blank : trim piece = []
  · rw [entry, blank, if_pos rfl]
  · have kept : '=' ∉ trim piece := fun mem => key (mem_of_mem_trimStart (mem_of_mem_trimEnd mem))
    rw [entry_of_ne_nil blank, pieces_of_not_separates (beq_eq_false_of_notMem kept), if_neg blank]
    simp only [trim_trim]

lemma entry_of_mem {front : List Char} (first : '=' ∉ front) (rest : List Char) :
    entry (front ++ '=' :: rest) =
      if '=' ∈ rest then .error (.build (repeatedIn (front ++ '=' :: rest)))
      else .ok (assignment? (front ++ '=' :: rest)) := by
  have cut := trim_append_cons front isBlank_equals rest
  have kept : '=' ∉ trimStart front := fun mem => first (mem_of_mem_trimStart mem)
  rw [entry_of_ne_nil (by simp [cut]), cut,
    pieces_append_cons (beq_eq_false_of_notMem kept) (beq_self_eq_true '=')]
  split_ifs with again
  · -- What comes after the second equals sign is a third piece or more.
    obtain ⟨value, more, rfl, second⟩ := List.eq_append_cons_of_mem again
    rw [trimEnd_append_cons _ isBlank_equals,
      pieces_append_cons (beq_eq_false_of_notMem second) (beq_self_eq_true '=')]
    cases others : pieces (· == '=') (trimEnd more) with
    | nil => exact absurd others (pieces_ne_nil _ _)
    | cons _ _ => rfl
  · have kept : '=' ∉ trimEnd rest := fun mem => again (mem_of_mem_trimEnd mem)
    rw [pieces_of_not_separates (beq_eq_false_of_notMem kept), assignment?_of_mem first]
    simp only [trim_trimStart, trim_trimEnd]

/-- A piece is read as the entry that it says, unless it has more than one equals sign. -/
lemma entry_eq (piece : List Char) :
    entry piece = if RepeatsEquals piece then .error (.build (repeatedIn piece))
      else .ok (assignment? piece) := by
  by_cases mem : '=' ∈ piece
  · obtain ⟨front, rest, rfl, first⟩ := List.eq_append_cons_of_mem mem
    have again : RepeatsEquals (front ++ '=' :: rest) ↔ '=' ∈ rest := by
      rw [RepeatsEquals, List.count_append, List.count_eq_zero.mpr first, List.count_cons_self,
        ← List.count_pos_iff]
      omega
    simp only [entry_of_mem first, again]
  · have once : ¬ RepeatsEquals piece := by
      rw [RepeatsEquals, List.count_eq_zero.mpr mem]
      omega
    rw [entry_of_notMem mem, if_neg once]

lemma mapM_entry (ps : List (List Char)) : ps.mapM entry =
    match ps.find? RepeatsEquals with
    | some piece => .error (.build (repeatedIn piece))
    | none => .ok (ps.map assignment?) := by
  induction ps with
  | nil => rfl
  | cons piece rest ih =>
    rw [List.mapM_cons, entry_eq, ih, List.find?_cons]
    by_cases repeated : RepeatsEquals piece
    · simp [repeated]
      rfl
    · simp only [repeated, if_false, decide_false]
      cases rest.find? RepeatsEquals <;> rfl

def assignments (raw : String) : List (String × String) :=
  (pieces endsEntry raw.toList).filterMap assignment?

lemma entries_eq (raw : String) : entries raw =
    match firstRepeated? raw with
    | some piece => .error (.build (repeatedIn piece))
    | none => .ok (assignments raw) := by
  rw [entries, mapM_entry, firstRepeated?, assignments]
  cases (pieces endsEntry raw.toList).find? RepeatsEquals with
  | some piece => rfl
  | none =>
    show Except.ok _ = _
    rw [List.filterMap_map]
    rfl

lemma parse_eq (raw : String) : parse raw =
    match firstRepeated? raw with
    | some piece => .error (.build (repeatedIn piece))
    | none => .ok (.ofList (assignments raw)) := by
  rw [parse, entries_eq]
  cases firstRepeated? raw <;> rfl

lemma parse_eq_error_iff {raw : String} {fault : Fault} : parse raw = .error fault ↔
    ∃ piece, firstRepeated? raw = some piece ∧ fault = .build (repeatedIn piece) := by
  rw [parse_eq]
  cases firstRepeated? raw with
  | none => simp
  | some piece => simp [eq_comm]

lemma parse_eq_ok_iff {raw : String} {d : Dictionary String} : parse raw = .ok d ↔
    firstRepeated? raw = none ∧ d = .ofList (assignments raw) := by
  rw [parse_eq]
  cases firstRepeated? raw with
  | none => simp [eq_comm]
  | some piece => simp

lemma firstRepeated?_isSome_iff (raw : String) : (firstRepeated? raw).isSome ↔
    ∃ piece ∈ pieces endsEntry raw.toList, RepeatsEquals piece := by
  simp [firstRepeated?]

lemma lookup_assignment? (ps : List (List Char)) (key : String) :
    (ps.filterMap assignment?).lookup key =
      (ps.find? fun piece => trim piece ≠ [] && keyOf piece == key).map valueOf := by
  induction ps with
  | nil => rfl
  | cons piece rest ih =>
    rw [List.filterMap_cons, List.find?_cons, assignment?]
    by_cases blank : trim piece = []
    · simpa [blank] using ih
    · rw [if_neg blank, lookup_cons_entry]
      by_cases same : key = keyOf piece
      · simp [blank, same]
      · have other : (keyOf piece == key) = false := beq_eq_false_iff_ne.mpr (Ne.symm same)
        simpa [blank, same, other] using ih

lemma get?_assignments (raw key : String) :
    (Dictionary.ofList (assignments raw)).get? key = value? raw key := by
  rw [Dictionary.get?_ofList, assignments, ← List.filterMap_reverse, lookup_assignment?]
  rfl

section

variable {es : List (String × String)} {piece cs : List Char} {text : String} {g₁ g₂ : List Char}

lemma Quiet.notMem (quiet : Quiet cs) : '=' ∉ cs := fun mem => (quiet '=' mem).2 rfl

lemma Quiet.not_endsEntry (quiet : Quiet cs) : ∀ c ∈ cs, endsEntry c = false :=
  fun c hc => (quiet c hc).1

lemma IsGap.isBlank (gap : IsGap cs) : ∀ c ∈ cs, isBlank c = true := fun c hc => (gap c hc).1

lemma IsGap.quiet (gap : IsGap cs) : Quiet cs := by
  refine fun c hc => ⟨(gap c hc).2, ?_⟩
  rintro rfl
  exact absurd (gap.isBlank '=' hc) (by decide)

lemma IsPlain.quiet (plain : IsPlain text) (h₁ : IsGap g₁) (h₂ : IsGap g₂) :
    Quiet (g₁ ++ text.toList ++ g₂) :=
  List.forall_mem_append.mpr ⟨List.forall_mem_append.mpr ⟨h₁.quiet, plain.2⟩, h₂.quiet⟩

lemma IsPlain.trim_around (plain : IsPlain text) (h₁ : IsGap g₁) (h₂ : IsGap g₂) :
    String.ofList (trim (g₁ ++ text.toList ++ g₂)) = text := by
  rw [trim_of_blank_around h₁.isBlank h₂.isBlank]
  exact plain.1

/-- A layout of one entry, or of none, is a piece that says so. -/
lemma WritesPiece.read (writes : WritesPiece es piece)
    (plain : ∀ e ∈ es, IsPlain e.1 ∧ IsPlain e.2) :
    (∀ c ∈ piece, endsEntry c = false) ∧ entry piece = .ok (assignment? piece) ∧
      (assignment? piece).toList = es := by
  cases writes with
  | blank gap =>
    have blank : trim piece = [] := trim_eq_nil_iff.mpr gap.isBlank
    refine ⟨gap.quiet.not_endsEntry, entry_of_notMem gap.quiet.notMem, ?_⟩
    rw [assignment?, if_pos blank]
    rfl
  | @assigned key value g₁ g₂ g₃ g₄ h₁ h₂ h₃ h₄ =>
    obtain ⟨plainKey, plainValue⟩ := plain _ List.mem_cons_self
    have front := plainKey.quiet h₁ h₂
    have back := plainValue.quiet h₃ h₄
    refine ⟨List.forall_mem_append.mpr ⟨front.not_endsEntry,
      List.forall_mem_cons.mpr ⟨by decide, back.not_endsEntry⟩⟩, ?_, ?_⟩
    · rw [entry_of_mem front.notMem, if_neg back.notMem]
    · rw [assignment?_of_mem front.notMem, plainKey.trim_around h₁ h₂,
        plainValue.trim_around h₃ h₄]
      rfl
  | @bare key g₁ g₂ filled h₁ h₂ =>
    obtain ⟨plainKey, -⟩ := plain _ List.mem_cons_self
    have quiet := plainKey.quiet h₁ h₂
    have around := plainKey.trim_around h₁ h₂
    have kept : trim (g₁ ++ key.toList ++ g₂) ≠ [] := by
      intro empty
      rw [empty] at around
      exact filled around.symm
    refine ⟨quiet.not_endsEntry, entry_of_notMem quiet.notMem, ?_⟩
    rw [assignment?_of_notMem quiet.notMem, if_neg kept, around]
    rfl

lemma Writes.read (writes : Writes es cs) (plain : ∀ e ∈ es, IsPlain e.1 ∧ IsPlain e.2) :
    ∃ found, (pieces endsEntry cs).mapM entry = .ok found ∧ found.filterMap id = es := by
  induction writes with
  | @last es piece writes =>
    obtain ⟨whole, read, said⟩ := writes.read plain
    rw [pieces_of_not_separates whole]
    refine ⟨[_], by rw [List.mapM_cons, read]; rfl, ?_⟩
    rw [← said]
    cases assignment? piece <;> rfl
  | @more es fs piece rest c writes ends later ih =>
    obtain ⟨front, back⟩ := List.forall_mem_append.mp plain
    obtain ⟨whole, read, said⟩ := writes.read front
    obtain ⟨found, read', said'⟩ := ih back
    rw [pieces_append_cons whole ends]
    refine ⟨assignment? piece :: found, by rw [List.mapM_cons, read, read']; rfl, ?_⟩
    rw [List.filterMap_cons, ← said, ← said']
    cases assignment? piece <;> rfl

lemma parse_of_writes {listing : List (String × String)} (writes : Writes listing cs)
    (plain : ∀ e ∈ listing, IsPlain e.1 ∧ IsPlain e.2) :
    parse (String.ofList cs) = .ok (.ofList listing) := by
  obtain ⟨found, read, said⟩ := writes.read plain
  rw [parse, entries, String.toList_ofList, read, ← said]
  rfl

end

/-- A text is refused if a piece between separators has more than one equals sign, and the first
such piece is reported. Otherwise every key is without blanks around it, and its value is what the
last piece with that key says. So plain entries with different keys are read back however they are
laid out. -/
theorem parse_reads_entries :
    (∀ raw, (∃ fault, parse raw = .error fault) ↔
      ∃ piece ∈ pieces endsEntry raw.toList, 1 < piece.count '=') ∧
    (∀ raw fault, parse raw = .error fault →
      ∃ piece, firstRepeated? raw = some piece ∧ fault = .build (repeatedIn piece)) ∧
    (∀ raw d, parse raw = .ok d →
      (∀ key ∈ d.keys, trimmed key = key) ∧ ∀ key, d.get? key = value? raw key) ∧
    ∀ (pairs listing : List (String × String)) (text : String),
      (pairs.map Prod.fst).Nodup → (∀ e ∈ pairs, IsPlain e.1 ∧ IsPlain e.2) →
      listing.Perm pairs → Writes listing text.toList →
      ∃ d, parse text = .ok d ∧ ∀ key value, d.get? key = some value ↔ (key, value) ∈ pairs := by
  refine ⟨fun raw => ?_, fun raw fault => parse_eq_error_iff.mp, fun raw d parsed => ?_, ?_⟩
  · refine Iff.trans ?_ (firstRepeated?_isSome_iff raw)
    simp only [parse_eq_error_iff, Option.isSome_iff_exists]
    exact ⟨fun ⟨_, piece, first, _⟩ => ⟨piece, first⟩, fun ⟨piece, first⟩ => ⟨_, piece, first, rfl⟩⟩
  · obtain ⟨-, rfl⟩ := parse_eq_ok_iff.mp parsed
    refine ⟨fun key mem => ?_, get?_assignments raw⟩
    obtain ⟨e, he, rfl⟩ := Dictionary.mem_keys_ofList.mp mem
    obtain ⟨piece, -, said⟩ := List.mem_filterMap.mp he
    exact trimmed_key_of_assignment? said
  · intro pairs listing text distinct plain perm writes
    have apart : listing.Pairwise fun a b => a.1 ≠ b.1 :=
      List.pairwise_map.mp ((perm.map Prod.fst).nodup_iff.mpr distinct)
    have read := parse_of_writes writes fun e he => plain e (perm.mem_iff.mp he)
    rw [String.ofList_toList] at read
    refine ⟨_, read, fun key value => ?_⟩
    rw [Dictionary.get?_ofList, lookup_reverse apart, lookup_eq_some_iff_mem apart, perm.mem_iff]

/-- Two entries and a flag are read back from three lines with blanks, separators and a blank
entry. -/
theorem parse_reads_entries_of_owner :
    let pairs := [("flag", ""), ("owner", "data-eng"), ("tier", "gold")]
    let text := " tier = gold,\nowner=data-eng\n\u00a0,flag\r"
    (pairs.map Prod.fst).Nodup ∧ (∀ e ∈ pairs, IsPlain e.1 ∧ IsPlain e.2) ∧
      Writes [("tier", "gold"), ("owner", "data-eng"), ("flag", "")] text.toList ∧
      ∃ d, parse text = .ok d ∧ d.get? "tier" = some "gold" ∧ d.get? "flag" = some "" := by
  intro pairs text
  have distinct : (pairs.map Prod.fst).Nodup := by decide
  have plain : ∀ e ∈ pairs, IsPlain e.1 ∧ IsPlain e.2 := by decide +kernel
  have writes : Writes [("tier", "gold"), ("owner", "data-eng"), ("flag", "")] text.toList := by
    have none : IsGap [] := by decide
    have space : IsGap [' '] := by decide
    have tier := WritesPiece.assigned "tier" "gold" space space space none
    have owner := WritesPiece.assigned "owner" "data-eng" none none none none
    have flag := WritesPiece.bare "flag" (by decide) none (by decide : IsGap ['\r'])
    have gap : IsGap ['\u00a0'] := by decide
    have written := Writes.more (c := ',') tier rfl (.more (c := '\n') (.blank none) rfl
      (.more (c := '\n') owner rfl (.more (c := ',') (.blank gap) rfl (.last flag))))
    convert written using 1
    · rfl
    · decide +kernel
  obtain ⟨-, -, -, back⟩ := parse_reads_entries
  obtain ⟨d, read, values⟩ := back pairs _ text distinct plain (by decide) writes
  have tier := (values "tier" "gold").mpr (by decide)
  have flag := (values "flag" "").mpr (by decide)
  exact ⟨distinct, plain, writes, d, read, tier, flag⟩

end LakeCatalog.KeyValues
