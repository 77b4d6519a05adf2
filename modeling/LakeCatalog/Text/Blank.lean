/-!
# Blank characters

The characters that carry the Unicode property White_Space, and what is left of a text once they
are taken off its ends. U+200B and U+FEFF do not carry the property.
-/

namespace LakeCatalog.Text

/-- A character with the property White_Space. -/
def isBlank (c : Char) : Bool :=
  let n := c.toNat
  (9 ≤ n && n ≤ 13) || n == 0x20 || n == 0x85 || n == 0xA0 || n == 0x1680 ||
    (0x2000 ≤ n && n ≤ 0x200A) || n == 0x2028 || n == 0x2029 || n == 0x202F ||
    n == 0x205F || n == 0x3000

def trimStart (cs : List Char) : List Char :=
  cs.dropWhile isBlank

def trimEnd (cs : List Char) : List Char :=
  (cs.reverse.dropWhile isBlank).reverse

def trim (cs : List Char) : List Char :=
  trimEnd (trimStart cs)

def trimmed (s : String) : String :=
  String.ofList (trim s.toList)

/-- Nothing but blanks, or nothing at all. -/
def isAllBlank (s : String) : Bool :=
  s.toList.all isBlank

theorem trimStart_eq_self {cs : List Char} (h : ∀ c ∈ cs.head?, isBlank c = false) :
    trimStart cs = cs := by
  cases cs with
  | nil => rfl
  | cons c rest => simp [trimStart, h c (by simp)]

theorem trimEnd_append_of_not_blank (cs : List Char) {c : Char} (h : isBlank c = false) :
    trimEnd (cs ++ [c]) = cs ++ [c] := by
  simp [trimEnd, h]

theorem trimEnd_append_cons (cs : List Char) {c : Char} (h : isBlank c = false)
    (rest : List Char) : trimEnd (cs ++ c :: rest) = cs ++ c :: trimEnd rest := by
  have stops : (c :: cs.reverse).dropWhile isBlank = c :: cs.reverse := by simp [h]
  have kept : ((cs ++ c :: rest).reverse).dropWhile isBlank =
      rest.reverse.dropWhile isBlank ++ c :: cs.reverse := by
    rw [List.reverse_append, List.reverse_cons, List.append_assoc, List.singleton_append,
      List.dropWhile_append, stops]
    by_cases blank : (rest.reverse.dropWhile isBlank).isEmpty
    · simp [List.isEmpty_iff.mp blank]
    · simp [blank]
  rw [trimEnd, kept]
  simp [trimEnd]

theorem trim_cons (c : Char) (rest : List Char) :
    trim (c :: rest) = if isBlank c then trim rest else c :: trimEnd rest := by
  rw [trim, trimStart, List.dropWhile_cons]
  split
  · rfl
  · rename_i kept
    exact trimEnd_append_cons [] (Bool.eq_false_iff.mpr kept) rest

theorem trim_eq_nil_iff {cs : List Char} : trim cs = [] ↔ ∀ c ∈ cs, isBlank c = true := by
  induction cs with
  | nil => exact iff_of_true rfl nofun
  | cons c rest ih =>
    rw [trim_cons]
    by_cases blank : isBlank c = true
    · rw [if_pos blank, ih, List.forall_mem_cons, and_iff_right blank]
    · rw [if_neg blank]
      exact iff_of_false (List.cons_ne_nil _ _) fun all => blank (all c List.mem_cons_self)

theorem isAllBlank_iff (s : String) : isAllBlank s = true ↔ trim s.toList = [] := by
  rw [trim_eq_nil_iff, isAllBlank, List.all_eq_true]

theorem isAllBlank_append (s s' : String) :
    isAllBlank (s ++ s') = (isAllBlank s && isAllBlank s') := by
  rw [isAllBlank, String.toList_append, List.all_append, isAllBlank, isAllBlank]

/-- Taking blanks off does not touch the front of a text, if that does not begin or end with a
blank. -/
theorem prefix_trim {front cs : List Char} (filled : front ≠ [])
    (first : front.head?.any isBlank = false) (last : front.getLast?.any isBlank = false)
    (h : front <+: cs) : front <+: trim cs := by
  obtain ⟨rest, rfl⟩ := h
  have start : trimStart (front ++ rest) = front ++ rest := by
    refine trimStart_eq_self fun c hc => ?_
    cases front with
    | nil => exact absurd rfl filled
    | cons d front =>
      cases hc
      exact first
  obtain ⟨init, c, rfl⟩ := List.eq_nil_or_concat front |>.resolve_left filled
  have kept : isBlank c = false := by simpa using last
  refine ⟨trimEnd rest, ?_⟩
  rw [trim, start]
  simp [trimEnd_append_cons _ kept]

theorem trimEnd_append_of_blank (cs : List Char) {gap : List Char}
    (blank : ∀ c ∈ gap, isBlank c = true) : trimEnd (cs ++ gap) = trimEnd cs := by
  have backwards : ∀ c ∈ gap.reverse, isBlank c = true := fun c hc =>
    blank c (List.mem_reverse.mp hc)
  rw [trimEnd, List.reverse_append, List.dropWhile_append_of_pos backwards, trimEnd]

/-- Blanks around a text do not count. -/
theorem trim_of_blank_around {front back : List Char} (before : ∀ c ∈ front, isBlank c = true)
    (after : ∀ c ∈ back, isBlank c = true) (cs : List Char) :
    trim (front ++ cs ++ back) = trim cs := by
  induction front with
  | nil =>
    rw [List.nil_append]
    induction cs with
    | nil => exact trim_eq_nil_iff.mpr after
    | cons c rest ih =>
      rw [List.cons_append, trim_cons, trim_cons, ih, trimEnd_append_of_blank rest after]
  | cons c front ih =>
    obtain ⟨first, others⟩ := List.forall_mem_cons.mp before
    rw [List.cons_append, List.cons_append, trim_cons, if_pos first, ih others]

theorem exists_trimStart_eq (cs : List Char) :
    ∃ front, cs = front ++ trimStart cs ∧ ∀ c ∈ front, isBlank c = true :=
  ⟨cs.takeWhile isBlank, List.takeWhile_append_dropWhile.symm,
    List.all_eq_true.mp List.all_takeWhile⟩

theorem exists_trimEnd_eq (cs : List Char) :
    ∃ back, cs = trimEnd cs ++ back ∧ ∀ c ∈ back, isBlank c = true := by
  obtain ⟨front, whole, blank⟩ := exists_trimStart_eq cs.reverse
  refine ⟨front.reverse, ?_, fun c hc => blank c (List.mem_reverse.mp hc)⟩
  rw [trimEnd, ← List.reverse_append]
  exact List.reverse_eq_iff.mp whole

theorem trim_trimStart (cs : List Char) : trim (trimStart cs) = trim cs := by
  obtain ⟨front, whole, blank⟩ := exists_trimStart_eq cs
  have same := trim_of_blank_around blank (List.forall_mem_nil _) (trimStart cs)
  rw [List.append_nil, ← whole] at same
  exact same.symm

theorem trim_trimEnd (cs : List Char) : trim (trimEnd cs) = trim cs := by
  obtain ⟨back, whole, blank⟩ := exists_trimEnd_eq cs
  have same := trim_of_blank_around (List.forall_mem_nil _) blank (trimEnd cs)
  rw [List.nil_append, ← whole] at same
  exact same.symm

theorem trim_trim (cs : List Char) : trim (trim cs) = trim cs := by
  rw [show trim cs = trimEnd (trimStart cs) from rfl, trim_trimEnd, trim_trimStart]
  rfl

/-- What stands around a character that is not blank loses only its outer blanks. -/
theorem trim_append_cons (front : List Char) {c : Char} (kept : isBlank c = false)
    (rest : List Char) : trim (front ++ c :: rest) = trimStart front ++ c :: trimEnd rest := by
  have start : trimStart (front ++ c :: rest) = trimStart front ++ c :: rest := by
    induction front with
    | nil => simp [trimStart, kept]
    | cons d front ih =>
      rw [List.cons_append, trimStart, trimStart, List.dropWhile_cons, List.dropWhile_cons]
      split
      · exact ih
      · rfl
  rw [trim, start, trimEnd_append_cons _ kept]

end LakeCatalog.Text
