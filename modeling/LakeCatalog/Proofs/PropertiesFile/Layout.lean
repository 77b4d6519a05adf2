import LakeCatalog.PropertiesFile.Syntax
import Mathlib.Data.List.TakeWhile
import Mathlib.Tactic.Common

/-!
# Layouts that are read alike

A text is read line by line, and all that is remembered of the lines before is the part of an entry
that is still open. Where nothing is open, what follows is read as if it were a text of its own. So
remarks can be put between entries, an entry can be broken into lines, and the entries of two texts
one after the other are those of the first and then those of the second.
-/

namespace LakeCatalog.PropertiesFile

open Text

lemma lines_line {line : List Char} (whole : IsLine line) (rest : List Char) :
    lines (line ++ '\n' :: rest) = line :: lines rest := by
  have unbroken : ∀ c ∈ line, (c == '\n') = false :=
    fun c hc => beq_eq_false_iff_ne.mpr (whole c hc).1
  have kept : line.getLast? ≠ some '\r' := fun last => (whole _ (List.mem_of_getLast? last)).2 rfl
  rw [lines, pieces_append_cons unbroken rfl, lines]
  cases following : pieces (· == '\n') rest with
  | nil => exact absurd following (pieces_ne_nil _ rest)
  | cons next more =>
    rw [lines.go, if_neg kept]
    nofun

/-- Complete lines are found, whatever follows them. -/
lemma lines_ofLines_append {ls : List (List Char)} (whole : ∀ line ∈ ls, IsLine line)
    (rest : List Char) : lines (ofLines ls ++ rest) = ls ++ lines rest := by
  induction ls with
  | nil => rfl
  | cons line ls ih =>
    obtain ⟨first, others⟩ := List.forall_mem_cons.mp whole
    rw [ofLines, List.flatMap_cons, List.append_assoc, List.append_assoc, List.singleton_append,
      lines_line first]
    exact congrArg _ (ih others)

lemma lines_ofLines {ls : List (List Char)} (whole : ∀ line ∈ ls, IsLine line) :
    lines (ofLines ls) = ls := by
  have found := lines_ofLines_append whole []
  rwa [List.append_nil, show lines [] = [] from rfl, List.append_nil] at found

/-- After a text that does not ask for more only what follows decides. -/
lemma continues_append {front : List Char} (closed : continues front = false) (back : List Char) :
    continues (front ++ back) = continues back := by
  rw [continues, beq_eq_false_iff_ne] at closed
  rw [continues, continues, List.reverse_append, List.takeWhile_append]
  split
  · rename_i all
    rw [List.length_append, all]
    congr 1
    omega
  · rfl

lemma continues_of_blank {gap : List Char} (blank : ∀ c ∈ gap, isBlank c = true) :
    continues gap = false := by
  have none : gap.reverse.takeWhile (· == '\\') = [] := by
    cases backwards : gap.reverse with
    | nil => rfl
    | cons c rest =>
      have last : isBlank c = true := blank c (List.mem_reverse.mp (backwards ▸ List.mem_cons_self))
      refine List.takeWhile_cons_of_neg fun escapes => ?_
      rw [beq_iff_eq.mp escapes] at last
      exact absurd last (by decide)
  rw [continues, none]
  rfl

lemma continues_trimStart (line : List Char) : continues (trimStart line) = continues line := by
  obtain ⟨gap, whole, blank⟩ := exists_trimStart_eq line
  conv_rhs => rw [whole]
  exact (continues_append (continues_of_blank blank) _).symm

lemma isIgnored_trimStart_iff {line : List Char} :
    isIgnored (trimStart line) = true ↔ IsRemark line := by
  constructor
  · intro ignored
    obtain ⟨gap, whole, blank⟩ := exists_trimStart_eq line
    cases start : trimStart line with
    | nil =>
      rw [start, List.append_nil] at whole
      exact whole ▸ .blank blank
    | cons sign rest =>
      rw [start] at ignored whole
      exact whole ▸ .comment blank (by simpa [isIgnored] using ignored)
  · intro remark
    cases remark with
    | blank blank =>
      have nothing : trimStart line = [] := List.dropWhile_eq_nil_iff.mpr blank
      rw [nothing]
      rfl
    | @comment gap sign rest blank marks =>
      have visible : isBlank sign = false := by rcases marks with rfl | rfl <;> decide
      have start : trimStart (gap ++ sign :: rest) = sign :: rest := by
        rw [trimStart, List.dropWhile_append_of_pos blank,
          List.dropWhile_cons_of_neg (by simp [visible])]
      rw [start]
      simpa [isIgnored] using marks

instance (line : List Char) : Decidable (IsRemark line) :=
  decidable_of_iff _ isIgnored_trimStart_iff

lemma logicalLines_remark {line : List Char} (remark : IsRemark line) (rest : List (List Char)) :
    logicalLines [] (line :: rest) = logicalLines [] rest := by
  simp [logicalLines, isIgnored_trimStart_iff.mpr remark]

lemma logicalLines_remarks {remarks : List (List Char)} (remark : ∀ line ∈ remarks, IsRemark line)
    (rest : List (List Char)) : logicalLines [] (remarks ++ rest) = logicalLines [] rest := by
  induction remarks with
  | nil => rfl
  | cons line remarks ih =>
    obtain ⟨first, others⟩ := List.forall_mem_cons.mp remark
    rw [List.cons_append, logicalLines_remark first, ih others]

/-- What is open of an entry after one more line. -/
def openAfter (pending line : List Char) : List Char :=
  if pending.isEmpty && isIgnored (trimStart line) then pending
  else if continues line then pending ++ (trimStart line).dropLast
  else []

/-- The lines from some line on depend on what came before only through what is open. -/
lemma logicalLines_cons (pending line : List Char) : ∃ done, ∀ rest,
    logicalLines pending (line :: rest) = done ++ logicalLines (openAfter pending line) rest := by
  by_cases ignored : (pending.isEmpty && isIgnored (trimStart line)) = true
  · exact ⟨[], fun rest => by simp [logicalLines, openAfter, ignored]⟩
  by_cases more : continues line = true
  · exact ⟨[], fun rest => by simp [logicalLines, openAfter, ignored, continues_trimStart, more]⟩
  · exact ⟨[pending ++ trimStart line], fun rest => by
      simp [logicalLines, openAfter, ignored, continues_trimStart, more]⟩

lemma logicalLines_append (pending : List Char) (ls : List (List Char)) : ∃ done, ∀ rest,
    logicalLines pending (ls ++ rest) =
      done ++ logicalLines (ls.foldl openAfter pending) rest := by
  induction ls generalizing pending with
  | nil => exact ⟨[], fun rest => rfl⟩
  | cons line ls ih =>
    obtain ⟨done, first⟩ := logicalLines_cons pending line
    obtain ⟨done', others⟩ := ih (openAfter pending line)
    refine ⟨done ++ done', fun rest => ?_⟩
    rw [List.cons_append, first, others, List.append_assoc, List.foldl_cons]

lemma Closed.foldl_openAfter {ls : List (List Char)} (closed : Closed ls) :
    ls.foldl openAfter [] = [] := by
  induction closed with
  | nil => rfl
  | ended ends =>
    rw [List.foldl_append, List.foldl_cons, List.foldl_nil, openAfter]
    split
    · rename_i ignored
      exact List.isEmpty_iff.mp (Bool.and_eq_true_iff.mp ignored).1
    · rw [ends]
      rfl
  | remark _ remark ih =>
    rw [List.foldl_append, ih, List.foldl_cons, List.foldl_nil, openAfter,
      isIgnored_trimStart_iff.mpr remark]
    rfl

/-- Where nothing is open, what follows is read by itself. -/
lemma Closed.logicalLines_append {ls : List (List Char)} (closed : Closed ls)
    (rest : List (List Char)) :
    logicalLines [] (ls ++ rest) = logicalLines [] ls ++ logicalLines [] rest := by
  obtain ⟨done, reads⟩ := PropertiesFile.logicalLines_append [] ls
  simp only [closed.foldl_openAfter] at reads
  have before : logicalLines [] ls = done := by simpa [logicalLines] using reads []
  rw [reads, before]

lemma trimStart_append {front : List Char} (filled : trimStart front ≠ []) (back : List Char) :
    trimStart (front ++ back) = trimStart front ++ back := by
  rw [trimStart, List.dropWhile_append]
  exact if_neg fun empty => filled (List.isEmpty_iff.mp empty)

lemma trimStart_append_of_blank {gap : List Char} (blank : ∀ c ∈ gap, isBlank c = true)
    {back : List Char} (starts : ∀ c ∈ back.head?, isBlank c = false) :
    trimStart (gap ++ back) = back := by
  rw [trimStart, List.dropWhile_append_of_pos blank]
  exact trimStart_eq_self starts

lemma isIgnored_append {front : List Char} (filled : front ≠ []) (back : List Char) :
    isIgnored (front ++ back) = isIgnored front := by
  cases front with
  | nil => exact absurd rfl filled
  | cons c rest => rfl

/-- Both parts of a broken line make up the entry that the whole line is. -/
lemma logicalLines_broken {front gap back : List Char} (filled : trimStart front ≠ [])
    (entry : ¬ IsRemark (front ++ back)) (front_ends : continues front = false)
    (ends : continues (front ++ back) = false) (blank : ∀ c ∈ gap, isBlank c = true)
    (starts : ∀ c ∈ back.head?, isBlank c = false) (rest : List (List Char)) :
    logicalLines [] ((front ++ ['\\']) :: (gap ++ back) :: rest) =
      logicalLines [] ((front ++ back) :: rest) := by
  have counts : isIgnored (trimStart front) = false := by
    rwa [← isIgnored_append filled back, ← trimStart_append filled, ← Bool.not_eq_true,
      isIgnored_trimStart_iff]
  have asks : continues (trimStart front ++ ['\\']) = true := by
    rw [← trimStart_append filled, continues_trimStart, continues_append front_ends]
    rfl
  have back_ends : continues back = false := (continues_append front_ends back).symm.trans ends
  have whole_ends : continues (trimStart front ++ back) = false := by
    rw [← trimStart_append filled, continues_trimStart, ends]
  have opened : (trimStart front).isEmpty = false := by simpa using filled
  calc logicalLines [] ((front ++ ['\\']) :: (gap ++ back) :: rest)
      = logicalLines (trimStart front) ((gap ++ back) :: rest) := by
        simp [logicalLines, trimStart_append filled, isIgnored_append filled, counts, asks]
    _ = (trimStart front ++ back) :: logicalLines [] rest := by
        simp [logicalLines, trimStart_append_of_blank blank starts, opened, back_ends]
    _ = logicalLines [] ((front ++ back) :: rest) := by
        simp [logicalLines, trimStart_append filled, isIgnored_append filled, counts, whole_ends]

/-- The entries of a text after a complete one are read as if they stood alone. -/
lemma entries_append {before : String} (complete : IsComplete before) (after : String) :
    entries (before ++ after) = entries before ++ entries after := by
  obtain ⟨ls, written, whole, closed⟩ := complete
  rw [entries, String.toList_append, written, lines_ofLines_append whole,
    closed.logicalLines_append, List.map_append, entries, entries, written, lines_ofLines whole]

lemma entries_remarks {remarks : List (List Char)}
    (remark : ∀ line ∈ remarks, IsLine line ∧ IsRemark line) (after : String) :
    entries (String.ofList (ofLines remarks) ++ after) = entries after := by
  rw [entries, String.toList_append, String.toList_ofList,
    lines_ofLines_append fun line mem => (remark line mem).1,
    logicalLines_remarks fun line mem => (remark line mem).2, entries]

lemma entries_broken {front back gap : String} (breaks : CanBreak front back)
    (indent : ∀ c ∈ gap.toList, c = ' ' ∨ c = '\t') (after : String) :
    entries (front ++ "\\\n" ++ gap ++ back ++ "\n" ++ after) =
      entries (front ++ back ++ "\n" ++ after) := by
  obtain ⟨line, entry, ends, front_filled, front_ends, starts⟩ := breaks
  rw [String.toList_append] at line entry ends
  have filled : trimStart front.toList ≠ [] := by
    intro empty
    rw [isAllBlank, List.all_eq_false] at front_filled
    obtain ⟨c, mem, visible⟩ := front_filled
    exact visible (List.dropWhile_eq_nil_iff.mp empty c mem)
  have blank : ∀ c ∈ gap.toList, isBlank c = true := by
    intro c mem
    rcases indent c mem with rfl | rfl <;> decide
  have first : IsLine (front.toList ++ ['\\']) :=
    List.forall_mem_append.mpr ⟨(List.forall_mem_append.mp line).1, by simp⟩
  have second : IsLine (gap.toList ++ back.toList) := by
    refine List.forall_mem_append.mpr ⟨fun c mem => ?_, (List.forall_mem_append.mp line).2⟩
    rcases indent c mem with rfl | rfl <;> decide
  have broken : (front ++ "\\\n" ++ gap ++ back ++ "\n" ++ after).toList =
      front.toList ++ ['\\'] ++ '\n' :: (gap.toList ++ back.toList ++ '\n' :: after.toList) := by
    simp
  have unbroken : (front ++ back ++ "\n" ++ after).toList =
      front.toList ++ back.toList ++ '\n' :: after.toList := by
    simp
  rw [entries, entries, broken, unbroken, lines_line first, lines_line second, lines_line line,
    logicalLines_broken filled entry front_ends ends blank starts]

/-- The layout of a text does not matter. After a complete text an entry can be broken into two
lines, with an indent before the second, and remarks can be put before whatever follows. The map of
two texts one after the other is that of the first overridden by that of the second. -/
theorem layout_does_not_matter :
    (∀ before front gap back after : String, IsComplete before → CanBreak front back →
      (∀ c ∈ gap.toList, c = ' ' ∨ c = '\t') →
      parse (before ++ (front ++ "\\\n" ++ gap ++ back ++ "\n" ++ after)) =
        parse (before ++ (front ++ back ++ "\n" ++ after))) ∧
    (∀ (before after : String) (remarks : List (List Char)), IsComplete before →
      (∀ line ∈ remarks, IsLine line ∧ IsRemark line) →
      parse (before ++ (String.ofList (ofLines remarks) ++ after)) = parse (before ++ after)) ∧
    ∀ before after : String, IsComplete before →
      parse (before ++ after) = (parse before).overriddenBy (parse after) := by
  refine ⟨?_, ?_, ?_⟩
  · intro before front gap back after complete breaks indent
    rw [parse, parse, entries_append complete, entries_append complete,
      entries_broken breaks indent]
  · intro before after remarks complete remark
    rw [parse, parse, entries_append complete, entries_append complete, entries_remarks remark]
  · intro before after complete
    rw [parse, entries_append complete, Dictionary.ofList_append]
    rfl

/-- A comment that ends in a backslash does not take the next line with it: after it an entry can be
broken, remarks be put and another text begin. -/
theorem layout_does_not_matter_after_comment :
    let before := "a : 1\n# saved \\\n"
    let after := "b 2\na=3"
    IsComplete before ∧ CanBreak "c=multi " "line\\\\" ∧
      (parse (before ++ ("c=multi " ++ "\\\n" ++ "\t  " ++ "line\\\\" ++ "\n" ++ after))).entries =
        [("a", "3"), ("b", "2"), ("c", "multi line\\")] ∧
      parse (before ++ (String.ofList (ofLines [" ! b=0\\".toList, [' ']]) ++ after)) =
        parse (before ++ after) ∧
      (parse (before ++ after)).get? "a" = some "3" := by
  intro before after
  have complete : IsComplete before := by
    have first : Closed ["a : 1".toList] := @Closed.ended [] _ (by decide)
    exact ⟨_, by decide, by decide,
      @Closed.remark _ "# saved \\".toList first (by decide)⟩
  have breaks : CanBreak "c=multi " "line\\\\" := by
    constructor
    case back_starts => simp [isBlank]
    all_goals decide +kernel
  obtain ⟨broken, remarks, appended⟩ := layout_does_not_matter
  refine ⟨complete, breaks, ?_, remarks before after _ complete (by decide), ?_⟩
  · rw [broken before _ "\t  " _ after complete breaks (by simp)]
    decide
  · rw [appended before after complete, Dictionary.get?_overriddenBy]
    decide

end LakeCatalog.PropertiesFile
