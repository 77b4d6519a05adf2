import LakeCatalog.Table.Reader
import Mathlib.Data.String.Basic
import Mathlib.Tactic.Common

/-!
# The last completed commit

A file name is cut at its first point and its front at the first underscore, and so exactly the
names of completed commits give an instant. The last instant is the greatest that any name gives, so
it does not matter which of the two folders holds a name, in which order the names are listed, and
which other names there are.
-/

namespace LakeCatalog

open Text

namespace Timeline

variable {instant name : String}

lemma IsInstant.notMem (digits : IsInstant instant) {d : Char} (sign : isDigit d = false) :
    d ∉ instant.toList := by
  intro mem
  rw [digits.2 d mem] at sign
  cases sign

lemma contains_completedActions_iff (action : String) :
    completedActions.contains action.toList = true ↔ IsCompletedAction action := by
  simp only [completedActions, List.contains_iff_mem, List.mem_cons, List.not_mem_nil, or_false,
    String.toList_inj, IsCompletedAction]

/-- What a name gives is decided by its front up to the first point and by the rest. -/
lemma completedInstant?_of_stem {stem : List Char} {action : String} (pointless : '.' ∉ stem)
    (written : name.toList = stem ++ '.' :: action.toList) :
    completedInstant? name = some instant ↔
      (cutAt (· == '_') stem).1 = instant.toList ∧ IsInstant instant ∧
        IsCompletedAction action := by
  rw [completedInstant?, written,
    cutAt_append_cons (beq_eq_false_of_notMem pointless) (beq_self_eq_true '.')]
  simp only [Bool.and_eq_true, contains_completedActions_iff, Option.ite_none_right_eq_some]
  generalize (cutAt (· == '_') stem).1 = front
  constructor
  · rintro ⟨⟨⟨completed, filled⟩, digits⟩, same⟩
    obtain rfl := Option.some.inj same
    refine ⟨String.toList_ofList.symm, ⟨?_, ?_⟩, completed⟩
    · simpa using filled
    · simpa using digits
  · rintro ⟨rfl, ⟨filled, digits⟩, completed⟩
    refine ⟨⟨⟨completed, ?_⟩, List.all_eq_true.mpr digits⟩, ?_⟩
    · simpa using filled
    · rw [String.ofList_toList]

lemma exists_eq_toList (cs : List Char) : ∃ s : String, cs = s.toList :=
  ⟨String.ofList cs, String.toList_ofList.symm⟩

/-- An instant is the whole front of a name, or what stands there before the first underscore. -/
lemma cutAt_eq_instant_iff (digits : IsInstant instant) {stem : List Char} :
    (cutAt (· == '_') stem).1 = instant.toList ↔ stem = instant.toList ∨
      ∃ extension : String, stem = instant.toList ++ '_' :: extension.toList := by
  have underscore : '_' ∉ instant.toList := digits.notMem (by decide)
  constructor
  · intro front
    by_cases mem : '_' ∈ stem
    · obtain ⟨before, rest, rfl, first⟩ := List.eq_append_cons_of_mem mem
      obtain ⟨extension, rfl⟩ := exists_eq_toList rest
      rw [cutAt_append_cons (beq_eq_false_of_notMem first) (beq_self_eq_true '_')] at front
      exact .inr ⟨extension, congrArg (· ++ _) front⟩
    · rw [cutAt_of_not_separates (beq_eq_false_of_notMem mem)] at front
      exact .inl front
  · rintro (rfl | ⟨extension, rfl⟩)
    · rw [cutAt_of_not_separates (beq_eq_false_of_notMem underscore)]
    · rw [cutAt_append_cons (beq_eq_false_of_notMem underscore) (beq_self_eq_true '_')]

/-- Exactly the names of completed commits give an instant. -/
lemma completedInstant?_eq_some_iff :
    completedInstant? name = some instant ↔ NamesCommit instant name := by
  constructor
  · intro found
    have point : '.' ∈ name.toList := by
      by_contra pointless
      rw [completedInstant?, cutAt_of_not_separates (beq_eq_false_of_notMem pointless)] at found
      cases found
    obtain ⟨stem, rest, written, pointless⟩ := List.eq_append_cons_of_mem point
    obtain ⟨action, rfl⟩ := exists_eq_toList rest
    obtain ⟨front, digits, completed⟩ := (completedInstant?_of_stem pointless written).mp found
    rcases (cutAt_eq_instant_iff digits).mp front with rfl | ⟨extension, rfl⟩
    · have whole : name = instant ++ "." ++ action := by
        rw [← String.toList_inj, written]
        simp
      rw [whole]
      exact .plain digits completed
    · have whole : name = instant ++ "_" ++ extension ++ "." ++ action := by
        rw [← String.toList_inj, written]
        simp
      rw [whole]
      exact .extended digits (fun mem => pointless (by simp [mem])) completed
  · intro names
    cases names with
    | @plain action digits completed =>
      have point : '.' ∉ instant.toList := digits.notMem (by decide)
      have written : (instant ++ "." ++ action).toList =
          instant.toList ++ '.' :: action.toList := by simp
      have front := (cutAt_eq_instant_iff digits).mpr (.inl rfl)
      exact (completedInstant?_of_stem point written).mpr ⟨front, digits, completed⟩
    | @extended extension action digits pointless completed =>
      have point : '.' ∉ instant.toList := digits.notMem (by decide)
      have stem : '.' ∉ instant.toList ++ '_' :: extension.toList := by simp [point, pointless]
      have written : (instant ++ "_" ++ extension ++ "." ++ action).toList =
          (instant.toList ++ '_' :: extension.toList) ++ '.' :: action.toList := by simp
      have front := (cutAt_eq_instant_iff digits).mpr (.inr ⟨extension, rfl⟩)
      exact (completedInstant?_of_stem stem written).mpr ⟨front, digits, completed⟩

lemma foldl_later_some (latest : String) (instants : List String) :
    instants.foldl later (some latest) = some (instants.foldl max latest) := by
  induction instants generalizing latest with
  | nil => rfl
  | cons instant rest ih =>
    have step : later (some latest) instant = some (max latest instant) := by
      rw [max_def_lt, later, apply_ite some]
    rw [List.foldl_cons, step, ih, List.foldl_cons]

lemma lastInstant_eq_max? (names : List String) :
    lastInstant names = (names.filterMap completedInstant?).max? := by
  rw [lastInstant]
  cases names.filterMap completedInstant? with
  | nil => rfl
  | cons instant rest => exact foldl_later_some instant rest

section

variable {names names' : List FileName}

/-- The instants that are compared are those of the completed commits. -/
lemma mem_instants_iff :
    instant ∈ (names.filterMap FileName.text?).filterMap completedInstant? ↔
      IsCompleted names instant := by
  simp only [List.mem_filterMap, completedInstant?_eq_some_iff, IsCompleted]
  refine exists_congr fun name => and_congr_left fun _ => ⟨?_, fun mem => ⟨_, mem, rfl⟩⟩
  rintro ⟨text | bytes, mem, same⟩
  · cases same
    exact mem
  · cases same

lemma lastInstant_texts_eq_some_iff :
    lastInstant (names.filterMap FileName.text?) = some instant ↔
      IsCompleted names instant ∧ ∀ other, IsCompleted names other → other ≤ instant := by
  rw [lastInstant_eq_max?, List.max?_eq_some_iff]
  simp only [mem_instants_iff]

lemma lastInstant_texts_eq_none_iff :
    lastInstant (names.filterMap FileName.text?) = none ↔
      ∀ instant, ¬ IsCompleted names instant := by
  rw [lastInstant_eq_max?, List.max?_eq_none_iff, List.eq_nil_iff_forall_not_mem]
  simp only [mem_instants_iff]

lemma isCompleted_congr (same : SameCommits names names') :
    IsCompleted names instant ↔ IsCompleted names' instant :=
  exists_congr fun name => and_congr_left fun names => same instant name names

end

end Timeline

namespace TableReader

open Timeline

variable {base : String} {tree : FileNode} {here there : List FileName}

lemma namesIn_of_lists {folder : FilePath} {names : List FileName}
    (lists : tree.Lists folder names) :
    namesIn base tree folder = .ok (names.filterMap FileName.text?) := by
  rcases lists with listed | ⟨missing, rfl⟩
  · rw [namesIn, listed]
  · rw [namesIn, missing]
    rfl

lemma lastCommit_of_lists (lists : tree.Lists metaFolder here)
    (lists' : tree.Lists timelineFolder there) :
    lastCommit base tree = .ok (lastInstant ((here ++ there).filterMap FileName.text?)) := by
  rw [lastCommit, namesIn_of_lists lists, namesIn_of_lists lists', List.filterMap_append]
  rfl

lemma exists_lists_of_namesIn {folder : FilePath} {found : List String}
    (read : namesIn base tree folder = .ok found) : ∃ names, tree.Lists folder names := by
  unfold namesIn at read
  split at read
  · rename_i names listed
    exact ⟨names, .inl listed⟩
  · rename_i missing
    exact ⟨[], .inr ⟨missing, rfl⟩⟩
  · cases read

/-- The last commit can be read exactly if both folders can be listed. -/
lemma exists_lastCommit_iff : (∃ last, lastCommit base tree = .ok last) ↔
    (∃ here, tree.Lists metaFolder here) ∧ ∃ there, tree.Lists timelineFolder there := by
  constructor
  · rintro ⟨last, read⟩
    obtain ⟨_, read, more⟩ := bind_eq_ok_iff.mp read
    obtain ⟨_, read', -⟩ := bind_eq_ok_iff.mp more
    exact ⟨exists_lists_of_namesIn read, exists_lists_of_namesIn read'⟩
  · rintro ⟨⟨here, lists⟩, there, lists'⟩
    exact ⟨_, lastCommit_of_lists lists lists'⟩

/-- The last commit is the greatest instant of a completed commit that is named in either folder,
and there is none exactly if no completed commit is named. Tables in whose folders the same
completed commits are named have the same last commit: the order of the names, the folder in which
they stand and the names of anything else do not matter. -/
theorem last_commit_is_greatest_completed :
    (∀ base tree, (∃ last, lastCommit base tree = .ok last) ↔
      (∃ here, tree.Lists metaFolder here) ∧ ∃ there, tree.Lists timelineFolder there) ∧
    (∀ base tree here there, tree.Lists metaFolder here → tree.Lists timelineFolder there →
      ∃ last, lastCommit base tree = .ok last ∧
        (∀ instant, last = some instant ↔ IsCompleted (here ++ there) instant ∧
          ∀ other, IsCompleted (here ++ there) other → other ≤ instant) ∧
        (last = none ↔ ∀ instant, ¬ IsCompleted (here ++ there) instant)) ∧
    ∀ base base' tree tree' here there here' there',
      tree.Lists metaFolder here → tree.Lists timelineFolder there →
      tree'.Lists metaFolder here' → tree'.Lists timelineFolder there' →
      SameCommits (here ++ there) (here' ++ there') →
      lastCommit base tree = lastCommit base' tree' := by
  refine ⟨fun base tree => exists_lastCommit_iff, ?_, ?_⟩
  · intro base tree here there lists lists'
    exact ⟨_, lastCommit_of_lists lists lists', fun instant => lastInstant_texts_eq_some_iff,
      lastInstant_texts_eq_none_iff⟩
  · intro base base' tree tree' here there here' there' lists₁ lists₂ lists₁' lists₂' same
    rw [lastCommit_of_lists lists₁ lists₂, lastCommit_of_lists lists₁' lists₂']
    refine congrArg Except.ok (Option.ext fun instant => ?_)
    simp only [lastInstant_texts_eq_some_iff, isCompleted_congr same]

/-- A commit in the timeline folder is the last one of two. It stays the last one when it is moved
beside the other, the folder is gone and another action has become inflight. -/
theorem last_commit_is_greatest_completed_of_orders :
    let file : FileNode := .file []
    let completed := FileName.text "20240502120000000_20240502120005000.deltacommit"
    let earlier := FileName.text "20240501100000000.commit"
    let requested := FileName.text "20240503100000000.commit.requested"
    let inflight := FileName.text "20240504.inflight"
    let timeline := FileNode.directory [(completed, file), (.bytes [0xff], file)]
    let orders := FileNode.directory [(.text ".hoodie", .directory
      [(.text "timeline", timeline), (requested, file), (earlier, file)])]
    let moved := FileNode.directory [(.text ".hoodie", .directory
      [(inflight, file), (earlier, file), (completed, file)])]
    orders.Lists metaFolder [.text "timeline", requested, earlier] ∧
      orders.Lists timelineFolder [completed, .bytes [0xff]] ∧
      moved.Lists metaFolder [inflight, earlier, completed] ∧ moved.Lists timelineFolder [] ∧
      lastCommit "orders" orders = .ok (some "20240502120000000") ∧
      lastCommit "orders" moved = lastCommit "orders" orders := by
  intro file completed earlier requested inflight timeline orders moved
  have here : orders.Lists metaFolder [.text "timeline", requested, earlier] := .inl rfl
  have there : orders.Lists timelineFolder [completed, .bytes [0xff]] := .inl rfl
  have here' : moved.Lists metaFolder [inflight, earlier, completed] := .inl rfl
  have there' : moved.Lists timelineFolder [] := .inr ⟨rfl, rfl⟩
  obtain ⟨-, greatest, rearranged⟩ := last_commit_is_greatest_completed
  obtain ⟨last, read, latest, -⟩ := greatest "orders" orders _ _ here there
  have instants : (([.text "timeline", requested, earlier] ++ [completed, .bytes [0xff]]).filterMap
      FileName.text?).filterMap completedInstant? = ["20240501100000000", "20240502120000000"] := by
    decide
  have found : last = some "20240502120000000" := by
    simp only [latest, ← mem_instants_iff, instants]
    decide
  have unnamed {name : String} (nothing : completedInstant? name = none) (instant : String) :
      ¬ NamesCommit instant name := by
    rw [← completedInstant?_eq_some_iff, nothing]
    nofun
  have same : SameCommits [inflight, earlier, completed]
      [.text "timeline", requested, earlier, completed, .bytes [0xff]] := by
    intro instant name names
    have counts (other : String) (nothing : completedInstant? other = none) : name ≠ other := by
      rintro rfl
      exact unnamed nothing instant names
    simp [earlier, completed, requested, inflight,
      counts "20240504.inflight" (by decide),
      counts "20240503100000000.commit.requested" (by decide),
      counts "timeline" (by decide)]
  refine ⟨here, there, here', there', found ▸ read, ?_⟩
  exact rearranged _ _ _ _ _ _ _ _ here' there' here there same

end TableReader

end LakeCatalog
