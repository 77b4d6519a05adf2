import LakeCatalog.Proofs.Avro.Scope

/-!
# The types of the parts in the type of the whole

What is read at a place is not lost: the type of a definition has the types of its parts in it, in
the order of the parts. So the type that is read at a place is found at that place in the type of
the whole definition.
-/

namespace LakeCatalog.Avro

open Schema

variable {names after : Names} {i : Nat} {part : Json}

/-- The part of number `i` is read with what is known there, and its type is as given. -/
def ReadAs (values : List Json) (i : Nat) (part : Json) (names : Names) (type : ColumnType) :
    Prop :=
  ∃ known found after, namesThrough? (values.take i) names = some known ∧
    readType part known = .ok (found, after) ∧ found.type = type

lemma ReadAs.cons {value : Json} {values : List Json} {known : Names} {type : ColumnType}
    (first : namesAfter? value names = some known) (read : ReadAs values i part known type) :
    ReadAs (value :: values) (i + 1) part names type := by
  obtain ⟨known', found, after, through, read, same⟩ := read
  refine ⟨known', found, after, ?_, read, same⟩
  rw [List.take_succ_cons, namesThrough?, first, Option.bind_some, through]

lemma readColumns_readAs {record : String} {fields : List Json} {columns : List Column}
    (read : readColumns record fields names = .ok (columns, after))
    (here : (fields.map fieldType)[i]? = some part) :
    ∃ column, columns[i]? = some column ∧
      ReadAs (fields.map fieldType) i part names column.type := by
  induction fields generalizing names columns i with
  | nil => cases here
  | cons field rest ih =>
    rw [readColumns] at read
    obtain ⟨first, known, first', read⟩ := Reading.bind_ok read
    obtain ⟨columns, known', rest, done⟩ := Reading.bind_ok read
    cases done
    obtain ⟨type, found, typed, first, same⟩ := readColumn_ok first'
    have passed : namesAfter? (fieldType field) names = some known := by
      rw [fieldType, typed]
      exact namesAfter?_of_ok first
    cases i with
    | zero =>
      cases here
      refine ⟨_, rfl, names, found, known, rfl, ?_, same.symm⟩
      rw [fieldType, typed]
      exact first
    | succ i =>
      obtain ⟨column, listed, read⟩ := ih rest here
      exact ⟨column, listed, read.cons passed⟩

lemma readBranches_readAs {branches : List Json} {types : List ColumnType} {nullable : Bool}
    (read : readBranches branches names = .ok ((types, nullable), after)) :
    types.length = branches.countP isProper ∧
      ∀ i part, branches[i]? = some part → isProper part = true →
        ∃ type, types[(branches.take i).countP isProper]? = some type ∧
          ReadAs branches i part names type := by
  induction branches generalizing names types nullable with
  | nil =>
    rw [readBranches] at read
    cases read
    refine ⟨rfl, ?_⟩
    intro i part here
    simp at here
  | cons branch rest ih =>
    by_cases bare : branch = .string "null"
    · subst bare
      rw [readBranches] at read
      obtain ⟨pair, known, others, done⟩ := Reading.bind_ok read
      cases done
      obtain ⟨length, each⟩ := ih others
      have passed : ¬ isProper (.string "null") = true := Bool.false_ne_true
      refine ⟨by rw [length, List.countP_cons_of_neg passed], ?_⟩
      intro i part here proper
      cases i with
      | zero => cases here; cases proper
      | succ i =>
        obtain ⟨type, listed, read⟩ := each i part here proper
        refine ⟨type, ?_, read.cons rfl⟩
        rw [List.take_succ_cons, List.countP_cons_of_neg passed, listed]
    · rw [readBranches] at read
      swap
      · exact bare
      obtain ⟨first, known, first', read⟩ := Reading.bind_ok read
      obtain ⟨pair, known', others, done⟩ := Reading.bind_ok read
      cases done
      obtain ⟨length, each⟩ := ih others
      have counted : isProper branch = true := isProper_iff.mpr bare
      refine ⟨by rw [List.length_cons, length, List.countP_cons_of_pos counted], ?_⟩
      intro i part here proper
      cases i with
      | zero =>
        cases here
        exact ⟨first.type, rfl, names, first, known, rfl, first', rfl⟩
      | succ i =>
        obtain ⟨type, listed, read⟩ := each i part here proper
        refine ⟨type, ?_, read.cons (namesAfter?_of_ok first')⟩
        rw [List.take_succ_cons, List.countP_cons_of_pos counted, List.getElem?_cons_succ, listed]

lemma readAs_singleton {value : Json} {found : Definition}
    (read : readType value names = .ok (found, after)) (here : [value][i]? = some part) :
    i = 0 ∧ ReadAs [value] i part names found.type := by
  obtain ⟨bound, rfl⟩ := List.getElem?_eq_some_iff.mp here
  cases Nat.lt_one_iff.mp bound
  exact ⟨rfl, names, found, after, rfl, read, rfl⟩

/-- The type of a part that is read stands in the type of the whole. -/
lemma partType?_of_read {value : Json} {found : Definition}
    (read : readType value names = .ok (found, after)) (here : (parts value)[i]? = some part)
    (proper : isProper part = true) :
    ∃ type, partType? i value found.type = some type ∧ ReadAs (parts value) i part names type := by
  cases value with
  | array branches =>
    rw [readType] at read
    obtain ⟨⟨types, nullable⟩, known, branchesRead, united⟩ := Reading.bind_ok read
    obtain ⟨length, each⟩ := readBranches_readAs branchesRead
    obtain ⟨type, listed, read⟩ := each i part here proper
    refine ⟨type, ?_, read⟩
    rw [partType?]
    obtain ⟨-, single | ⟨several, union⟩⟩ := unionOf_ok united
    · rw [single] at length listed
      have same := List.mem_singleton.mp (List.mem_of_getElem? listed)
      rw [if_pos (length.symm.trans List.length_singleton), same]
    · rw [if_neg (length ▸ several), union]
      exact listed
  | object members =>
    rw [readType_object] at read
    rw [partType?_object, isAround]
    rw [parts] at here ⊢
    generalize form? members = form at read here ⊢
    obtain _ | form := form
    · cases here
    cases form with
    | around value =>
      exact ⟨found.type, rfl, (readAs_singleton read here).2⟩
    | record =>
      obtain ⟨name, known, asked, read⟩ := Reading.bind_ok read
      obtain ⟨columns, through, listed, registered⟩ := Reading.bind_ok read
      obtain ⟨-, rfl⟩ := requireText_ok asked
      obtain ⟨column, standing, readAs⟩ := readColumns_readAs (readColumnsOf_ok listed).2 here
      rw [(registered_ok registered).1]
      refine ⟨column.type, ?_, readAs⟩
      dsimp only [inner]
      rw [if_neg Bool.false_ne_true, List.getElem?_map, standing]
      rfl
    | array | map =>
      obtain ⟨value, item, written, itemRead, rfl⟩ := member_ok read
      dsimp only at here ⊢
      rw [written] at here ⊢
      obtain ⟨rfl, readAs⟩ := readAs_singleton itemRead here
      exact ⟨item.type, rfl, readAs⟩
    | refined | enumeration | fixed | reference =>
      cases here
  | _ => cases here

/-- The type that is read at a place is found at that place in the type of the whole. -/
theorem typeIn?_of_read {value definition : Json} {q : Place} {found : Definition}
    (read : readType value names = .ok (found, after)) (there : at? q value = some definition)
    (proper : isProper definition = true) :
    ∃ type, typeAt? q value names = some type ∧ typeIn? q value found.type = some type := by
  induction q generalizing value names found after with
  | nil =>
    cases there
    exact ⟨found.type, typeAt?_nil read, rfl⟩
  | cons i q ih =>
    obtain ⟨part, here, there⟩ := at?_cons_eq_some_iff.mp there
    have properPart : isProper part = true := by
      refine isProper_iff.mpr ?_
      rintro rfl
      obtain ⟨-, rfl⟩ := eq_of_at?_string there
      cases proper
    obtain ⟨type, stands, known, partFound, after', through, partRead, rfl⟩ :=
      partType?_of_read read here properPart
    obtain ⟨type, typed, inWhole⟩ := ih partRead there
    refine ⟨type, ?_, ?_⟩
    · rw [typeAt?_cons here, through, Option.bind_some, typed]
    · rw [typeIn?, here]
      simp only [Option.bind_eq_bind, Option.bind_some, stands, inWhole]

end LakeCatalog.Avro
