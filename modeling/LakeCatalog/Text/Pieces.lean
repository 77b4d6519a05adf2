/-!
# Pieces of a text

Cutting a text at separator characters and putting pieces together again. A text without a
separator is one piece, and every separator ends one piece and begins the next, so the pieces and
the separators between them account for every character.
-/

namespace LakeCatalog.Text

/-- The pieces between the characters that `separates` names, at least one. -/
def pieces (separates : Char → Bool) : List Char → List (List Char)
  | [] => [[]]
  | c :: rest =>
    if separates c then [] :: pieces separates rest
    else match pieces separates rest with
      | [] => [[c]]
      | piece :: more => (c :: piece) :: more

/-- The first piece and, where a separator follows it, all that comes after that separator. -/
def cutAt (separates : Char → Bool) : List Char → List Char × Option (List Char)
  | [] => ([], none)
  | c :: rest =>
    if separates c then ([], some rest)
    else let (before, after) := cutAt separates rest; (c :: before, after)

/-- The pieces with `between` put between each two of them. -/
def joined (between : List Char) : List (List Char) → List Char
  | [] => []
  | [piece] => piece
  | piece :: more => piece ++ between ++ joined between more

def join (between : String) (parts : List String) : String :=
  String.ofList (joined between.toList (parts.map String.toList))

/-- Every occurrence of the first character is replaced by the text. -/
def substitute (c : Char) (text : List Char) (cs : List Char) : List Char :=
  cs.flatMap fun d => if d = c then text else [d]

/-- Cuts a list into runs of `size` elements; the last run holds what is left over. -/
def chunks {α : Type} (size : Nat) (xs : List α) : List (List α) :=
  go xs.length xs
where
  /-- At most `fuel` runs. -/
  go : Nat → List α → List (List α)
    | 0, _ => []
    | _ + 1, [] => []
    | fuel + 1, x :: rest => (x :: rest).take size :: go fuel ((x :: rest).drop size)

/-- A character that does not occur separates nothing. -/
theorem beq_eq_false_of_notMem {c : Char} {cs : List Char} (notMem : c ∉ cs) :
    ∀ d ∈ cs, (d == c) = false :=
  fun _ hd => beq_eq_false_iff_ne.mpr fun same => notMem (same ▸ hd)

theorem joined_cons_cons (between piece next : List Char) (more : List (List Char)) :
    joined between (piece :: next :: more) = piece ++ between ++ joined between (next :: more) :=
  rfl

theorem mem_joined {between : List Char} {parts : List (List Char)} {c : Char}
    (h : c ∈ joined between parts) : c ∈ between ∨ ∃ part ∈ parts, c ∈ part := by
  induction parts with
  | nil => cases h
  | cons part more ih =>
    cases more with
    | nil => exact .inr ⟨part, List.mem_cons_self, h⟩
    | cons next more =>
      rw [joined_cons_cons, List.mem_append, List.mem_append] at h
      rcases h with (first | gap) | rest
      · exact .inr ⟨part, List.mem_cons_self, first⟩
      · exact .inl gap
      · exact (ih rest).imp_right fun ⟨q, hq, hc⟩ => ⟨q, List.mem_cons_of_mem part hq, hc⟩

theorem pieces_ne_nil (separates : Char → Bool) (cs : List Char) : pieces separates cs ≠ [] := by
  cases cs with
  | nil => simp [pieces]
  | cons c rest =>
    unfold pieces
    split
    · simp
    · split <;> simp

/-- No piece holds a separator. -/
theorem not_separates_of_mem_pieces {separates : Char → Bool} {cs piece : List Char}
    (h : piece ∈ pieces separates cs) : ∀ c ∈ piece, separates c = false := by
  induction cs generalizing piece with
  | nil => simp_all [pieces]
  | cons d rest ih =>
    unfold pieces at h
    split at h
    · rcases List.mem_cons.1 h with rfl | h
      · simp
      · exact ih h
    · rename_i hd
      split at h
      · simp_all
      · rename_i first more heq
        rcases List.mem_cons.1 h with rfl | h
        · intro c hc
          rcases List.mem_cons.1 hc with rfl | hc
          · simpa using hd
          · exact ih (by simp [heq]) c hc
        · exact ih (by simp [heq, h])

theorem mem_of_mem_pieces {separates : Char → Bool} {cs piece : List Char}
    (h : piece ∈ pieces separates cs) : ∀ c ∈ piece, c ∈ cs := by
  induction cs generalizing piece with
  | nil =>
    rw [pieces, List.mem_singleton] at h
    rw [h]
    exact List.forall_mem_nil _
  | cons d rest ih =>
    unfold pieces at h
    split at h
    · rcases List.mem_cons.mp h with rfl | h
      · exact List.forall_mem_nil _
      · exact fun c hc => List.mem_cons_of_mem d (ih h c hc)
    · cases found : pieces separates rest with
      | nil => exact absurd found (pieces_ne_nil separates rest)
      | cons first more =>
        rw [found] at h ih
        rcases List.mem_cons.mp h with rfl | h
        · exact List.forall_mem_cons.mpr ⟨List.mem_cons_self,
            fun c hc => List.mem_cons_of_mem d (ih List.mem_cons_self c hc)⟩
        · exact fun c hc => List.mem_cons_of_mem d (ih (List.mem_cons_of_mem first h) c hc)

theorem pieces_of_not_separates {separates : Char → Bool} {cs : List Char}
    (h : ∀ c ∈ cs, separates c = false) : pieces separates cs = [cs] := by
  induction cs with
  | nil => rfl
  | cons c rest ih =>
    have rest_pieces := ih fun d hd => h d (List.mem_cons_of_mem c hd)
    simp [pieces, h c, rest_pieces]

/-- The first separator ends the first piece. -/
theorem pieces_append_cons {separates : Char → Bool} {front : List Char} {c : Char}
    (h : ∀ d ∈ front, separates d = false) (ends : separates c = true) (rest : List Char) :
    pieces separates (front ++ c :: rest) = front :: pieces separates rest := by
  induction front with
  | nil => simp [pieces, ends]
  | cons d front ih =>
    have rest_pieces := ih fun e he => h e (List.mem_cons_of_mem d he)
    simp [pieces, h d, rest_pieces]

theorem cutAt_of_not_separates {separates : Char → Bool} {cs : List Char}
    (h : ∀ c ∈ cs, separates c = false) : cutAt separates cs = (cs, none) := by
  induction cs with
  | nil => rfl
  | cons c rest ih =>
    obtain ⟨first, others⟩ := List.forall_mem_cons.mp h
    rw [cutAt, ih others, first]
    rfl

/-- The first separator ends what is cut off. -/
theorem cutAt_append_cons {separates : Char → Bool} {front : List Char} {c : Char}
    (h : ∀ d ∈ front, separates d = false) (ends : separates c = true) (rest : List Char) :
    cutAt separates (front ++ c :: rest) = (front, some rest) := by
  induction front with
  | nil => simp [cutAt, ends]
  | cons d front ih =>
    obtain ⟨first, others⟩ := List.forall_mem_cons.mp h
    rw [List.cons_append, cutAt, ih others, first]
    rfl

/-- Pieces without a separator are found again when they are joined by one. -/
theorem pieces_joined {separates : Char → Bool} {c : Char} (ends : separates c = true)
    {parts : List (List Char)} (filled : parts ≠ [])
    (h : ∀ piece ∈ parts, ∀ d ∈ piece, separates d = false) :
    pieces separates (joined [c] parts) = parts := by
  induction parts with
  | nil => exact absurd rfl filled
  | cons piece more ih =>
    have first := h piece List.mem_cons_self
    cases more with
    | nil => exact pieces_of_not_separates first
    | cons next more =>
      rw [joined_cons_cons, List.append_assoc, List.singleton_append,
        pieces_append_cons first ends, ih (List.cons_ne_nil next more)]
      exact fun q hq => h q (List.mem_cons_of_mem piece hq)

/-- Elements that are read one by one from their texts are read from all of them. -/
theorem mapM_map_eq_some {α β : Type} {f : α → β} {g : β → Option α} {xs : List α}
    (h : ∀ x ∈ xs, g (f x) = some x) : (xs.map f).mapM g = some xs := by
  induction xs with
  | nil => rfl
  | cons x xs ih =>
    obtain ⟨first, others⟩ := List.forall_mem_cons.mp h
    rw [List.map_cons, List.mapM_cons, first, ih others]
    rfl

theorem prefix_toList_append {front : List Char} {s : String} (h : front <+: s.toList)
    (s' : String) : front <+: (s ++ s').toList := by
  rw [String.toList_append]
  exact h.trans (List.prefix_append _ _)

/-- Texts differ if they begin with texts neither of which begins the other. -/
theorem ne_of_prefix {a b : List Char} {s t : String} (ha : a <+: s.toList) (hb : b <+: t.toList)
    (apart : ¬ (a <+: b ∨ b <+: a)) : s ≠ t := by
  rintro rfl
  exact apart (List.prefix_or_prefix_of_prefix ha hb)

section

variable {α : Type} {size : Nat}

private theorem flatten_go (positive : 0 < size) (fuel : Nat) (xs : List α)
    (enough : xs.length ≤ fuel) : (chunks.go size fuel xs).flatten = xs := by
  induction fuel generalizing xs with
  | zero =>
    have empty : xs = [] := List.length_eq_zero_iff.mp (by omega)
    rw [empty]
    rfl
  | succ fuel ih =>
    cases xs with
    | nil => rfl
    | cons x rest =>
      have shorter : ((x :: rest).drop size).length ≤ fuel := by
        rw [List.length_drop]
        omega
      rw [chunks.go, List.flatten_cons, ih _ shorter, List.take_append_drop]

/-- The runs make up the list. -/
theorem flatten_chunks (positive : 0 < size) (xs : List α) : (chunks size xs).flatten = xs :=
  flatten_go positive xs.length xs (by omega)

theorem chunks_ne_nil {xs : List α} (h : xs ≠ []) : chunks size xs ≠ [] := by
  cases xs with
  | nil => exact absurd rfl h
  | cons x rest => simp [chunks, chunks.go]

private theorem go_nil (fuel : Nat) : chunks.go size fuel ([] : List α) = [] := by
  cases fuel <;> rfl

private theorem bounds_go (positive : 0 < size) (fuel : Nat) (xs : List α) :
    (∀ run ∈ chunks.go size fuel xs, 0 < run.length ∧ run.length ≤ size) ∧
      ∀ run ∈ (chunks.go size fuel xs).dropLast, run.length = size := by
  induction fuel generalizing xs with
  | zero => simp [chunks.go]
  | succ fuel ih =>
    cases xs with
    | nil => simp [chunks.go]
    | cons x rest =>
      obtain ⟨bounded, full⟩ := ih ((x :: rest).drop size)
      rw [chunks.go]
      constructor
      · intro run hrun
        rcases List.mem_cons.mp hrun with rfl | hrun
        · rw [List.length_take, List.length_cons]
          omega
        · exact bounded run hrun
      · intro run hrun
        -- A run before the last one is followed by more, so it could take all that it may hold.
        cases hmore : chunks.go size fuel ((x :: rest).drop size) with
        | nil => simp [hmore] at hrun
        | cons next more =>
          rw [hmore] at full
          rw [hmore, List.dropLast_cons_of_ne_nil (List.cons_ne_nil _ _)] at hrun
          rcases List.mem_cons.mp hrun with rfl | hrun
          · have left : (x :: rest).drop size ≠ [] := by
              intro nothing
              rw [nothing, go_nil] at hmore
              cases hmore
            have longer : size < (x :: rest).length := by
              rw [ne_eq, List.drop_eq_nil_iff] at left
              omega
            rw [List.length_take]
            omega
          · exact full run hrun

/-- No run is empty or too long. -/
theorem length_of_mem_chunks (positive : 0 < size) {xs run : List α} (h : run ∈ chunks size xs) :
    0 < run.length ∧ run.length ≤ size :=
  (bounds_go positive xs.length xs).1 run h

theorem length_of_mem_dropLast_chunks (positive : 0 < size) {xs run : List α}
    (h : run ∈ (chunks size xs).dropLast) : run.length = size :=
  (bounds_go positive xs.length xs).2 run h

end

example : chunks 2 [1, 2, 3, 4, 5] = [[1, 2], [3, 4], [5]] := by decide

end LakeCatalog.Text
