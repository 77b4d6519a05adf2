import LakeCatalog.Proofs.Url.Host

/-!
# The parts of a web address

Scheme, name and password, path, query and fragment, each read on its own. What reading gives is
encoded and, for a path, resolved; and a part in this form is read from its text unchanged.
-/

namespace LakeCatalog.Url

open Text

/-- A run ends where a character outside begins the rest. -/
lemma takeWhile_append_of_boundary {p : Char → Bool} {front rest : List Char}
    (inside : ∀ c ∈ front, p c = true) (boundary : ∀ c ∈ rest.head?, p c = false) :
    (front ++ rest).takeWhile p = front ∧ (front ++ rest).dropWhile p = rest := by
  have stops : rest.takeWhile p = [] ∧ rest.dropWhile p = rest := by
    cases rest with
    | nil => exact ⟨rfl, rfl⟩
    | cons c rest => simp [boundary c rfl]
  rw [List.takeWhile_append_of_pos inside, List.dropWhile_append_of_pos inside, stops.1, stops.2,
    List.append_nil]
  exact ⟨rfl, rfl⟩

/-- Nothing is cleaned off a text that can be seen. -/
lemma cleaned_of_isVisible {cs : List Char} (visible : ∀ c ∈ cs, IsVisible c) :
    cleaned cs = cs := by
  have stays {cs : List Char} (visible : ∀ c ∈ cs, IsVisible c) :
      cs.dropWhile isControlOrSpace = cs := by
    cases cs with
    | nil => rfl
    | cons c rest =>
      have seen := (visible c List.mem_cons_self).1
      exact List.dropWhile_cons_of_neg (by simp [isControlOrSpace]; omega)
  have kept : ∀ c ∈ cs, (!(c == '\t' || c == '\n' || c == '\r')) = true := by
    intro c hc
    have seen := (visible c hc).1
    have blanks : ∀ d ∈ ['\t', '\n', '\r'], ¬ IsVisible d := forall_mem_of_all (by decide)
    simp only [Bool.not_eq_true', Bool.or_eq_false_iff, beq_eq_false_iff_ne]
    refine ⟨⟨?_, ?_⟩, ?_⟩ <;> rintro rfl <;> exact blanks _ (by decide) (visible _ hc)
  unfold cleaned
  dsimp only
  rw [stays visible, stays fun c hc => visible c (List.mem_reverse.mp hc), List.reverse_reverse,
    List.filter_eq_self.mpr kept]

/-- The schemes of the web begin with a letter and are in lower case. -/
lemma webSchemes_sound : ∀ entry ∈ webSchemes, entry.1.toList.head?.any isLetter = true ∧
    entry.1.toList.all (fun c => isSchemeChar c = true ∧ c.toLower = c ∧ IsVisible c) = true := by
  decide +kernel

section

variable {scheme : List Char} {n : Nat} (known : defaultPort? scheme = some n)
include known

lemma mem_webSchemes : (String.ofList scheme, n) ∈ webSchemes := by
  obtain ⟨front, back, same, -⟩ := List.lookup_eq_some_iff.mp known
  rw [same]
  exact List.mem_append_right front List.mem_cons_self

lemma forall_mem_webScheme :
    ∀ c ∈ scheme, isSchemeChar c = true ∧ c.toLower = c ∧ IsVisible c := by
  have all := (webSchemes_sound _ (mem_webSchemes known)).2
  rw [String.toList_ofList] at all
  exact forall_mem_of_all all

lemma scheme?_append (rest : List Char) :
    scheme? (scheme ++ ':' :: rest) = some (scheme, rest) := by
  have chars := forall_mem_webScheme known
  have letter := (webSchemes_sound _ (mem_webSchemes known)).1
  rw [String.toList_ofList] at letter
  obtain ⟨run, behind⟩ : (scheme ++ ':' :: rest).takeWhile isSchemeChar = scheme ∧
      (scheme ++ ':' :: rest).dropWhile isSchemeChar = ':' :: rest :=
    takeWhile_append_of_boundary (fun c hc => (chars c hc).1) (by rintro c ⟨⟩; decide)
  have same : scheme.map Char.toLower = scheme :=
    (List.map_congr_left fun c hc => (chars c hc).2.1).trans (List.map_id scheme)
  cases scheme with
  | nil => cases letter
  | cons c more =>
    rw [List.head?_cons, Option.any_some] at letter
    rw [List.cons_append] at run behind ⊢
    unfold scheme?
    simp only [letter, run, behind, same]

end

def IsUserinfo (cs : List Char) : Prop :=
  ∃ user password, Avoids userinfoSet user ∧ (∀ p ∈ password, p ≠ [] ∧ Avoids userinfoSet p) ∧
    cs = user ++ marked ':' password

lemma ne_of_avoids {set : EncodeSet} {cs : List Char} (avoids : Avoids set cs) {d : Char}
    (encoded : set d = true) : ∀ c ∈ cs, c ≠ d := by
  rintro c hc rfl
  rw [avoids c hc] at encoded
  cases encoded

lemma isUserinfo_encodedUserinfo (cs : List Char) : IsUserinfo (encodedUserinfo cs) := by
  unfold encodedUserinfo
  generalize cutAt (· == ':') cs = cut
  obtain ⟨user, password⟩ := cut
  have name := avoids_percentEncode userinfoSet_isSound user
  dsimp only
  split
  · exact ⟨_, none, name, by simp, by simp [marked]⟩
  · exact ⟨_, none, name, by simp, by simp [marked]⟩
  · rename_i password filled
    refine ⟨_, some (percentEncode userinfoSet password), name, ?_, rfl⟩
    rintro p ⟨⟩
    exact ⟨percentEncode_ne_nil filled, avoids_percentEncode userinfoSet_isSound password⟩

/-- What is encoded already stays as it is. -/
lemma encodedUserinfo_of_isUserinfo {cs : List Char} (encoded : IsUserinfo cs) :
    encodedUserinfo cs = cs := by
  obtain ⟨user, password, name, secret, rfl⟩ := encoded
  have colonless : ∀ c ∈ user, (c == ':') = false := fun c hc =>
    beq_eq_false_iff_ne.mpr (ne_of_avoids name (by decide) c hc)
  cases password with
  | none =>
    rw [marked, List.append_nil, encodedUserinfo, cutAt_of_not_separates colonless]
    exact percentEncode_of_avoids name
  | some password =>
    obtain ⟨filled, hidden⟩ := secret password rfl
    rw [marked, encodedUserinfo, cutAt_append_cons colonless rfl]
    simp only [percentEncode_of_avoids name, percentEncode_of_avoids hidden]

lemma isServerChar_of_isUserinfo {cs : List Char} (encoded : IsUserinfo cs) :
    ∀ c ∈ cs, IsServerChar c := by
  have plain {cs : List Char} (avoids : Avoids userinfoSet cs) : ∀ c ∈ cs, IsServerChar c := by
    have ends : ∀ d ∈ ['/', '\\', '?', '#', '@'], userinfoSet d = true :=
      forall_mem_of_all (by decide)
    exact fun c hc => ⟨userinfoSet_isSound.visible c (avoids c hc),
      fun mem => ne_of_avoids avoids (ends c mem) c hc rfl⟩
  obtain ⟨user, password, name, secret, rfl⟩ := encoded
  refine List.forall_mem_append.mpr ⟨plain name, ?_⟩
  cases password with
  | none => exact List.forall_mem_nil _
  | some password => exact List.forall_mem_cons.mpr ⟨by decide, plain (secret password rfl).2⟩

lemma cutAtLastAt_eq_none {cs : List Char} (notMem : '@' ∉ cs) : cutAtLastAt cs = none := by
  induction cs with
  | nil => rfl
  | cons c rest ih =>
    rw [List.mem_cons, not_or] at notMem
    simp only [cutAtLastAt, ih notMem.2, if_neg (Ne.symm notMem.1)]

lemma cutAtLastAt_append {back : List Char} (notMem : '@' ∉ back) (front : List Char) :
    cutAtLastAt (front ++ '@' :: back) = some (front, back) := by
  induction front with
  | nil => simp [cutAtLastAt, cutAtLastAt_eq_none notMem]
  | cons c front ih => simp [cutAtLastAt, ih]

lemma lt_of_readPort {cs : List Char} {given : Option Nat} (read : readPort cs = .ok given) :
    ∀ port ∈ given, port < 65536 := by
  unfold readPort at read
  split at read
  · cases read
    rintro port ⟨⟩
  · split at read
    · rename_i sound
      cases read
      rw [Bool.and_eq_true, decide_eq_true_eq] at sound
      rintro port ⟨⟩
      exact sound.2
    · cases read

lemma readPort_marked {port : Option Nat} (small : ∀ n ∈ port, n < 65536) :
    readPort ((port.map decimalDigits).getD []) = .ok port := by
  cases port with
  | none => rfl
  | some n =>
    have filled : decimalDigits n ≠ [] := Nat.toDigits_ne_nil
    have digits : (decimalDigits n).all isDigit = true :=
      List.all_eq_true.mpr fun _ => isDigit_of_mem_decimalDigits
    have fits : n < 65536 := small n rfl
    simp [readPort, filled, digits, fits, digitsValue_decimalDigits]

structure IsSegment (segment : List Char) : Prop where
  encoded : Avoids pathSet segment
  whole : ∀ c ∈ segment, isSlash c = false
  named : isSingleDot segment = false ∧ isDoubleDot segment = false

lemma isSegment_nil : IsSegment [] where
  encoded := List.forall_mem_nil _
  whole := List.forall_mem_nil _
  named := by decide

lemma mem_of_mem_shortened {segments : List (List Char)} {s : List Char}
    (mem : s ∈ shortened segments) : s ∈ segments := by
  unfold shortened at mem
  split at mem
  · split at mem
    · exact mem
    · exact List.dropLast_subset segments mem
  · cases mem

/-- Resolving dots leaves segments in normal form. -/
lemma isSegment_of_mem_resolved {done segments : List (List Char)}
    (before : ∀ s ∈ done, IsSegment s)
    (encoded : ∀ s ∈ segments, Avoids pathSet s ∧ ∀ c ∈ s, isSlash c = false) :
    ∀ s ∈ resolved done segments, IsSegment s := by
  have above {done : List (List Char)} (before : ∀ s ∈ done, IsSegment s) :
      ∀ s ∈ shortened done, IsSegment s := fun s hs => before s (mem_of_mem_shortened hs)
  have put {done : List (List Char)} {s : List Char} (before : ∀ s ∈ done, IsSegment s)
      (segment : IsSegment s) : ∀ s' ∈ done ++ [s], IsSegment s' :=
    List.forall_mem_append.mpr ⟨before, List.forall_mem_singleton.mpr segment⟩
  -- One case for each clause of `resolved`; where the last segment is a dot, an empty one is put.
  fun_induction resolved done segments with
  | case1 => exact before
  | case2 => exact put (above before) isSegment_nil
  | case3 => exact put before isSegment_nil
  | case4 done last double single =>
    obtain ⟨avoids, whole⟩ := encoded last List.mem_cons_self
    exact put before ⟨avoids, whole, by simpa using single, by simpa using double⟩
  | case5 done segment rest _ double ih =>
    exact ih (above before) (List.forall_mem_cons.mp encoded).2
  | case6 done segment rest _ double single ih =>
    exact ih before (List.forall_mem_cons.mp encoded).2
  | case7 done segment rest _ double single ih =>
    obtain ⟨⟨avoids, whole⟩, others⟩ := List.forall_mem_cons.mp encoded
    exact ih (put before ⟨avoids, whole, by simpa using single, by simpa using double⟩) others

lemma resolved_ne_nil {done segments : List (List Char)} (filled : segments ≠ []) :
    resolved done segments ≠ [] := by
  fun_induction resolved done segments with
  | case1 => exact absurd rfl filled
  | case2 => simp
  | case3 => simp
  | case4 => simp
  | case5 done segment rest more double ih => exact ih more
  | case6 done segment rest more double single ih => exact ih more
  | case7 done segment rest more double single ih => exact ih more

/-- Where there are no dots nothing is resolved. -/
lemma resolved_of_isSegment {done segments : List (List Char)}
    (plain : ∀ s ∈ segments, IsSegment s) : resolved done segments = done ++ segments := by
  induction segments generalizing done with
  | nil => rw [resolved, List.append_nil]
  | cons segment rest ih =>
    obtain ⟨first, others⟩ := List.forall_mem_cons.mp plain
    obtain ⟨single, double⟩ := first.named
    cases rest with
    | nil => simp [resolved, single, double]
    | cons next rest =>
      rw [resolved, single, double]
      simp only [Bool.false_eq_true, if_false]
      rw [ih others, List.append_assoc, List.singleton_append]
      exact List.cons_ne_nil _ _

/-- What is read as a path is in normal form. -/
lemma isSegment_of_mem_readPath (cs : List Char) : ∀ s ∈ readPath cs, IsSegment s := by
  unfold readPath
  refine isSegment_of_mem_resolved (List.forall_mem_nil _) fun s mem => ?_
  obtain ⟨piece, hpiece, rfl⟩ := List.mem_map.mp mem
  refine ⟨avoids_percentEncode pathSet_isSound piece, fun c hc => ?_⟩
  have digit : ∀ d < 16, isSlash (hexDigit d).toUpper = false := by decide
  rcases of_mem_percentEncode hc with ⟨inside, -⟩ | rfl | ⟨d, hd, rfl⟩
  · exact not_separates_of_mem_pieces hpiece c inside
  · decide
  · exact digit d hd

lemma readPath_ne_nil (cs : List Char) : readPath cs ≠ [] :=
  resolved_ne_nil (by simp [pieces_ne_nil])

/-- The text of a path that is not empty. -/
lemma flatMap_slash {path : List (List Char)} (filled : path ≠ []) :
    path.flatMap ('/' :: ·) = '/' :: joined ['/'] path := by
  induction path with
  | nil => exact absurd rfl filled
  | cons segment more ih =>
    cases more with
    | nil => simp [joined]
    | cons next more => rw [List.flatMap_cons, ih (List.cons_ne_nil _ _), joined_cons_cons]; simp

lemma eq_slash_of_mem_head?_flatMap {path : List (List Char)} :
    ∀ c ∈ (path.flatMap ('/' :: ·)).head?, c = '/' := by
  cases path with
  | nil => rintro c ⟨⟩
  | cons s path =>
    rintro c ⟨⟩
    rfl

/-- The text of a path holds nothing that ends it. -/
lemma of_mem_flatMap_slash {path : List (List Char)} (plain : ∀ s ∈ path, IsSegment s) :
    ∀ c ∈ path.flatMap ('/' :: ·), IsVisible c ∧ endsPath c = false := by
  have ends : ∀ d ∈ ['?', '#'], pathSet d = true := forall_mem_of_all (by decide)
  intro c mem
  obtain ⟨s, hs, hc⟩ := List.mem_flatMap.mp mem
  rcases List.mem_cons.mp hc with rfl | hc
  · decide
  · have avoids := (plain s hs).encoded
    refine ⟨pathSet_isSound.visible c (avoids c hc), ?_⟩
    rw [endsPath, Bool.or_eq_false_iff, beq_eq_false_iff_ne, beq_eq_false_iff_ne]
    exact ⟨ne_of_avoids avoids (ends '?' (by decide)) c hc,
      ne_of_avoids avoids (ends '#' (by decide)) c hc⟩

/-- A path is read from its text. -/
lemma readPath_flatMap {path : List (List Char)} (filled : path ≠ [])
    (plain : ∀ s ∈ path, IsSegment s) : readPath (path.flatMap ('/' :: ·)) = path := by
  have found : pieces isSlash (joined ['/'] path) = path :=
    pieces_joined rfl filled fun s hs => (plain s hs).whole
  have same : path.map (percentEncode pathSet) = path :=
    (List.map_congr_left fun s hs => percentEncode_of_avoids (plain s hs).encoded).trans
      (List.map_id path)
  rw [flatMap_slash filled, readPath]
  simp only [show isSlash '/' = true from rfl, if_true, found, same, resolved_of_isSegment plain,
    List.nil_append]

lemma avoids_readTail (cs : List Char) : (∀ q ∈ (readTail cs).1, Avoids querySet q) ∧
    ∀ f ∈ (readTail cs).2, Avoids fragmentSet f := by
  unfold readTail
  dsimp only
  constructor
  · intro q hq
    split at hq
    · cases hq
      exact avoids_percentEncode querySet_isSound _
    · cases hq
  · intro f hf
    obtain ⟨fragment, -, rfl⟩ := Option.map_eq_some_iff.mp hf
    exact avoids_percentEncode fragmentSet_isSound fragment

lemma isVisible_of_mem_marked {query fragment : Option (List Char)}
    (hquery : ∀ q ∈ query, Avoids querySet q) (hfragment : ∀ f ∈ fragment, Avoids fragmentSet f) :
    ∀ c ∈ marked '?' query ++ marked '#' fragment, IsVisible c := by
  have part {set : EncodeSet} (sound : set.IsSound) {mark : Char} (seen : IsVisible mark)
      {text : Option (List Char)} (avoids : ∀ cs ∈ text, Avoids set cs) :
      ∀ c ∈ marked mark text, IsVisible c := by
    cases text with
    | none => exact List.forall_mem_nil _
    | some cs => exact List.forall_mem_cons.mpr ⟨seen, fun c hc =>
        sound.visible c (avoids cs rfl c hc)⟩
  exact List.forall_mem_append.mpr ⟨part querySet_isSound (by decide) hquery,
    part fragmentSet_isSound (by decide) hfragment⟩

lemma endsPath_of_mem_head?_marked {query fragment : Option (List Char)} :
    ∀ c ∈ (marked '?' query ++ marked '#' fragment).head?, endsPath c = true := by
  cases query with
  | some q => rintro c ⟨⟩; rfl
  | none =>
    cases fragment with
    | some f => rintro c ⟨⟩; rfl
    | none => rintro c ⟨⟩

/-- Query and fragment are read from their texts. -/
lemma readTail_marked {query fragment : Option (List Char)}
    (hquery : ∀ q ∈ query, Avoids querySet q) (hfragment : ∀ f ∈ fragment, Avoids fragmentSet f) :
    readTail (marked '?' query ++ marked '#' fragment) = (query, fragment) := by
  have markless : ∀ c ∈ marked '?' query, (c == '#') = false := by
    cases query with
    | none => exact List.forall_mem_nil _
    | some q => exact List.forall_mem_cons.mpr ⟨by decide, fun c hc =>
        beq_eq_false_iff_ne.mpr (ne_of_avoids (hquery q rfl) (by decide) c hc)⟩
  have cut : cutAt (· == '#') (marked '?' query ++ marked '#' fragment) =
      (marked '?' query, fragment) := by
    cases fragment with
    | none => rw [marked, List.append_nil, cutAt_of_not_separates markless]
    | some f => exact cutAt_append_cons markless rfl f
  have kept : fragment.map (percentEncode fragmentSet) = fragment := by
    cases fragment with
    | none => rfl
    | some f => exact congrArg some (percentEncode_of_avoids (hfragment f rfl))
  rw [readTail, cut]
  simp only [kept]
  cases query with
  | none => rfl
  | some q => simp only [marked, percentEncode_of_avoids (hquery q rfl)]

end LakeCatalog.Url
