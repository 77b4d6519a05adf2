import LakeCatalog.Fault
import LakeCatalog.Proofs.Url.Parts

/-!
# Web addresses read back

An address that was read is in normal form: each part is encoded, the path is resolved, and the port
is not the default one. In the text of such an address every part ends where the mark of the next
one stands, so whatever path, query and fragment are put behind its origin, they are read as the
address with these parts in the place of its own.
-/

namespace LakeCatalog.Url

open Text

def endsAuthority (c : Char) : Bool := isSlash c || endsPath c

def credentials (authority : List Char) : List Char × List Char :=
  match cutAtLastAt authority with
  | some (before, after) => (encodedUserinfo before, after)
  | none => ([], authority)

lemma IsServerChar.endsAuthority_eq_false {c : Char} (h : IsServerChar c) :
    endsAuthority c = false := by
  have among : endsAuthority c = true → c ∈ ['/', '\\', '?', '#', '@'] := by
    simp only [endsAuthority, isSlash, endsPath, Bool.or_eq_true, beq_iff_eq]
    rintro ((rfl | rfl) | (rfl | rfl)) <;> decide
  exact Bool.eq_false_iff.mpr fun ends => h.2 (among ends)

lemma isUserinfo_credentials (authority : List Char) : IsUserinfo (credentials authority).1 := by
  unfold credentials
  split
  · exact isUserinfo_encodedUserinfo _
  · exact ⟨[], none, List.forall_mem_nil _, by simp, rfl⟩

def serverText (u : Url) : List Char :=
  u.host.text ++ marked ':' (u.port.map decimalDigits)

/-- The text between the scheme and the path. -/
def authorityText (u : Url) : List Char :=
  (if u.userinfo.isEmpty then [] else u.userinfo ++ ['@']) ++ u.serverText

/-- The text before the path. -/
def originText (u : Url) : List Char :=
  u.scheme ++ ':' :: '/' :: '/' :: u.authorityText

def tailText (u : Url) : List Char :=
  marked '?' u.query ++ marked '#' u.fragment

lemma chars_eq (u : Url) : u.chars = u.originText ++ (u.pathText ++ u.tailText) := by
  simp [chars, originText, authorityText, serverText, tailText]

structure IsNormal [DomainRule] (u : Url) : Prop where
  scheme : ∃ port, defaultPort? u.scheme = some port ∧ u.port ≠ some port
  userinfo : IsUserinfo u.userinfo
  host : u.host.IsSound
  port : ∀ port ∈ u.port, port < 65536
  path : u.path ≠ [] ∧ ∀ s ∈ u.path, IsSegment s
  query : ∀ q ∈ u.query, Avoids querySet q
  fragment : ∀ f ∈ u.fragment, Avoids fragmentSet f

/-- How the parts of an address are read from an authority and what follows it. -/
structure IsRead [DomainRule] (u : Url) (port : Nat) (authority rest : List Char) : Prop where
  userinfo : u.userinfo = (credentials authority).1
  filled : (cutHost false (credentials authority).2).1 ≠ []
  host : Host.parse (cutHost false (credentials authority).2).1 = .ok u.host
  port : ∃ given, readPort ((cutHost false (credentials authority).2).2.getD []) = .ok given ∧
    u.port = if given = some port then none else given
  path : u.path = readPath (rest.takeWhile (!endsPath ·))
  tail : (u.query, u.fragment) = readTail (rest.dropWhile (!endsPath ·))

section

variable [DomainRule] {u : Url} {scheme cs : List Char} {port : Nat}

lemma readWeb_eq_ok_iff : readWeb scheme port cs = .ok u ↔
    u.scheme = scheme ∧ u.IsRead port ((cs.dropWhile isSlash).takeWhile (!endsAuthority ·))
      ((cs.dropWhile isSlash).dropWhile (!endsAuthority ·)) := by
  have opened : readWeb scheme port cs =
      let authority := (cs.dropWhile isSlash).takeWhile (!endsAuthority ·)
      let rest := (cs.dropWhile isSlash).dropWhile (!endsAuthority ·)
      let server := cutHost false (credentials authority).2
      if server.1.isEmpty then .error .emptyHost
      else Host.parse server.1 >>= fun host => readPort (server.2.getD []) >>= fun given =>
        .ok {
          scheme, host
          userinfo := (credentials authority).1
          port := if given = some port then none else given
          path := readPath (rest.takeWhile (!endsPath ·))
          query := (readTail (rest.dropWhile (!endsPath ·))).1
          fragment := (readTail (rest.dropWhile (!endsPath ·))).2 } := by
    unfold readWeb
    dsimp only
    split
    · rename_i empty
      exact (if_pos empty).symm
    · rename_i filled
      exact (if_neg filled).symm
  rw [opened]
  dsimp only
  generalize (cs.dropWhile isSlash).takeWhile (!endsAuthority ·) = authority
  generalize (cs.dropWhile isSlash).dropWhile (!endsAuthority ·) = rest
  constructor
  · intro read
    split at read
    · cases read
    · rename_i filled
      obtain ⟨host, named, read⟩ := bind_eq_ok_iff.mp read
      obtain ⟨given, numbered, read⟩ := bind_eq_ok_iff.mp read
      cases read
      exact ⟨rfl, rfl, by simpa using filled, named, ⟨given, numbered, rfl⟩, rfl, rfl⟩
  · rintro ⟨rfl, userinfo, filled, named, ⟨given, numbered, known⟩, path, tail⟩
    rw [if_neg (by simpa using filled), bind_eq_ok_iff]
    refine ⟨u.host, named, bind_eq_ok_iff.mpr ⟨given, numbered, ?_⟩⟩
    rw [← userinfo, ← known, ← path, ← tail]

lemma isNormal_of_isRead (lawful : DomainRule.Lawful) {authority rest : List Char}
    (known : defaultPort? u.scheme = some port) (read : u.IsRead port authority rest) :
    u.IsNormal := by
  obtain ⟨given, numbered, portRead⟩ := read.port
  obtain ⟨query, fragment⟩ := avoids_readTail (rest.dropWhile (!endsPath ·))
  rw [← read.tail] at query fragment
  exact {
    scheme := by
      refine ⟨port, known, ?_⟩
      rw [portRead]
      split
      · exact Option.some_ne_none port |>.symm
      · assumption
    userinfo := read.userinfo ▸ isUserinfo_credentials authority
    host := Host.isSound_of_parse lawful read.host
    port := by
      rw [portRead]
      split
      · rintro port ⟨⟩
      · exact lt_of_readPort numbered
    path := by
      rw [read.path]
      exact ⟨readPath_ne_nil _, isSegment_of_mem_readPath _⟩
    query
    fragment }

/-- What is read as a web address is in normal form. -/
lemma isNormal_of_parseChars (lawful : DomainRule.Lawful) (read : parseChars cs = .ok (.web u)) :
    u.IsNormal := by
  unfold parseChars at read
  split at read
  · cases read
  · rename_i scheme rest _
    split at read
    · rename_i port known
      cases web : readWeb scheme port rest with
      | error cause =>
        rw [web] at read
        cases read
      | ok url =>
        rw [web] at read
        cases read
        obtain ⟨rfl, parts⟩ := readWeb_eq_ok_iff.mp web
        exact isNormal_of_isRead lawful known parts
    · dsimp only at read
      split at read
      · cases checked : checkFile rest with
        | error cause => rw [checked] at read; cases read
        | ok _ => rw [checked] at read; cases read
      · cases checked : checkOther rest with
        | error cause => rw [checked] at read; cases read
        | ok _ => rw [checked] at read; cases read

variable (normal : u.IsNormal)
include normal

lemma IsNormal.isServerChar_of_mem_serverText : ∀ c ∈ u.serverText, IsServerChar c := by
  refine List.forall_mem_append.mpr ⟨fun c => Host.isServerChar_of_mem_text normal.host, ?_⟩
  cases u.port with
  | none => exact List.forall_mem_nil _
  | some n => exact List.forall_mem_cons.mpr ⟨by decide, fun c hc =>
      (isDomainChar_of_isDigit (.inl (isDigit_of_mem_decimalDigits hc))).isServerChar⟩

lemma IsNormal.credentials_authorityText :
    credentials u.authorityText = (u.userinfo, u.serverText) := by
  have noAt : '@' ∉ u.serverText := fun mem =>
    (normal.isServerChar_of_mem_serverText _ mem).2 (by decide)
  unfold authorityText credentials
  split
  · rename_i before after cut
    split at cut
    · rw [List.nil_append, cutAtLastAt_eq_none noAt] at cut
      cases cut
    · rw [List.append_assoc, List.singleton_append, cutAtLastAt_append noAt] at cut
      cases cut
      rw [encodedUserinfo_of_isUserinfo normal.userinfo]
  · rename_i cut
    split at cut
    · rename_i empty
      rw [if_pos empty, List.nil_append, List.isEmpty_iff.mp empty]
    · rw [List.append_assoc, List.singleton_append, cutAtLastAt_append noAt] at cut
      cases cut

/-- The parts of an address in normal form are read from its authority; path, query and fragment
from what follows. -/
lemma IsNormal.isRead (lawful : DomainRule.Lawful) (known : defaultPort? u.scheme = some port)
    (rest : List Char) :
    ({ u with
      path := readPath (rest.takeWhile (!endsPath ·))
      query := (readTail (rest.dropWhile (!endsPath ·))).1
      fragment := (readTail (rest.dropWhile (!endsPath ·))).2 } : Url).IsRead port
        u.authorityText rest := by
  have cut : cutHost false (credentials u.authorityText).2 =
      (u.host.text, u.port.map decimalDigits) := by
    rw [normal.credentials_authorityText]
    exact Host.cutHost_text normal.host _
  exact {
    userinfo := by rw [normal.credentials_authorityText]
    filled := by
      rw [cut]
      exact Host.text_ne_nil normal.host
    host := by
      rw [cut]
      exact Host.parse_text lawful normal.host
    port := by
      obtain ⟨default, known', other⟩ := normal.scheme
      rw [known, Option.some.injEq] at known'
      rw [cut]
      exact ⟨u.port, readPort_marked normal.port, (if_neg (known' ▸ other)).symm⟩
    path := rfl
    tail := rfl }

lemma IsNormal.of_mem_authorityText {c : Char} (mem : c ∈ u.authorityText) :
    IsVisible c ∧ endsAuthority c = false := by
  have at_sign : IsVisible '@' ∧ endsAuthority '@' = false := by decide
  have server {c : Char} (h : IsServerChar c) : IsVisible c ∧ endsAuthority c = false :=
    ⟨h.1, h.endsAuthority_eq_false⟩
  unfold authorityText at mem
  rcases List.mem_append.mp mem with front | back
  · split at front
    · cases front
    · rcases List.mem_append.mp front with name | sign
      · exact server (isServerChar_of_isUserinfo normal.userinfo c name)
      · exact List.mem_singleton.mp sign ▸ at_sign
  · exact server (normal.isServerChar_of_mem_serverText c back)

lemma IsNormal.authorityText_ne_nil : u.authorityText ≠ [] :=
  List.append_ne_nil_of_right_ne_nil _
    (List.append_ne_nil_of_left_ne_nil (Host.text_ne_nil normal.host) _)

lemma IsNormal.isVisible_of_mem_originText {c : Char} (mem : c ∈ u.originText) : IsVisible c := by
  obtain ⟨port, known, -⟩ := normal.scheme
  have marks : ∀ c ∈ [':', '/', '/'], IsVisible c := forall_mem_of_all (by decide)
  rcases List.mem_append.mp mem with scheme | rest
  · exact (forall_mem_webScheme known c scheme).2.2
  · rcases List.mem_append.mp (show c ∈ [':', '/', '/'] ++ u.authorityText from rest) with
      mark | authority
    · exact marks c mark
    · exact (normal.of_mem_authorityText authority).1

variable (lawful : DomainRule.Lawful)
include lawful

/-- Whatever path, query and fragment are put behind the origin of an address, they are read as the
address with these parts in the place of its own. -/
lemma IsNormal.parseChars_append {path : List Char} {query fragment : Option (List Char)}
    (begins : ∀ c ∈ path.head?, c = '/') (within : ∀ c ∈ path, IsVisible c ∧ endsPath c = false)
    (hquery : ∀ q ∈ query, Avoids querySet q) (hfragment : ∀ f ∈ fragment, Avoids fragmentSet f) :
    parseChars (u.originText ++ (path ++ (marked '?' query ++ marked '#' fragment))) =
      .ok (.web { u with path := readPath path, query, fragment }) := by
  obtain ⟨port, known, -⟩ := normal.scheme
  generalize htail : marked '?' query ++ marked '#' fragment = tail
  have tailVisible : ∀ c ∈ tail, IsVisible c := htail ▸ isVisible_of_mem_marked hquery hfragment
  have tailBegins : ∀ c ∈ tail.head?, endsPath c = true := htail ▸ endsPath_of_mem_head?_marked
  have visible : ∀ c ∈ u.originText ++ (path ++ tail), IsVisible c :=
    List.forall_mem_append.mpr ⟨fun c hc => normal.isVisible_of_mem_originText hc,
      List.forall_mem_append.mpr ⟨fun c hc => (within c hc).1, tailVisible⟩⟩
  -- The authority ends where the path, the query or the fragment begins.
  obtain ⟨authority, rest⟩ : (u.authorityText ++ (path ++ tail)).takeWhile (!endsAuthority ·) =
      u.authorityText ∧ (u.authorityText ++ (path ++ tail)).dropWhile (!endsAuthority ·) =
        path ++ tail := by
    refine takeWhile_append_of_boundary
      (fun c hc => by simp [(normal.of_mem_authorityText hc).2]) fun c hc => ?_
    have ends : endsAuthority c = true := by
      cases path with
      | nil => simp [endsAuthority, tailBegins c hc]
      | cons d path =>
        cases hc
        rw [begins c rfl]
        rfl
    simp [ends]
  obtain ⟨pathRead, tailRead⟩ : (path ++ tail).takeWhile (!endsPath ·) = path ∧
      (path ++ tail).dropWhile (!endsPath ·) = tail :=
    takeWhile_append_of_boundary (fun c hc => by simp [(within c hc).2])
      fun c hc => by simp [tailBegins c hc]
  have slashes : ('/' :: '/' :: (u.authorityText ++ (path ++ tail))).dropWhile isSlash =
      u.authorityText ++ (path ++ tail) := by
    obtain ⟨c, more, split⟩ := List.exists_cons_of_ne_nil normal.authorityText_ne_nil
    have stops := (normal.of_mem_authorityText (split ▸ List.mem_cons_self : c ∈ _)).2
    rw [endsAuthority, Bool.or_eq_false_iff] at stops
    rw [split]
    simp [show isSlash '/' = true from rfl, stops.1]
  have web : readWeb u.scheme port ('/' :: '/' :: (u.authorityText ++ (path ++ tail))) =
      .ok { u with path := readPath path, query, fragment } := by
    have parts := normal.isRead lawful known (path ++ tail)
    rw [pathRead, tailRead, ← htail, readTail_marked hquery hfragment, htail] at parts
    rw [readWeb_eq_ok_iff, slashes, authority, rest]
    exact ⟨rfl, parts⟩
  have text : u.originText ++ (path ++ tail) =
      u.scheme ++ ':' :: ('/' :: '/' :: (u.authorityText ++ (path ++ tail))) := by
    simp [originText]
  rw [parseChars, cleaned_of_isVisible visible, text, scheme?_append known]
  simp only [known, web]
  rfl

/-- With other segments, query and fragment an address is read as itself with these. -/
lemma IsNormal.parseChars_segments {path : List (List Char)} {query fragment : Option (List Char)}
    (filled : path ≠ []) (segments : ∀ s ∈ path, IsSegment s)
    (hquery : ∀ q ∈ query, Avoids querySet q) (hfragment : ∀ f ∈ fragment, Avoids fragmentSet f) :
    parseChars (u.originText ++
      (path.flatMap ('/' :: ·) ++ (marked '?' query ++ marked '#' fragment))) =
        .ok (.web { u with path, query, fragment }) := by
  have read := normal.parseChars_append lawful eq_slash_of_mem_head?_flatMap
    (of_mem_flatMap_slash segments) hquery hfragment
  rwa [readPath_flatMap filled segments] at read

end

end LakeCatalog.Url
