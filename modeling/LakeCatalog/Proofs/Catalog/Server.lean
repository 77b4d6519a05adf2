import LakeCatalog.Catalog.Exchange
import LakeCatalog.Proofs.Url.AsciiDomain
import LakeCatalog.Proofs.Url.Reader
import Mathlib.Data.List.DropRight

/-!
# The address that proposals are sent to

The slashes at the end are cut off the text of the configured address, and the path and query of
the catalog are put behind it, also as text. They get where they belong exactly if the configured
address has neither a query nor a fragment; otherwise they become part of that query or fragment.
Scheme, user, host and port are kept in every case, and a server made from the endpoint of a server
is that server.
-/

namespace LakeCatalog.Catalog

open Url Text

def slashless (cs : List Char) : List Char := cs.rdropWhile (· == '/')

def ingestSegment : List Char := "aspects".toList

def ingestQuery : List Char := "action=ingestProposal".toList

/-- What is put behind the endpoint of a server. -/
def ingestPath : List Char := '/' :: ingestSegment ++ '?' :: ingestQuery

lemma isSegment_ingestSegment : IsSegment ingestSegment where
  encoded := by decide +kernel
  whole := forall_mem_of_all (by decide +kernel)
  named := by decide +kernel

lemma toList_ingestAddress (s : Server) :
    s.ingestAddress.toList = s.endpoint.toList ++ ingestPath :=
  String.toList_append

lemma toList_withoutSlashes (s : String) : (withoutSlashes s).toList = slashless s.toList :=
  String.toList_ofList

lemma toList_withoutSlashes_text (url : Url) :
    (withoutSlashes url.text).toList = slashless url.chars := by
  rw [toList_withoutSlashes, Url.text, String.toList_ofList]

lemma slashless_slashless (cs : List Char) : slashless (slashless cs) = slashless cs :=
  List.rdropWhile_idempotent _ _

lemma slashless_concat_slash (cs : List Char) : slashless (cs ++ ['/']) = slashless cs :=
  List.rdropWhile_concat_pos (· == '/') cs '/' rfl

lemma slashless_concat {c : Char} (stays : c ≠ '/') (cs : List Char) :
    slashless (cs ++ [c]) = cs ++ [c] :=
  List.rdropWhile_concat_neg (· == '/') cs c (by simpa using stays)

lemma avoids_slashless {set : EncodeSet} {cs : List Char} (avoids : Avoids set cs) :
    Avoids set (slashless cs) := fun c hc =>
  avoids c ((List.rdropWhile_prefix _ _).subset hc)

/-- Another character than a slash stays, with all that comes before it. -/
lemma slashless_append_cons {c : Char} (stays : c ≠ '/') (front back : List Char) :
    slashless (front ++ c :: back) = front ++ c :: slashless back := by
  induction back using List.reverseRecOn with
  | nil => exact slashless_concat stays front
  | append_singleton back d ih =>
    rw [← List.cons_append, ← List.append_assoc]
    by_cases slash : d = '/'
    · rw [slash, slashless_concat_slash, slashless_concat_slash, ih]
    · rw [slashless_concat slash, slashless_concat slash, List.append_assoc, List.cons_append]

/-- A path loses its empty last segments. -/
lemma slashless_flatMap_slash {path : List (List Char)} (plain : ∀ s ∈ path, IsSegment s) :
    slashless (path.flatMap ('/' :: ·)) = (path.rdropWhile List.isEmpty).flatMap ('/' :: ·) := by
  induction path using List.reverseRecOn with
  | nil => rfl
  | append_singleton path s ih =>
    obtain ⟨before, last⟩ := List.forall_mem_append.mp plain
    rw [List.flatMap_append, List.flatMap_singleton]
    cases s using List.reverseRecOn with
    | nil =>
      rw [slashless_concat_slash, List.rdropWhile_concat_pos _ _ _ rfl, ih before]
    | append_singleton s c =>
      have whole := (List.forall_mem_singleton.mp last).whole c (by simp)
      have stays : c ≠ '/' := by
        rintro rfl
        cases whole
      rw [List.rdropWhile_concat_neg _ _ _ (by simp), List.flatMap_append, List.flatMap_singleton,
        ← List.cons_append, ← List.append_assoc, slashless_concat stays]

section

variable [DomainRule] {u : Url} (normal : u.IsNormal)
include normal

/-- No slash of the origin is cut off. -/
lemma slashless_originText_append (cs : List Char) :
    slashless (u.originText ++ cs) = u.originText ++ slashless cs := by
  obtain ⟨c, mem, front, split⟩ : ∃ c ∈ u.authorityText, ∃ front, u.originText = front ++ [c] := by
    have filled := normal.authorityText_ne_nil
    refine ⟨_, List.getLast_mem filled,
      u.scheme ++ ':' :: '/' :: '/' :: u.authorityText.dropLast, ?_⟩
    simp [originText, List.dropLast_append_getLast filled]
  have stays : c ≠ '/' := by
    rintro rfl
    cases (normal.of_mem_authorityText mem).2
  rw [split, List.append_assoc, List.singleton_append, slashless_append_cons stays]
  simp

/-- Slashes are cut off the fragment, if there is one. -/
lemma slashless_chars_of_fragment {f : List Char} (hf : u.fragment = some f) :
    slashless u.chars =
      u.originText ++ (u.pathText ++ (marked '?' u.query ++ marked '#' (some (slashless f)))) := by
  have mark := slashless_append_cons (show '#' ≠ '/' by decide) (u.pathText ++ marked '?' u.query) f
  rw [chars_eq, slashless_originText_append normal, tailText, hf]
  simpa [marked] using mark

/-- Without a fragment they are cut off the query, if there is one. -/
lemma slashless_chars_of_query {q : List Char} (hf : u.fragment = none) (hq : u.query = some q) :
    slashless u.chars =
      u.originText ++ (u.pathText ++ (marked '?' (some (slashless q)) ++ marked '#' none)) := by
  have mark := slashless_append_cons (show '?' ≠ '/' by decide) u.pathText q
  rw [chars_eq, slashless_originText_append normal, tailText, hf, hq]
  simpa [marked] using mark

/-- With neither of the two they are cut off the path. -/
lemma slashless_chars_of_path (hf : u.fragment = none) (hq : u.query = none) :
    slashless u.chars =
      u.originText ++ (slashless u.pathText ++ (marked '?' none ++ marked '#' none)) := by
  rw [chars_eq, slashless_originText_append normal, tailText, hf, hq]
  simp [marked]

/-- The segments of the path before its empty ends. -/
lemma isSegment_of_mem_rdropWhile :
    ∀ s ∈ u.path.rdropWhile List.isEmpty, IsSegment s := fun s hs =>
  normal.path.2 s ((List.rdropWhile_prefix _ _).subset hs)

lemma slashless_pathText :
    slashless u.pathText = (u.path.rdropWhile List.isEmpty).flatMap ('/' :: ·) :=
  slashless_flatMap_slash normal.path.2

/-- A path of slashes only is read as the root, whose slash is cut off again. -/
lemma slashless_readPath_slashless :
    slashless ((readPath (slashless u.pathText)).flatMap ('/' :: ·)) = slashless u.pathText := by
  have whole := slashless_pathText normal
  by_cases empty : u.path.rdropWhile List.isEmpty = []
  · rw [whole, empty]
    rfl
  · have read := readPath_flatMap empty (isSegment_of_mem_rdropWhile normal)
    rw [← whole] at read
    rw [read, ← whole, slashless_slashless]

variable (lawful : DomainRule.Lawful)
include lawful

/-- Behind a fragment it becomes part of the fragment. -/
lemma parseChars_slashless_of_fragment {f suffix : List Char} (hf : u.fragment = some f)
    (avoids : Avoids fragmentSet suffix) :
    parseChars (slashless u.chars ++ suffix) =
      .ok (.web { u with fragment := some (slashless f ++ suffix) }) := by
  have extended : ∀ f' ∈ some (slashless f ++ suffix), Avoids fragmentSet f' := by
    rintro f' ⟨⟩
    exact List.forall_mem_append.mpr ⟨avoids_slashless (normal.fragment f hf), avoids⟩
  have text : slashless u.chars ++ suffix = u.originText ++ (u.pathText ++ (marked '?' u.query ++
      marked '#' (some (slashless f ++ suffix)))) := by
    rw [slashless_chars_of_fragment normal hf]
    simp [marked]
  rw [text]
  exact normal.parseChars_segments lawful normal.path.1 normal.path.2 normal.query extended

/-- Behind a query it becomes part of the query. -/
lemma parseChars_slashless_of_query {q suffix : List Char} (hf : u.fragment = none)
    (hq : u.query = some q) (avoids : Avoids querySet suffix) :
    parseChars (slashless u.chars ++ suffix) =
      .ok (.web { u with query := some (slashless q ++ suffix) }) := by
  have extended : ∀ q' ∈ some (slashless q ++ suffix), Avoids querySet q' := by
    rintro q' ⟨⟩
    exact List.forall_mem_append.mpr ⟨avoids_slashless (normal.query q hq), avoids⟩
  have text : slashless u.chars ++ suffix = u.originText ++ (u.pathText ++
      (marked '?' (some (slashless q ++ suffix)) ++ marked '#' u.fragment)) := by
    rw [slashless_chars_of_query normal hf hq, hf]
    simp [marked]
  rw [text]
  exact normal.parseChars_segments lawful normal.path.1 normal.path.2 extended normal.fragment

/-- Behind a path, the path goes on, and the query is that of the catalog. -/
lemma parseChars_ingest_of_path (hf : u.fragment = none) (hq : u.query = none) :
    parseChars (slashless u.chars ++ ingestPath) = .ok (.web { u with
      path := u.path.rdropWhile List.isEmpty ++ [ingestSegment]
      query := some ingestQuery }) := by
  have segments : ∀ s ∈ u.path.rdropWhile List.isEmpty ++ [ingestSegment], IsSegment s :=
    List.forall_mem_append.mpr ⟨isSegment_of_mem_rdropWhile normal,
      List.forall_mem_singleton.mpr isSegment_ingestSegment⟩
  have encoded : ∀ q ∈ some ingestQuery, Avoids querySet q := by
    rintro q ⟨⟩
    decide +kernel
  have text : slashless u.chars ++ ingestPath = u.originText ++
      ((u.path.rdropWhile List.isEmpty ++ [ingestSegment]).flatMap ('/' :: ·) ++
        (marked '?' (some ingestQuery) ++ marked '#' u.fragment)) := by
    rw [slashless_chars_of_path normal hf hq, hf, slashless_pathText normal]
    simp [marked, ingestPath]
  rw [text]
  exact normal.parseChars_segments lawful (by simp) segments encoded normal.fragment

/-- The endpoint of an address stands for an address of the same scheme and with the same
endpoint. -/
lemma exists_parseChars_slashless : ∃ v, parseChars (slashless u.chars) = .ok (.web v) ∧
    v.scheme = u.scheme ∧ slashless v.chars = slashless u.chars := by
  cases hf : u.fragment with
  | some f =>
    have read := parseChars_slashless_of_fragment normal lawful hf (List.forall_mem_nil _)
    rw [List.append_nil, List.append_nil] at read
    have again := slashless_chars_of_fragment (isNormal_of_parseChars lawful read) rfl
    rw [slashless_slashless] at again
    exact ⟨_, read, rfl, again.trans (slashless_chars_of_fragment normal hf).symm⟩
  | none =>
    cases hq : u.query with
    | some q =>
      have read := parseChars_slashless_of_query normal lawful hf hq (List.forall_mem_nil _)
      rw [List.append_nil, List.append_nil] at read
      have again := slashless_chars_of_query (isNormal_of_parseChars lawful read) hf rfl
      rw [slashless_slashless] at again
      exact ⟨_, read, rfl, again.trans (slashless_chars_of_query normal hf hq).symm⟩
    | none =>
      have segments := isSegment_of_mem_rdropWhile normal
      -- Nothing may be left of the path, so it is not read as segments here.
      have read := normal.parseChars_append lawful eq_slash_of_mem_head?_flatMap
        (of_mem_flatMap_slash segments)
        (fun q (hq : q ∈ none) => by cases hq) (fun f (hf : f ∈ none) => by cases hf)
      rw [← slashless_pathText normal, ← slashless_chars_of_path normal hf hq] at read
      refine ⟨_, read, rfl, ?_⟩
      rw [slashless_chars_of_path (isNormal_of_parseChars lawful read) rfl rfl,
        slashless_chars_of_path normal hf hq]
      exact congrArg (fun path => u.originText ++ (path ++ (marked '?' none ++ marked '#' none)))
        (slashless_readPath_slashless normal)

end

namespace Server

/-- The address is where a catalog at the given address takes proposals: its path goes on with the
segment of the catalog, and the query is that of the catalog. -/
structure IsIngestOf (url ingest : Url) : Prop where
  path : ingest.pathText = slashless url.pathText ++ '/' :: ingestSegment
  query : ingest.query = some ingestQuery
  fragment : ingest.fragment = none

lemma not_isIngestOf_query (url : Url) (q : List Char) :
    ¬ IsIngestOf url { url with query := some (slashless q ++ ingestPath) } := by
  intro right
  have long := congrArg List.length (Option.some.inj right.query)
  simp only [ingestPath, List.length_append, List.length_cons] at long
  omega

lemma not_isIngestOf_fragment (url : Url) (f : List Char) :
    ¬ IsIngestOf url { url with fragment := some f } := by
  intro right
  cases right.fragment

section

variable [DomainRule] {server : String} {token : Option String} {s : Server}

lemma ofSettings_eq_ok_iff : ofSettings server token = .ok s ↔
    ∃ url, Url.parse server = .ok (.web url) ∧
      (url.scheme = "http".toList ∨ url.scheme = "https".toList) ∧
      s = ⟨withoutSlashes url.text, token⟩ := by
  unfold ofSettings
  cases Url.parse server with
  | error cause => simp
  | ok address =>
    cases address with
    | other scheme => simp
    | web url =>
      by_cases http : url.scheme = "http".toList ∨ url.scheme = "https".toList
      · simp only [if_pos http, Except.ok.injEq]
        constructor
        · rintro rfl
          exact ⟨url, rfl, http, rfl⟩
        · rintro ⟨_, ⟨⟩, -, rfl⟩
          rfl
      · simp only [if_neg http]
        constructor
        · intro made
          cases made
        · rintro ⟨_, ⟨⟩, web, -⟩
          exact absurd web http

/-- A server made from the endpoint of a server is that server. -/
lemma ofSettings_endpoint (lawful : DomainRule.Lawful)
    (accepted : ofSettings server token = .ok s) :
    ofSettings s.endpoint token = .ok s := by
  obtain ⟨url, read, http, rfl⟩ := ofSettings_eq_ok_iff.mp accepted
  have normal := isNormal_of_parseChars lawful read
  obtain ⟨v, again, scheme, same⟩ := exists_parseChars_slashless normal lawful
  refine ofSettings_eq_ok_iff.mpr ⟨v, ?_, scheme ▸ http, ?_⟩
  · rw [Url.parse, toList_withoutSlashes_text, again]
  · have texts : withoutSlashes url.text = withoutSlashes v.text := by
      rw [← String.toList_inj, toList_withoutSlashes_text, toList_withoutSlashes_text, same]
    rw [texts]

/-- For every server that is accepted, the address that proposals are sent to is a web address with
the scheme, user, host and port of the configured one. Its path, query and fragment are those of the
catalog there exactly if the configured address has neither a query nor a fragment; otherwise the
path and query of the catalog are part of that fragment or query. A server made from the endpoint
is the same server. -/
theorem ingest_address_right_iff (lawful : DomainRule.Lawful)
    (accepted : ofSettings server token = .ok s) :
    ∃ url ingest, Url.parse server = .ok (.web url) ∧
      Url.parse s.ingestAddress = .ok (.web ingest) ∧
      (ingest.scheme = url.scheme ∧ ingest.userinfo = url.userinfo ∧ ingest.host = url.host ∧
        ingest.port = url.port) ∧
      (IsIngestOf url ingest ↔ url.query = none ∧ url.fragment = none) ∧
      (∀ f, url.fragment = some f →
        ingest = { url with fragment := some (slashless f ++ ingestPath) }) ∧
      (∀ q, url.fragment = none → url.query = some q →
        ingest = { url with query := some (slashless q ++ ingestPath) }) ∧
      ofSettings s.endpoint token = .ok s := by
  have again := ofSettings_endpoint lawful accepted
  obtain ⟨url, read, -, rfl⟩ := ofSettings_eq_ok_iff.mp accepted
  have normal := isNormal_of_parseChars lawful read
  have sent (ingest : Url)
      (h : parseChars (slashless url.chars ++ ingestPath) = .ok (.web ingest)) :
      Url.parse (ingestAddress ⟨withoutSlashes url.text, token⟩) = .ok (.web ingest) := by
    rw [Url.parse, toList_ingestAddress, toList_withoutSlashes_text, h]
  -- What is put behind the text belongs to the last part that the address has.
  rcases Option.eq_none_or_eq_some url.fragment with hf | ⟨f, hf⟩
  · rcases Option.eq_none_or_eq_some url.query with hq | ⟨q, hq⟩
    · have reached := sent _ (parseChars_ingest_of_path normal lawful hf hq)
      have path : (url.path.rdropWhile List.isEmpty ++ [ingestSegment]).flatMap ('/' :: ·) =
          slashless url.pathText ++ '/' :: ingestSegment := by
        rw [slashless_pathText normal]
        simp
      refine ⟨url, _, read, reached, ⟨rfl, rfl, rfl, rfl⟩, iff_of_true ⟨path, rfl, hf⟩ ⟨hq, hf⟩,
        fun f given => ?_, fun q _ given => ?_, again⟩
      · cases hf.symm.trans given
      · cases hq.symm.trans given
    · have reached := sent _ (parseChars_slashless_of_query normal lawful hf hq (by decide +kernel))
      refine ⟨url, _, read, reached, ⟨rfl, rfl, rfl, rfl⟩,
        iff_of_false (not_isIngestOf_query url q) fun missing => ?_, fun f given => ?_,
        fun q' _ given => ?_, again⟩
      · cases hq.symm.trans missing.1
      · cases hf.symm.trans given
      · rw [Option.some.inj (hq.symm.trans given)]
  · have reached := sent _ (parseChars_slashless_of_fragment normal lawful hf (by decide +kernel))
    refine ⟨url, _, read, reached, ⟨rfl, rfl, rfl, rfl⟩,
      iff_of_false (not_isIngestOf_fragment url _) fun missing => ?_, fun f' given => ?_,
      fun q missing => ?_, again⟩
    · cases hf.symm.trans missing.2
    · rw [Option.some.inj (hf.symm.trans given)]
    · cases hf.symm.trans missing

end

def isWebAddress (check : Url → Bool) (text : String) : Bool :=
  match Url.parse text with
  | .ok (.web url) => check url
  | _ => false

lemma exists_of_isWebAddress {check : Url → Bool} {text : String}
    (checked : isWebAddress check text = true) :
    ∃ url, Url.parse text = .ok (.web url) ∧ check url = true := by
  unfold isWebAddress at checked
  split at checked
  · exact ⟨_, ‹_›, checked⟩
  · cases checked

/-- Blanks, capitals, the default port, dots and slashes at the end do no harm. -/
theorem ingest_address_right_of_path :
    ofSettings " HTTPS://Gms:443/a/../b// " none = .ok ⟨"https://gms/b", none⟩ ∧
      ∃ url ingest, Url.parse " HTTPS://Gms:443/a/../b// " = .ok (.web url) ∧
        Url.parse (ingestAddress ⟨"https://gms/b", none⟩) = .ok (.web ingest) ∧
        IsIngestOf url ingest := by
  have accepted : ofSettings " HTTPS://Gms:443/a/../b// " none = .ok ⟨"https://gms/b", none⟩ := by
    decide +kernel
  obtain ⟨url, ingest, read, reached, -, right, -⟩ :=
    ingest_address_right_iff asciiDomain?_lawful accepted
  obtain ⟨url', read', plain⟩ := exists_of_isWebAddress
    (show isWebAddress (fun u => decide (u.query = none ∧ u.fragment = none))
      " HTTPS://Gms:443/a/../b// " = true by decide +kernel)
  rw [read] at read'
  cases read'
  exact ⟨accepted, url, ingest, read, reached, right.mpr (of_decide_eq_true plain)⟩

/-- Behind a query and behind a fragment the path of the catalog is no path. -/
theorem ingest_address_wrong_behind_query :
    (¬ ∀ server token s, ofSettings server token = .ok s →
      ∃ url ingest, Url.parse server = .ok (.web url) ∧
        Url.parse s.ingestAddress = .ok (.web ingest) ∧ IsIngestOf url ingest) ∧
      (ofSettings "http://gms/p/?q=1" none = .ok ⟨"http://gms/p/?q=1", none⟩ ∧
        ∃ ingest, Url.parse "http://gms/p/?q=1/aspects?action=ingestProposal" =
          .ok (.web ingest) ∧ ingest.pathText = "/p/".toList ∧
            ingest.query = some "q=1/aspects?action=ingestProposal".toList) ∧
      ofSettings "http://gms/p#frag" none = .ok ⟨"http://gms/p#frag", none⟩ ∧
        ∃ ingest, Url.parse "http://gms/p#frag/aspects?action=ingestProposal" =
          .ok (.web ingest) ∧ ingest.pathText = "/p".toList ∧
            ingest.fragment = some "frag/aspects?action=ingestProposal".toList := by
  have accepted : ofSettings "http://gms/p/?q=1" none = .ok ⟨"http://gms/p/?q=1", none⟩ := by
    decide +kernel
  obtain ⟨ingest, reached, parts⟩ := exists_of_isWebAddress
    (show isWebAddress (fun u => decide (u.pathText = "/p/".toList ∧
        u.query = some "q=1/aspects?action=ingestProposal".toList))
      "http://gms/p/?q=1/aspects?action=ingestProposal" = true by decide +kernel)
  obtain ⟨ingest', reached', parts'⟩ := exists_of_isWebAddress
    (show isWebAddress (fun u => decide (u.pathText = "/p".toList ∧
        u.fragment = some "frag/aspects?action=ingestProposal".toList))
      "http://gms/p#frag/aspects?action=ingestProposal" = true by decide +kernel)
  refine ⟨fun always => ?_, ⟨accepted, ingest, reached, of_decide_eq_true parts⟩,
    by decide +kernel, ingest', reached', of_decide_eq_true parts'⟩
  obtain ⟨url, sent, -, read, right⟩ := always _ none _ accepted
  have address : ingestAddress ⟨"http://gms/p/?q=1", none⟩ =
      "http://gms/p/?q=1/aspects?action=ingestProposal" := by decide +kernel
  rw [address, reached] at read
  cases read
  have query := (of_decide_eq_true parts).2
  rw [right.query, Option.some.injEq] at query
  exact absurd query (by decide +kernel)

end Server

end LakeCatalog.Catalog
