import LakeCatalog.Proofs.Url.IpAddress
import LakeCatalog.Proofs.Url.Percent
import LakeCatalog.Url.Reader

/-!
# Hosts read back

A host that was read is sound: a name that its rule leaves as it is, or an address in range. The
text of a sound host holds nothing that a percent sign hides or that ends a host, so it is read as
the same host. About the rule of domain names no more is used than what an ASCII form promises.
-/

namespace LakeCatalog.Url

open Text

/-- What the ASCII form of a domain promises: it is ASCII without characters that no domain holds,
it is its own ASCII form, and the text of an IPv4 address is one. -/
structure DomainRule.Lawful [DomainRule] : Prop where
  ascii : ∀ {cs name}, DomainRule.ascii? cs = some name → ∀ c ∈ name, c.toNat < 0x80
  allowed : ∀ {cs name}, DomainRule.ascii? cs = some name → ∀ c ∈ name, isForbidden c = false
  stable : ∀ {cs name}, DomainRule.ascii? cs = some name → DomainRule.ascii? name = some name
  numeric : ∀ address, DomainRule.ascii? (ipv4Text address) = some (ipv4Text address)

/-- A character of a host and its port: it can be seen and ends neither the host nor what stands
before it. -/
def IsServerChar (c : Char) : Prop := IsVisible c ∧ c ∉ ['/', '\\', '?', '#', '@']

instance (c : Char) : Decidable (IsServerChar c) := inferInstanceAs (Decidable (_ ∧ _))

def IsDomainChar (c : Char) : Prop := c.toNat < 0x80 ∧ isForbidden c = false

lemma IsDomainChar.ne {c d : Char} (h : IsDomainChar c) (forbidden : isForbidden d = true) :
    c ≠ d := by
  rintro rfl
  rw [h.2] at forbidden
  cases forbidden

lemma IsDomainChar.isServerChar {c : Char} (h : IsDomainChar c) : IsServerChar c := by
  have allowed := h.2
  simp only [isForbidden, Bool.or_eq_false_iff, decide_eq_false_iff_not, beq_eq_false_iff_ne]
    at allowed
  refine ⟨⟨by omega, by have := h.1; omega⟩, ?_⟩
  have forbidden : ∀ d ∈ ['/', '\\', '?', '#', '@'], isForbidden d = true :=
    forall_mem_of_all (by decide)
  exact fun mem => h.ne (forbidden c mem) rfl

instance (c : Char) : Decidable (IsDomainChar c) := inferInstanceAs (Decidable (_ ∧ _))

lemma isDomainChar_of_isDigit {c : Char} (h : isDigit c = true ∨ c = '.') : IsDomainChar c := by
  rcases h with digit | rfl
  · exact of_isDigit (by decide) digit
  · decide

lemma isDomainChar_of_mem_ipv4Text {address : Nat} {c : Char} (mem : c ∈ ipv4Text address) :
    IsDomainChar c :=
  isDomainChar_of_isDigit (ipv4Text_isDigit mem)

lemma cutHost_append {inside : Bool} {front : List Char}
    (plain : ∀ c ∈ front, c ≠ '[' ∧ c ≠ ']' ∧ (inside = false → c ≠ ':')) (rest : List Char) :
    cutHost inside (front ++ rest) =
      (front ++ (cutHost inside rest).1, (cutHost inside rest).2) := by
  induction front with
  | nil => rfl
  | cons c front ih =>
    obtain ⟨⟨opening, closing, colon⟩, others⟩ := List.forall_mem_cons.mp plain
    rw [List.cons_append, cutHost, if_neg fun both => colon both.2 both.1]
    simp only [if_neg opening, if_neg closing, ih others, List.cons_append]

lemma cutHost_marked (port : Option (List Char)) :
    cutHost false (marked ':' port) = ([], port) := by
  cases port with
  | none => rfl
  | some digits => simp [marked, cutHost]

def Host.IsSound [DomainRule] : Host → Prop
  | .domain name => name ≠ [] ∧ (∀ c ∈ name, IsDomainChar c) ∧ DomainRule.ascii? name = some name ∧
      endsInNumber name = false
  | .ipv4 address => address < Nat.pow 256 4
  | .ipv6 groups => IsGroups groups

section

variable [DomainRule] {h : Host}

/-- What is read as a host is in normal form. -/
lemma Host.isSound_of_parse (lawful : DomainRule.Lawful) {cs : List Char}
    (read : Host.parse cs = .ok h) : h.IsSound := by
  unfold Host.parse at read
  split at read
  · rename_i inner _
    unfold bracketedHost at read
    split at read
    · split at read
      · rename_i groups found
        cases read
        exact isGroups_of_ipv6? found
      · cases read
    · cases read
  · split at read
    · cases read
    · cases read
    · rename_i name filled found
      obtain ⟨decoded, -, ruled⟩ := Option.bind_eq_some_iff.mp found
      split at read
      · split at read
        · rename_i address found
          cases read
          exact lt_of_ipv4? found
        · cases read
      · rename_i named
        cases read
        refine ⟨filled, fun c hc => ⟨lawful.ascii ruled c hc, lawful.allowed ruled c hc⟩,
          lawful.stable ruled, Bool.eq_false_iff.mpr named⟩

lemma Host.isServerChar_of_mem_text (sound : h.IsSound) {c : Char} (mem : c ∈ h.text) :
    IsServerChar c := by
  cases h with
  | domain name => exact (sound.2.1 c mem).isServerChar
  | ipv4 address => exact (isDomainChar_of_mem_ipv4Text mem).isServerChar
  | ipv6 groups =>
    have digit : ∀ d < 16, IsServerChar (hexDigit d) := by decide
    rcases List.mem_cons.mp mem with rfl | mem
    · decide
    · rcases List.mem_append.mp mem with inside | last
      · rcases mem_ipv6Text inside with rfl | ⟨d, hd, rfl⟩
        · decide
        · exact digit d hd
      · rw [List.mem_singleton.mp last]
        decide

lemma Host.text_ne_nil (sound : h.IsSound) : h.text ≠ [] := by
  cases h with
  | domain name => exact sound.1
  | ipv4 address =>
    intro empty
    have number := endsInNumber_ipv4Text address
    rw [show ipv4Text address = [] from empty] at number
    cases number
  | ipv6 groups => exact List.cons_ne_nil _ _

/-- A text of domain characters is taken as it stands. -/
lemma Host.parse_of_isDomainChar {name : List Char} (filled : name ≠ [])
    (plain : ∀ c ∈ name, IsDomainChar c) (ruled : DomainRule.ascii? name = some name) :
    (endsInNumber name = false → Host.parse name = .ok (.domain name)) ∧
      ∀ address, endsInNumber name = true → ipv4? name = some address →
        Host.parse name = .ok (.ipv4 address) := by
  have outside : bracketed? name = none := by
    unfold bracketed?
    split
    · exact absurd rfl ((plain '[' List.mem_cons_self).ne (d := '[') (by decide))
    · rfl
  have noPercent : '%' ∉ name := fun mem => (plain '%' mem).ne (d := '%') (by decide) rfl
  have read : (decodeUtf8? (percentDecode name)).bind DomainRule.ascii? = some name := by
    rw [decodeUtf8?_percentDecode noPercent, Option.bind_some, ruled]
  obtain ⟨c, rest, rfl⟩ := List.exists_cons_of_ne_nil filled
  unfold Host.parse
  constructor
  · intro named
    simp only [outside, read, named, Bool.false_eq_true, if_false]
  · intro address number found
    simp only [outside, read, number, if_true, found]

/-- A sound host is read from its text. -/
lemma Host.parse_text (lawful : DomainRule.Lawful) (sound : h.IsSound) :
    Host.parse h.text = .ok h := by
  cases h with
  | domain name =>
    obtain ⟨filled, plain, ruled, named⟩ := sound
    exact (Host.parse_of_isDomainChar filled plain ruled).1 named
  | ipv4 address =>
    have plain : ∀ c ∈ ipv4Text address, IsDomainChar c := fun _ =>
      isDomainChar_of_mem_ipv4Text
    exact (Host.parse_of_isDomainChar (Host.text_ne_nil sound) plain (lawful.numeric address)).2
      address (endsInNumber_ipv4Text address) (ipv4?_ipv4Text sound)
  | ipv6 groups =>
    have inner : bracketed? (Host.ipv6 groups).text = some (some (ipv6Text groups)) := by
      simp [Host.text, bracketed?]
    unfold Host.parse
    rw [inner]
    dsimp only [bracketedHost]
    rw [ipv6?_ipv6Text sound]

/-- The text of a host ends before its port. -/
lemma Host.cutHost_text (sound : h.IsSound) (port : Option (List Char)) :
    cutHost false (h.text ++ marked ':' port) = (h.text, port) := by
  have plain {cs : List Char} (named : ∀ c ∈ cs, IsDomainChar c) :
      cutHost false (cs ++ marked ':' port) = (cs, port) := by
    rw [cutHost_append fun c hc => ⟨(named c hc).ne (by decide), (named c hc).ne (by decide),
      fun _ => (named c hc).ne (by decide)⟩, cutHost_marked, List.append_nil]
  cases h with
  | domain name => exact plain sound.2.1
  | ipv4 address => exact plain fun _ => isDomainChar_of_mem_ipv4Text
  | ipv6 groups =>
    have digit : ∀ d < 16, hexDigit d ≠ '[' ∧ hexDigit d ≠ ']' := by decide
    -- Between the brackets a colon does not end the host.
    have inner : ∀ c ∈ ipv6Text groups, c ≠ '[' ∧ c ≠ ']' ∧ (true = false → c ≠ ':') := by
      intro c mem
      rcases mem_ipv6Text mem with rfl | ⟨d, hd, rfl⟩
      · decide
      · exact ⟨(digit d hd).1, (digit d hd).2, fun impossible => by cases impossible⟩
    have closed : cutHost true (']' :: marked ':' port) = ([']'], port) := by
      simp [cutHost, cutHost_marked]
    simp only [Host.text, List.cons_append, List.append_assoc, List.nil_append]
    rw [cutHost, if_neg (by decide)]
    simp only [if_true, cutHost_append inner, closed]

end

end LakeCatalog.Url
