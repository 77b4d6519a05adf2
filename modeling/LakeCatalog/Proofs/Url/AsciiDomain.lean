import LakeCatalog.Proofs.Url.Host

/-!
# The rule of lower case and Punycode

The rule that is at hand keeps what an ASCII form promises. Lower case neither leads from beyond
ASCII into it nor changes what is in lower case, and Punycode writes digits after the ASCII
characters of a label, so a label that was put into its form stays as it is.
-/

namespace LakeCatalog.Url

open Text

/-- A run leads to code points of characters. Its upper-case characters are ASCII letters, or it
lies beyond ASCII on both sides. -/
lemma caseRuns_valid : ∀ r ∈ caseRuns, r.first ≤ r.last ∧
    (r.last < 0xD800 ∨ 0xE000 ≤ r.first ∧ r.last < 0x110000) ∧ 0x41 ≤ r.upper ∧
    (r.upper + (r.last - r.first) ≤ 0x5A ∨ 0x80 ≤ r.upper ∧ 0x80 ≤ r.first) := by
  decide +kernel

def IsCapital (n : Nat) : Prop := 0x41 ≤ n ∧ n ≤ 0x5A

instance (n : Nat) : Decidable (IsCapital n) := inferInstanceAs (Decidable (_ ∧ _))

lemma lowerCode_of_isCapital {n : Nat} (capital : IsCapital n) : lowerCode n = n + 0x20 := by
  obtain ⟨low, high⟩ := capital
  obtain ⟨rest, runs⟩ : ∃ rest, caseRuns = ⟨0x61, 0x7A, 1, 0x41⟩ :: rest := ⟨_, rfl⟩
  rw [lowerCode, runs, List.find?_cons_of_pos (by simp [low, high, Nat.mod_one])]
  dsimp only
  omega

lemma lowerCode_of_not_isCapital {n : Nat} (ascii : n < 0x80) (small : ¬ IsCapital n) :
    lowerCode n = n := by
  unfold lowerCode
  split
  · rename_i r found
    obtain ⟨-, -, least, ends⟩ := caseRuns_valid r (List.mem_of_find?_eq_some found)
    have holds := List.find?_some found
    simp only [Bool.and_eq_true, decide_eq_true_eq] at holds
    unfold IsCapital at small
    omega
  · rfl

lemma lowerCode_beyond {n : Nat} (beyond : 0x80 ≤ n) (valid : n.isValidChar) :
    0x80 ≤ lowerCode n ∧ (lowerCode n).isValidChar := by
  unfold lowerCode
  split
  · rename_i r found
    obtain ⟨order, range, -, ends⟩ := caseRuns_valid r (List.mem_of_find?_eq_some found)
    have holds := List.find?_some found
    simp only [Bool.and_eq_true, decide_eq_true_eq] at holds
    unfold Nat.isValidChar
    omega
  · exact ⟨beyond, valid⟩

lemma toNat_ofNat_of_isValidChar {n : Nat} (valid : n.isValidChar) : (Char.ofNat n).toNat = n := by
  rw [Char.ofNat, dif_pos valid]
  rfl

/-- An ASCII character of a text in lower case comes from an ASCII character. -/
lemma exists_of_mem_lower {cs : List Char} {c : Char} (mem : c ∈ lower cs)
    (ascii : c.toNat < 0x80) : ∃ d ∈ cs, d.toNat < 0x80 ∧ c = Char.ofNat (lowerCode d.toNat) := by
  obtain ⟨d, hd, rfl⟩ := List.mem_map.mp mem
  refine ⟨d, hd, ?_, rfl⟩
  by_contra beyond
  obtain ⟨least, valid⟩ := lowerCode_beyond (Nat.not_lt.mp beyond) d.valid
  rw [toNat_ofNat_of_isValidChar valid] at ascii
  omega

def IsLabelChar (c : Char) : Prop :=
  IsDomainChar c ∧ ¬ IsCapital c.toNat ∧ isFullStop c = false

instance (c : Char) : Decidable (IsLabelChar c) := inferInstanceAs (Decidable (_ ∧ _ ∧ _))

/-- The lower case of an allowed ASCII character is a character of a label, or a full stop. -/
lemma isLabelChar_lowerCode {n : Nat} (ascii : n < 0x80)
    (allowed : isForbidden (Char.ofNat n) = false)
    (inside : isFullStop (Char.ofNat (lowerCode n)) = false) :
    IsLabelChar (Char.ofNat (lowerCode n)) := by
  have letters : ∀ n < 0x80, IsCapital n → IsLabelChar (Char.ofNat (n + 0x20)) := by decide +kernel
  by_cases capital : IsCapital n
  · rw [lowerCode_of_isCapital capital]
    exact letters n ascii capital
  · rw [lowerCode_of_not_isCapital ascii capital] at inside ⊢
    have value := toNat_ofNat_of_isValidChar (.inl (by omega) : n.isValidChar)
    refine ⟨⟨?_, allowed⟩, ?_, inside⟩
    · rw [value]
      exact ascii
    · rw [value]
      exact capital

/-- A text of such characters and of points is in lower case. -/
lemma lower_of_isLabelChar {cs : List Char} (plain : ∀ c ∈ cs, IsLabelChar c ∨ c = '.') :
    lower cs = cs := by
  have same : ∀ c ∈ cs, Char.ofNat (lowerCode c.toNat) = c := by
    intro c hc
    rcases plain c hc with ⟨⟨ascii, -⟩, small, -⟩ | rfl
    · rw [lowerCode_of_not_isCapital ascii small, Char.ofNat_toNat]
    · decide
  exact (List.map_congr_left same).trans (List.map_id cs)

lemma asciiLabel_of_isLabelChar {label : List Char} (plain : ∀ c ∈ label, IsLabelChar c) :
    asciiLabel label = label :=
  if_pos (List.all_eq_true.mpr fun c hc => decide_eq_true (plain c hc).1.1)

namespace Punycode

variable {P : Char → Prop} (digits : ∀ n < 36, P (digit n))
include digits

lemma forall_mem_distanceDigits {bias fuel position q : Nat} :
    ∀ c ∈ distanceDigits bias fuel position q, P c := by
  induction fuel generalizing position q with
  | zero => exact List.forall_mem_nil _
  | succ fuel ih =>
    have bounds : 1 ≤ threshold position bias ∧ threshold position bias ≤ 26 := by
      unfold threshold
      split
      · omega
      · split <;> omega
    unfold distanceDigits
    dsimp only
    split
    · exact List.forall_mem_singleton.mpr (digits q (by omega))
    · have digit := Nat.mod_lt (q - threshold position bias)
        (show 0 < 36 - threshold position bias by omega)
      exact List.forall_mem_cons.mpr ⟨digits _ (by omega), ih⟩

lemma forall_mem_pass {basic m : Nat} {p : Progress} (written : ∀ c ∈ p.written, P c) (c : Char) :
    ∀ d ∈ (p.pass basic m c).written, P d := by
  unfold Progress.pass
  split
  · exact written
  · split
    · exact List.forall_mem_append.mpr ⟨written, forall_mem_distanceDigits digits⟩
    · exact written

lemma forall_mem_foldl_pass {basic m : Nat} {label : List Char} {p : Progress}
    (written : ∀ c ∈ p.written, P c) :
    ∀ d ∈ (label.foldl (Progress.pass basic m) p).written, P d := by
  induction label generalizing p with
  | nil => exact written
  | cons c label ih => exact ih (forall_mem_pass digits written c)

lemma forall_mem_insertAll {label : List Char} {basic : Nat} {points : List Nat} {next : Nat}
    {p : Progress} (written : ∀ c ∈ p.written, P c) :
    ∀ d ∈ (insertAll label basic points next p).written, P d := by
  induction points generalizing next p with
  | nil => exact written
  | cons m points ih =>
    unfold insertAll
    exact ih (forall_mem_foldl_pass digits written)

/-- Punycode writes the ASCII characters of a label, hyphens and digits. -/
lemma forall_mem_encode (hyphen : P '-') {label : List Char}
    (ascii : ∀ c ∈ label, c.toNat < 0x80 → P c) : ∀ c ∈ encode label, P c := by
  have basic : ∀ c ∈ label.filter fun c => c.toNat < 0x80, P c := by
    intro c mem
    obtain ⟨hc, small⟩ := List.mem_filter.mp mem
    exact ascii c hc (of_decide_eq_true small)
  unfold encode
  apply forall_mem_insertAll digits
  dsimp only
  split
  · exact List.forall_mem_nil _
  · exact List.forall_mem_append.mpr ⟨basic, List.forall_mem_singleton.mpr hyphen⟩

end Punycode

/-- The ASCII form of a label consists of characters of labels, if those of the label that are
ASCII do. -/
lemma isLabelChar_of_mem_asciiLabel {label : List Char}
    (ascii : ∀ c ∈ label, c.toNat < 0x80 → IsLabelChar c) :
    ∀ c ∈ asciiLabel label, IsLabelChar c := by
  unfold asciiLabel
  split
  · rename_i all
    intro c hc
    exact ascii c hc (of_decide_eq_true (List.all_eq_true.mp all c hc))
  · have mark : ∀ c ∈ ['x', 'n', '-', '-'], IsLabelChar c := forall_mem_of_all (by decide +kernel)
    have digits : ∀ n < 36, IsLabelChar (Punycode.digit n) := by decide +kernel
    exact List.forall_mem_append.mpr
      ⟨mark, Punycode.forall_mem_encode digits (mark '-' (by decide)) ascii⟩

/-- Sound labels of such characters make up a domain that is its own ASCII form. -/
lemma asciiDomain?_joined {labels : List (List Char)} (filled : labels ≠ [])
    (plain : ∀ label ∈ labels, ∀ c ∈ label, IsLabelChar c)
    (sound : labels.all isSoundLabel = true) :
    asciiDomain? (joined ['.'] labels) = some (joined ['.'] labels) := by
  have chars : ∀ c ∈ joined ['.'] labels, IsLabelChar c ∨ c = '.' := by
    intro c mem
    rcases mem_joined mem with point | ⟨label, hlabel, hc⟩
    · exact .inr (List.mem_singleton.mp point)
    · exact .inl (plain label hlabel c hc)
  have allowed : (joined ['.'] labels).any isForbidden = false := by
    rw [List.any_eq_false]
    intro c mem
    rcases chars c mem with ⟨⟨-, allowed⟩, -⟩ | rfl
    · exact Bool.eq_false_iff.mp allowed
    · decide
  have found : pieces isFullStop (joined ['.'] labels) = labels :=
    pieces_joined rfl filled fun label hlabel c hc => (plain label hlabel c hc).2.2
  have same : labels.map asciiLabel = labels :=
    (List.map_congr_left fun label hlabel => asciiLabel_of_isLabelChar (plain label hlabel)).trans
      (List.map_id labels)
  unfold asciiDomain?
  simp only [lower_of_isLabelChar chars, found, same, allowed, sound]
  rfl

/-- The labels of an ASCII form. -/
lemma exists_labels_of_asciiDomain? {cs name : List Char} (ruled : asciiDomain? cs = some name) :
    ∃ labels, labels ≠ [] ∧ (∀ label ∈ labels, ∀ c ∈ label, IsLabelChar c) ∧
      labels.all isSoundLabel = true ∧ name = joined ['.'] labels := by
  unfold asciiDomain? at ruled
  dsimp only at ruled
  split at ruled
  · cases ruled
  · rename_i sound
    cases ruled
    rw [Bool.or_eq_true, not_or, Bool.not_eq_true, Bool.not_eq_true, Bool.not_eq_false'] at sound
    refine ⟨_, ?_, ?_, sound.2, rfl⟩
    · simp [pieces_ne_nil]
    · intro label mem
      obtain ⟨piece, hpiece, rfl⟩ := List.mem_map.mp mem
      refine isLabelChar_of_mem_asciiLabel fun c hc ascii => ?_
      obtain ⟨d, hd, small, rfl⟩ := exists_of_mem_lower (mem_of_mem_pieces hpiece c hc) ascii
      refine isLabelChar_lowerCode small ?_ (not_separates_of_mem_pieces hpiece _ hc)
      rw [Char.ofNat_toNat]
      exact Bool.eq_false_iff.mpr (List.any_eq_false.mp sound.1 d hd)

lemma isSoundLabel_decimalDigits (n : Nat) : isSoundLabel (decimalDigits n) = true := by
  unfold isSoundLabel
  split
  · rename_i form same
    have digit := isDigit_of_mem_decimalDigits (same ▸ List.mem_cons_self : 'x' ∈ decimalDigits n)
    exact absurd digit (by decide)
  · rfl

/-- The rule of lower case and Punycode keeps what an ASCII form promises. -/
lemma asciiDomain?_lawful : DomainRule.Lawful where
  ascii ruled c mem := by
    obtain ⟨labels, -, plain, -, rfl⟩ := exists_labels_of_asciiDomain? ruled
    rcases mem_joined mem with point | ⟨label, hlabel, hc⟩
    · rw [List.mem_singleton.mp point]
      decide
    · exact (plain label hlabel c hc).1.1
  allowed ruled c mem := by
    obtain ⟨labels, -, plain, -, rfl⟩ := exists_labels_of_asciiDomain? ruled
    rcases mem_joined mem with point | ⟨label, hlabel, hc⟩
    · rw [List.mem_singleton.mp point]
      decide
    · exact (plain label hlabel c hc).1.2
  stable ruled := by
    obtain ⟨labels, filled, plain, sound, rfl⟩ := exists_labels_of_asciiDomain? ruled
    exact asciiDomain?_joined filled plain sound
  numeric address := by
    refine asciiDomain?_joined (List.cons_ne_nil _ _) (fun label mem c hc => ?_) ?_
    · obtain ⟨b, -, rfl⟩ := List.mem_map.mp mem
      exact of_isDigit (by decide +kernel) (isDigit_of_mem_decimalDigits hc)
    · exact List.all_eq_true.mpr fun label mem => by
        obtain ⟨b, -, rfl⟩ := List.mem_map.mp mem
        exact isSoundLabel_decimalDigits _

end LakeCatalog.Url
