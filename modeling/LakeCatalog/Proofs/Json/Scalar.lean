import LakeCatalog.Json.Basic
import LakeCatalog.Json.Text
import Mathlib.Tactic.Common

/-!
# Reading back strings and integers

A quoted string ends at its closing quote whatever follows, and a numeral ends where something
follows that cannot belong to it. Up to there the reader finds what was written.
-/

namespace LakeCatalog.Json

open Text

def quotedPart (c : Char) : QuotedPart :=
  if c.toNat < 0x20 ∧ c ∉ ['\x08', '\x0c', '\n', '\r', '\t'] then .unit c.toNat else .char c

lemma quotedParts?_escaped (c : Char) (rest : List Char) : quotedParts? (escaped c ++ rest) =
    (quotedParts? rest).map fun found => (quotedPart c :: found.1, found.2) := by
  have letter {d e : Char} (unnumbered : e ≠ 'u') (escapes : escapedChar? e = some d)
      (named : quotedPart d = .char d) : quotedParts? ('\\' :: e :: rest) =
        (quotedParts? rest).map fun found => (quotedPart d :: found.1, found.2) := by
    rw [quotedParts?]
    · rw [escapes, named]
      cases quotedParts? rest <;> rfl
    · simp [unnumbered]
  by_cases quote : c = '"'
  · exact quote ▸ letter (d := '"') (e := '"') (by decide) rfl (by decide)
  by_cases backslash : c = '\\'
  · exact backslash ▸ letter (d := '\\') (e := '\\') (by decide) rfl (by decide)
  by_cases backspace : c = '\x08'
  · exact backspace ▸ letter (d := '\x08') (e := 'b') (by decide) rfl (by decide)
  by_cases formFeed : c = '\x0c'
  · exact formFeed ▸ letter (d := '\x0c') (e := 'f') (by decide) rfl (by decide)
  by_cases lineFeed : c = '\n'
  · exact lineFeed ▸ letter (d := '\n') (e := 'n') (by decide) rfl (by decide)
  by_cases carriageReturn : c = '\r'
  · exact carriageReturn ▸ letter (d := '\r') (e := 'r') (by decide) rfl (by decide)
  by_cases tab : c = '\t'
  · exact tab ▸ letter (d := '\t') (e := 't') (by decide) rfl (by decide)
  by_cases control : c.toNat < 0x20
  · have written : escaped c = '\\' :: 'u' :: hexQuad c.toNat := by
      simp [escaped, quote, backslash, backspace, formFeed, lineFeed, carriageReturn, tab, control]
    have part : quotedPart c = .unit c.toNat := by
      simp [quotedPart, backspace, formFeed, lineFeed, carriageReturn, tab, control]
    have number := @readHex?_map_hexQuad id hexValue?_hexDigit c.toNat (by omega)
    rw [List.map_id] at number
    rw [written, part]
    show quotedParts? ('\\' :: 'u' :: (hexQuad c.toNat ++ rest)) = _
    simp only [hexQuad, List.cons_append, List.nil_append] at number ⊢
    rw [quotedParts?, number]
    cases quotedParts? rest <;> rfl
  · have written : escaped c = [c] := by
      simp [escaped, quote, backslash, backspace, formFeed, lineFeed, carriageReturn, tab, control]
    have part : quotedPart c = .char c := by simp [quotedPart, control]
    rw [written, part, List.singleton_append, quotedParts?]
    · rw [if_neg quote, if_neg (by simp [backslash, control])]
      cases quotedParts? rest <;> rfl
    · simp [backslash]
    · simp [backslash]

lemma quotedParts?_quoted (cs rest : List Char) :
    quotedParts? (cs.flatMap escaped ++ '"' :: rest) = some (cs.map quotedPart, rest) := by
  induction cs with
  | nil =>
    show quotedParts? ('"' :: rest) = _
    rw [quotedParts?]
    · rfl
    · simp
    · simp
  | cons c cs ih =>
    rw [List.flatMap_cons, List.append_assoc, quotedParts?_escaped, ih]
    rfl

/-- A unit that is no surrogate is a character. -/
lemma spelled?_unit {n : Nat} (small : n < 0xD800) (rest : List QuotedPart) :
    spelled? (.unit n :: rest) = (spelled? rest).map (Char.ofNat n :: ·) := by
  have leading : isLeading n = false := by simp [isLeading]; omega
  have trailing : isTrailing n = false := by simp [isTrailing]; omega
  cases rest with
  | nil => simp [spelled?, leading, trailing]
  | cons part rest =>
    cases part with
    | char c => simp [spelled?, leading, trailing]
    | unit m => simp [spelled?, leading, trailing]

lemma spelled?_quotedPart (cs : List Char) : spelled? (cs.map quotedPart) = some cs := by
  induction cs with
  | nil => rfl
  | cons c cs ih =>
    rw [List.map_cons, quotedPart]
    split
    · rename_i control
      rw [spelled?_unit (by omega), ih, Char.ofNat_toNat]
      rfl
    · rw [spelled?, ih]
      rfl

/-- A quoted string is read back, whatever follows it. -/
lemma readQuoted?_quoted (s : String) (rest : List Char) :
    readQuoted? (s.toList.flatMap escaped ++ '"' :: rest) = some (s, rest) := by
  simp [readQuoted?, quotedParts?_quoted, spelled?_quotedPart]

/-- What follows does not go on with a number. -/
def EndsNumber (rest : List Char) : Prop :=
  ∀ c ∈ rest.head?, isDigit c = false ∧ c ≠ '.' ∧ c ≠ 'e' ∧ c ≠ 'E'

section

variable {rest : List Char} (ends : EndsNumber rest)

include ends

lemma wholeDigits?_decimalDigits (n : Nat) :
    wholeDigits? (decimalDigits n ++ rest) = some (decimalDigits n, rest) := by
  have digits : ∀ c ∈ decimalDigits n, isDigit c = true := fun c hc =>
    isDigit_of_mem_decimalDigits hc
  have stops : rest.takeWhile isDigit = [] ∧ rest.dropWhile isDigit = rest := by
    cases rest with
    | nil => exact ⟨rfl, rfl⟩
    | cons c rest => simp [(ends c rfl).1]
  have run : digits? (decimalDigits n ++ rest) = some (decimalDigits n, rest) := by
    rw [digits?, List.takeWhile_append_of_pos digits, List.dropWhile_append_of_pos digits, stops.1,
      stops.2, List.append_nil]
    split
    · rename_i empty
      exact absurd empty Nat.toDigits_ne_nil
    · rfl
  have unpadded (d : Char) (more : List Char) : decimalDigits n ≠ '0' :: d :: more := by
    intro padded
    cases n with
    | zero => exact absurd padded (by simp [decimalDigits])
    | succ n => exact head?_decimalDigits (Nat.succ_pos n) (by rw [padded]; rfl)
  rw [wholeDigits?, run, Option.bind_eq_bind, Option.bind_some]
  dsimp only
  split
  · rename_i padded
    exact absurd padded (unpadded _ _)
  · rfl

lemma fraction?_of_ends : fraction? rest = some (none, rest) := by
  unfold fraction?
  split
  · exact absurd rfl (ends '.' rfl).2.1
  · rfl

lemma exponent?_of_ends : exponent? rest = some (none, rest) := by
  cases rest with
  | nil => rfl
  | cons c rest =>
    obtain ⟨-, -, lower, upper⟩ := ends c rfl
    simp [exponent?, lower, upper]

lemma numberParts?_text (n : Int) : numberParts? ((Number.integer n).text ++ rest) =
    some (⟨decide (n < 0), decimalDigits n.natAbs, none, none⟩, rest) := by
  have whole := wholeDigits?_decimalDigits ends n.natAbs
  have fraction := fraction?_of_ends ends
  have exponent := exponent?_of_ends ends
  by_cases negative : n < 0
  · simp [numberParts?, Number.text, negative, whole, fraction, exponent]
  · have unsigned (more : List Char) : decimalDigits n.natAbs ++ rest ≠ '-' :: more := by
      intro signed
      cases written : decimalDigits n.natAbs with
      | nil => exact absurd written Nat.toDigits_ne_nil
      | cons d ds =>
        rw [written] at signed
        have digit : isDigit d = true := isDigit_of_mem_decimalDigits (written ▸ List.mem_cons_self)
        rw [List.cons.inj signed |>.1] at digit
        exact absurd digit (by decide)
    -- That there is no sign decides the first `match`.
    simp [numberParts?, Number.text, negative, whole, fraction, exponent]

/-- An integer of 64 bits is read back where its numeral ends. -/
lemma readNumber?_text {n : Number} (whole : n.IsWhole) :
    readNumber? (n.text ++ rest) = some (n, rest) := by
  cases n with
  | double x => exact whole.elim
  | integer n =>
    obtain ⟨low, high⟩ := whole
    have number : NumberParts.number? ⟨decide (n < 0), decimalDigits n.natAbs, none, none⟩ =
        some (.integer n) := by
      simp only [NumberParts.number?, digitsValue_decimalDigits]
      by_cases negative : n < 0
      · have within : 0 < n.natAbs ∧ n.natAbs ≤ Nat.pow 2 63 := by
          rw [show Nat.pow 2 63 = 9223372036854775808 from rfl]
          omega
        simp only [negative, decide_true, if_true, if_pos within]
        rw [Int.ofNat_natAbs_of_nonpos (by omega), Int.neg_neg]
      · have within : n.natAbs < Nat.pow 2 64 := by
          rw [show Nat.pow 2 64 = 18446744073709551616 from rfl]
          omega
        simp only [negative, decide_false, Bool.false_eq_true, if_false, if_pos within]
        rw [Int.natAbs_of_nonneg (by omega)]
    rw [readNumber?, numberParts?_text ends]
    simp [number]

end

end LakeCatalog.Json
