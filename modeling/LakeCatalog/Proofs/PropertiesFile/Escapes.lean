import LakeCatalog.PropertiesFile.Syntax
import Mathlib.Tactic.Common

/-!
# Escapes that number no character

After `\u` up to four characters are taken and read as a numeral. A numeral may be shorter than four
digits and may begin with a plus sign, so some texts are read as a character that number none; and
where the characters are no numeral they are left as they are, an escape among them too. Up to the
first place where one of the two happens, every text is read as four digits alone would have it.
-/

namespace LakeCatalog.PropertiesFile

open Text

section

variable {ds : List Char}

lemma numbered?_plus (digits : List Char) : numbered? ('+' :: digits) =
    (readHex? digits).bind fun n => if n.isValidChar then some (Char.ofNat n) else none := rfl

lemma numbered?_of_unsigned (unsigned : ∀ c ∈ ds.head?, c ≠ '+') : numbered? ds =
    (readHex? ds).bind fun n => if n.isValidChar then some (Char.ofNat n) else none := by
  unfold numbered?
  split
  · exact absurd rfl (unsigned '+' rfl)
  · rfl

lemma unsigned_of_digits (digits : ∀ d ∈ ds, (hexValue? d).isSome = true) :
    ∀ c ∈ ds.head?, c ≠ '+' := by
  rintro c first rfl
  have digit := digits '+' (List.mem_of_mem_head? first)
  revert digit
  decide

/-- Nothing but four digits names a character. -/
lemma unit?_eq_none (h : ds.length ≠ 4 ∨ ∃ d ∈ ds, hexValue? d = none) : unit? ds = none := by
  unfold unit?
  split
  · rename_i w x y z values
    have count := congrArg List.length values
    rw [List.length_map] at count
    rcases h with wrong | ⟨d, mem, noDigit⟩
    · exact absurd count wrong
    · have mem' : hexValue? d ∈ ds.map hexValue? := List.mem_map_of_mem mem
      rw [values, noDigit] at mem'
      simp at mem'
  · rfl

lemma unit?_of_short (short : IsShortNumeral ds) : unit? ds = none := by
  obtain ⟨digits, -, bound, -, rfl | rfl⟩ := short
  · exact unit?_eq_none (.inl (by omega))
  · exact unit?_eq_none (.inr ⟨'+', List.mem_cons_self, by decide⟩)

/-- A short numeral is read as a character. -/
lemma exists_numbered?_of_short (short : IsShortNumeral ds) : ∃ c, numbered? ds = some c := by
  obtain ⟨digits, filled, bound, hex, whole⟩ := short
  obtain ⟨n, read, small⟩ := exists_readHex? filled hex
  have valid : n.isValidChar := by
    have least : Nat.pow 16 digits.length ≤ Nat.pow 16 3 :=
      Nat.pow_le_pow_right (by decide) (by omega)
    exact .inl (Nat.lt_of_lt_of_le (Nat.lt_of_lt_of_le small least) (by decide))
  refine ⟨Char.ofNat n, ?_⟩
  rcases whole with rfl | rfl
  · rw [numbered?_of_unsigned (unsigned_of_digits hex), read, Option.bind_some, if_pos valid]
  · rw [numbered?_plus, read, Option.bind_some, if_pos valid]

lemma readHex?_of_not_short {digits : List Char} (whole : ds = digits ∨ ds = '+' :: digits)
    (few : digits.length < 4) (long : ¬ IsShortNumeral ds) : readHex? digits = none := by
  apply readHex?_eq_none
  by_contra numeral
  rw [not_or, not_exists] at numeral
  obtain ⟨filled, hex⟩ := numeral
  refine long ⟨digits, filled, few, fun d hd => ?_, whole⟩
  rw [Option.isSome_iff_ne_none]
  exact fun noDigit => hex d ⟨hd, noDigit⟩

/-- Whatever is no short numeral is read as four digits have it. -/
lemma numbered?_of_not_short (few : ds.length ≤ 4) (long : ¬ IsShortNumeral ds) :
    numbered? ds = unit? ds := by
  by_cases signed : ds.head? = some '+'
  · obtain ⟨digits, rfl⟩ := List.head?_eq_some_iff.mp signed
    rw [List.length_cons] at few
    rw [numbered?_plus, readHex?_of_not_short (.inr rfl) (by omega) long,
      unit?_eq_none (.inr ⟨'+', List.mem_cons_self, by decide⟩)]
    rfl
  · have unsigned : ∀ c ∈ ds.head?, c ≠ '+' := by
      rintro c first rfl
      exact signed first
    rw [numbered?_of_unsigned unsigned]
    by_cases four : ds.length = 4
    · by_cases hex : ∃ d ∈ ds, hexValue? d = none
      · rw [readHex?_eq_none (.inr hex), unit?_eq_none (.inr hex)]
        rfl
      · obtain ⟨a, b, c, d, rfl⟩ : ∃ a b c d, ds = [a, b, c, d] := by
          match ds, four with
          | [a, b, c, d], _ => exact ⟨a, b, c, d, rfl⟩
        have value {e : Char} (he : e ∈ [a, b, c, d]) : ∃ v, hexValue? e = some v := by
          rw [← Option.isSome_iff_exists, Option.isSome_iff_ne_none]
          exact fun noDigit => hex ⟨e, he, noDigit⟩
        obtain ⟨w, hw⟩ := value (e := a) (by simp)
        obtain ⟨x, hx⟩ := value (e := b) (by simp)
        obtain ⟨y, hy⟩ := value (e := c) (by simp)
        obtain ⟨z, hz⟩ := value (e := d) (by simp)
        have number : 16 * (16 * (16 * w + x) + y) + z = 4096 * w + 256 * x + 16 * y + z := by
          omega
        simp [readHex?, unit?, hw, hx, hy, hz, number]
    · rw [readHex?_of_not_short (.inl rfl) (by omega) long, unit?_eq_none (.inl four)]
      rfl

end

lemma unescape_unit (rest : List Char) : unescape ('\\' :: 'u' :: rest) =
    unescape.numberedOr (rest.take 4) ++ unescape (rest.drop 4) := by
  match rest with
  | [] | [_] | [_, _] | [_, _, _] => simp [unescape]
  | _ :: _ :: _ :: _ :: _ => simp [unescape]

lemma decoded_unit {rest : List Char} {c : Char} (named : unit? (rest.take 4) = some c) :
    decoded ('\\' :: 'u' :: rest) = c :: decoded (rest.drop 4) := by
  match rest with
  | [] | [_] | [_, _] | [_, _, _] => rw [unit?_eq_none (.inl (by simp))] at named; cases named
  | a :: b :: c :: d :: rest =>
    rw [show (a :: b :: c :: d :: rest).take 4 = [a, b, c, d] from rfl] at named
    simp [decoded, named]

lemma decoded_escape {rest : List Char} (nameless : unit? (rest.take 4) = none) :
    decoded ('\\' :: 'u' :: rest) = '\\' :: 'u' :: decoded rest := by
  match rest with
  | [] | [_] | [_, _] | [_, _, _] => simp [decoded]
  | a :: b :: c :: d :: rest =>
    rw [show (a :: b :: c :: d :: rest).take 4 = [a, b, c, d] from rfl] at nameless
    simp only [decoded, nameless]

lemma unescape_cons {c : Char} (plain : c ≠ '\\') (rest : List Char) :
    unescape (c :: rest) = c :: unescape rest := by
  conv_lhs => unfold unescape
  split <;> simp_all

lemma decoded_cons {c : Char} (plain : c ≠ '\\') (rest : List Char) :
    decoded (c :: rest) = c :: decoded rest := by
  conv_lhs => unfold decoded
  split <;> simp_all

/-- A text without a backslash means itself. -/
lemma decoded_append {front : List Char} (plain : '\\' ∉ front) (rest : List Char) :
    decoded (front ++ rest) = front ++ decoded rest := by
  induction front with
  | nil => rfl
  | cons c front ih =>
    rw [List.mem_cons, not_or] at plain
    rw [List.cons_append, decoded_cons (Ne.symm plain.1), ih plain.2, List.cons_append]

lemma readAlike_plain {c : Char} (plain : c ≠ '\\') : ReadAlike [c] :=
  ⟨[c], fun rest => ⟨unescape_cons plain rest, decoded_cons plain rest⟩⟩

lemma readAlike_letter {c : Char} (letter : c ≠ 'u') : ReadAlike ['\\', c] :=
  ⟨[escapedChar c], fun rest => ⟨by simp [unescape, letter], by simp [decoded, letter]⟩⟩

/-- Four characters that are neither misread nor hide an escape. -/
lemma readAlike_unit {ds : List Char} (four : ds.length = 4) (long : ¬ IsShortNumeral ds)
    (plain : '\\' ∉ ds) : ReadAlike ('\\' :: 'u' :: ds) := by
  have same := numbered?_of_not_short (by omega) long
  have front (rest : List Char) : (ds ++ rest).take 4 = ds := List.take_left' four
  have back (rest : List Char) : (ds ++ rest).drop 4 = rest := List.drop_left' four
  refine ⟨unescape.numberedOr ds, fun rest => ⟨?_, ?_⟩⟩
  · rw [List.cons_append, List.cons_append, unescape_unit, front, back]
  · rw [List.cons_append, List.cons_append, unescape.numberedOr, same]
    cases named : unit? ds with
    | some c =>
      rw [decoded_unit (c := c) (by rw [front, named]), back]
      rfl
    | none =>
      rw [decoded_escape (by rw [front, named]), decoded_append plain]
      rfl

/-- What two readers make of a text after one that they read alike. -/
lemma ReadAlike.append {front back : List Char} (alike : ReadAlike front)
    (alike' : ReadAlike back) : ReadAlike (front ++ back) := by
  obtain ⟨out, read⟩ := alike
  obtain ⟨out', read'⟩ := alike'
  refine ⟨out ++ out', fun rest => ?_⟩
  obtain ⟨unescaped, resolved⟩ := read (back ++ rest)
  obtain ⟨unescaped', resolved'⟩ := read' rest
  rw [List.append_assoc, unescaped, resolved, unescaped', resolved', List.append_assoc,
    List.append_assoc]
  exact ⟨rfl, rfl⟩

/-- The text goes wrong at an escape and not before. -/
def PartsAtEscape (cs : List Char) : Prop :=
  ∃ front rest, cs = front ++ '\\' :: 'u' :: rest ∧ ReadAlike front ∧
    (IsShortNumeral (rest.take 4) ∨ '\\' ∈ rest.take 4)

lemma ReadAlike.agree_or_part {front rest : List Char} (alike : ReadAlike front)
    (h : unescape rest = decoded rest ∨ PartsAtEscape rest) :
    unescape (front ++ rest) = decoded (front ++ rest) ∨ PartsAtEscape (front ++ rest) := by
  rcases h with same | ⟨front', rest', rfl, alike', misread⟩
  · obtain ⟨out, read⟩ := alike
    left
    rw [(read rest).1, (read rest).2, same]
  · right
    exact ⟨front ++ front', rest', (List.append_assoc ..).symm, alike.append alike', misread⟩

lemma agree_or_part (cs : List Char) : unescape cs = decoded cs ∨ PartsAtEscape cs := by
  -- Each escape takes more than one character, so the induction is on the length.
  induction length : cs.length using Nat.strongRecOn generalizing cs with
  | ind n ih =>
    subst length
    cases cs with
    | nil => exact .inl rfl
    | cons c rest =>
      by_cases backslash : c = '\\'
      · subst backslash
        cases rest with
        | nil => exact .inl rfl
        | cons c rest =>
          by_cases letter : c = 'u'
          · subst letter
            by_cases misread : IsShortNumeral (rest.take 4) ∨ '\\' ∈ rest.take 4
            · exact .inr ⟨[], rest, rfl, ⟨[], fun _ => ⟨rfl, rfl⟩⟩, misread⟩
            · rw [not_or] at misread
              obtain ⟨long, plain⟩ := misread
              by_cases four : (rest.take 4).length = 4
              · have alike := readAlike_unit four long plain
                have shorter : (rest.drop 4).length < rest.length + 1 + 1 := by
                  rw [List.length_drop]
                  omega
                have both := alike.agree_or_part (ih _ shorter (rest.drop 4) rfl)
                rwa [List.cons_append, List.cons_append, List.take_append_drop] at both
              · have whole : rest.take 4 = rest := by
                  rw [List.length_take] at four
                  exact List.take_of_length_le (by omega)
                rw [whole] at long plain four
                have short : rest.length ≤ 4 := by
                  rw [← whole, List.length_take]
                  omega
                have nameless : unit? rest = none := unit?_eq_none (.inl four)
                have kept := decoded_append plain []
                rw [List.append_nil] at kept
                left
                rw [unescape_unit, whole, unescape.numberedOr, numbered?_of_not_short short long,
                  nameless, List.drop_eq_nil_iff.mpr short, decoded_escape (by rwa [whole]), kept]
                simp [unescape, decoded]
          · have fewer : rest.length < rest.length + 1 + 1 := by omega
            exact (readAlike_letter letter).agree_or_part (ih _ fewer rest rfl)
      · exact (readAlike_plain backslash).agree_or_part (ih _ (by simp) rest rfl)

/-- A text is read as four digits after `\u` have it, unless it holds an escape with a short numeral
or with a backslash among the four characters after it. Up to the first such escape nothing goes
wrong; there the short numeral is taken for a character, and the backslash is left as it is. -/
theorem unescape_departs_only_at_misread (cs : List Char) :
    unescape cs = decoded cs ∨
      ∃ front rest, cs = front ++ '\\' :: 'u' :: rest ∧ ReadAlike front ∧
        decoded ('\\' :: 'u' :: rest) = '\\' :: 'u' :: decoded rest ∧
        ((IsShortNumeral (rest.take 4) ∧
            ∃ c, unescape ('\\' :: 'u' :: rest) = c :: unescape (rest.drop 4)) ∨
          ('\\' ∈ rest.take 4 ∧ unescape ('\\' :: 'u' :: rest) =
            '\\' :: 'u' :: rest.take 4 ++ unescape (rest.drop 4))) := by
  rcases agree_or_part cs with same | ⟨front, rest, whole, alike, misread⟩
  · exact .inl same
  refine .inr ⟨front, rest, whole, alike, ?_⟩
  by_cases short : IsShortNumeral (rest.take 4)
  · obtain ⟨c, read⟩ := exists_numbered?_of_short short
    refine ⟨decoded_escape (unit?_of_short short), .inl ⟨short, c, ?_⟩⟩
    rw [unescape_unit, unescape.numberedOr, read]
    rfl
  · have hidden := misread.resolve_left short
    have nameless : unit? (rest.take 4) = none :=
      unit?_eq_none (.inr ⟨'\\', hidden, by decide⟩)
    have few : (rest.take 4).length ≤ 4 := List.length_take_le 4 rest
    refine ⟨decoded_escape nameless, .inr ⟨hidden, ?_⟩⟩
    rw [unescape_unit, unescape.numberedOr, numbered?_of_not_short few short, nameless]

/-- A plus sign and a numeral that ends with the text are taken for characters, and an escape behind
one that is none is not seen. -/
theorem unescape_takes_malformed_escapes :
    (¬ ∀ cs, unescape cs = decoded cs) ∧
      (unescape "\\u+041".toList = "A".toList ∧ decoded "\\u+041".toList = "\\u+041".toList) ∧
      (unescape "\\u41".toList = "A".toList ∧ decoded "\\u41".toList = "\\u41".toList) ∧
      unescape "\\uZZ\\u0041".toList = "\\uZZ\\u0041".toList ∧
        decoded "\\uZZ\\u0041".toList = "\\uZZA".toList := by
  refine ⟨fun always => absurd (always "\\u+041".toList) ?_, ?_, ?_, ?_⟩ <;> decide +kernel

end LakeCatalog.PropertiesFile
