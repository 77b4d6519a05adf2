import LakeCatalog.Proofs.PropertiesFile.Layout
import LakeCatalog.PropertiesFile.Syntax
import Mathlib.Algebra.Order.BigOperators.Group.List
import Mathlib.Algebra.Order.Group.Nat
import Mathlib.Data.List.Infix
import Mathlib.Data.List.Perm.Basic
import Mathlib.Tactic.Common

/-!
# Reading back a properties file

A written text has a line for each entry, every line stands for one entry, and the first sign that
no backslash precedes is the one that the writer put between key and value. So reading finds the
keys and values as they were written. What it makes of them differs in two cases: the space at the
end of a key is taken off before its backslash is looked at, and a character that takes two UTF-16
units is left as two escapes.
-/

namespace LakeCatalog.PropertiesFile

open Text

def IsPrintable (c : Char) : Prop := 0x20 ≤ c.toNat ∧ c.toNat ≤ 0x7E

instance (c : Char) : Decidable (IsPrintable c) := inferInstanceAs (Decidable (_ ∧ _))

/-- A character that does not end a key and escapes nothing. -/
def IsQuiet (c : Char) : Prop := c ≠ '\\' ∧ c ≠ '=' ∧ c ≠ ':' ∧ isBlank c = false

instance (c : Char) : Decidable (IsQuiet c) := inferInstanceAs (Decidable (_ ∧ _))

lemma isBlank_of_isPrintable {c : Char} (h : IsPrintable c) (visible : c ≠ ' ') :
    isBlank c = false := by
  obtain ⟨low, high⟩ := h
  have other : c.toNat ≠ 0x20 := fun same => visible (Char.toNat_inj.mp same)
  simp [isBlank]
  omega

namespace Mark

/-- The marks that stand in written texts. -/
def Sound : Mark → Prop
  | plain c => IsPrintable c ∧ c ≠ '\\' ∧ c ≠ '=' ∧ c ≠ ':' ∧ c ≠ '#' ∧ c ≠ '!'
  | escape c => IsPrintable c ∧ c ≠ 'u'
  | unit n => n < 0x10000

def read : Mark → List Char
  | plain c => [c]
  | escape c => [escapedChar c]
  | unit n => if n.isValidChar then [Char.ofNat n] else (unit n).text

lemma digit_spec : ∀ d < 16, hexValue? (hexDigit d).toUpper = some d ∧
    IsQuiet (hexDigit d).toUpper ∧ IsPrintable (hexDigit d).toUpper ∧
    (hexDigit d).toUpper ≠ '+' := by decide

lemma digits_quiet {n : Nat} {c : Char} (h : c ∈ (hexQuad n).map Char.toUpper) :
    IsQuiet c ∧ IsPrintable c := by
  have digit (k : Nat) := digit_spec (k % 16) (Nat.mod_lt k (by omega))
  simp only [hexQuad, List.map_cons, List.map_nil, List.mem_cons, List.not_mem_nil, or_false] at h
  rcases h with rfl | rfl | rfl | rfl <;> exact ⟨(digit _).2.1, (digit _).2.2.1⟩

lemma numberedOr_digits {n : Nat} (small : n < 0x10000) :
    unescape.numberedOr ((hexQuad n).map Char.toUpper) = (unit n).read := by
  have number := readHex?_map_hexQuad (fun d hd => (digit_spec d hd).1) small
  have unsigned (rest : List Char) :
      (hexQuad n).map Char.toUpper ≠ '+' :: rest := by
    have first := (digit_spec (n / 4096 % 16) (Nat.mod_lt _ (by omega))).2.2.2
    simp [hexQuad, first]
  have character : numbered? ((hexQuad n).map Char.toUpper) =
      if n.isValidChar then some (Char.ofNat n) else none := by
    unfold numbered?
    split
    · rename_i rest same
      exact absurd same (unsigned rest)
    · simp [number]
  rw [unescape.numberedOr, character, read]
  by_cases valid : n.isValidChar <;> simp [valid, text]

lemma isPrintable_of_mem_text {m : Mark} (sound : m.Sound) {c : Char} (h : c ∈ m.text) :
    IsPrintable c := by
  have backslash : IsPrintable '\\' := by decide
  cases m with
  | plain d =>
    rw [List.mem_singleton.mp h]
    exact sound.1
  | escape d =>
    simp only [text, List.mem_cons, List.not_mem_nil, or_false] at h
    rcases h with rfl | rfl
    · exact backslash
    · exact sound.1
  | unit n =>
    simp only [text, List.mem_cons] at h
    rcases h with rfl | rfl | h
    · exact backslash
    · decide
    · exact (digits_quiet h).2

lemma unescape_text {m : Mark} (sound : m.Sound) (rest : List Char) :
    unescape (m.text ++ rest) = m.read ++ unescape rest := by
  cases m with
  | plain c =>
    obtain ⟨-, unescaped, -⟩ := sound
    rw [text, List.singleton_append]
    conv_lhs => unfold unescape
    split <;> simp_all [read]
  | escape c =>
    have letter : c ≠ 'u' := sound.2
    simp [text, unescape, letter, read]
  | unit n =>
    rw [← numberedOr_digits sound]
    rfl

lemma cutKey_cons {c : Char} (quiet : IsQuiet c) (rest : List Char) :
    cutKey (c :: rest) = (c :: (cutKey rest).1, (cutKey rest).2) := by
  obtain ⟨unescaped, equals, colon, blank⟩ := quiet
  conv_lhs => unfold cutKey
  split <;> simp_all

lemma cutKey_append {front : List Char} (quiet : ∀ c ∈ front, IsQuiet c) (rest : List Char) :
    cutKey (front ++ rest) = (front ++ (cutKey rest).1, (cutKey rest).2) := by
  induction front with
  | nil => rfl
  | cons c front ih =>
    obtain ⟨first, others⟩ := List.forall_mem_cons.mp quiet
    rw [List.cons_append, cutKey_cons first, ih others]
    rfl

/-- A mark other than a space belongs to the key. -/
lemma cutKey_text {m : Mark} (sound : m.Sound) (visible : m ≠ plain ' ') (rest : List Char) :
    cutKey (m.text ++ rest) = (m.text ++ (cutKey rest).1, (cutKey rest).2) := by
  cases m with
  | plain c =>
    obtain ⟨printable, unescaped, equals, colon, -⟩ := sound
    have blank := isBlank_of_isPrintable printable fun same => visible (congrArg plain same)
    exact cutKey_cons ⟨unescaped, equals, colon, blank⟩ rest
  | escape c => rfl
  | unit n =>
    have digits := cutKey_append (fun c hc => (digits_quiet (n := n) hc).1) rest
    show cutKey ('\\' :: 'u' :: ((hexQuad n).map Char.toUpper ++ rest)) = _
    rw [cutKey, digits]
    rfl

end Mark

lemma continues_append_singleton (front : List Char) {c : Char} (h : c ≠ '\\') :
    continues (front ++ [c]) = false := by
  simp [continues, h]

namespace Mark

/-- No mark leaves a backslash open. -/
lemma continues_text {m : Mark} (sound : m.Sound) : continues m.text = false := by
  cases m with
  | plain c => exact continues_append_singleton [] sound.2.1
  | escape c =>
    by_cases h : c = '\\'
    · subst h
      rfl
    · exact continues_append_singleton ['\\'] h
  | unit n =>
    have last := (digit_spec (n % 16) (Nat.mod_lt n (by omega))).2.1.1
    exact continues_append_singleton ('\\' :: 'u' ::
      [n / 4096 % 16, n / 256 % 16, n / 16 % 16].map fun d => (hexDigit d).toUpper) last

end Mark

section

variable {marks : List Mark} (sound : ∀ m ∈ marks, m.Sound)

include sound

lemma isPrintable_of_mem_marks {c : Char} (h : c ∈ marks.flatMap Mark.text) : IsPrintable c := by
  obtain ⟨m, hm, hc⟩ := List.mem_flatMap.mp h
  exact Mark.isPrintable_of_mem_text (sound m hm) hc

lemma unescape_marks (rest : List Char) :
    unescape (marks.flatMap Mark.text ++ rest) = marks.flatMap Mark.read ++ unescape rest := by
  induction marks with
  | nil => rfl
  | cons m marks ih =>
    obtain ⟨first, others⟩ := List.forall_mem_cons.mp sound
    rw [List.flatMap_cons, List.append_assoc, Mark.unescape_text first, ih others,
      List.flatMap_cons, List.append_assoc]

lemma continues_append_marks {front : List Char} (closed : continues front = false) :
    continues (front ++ marks.flatMap Mark.text) = false := by
  induction marks generalizing front with
  | nil => rwa [List.flatMap_nil, List.append_nil]
  | cons m marks ih =>
    obtain ⟨first, others⟩ := List.forall_mem_cons.mp sound
    rw [List.flatMap_cons, ← List.append_assoc]
    exact ih others ((continues_append closed _).trans (Mark.continues_text first))

lemma cutKey_marks (visible : ∀ m ∈ marks, m ≠ .plain ' ') (rest : List Char) :
    cutKey (marks.flatMap Mark.text ++ rest) =
      (marks.flatMap Mark.text ++ (cutKey rest).1, (cutKey rest).2) := by
  induction marks with
  | nil => rfl
  | cons m marks ih =>
    obtain ⟨first, others⟩ := List.forall_mem_cons.mp sound
    obtain ⟨seen, seen'⟩ := List.forall_mem_cons.mp visible
    rw [List.flatMap_cons, List.append_assoc, Mark.cutKey_text first seen, ih others seen',
      List.append_assoc]

end

/-- What a character is read as once it is written. -/
def respelled (c : Char) : List Char :=
  if c.toNat < 0x10000 then [c] else (units c).flatMap fun n => (Mark.unit n).text

lemma lt_of_mem_units {c : Char} {n : Nat} (h : n ∈ units c) : n < 0x10000 := by
  have valid : c.toNat.isValidChar := c.valid
  unfold Nat.isValidChar at valid
  unfold units at h
  split at h <;> simp at h <;> omega

/-- A character is written by itself, after a backslash, or as its units. -/
lemma valueMarks_cases (c : Char) :
    (valueMarks c = [.plain c] ∧ (Mark.plain c).Sound) ∨
      (∃ d, valueMarks c = [.escape d] ∧ (Mark.escape d).Sound ∧ d ≠ ' ' ∧ escapedChar d = c) ∨
        valueMarks c = (units c).map .unit := by
  have escaped {d : Char} (printable : IsPrintable d) (letter : d ≠ 'u') (visible : d ≠ ' ')
      (written : valueMarks (escapedChar d) = [.escape d]) :
      ∃ d', valueMarks (escapedChar d) = [.escape d'] ∧ (Mark.escape d').Sound ∧ d' ≠ ' ' ∧
        escapedChar d' = escapedChar d :=
    ⟨d, written, ⟨printable, letter⟩, visible, rfl⟩
  by_cases tab : c = '\t'
  · exact tab ▸ .inr (.inl (escaped (d := 't') (by decide) (by decide) (by decide) rfl))
  by_cases lineFeed : c = '\n'
  · exact lineFeed ▸ .inr (.inl (escaped (d := 'n') (by decide) (by decide) (by decide) rfl))
  by_cases carriageReturn : c = '\r'
  · exact carriageReturn ▸ .inr (.inl (escaped (d := 'r') (by decide) (by decide) (by decide) rfl))
  by_cases formFeed : c = '\x0c'
  · exact formFeed ▸ .inr (.inl (escaped (d := 'f') (by decide) (by decide) (by decide) rfl))
  by_cases beyond : c.toNat < 0x20 ∨ 0x7E < c.toNat
  · exact .inr (.inr (by simp [valueMarks, tab, lineFeed, carriageReturn, formFeed, beyond]))
  have printable : IsPrintable c := by
    unfold IsPrintable
    omega
  by_cases sign : c ∈ ['\\', '=', ':', '#', '!']
  · refine .inr (.inl ?_)
    simp only [List.mem_cons, List.not_mem_nil, or_false] at sign
    rcases sign with rfl | rfl | rfl | rfl | rfl <;>
      exact ⟨_, rfl, ⟨printable, by decide⟩, by decide, rfl⟩
  · refine .inl ⟨by simp [valueMarks, tab, lineFeed, carriageReturn, formFeed, beyond, sign], ?_⟩
    simpa [Mark.Sound, printable] using sign

lemma read_units (c : Char) : ((units c).map Mark.unit).flatMap Mark.read = respelled c := by
  have valid : c.toNat.isValidChar := c.valid
  unfold respelled units
  split
  · simp [Mark.read, valid]
  · -- Neither unit of a pair is a character by itself.
    have leading : ¬ (0xD800 + (c.toNat - 0x10000) / 0x400).isValidChar := by
      unfold Nat.isValidChar at *
      omega
    have trailing : ¬ (0xDC00 + (c.toNat - 0x10000) % 0x400).isValidChar := by
      unfold Nat.isValidChar at *
      omega
    simp [Mark.read, leading, trailing]

lemma respelled_escapedChar {d : Char} (h : IsPrintable d) :
    respelled (escapedChar d) = [escapedChar d] := by
  refine if_pos ?_
  unfold IsPrintable at h
  unfold escapedChar
  split <;> first | decide | omega

lemma read_valueMarks (c : Char) : (valueMarks c).flatMap Mark.read = respelled c := by
  rcases valueMarks_cases c with ⟨written, sound⟩ | ⟨d, written, sound, -, rfl⟩ | written
  · have small : c.toNat < 0x10000 := by
      have printable := sound.1.2
      omega
    rw [written, respelled, if_pos small]
    rfl
  · rw [written, respelled_escapedChar sound.1]
    rfl
  · rw [written, read_units]

lemma read_keyMarks (c : Char) : (keyMarks c).flatMap Mark.read = respelled c := by
  unfold keyMarks
  split
  · subst c
    rfl
  · exact read_valueMarks c

lemma sound_of_mem_valueMarks {c : Char} {m : Mark} (h : m ∈ valueMarks c) : m.Sound := by
  rcases valueMarks_cases c with ⟨written, sound⟩ | ⟨d, written, sound, -⟩ | written <;>
    rw [written] at h
  · exact List.mem_singleton.mp h ▸ sound
  · exact List.mem_singleton.mp h ▸ sound
  · obtain ⟨n, hn, rfl⟩ := List.mem_map.mp h
    exact lt_of_mem_units hn

lemma sound_of_mem_keyMarks {c : Char} {m : Mark} (h : m ∈ keyMarks c) : m.Sound := by
  unfold keyMarks at h
  split at h
  · exact List.mem_singleton.mp h ▸ ⟨by decide, by decide⟩
  · exact sound_of_mem_valueMarks h

/-- A mark of a character other than the space is no space, escaped or not. -/
lemma visible_of_mem_valueMarks {c : Char} (visible : c ≠ ' ') {m : Mark} (h : m ∈ valueMarks c) :
    m ≠ .plain ' ' ∧ m ≠ .escape ' ' := by
  rcases valueMarks_cases c with ⟨written, -⟩ | ⟨d, written, -, visible', -⟩ | written <;>
    rw [written] at h
  · simp [List.mem_singleton.mp h, visible]
  · simp [List.mem_singleton.mp h, visible']
  · obtain ⟨n, -, rfl⟩ := List.mem_map.mp h
    simp

lemma valueMarks_ne_nil (c : Char) : valueMarks c ≠ [] := by
  rcases valueMarks_cases c with ⟨written, -⟩ | ⟨d, written, -⟩ | written <;> rw [written]
  · exact List.cons_ne_nil _ _
  · exact List.cons_ne_nil _ _
  · unfold units
    split <;> exact List.cons_ne_nil _ _

lemma ne_plain_of_mem_keyMarks {c : Char} {m : Mark} (h : m ∈ keyMarks c) : m ≠ .plain ' ' := by
  unfold keyMarks at h
  split at h
  · simp [List.mem_singleton.mp h]
  · rename_i visible
    exact (visible_of_mem_valueMarks visible h).1

lemma sound_of_mem_writtenKey {key : List Char} {m : Mark} (h : m ∈ writtenKey key) : m.Sound := by
  obtain ⟨c, -, hm⟩ := List.mem_flatMap.mp h
  exact sound_of_mem_keyMarks hm

lemma ne_plain_of_mem_writtenKey {key : List Char} {m : Mark} (h : m ∈ writtenKey key) :
    m ≠ .plain ' ' := by
  obtain ⟨c, -, hm⟩ := List.mem_flatMap.mp h
  exact ne_plain_of_mem_keyMarks hm

lemma sound_of_mem_writtenValue {value : List Char} {m : Mark} (h : m ∈ writtenValue value) :
    m.Sound := by
  unfold writtenValue at h
  split at h
  · rcases List.mem_cons.mp h with rfl | h
    · exact ⟨by decide, by decide⟩
    · obtain ⟨c, -, hm⟩ := List.mem_flatMap.mp h
      exact sound_of_mem_valueMarks hm
  · obtain ⟨c, -, hm⟩ := List.mem_flatMap.mp h
    exact sound_of_mem_valueMarks hm

lemma unescape_writtenKey (key rest : List Char) :
    unescape ((writtenKey key).flatMap Mark.text ++ rest) =
      key.flatMap respelled ++ unescape rest := by
  rw [unescape_marks fun m hm => sound_of_mem_writtenKey hm, writtenKey, List.flatMap_assoc]
  simp only [read_keyMarks]

lemma unescape_writtenValue (value : List Char) :
    unescape ((writtenValue value).flatMap Mark.text) = value.flatMap respelled := by
  have read := unescape_marks
    (fun m (hm : m ∈ writtenValue value) => sound_of_mem_writtenValue hm) []
  rw [List.append_nil, unescape, List.append_nil] at read
  rw [read]
  unfold writtenValue
  split
  · rw [List.flatMap_cons, List.flatMap_assoc, List.flatMap_cons]
    simp only [read_valueMarks]
    rfl
  · rw [List.flatMap_assoc]
    simp only [read_valueMarks]

/-- The first character of a text that is written is neither a blank nor the sign of a comment. -/
def StartsEntry (cs : List Char) : Prop :=
  ∀ c ∈ cs.head?, isBlank c = false ∧ c ≠ '#' ∧ c ≠ '!'

lemma startsEntry_marks {marks : List Mark} (sound : ∀ m ∈ marks, m.Sound)
    (visible : ∀ m ∈ marks.head?, m ≠ .plain ' ') : StartsEntry (marks.flatMap Mark.text) := by
  cases marks with
  | nil => exact fun c hc => by cases hc
  | cons m marks =>
    intro c hc
    have first := sound m List.mem_cons_self
    have seen := visible m rfl
    cases m with
    | plain d =>
      cases hc
      obtain ⟨printable, -, -, -, hash, bang⟩ := first
      have clear := isBlank_of_isPrintable printable fun same => seen (congrArg Mark.plain same)
      exact ⟨clear, hash, bang⟩
    | escape d =>
      cases hc
      decide
    | unit n =>
      cases hc
      decide

lemma startsEntry_writtenValue (value : List Char) :
    StartsEntry ((writtenValue value).flatMap Mark.text) := by
  refine startsEntry_marks (fun m hm => sound_of_mem_writtenValue hm) fun m hm => ?_
  unfold writtenValue at hm
  split at hm
  · cases hm
    simp
  · rename_i visible
    cases value with
    | nil => cases hm
    | cons c rest =>
      have first : c ≠ ' ' := by
        rintro rfl
        exact visible rest rfl
      rw [List.flatMap_cons, List.head?_append_of_ne_nil _ (valueMarks_ne_nil c)] at hm
      exact (visible_of_mem_valueMarks first (List.mem_of_mem_head? hm)).1

def EndsInSpace (cs : List Char) : Prop := cs.getLast? = some ' '

instance (cs : List Char) : Decidable (EndsInSpace cs) := inferInstanceAs (Decidable (_ = _))

/-- What a key is read as once it is written. -/
def recoveredKey (key : List Char) : List Char :=
  (if EndsInSpace key then key.dropLast else key).flatMap respelled

lemma exists_last_of_mark {m : Mark} (sound : m.Sound)
    (visible : m ≠ .plain ' ' ∧ m ≠ .escape ' ') :
    ∃ front d, m.text = front ++ [d] ∧ isBlank d = false := by
  cases m with
  | plain c =>
    exact ⟨[], c, rfl, isBlank_of_isPrintable sound.1 fun same =>
      visible.1 (congrArg Mark.plain same)⟩
  | escape c =>
    exact ⟨['\\'], c, rfl, isBlank_of_isPrintable sound.1 fun same =>
      visible.2 (congrArg Mark.escape same)⟩
  | unit n =>
    have last := (Mark.digit_spec (n % 16) (Nat.mod_lt n (by omega))).2.1.2.2.2
    exact ⟨'\\' :: 'u' :: [n / 4096 % 16, n / 256 % 16, n / 16 % 16].map fun d =>
      (hexDigit d).toUpper, (hexDigit (n % 16)).toUpper, rfl, last⟩

/-- A space at the end of a key is taken off and leaves its backslash behind. -/
lemma unescape_trimEnd_writtenKey (key : List Char) :
    unescape (trimEnd ((writtenKey key).flatMap Mark.text)) = recoveredKey key := by
  have plain (key : List Char) :
      unescape ((writtenKey key).flatMap Mark.text) = key.flatMap respelled := by
    have read := unescape_writtenKey key []
    rwa [List.append_nil, unescape, List.append_nil] at read
  rcases List.eq_nil_or_concat' key with rfl | ⟨init, c, rfl⟩
  · rfl
  have cut : (writtenKey (init ++ [c])).flatMap Mark.text =
      (writtenKey init).flatMap Mark.text ++ (keyMarks c).flatMap Mark.text := by
    simp [writtenKey]
  by_cases space : c = ' '
  · subst space
    have regroup : (writtenKey (init ++ [' '])).flatMap Mark.text =
        ((writtenKey init).flatMap Mark.text ++ ['\\']) ++ [' '] := by
      rw [cut, List.append_assoc]
      rfl
    have left : trimEnd ((writtenKey (init ++ [' '])).flatMap Mark.text) =
        (writtenKey init).flatMap Mark.text ++ ['\\'] := by
      have blank : isBlank ' ' = true := by decide
      rw [regroup, trimEnd, List.reverse_append, List.reverse_singleton, List.singleton_append,
        List.dropWhile_cons_of_pos blank]
      exact trimEnd_append_of_not_blank _ (by decide)
    rw [left, unescape_writtenKey, unescape, List.append_nil, recoveredKey,
      if_pos (show EndsInSpace (init ++ [' ']) from List.getLast?_concat), List.dropLast_concat]
  · obtain ⟨front, m, marks⟩ := (List.eq_nil_or_concat' (valueMarks c)).resolve_left
      (valueMarks_ne_nil c)
    have hm : m ∈ valueMarks c := by simp [marks]
    obtain ⟨before, d, last, visible⟩ := exists_last_of_mark (sound_of_mem_valueMarks hm)
      (visible_of_mem_valueMarks space hm)
    have regroup : (writtenKey (init ++ [c])).flatMap Mark.text =
        ((writtenKey init).flatMap Mark.text ++ (front.flatMap Mark.text ++ before)) ++ [d] := by
      rw [cut, keyMarks, if_neg space, marks]
      simp [last]
    have kept := trimEnd_append_of_not_blank
      ((writtenKey init).flatMap Mark.text ++ (front.flatMap Mark.text ++ before)) visible
    rw [← regroup] at kept
    rw [kept, plain, recoveredKey, if_neg (by simpa [EndsInSpace] using space)]

lemma writtenLine_spec (e : String × String) :
    StartsEntry (writtenLine e) ∧ writtenLine e ≠ [] ∧ continues (writtenLine e) = false ∧
      ∀ c ∈ writtenLine e, IsPrintable c := by
  have keySound (m : Mark) (hm : m ∈ writtenKey e.1.toList) := sound_of_mem_writtenKey hm
  have valueSound (m : Mark) (hm : m ∈ writtenValue e.2.toList) := sound_of_mem_writtenValue hm
  refine ⟨?_, by simp [writtenLine], ?_, ?_⟩
  · have key := startsEntry_marks keySound fun m hm =>
      ne_plain_of_mem_writtenKey (List.mem_of_mem_head? hm)
    unfold writtenLine
    cases text : (writtenKey e.1.toList).flatMap Mark.text with
    | nil =>
      intro c hc
      cases hc
      decide
    | cons d rest =>
      rw [text] at key
      exact key
  · have key := continues_append_marks keySound (show continues [] = false from rfl)
    have sign := continues_append_singleton ((writtenKey e.1.toList).flatMap Mark.text)
      (show '=' ≠ '\\' by decide)
    have value := continues_append_marks valueSound sign
    rwa [List.append_assoc] at value
  · intro c hc
    rcases List.mem_append.mp hc with hc | hc
    · exact isPrintable_of_mem_marks keySound hc
    · rcases List.mem_cons.mp hc with rfl | hc
      · decide
      · exact isPrintable_of_mem_marks valueSound hc

lemma logicalLines_of_whole {written : List (List Char)}
    (whole : ∀ l ∈ written, StartsEntry l ∧ l ≠ [] ∧ continues l = false) :
    logicalLines [] written = written := by
  induction written with
  | nil => rfl
  | cons l rest ih =>
    obtain ⟨⟨starts, filled, closed⟩, others⟩ := List.forall_mem_cons.mp whole
    have untrimmed : trimStart l = l := trimStart_eq_self fun c hc => (starts c hc).1
    have counts : isIgnored l = false := by
      cases l with
      | nil => exact absurd rfl filled
      | cons c l => simp [isIgnored, (starts c rfl).2]
    simp [logicalLines, untrimmed, counts, closed, ih others]

lemma cutEntry_writtenLine (e : String × String) : cutEntry (writtenLine e) =
    (trimEnd ((writtenKey e.1.toList).flatMap Mark.text),
      (writtenValue e.2.toList).flatMap Mark.text) := by
  have key := cutKey_marks
    (fun m (hm : m ∈ writtenKey e.1.toList) => sound_of_mem_writtenKey hm)
    (fun m hm => ne_plain_of_mem_writtenKey hm)
    ('=' :: (writtenValue e.2.toList).flatMap Mark.text)
  have sign (rest : List Char) : cutKey ('=' :: rest) = ([], '=' :: rest) := rfl
  have value := trimStart_eq_self fun c hc => (startsEntry_writtenValue e.2.toList c hc).1
  rw [sign, List.append_nil] at key
  simp [cutEntry, writtenLine, key, value]

def recovered (e : String × String) : String × String :=
  (String.ofList (recoveredKey e.1.toList), String.ofList (e.2.toList.flatMap respelled))

/-- Every entry that is written is found, in its place. -/
lemma entries_write (es : List (String × String)) : entries (write es) = es.map recovered := by
  have whole (l : List Char) (hl : l ∈ es.map writtenLine) : ∃ e, l = writtenLine e := by
    obtain ⟨e, -, rfl⟩ := List.mem_map.mp hl
    exact ⟨e, rfl⟩
  have unbroken : ∀ l ∈ es.map writtenLine, ∀ c ∈ l, c ≠ '\n' ∧ c ≠ '\r' := by
    intro l hl c hc
    obtain ⟨e, rfl⟩ := whole l hl
    have printable := (writtenLine_spec e).2.2.2 c hc
    constructor <;> rintro rfl <;> exact absurd printable (by decide)
  have logical : logicalLines [] (es.map writtenLine) = es.map writtenLine := by
    refine logicalLines_of_whole fun l hl => ?_
    obtain ⟨e, rfl⟩ := whole l hl
    obtain ⟨starts, filled, closed, -⟩ := writtenLine_spec e
    exact ⟨starts, filled, closed⟩
  have read := lines_ofLines unbroken
  rw [ofLines, List.flatMap_map] at read
  rw [entries, write, String.toList_ofList, read, logical, List.map_map]
  refine List.map_congr_left fun e _ => ?_
  simp only [Function.comp, cutEntry_writtenLine, unescape_trimEnd_writtenKey,
    unescape_writtenValue]
  rfl

/-- A text without characters that take two UTF-16 units. -/
def IsBasic (cs : List Char) : Prop := ∀ c ∈ cs, c.toNat < 0x10000

instance (cs : List Char) : Decidable (IsBasic cs) :=
  List.decidableBAll (fun c : Char => c.toNat < 0x10000) cs

lemma flatMap_respelled {cs : List Char} (basic : IsBasic cs) : cs.flatMap respelled = cs := by
  have single : cs.flatMap respelled = cs.flatMap fun c => [c] :=
    List.flatMap_congr fun c hc => if_pos (basic c hc)
  rw [single, List.flatMap_singleton']

/-- Nothing that is read takes two units. -/
lemma isBasic_flatMap_respelled (cs : List Char) : IsBasic (cs.flatMap respelled) := by
  intro c hc
  obtain ⟨d, -, hc⟩ := List.mem_flatMap.mp hc
  unfold respelled at hc
  split at hc
  · rwa [List.mem_singleton.mp hc]
  · obtain ⟨n, hn, hc⟩ := List.mem_flatMap.mp hc
    have printable := (Mark.isPrintable_of_mem_text (m := .unit n) (lt_of_mem_units hn) hc).2
    omega

lemma recoveredKey_of_isBasic {key : List Char} (basic : IsBasic key)
    (visible : ¬ EndsInSpace key) : recoveredKey key = key := by
  rw [recoveredKey, if_neg visible, flatMap_respelled basic]

/-- Reading shortens a key by the space at its end. -/
lemma length_recoveredKey {key : List Char} (basic : IsBasic key) (space : EndsInSpace key) :
    (recoveredKey key).length < key.length := by
  have short : IsBasic key.dropLast := fun c hc => basic c (List.mem_of_mem_dropLast hc)
  have filled : 0 < key.length := by
    cases key with
    | nil => cases space
    | cons c rest => exact Nat.succ_pos _
  rw [recoveredKey, if_pos space, flatMap_respelled short, List.length_dropLast]
  omega

lemma parse_write (es : List (String × String)) :
    parse (write es) = .ofList (es.map recovered) := by
  rw [parse, entries_write]

/-- Reading a written text gives back the map exactly if no key ends in a space and every character
of the keys and values takes one UTF-16 unit, whatever else they hold and in whatever order the
entries are written. -/
theorem parse_write_eq_iff (d : Dictionary String) {es : List (String × String)}
    (listing : es.Perm d.entries) : parse (write es) = d ↔
      ∀ e ∈ d.entries,
        ¬ EndsInSpace e.1.toList ∧ IsBasic e.1.toList ∧ IsBasic e.2.toList := by
  constructor
  · intro same
    have source : ∀ e ∈ d.entries, ∃ e' ∈ d.entries,
        e.1.toList = recoveredKey e'.1.toList ∧ e.2.toList = e'.2.toList.flatMap respelled := by
      intro e he
      rw [← same, parse_write] at he
      obtain ⟨e', he', rfl⟩ := List.mem_map.mp (Dictionary.mem_of_mem_ofList he)
      exact ⟨e', listing.mem_iff.mp he', String.toList_ofList, String.toList_ofList⟩
    have basic : ∀ e ∈ d.entries, IsBasic e.1.toList ∧ IsBasic e.2.toList := by
      intro e he
      obtain ⟨e', -, key, value⟩ := source e he
      exact ⟨key ▸ isBasic_flatMap_respelled _, value ▸ isBasic_flatMap_respelled _⟩
    -- A key that ends in a space would come from a longer one, that one from a longer one still.
    have longer (n : Nat) : ∀ e ∈ d.entries, EndsInSpace e.1.toList →
        ∃ e' ∈ d.entries, n ≤ e'.1.toList.length ∧ EndsInSpace e'.1.toList := by
      induction n with
      | zero => exact fun e he space => ⟨e, he, Nat.zero_le _, space⟩
      | succ n ih =>
        intro e he space
        obtain ⟨e', he', long, space'⟩ := ih e he space
        obtain ⟨e'', he'', key, -⟩ := source e' he'
        have basic'' := (basic e'' he'').1
        have ends : EndsInSpace e''.1.toList := by
          by_contra visible
          rw [key, recoveredKey_of_isBasic basic'' visible] at space'
          exact visible space'
        have shorter := length_recoveredKey basic'' ends
        rw [← key] at shorter
        exact ⟨e'', he'', by omega, ends⟩
    refine fun e he => ⟨fun space => ?_, basic e he⟩
    obtain ⟨e', he', long, -⟩ :=
      longer ((d.entries.map fun e => e.1.toList.length).sum + 1) e he space
    have bounded := List.le_sum_of_mem (List.mem_map_of_mem (f := fun e => e.1.toList.length) he')
    omega
  · intro simple
    have unchanged : ∀ e ∈ es, recovered e = e := by
      intro e he
      obtain ⟨visible, key, value⟩ := simple e (listing.mem_iff.mp he)
      rw [recovered, recoveredKey_of_isBasic key visible, flatMap_respelled value,
        String.ofList_toList, String.ofList_toList]
    rw [parse_write, List.map_congr_left unchanged, List.map_id', Dictionary.ofList_of_perm listing]

/-- Signs, line breaks, spaces inside and at other ends and letters beyond ASCII come back, here
from a text that lists the entries from last to first. -/
theorem parse_write_of_signs :
    let d : Dictionary String :=
      .ofList [(" a = b", "  c\t:#! "), ("#é", "x\\\n"), ("", "\x01")]
    d.entries.reverse.Perm d.entries ∧
      (∀ e ∈ d.entries, ¬ EndsInSpace e.1.toList ∧ IsBasic e.1.toList ∧ IsBasic e.2.toList) ∧
      parse (write d.entries.reverse) = d := by
  intro d
  have listing : d.entries.reverse.Perm d.entries := List.reverse_perm _
  have simple : ∀ e ∈ d.entries,
      ¬ EndsInSpace e.1.toList ∧ IsBasic e.1.toList ∧ IsBasic e.2.toList := by decide +kernel
  exact ⟨listing, simple, (parse_write_eq_iff d listing).mpr simple⟩

/-- A key loses the space at its end. -/
theorem parse_write_drops_space : ¬ ∀ d : Dictionary String, parse (write d.entries) = d := by
  intro always
  have found := congrArg (·.get? "a ") (always (.ofList [("a ", "v")]))
  exact absurd found (by decide +kernel)

end LakeCatalog.PropertiesFile
