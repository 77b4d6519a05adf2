/-!
# Numerals

Natural numbers written in ASCII digits, to base ten and to base sixteen. A decimal numeral is a
non-empty run of digits; writing gives the one without superfluous zeros, and reading it gives the
number back.
-/

namespace LakeCatalog.Text

/-- The decimal numeral of a number, without leading zeros. -/
def decimalDigits (n : Nat) : List Char :=
  Nat.toDigits 10 n

def decimal (n : Nat) : String :=
  String.ofList (decimalDigits n)

/-- An ASCII digit. -/
def isDigit (c : Char) : Bool :=
  '0' ≤ c && c ≤ '9'

/-- The number that a run of digits stands for. -/
def digitsValue (ds : List Char) : Nat :=
  Nat.ofDigitChars 10 ds 0

/-- The number of a numeral; leading zeros are allowed. -/
def readDecimal? (cs : List Char) : Option Nat :=
  if !cs.isEmpty && cs.all isDigit then some (digitsValue cs) else none

/-- The number of a numeral that may carry a plus sign. -/
def readUnsigned? : List Char → Option Nat
  | '+' :: cs => readDecimal? cs
  | cs => readDecimal? cs

/-- The lower-case digit to base sixteen of a number below sixteen. -/
def hexDigit (n : Nat) : Char :=
  Nat.digitChar n

def hexValue? (c : Char) : Option Nat :=
  if '0' ≤ c && c ≤ '9' then some (c.toNat - 48)
  else if 'a' ≤ c && c ≤ 'f' then some (c.toNat - 87)
  else if 'A' ≤ c && c ≤ 'F' then some (c.toNat - 55)
  else none

def readHex? (cs : List Char) : Option Nat :=
  if cs.isEmpty then none
  else cs.foldlM (fun n c => (hexValue? c).map (16 * n + ·)) 0

def hexByte (b : UInt8) : List Char :=
  [hexDigit (b.toNat / 16), hexDigit (b.toNat % 16)]

def hexQuad (n : Nat) : List Char :=
  [hexDigit (n / 4096 % 16), hexDigit (n / 256 % 16), hexDigit (n / 16 % 16), hexDigit (n % 16)]

theorem hexValue?_hexDigit : ∀ d < 16, hexValue? (hexDigit d) = some d := by decide

/-- Four digits are read as the number, also once they are spelled otherwise. -/
theorem readHex?_map_hexQuad {spell : Char → Char}
    (same : ∀ d < 16, hexValue? (spell (hexDigit d)) = some d) {n : Nat} (small : n < 0x10000) :
    readHex? ((hexQuad n).map spell) = some n := by
  have digit (k : Nat) : hexValue? (spell (hexDigit (k % 16))) = some (k % 16) :=
    same _ (Nat.mod_lt k (by omega))
  simp [readHex?, hexQuad, digit]
  omega

/-- The two digits of a byte are read as the byte. -/
theorem readHex?_hexByte (b : UInt8) : readHex? (hexByte b) = some b.toNat := by
  have high := hexValue?_hexDigit (b.toNat / 16) (Nat.div_lt_of_lt_mul b.toNat_lt)
  have low := hexValue?_hexDigit (b.toNat % 16) (Nat.mod_lt _ (by decide))
  simp [readHex?, hexByte, high, low]
  omega

theorem hexByte_injective {b b' : UInt8} (same : hexByte b = hexByte b') : b = b' := by
  have read := readHex?_hexByte b
  rw [same, readHex?_hexByte, Option.some.injEq] at read
  exact (UInt8.toNat_inj.mp read).symm

theorem hexValue?_lt {c : Char} {v : Nat} (h : hexValue? c = some v) : v < 16 := by
  unfold hexValue? at h
  split at h
  · rename_i digit
    simp only [Bool.and_eq_true, decide_eq_true_eq, Char.le_def] at digit
    have high : c.toNat ≤ 57 := digit.2
    have same : c.toNat - 48 = v := Option.some.inj h
    omega
  · split at h
    · rename_i letter
      simp only [Bool.and_eq_true, decide_eq_true_eq, Char.le_def] at letter
      have high : c.toNat ≤ 102 := letter.2
      have same : c.toNat - 87 = v := Option.some.inj h
      omega
    · split at h
      · rename_i letter
        simp only [Bool.and_eq_true, decide_eq_true_eq, Char.le_def] at letter
        have high : c.toNat ≤ 70 := letter.2
        have same : c.toNat - 55 = v := Option.some.inj h
        omega
      · cases h

/-- Digits to base sixteen put after a number. -/
private theorem foldlM_hexValue? {cs : List Char} (digits : ∀ c ∈ cs, (hexValue? c).isSome = true)
    (m : Nat) : ∃ n, cs.foldlM (fun n c => (hexValue? c).map (16 * n + ·)) m = some n ∧
      n < (m + 1) * Nat.pow 16 cs.length := by
  induction cs generalizing m with
  | nil => exact ⟨m, rfl, by simp⟩
  | cons c rest ih =>
    obtain ⟨first, others⟩ := List.forall_mem_cons.mp digits
    obtain ⟨v, hv⟩ := Option.isSome_iff_exists.mp first
    obtain ⟨n, read, bound⟩ := ih others (16 * m + v)
    refine ⟨n, by simp [hv, read], ?_⟩
    have small := hexValue?_lt hv
    calc n < (16 * m + v + 1) * Nat.pow 16 rest.length := bound
      _ ≤ ((m + 1) * 16) * Nat.pow 16 rest.length := Nat.mul_le_mul_right _ (by omega)
      _ = (m + 1) * Nat.pow 16 (c :: rest).length := by
        rw [Nat.mul_assoc, Nat.mul_comm 16]
        rfl

/-- A run of digits to base sixteen is read as a number of no more digits. -/
theorem exists_readHex? {cs : List Char} (filled : cs ≠ [])
    (digits : ∀ c ∈ cs, (hexValue? c).isSome = true) :
    ∃ n, readHex? cs = some n ∧ n < Nat.pow 16 cs.length := by
  obtain ⟨n, read, bound⟩ := foldlM_hexValue? digits 0
  refine ⟨n, ?_, by simpa using bound⟩
  rw [readHex?, if_neg (by simpa using filled), read]

/-- Nothing but digits to base sixteen is read. -/
theorem readHex?_eq_none {cs : List Char} (h : cs = [] ∨ ∃ c ∈ cs, hexValue? c = none) :
    readHex? cs = none := by
  rcases h with rfl | ⟨c, mem, none⟩
  · rfl
  · obtain ⟨front, back, rfl⟩ := List.append_of_mem mem
    rw [readHex?, if_neg (by simp), List.foldlM_append]
    cases front.foldlM (fun n c => (hexValue? c).map (16 * n + ·)) 0 with
    | none => rfl
    | some n => simp [none]

theorem readHex?_lt {cs : List Char} {n : Nat} (read : readHex? cs = some n) :
    n < Nat.pow 16 cs.length := by
  have filled : cs ≠ [] := by
    rintro rfl
    cases read
  have digits : ∀ c ∈ cs, (hexValue? c).isSome = true := by
    intro c mem
    cases value : hexValue? c with
    | some v => rfl
    | none =>
      rw [readHex?_eq_none (.inr ⟨c, mem, value⟩)] at read
      cases read
  obtain ⟨m, same, bound⟩ := exists_readHex? filled digits
  rw [read, Option.some.injEq] at same
  exact same ▸ bound

/-- One more digit to base sixteen at the end. -/
theorem readHex?_concat {cs : List Char} {c : Char} {n v : Nat} (read : readHex? cs = some n)
    (digit : hexValue? c = some v) : readHex? (cs ++ [c]) = some (16 * n + v) := by
  unfold readHex? at read ⊢
  split at read
  · cases read
  · simp [List.foldlM_append, read, digit]

/-- The digits to base sixteen of a number are read as the number. -/
theorem readHex?_toDigits (n : Nat) : readHex? (Nat.toDigits 16 n) = some n := by
  induction n using Nat.strongRecOn with
  | ind n ih =>
    rw [Nat.toDigits_eq_if (by decide)]
    by_cases small : n < 16
    · have digit : hexValue? n.digitChar = some n := hexValue?_hexDigit n small
      rw [if_pos small]
      simp [readHex?, digit]
    · have digit : hexValue? (n % 16).digitChar = some (n % 16) :=
        hexValue?_hexDigit (n % 16) (Nat.mod_lt n (by decide))
      rw [if_neg small, readHex?_concat (ih (n / 16) (by omega)) digit]
      congr 1
      omega

theorem exists_digit_of_mem_toDigits {n : Nat} {c : Char} (h : c ∈ Nat.toDigits 16 n) :
    ∃ d < 16, c = hexDigit d := by
  induction n using Nat.strongRecOn with
  | ind n ih =>
    rw [Nat.toDigits_eq_if (by decide)] at h
    by_cases small : n < 16
    · rw [if_pos small, List.mem_singleton] at h
      exact ⟨n, small, h⟩
    · rw [if_neg small] at h
      rcases List.mem_append.mp h with front | last
      · exact ih (n / 16) (by omega) front
      · exact ⟨n % 16, Nat.mod_lt n (by decide), List.mem_singleton.mp last⟩

/-- The numeral of a number other than zero does not begin with a zero. -/
theorem head?_decimalDigits {n : Nat} (positive : 0 < n) :
    (decimalDigits n).head? ≠ some '0' := by
  induction n using Nat.strongRecOn with
  | ind n ih =>
    rw [decimalDigits, Nat.toDigits_eq_if (by decide)]
    by_cases small : n < 10
    · have digit : ∀ d < 10, 0 < d → some (Nat.digitChar d) ≠ some '0' := by decide
      rw [if_pos small]
      exact digit n small positive
    · have front := ih (n / 10) (by omega) (by omega)
      rw [decimalDigits] at front
      rw [if_neg small, List.head?_append, Option.or_of_isSome (by simp [Nat.toDigits_ne_nil])]
      exact front

theorem digitsValue_decimalDigits (n : Nat) : digitsValue (decimalDigits n) = n := by
  simp [digitsValue, decimalDigits]

theorem isDigit_of_mem_decimalDigits {n : Nat} {c : Char} (h : c ∈ decimalDigits n) :
    isDigit c = true := by
  have digit : c.isDigit = true := Nat.isDigit_of_mem_toDigits (by decide) (by decide) h
  simpa [isDigit, Char.isDigit, Char.le_def] using digit

/-- Reading the numeral of a number gives the number back. -/
@[simp] theorem readDecimal?_decimalDigits (n : Nat) : readDecimal? (decimalDigits n) = some n := by
  have filled : decimalDigits n ≠ [] := Nat.toDigits_ne_nil
  have digits : (decimalDigits n).all isDigit = true :=
    List.all_eq_true.mpr fun _ h => isDigit_of_mem_decimalDigits h
  simp [readDecimal?, filled, digits, digitsValue_decimalDigits]

theorem decimal_inj {m n : Nat} : decimal m = decimal n ↔ m = n := by
  constructor
  · intro same
    have digits : decimalDigits m = decimalDigits n := String.ofList_inj.mp same
    rw [← digitsValue_decimalDigits m, digits, digitsValue_decimalDigits]
  · exact congrArg decimal

end LakeCatalog.Text
