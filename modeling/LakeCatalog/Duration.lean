import LakeCatalog.Text.Numeral

/-!
# Durations

Spans of time in whole nanoseconds. The text of a duration is written in the largest of the units
s, ms, µs and ns that it reaches, with as many decimal places as the value needs and no more.
-/

namespace LakeCatalog

@[ext]
structure Duration where
  nanoseconds : Nat
  deriving DecidableEq, Inhabited

namespace Duration

instance : LE Duration := ⟨fun a b => a.nanoseconds ≤ b.nanoseconds⟩

instance : LT Duration := ⟨fun a b => a.nanoseconds < b.nanoseconds⟩

instance (a b : Duration) : Decidable (a ≤ b) :=
  inferInstanceAs (Decidable (a.nanoseconds ≤ b.nanoseconds))

instance (a b : Duration) : Decidable (a < b) :=
  inferInstanceAs (Decidable (a.nanoseconds < b.nanoseconds))

instance : Add Duration := ⟨fun a b => ⟨a.nanoseconds + b.nanoseconds⟩⟩

instance : Sub Duration := ⟨fun a b => ⟨a.nanoseconds - b.nanoseconds⟩⟩

instance : Max Duration := ⟨fun a b => ⟨max a.nanoseconds b.nanoseconds⟩⟩

instance : Min Duration := ⟨fun a b => ⟨min a.nanoseconds b.nanoseconds⟩⟩

def zero : Duration := ⟨0⟩

theorem le_iff {a b : Duration} : a ≤ b ↔ a.nanoseconds ≤ b.nanoseconds := Iff.rfl

theorem lt_iff {a b : Duration} : a < b ↔ a.nanoseconds < b.nanoseconds := Iff.rfl

@[simp] theorem nanoseconds_add (a b : Duration) :
    (a + b).nanoseconds = a.nanoseconds + b.nanoseconds := rfl

def ofSeconds (n : Nat) : Duration := ⟨n * 1000000000⟩

def ofMilliseconds (n : Nat) : Duration := ⟨n * 1000000⟩

def milliseconds (d : Duration) : Nat := d.nanoseconds / 1000000

/-- The decimal places of `n / 10 ^ width` after the point, without trailing zeros; empty for an
integer. -/
def places (width n : Nat) : List Char :=
  let digits := Text.decimalDigits n
  let padded := List.replicate (width - digits.length) '0' ++ digits
  (padded.reverse.dropWhile (· == '0')).reverse

/-- The text of `n / 10 ^ width`. -/
def amount (width n : Nat) : List Char :=
  let whole := Text.decimalDigits (n / Nat.pow 10 width)
  match places width (n % Nat.pow 10 width) with
  | [] => whole
  | digits => whole ++ '.' :: digits

/-- The text of a span in the largest unit that it reaches. -/
def text (d : Duration) : String :=
  let n := d.nanoseconds
  String.ofList <|
    if 1000000000 ≤ n then amount 9 n ++ ['s']
    else if 1000000 ≤ n then amount 6 n ++ ['m', 's']
    else if 1000 ≤ n then amount 3 n ++ ['µ', 's']
    else amount 0 n ++ ['n', 's']

end Duration

end LakeCatalog
