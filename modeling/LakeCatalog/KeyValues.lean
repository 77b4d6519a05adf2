import LakeCatalog.Dictionary
import LakeCatalog.Fault
import LakeCatalog.Text.Blank
import LakeCatalog.Text.Pieces

/-!
# Lists of settings in one text

A map of strings written as entries `key=value` between commas or line feeds. Blanks around keys,
values and entries do not count, and neither do blank entries. An entry without an equals sign
stands for a key with the empty value, and one with several is a fault.

What one piece of a text of settings says, which piece counts for a key, and in how many ways the
same entries can be written: with blanks around keys, values and entries, with either separator, and
with blank pieces anywhere.
-/

namespace LakeCatalog.KeyValues

open Text

def endsEntry (c : Char) : Bool := c == '\n' || c == ','

/-- The key and the value of one piece between separators; none for a blank piece. -/
def entry (piece : List Char) : Except Fault (Option (String × String)) :=
  match trim piece with
  | [] => .ok none
  | cs =>
    match pieces (· == '=') cs with
    | [key] => .ok (some (String.ofList (trim key), ""))
    | [key, value] => .ok (some (String.ofList (trim key), String.ofList (trim value)))
    | _ => .error (.build (.repeatedEquals (String.ofList cs)))

def entries (raw : String) : Except Fault (List (String × String)) := do
  let found ← (pieces endsEntry raw.toList).mapM entry
  return found.filterMap id

/-- The map that a text stands for; of entries with one key the last counts. -/
def parse (raw : String) : Except Fault (Dictionary String) := do
  return .ofList (← entries raw)

/-- The text before the first equals sign, without the blanks around it. -/
def keyOf (piece : List Char) : String := String.ofList (trim (cutAt (· == '=') piece).1)

/-- The text after the first equals sign, without the blanks around it; empty if there is none. -/
def valueOf (piece : List Char) : String :=
  String.ofList (trim ((cutAt (· == '=') piece).2.getD []))

/-- The value of the last piece that has a key; a blank piece has no key. -/
def value? (raw key : String) : Option String :=
  ((pieces endsEntry raw.toList).reverse.find? fun piece =>
    trim piece ≠ [] && keyOf piece == key).map valueOf

/-- A piece that cannot be read, since it does not say where its value begins. -/
def RepeatsEquals (piece : List Char) : Prop := 1 < piece.count '='

instance (piece : List Char) : Decidable (RepeatsEquals piece) :=
  inferInstanceAs (Decidable (1 < _))

def firstRepeated? (raw : String) : Option (List Char) :=
  (pieces endsEntry raw.toList).find? RepeatsEquals

def repeatedIn (piece : List Char) : BuildFault := .repeatedEquals (String.ofList (trim piece))

/-- Blanks that do not end an entry. -/
def IsGap (cs : List Char) : Prop := ∀ c ∈ cs, isBlank c = true ∧ endsEntry c = false

instance (cs : List Char) : Decidable (IsGap cs) :=
  List.decidableBAll (fun c => isBlank c = true ∧ endsEntry c = false) cs

/-- Neither a separator nor an equals sign is in a text. -/
def Quiet (cs : List Char) : Prop := ∀ c ∈ cs, endsEntry c = false ∧ c ≠ '='

instance (cs : List Char) : Decidable (Quiet cs) :=
  List.decidableBAll (fun c => endsEntry c = false ∧ c ≠ '=') cs

/-- A key or a value that can be written as it is. -/
def IsPlain (text : String) : Prop := trimmed text = text ∧ Quiet text.toList

instance (text : String) : Decidable (IsPlain text) :=
  inferInstanceAs (Decidable (_ ∧ Quiet text.toList))

/-- The ways to write one entry, or none. -/
inductive WritesPiece : List (String × String) → List Char → Prop where
  | blank {gap : List Char} : IsGap gap → WritesPiece [] gap
  | assigned (key value : String) {g₁ g₂ g₃ g₄ : List Char} :
    IsGap g₁ → IsGap g₂ → IsGap g₃ → IsGap g₄ →
    WritesPiece [(key, value)] (g₁ ++ key.toList ++ g₂ ++ '=' :: (g₃ ++ value.toList ++ g₄))
  /-- The empty value need not be written, if there is a key. -/
  | bare (key : String) {g₁ g₂ : List Char} : key ≠ "" → IsGap g₁ → IsGap g₂ →
    WritesPiece [(key, "")] (g₁ ++ key.toList ++ g₂)

inductive Writes : List (String × String) → List Char → Prop where
  | last {es : List (String × String)} {piece : List Char} :
    WritesPiece es piece → Writes es piece
  | more {es fs : List (String × String)} {piece rest : List Char} {c : Char} :
    WritesPiece es piece → endsEntry c = true → Writes fs rest →
    Writes (es ++ fs) (piece ++ c :: rest)

end LakeCatalog.KeyValues
