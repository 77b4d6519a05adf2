import LakeCatalog.Url.Host
import Mathlib.Tactic.Common

/-!
# IP addresses read back

An IPv4 address is written as four decimal bytes, which are read in only one way. An IPv6 address is
written with its first longest run of zeros left out; the two colons in its place are the only ones
that stand together, so the groups before and after them are found, and the zeros make up what is
missing of eight groups.
-/

namespace LakeCatalog.Url

open Text

def ipv4Bytes (address : Nat) : List Nat := [3, 2, 1, 0].map fun i => address / Nat.pow 256 i % 256

lemma ipv4Text_eq (address : Nat) :
    ipv4Text address = joined ['.'] ((ipv4Bytes address).map decimalDigits) := rfl

lemma lt_of_mem_ipv4Bytes {address b : Nat} (h : b ∈ ipv4Bytes address) : b < 256 := by
  obtain ⟨i, -, rfl⟩ := List.mem_map.mp h
  exact Nat.mod_lt _ (by decide)

/-- A byte is read from its decimal numeral, which has no zero in front that would change its
base. -/
lemma ipv4Part?_decimalDigits : ∀ b < 256, ipv4Part? (decimalDigits b) = some b := by
  decide +kernel

lemma ipv4Text_isDigit {address : Nat} {c : Char} (h : c ∈ ipv4Text address) :
    isDigit c = true ∨ c = '.' := by
  have digits {b : Nat} (hc : c ∈ decimalDigits b) : isDigit c = true :=
    isDigit_of_mem_decimalDigits hc
  simp only [ipv4Text_eq, ipv4Bytes, List.map_cons, List.map_nil, joined, List.mem_append,
    List.mem_singleton] at h
  rcases h with ((first | point) | ((second | point) | ((third | point) | fourth)))
  · exact .inl (digits first)
  · exact .inr point
  · exact .inl (digits second)
  · exact .inr point
  · exact .inl (digits third)
  · exact .inr point
  · exact .inl (digits fourth)

lemma dottedParts_ipv4Text (address : Nat) :
    dottedParts (ipv4Text address) = (ipv4Bytes address).map decimalDigits := by
  have pointless : ∀ part ∈ (ipv4Bytes address).map decimalDigits, ∀ c ∈ part,
      (c == '.') = false := by
    intro part hpart c hc
    obtain ⟨b, -, rfl⟩ := List.mem_map.mp hpart
    have digit := isDigit_of_mem_decimalDigits hc
    rw [beq_eq_false_iff_ne]
    rintro rfl
    revert digit
    decide
  have found : pieces (· == '.') (joined ['.'] ((ipv4Bytes address).map decimalDigits)) =
      (ipv4Bytes address).map decimalDigits :=
    @pieces_joined (· == '.') '.' rfl _ (List.cons_ne_nil _ _) pointless
  have filled : ((ipv4Bytes address).map decimalDigits).getLast? ≠ some [] := by
    intro last
    obtain ⟨b, -, empty⟩ := List.mem_map.mp (List.mem_of_getLast? last)
    exact Nat.toDigits_ne_nil empty
  rw [dottedParts, ipv4Text_eq, found, if_neg fun both => filled both.2]

lemma endsInNumber_ipv4Text (address : Nat) : endsInNumber (ipv4Text address) = true := by
  rw [endsInNumber, dottedParts_ipv4Text]
  have digits : (decimalDigits (address % 256)).all isDigit = true :=
    List.all_eq_true.mpr fun _ h => isDigit_of_mem_decimalDigits h
  have filled : decimalDigits (address % 256) ≠ [] := Nat.toDigits_ne_nil
  simp [ipv4Bytes, digits, filled]

lemma pow_256 : Nat.pow 256 4 = 4294967296 ∧ Nat.pow 256 3 = 16777216 ∧ Nat.pow 256 2 = 65536 ∧
    Nat.pow 256 1 = 256 ∧ Nat.pow 256 0 = 1 := by decide

/-- An address is read from its text. -/
lemma ipv4?_ipv4Text {address : Nat} (small : address < Nat.pow 256 4) :
    ipv4? (ipv4Text address) = some address := by
  have read : (dottedParts (ipv4Text address)).mapM ipv4Part? = some (ipv4Bytes address) := by
    rw [dottedParts_ipv4Text]
    exact mapM_map_eq_some fun b hb => ipv4Part?_decimalDigits b (lt_of_mem_ipv4Bytes hb)
  obtain ⟨whole, third, second, first, zeroth⟩ := pow_256
  rw [whole] at small
  have bytes : ipv4Bytes address = [address / 16777216 % 256, address / 65536 % 256,
      address / 256 % 256, address % 256] := by
    simp only [ipv4Bytes, List.map_cons, List.map_nil, third, second, first, zeroth, Nat.div_one]
  have bounds (n : Nat) : ¬ 255 < n % 256 := by
    have bound := Nat.mod_lt n (show 0 < 256 by decide)
    omega
  rw [ipv4?, read, bytes]
  simp only [Option.bind_eq_bind, Option.bind_some, List.getLast?_cons_cons,
    List.getLast?_singleton, List.dropLast_cons_cons, List.dropLast_singleton, List.length_cons,
    List.length_nil,
    List.any_cons, List.any_nil, bounds, decide_false, Bool.or_false, List.zipIdx_cons,
    List.zipIdx_nil, List.foldl_cons, List.foldl_nil, Nat.reduceAdd, Nat.reduceSub, third, second,
    first]
  have least : ¬ 256 ≤ address % 256 := Nat.not_le.mpr (Nat.mod_lt _ (by decide))
  rw [if_neg (by simp [least]), Option.some.injEq]
  omega

/-- Bytes put in from a place on take what is between the powers at their ends. -/
lemma foldl_bytes_le {bytes : List Nat} (small : ∀ b ∈ bytes, b ≤ 255) {place : Nat}
    (few : place + bytes.length ≤ 4) (sum : Nat) :
    (bytes.zipIdx place).foldl (fun sum (n, i) => sum + n * Nat.pow 256 (3 - i)) sum +
      Nat.pow 256 (4 - (place + bytes.length)) ≤ sum + Nat.pow 256 (4 - place) := by
  induction bytes generalizing place sum with
  | nil => exact Nat.le_refl _
  | cons b bytes ih =>
    obtain ⟨first, others⟩ := List.forall_mem_cons.mp small
    rw [List.length_cons] at few ⊢
    have rest := ih others (show place + 1 + bytes.length ≤ 4 by omega)
      (sum + b * Nat.pow 256 (3 - place))
    rw [show 4 - (place + 1) = 3 - place by omega,
      show place + 1 + bytes.length = place + (bytes.length + 1) by omega] at rest
    rw [List.zipIdx_cons, List.foldl_cons]
    calc _ ≤ sum + b * Nat.pow 256 (3 - place) + Nat.pow 256 (3 - place) := rest
      _ ≤ sum + 255 * Nat.pow 256 (3 - place) + Nat.pow 256 (3 - place) :=
        Nat.add_le_add_right (Nat.add_le_add_left (Nat.mul_le_mul_right _ first) sum) _
      _ = sum + Nat.pow 256 (3 - place) * 256 := by omega
      _ = sum + Nat.pow 256 (4 - place) := by
        rw [show 4 - place = (3 - place) + 1 by omega]
        rfl

/-- What is read as an address fits into four bytes. -/
lemma lt_of_ipv4? {name : List Char} {address : Nat} (read : ipv4? name = some address) :
    address < Nat.pow 256 4 := by
  unfold ipv4? at read
  obtain ⟨numbers, -, read⟩ := Option.bind_eq_some_iff.mp read
  obtain ⟨last, -, read⟩ := Option.bind_eq_some_iff.mp read
  obtain ⟨sound, same⟩ := Option.ite_none_left_eq_some.mp read
  rw [not_or, not_or, Nat.not_lt, Nat.not_le, Bool.not_eq_true, List.any_eq_false] at sound
  obtain ⟨few, small, rest⟩ := sound
  have bytes : ∀ b ∈ numbers.dropLast, b ≤ 255 := by
    intro b hb
    simpa using small b hb
  have bound := foldl_bytes_le bytes (show 0 + numbers.dropLast.length ≤ 4 by omega) last
  rw [Option.some.inj same, Nat.zero_add, Nat.sub_zero] at bound
  omega

def IsGroups (groups : List Nat) : Prop := groups.length = 8 ∧ ∀ g ∈ groups, g < 65536

lemma ipv6Group?_toDigits {g : Nat} (small : g < 65536) :
    ipv6Group? (Nat.toDigits 16 g) = some g := by
  have few : (Nat.toDigits 16 g).length ≤ 4 :=
    (Nat.length_toDigits_le_iff (by decide) (by decide)).mpr small
  rw [ipv6Group?, if_pos few, readHex?_toDigits]

lemma lt_of_ipv6Group? {cs : List Char} {g : Nat} (read : ipv6Group? cs = some g) : g < 65536 := by
  unfold ipv6Group? at read
  split at read
  · rename_i few
    exact Nat.lt_of_lt_of_le (readHex?_lt read) (Nat.pow_le_pow_right (by decide) few)
  · cases read

/-- A digit of a group. -/
lemma ne_of_mem_group {g : Nat} {c : Char} (h : c ∈ Nat.toDigits 16 g) : c ≠ ':' ∧ c ≠ '.' := by
  have digit : ∀ d < 16, hexDigit d ≠ ':' ∧ hexDigit d ≠ '.' := by decide
  obtain ⟨d, hd, rfl⟩ := exists_digit_of_mem_toDigits h
  exact digit d hd

lemma mem_groupsText {groups : List Nat} {c : Char} (mem : c ∈ groupsText groups) :
    c = ':' ∨ ∃ d < 16, c = hexDigit d := by
  rcases mem_joined mem with colon | ⟨part, hpart, hc⟩
  · exact .inl (List.mem_singleton.mp colon)
  · obtain ⟨g, -, rfl⟩ := List.mem_map.mp hpart
    exact .inr (exists_digit_of_mem_toDigits hc)

lemma mem_ipv6Text {groups : List Nat} {c : Char} (mem : c ∈ ipv6Text groups) :
    c = ':' ∨ ∃ d < 16, c = hexDigit d := by
  unfold ipv6Text at mem
  dsimp only at mem
  split at mem
  · exact mem_groupsText mem
  · rcases List.mem_append.mp mem with front | back
    · exact mem_groupsText front
    · rcases List.mem_cons.mp back with colon | back
      · exact .inl colon
      · rcases List.mem_cons.mp back with colon | back
        · exact .inl colon
        · exact mem_groupsText back

lemma cutAtDoubleColon_append {piece : List Char} (colonless : ∀ c ∈ piece, c ≠ ':')
    (rest : List Char) : cutAtDoubleColon (piece ++ rest) =
      (cutAtDoubleColon rest).map fun cut => (piece ++ cut.1, cut.2) := by
  induction piece with
  | nil => simp
  | cons c piece ih =>
    obtain ⟨first, others⟩ := List.forall_mem_cons.mp colonless
    rw [List.cons_append, cutAtDoubleColon, ih others]
    · cases cutAtDoubleColon rest <;> rfl
    · rintro rest' rfl -
      exact first rfl

lemma cutAtDoubleColon_colon {rest : List Char} (single : rest.head? ≠ some ':') :
    cutAtDoubleColon (':' :: rest) =
      (cutAtDoubleColon rest).map fun cut => (':' :: cut.1, cut.2) := by
  rw [cutAtDoubleColon]
  rintro rest' - rfl
  exact single rfl

/-- Two colons are not found among groups, but behind them. -/
lemma cutAtDoubleColon_groupsText (groups : List Nat) (rest : List Char) :
    cutAtDoubleColon (groupsText groups ++ rest) =
      (cutAtDoubleColon rest).map fun cut => (groupsText groups ++ cut.1, cut.2) := by
  induction groups with
  | nil => simp [groupsText, joined]
  | cons g more ih =>
    have digits : ∀ c ∈ Nat.toDigits 16 g, c ≠ ':' := fun c hc => (ne_of_mem_group hc).1
    cases more with
    | nil => exact cutAtDoubleColon_append digits rest
    | cons next more =>
      have text : groupsText (g :: next :: more) =
          Nat.toDigits 16 g ++ ':' :: groupsText (next :: more) := by
        simp [groupsText, joined_cons_cons]
      -- The group behind a colon begins with a digit, so this colon stands alone.
      have single : (groupsText (next :: more) ++ rest).head? ≠ some ':' := by
        have filled : Nat.toDigits 16 next ≠ [] := Nat.toDigits_ne_nil
        obtain ⟨c, digits, split⟩ := List.exists_cons_of_ne_nil filled
        have first : c ≠ ':' := (ne_of_mem_group (split ▸ List.mem_cons_self)).1
        cases more with
        | nil => simp [groupsText, joined, split, first]
        | cons _ _ => simp [groupsText, joined, split, first]
      rw [text, List.append_assoc, List.cons_append, cutAtDoubleColon_append digits,
        cutAtDoubleColon_colon single, ih]
      cases cutAtDoubleColon rest <;> simp

lemma ipv6Groups?_groupsText {groups : List Nat} (small : ∀ g ∈ groups, g < 65536)
    (embedded : Bool) : ipv6Groups? embedded (groupsText groups) = some groups := by
  cases groups with
  | nil => rfl
  | cons g more =>
    let parts := (g :: more).map (Nat.toDigits 16)
    have colonless : ∀ part ∈ parts, ∀ c ∈ part, (c == ':') = false := by
      intro part hpart c hc
      obtain ⟨g, -, rfl⟩ := List.mem_map.mp hpart
      exact beq_eq_false_iff_ne.mpr (ne_of_mem_group hc).1
    have found : pieces (· == ':') (groupsText (g :: more)) = parts :=
      @pieces_joined (· == ':') ':' rfl _ (List.cons_ne_nil _ _) colonless
    have read : parts.mapM ipv6Group? = some (g :: more) :=
      mapM_map_eq_some fun g hg => ipv6Group?_toDigits (small g hg)
    have filled : (groupsText (g :: more)).isEmpty = false := by
      rw [Bool.eq_false_iff]
      intro empty
      rw [List.isEmpty_iff.mp empty] at found
      have first := (List.cons.inj found).1
      exact Nat.toDigits_ne_nil first.symm
    rw [ipv6Groups?, filled]
    simp only [found, Bool.false_eq_true, if_false]
    cases last : parts.getLast? with
    | none => exact absurd (List.getLast?_eq_none_iff.mp last) (List.cons_ne_nil _ _)
    | some part =>
      have pointless : part.contains '.' = false := by
        rw [Bool.eq_false_iff, ne_eq, List.contains_iff_mem]
        intro point
        obtain ⟨g, -, rfl⟩ := List.mem_map.mp (List.mem_of_getLast? last)
        exact (ne_of_mem_group point).2 rfl
      simp only [pointless, Bool.and_false, Bool.false_eq_true, if_false, read]

lemma lt_of_plainByte? {cs : List Char} {b : Nat} (read : plainByte? cs = some b) : b < 256 := by
  unfold plainByte? at read
  obtain ⟨n, -, read⟩ := Option.bind_eq_some_iff.mp read
  split at read
  · cases read
  · rename_i small
    cases read
    omega

lemma lt_of_mapM {f : List Char → Option Nat} {bound : Nat}
    (bounded : ∀ cs n, f cs = some n → n < bound) {parts : List (List Char)} {ns : List Nat}
    (read : parts.mapM f = some ns) : ∀ n ∈ ns, n < bound := by
  induction parts generalizing ns with
  | nil =>
    cases read
    exact List.forall_mem_nil _
  | cons part parts ih =>
    rw [List.mapM_cons] at read
    obtain ⟨n, first, read⟩ := Option.bind_eq_some_iff.mp read
    obtain ⟨others, rest, read⟩ := Option.bind_eq_some_iff.mp read
    cases read
    exact List.forall_mem_cons.mpr ⟨bounded part n first, ih rest⟩

lemma lt_of_embeddedGroups? {cs : List Char} {groups : List Nat}
    (read : embeddedGroups? cs = some groups) : ∀ g ∈ groups, g < 65536 := by
  unfold embeddedGroups? at read
  obtain ⟨bytes, hbytes, read⟩ := Option.bind_eq_some_iff.mp read
  have small := lt_of_mapM (fun _ _ => lt_of_plainByte?) hbytes
  split at read
  · rename_i a b c d
    cases read
    simp only [List.mem_cons, forall_eq_or_imp, List.not_mem_nil, false_implies, implies_true,
      and_true] at small ⊢
    omega
  · cases read

lemma lt_of_ipv6Groups? {embedded : Bool} {cs : List Char} {groups : List Nat}
    (read : ipv6Groups? embedded cs = some groups) : ∀ g ∈ groups, g < 65536 := by
  unfold ipv6Groups? at read
  split at read
  · cases read
    exact List.forall_mem_nil _
  · dsimp only at read
    split at read
    · cases read
      exact List.forall_mem_nil _
    · split at read
      · obtain ⟨front, hfront, read⟩ := Option.bind_eq_some_iff.mp read
        obtain ⟨back, hback, read⟩ := Option.bind_eq_some_iff.mp read
        cases read
        intro g hg
        rcases List.mem_append.mp hg with hg | hg
        · exact lt_of_mapM (fun _ _ => lt_of_ipv6Group?) hfront g hg
        · exact lt_of_embeddedGroups? hback g hg
      · exact lt_of_mapM (fun _ _ => lt_of_ipv6Group?) read

/-- What is read as an address has eight groups. -/
lemma isGroups_of_ipv6? {cs : List Char} {groups : List Nat} (read : ipv6? cs = some groups) :
    IsGroups groups := by
  unfold ipv6? at read
  split at read
  · obtain ⟨found, hfound, read⟩ := Option.bind_eq_some_iff.mp read
    obtain ⟨eight, same⟩ := Option.ite_none_right_eq_some.mp read
    cases same
    exact ⟨eight, lt_of_ipv6Groups? hfound⟩
  · obtain ⟨front, hfront, read⟩ := Option.bind_eq_some_iff.mp read
    obtain ⟨back, hback, read⟩ := Option.bind_eq_some_iff.mp read
    dsimp only at read
    obtain ⟨few, same⟩ := Option.ite_none_right_eq_some.mp read
    cases same
    constructor
    · simp only [List.length_append, List.length_replicate]
      omega
    · intro g hg
      simp only [List.mem_append, List.mem_replicate] at hg
      rcases hg with (hg | ⟨-, rfl⟩) | hg
      · exact lt_of_ipv6Groups? hfront g hg
      · decide
      · exact lt_of_ipv6Groups? hback g hg

lemma replicate_append_drop {groups : List Nat} {n : Nat} (zeros : n ≤ leadingZeros groups) :
    List.replicate n 0 ++ groups.drop n = groups := by
  induction n generalizing groups with
  | zero => rfl
  | succ n ih =>
    cases groups with
    | nil => simp [leadingZeros] at zeros
    | cons g groups =>
      by_cases zero : g = 0
      · subst zero
        have fewer : n ≤ leadingZeros groups := by
          simpa [leadingZeros] using zeros
        rw [List.replicate_succ, List.cons_append, List.drop_succ_cons, ih fewer]
      · simp [leadingZeros, zero] at zeros

lemma leadingZeros_le_length (groups : List Nat) : leadingZeros groups ≤ groups.length :=
  (List.takeWhile_sublist _).length_le

/-- The run that is found is a run of zeros. -/
lemma longestZeros_spec (groups : List Nat) :
    (longestZeros groups).2 ≤ leadingZeros (groups.drop (longestZeros groups).1) := by
  have step (is : List Nat) (best : Nat × Nat) (run : best.2 ≤ leadingZeros (groups.drop best.1)) :
      let found := is.foldl (fun best i =>
        let n := leadingZeros (groups.drop i)
        if best.2 < n then (i, n) else best) best
      found.2 ≤ leadingZeros (groups.drop found.1) := by
    induction is generalizing best with
    | nil => exact run
    | cons i is ih =>
      rw [List.foldl_cons]
      apply ih
      dsimp only
      split
      · exact Nat.le_refl _
      · exact run
  exact step _ (0, 0) (Nat.zero_le _)

/-- An address is read from its text. -/
lemma ipv6?_ipv6Text {groups : List Nat} (sound : IsGroups groups) :
    ipv6? (ipv6Text groups) = some groups := by
  obtain ⟨eight, small⟩ := sound
  have zeros := longestZeros_spec groups
  unfold ipv6Text
  generalize longestZeros groups = run at zeros ⊢
  cases run with
  | mk start count =>
    dsimp only at zeros ⊢
    by_cases short : count < 2
    · have nowhere : cutAtDoubleColon (groupsText groups) = none := by
        have cut := cutAtDoubleColon_groupsText groups []
        rwa [List.append_nil] at cut
      rw [if_pos short, ipv6?, nowhere]
      simp only [ipv6Groups?_groupsText small]
      exact if_pos eight
    · have cut : cutAtDoubleColon (groupsText (groups.take start) ++
          ':' :: ':' :: groupsText (groups.drop (start + count))) =
            some (groupsText (groups.take start), groupsText (groups.drop (start + count))) := by
        rw [cutAtDoubleColon_groupsText, cutAtDoubleColon]
        simp
      have front := ipv6Groups?_groupsText
        (fun g hg => small g (List.mem_of_mem_take hg) : ∀ g ∈ groups.take start, g < 65536) false
      have back := ipv6Groups?_groupsText
        (fun g hg => small g (List.mem_of_mem_drop hg) :
          ∀ g ∈ groups.drop (start + count), g < 65536) true
      have fits := Nat.le_trans zeros (leadingZeros_le_length _)
      rw [List.length_drop, eight] at fits
      have run := replicate_append_drop zeros
      rw [List.drop_drop] at run
      -- As many zeros are missing of eight groups as were left out.
      have missing : 8 - ((groups.take start).length + (groups.drop (start + count)).length) =
          count := by
        rw [List.length_take, List.length_drop, eight]
        omega
      rw [if_neg short, ipv6?, cut]
      simp only [front, back, Option.bind_eq_bind, Option.bind_some]
      rw [missing, if_pos (by omega), List.append_assoc, run, List.take_append_drop]

end LakeCatalog.Url
