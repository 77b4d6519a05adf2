import LakeCatalog.Fault
import LakeCatalog.Proofs.Json.RoundTrip
import LakeCatalog.Proofs.Service.PassOver

/-!
# Reading the body of a properties request

The reader accepts a body exactly if the body states a request, and then reads that request. What
has been found of a request is completed by the members to come, so the members as a whole decide
whether a name and properties are found once. Every request can be stated.
-/

namespace LakeCatalog.Service

open Json

lemma wellFormed_eq_ok_iff {α : Type} {x : Option α} {a : α} :
    wellFormed x = .ok a ↔ x = some a := by
  cases x <;> simp [wellFormed]

lemma stringValue_eq_ok_iff {cs rest : List Char} {s : String} :
    stringValue cs = .ok (s, rest) ↔ StringText cs s rest := by
  unfold stringValue StringText
  split
  · rename_i inner opened
    rw [wellFormed_eq_ok_iff, opened]
    simp
  · rename_i other
    refine ⟨fun h => (nomatch h), ?_⟩
    rintro ⟨inner, opened, -⟩
    exact absurd opened (other inner)

lemma stringText_skipGap {cs rest : List Char} {s : String} :
    StringText (skipGap cs) s rest ↔ StringText cs s rest := by
  rw [StringText, StringText, skipGap_skipGap]

lemma optionalString_eq_ok_iff {cs rest : List Char} {name : Option String} :
    optionalString cs = .ok (name, rest) ↔ NameText cs name rest := by
  unfold optionalString
  split
  · rename_i inner begins
    constructor
    · intro h
      split at h
      · cases h
        exact .null begins
      · cases h
    · intro h
      cases h with
      | null null =>
        obtain rfl := (List.cons.inj (begins.symm.trans null)).2
        rfl
      | string text =>
        obtain ⟨inner, opened, -⟩ := text
        rw [begins] at opened
        cases opened
  · rename_i other
    constructor
    · intro h
      cases read : stringValue (skipGap cs) with
      | error fault =>
        rw [read] at h
        cases h
      | ok found =>
        rw [read] at h
        cases h
        exact .string (stringText_skipGap.mp (stringValue_eq_ok_iff.mp read))
    · intro h
      cases h with
      | null null => exact absurd null (other _)
      | string text =>
        rw [stringValue_eq_ok_iff.mpr (stringText_skipGap.mpr text)]
        rfl

lemma NameText.length_lt {cs rest : List Char} {name : Option String} (h : NameText cs name rest) :
    rest.length < cs.length := by
  cases h with
  | null null =>
    have short := length_skipGap_le cs
    rw [null] at short
    simp only [List.length_cons] at short
    omega
  | string text => exact text.length_lt

lemma afterColon_eq_ok_iff {cs rest : List Char} :
    afterColon cs = .ok rest ↔ skipGap cs = ':' :: rest := by
  unfold afterColon
  split
  · rename_i inner colon
    rw [colon]
    simp
  · rename_i other
    exact ⟨fun h => (nomatch h), fun colon => absurd colon (other rest)⟩

lemma nextName_of_close (first : Bool) {cs rest : List Char} (closed : skipGap cs = '}' :: rest) :
    nextName first cs = .ok (none, rest) := by
  simp only [nextName, closed]

lemma nextName_of_name {first : Bool} {cs inner rest : List Char} {name : String}
    (separated : Separated first cs inner) (text : StringText inner name rest) :
    nextName first cs = .ok (some name, rest) := by
  obtain ⟨quoted, opened, read⟩ := text
  cases first with
  | true =>
    obtain rfl : inner = cs := separated
    simp only [nextName, opened, if_true, read]
    rfl
  | false =>
    have comma : skipGap cs = ',' :: inner := separated
    simp only [nextName, comma, opened, read]
    rfl

lemma bind_quotedName {cs rest : List Char} {found : Option String}
    (h : (do let (s, rest) ← wellFormed (readQuoted? cs); return (some s, rest) :
      Except BodyFault (Option String × List Char)) = .ok (found, rest)) :
    ∃ name, found = some name ∧ readQuoted? cs = some (name, rest) := by
  obtain ⟨⟨name, after⟩, read, same⟩ := bind_eq_ok_iff.mp h
  cases same
  exact ⟨name, rfl, wellFormed_eq_ok_iff.mp read⟩

/-- The reader of names finds the end of the object or the next name. -/
lemma nextName_cases {first : Bool} {cs rest : List Char} {found : Option String}
    (h : nextName first cs = .ok (found, rest)) :
    found = none ∧ skipGap cs = '}' :: rest ∨
      ∃ name, found = some name ∧
        ∃ inner, Separated first cs inner ∧ StringText inner name rest := by
  unfold nextName at h
  split at h
  · rename_i closed
    cases h
    exact Or.inl ⟨rfl, closed⟩
  · rename_i inner opened
    cases first with
    | false => cases h
    | true =>
      obtain ⟨name, rfl, read⟩ := bind_quotedName h
      exact Or.inr ⟨name, rfl, cs, rfl, inner, opened, read⟩
  · rename_i inner comma
    cases first with
    | true => cases h
    | false =>
      rw [if_neg Bool.false_ne_true] at h
      split at h
      · rename_i quoted opened
        obtain ⟨name, rfl, read⟩ := bind_quotedName h
        exact Or.inr ⟨name, rfl, inner, comma, quoted, opened, read⟩
      · cases h
  · cases h

lemma StringMembers.length_lt {first : Bool} {cs rest : List Char}
    {entries : List (String × String)} (h : StringMembers first cs entries rest) :
    rest.length < cs.length := by
  induction h with
  | close closed => exact length_of_skipGap closed
  | member separated name text more ih =>
    have outer := separated.length_le
    have named := name.length_lt
    have value := text.length_lt
    omega

lemma stringMembers_of_ok {fuel : Nat} {first : Bool} {cs rest : List Char}
    {entries : List (String × String)} (h : stringMembers fuel first cs = .ok (entries, rest)) :
    StringMembers first cs entries rest := by
  induction fuel generalizing first cs entries with
  | zero => cases h
  | succ fuel ih =>
    obtain ⟨⟨found, after⟩, next, h⟩ := bind_eq_ok_iff.mp h
    rcases nextName_cases next with ⟨rfl, closed⟩ | ⟨key, rfl, inner, separated, text⟩
    · cases h
      exact .close closed
    · obtain ⟨colon, hcolon, h⟩ := bind_eq_ok_iff.mp h
      obtain ⟨⟨value, valued⟩, hvalue, h⟩ := bind_eq_ok_iff.mp h
      obtain ⟨⟨more, left⟩, hmore, same⟩ := bind_eq_ok_iff.mp h
      cases same
      exact .member separated ⟨after, text, afterColon_eq_ok_iff.mp hcolon⟩
        (stringValue_eq_ok_iff.mp hvalue) (ih hmore)

lemma StringMembers.read {first : Bool} {cs rest : List Char} {entries : List (String × String)}
    (h : StringMembers first cs entries rest) {fuel : Nat} (enough : cs.length < fuel) :
    stringMembers fuel first cs = .ok (entries, rest) := by
  induction h generalizing fuel with
  | @close first cs rest closed =>
    obtain ⟨fuel, rfl⟩ := Nat.exists_eq_succ_of_ne_zero (Nat.ne_zero_of_lt enough)
    exact bind_eq_ok_iff.mpr ⟨_, nextName_of_close first closed, rfl⟩
  | member separated name text more ih =>
    obtain ⟨fuel, rfl⟩ := Nat.exists_eq_succ_of_ne_zero (Nat.ne_zero_of_lt enough)
    have outer := separated.length_le
    have named := name.length_lt
    have value := text.length_lt
    obtain ⟨after, key, colon⟩ := name
    refine bind_eq_ok_iff.mpr ⟨_, nextName_of_name separated key, ?_⟩
    refine bind_eq_ok_iff.mpr ⟨_, afterColon_eq_ok_iff.mpr colon, ?_⟩
    refine bind_eq_ok_iff.mpr ⟨_, stringValue_eq_ok_iff.mpr text, ?_⟩
    exact bind_eq_ok_iff.mpr ⟨_, ih (by omega), rfl⟩

lemma StringMap.length_lt {cs rest : List Char} {entries : List (String × String)}
    (h : StringMap cs entries rest) : rest.length < cs.length := by
  obtain ⟨inner, opened, members⟩ := h
  have outer := length_of_skipGap opened
  have short := members.length_lt
  omega

lemma stringMap_eq_ok_iff {cs rest : List Char} {d : Dictionary String} :
    stringMap cs = .ok (d, rest) ↔
      ∃ entries, StringMap cs entries rest ∧ d = .ofList entries := by
  unfold stringMap
  split
  · rename_i inner opened
    constructor
    · intro h
      obtain ⟨⟨entries, after⟩, members, same⟩ := bind_eq_ok_iff.mp h
      cases same
      exact ⟨entries, ⟨inner, opened, stringMembers_of_ok members⟩, rfl⟩
    · rintro ⟨entries, ⟨inner', opened', members⟩, rfl⟩
      obtain rfl := (List.cons.inj (opened.symm.trans opened')).2
      exact bind_eq_ok_iff.mpr ⟨_, members.read (Nat.lt_succ_self _), rfl⟩
  · rename_i other
    refine ⟨fun h => (nomatch h), ?_⟩
    rintro ⟨entries, ⟨inner, opened, -⟩, -⟩
    exact absurd opened (other inner)

lemma MemberText.length_lt {cs rest : List Char} {m : Member} (h : MemberText cs m rest) :
    rest.length < cs.length := by
  cases h with
  | name key text =>
    have named := key.length_lt
    have value := text.length_lt
    omega
  | properties key text =>
    have named := key.length_lt
    have value := text.length_lt
    omega
  | other key apart value =>
    have named := key.length_lt
    have passed := value.length_lt
    omega

/-- What is stated by the members that have been found and by those to come. -/
structure Completes (found : Found) (members : List Member) (request : PropertiesRequest) :
    Prop where
  name : ∃ name : Option (Option String),
    found.name.toList ++ members.filterMap Member.name? = name.toList ∧
      request.name = name.getD none
  properties : found.properties.toList ++ (members.filterMap Member.properties?).map .ofList =
    [request.properties]

namespace Completes

variable {found : Found} {members : List Member} {request : PropertiesRequest}

lemma nil_iff : Completes found [] request ↔
    found.properties = some request.properties ∧ request.name = found.name.getD none := by
  constructor
  · rintro ⟨⟨all, names, stated⟩, properties⟩
    have same : found.name = all := by
      cases known : found.name <;> cases all <;> simp_all
    refine ⟨?_, same ▸ stated⟩
    cases known : found.properties <;> simp_all
  · rintro ⟨known, stated⟩
    exact ⟨⟨found.name, List.append_nil _, stated⟩, by simp [known]⟩

/-- A name can be found once. -/
lemma name_iff {name : Option String} : Completes found (.name name :: members) request ↔
    found.name = none ∧ Completes { found with name := some name } members request := by
  constructor
  · rintro ⟨⟨all, names, stated⟩, properties⟩
    have fresh : found.name = none := by
      cases known : found.name with
      | none => rfl
      | some other => cases all <;> simp [known, Member.name?] at names
    refine ⟨fresh, ⟨⟨all, ?_, stated⟩, properties⟩⟩
    simpa [fresh, Member.name?] using names
  · rintro ⟨fresh, ⟨all, names, stated⟩, properties⟩
    refine ⟨⟨all, ?_, stated⟩, properties⟩
    simpa [fresh, Member.name?] using names

/-- Properties can be found once. -/
lemma properties_iff {entries : List (String × String)} :
    Completes found (.properties entries :: members) request ↔
      found.properties = none ∧
        Completes { found with properties := some (.ofList entries) } members request := by
  constructor
  · rintro ⟨names, properties⟩
    have fresh : found.properties = none := by
      cases known : found.properties with
      | none => rfl
      | some other => simp [known, Member.properties?] at properties
    refine ⟨fresh, names, ?_⟩
    simpa [fresh, Member.properties?] using properties
  · rintro ⟨fresh, names, properties⟩
    refine ⟨names, ?_⟩
    simpa [fresh, Member.properties?] using properties

lemma other_iff {key : String} :
    Completes found (.other key :: members) request ↔ Completes found members request :=
  ⟨fun h => ⟨h.name, h.properties⟩, fun h => ⟨h.name, h.properties⟩⟩

end Completes

section

variable {fuel : Nat} {first : Bool} {found : Found} {cs rest : List Char}

lemma requestMembers_name (next : nextName first cs = .ok (some "name", rest))
    (fresh : found.name = none) :
    requestMembers (fuel + 1) first found cs = (do
      let (name, rest) ← optionalString (← afterColon rest)
      requestMembers fuel false { found with name := some name } rest) := by
  rw [requestMembers, next]
  simp only [bind, Except.bind, fresh, Option.isSome_none, Bool.false_eq_true, if_false]

lemma requestMembers_properties (next : nextName first cs = .ok (some "properties", rest))
    (fresh : found.properties = none) :
    requestMembers (fuel + 1) first found cs = (do
      let (properties, rest) ← stringMap (← afterColon rest)
      requestMembers fuel false { found with properties := some properties } rest) := by
  rw [requestMembers, next]
  simp only [bind, Except.bind, fresh, Option.isSome_none, Bool.false_eq_true, if_false]

lemma requestMembers_other {key : String} (next : nextName first cs = .ok (some key, rest))
    (apart : key ≠ "name" ∧ key ≠ "properties") :
    requestMembers (fuel + 1) first found cs = (do
      requestMembers fuel false found (← passOver (← afterColon rest))) := by
  rw [requestMembers, next]
  simp only [bind, Except.bind]
  split
  · rename_i heq
    cases heq
  · rename_i heq
    cases heq
    exact absurd rfl apart.1
  · rename_i heq
    cases heq
    exact absurd rfl apart.2
  · rename_i heq
    cases heq
    rfl

end

lemma requestMembers_of_ok {fuel : Nat} {first : Bool} {found : Found} {cs rest : List Char}
    {request : PropertiesRequest}
    (h : requestMembers fuel first found cs = .ok (request, rest)) :
    ∃ members, MembersText first cs members rest ∧ Completes found members request := by
  induction fuel generalizing first found cs with
  | zero => cases h
  | succ fuel ih =>
    obtain ⟨⟨next, after⟩, hnext, h⟩ := bind_eq_ok_iff.mp h
    rcases nextName_cases hnext with ⟨rfl, closed⟩ | ⟨key, rfl, inner, separated, text⟩
    · dsimp only at h
      split at h
      · rename_i properties known
        cases h
        exact ⟨[], .close closed, Completes.nil_iff.mpr ⟨known, rfl⟩⟩
      · cases h
    · split at h
      · rename_i heq
        cases heq
      · rename_i heq
        cases heq
        dsimp only at h
        split at h
        · cases h
        · rename_i fresh
          obtain ⟨colon, hcolon, h⟩ := bind_eq_ok_iff.mp h
          obtain ⟨⟨name, named⟩, hname, h⟩ := bind_eq_ok_iff.mp h
          obtain ⟨members, more, completes⟩ := ih h
          have key : Named inner "name" colon := ⟨after, text, afterColon_eq_ok_iff.mp hcolon⟩
          have value := optionalString_eq_ok_iff.mp hname
          exact ⟨.name name :: members, .member separated (.name key value) more,
            Completes.name_iff.mpr ⟨by simpa using fresh, completes⟩⟩
      · rename_i heq
        cases heq
        dsimp only at h
        split at h
        · cases h
        · rename_i fresh
          obtain ⟨colon, hcolon, h⟩ := bind_eq_ok_iff.mp h
          obtain ⟨⟨properties, mapped⟩, hmap, h⟩ := bind_eq_ok_iff.mp h
          obtain ⟨members, more, completes⟩ := ih h
          obtain ⟨entries, map, rfl⟩ := stringMap_eq_ok_iff.mp hmap
          have key : Named inner "properties" colon :=
            ⟨after, text, afterColon_eq_ok_iff.mp hcolon⟩
          exact ⟨.properties entries :: members, .member separated (.properties key map) more,
            Completes.properties_iff.mpr ⟨by simpa using fresh, completes⟩⟩
      · rename_i notName notProperties heq
        cases heq
        obtain ⟨colon, hcolon, h⟩ := bind_eq_ok_iff.mp h
        obtain ⟨passed, hpassed, h⟩ := bind_eq_ok_iff.mp h
        obtain ⟨members, more, completes⟩ := ih h
        have name : Named inner key colon := ⟨after, text, afterColon_eq_ok_iff.mp hcolon⟩
        have value := passOver_eq_ok_iff.mp hpassed
        have member := MemberText.other name ⟨notName, notProperties⟩ value
        exact ⟨.other key :: members, .member separated member more,
          Completes.other_iff.mpr completes⟩

lemma MembersText.read {first : Bool} {cs rest : List Char} {members : List Member}
    (h : MembersText first cs members rest) {found : Found} {request : PropertiesRequest}
    (completes : Completes found members request) {fuel : Nat} (enough : cs.length < fuel) :
    requestMembers fuel first found cs = .ok (request, rest) := by
  induction h generalizing fuel found with
  | @close first cs rest closed =>
    obtain ⟨fuel, rfl⟩ := Nat.exists_eq_succ_of_ne_zero (Nat.ne_zero_of_lt enough)
    obtain ⟨known, stated⟩ := Completes.nil_iff.mp completes
    refine bind_eq_ok_iff.mpr ⟨_, nextName_of_close first closed, ?_⟩
    simp only [known, ← stated]
    rfl
  | member separated text more ih =>
    obtain ⟨fuel, rfl⟩ := Nat.exists_eq_succ_of_ne_zero (Nat.ne_zero_of_lt enough)
    have outer := separated.length_le
    have short := text.length_lt
    cases text with
    | name key value =>
      obtain ⟨after, name, colon⟩ := key
      obtain ⟨fresh, completes⟩ := Completes.name_iff.mp completes
      rw [requestMembers_name (nextName_of_name separated name) fresh]
      refine bind_eq_ok_iff.mpr ⟨_, afterColon_eq_ok_iff.mpr colon, ?_⟩
      refine bind_eq_ok_iff.mpr ⟨_, optionalString_eq_ok_iff.mpr value, ?_⟩
      exact ih completes (by omega)
    | properties key map =>
      obtain ⟨after, name, colon⟩ := key
      obtain ⟨fresh, completes⟩ := Completes.properties_iff.mp completes
      rw [requestMembers_properties (nextName_of_name separated name) fresh]
      refine bind_eq_ok_iff.mpr ⟨_, afterColon_eq_ok_iff.mpr colon, ?_⟩
      refine bind_eq_ok_iff.mpr ⟨_, stringMap_eq_ok_iff.mpr ⟨_, map, rfl⟩, ?_⟩
      exact ih completes (by omega)
    | other key apart value =>
      obtain ⟨after, name, colon⟩ := key
      rw [requestMembers_other (nextName_of_name separated name) apart]
      refine bind_eq_ok_iff.mpr ⟨_, afterColon_eq_ok_iff.mpr colon, ?_⟩
      refine bind_eq_ok_iff.mpr ⟨_, passOver_eq_ok_iff.mpr value, ?_⟩
      exact ih (Completes.other_iff.mp completes) (by omega)

lemma nameText_skipGap {cs rest : List Char} {name : Option String} :
    NameText (skipGap cs) name rest ↔ NameText cs name rest := by
  rw [← optionalString_eq_ok_iff, ← optionalString_eq_ok_iff, optionalString, optionalString,
    skipGap_skipGap]

lemma stringMap_skipGap {cs rest : List Char} {entries : List (String × String)} :
    StringMap (skipGap cs) entries rest ↔ StringMap cs entries rest := by
  rw [StringMap, StringMap, skipGap_skipGap]

/-- A first item, if there is any, begins where the gap ends. -/
lemma eq_of_nextItem_first {cs found : List Char} (h : nextItem true cs = .ok found) :
    found = skipGap cs := by
  unfold nextItem at h
  split at h <;> cases h
  · rename_i comma
    exact comma.symm
  · rfl

lemma NameText.nextItem {cs rest : List Char} {name : Option String} (h : NameText cs name rest) :
    nextItem true cs = .ok (skipGap cs) := by
  cases h with
  | null null =>
    simp only [Service.nextItem, null]
    rfl
  | string text =>
    obtain ⟨inner, opened, -⟩ := text
    simp only [Service.nextItem, opened]
    rfl

/-- A second item stands behind a comma. -/
lemma exists_comma_of_nextItem {cs found : List Char} (h : nextItem false cs = .ok found) :
    ∃ next, skipGap cs = ',' :: next ∧ found = skipGap next := by
  unfold nextItem at h
  split at h
  · cases h
  · cases h
  · rename_i next comma
    rw [if_neg Bool.false_ne_true] at h
    split at h <;> cases h
    exact ⟨next, comma, rfl⟩
  · cases h

lemma StringMap.nextItem {cs next rest : List Char} {entries : List (String × String)}
    (comma : skipGap cs = ',' :: next) (h : StringMap next entries rest) :
    nextItem false cs = .ok (skipGap next) := by
  obtain ⟨inner, opened, -⟩ := h
  simp only [Service.nextItem, comma, opened]
  rfl

lemma requestItems_eq_ok_iff {cs rest : List Char} {request : PropertiesRequest} :
    requestItems cs = .ok (request, rest) ↔
      ∃ entries, ItemsText cs request.name entries rest ∧
        request.properties = .ofList entries := by
  constructor
  · intro h
    obtain ⟨first, hfirst, h⟩ := bind_eq_ok_iff.mp h
    obtain ⟨⟨name, afterName⟩, hname, h⟩ := bind_eq_ok_iff.mp h
    obtain ⟨second, hsecond, h⟩ := bind_eq_ok_iff.mp h
    obtain ⟨⟨properties, afterMap⟩, hmap, h⟩ := bind_eq_ok_iff.mp h
    obtain rfl := eq_of_nextItem_first hfirst
    obtain ⟨next, comma, rfl⟩ := exists_comma_of_nextItem hsecond
    obtain ⟨entries, map, rfl⟩ := stringMap_eq_ok_iff.mp hmap
    dsimp only at h
    split at h <;> cases h
    rename_i closed
    have named := nameText_skipGap.mp (optionalString_eq_ok_iff.mp hname)
    exact ⟨entries, .both named comma (stringMap_skipGap.mp map) closed, rfl⟩
  · rintro ⟨entries, ⟨named, comma, map, closed⟩, stated⟩
    refine bind_eq_ok_iff.mpr ⟨_, named.nextItem, ?_⟩
    refine bind_eq_ok_iff.mpr ⟨_, optionalString_eq_ok_iff.mpr (nameText_skipGap.mpr named), ?_⟩
    refine bind_eq_ok_iff.mpr ⟨_, map.nextItem comma, ?_⟩
    have read := stringMap_eq_ok_iff.mpr ⟨entries, stringMap_skipGap.mpr map, rfl⟩
    refine bind_eq_ok_iff.mpr ⟨_, read, ?_⟩
    simp only [closed, ← stated]
    rfl

/-- What the members state is stated by the object that they are in. -/
lemma MembersText.states {body inner rest : List Char} {members : List Member}
    {request : PropertiesRequest} (text : MembersText true inner members rest)
    (completes : Completes ⟨none, none⟩ members request) (opened : skipGap body = '{' :: inner)
    (ended : skipGap rest = []) : States body request := by
  obtain ⟨⟨name, names, stated⟩, properties⟩ := completes
  obtain ⟨entries, alone, known⟩ := List.map_eq_singleton_iff.mp properties
  obtain ⟨requestName, requestProperties⟩ := request
  obtain rfl : requestName = name.getD none := stated
  obtain rfl : .ofList entries = requestProperties := known
  exact .object opened text ended names alone

/-- The reader reads a request exactly if the body states it. -/
theorem PropertiesRequest.parse_eq_ok_iff {text : List Char} {request : PropertiesRequest} :
    PropertiesRequest.parse text = .ok request ↔ States text request := by
  unfold PropertiesRequest.parse
  constructor
  · intro h
    split at h
    · rename_i inner opened
      obtain ⟨⟨read, rest⟩, members, h⟩ := bind_eq_ok_iff.mp h
      obtain ⟨members, text, completes⟩ := requestMembers_of_ok members
      dsimp only at h
      split at h <;> cases h
      rename_i ended
      exact text.states completes opened ended
    · rename_i inner opened
      obtain ⟨⟨⟨name, properties⟩, rest⟩, items, h⟩ := bind_eq_ok_iff.mp h
      obtain ⟨entries, items, stated⟩ := requestItems_eq_ok_iff.mp items
      obtain rfl : properties = .ofList entries := stated
      dsimp only at h
      split at h <;> cases h
      rename_i ended
      exact .array opened items ended
    · obtain ⟨_, failed, -⟩ := bind_eq_ok_iff.mp h
      cases failed
  · intro h
    cases h with
    | @object inner rest members name entries opened text ended names properties =>
      have completes : Completes ⟨none, none⟩ members ⟨name.getD none, .ofList entries⟩ :=
        ⟨⟨name, names, rfl⟩, congrArg (List.map Dictionary.ofList) properties⟩
      simp only [opened]
      refine bind_eq_ok_iff.mpr ⟨_, text.read completes (Nat.lt_succ_self _), ?_⟩
      simp only [ended]
      rfl
    | @array inner rest name entries opened text ended =>
      have read : requestItems inner = .ok (⟨name, .ofList entries⟩, rest) :=
        requestItems_eq_ok_iff.mpr ⟨entries, text, rfl⟩
      simp only [opened]
      refine bind_eq_ok_iff.mpr ⟨_, read, ?_⟩
      simp only [ended]
      rfl

/-- A byte that belongs to no character is passed over in a value that nobody asks for, and refused
in a name. -/
example :
    let other := "\x7b\"properties\":\x7b\x7d,\"other\":\"".toUTF8 ++ ⟨#[0xFF]⟩ ++ "\"\x7d".toUTF8
    let name := "[\"".toUTF8 ++ ⟨#[0xFF]⟩ ++ "\",\x7b\x7d]".toUTF8
    PropertiesRequest.parse (bodyText other) = .ok ⟨none, .empty⟩ ∧
      PropertiesRequest.parse (bodyText name) = .error .malformed := by
  decide +kernel

lemma size_utf8Encode_cons (c : Char) (cs : List Char) :
    (c :: cs).utf8Encode.size = c.utf8Size + cs.utf8Encode.size := by
  rw [List.utf8Encode_cons, ByteArray.size_append, List.utf8Encode_singleton,
    List.size_toByteArray, String.length_utf8EncodeChar]

lemma length_le_size_utf8Encode (cs : List Char) : cs.length ≤ cs.utf8Encode.size := by
  induction cs with
  | nil => exact Nat.zero_le _
  | cons c cs ih =>
    have := c.utf8Size_pos
    rw [size_utf8Encode_cons, List.length_cons]
    omega

lemma charsFrom_append (front : ByteArray) (cs : List Char) {fuel : Nat}
    (enough : cs.length ≤ fuel) : charsFrom (front ++ cs.utf8Encode) fuel front.size = cs := by
  induction cs generalizing front fuel with
  | nil => cases fuel <;> simp [charsFrom]
  | cons c cs ih =>
    obtain ⟨fuel, rfl⟩ := Nat.exists_eq_succ_of_ne_zero (Nat.ne_zero_of_lt enough)
    have inside : front.size < (front ++ (c :: cs).utf8Encode).size := by
      have := c.utf8Size_pos
      rw [ByteArray.size_append, size_utf8Encode_cons]
      omega
    have decoded : (front ++ (c :: cs).utf8Encode).utf8DecodeChar? front.size = some c := by
      rw [ByteArray.utf8DecodeChar?_eq_utf8DecodeChar?_extract,
        ByteArray.extract_append_eq_right rfl ByteArray.size_append]
      exact List.utf8DecodeChar?_utf8Encode_cons
    have rest := ih (front ++ [c].utf8Encode) (Nat.le_of_succ_le_succ enough)
    rw [ByteArray.append_assoc, ← List.utf8Encode_cons, ByteArray.size_append,
      size_utf8Encode_cons] at rest
    rw [charsFrom, if_pos inside, decoded]
    exact congrArg (List.cons c) rest

/-- A body that is a text has this text. -/
lemma bodyText_toUTF8 (s : String) : bodyText s.toUTF8 = s.toList := by
  have bytes : s.toUTF8 = s.toList.utf8Encode := String.utf8Encode_toList.symm
  have whole := charsFrom_append .empty s.toList (length_le_size_utf8Encode s.toList)
  rwa [← bytes, ByteArray.empty_append] at whole

section

variable (s : String) (rest : List Char)

lemma stringText_quoted : StringText (quoted s ++ rest) s rest := by
  refine ⟨s.toList.flatMap escaped ++ '"' :: rest, ?_, readQuoted?_quoted s rest⟩
  rw [quoted, List.cons_append, List.append_assoc, List.singleton_append]
  exact skipGap_cons (by decide) _

lemma named_quoted : Named (quoted s ++ ':' :: rest) s rest :=
  ⟨':' :: rest, stringText_quoted s _, skipGap_cons (by decide) _⟩

end

lemma nameText_text (name : Option String) (rest : List Char) :
    NameText ((name.elim .null .string : Json).text ++ rest) name rest := by
  cases name with
  | none => exact .null (skipGap_cons (by decide) _)
  | some name => exact .string (stringText_quoted name rest)

def stringTexts (entries : List (String × String)) : List (List Char) :=
  memberTexts (entries.map fun e => (e.1, .string e.2))

lemma stringMembers_joined (entry : String × String) (more : List (String × String))
    (rest : List Char) {first : Bool} {cs : List Char}
    (separated : Separated first cs
      (Text.joined [','] (stringTexts (entry :: more)) ++ '}' :: rest)) :
    StringMembers first cs (entry :: more) rest := by
  induction more generalizing entry first cs with
  | nil =>
    have regroup : Text.joined [','] (stringTexts [entry]) ++ '}' :: rest =
        quoted entry.1 ++ ':' :: (quoted entry.2 ++ '}' :: rest) := by
      simp [stringTexts, memberTexts, Text.joined, Json.text]
    exact .member (regroup ▸ separated) (named_quoted entry.1 _) (stringText_quoted entry.2 _)
      (.close (skipGap_cons (by decide) _))
  | cons next more ih =>
    have regroup : Text.joined [','] (stringTexts (entry :: next :: more)) ++ '}' :: rest =
        quoted entry.1 ++ ':' :: (quoted entry.2 ++
          ',' :: (Text.joined [','] (stringTexts (next :: more)) ++ '}' :: rest)) := by
      simp [stringTexts, memberTexts, Text.joined, Json.text]
    exact .member (regroup ▸ separated) (named_quoted entry.1 _) (stringText_quoted entry.2 _)
      (ih next (skipGap_cons (by decide) _))

lemma stringMap_text (properties : Dictionary String) (rest : List Char) :
    StringMap ((Json.ofDictionary properties).text ++ rest) properties.entries rest := by
  rw [Json.ofDictionary, Json.text, List.cons_append, List.append_assoc, List.singleton_append]
  refine ⟨_, skipGap_cons (by decide) _, ?_⟩
  cases properties.entries with
  | nil => exact .close (skipGap_cons (by decide) _)
  | cons entry more => exact stringMembers_joined entry more rest rfl

/-- Every request can be stated: the text of an object with both its values states it. -/
theorem States.of_text (name : Option String) (properties : Dictionary String) :
    States (Json.object [("name", name.elim .null .string),
      ("properties", .ofDictionary properties)]).text ⟨name, properties⟩ := by
  have regroup : (Json.object [("name", name.elim .null .string),
      ("properties", .ofDictionary properties)]).text =
        '{' :: (quoted "name" ++ ':' :: ((name.elim .null .string : Json).text ++ ',' ::
          (quoted "properties" ++ ':' :: ((Json.ofDictionary properties).text ++ ['}'])))) := by
    simp [Json.text, memberTexts, Text.joined]
  have start (cs : List Char) : Separated true cs cs := rfl
  have comma (cs : List Char) : Separated false (',' :: cs) cs := skipGap_cons (by decide) cs
  have closed : MembersText false ['}'] [] [] := .close (skipGap_cons (by decide) _)
  have map := MemberText.properties (named_quoted "properties" _) (stringMap_text properties ['}'])
  have named (rest : List Char) := MemberText.name (named_quoted "name" _) (nameText_text name rest)
  have members := MembersText.member (start _) (named _) (.member (comma _) map closed)
  have once : [Member.name name, .properties properties.entries].filterMap Member.name? =
      (some name).toList := rfl
  have stated := States.object (skipGap_cons (by decide) _) members rfl once rfl
  rwa [Dictionary.ofList_entries, ← regroup] at stated

end LakeCatalog.Service
