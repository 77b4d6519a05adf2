import LakeCatalog.Service.Body

/-!
# What a body states

The texts that are bodies of properties requests, and the request that each of them states. A text
is described by what it begins with and what is left of it. Gaps may stand before every token. In
the object of the request a member `properties` stands once and a member `name` at most once, among
members with other names, whose values do not matter.
-/

namespace LakeCatalog.Service

open Json

/-- A part of a value that does not matter: the value itself, or what is left of an array or an
object after the items or members that have been passed, with the bracket that closes it. -/
inductive Part where
  | value
  | items (first : Bool)
  | members (first : Bool)

/-- What stands between the parts of an array or an object: nothing before the first, and a comma
before any other. -/
def Separated (first : Bool) (cs rest : List Char) : Prop :=
  if first then rest = cs else skipGap cs = ',' :: rest

/-- A value of any depth, or a part of one, and what is left of the text. -/
inductive Passes : Part → List Char → List Char → Prop where
  | scalar {cs rest : List Char} (passed : passScalar? (skipGap cs) = some rest) :
      Passes .value cs rest
  | array {cs inner rest : List Char} (opened : skipGap cs = '[' :: inner)
      (items : Passes (.items true) inner rest) : Passes .value cs rest
  | object {cs inner rest : List Char} (opened : skipGap cs = '{' :: inner)
      (members : Passes (.members true) inner rest) : Passes .value cs rest
  | noItem {first : Bool} {cs rest : List Char} (closed : skipGap cs = ']' :: rest) :
      Passes (.items first) cs rest
  | item {first : Bool} {cs inner after rest : List Char} (separated : Separated first cs inner)
      (value : Passes .value inner after) (more : Passes (.items false) after rest) :
      Passes (.items first) cs rest
  | noMember {first : Bool} {cs rest : List Char} (closed : skipGap cs = '}' :: rest) :
      Passes (.members first) cs rest
  | member {first : Bool} {cs inner named after rest : List Char}
      (separated : Separated first cs inner) (name : passName? inner = some named)
      (value : Passes .value named after) (more : Passes (.members false) after rest) :
      Passes (.members first) cs rest

def StringText (cs : List Char) (s : String) (rest : List Char) : Prop :=
  ∃ inner, skipGap cs = '"' :: inner ∧ readQuoted? inner = some (s, rest)

inductive NameText : List Char → Option String → List Char → Prop where
  | null {cs rest : List Char} (null : skipGap cs = 'n' :: 'u' :: 'l' :: 'l' :: rest) :
      NameText cs none rest
  | string {cs rest : List Char} {s : String} (text : StringText cs s rest) :
      NameText cs (some s) rest

def Named (cs : List Char) (name : String) (rest : List Char) : Prop :=
  ∃ after, StringText cs name after ∧ skipGap after = ':' :: rest

inductive StringMembers : Bool → List Char → List (String × String) → List Char → Prop where
  | close {first : Bool} {cs rest : List Char} (closed : skipGap cs = '}' :: rest) :
      StringMembers first cs [] rest
  | member {first : Bool} {cs inner named after rest : List Char} {key value : String}
      {entries : List (String × String)} (separated : Separated first cs inner)
      (name : Named inner key named) (text : StringText named value after)
      (more : StringMembers false after entries rest) :
      StringMembers first cs ((key, value) :: entries) rest

def StringMap (cs : List Char) (entries : List (String × String)) (rest : List Char) : Prop :=
  ∃ inner, skipGap cs = '{' :: inner ∧ StringMembers true inner entries rest

inductive Member where
  | name (name : Option String)
  | properties (entries : List (String × String))
  | other (key : String)

namespace Member

def name? : Member → Option (Option String)
  | .name n => some n
  | _ => none

def properties? : Member → Option (List (String × String))
  | .properties es => some es
  | _ => none

end Member

inductive MemberText : List Char → Member → List Char → Prop where
  | name {cs named rest : List Char} {name : Option String} (key : Named cs "name" named)
      (text : NameText named name rest) : MemberText cs (.name name) rest
  | properties {cs named rest : List Char} {entries : List (String × String)}
      (key : Named cs "properties" named) (text : StringMap named entries rest) :
      MemberText cs (.properties entries) rest
  | other {cs named rest : List Char} {name : String} (key : Named cs name named)
      (apart : name ≠ "name" ∧ name ≠ "properties") (value : Passes .value named rest) :
      MemberText cs (.other name) rest

inductive MembersText : Bool → List Char → List Member → List Char → Prop where
  | close {first : Bool} {cs rest : List Char} (closed : skipGap cs = '}' :: rest) :
      MembersText first cs [] rest
  | member {first : Bool} {cs inner after rest : List Char} {m : Member} {members : List Member}
      (separated : Separated first cs inner) (text : MemberText inner m after)
      (more : MembersText false after members rest) :
      MembersText first cs (m :: members) rest

inductive ItemsText : List Char → Option String → List (String × String) → List Char → Prop where
  | both {cs afterName next afterMap rest : List Char} {name : Option String}
      {entries : List (String × String)} (first : NameText cs name afterName)
      (comma : skipGap afterName = ',' :: next) (second : StringMap next entries afterMap)
      (closed : skipGap afterMap = ']' :: rest) : ItemsText cs name entries rest

/-- The request that a body states. Of several entries of the properties with one key the last
counts. -/
inductive States (body : List Char) : PropertiesRequest → Prop where
  | object {inner rest : List Char} {members : List Member} {name : Option (Option String)}
      {entries : List (String × String)} (opened : skipGap body = '{' :: inner)
      (text : MembersText true inner members rest) (ended : skipGap rest = [])
      (names : members.filterMap Member.name? = name.toList)
      (properties : members.filterMap Member.properties? = [entries]) :
      States body ⟨name.getD none, .ofList entries⟩
  | array {inner rest : List Char} {name : Option String} {entries : List (String × String)}
      (opened : skipGap body = '[' :: inner) (text : ItemsText inner name entries rest)
      (ended : skipGap rest = []) : States body ⟨name, .ofList entries⟩

end LakeCatalog.Service
