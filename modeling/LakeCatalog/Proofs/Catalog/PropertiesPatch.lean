import LakeCatalog.Catalog.Store
import Mathlib.Data.List.Perm.Basic
import Mathlib.Tactic.Common

/-!
# What a properties patch does

The operations of a patch, carried out on a document of dataset properties, assert just what the
patch names. Every key has a pointer of its own: reading undoes the escaping, in which the tilde is
replaced before the slash. So no two operations of a patch concern the same member, and their order
does not matter.
-/

namespace LakeCatalog.Json.Pointer

lemma read?_of_two_names {text : String} {front back first second : List Char}
    (written : text.toList = '/' :: (front ++ '/' :: back)) (hfront : '/' ∉ front)
    (hback : '/' ∉ back) (hfirst : unescape? front = some first)
    (hsecond : unescape? back = some second) :
    read? text = some [String.ofList first, String.ofList second] := by
  have plain {name : List Char} (h : '/' ∉ name) : ∀ c ∈ name, (c == '/') = false := by
    intro c hc
    rw [beq_eq_false_iff_ne]
    rintro rfl
    exact h hc
  have names : Text.pieces (· == '/') (front ++ '/' :: back) = [front, back] := by
    rw [Text.pieces_append_cons (plain hfront) rfl, Text.pieces_of_not_separates (plain hback)]
  simp only [read?, written, names, List.mapM_cons, List.mapM_nil, hfirst, hsecond,
    Option.map_some]
  rfl

end LakeCatalog.Json.Pointer

namespace LakeCatalog.Catalog

open Json

namespace PropertiesPatch

lemma escapeToken_cons (c : Char) (rest : List Char) :
    escapeToken (c :: rest) = escapeToken [c] ++ escapeToken rest := by
  simp [escapeToken, Text.substitute]

lemma escapeToken_singleton (c : Char) : escapeToken [c] =
    if c = '~' then ['~', '0'] else if c = '/' then ['~', '1'] else [c] := by
  by_cases tilde : c = '~'
  · simp [escapeToken, Text.substitute, tilde]
  · by_cases slash : c = '/' <;> simp [escapeToken, Text.substitute, tilde, slash]

lemma unescape?_escapeToken (token : List Char) :
    Pointer.unescape? (escapeToken token) = some token := by
  induction token with
  | nil => rfl
  | cons c rest ih =>
    rw [escapeToken_cons, escapeToken_singleton]
    by_cases tilde : c = '~'
    · simp [tilde, Pointer.unescape?, ih]
    · by_cases slash : c = '/'
      · simp [slash, Pointer.unescape?, ih]
      · simp [tilde, slash, Pointer.unescape?, ih]

lemma slash_notMem_escapeToken (token : List Char) : '/' ∉ escapeToken token := by
  induction token with
  | nil => exact List.not_mem_nil
  | cons c rest ih =>
    rw [escapeToken_cons, escapeToken_singleton, List.mem_append]
    rintro (h | h)
    · by_cases tilde : c = '~'
      · simp [tilde] at h
      · by_cases slash : c = '/'
        · simp [slash] at h
        · simp only [tilde, slash, if_false, List.mem_singleton] at h
          exact slash h.symm
    · exact ih h

/-- Whatever the key, its pointer leads to the custom property with that key. -/
lemma read?_propertyPath (key : String) :
    Pointer.read? (propertyPath key) = some ["customProperties", key] := by
  have start : "/customProperties/".toList = '/' :: ("customProperties".toList ++ ['/']) := by
    decide +kernel
  have regroup (front back : List Char) :
      ('/' :: (front ++ ['/'])) ++ back = '/' :: (front ++ '/' :: back) := by simp
  have written : (propertyPath key).toList =
      '/' :: ("customProperties".toList ++ '/' :: escapeToken key.toList) :=
    -- Rewriting would try to take the fixed text apart.
    calc (propertyPath key).toList
        = "/customProperties/".toList ++ escapeToken key.toList :=
          String.toList_append.trans (congrArg _ String.toList_ofList)
      _ = ('/' :: ("customProperties".toList ++ ['/'])) ++ escapeToken key.toList :=
          congrArg (· ++ _) start
      _ = _ := regroup _ _
  have plain : Pointer.unescape? "customProperties".toList = some "customProperties".toList := by
    decide +kernel
  have names := Pointer.read?_of_two_names written (by decide +kernel)
    (slash_notMem_escapeToken key.toList) plain (unescape?_escapeToken key.toList)
  rwa [String.ofList_toList, String.ofList_toList] at names

lemma read?_namePath : Pointer.read? "/name" = some ["name"] := by decide +kernel

lemma mem_operations {p : PropertiesPatch} {o : AddOperation} : o ∈ p.operations ↔
    (∃ key, p.properties.get? key = some o.value ∧ o.path = propertyPath key) ∨
      p.name = some o.value ∧ o.path = "/name" := by
  rcases o with ⟨path, value⟩
  rw [operations, List.mem_append, List.mem_map, List.mem_map]
  refine or_congr ?_ ?_
  · constructor
    · rintro ⟨⟨key, v⟩, he, same⟩
      cases same
      exact ⟨key, p.properties.get?_eq_some_iff_mem.mpr he, rfl⟩
    · rintro ⟨key, hkey, rfl⟩
      exact ⟨(key, value), p.properties.get?_eq_some_iff_mem.mp hkey, rfl⟩
  · constructor
    · rintro ⟨name, hname, same⟩
      cases same
      exact ⟨Option.mem_toList.mp hname, rfl⟩
    · rintro ⟨hname, rfl⟩
      exact ⟨value, Option.mem_toList.mpr hname, rfl⟩

end PropertiesPatch

lemma AddOperation.member?_json (o : AddOperation) (name : String) : o.json.member? name =
    if name = "value" then some (.string o.value)
    else if name = "path" then some (.string o.path)
    else if name = "op" then some (.string "add")
    else none := by
  rw [json, sortedObject, member?_entries]
  simp [Dictionary.ofList, Dictionary.insertMany]

lemma afterOperation?_json (value : Json) (o : AddOperation) : value.afterOperation? o.json =
    (Pointer.read? o.path).bind (added? (.string o.value) · value) := by
  have kind : o.json.member? "op" = some (.string "add") := o.member?_json _
  have path : o.json.member? "path" = some (.string o.path) := o.member?_json _
  have new : o.json.member? "value" = some (.string o.value) := o.member?_json _
  simp [afterOperation?, kind, path, new, string?]

namespace PropertiesDocument

/-- The document once the property or the name that an operation adds is set. -/
def asserting (d : PropertiesDocument) (o : AddOperation) : PropertiesDocument :=
  match Pointer.read? o.path with
  | some ["customProperties", key] => d.withProperty key o.value
  | some ["name"] => d.withName o.value
  | _ => d

def patched (d : PropertiesDocument) (p : PropertiesPatch) : PropertiesDocument :=
  p.operations.foldl asserting d

section

variable (d : PropertiesDocument) {o : AddOperation} {p : PropertiesPatch}

lemma asserting_property {key : String} (path : o.path = PropertiesPatch.propertyPath key) :
    d.asserting o = d.withProperty key o.value := by
  simp only [asserting, path, PropertiesPatch.read?_propertyPath]

lemma asserting_name (path : o.path = "/name") : d.asserting o = d.withName o.value := by
  simp only [asserting, path, PropertiesPatch.read?_namePath]

lemma afterOperation?_of_mem (h : o ∈ p.operations) :
    d.json.afterOperation? o.json = some (d.asserting o).json := by
  rw [afterOperation?_json]
  rcases PropertiesPatch.mem_operations.mp h with ⟨key, -, path⟩ | ⟨-, path⟩
  · rw [d.asserting_property path, path, PropertiesPatch.read?_propertyPath]
    simp [added?, json, withProperty, d.lists]
  · rw [d.asserting_name path, path, PropertiesPatch.read?_namePath]
    simp [added?, json, withName]

/-- Two operations of one patch concern different members, or are the same. -/
lemma asserting_comm {a b : AddOperation} (ha : a ∈ p.operations) (hb : b ∈ p.operations) :
    (d.asserting a).asserting b = (d.asserting b).asserting a := by
  rcases PropertiesPatch.mem_operations.mp ha with ⟨key, hkey, pa⟩ | ⟨hname, pa⟩ <;>
    rcases PropertiesPatch.mem_operations.mp hb with ⟨key', hkey', pb⟩ | ⟨hname', pb⟩
  · simp only [asserting_property _ pa, asserting_property _ pb]
    by_cases differ : key = key'
    · subst differ
      have same : a.value = b.value := Option.some.inj (hkey.symm.trans hkey')
      rw [same]
    · exact d.withProperty_comm differ a.value b.value
  · simp only [asserting_property _ pa, asserting_name _ pb]
    exact d.withName_withProperty b.value key a.value
  · simp only [asserting_name _ pa, asserting_property _ pb]
    exact (d.withName_withProperty a.value key' b.value).symm
  · have same : a.value = b.value := Option.some.inj (hname.symm.trans hname')
    simp only [asserting_name _ pa, asserting_name _ pb, same]

lemma foldlM_afterOperation? {operations : List AddOperation}
    (known : ∀ o ∈ operations, o ∈ p.operations) :
    (operations.map AddOperation.json).foldlM afterOperation? d.json =
      some (operations.foldl asserting d).json := by
  induction operations generalizing d with
  | nil => rfl
  | cons o rest ih =>
    rw [List.map_cons, List.foldlM_cons, d.afterOperation?_of_mem (known o List.mem_cons_self)]
    exact ih _ fun a ha => known a (List.mem_cons_of_mem o ha)

lemma patched?_of_perm {operations : List AddOperation} (perm : operations.Perm p.operations) :
    d.json.patched? (.array (operations.map AddOperation.json)) = some (d.patched p).json := by
  have known : ∀ o ∈ operations, o ∈ p.operations := fun o ho => perm.mem_iff.mp ho
  have order : operations.foldl asserting d = d.patched p :=
    perm.foldl_eq' (fun a ha b hb e => e.asserting_comm (known a ha) (known b hb)) d
  have carried := d.foldlM_afterOperation? known
  rw [order] at carried
  exact carried

lemma withProperties_spec (entries : List (String × String)) :
    let e := entries.foldl (fun d e => d.withProperty e.1 e.2) d
    e.custom = d.custom.insertMany (entries.map fun e => (e.1, .string e.2)) ∧
      ∀ member, member ≠ "customProperties" → e.members.get? member = d.members.get? member := by
  induction entries generalizing d with
  | nil => exact ⟨rfl, fun _ _ => rfl⟩
  | cons e rest ih =>
    obtain ⟨custom, members⟩ := ih (d.withProperty e.1 e.2)
    refine ⟨custom, fun member other => (members member other).trans ?_⟩
    simp [withProperty, other]

variable (p)

/-- A patch sets its properties one after the other, and then the name. -/
lemma patched_eq : d.patched p = p.name.toList.foldl withName
    (p.properties.entries.foldl (fun d e => d.withProperty e.1 e.2) d) := by
  have properties (d : PropertiesDocument) (e : String × String) :
      d.asserting ⟨PropertiesPatch.propertyPath e.1, e.2⟩ = d.withProperty e.1 e.2 :=
    d.asserting_property rfl
  have names (d : PropertiesDocument) (name : String) :
      d.asserting ⟨"/name", name⟩ = d.withName name :=
    d.asserting_name rfl
  simp only [patched, PropertiesPatch.operations, List.foldl_append, List.foldl_map, properties,
    names]

lemma get?_custom_patched (key : String) : (d.patched p).custom.get? key =
    ((p.properties.get? key).map Json.string).or (d.custom.get? key) := by
  have values := (d.withProperties_spec p.properties.entries).1
  have custom : (d.patched p).custom =
      d.custom.insertMany (p.properties.entries.map fun e => (e.1, .string e.2)) := by
    rw [patched_eq, ← values]
    cases p.name <;> rfl
  rw [custom, Dictionary.get?_insertMany, ← List.map_reverse, lookup_map_values,
    lookup_reverse p.properties.ascending.distinct]
  rfl

lemma property?_patched (key : String) :
    (d.patched p).property? key = (p.properties.get? key).or (d.property? key) := by
  rw [property?_eq, property?_eq, get?_custom_patched]
  cases p.properties.get? key <;> rfl

lemma get?_name_patched : (d.patched p).members.get? "name" =
    (p.name.map Json.string).or (d.members.get? "name") := by
  have kept := (d.withProperties_spec p.properties.entries).2 "name" (by decide)
  rw [patched_eq]
  cases p.name with
  | none => exact kept
  | some name => simp [withName]

lemma get?_members_patched {member : String} (other : member ≠ "customProperties")
    (unnamed : member ≠ "name") :
    (d.patched p).members.get? member = d.members.get? member := by
  have kept := (d.withProperties_spec p.properties.entries).2 member other
  rw [patched_eq]
  cases p.name with
  | none => exact kept
  | some name => simpa [withName, unnamed] using kept

end

end PropertiesDocument

/-- A patch asserts what it is given and nothing else. In whatever order its operations are carried
out they give the same document: every custom property that the patch names has the value that the
patch gives, the name is set if the patch gives one, and all else is as it was. Every key has a
pointer of its own, which leads to the custom property with that key. -/
theorem operations_assert_exactly (p : PropertiesPatch) (d : PropertiesDocument) :
    (∃ e : PropertiesDocument,
      (∀ operations : List AddOperation, operations.Perm p.operations →
        d.json.patched? (.array (operations.map AddOperation.json)) = some e.json) ∧
      (∀ key, e.custom.get? key =
        ((p.properties.get? key).map Json.string).or (d.custom.get? key)) ∧
      e.members.get? "name" = (p.name.map Json.string).or (d.members.get? "name") ∧
      ∀ member, member ≠ "customProperties" → member ≠ "name" →
        e.members.get? member = d.members.get? member) ∧
    ∀ key, Pointer.read? (PropertiesPatch.propertyPath key) = some ["customProperties", key] := by
  refine ⟨⟨d.patched p, fun operations perm => d.patched?_of_perm perm, ?_, ?_, ?_⟩, ?_⟩
  · exact d.get?_custom_patched p
  · exact d.get?_name_patched p
  · exact fun member other unnamed => d.get?_members_patched p other unnamed
  · exact PropertiesPatch.read?_propertyPath

end LakeCatalog.Catalog
