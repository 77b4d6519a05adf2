import LakeCatalog.Catalog.Proposal
import LakeCatalog.Json.Basic
import LakeCatalog.Json.Patch

/-!
# What the catalog keeps

What the catalog keeps about the properties of a dataset is an object. Its member `customProperties`
is again an object, which holds the properties that publishers assert; the display name is a member
of its own, and there can be others. The members of an object are in ascending order of their names,
as they are read.

The catalog keeps one document for every aspect of every entity. A proposal concerns one of these
documents: an upsert replaces it, whether it is there or not, and a patch changes the one that is
there. A patch that cannot be carried out is refused, and nothing changes.
-/

namespace LakeCatalog.Catalog

/-- A document about the properties of a dataset that lists custom properties. -/
@[ext]
structure PropertiesDocument where
  members : Dictionary Json
  custom : Dictionary Json
  lists : members.get? "customProperties" = some (.object custom.entries)

namespace PropertiesDocument

def json (d : PropertiesDocument) : Json := .object d.members.entries

/-- The document without custom properties and without other members. -/
def blank : PropertiesDocument where
  members := Dictionary.empty.insert "customProperties" (.object [])
  custom := .empty
  lists := by simp [Dictionary.empty]

/-- The custom property with a key as it is read from the document, if it is a text. -/
def property? (d : PropertiesDocument) (key : String) : Option String :=
  ((d.json.member? "customProperties").bind (·.member? key)).bind Json.string?

def withProperty (d : PropertiesDocument) (key value : String) : PropertiesDocument where
  members :=
    d.members.insert "customProperties" (.object (d.custom.insert key (.string value)).entries)
  custom := d.custom.insert key (.string value)
  lists := by simp

def withName (d : PropertiesDocument) (name : String) : PropertiesDocument where
  members := d.members.insert "name" (.string name)
  custom := d.custom
  lists := by simp [d.lists]

theorem property?_eq (d : PropertiesDocument) (key : String) :
    d.property? key = (d.custom.get? key).bind Json.string? := by
  have listed : d.json.member? "customProperties" = some (.object d.custom.entries) := d.lists
  rw [property?, listed, Option.bind_some, Json.member?_entries]

theorem withProperty_comm (d : PropertiesDocument) {key key' : String} (differ : key ≠ key')
    (value value' : String) :
    (d.withProperty key value).withProperty key' value' =
      (d.withProperty key' value').withProperty key value := by
  have custom : (d.custom.insert key (.string value)).insert key' (.string value') =
      (d.custom.insert key' (.string value')).insert key (.string value) := by
    refine Dictionary.ext_get? fun k => ?_
    by_cases h : k = key
    · simp [h, differ]
    · simp [h]
  refine PropertiesDocument.ext (Dictionary.ext_get? fun k => ?_) custom
  by_cases h : k = "customProperties" <;> simp [withProperty, h, custom]

theorem withName_withProperty (d : PropertiesDocument) (name key value : String) :
    (d.withProperty key value).withName name = (d.withName name).withProperty key value := by
  refine PropertiesDocument.ext (Dictionary.ext_get? fun k => ?_) rfl
  by_cases h : k = "name" <;> simp [withProperty, withName, h]

end PropertiesDocument

/-- The documents of the catalog, by entity and name of the aspect. -/
abbrev Store := Urn → String → Option Json

namespace Proposal

/-- The document that a proposal leaves in place of the one that it finds. -/
def documentAfter (p : Proposal) (found : Option Json) : Option Json :=
  match p.changeType with
  | .upsert => some p.aspect.wireValue
  | .patch => (found.bind (·.patched? p.aspect.wireValue)).or found

/-- The entity and the name of the aspect that a proposal is about. -/
def target (p : Proposal) : Urn × String := (p.entity, p.aspect.name)

end Proposal

namespace Store

def apply (store : Store) (p : Proposal) : Store := fun entity aspect =>
  if (entity, aspect) = p.target then p.documentAfter (store entity aspect)
  else store entity aspect

def applyAll (store : Store) (proposals : List Proposal) : Store := proposals.foldl apply store

end Store

end LakeCatalog.Catalog
