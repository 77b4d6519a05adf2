import LakeCatalog.Catalog.Exchange
import LakeCatalog.Proofs.Catalog.PropertiesPatch
import LakeCatalog.Proofs.Json.RoundTrip

/-!
# What the body of a request says

The body of the request for a proposal is read back member by member, and the text that it holds for
the value of the aspect is read back as that value. The name of an aspect and its value leave no
choice of the aspect, so a body belongs to one proposal only.
-/

namespace LakeCatalog.Catalog

open Json

namespace BrowseStep

lemma settled_json (depth : Nat) (s : BrowseStep) : Settled (depth + 1) s.json := by
  refine settled_object ?_ fun m hm => ?_
  · cases s.urn with
    | none => exact List.pairwise_singleton _ _
    | some urn => exact List.pairwise_pair.mpr (show "id" < "urn" by decide)
  · rcases List.mem_cons.mp hm with rfl | hm
    · exact settled_string depth _
    · cases h : s.urn with
      | none => rw [h] at hm; cases hm
      | some urn =>
        rw [h] at hm
        rw [List.mem_singleton.mp hm]
        exact settled_string depth _

end BrowseStep

lemma AddOperation.settled_json (depth : Nat) (o : AddOperation) : Settled (depth + 1) o.json := by
  refine settled_sortedObject fun m hm => ?_
  simp only [List.mem_cons, List.not_mem_nil, or_false] at hm
  rcases hm with rfl | rfl | rfl <;> exact settled_string depth _

lemma Field.settled_json (depth : Nat) (f : Field) : Settled (depth + 4) f.json := by
  have empty : Settled (depth + 1) (.object []) :=
    settled_object List.Pairwise.nil fun m hm => by cases hm
  refine settled_sortedObject fun m hm => ?_
  rcases List.mem_append.mp hm with hm | hm
  · simp only [List.mem_cons, List.not_mem_nil, or_false] at hm
    rcases hm with rfl | rfl | rfl | rfl | rfl
    · exact settled_string _ _
    · exact settled_bool _ _
    · exact settled_singleton (settled_singleton empty)
    · exact settled_string _ _
    · exact settled_bool _ _
  · cases h : f.description with
    | none => rw [h] at hm; cases hm
    | some text =>
      rw [h] at hm
      rw [List.mem_singleton.mp hm]
      exact settled_string _ _

lemma SchemaAspect.settled_json (depth : Nat) (s : SchemaAspect) : Settled (depth + 6) s.json := by
  refine settled_sortedObject fun m hm => ?_
  simp only [List.mem_cons, List.not_mem_nil, or_false] at hm
  rcases hm with rfl | rfl | rfl | rfl | rfl | rfl
  · exact settled_string _ _
  · exact settled_string _ _
  · exact ⟨⟨by decide, by decide⟩, rfl⟩
  · exact settled_string _ _
  · exact settled_singleton (settled_singleton (settled_string _ _))
  · refine settled_array fun j hj => ?_
    obtain ⟨f, -, rfl⟩ := List.mem_map.mp hj
    exact f.settled_json depth

/-- Whatever is sent for an aspect fits the reader and is listed in the order of reading. -/
lemma Aspect.settled_wireValue (depth : Nat) (a : Aspect) : Settled (depth + 6) a.wireValue := by
  cases a with
  | status removed => exact settled_singleton (settled_bool _ _)
  | subTypes names => exact settled_singleton (settled_ofStrings _ _)
  | containerProperties name => exact settled_singleton (settled_string _ _)
  | container urn => exact settled_singleton (settled_string _ _)
  | browsePath path =>
    refine settled_singleton (settled_array fun j hj => ?_)
    obtain ⟨step, -, rfl⟩ := List.mem_map.mp hj
    exact step.settled_json _
  | domains urns => exact settled_singleton (settled_ofStrings _ _)
  | schema s => exact s.settled_json depth
  | properties patch =>
    refine settled_array fun j hj => ?_
    obtain ⟨o, -, rfl⟩ := List.mem_map.mp hj
    exact o.settled_json _

lemma ofStrings_injective : Function.Injective Json.ofStrings := by
  intro s t same
  exact List.map_injective_iff.mpr (fun a b h => Json.string.inj h) (Json.array.inj same)

lemma BrowseStep.json_injective : Function.Injective BrowseStep.json := by
  rintro ⟨id, urn⟩ ⟨id', urn'⟩ same
  rcases urn with _ | urn <;> rcases urn' with _ | urn' <;>
    simp_all [BrowseStep.json, Urn.text_injective.eq_iff]

lemma TypeClass.fullName_injective : Function.Injective TypeClass.fullName := by
  intro c d same
  have short : c.shortName = d.shortName :=
    (String.append_right_inj _).mp ((String.append_left_inj _).mp same)
  cases c <;> cases d <;> first | rfl | exact absurd short (by decide)

lemma Field.member?_json (f : Field) (name : String) : f.json.member? name =
    if name = "description" then f.description.map Json.string
    else if name = "recursive" then some (.bool false)
    else if name = "nativeDataType" then some (.string f.nativeType)
    else if name = "type" then
      some (.object [("type", .object [(f.typeClass.fullName, .object [])])])
    else if name = "nullable" then some (.bool f.nullable)
    else if name = "fieldPath" then some (.string f.path)
    else none := by
  rw [json, member?_sortedObject]
  cases f.description with
  | none =>
    by_cases description : name = "description" <;> simp [lookup_cons_entry, description]
  | some text => simp [lookup_cons_entry]

lemma Field.json_injective : Function.Injective Field.json := by
  intro f g same
  have member (name : String) : f.json.member? name = g.json.member? name :=
    congrArg (Json.member? name) same
  simp only [Field.member?_json] at member
  have path : f.path = g.path := by simpa using member "fieldPath"
  have nullable : f.nullable = g.nullable := by simpa using member "nullable"
  have typeClass : f.typeClass = g.typeClass := by
    simpa [TypeClass.fullName_injective.eq_iff] using member "type"
  have nativeType : f.nativeType = g.nativeType := by simpa using member "nativeDataType"
  have description : f.description = g.description :=
    Option.map_injective (fun _ _ => Json.string.inj) (by simpa using member "description")
  cases f
  cases g
  simp_all

lemma SchemaAspect.json_injective : Function.Injective SchemaAspect.json := by
  intro s t same
  have member (name : String) : s.json.member? name = t.json.member? name :=
    congrArg (Json.member? name) same
  simp only [SchemaAspect.json, member?_sortedObject] at member
  have schemaName : s.schemaName = t.schemaName := by
    simpa [lookup_cons_entry] using member "schemaName"
  have platform : s.platform = t.platform := by
    simpa [lookup_cons_entry, Urn.text_injective.eq_iff] using member "platform"
  have hash : s.hash = t.hash := by simpa [lookup_cons_entry] using member "hash"
  have rawSchema : s.rawSchema = t.rawSchema := by
    simpa [lookup_cons_entry] using member "platformSchema"
  have fields : s.fields = t.fields := by
    simpa [lookup_cons_entry, (List.map_injective_iff.mpr Field.json_injective).eq_iff]
      using member "fields"
  cases s
  cases t
  simp_all

lemma PropertiesPatch.propertyPath_injective : Function.Injective PropertiesPatch.propertyPath := by
  intro key key' same
  have read := PropertiesPatch.read?_propertyPath key
  rw [same, PropertiesPatch.read?_propertyPath key'] at read
  simpa using read.symm

lemma AddOperation.json_injective : Function.Injective AddOperation.json := by
  intro o o' same
  have member (name : String) : o.json.member? name = o'.json.member? name :=
    congrArg (Json.member? name) same
  simp only [AddOperation.member?_json] at member
  have path : o.path = o'.path := by simpa using member "path"
  have value : o.value = o'.value := by simpa using member "value"
  cases o
  cases o'
  simp_all

/-- The operations of a patch name all that it asserts. -/
lemma PropertiesPatch.operations_injective : Function.Injective PropertiesPatch.operations := by
  rintro p q same
  have asserted (o : AddOperation) : o ∈ p.operations ↔ o ∈ q.operations := by rw [same]
  simp only [mem_operations] at asserted
  have apart (key : String) : propertyPath key ≠ "/name" := by
    intro clash
    have read := read?_propertyPath key
    rw [clash, read?_namePath] at read
    simp at read
  have names : p.name = q.name := by
    refine Option.ext fun name => ?_
    simpa [(apart _).symm] using asserted ⟨"/name", name⟩
  have properties : p.properties = q.properties := by
    refine Dictionary.ext_get? fun key => Option.ext fun value => ?_
    simpa [apart, propertyPath_injective.eq_iff] using asserted ⟨propertyPath key, value⟩
  cases p
  cases q
  simp_all

/-- The name of an aspect and its value leave no choice. -/
lemma Aspect.eq_of_wireValue {a b : Aspect} (name : a.name = b.name)
    (value : a.wireValue = b.wireValue) : a = b := by
  cases a <;> cases b
  -- Aspects of different kinds have different names.
  all_goals try (simp [Aspect.name] at name; done)
  case status.status => simpa [wireValue, document] using value
  case subTypes.subTypes => simpa [wireValue, document, ofStrings_injective.eq_iff] using value
  case containerProperties.containerProperties => simpa [wireValue, document] using value
  case container.container =>
    simpa [wireValue, document, Urn.text_injective.eq_iff] using value
  case browsePath.browsePath =>
    simpa [wireValue, document, (List.map_injective_iff.mpr BrowseStep.json_injective).eq_iff]
      using value
  case domains.domains =>
    simpa [wireValue, document, ofStrings_injective.eq_iff,
      (List.map_injective_iff.mpr Urn.text_injective).eq_iff] using value
  case schema.schema => exact congrArg Aspect.schema (SchemaAspect.json_injective value)
  case properties.properties p q =>
    have operations := List.map_injective_iff.mpr AddOperation.json_injective (Json.array.inj value)
    exact congrArg Aspect.properties (PropertiesPatch.operations_injective operations)

lemma EntityKind.name_injective : Function.Injective EntityKind.name := by
  intro k l same
  cases k <;> cases l <;> first | rfl | exact absurd same (by decide)

lemma Aspect.changeType_name (a : Aspect) :
    a.changeType.name = "PATCH" ↔ ∃ patch, a = .properties patch := by
  cases a <;> simp [changeType, ChangeType.name]

namespace Proposal

lemma fits_requestJson (depth : Nat) (p : Proposal) : Fits (depth + 3) p.requestJson := by
  simp [requestJson, Fits]

lemma parse?_requestBody (p : Proposal) :
    Json.parse? p.requestBody = some (ordered p.requestJson) :=
  parse?_compact (p.fits_requestJson 124)

/-- The text for the value of an aspect is read as that value. -/
lemma parse?_wireValue (p : Proposal) :
    Json.parse? p.aspect.wireValue.compact = some p.aspect.wireValue :=
  (p.aspect.settled_wireValue 121).parse?_compact

/-- The members of the body as they are read. -/
lemma members_requestBody (p : Proposal) : ∃ body proposal aspect : Json,
    Json.parse? p.requestBody = some body ∧
    body.member? "proposal" = some proposal ∧
    proposal.member? "entityType" = some (.string p.kind.name) ∧
    proposal.member? "entityUrn" = some (.string p.entity.text) ∧
    proposal.member? "changeType" = some (.string p.changeType.name) ∧
    proposal.member? "aspectName" = some (.string p.aspect.name) ∧
    proposal.member? "aspect" = some aspect ∧
    aspect.member? "value" = some (.string p.aspect.wireValue.compact) ∧
    aspect.member? "contentType" = some (.string p.contentType) := by
  let aspect : Json := .sortedObject
    [("value", .string p.aspect.wireValue.compact), ("contentType", .string p.contentType)]
  let proposal : Json := .sortedObject
    [("entityType", .string p.kind.name), ("entityUrn", .string p.entity.text),
      ("changeType", .string p.changeType.name), ("aspectName", .string p.aspect.name),
      ("aspect", aspect)]
  refine ⟨.sortedObject [("proposal", proposal)], proposal, aspect, p.parse?_requestBody, ?_⟩
  simp [aspect, proposal, member?_sortedObject, lookup_cons_entry]

lemma requestBody_injective : Function.Injective requestBody := by
  intro p q same
  obtain ⟨_, proposal, aspect, body, hp, kind, entity, -, name, ha, value, -⟩ :=
    p.members_requestBody
  obtain ⟨_, proposal', aspect', body', hp', kind', entity', -, name', ha', value', -⟩ :=
    q.members_requestBody
  rw [same, body', Option.some.injEq] at body
  subst body
  rw [hp', Option.some.injEq] at hp
  subst hp
  rw [ha', Option.some.injEq] at ha
  subst ha
  have sameKind : p.kind = q.kind :=
    EntityKind.name_injective (by simpa using kind.symm.trans kind')
  have sameEntity : p.entity = q.entity :=
    Urn.text_injective (by simpa using entity.symm.trans entity')
  have sameAspect : p.aspect = q.aspect := by
    refine Aspect.eq_of_wireValue (by simpa using name.symm.trans name') ?_
    have texts : p.aspect.wireValue.compact = q.aspect.wireValue.compact := by
      simpa using value.symm.trans value'
    exact Option.some.inj (p.parse?_wireValue.symm.trans (texts ▸ q.parse?_wireValue))
  cases p
  cases q
  simp_all

lemma contentType_eq_iff (p : Proposal) :
    p.contentType = "application/json-patch+json" ↔ p.changeType.name = "PATCH" := by
  cases h : p.changeType <;> simp [contentType, isPatch, h, ChangeType.name]

end Proposal

/-- The body of the request for a proposal is JSON that names the entity, the kind of change and the
aspect, and holds the value of the aspect as text that is again JSON. The content type is that of a
patch exactly for the properties. No other proposal has the same body. -/
theorem requestBody_loses_nothing (p : Proposal) :
    (∃ (body proposal aspect : Json) (value contentType : String),
      Json.parse? p.requestBody = some body ∧
      body.member? "proposal" = some proposal ∧
      proposal.member? "entityType" = some (.string p.kind.name) ∧
      proposal.member? "entityUrn" = some (.string p.entity.text) ∧
      proposal.member? "changeType" = some (.string p.changeType.name) ∧
      proposal.member? "aspectName" = some (.string p.aspect.name) ∧
      proposal.member? "aspect" = some aspect ∧
      aspect.member? "value" = some (.string value) ∧
      Json.parse? value = some p.aspect.wireValue ∧
      aspect.member? "contentType" = some (.string contentType) ∧
      (contentType = "application/json-patch+json" ↔ p.changeType.name = "PATCH") ∧
      (p.changeType.name = "PATCH" ↔ ∃ patch, p.aspect = .properties patch)) ∧
    ∀ q : Proposal, q.requestBody = p.requestBody ↔ q = p := by
  obtain ⟨body, proposal, aspect, read, member, kind, entity, change, name, part, value, type⟩ :=
    p.members_requestBody
  refine ⟨⟨body, proposal, aspect, _, _, read, member, kind, entity, change, name, part, value,
    p.parse?_wireValue, type, p.contentType_eq_iff, p.aspect.changeType_name⟩, fun q => ?_⟩
  exact Proposal.requestBody_injective.eq_iff

end LakeCatalog.Catalog
