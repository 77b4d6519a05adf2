import LakeCatalog.Catalog.Field
import LakeCatalog.Dictionary
import LakeCatalog.Digest
import LakeCatalog.Json.Basic
import LakeCatalog.Settings
import LakeCatalog.TableIdentity
import LakeCatalog.Text.Pieces

/-!
# The proposals of a table

A patch asserts some custom properties of a dataset, and its display name if one is given, and
leaves everything else as it is. It is sent as a list of operations that add one member each; the
member is addressed by a pointer in which `~` and `/` within a name are escaped, `~` first, so that
different names have different pointers.

What the catalog keeps about the schema of a dataset: the flat list of its fields, the definition
as it was read, and a digest of that definition.

What the catalog knows about an entity comes in aspects, each with a name and a value. Every aspect
replaces the value that the catalog has under its name, except the properties of a dataset, which
are patched.

A proposal asks the catalog for one change of one aspect of one entity.

The proposals by which a table is published: those about the container of its database first, then
those about its dataset. Properties are published by a single patch. Building them reads and writes
nothing.
-/

namespace LakeCatalog.Catalog

open Schema

/-- The properties and the name that are asserted of a dataset. -/
structure PropertiesPatch where
  name : Option String
  properties : Dictionary String
  deriving DecidableEq

structure AddOperation where
  path : String
  value : String
  deriving DecidableEq

namespace AddOperation

def json (o : AddOperation) : Json :=
  .sortedObject [("op", .string "add"), ("path", .string o.path), ("value", .string o.value)]

end AddOperation

namespace PropertiesPatch

/-- A name inside a pointer. -/
def escapeToken (token : List Char) : List Char :=
  Text.substitute '/' ['~', '1'] (Text.substitute '~' ['~', '0'] token)

def propertyPath (key : String) : String :=
  "/customProperties/" ++ String.ofList (escapeToken key.toList)

/-- The operations of a patch: the properties in ascending order of their keys, then the name. -/
def operations (p : PropertiesPatch) : List AddOperation :=
  p.properties.entries.map (fun e => ⟨propertyPath e.1, e.2⟩) ++
    p.name.toList.map fun name => ⟨"/name", name⟩

def json (p : PropertiesPatch) : Json :=
  .sortedObject
    [("name", (p.name.map Json.string).getD .null),
      ("customProperties", .ofDictionary p.properties)]

end PropertiesPatch

structure SchemaAspect where
  schemaName : String
  platform : Urn
  hash : String
  rawSchema : String
  fields : List Field
  deriving DecidableEq

namespace SchemaAspect

/-- The schema of a table; the fields are in the order of its columns. -/
def ofTable (schema : TableSchema) (platform : Urn) (schemaName : String) : SchemaAspect where
  schemaName
  platform
  hash := Digest.sha256Hex schema.raw
  rawSchema := schema.raw
  fields := Field.ofColumns none schema.columns

/-- The same schema with the fields whose paths begin with a text at the end. -/
def reordered (s : SchemaAspect) (start : String) : SchemaAspect :=
  { s with fields := Field.reorder start s.fields }

def json (s : SchemaAspect) : Json :=
  .sortedObject
    [("schemaName", .string s.schemaName), ("platform", .string s.platform.text),
      ("version", .ofNat 0), ("hash", .string s.hash),
      ("platformSchema", .object [("com.linkedin.schema.OtherSchema",
        .object [("rawSchema", .string s.rawSchema)])]),
      ("fields", .array (s.fields.map Field.json))]

end SchemaAspect

/-- A step of the path under which an entity is found. -/
structure BrowseStep where
  id : String
  urn : Option Urn
  deriving DecidableEq

/-- An aspect with its value. -/
inductive Aspect where
  | status (removed : Bool)
  | subTypes (names : List String)
  | containerProperties (name : String)
  | container (urn : Urn)
  | browsePath (path : List BrowseStep)
  | domains (urns : List Urn)
  | schema (schema : SchemaAspect)
  | properties (patch : PropertiesPatch)
  deriving DecidableEq

/-- How the catalog applies an aspect. -/
inductive ChangeType where
  | upsert
  | patch
  deriving DecidableEq, Inhabited

def ChangeType.name : ChangeType → String
  | .upsert => "UPSERT"
  | .patch => "PATCH"

namespace BrowseStep

def json (s : BrowseStep) : Json :=
  .object (("id", .string s.id) :: match s.urn with
    | some urn => [("urn", .string urn.text)]
    | none => [])

end BrowseStep

namespace Aspect

/-- The name under which the catalog keeps an aspect. -/
def name : Aspect → String
  | .status _ => "status"
  | .subTypes _ => "subTypes"
  | .containerProperties _ => "containerProperties"
  | .container _ => "container"
  | .browsePath _ => "browsePathsV2"
  | .domains _ => "domains"
  | .schema _ => "schemaMetadata"
  | .properties _ => "datasetProperties"

/-- How an aspect is applied. -/
def changeType : Aspect → ChangeType
  | .properties _ => .patch
  | _ => .upsert

/-- The value of an aspect as a document. -/
def document : Aspect → Json
  | .status removed => .object [("removed", .bool removed)]
  | .subTypes names => .object [("typeNames", .ofStrings names)]
  | .containerProperties name => .object [("name", .string name)]
  | .container urn => .object [("container", .string urn.text)]
  | .browsePath path => .object [("path", .array (path.map BrowseStep.json))]
  | .domains urns => .object [("domains", .ofStrings (urns.map Urn.text))]
  | .schema s => s.json
  | .properties patch => patch.json

/-- The value that is sent: the document, or the operations of a patch. -/
def wireValue : Aspect → Json
  | .properties patch => .array (patch.operations.map AddOperation.json)
  | aspect => aspect.document

end Aspect

inductive EntityKind where
  | dataset
  | container
  deriving DecidableEq, Inhabited

def EntityKind.name : EntityKind → String
  | .dataset => "dataset"
  | .container => "container"

structure Proposal where
  kind : EntityKind
  entity : Urn
  aspect : Aspect
  deriving DecidableEq

namespace Proposal

def changeType (p : Proposal) : ChangeType := p.aspect.changeType

/-- The change adds to what the catalog has. -/
def isPatch (p : Proposal) : Bool := p.changeType == .patch

/-- The proposal in one line. -/
def display (p : Proposal) : String :=
  p.kind.name ++ ":" ++ p.aspect.name ++ " on " ++ p.entity.text

def json (p : Proposal) : Json :=
  .sortedObject [("entityUrn", .string p.entity.text), ("entityKind", .string p.kind.name),
    ("aspect", p.aspect.document)]

end Proposal

/-- What the proposals of a table are made from, apart from its schema and properties. -/
structure Publisher where
  identity : TableIdentity
  domain : Option Urn
  undoSoftDelete : Bool
  metadataStart : String

namespace Publisher

def ofSettings (s : SyncSettings) (identity : TableIdentity) : Publisher where
  identity
  domain := s.domainUrn
  undoSoftDelete := s.undoSoftDelete
  metadataStart := s.metadataStart

/-- The aspect that brings a deleted entity back, if that is wanted. -/
def statusAspects (p : Publisher) : List Aspect :=
  if p.undoSoftDelete then [.status false] else []

/-- The aspect that attaches the domain, if there is one. -/
def domainAspects (p : Publisher) : List Aspect :=
  p.domain.toList.map fun urn => .domains [urn]

/-- The schema of the dataset, with the metadata columns at the end. -/
def schemaAspect (p : Publisher) (schema : TableSchema) : SchemaAspect :=
  (SchemaAspect.ofTable schema p.identity.platform p.identity.qualifiedName).reordered
    p.metadataStart

def containerAspects (p : Publisher) : List Aspect :=
  [.containerProperties p.identity.database, .subTypes ["Database"], .browsePath []] ++
    p.statusAspects ++ p.domainAspects

/-- The aspects of the dataset that come with its schema. -/
def datasetAspects (p : Publisher) (schema : TableSchema) : List Aspect :=
  p.statusAspects ++
    [.subTypes ["Table"], .browsePath [⟨p.identity.database, some p.identity.container⟩],
      .container p.identity.container, .schema (p.schemaAspect schema)] ++
    p.domainAspects

def containerProposals (p : Publisher) : List Proposal :=
  p.containerAspects.map (⟨.container, p.identity.container, ·⟩)

/-- The proposals about the dataset that come with its schema. -/
def datasetProposals (p : Publisher) (schema : TableSchema) : List Proposal :=
  (p.datasetAspects schema).map (⟨.dataset, p.identity.dataset, ·⟩)

def schemaProposals (p : Publisher) (schema : TableSchema) : List Proposal :=
  p.containerProposals ++ p.datasetProposals schema

/-- The proposal that asserts properties, and a display name if one is given. -/
def propertiesProposal (p : Publisher) (name : Option String) (properties : Dictionary String) :
    Proposal :=
  ⟨.dataset, p.identity.dataset, .properties ⟨name, properties⟩⟩

end Publisher

end LakeCatalog.Catalog
