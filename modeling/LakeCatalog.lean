import LakeCatalog.Avro.Place
import LakeCatalog.Avro.Reader
import LakeCatalog.Avro.Scope
import LakeCatalog.Binary64
import LakeCatalog.Catalog.Exchange
import LakeCatalog.Catalog.Field
import LakeCatalog.Catalog.Proposal
import LakeCatalog.Catalog.Store
import LakeCatalog.Dictionary
import LakeCatalog.Digest
import LakeCatalog.Duration
import LakeCatalog.Emission.Batch
import LakeCatalog.Emission.Flight
import LakeCatalog.Emission.Tasks
import LakeCatalog.Emission.Transport
import LakeCatalog.Fault
import LakeCatalog.Json.Basic
import LakeCatalog.Json.Patch
import LakeCatalog.Json.Scalar
import LakeCatalog.Json.Text
import LakeCatalog.KeyValues
import LakeCatalog.Proofs.Avro.MetadataColumns
import LakeCatalog.Proofs.Avro.Nullability
import LakeCatalog.Proofs.Avro.ObjectSpelling
import LakeCatalog.Proofs.Avro.QualifiedReference
import LakeCatalog.Proofs.Avro.ReadAlike
import LakeCatalog.Proofs.Avro.Reading
import LakeCatalog.Proofs.Avro.Reference
import LakeCatalog.Proofs.Avro.Replacement
import LakeCatalog.Proofs.Avro.Scope
import LakeCatalog.Proofs.Avro.WholeType
import LakeCatalog.Proofs.Catalog.DomainAttachment
import LakeCatalog.Proofs.Catalog.FieldPaths
import LakeCatalog.Proofs.Catalog.Listing
import LakeCatalog.Proofs.Catalog.NestedColumns
import LakeCatalog.Proofs.Catalog.PropertiesPatch
import LakeCatalog.Proofs.Catalog.Request
import LakeCatalog.Proofs.Catalog.SchemaBatch
import LakeCatalog.Proofs.Catalog.Server
import LakeCatalog.Proofs.Catalog.Store
import LakeCatalog.Proofs.Emission.Accounting
import LakeCatalog.Proofs.Emission.Arrival
import LakeCatalog.Proofs.Emission.Channel
import LakeCatalog.Proofs.Emission.CloseAnswer
import LakeCatalog.Proofs.Emission.Course
import LakeCatalog.Proofs.Emission.Ledger
import LakeCatalog.Proofs.Emission.Outcomes
import LakeCatalog.Proofs.Emission.Overlap
import LakeCatalog.Proofs.Emission.Submission
import LakeCatalog.Proofs.Emission.Tasks
import LakeCatalog.Proofs.Json.RoundTrip
import LakeCatalog.Proofs.Json.Scalar
import LakeCatalog.Proofs.KeyValues
import LakeCatalog.Proofs.PropertiesFile
import LakeCatalog.Proofs.PropertiesFile.Escapes
import LakeCatalog.Proofs.PropertiesFile.Layout
import LakeCatalog.Proofs.Schema.Difference
import LakeCatalog.Proofs.Service.Body
import LakeCatalog.Proofs.Service.Channels
import LakeCatalog.Proofs.Service.Lines
import LakeCatalog.Proofs.Service.PassOver
import LakeCatalog.Proofs.Service.PropertiesUpdate
import LakeCatalog.Proofs.Service.PropertyKeys
import LakeCatalog.Proofs.Service.Proposing
import LakeCatalog.Proofs.Service.Turns
import LakeCatalog.Proofs.Settings
import LakeCatalog.Proofs.SharedContainer
import LakeCatalog.Proofs.SharedDataset
import LakeCatalog.Proofs.Spark.Arrangement
import LakeCatalog.Proofs.Spark.Reader
import LakeCatalog.Proofs.Spark.Recorded
import LakeCatalog.Proofs.Sync.Bounds
import LakeCatalog.Proofs.Sync.Emissions
import LakeCatalog.Proofs.Sync.Faults
import LakeCatalog.Proofs.Sync.Marker
import LakeCatalog.Proofs.Sync.PartitionColumns
import LakeCatalog.Proofs.Sync.Report
import LakeCatalog.Proofs.Sync.Sequencing
import LakeCatalog.Proofs.Sync.TableCourse
import LakeCatalog.Proofs.Sync.TableSync
import LakeCatalog.Proofs.Table.DerivedProperties
import LakeCatalog.Proofs.Table.LastCommit
import LakeCatalog.Proofs.Table.Precedence
import LakeCatalog.Proofs.Table.PropertyKeys
import LakeCatalog.Proofs.TableIdentity
import LakeCatalog.Proofs.Url.AsciiDomain
import LakeCatalog.Proofs.Url.Host
import LakeCatalog.Proofs.Url.IpAddress
import LakeCatalog.Proofs.Url.Parts
import LakeCatalog.Proofs.Url.Percent
import LakeCatalog.Proofs.Url.Reader
import LakeCatalog.Proofs.Urn
import LakeCatalog.PropertiesFile
import LakeCatalog.PropertiesFile.Syntax
import LakeCatalog.Schema
import LakeCatalog.Service.Body
import LakeCatalog.Service.BodyText
import LakeCatalog.Service.Reply
import LakeCatalog.Service.Request
import LakeCatalog.Service.Schedule
import LakeCatalog.Settings
import LakeCatalog.Spark.Properties
import LakeCatalog.Spark.Reader
import LakeCatalog.Sync.Client
import LakeCatalog.Sync.Plan
import LakeCatalog.Sync.Run
import LakeCatalog.Table.Basic
import LakeCatalog.Table.DerivedProperties
import LakeCatalog.Table.Reader
import LakeCatalog.TableIdentity
import LakeCatalog.Text.Blank
import LakeCatalog.Text.Numeral
import LakeCatalog.Text.Pieces
import LakeCatalog.Text.Uppercase
import LakeCatalog.Url.Host
import LakeCatalog.Url.Punycode
import LakeCatalog.Url.Reader
