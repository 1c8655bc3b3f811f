import SchemaInfer.Avro.Document
import SchemaInfer.Avro.Import
import SchemaInfer.Avro.Model
import SchemaInfer.Binary64.Basic
import SchemaInfer.Binary64.Decimal
import SchemaInfer.Command.Basic
import SchemaInfer.Command.Options
import SchemaInfer.Command.Run
import SchemaInfer.Conformance.Case
import SchemaInfer.Conformance.NameFilter
import SchemaInfer.Conformance.Run
import SchemaInfer.Entries
import SchemaInfer.Expr.Basic
import SchemaInfer.Expr.Document
import SchemaInfer.Files.Disk
import SchemaInfer.Files.Glob
import SchemaInfer.Files.Host
import SchemaInfer.Files.Name
import SchemaInfer.Json.Basic
import SchemaInfer.Json.Parser
import SchemaInfer.Json.Pointer
import SchemaInfer.Json.Printer
import SchemaInfer.Json.Record
import SchemaInfer.Json.Written
import SchemaInfer.JsonSchema.Export
import SchemaInfer.JsonSchema.Import
import SchemaInfer.Library.Basic
import SchemaInfer.Library.Standard
import SchemaInfer.Main
import SchemaInfer.Path
import SchemaInfer.Proofs.ArgumentSoundness
import SchemaInfer.Proofs.Calls
import SchemaInfer.Proofs.ClosedInference
import SchemaInfer.Proofs.CollectionCalls
import SchemaInfer.Proofs.ConcreteParameters
import SchemaInfer.Proofs.Differences
import SchemaInfer.Proofs.Entries
import SchemaInfer.Proofs.Equality
import SchemaInfer.Proofs.ExpectedSchemas
import SchemaInfer.Proofs.ImportedTypes
import SchemaInfer.Proofs.InferenceInvariant
import SchemaInfer.Proofs.JoinLeastUpperBound
import SchemaInfer.Proofs.JsonEquality
import SchemaInfer.Proofs.JsonSchemaEquivalence
import SchemaInfer.Proofs.JsonSchemaExport
import SchemaInfer.Proofs.JsonSchemaImport
import SchemaInfer.Proofs.JsonSchemaRoundTrip
import SchemaInfer.Proofs.JsonSchemaStability
import SchemaInfer.Proofs.JsonSchemaTypes
import SchemaInfer.Proofs.JsonSchemaValidity
import SchemaInfer.Proofs.LambdaSoundness
import SchemaInfer.Proofs.Matching
import SchemaInfer.Proofs.Outcomes
import SchemaInfer.Proofs.PathText
import SchemaInfer.Proofs.ReorderedSchemas
import SchemaInfer.Proofs.Substitution
import SchemaInfer.Proofs.SubtypePreorder
import SchemaInfer.Proofs.SubtypeSubstitution
import SchemaInfer.Proofs.SubtypeValues
import SchemaInfer.Proofs.Unions
import SchemaInfer.Proofs.UnusedBindings
import SchemaInfer.Proofs.Values
import SchemaInfer.Proofs.WellFormed
import SchemaInfer.Proofs.XsdContent
import SchemaInfer.Proofs.XsdOccurrences
import SchemaInfer.Schema.Dialect
import SchemaInfer.Schema.Difference
import SchemaInfer.Schema.Document
import SchemaInfer.Schema.Error
import SchemaInfer.Schema.Expansion
import SchemaInfer.Schema.Format
import SchemaInfer.Schema.Source
import SchemaInfer.Scope
import SchemaInfer.Text.CharClass
import SchemaInfer.Text.Split
import SchemaInfer.Ty.Basic
import SchemaInfer.Ty.Substitution
import SchemaInfer.Ty.Subtype
import SchemaInfer.Ty.Text
import SchemaInfer.Typing.Error
import SchemaInfer.Typing.Infer
import SchemaInfer.Typing.Match
import SchemaInfer.Xml
import SchemaInfer.Xsd.Document
import SchemaInfer.Xsd.Export
import SchemaInfer.Xsd.Import
import SchemaInfer.Xsd.Model
import SchemaInfer.Xsd.Naming
import SchemaInfer.Proofs.PathComposition
import SchemaInfer.Proofs.ConversionPlan
import SchemaInfer.Proofs.Definitions
import SchemaInfer.Proofs.ReferenceExpansion
import SchemaInfer.Proofs.AvroReferences
import SchemaInfer.Proofs.XmlMarkup
import SchemaInfer.Proofs.XsdDeclarations
import SchemaInfer.Proofs.Exportability
import SchemaInfer.Proofs.XsdExpansion
import SchemaInfer.Proofs.RecordReading
import SchemaInfer.Proofs.ExprDocuments
import SchemaInfer.Proofs.XsdDocuments
import SchemaInfer.Proofs.DifferencePlaces
import SchemaInfer.Proofs.XmlInjective
import SchemaInfer.Proofs.XsdShownTypes
import SchemaInfer.Proofs.XsdWrittenTypes
import SchemaInfer.Proofs.XsdShownEquivalence
import SchemaInfer.Proofs.DifferenceSymmetry
import SchemaInfer.Proofs.EqualityCongruence
import SchemaInfer.Proofs.ErrorLocations
import SchemaInfer.Proofs.SharedVariable
import SchemaInfer.Proofs.PathValues
import SchemaInfer.Proofs.IndexNotations
import SchemaInfer.Proofs.AllOfPooling
import SchemaInfer.Proofs.XsdElements
import SchemaInfer.Proofs.Nullability
import SchemaInfer.Proofs.Refinement
import SchemaInfer.Proofs.GroundTypes
import SchemaInfer.Proofs.TypeText
import SchemaInfer.Proofs.Plans
