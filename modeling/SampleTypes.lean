import SampleTypes.CheckedGeneration
import SampleTypes.CommandLine.Arguments
import SampleTypes.CommandLine.Binding
import SampleTypes.CommandLine.Command
import SampleTypes.CommandLine.Session
import SampleTypes.Conversion
import SampleTypes.Digest.Sha256
import SampleTypes.Entries
import SampleTypes.Generation
import SampleTypes.Graph.Basic
import SampleTypes.Graph.Naming
import SampleTypes.Graph.Validation
import SampleTypes.Json.Fault
import SampleTypes.Json.Lexer
import SampleTypes.Json.Reader
import SampleTypes.Json.Token
import SampleTypes.Json.Writer
import SampleTypes.Main
import SampleTypes.Number.Binary64
import SampleTypes.Number.Decimal
import SampleTypes.Proofs.AcceptedNames
import SampleTypes.Proofs.CheckedGeneration
import SampleTypes.Proofs.CommandLine.Options
import SampleTypes.Proofs.CommandLine.Outputs
import SampleTypes.Proofs.Conversion
import SampleTypes.Proofs.Coverage
import SampleTypes.Proofs.Declarations
import SampleTypes.Proofs.Entries
import SampleTypes.Proofs.FirstOccurrences
import SampleTypes.Proofs.Generation
import SampleTypes.Proofs.Graph.Conforms
import SampleTypes.Proofs.Graph.Deduplication
import SampleTypes.Proofs.Graph.DiscoveryOrder
import SampleTypes.Proofs.Graph.Expansion
import SampleTypes.Proofs.Graph.FreeNames
import SampleTypes.Proofs.Graph.GivenNames
import SampleTypes.Proofs.Graph.LegalNames
import SampleTypes.Proofs.Graph.MergedInstances
import SampleTypes.Proofs.Graph.MismatchLocations
import SampleTypes.Proofs.Graph.Named
import SampleTypes.Proofs.Graph.NamedInstances
import SampleTypes.Proofs.Graph.NamedObjects
import SampleTypes.Proofs.Graph.NamesInTurn
import SampleTypes.Proofs.Graph.Naming
import SampleTypes.Proofs.Graph.NamingOrder
import SampleTypes.Proofs.Graph.NestedCalls
import SampleTypes.Proofs.Graph.PlainNames
import SampleTypes.Proofs.Graph.Rebuilding
import SampleTypes.Proofs.Graph.References
import SampleTypes.Proofs.Graph.Walk
import SampleTypes.Proofs.Json.Documents
import SampleTypes.Proofs.Json.LongIntegers
import SampleTypes.Proofs.Json.Quoting
import SampleTypes.Proofs.Json.Spacing
import SampleTypes.Proofs.Number.ExactValues
import SampleTypes.Proofs.RewrittenNumbers
import SampleTypes.Proofs.Runs
import SampleTypes.Proofs.Samples.Append
import SampleTypes.Proofs.Samples.Inference
import SampleTypes.Proofs.Samples.JsonLines
import SampleTypes.Proofs.Samples.LineNumbers
import SampleTypes.Proofs.Samples.Members
import SampleTypes.Proofs.Samples.Novelty
import SampleTypes.Proofs.Samples.Observed
import SampleTypes.Proofs.Samples.Offences
import SampleTypes.Proofs.Samples.Produced
import SampleTypes.Proofs.Samples.Rearranged
import SampleTypes.Proofs.Shape.Arrangement
import SampleTypes.Proofs.Shape.CanonicalText
import SampleTypes.Proofs.Shape.CanonicalUnions
import SampleTypes.Proofs.Shape.CheckedMerge
import SampleTypes.Proofs.Shape.Encoding
import SampleTypes.Proofs.Shape.Equality
import SampleTypes.Proofs.Shape.FieldNulls
import SampleTypes.Proofs.Shape.Key
import SampleTypes.Proofs.Shape.Merge
import SampleTypes.Proofs.Shape.MergeFields
import SampleTypes.Proofs.Shape.MergeLaws
import SampleTypes.Proofs.Shape.MergeOrder
import SampleTypes.Proofs.Shape.Objects
import SampleTypes.Proofs.Shape.Tidying
import SampleTypes.Proofs.Shape.Unions
import SampleTypes.Proofs.Shape.WellFormed
import SampleTypes.Proofs.Source.Fetching
import SampleTypes.Proofs.Source.FileTree
import SampleTypes.Proofs.Source.Loading
import SampleTypes.Proofs.Source.NamedFiles
import SampleTypes.Proofs.Source.NewFiles
import SampleTypes.Proofs.Source.SpareFiles
import SampleTypes.Proofs.Text.Blocks
import SampleTypes.Proofs.Text.Lines
import SampleTypes.Proofs.Text.Trimming
import SampleTypes.Proofs.Text.Utf8
import SampleTypes.Proofs.TypeScript.CarriageReturns
import SampleTypes.Proofs.TypeScript.DanglingReferences
import SampleTypes.Proofs.TypeScript.FileReading
import SampleTypes.Proofs.TypeScript.PropertyKeys
import SampleTypes.Proofs.TypeScript.Rendering
import SampleTypes.Proofs.TypeScript.TypeGrammar
import SampleTypes.Proofs.TypeScript.TypeReading
import SampleTypes.Proofs.TypeScript.UnionMembers
import SampleTypes.Proofs.Value
import SampleTypes.Samples
import SampleTypes.Shape.Basic
import SampleTypes.Shape.Canonical
import SampleTypes.Shape.CheckedMerge
import SampleTypes.Shape.Inference
import SampleTypes.Shape.Merge
import SampleTypes.Shape.Union
import SampleTypes.Sorting
import SampleTypes.Source.Fetch
import SampleTypes.Source.FileTree
import SampleTypes.Source.Path
import SampleTypes.Source.Url
import SampleTypes.Text.Blank
import SampleTypes.Text.Digits
import SampleTypes.Text.Hex
import SampleTypes.Text.Lines
import SampleTypes.Text.Printable
import SampleTypes.Text.Quoted
import SampleTypes.Text.Ranges
import SampleTypes.Text.Utf8
import SampleTypes.TypeName
import SampleTypes.TypeScript.Declaration
import SampleTypes.TypeScript.Expression
import SampleTypes.TypeScript.Property
import SampleTypes.Value
