import RootCause.Library.Formula
import RootCause.Library.Hash
import RootCause.Library.Ascent
import RootCause.Library.Chain
import RootCause.FactModel.Trace
import RootCause.Dsl.Compile
import RootCause.Dsl.Required
import RootCause.Matcher.Facts
import RootCause.Matcher.Sequence
import RootCause.Matcher.Ancestors
import RootCause.Matcher.Completeness
import RootCause.Matcher.Guarantees
import RootCause.Ingestion.Build
import RootCause.Grounding.Agreement
import RootCause.Grounding.Contradiction
import RootCause.Dsl.Meaning
import RootCause.Matcher.Bounds
import RootCause.Dsl.Expects
import RootCause.Dsl.Numbers
import RootCause.Cli.Analyze
import RootCause.Cli.Patterns
import RootCause.FactModel.History
import RootCause.Ingestion.Hex
import RootCause.Ingestion.Normalize
import RootCause.Ingestion.Walk
import RootCause.Ingestion.Sufficient
import RootCause.Ingestion.Ownership
import RootCause.Dsl.Accounted
import RootCause.Dsl.Spelling
import RootCause.Dsl.Texts
import RootCause.Cli.Format
import RootCause.Dsl.Spans
import RootCause.Cli.FormatPattern
import RootCause.Matcher.Literals
import RootCause.Matcher.Exact
import RootCause.Library.Stable
import RootCause.Matcher.Occurrences
import RootCause.Matcher.Reproducible
import RootCause.Grounding.Reproducible
import RootCause.Grounding.Status
import RootCause.Benchmark.Errors
import RootCause.Benchmark.Runner
import RootCause.Library.Tally
import RootCause.Benchmark.Expectations
import RootCause.Benchmark.Metrics
import RootCause.Benchmark.Families
import RootCause.Grounding.Identity
import RootCause.Grounding.Partition
import RootCause.FactModel.NetValue
import RootCause.FactModel.Depths
import RootCause.Ingestion.Transfers
import RootCause.Dsl.Language
import RootCause.Matcher.Decoded
import RootCause.Dsl.Layout
import RootCause.Dsl.Alphabet
import RootCause.Dsl.Termination
import RootCause.Library.Traversal
import RootCause.Benchmark.Csv
import RootCause.Converters.Geth
import RootCause.Benchmark.Totals
import RootCause.Ingestion.Decoders
import RootCause.Ingestion.Numbers
import RootCause.Ingestion.CallTree
import RootCause.Cli.Refusals
import RootCause.Library.OrderedMap
import RootCause.Taxonomy.Registry
import RootCause.Taxonomy.Mapping
import RootCause.Dsl.Locations
import RootCause.Dsl.Marked
import RootCause.Cli.Doctor
import RootCause.Cli.Canonical
import RootCause.Dsl.Valid
import RootCause.FactModel.Conservation
import RootCause.Converters.Ingested
import RootCause.Ingestion.Accepted
import RootCause.Cli.NewPattern
import RootCause.Cli.ValidatePattern
import RootCause.Benchmark.Analyzed
import RootCause.Benchmark.Fixtures
import RootCause.Grounding.Confidence
import RootCause.Cli.Report
import RootCause.Dsl.WrittenNumbers
