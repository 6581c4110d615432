import Gherkin.Bench
import Gherkin.Expansion
import Gherkin.Parse
import Gherkin.Render
import Gherkin.Review
import Gherkin.Schema
import Gherkin.Settings.Discovery
import Gherkin.Number.Numeral
import Gherkin.Proofs.Shape
import Gherkin.Proofs.Reading
import Gherkin.Proofs.Item
import Gherkin.Proofs.Grammar
import Gherkin.Proofs.Text.Trim
import Gherkin.Proofs.Text.Lines
import Gherkin.Proofs.WellFormed
import Gherkin.Proofs.Token
import Gherkin.Proofs.Preservation
import Gherkin.Proofs.Block
import Gherkin.Proofs.DocString
import Gherkin.Proofs.Table
import Gherkin.Proofs.Pipe
import Gherkin.Proofs.Written
import Gherkin.Proofs.RoundTrip
import Gherkin.Proofs.Coverage
import Gherkin.Proofs.Scan
import Gherkin.Proofs.Concatenation
import Gherkin.Proofs.Position
import Gherkin.Proofs.Evidence
import Gherkin.Proofs.Diagnosis
import Gherkin.Proofs.Growth
import Gherkin.Proofs.Extension
import Gherkin.Proofs.Continuation
import Gherkin.Proofs.Prefix
import Gherkin.Proofs.Placeholder
import Gherkin.Proofs.Occurrence
import Gherkin.Proofs.Settings
import Gherkin.Proofs.Substitution
import Gherkin.Proofs.Expansion
import Gherkin.Proofs.Datum
import Gherkin.Proofs.Bench
import Gherkin.Proofs.Keyword
import Gherkin.Proofs.Parallel
import Gherkin.Proofs.Insertion
import Gherkin.Proofs.Layout
import Gherkin.Proofs.Partition
import Gherkin.Proofs.Attachment
import Gherkin.Proofs.Structural
import Gherkin.Cursor.Tokens
import Gherkin.Proofs.Cursor.Lines
import Gherkin.Proofs.Cursor.Tokens
import Gherkin.Proofs.Cursor.FreeText
import Gherkin.Proofs.Repetition
import Gherkin.Proofs.Review
import Gherkin.Proofs.Conformance
import Gherkin.Proofs.Schema
import Gherkin.Proofs.Discovery
import Gherkin.Proofs.Terminator
import Gherkin.Proofs.Composition
import Gherkin.Proofs.Settings.Check
import Gherkin.Proofs.Yaml.Scalar
import Gherkin.Proofs.Yaml.Flat
import Gherkin.Proofs.Yaml.Token
import Gherkin.Proofs.Yaml.Node
import Gherkin.Proofs.Yaml.Value
import Gherkin.Proofs.Settings.Written
