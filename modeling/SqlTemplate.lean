import SqlTemplate.Value.Compare
import SqlTemplate.Engine.Transaction
import SqlTemplate.Main
import SqlTemplate.Proofs.Prune.Noninterference
import SqlTemplate.Proofs.Catalog.Index
import SqlTemplate.Proofs.Catalog.Invariant
import SqlTemplate.Proofs.Batch.RowByRow
import SqlTemplate.Template.Writer
import SqlTemplate.Proofs.Template.Lexing
import SqlTemplate.Proofs.Template.RoundTrip
import SqlTemplate.Condition.Grammar
import SqlTemplate.Proofs.Condition.Lexemes
import SqlTemplate.Proofs.Condition.Recognition
import SqlTemplate.Proofs.Catalog.Execution
import SqlTemplate.Proofs.Catalog.Lifecycle
import SqlTemplate.Proofs.Prune.Failure
import SqlTemplate.Proofs.Command.Execution
import SqlTemplate.Proofs.Command.Lists
import SqlTemplate.Proofs.Prune.Coverage
import SqlTemplate.Proofs.Prune.StaticCheck
import SqlTemplate.Proofs.Command.Transaction
import SqlTemplate.Proofs.Catalog.Acceptance
import SqlTemplate.Proofs.Command.Backing
import SqlTemplate.Proofs.Command.Refusal
import SqlTemplate.Proofs.Template.Detection
import SqlTemplate.Proofs.Template.Placement
import SqlTemplate.Proofs.Number.Nearest
import SqlTemplate.Proofs.Value.Leaves
import SqlTemplate.Proofs.Value.Order
import SqlTemplate.Proofs.Condition.Relation
import SqlTemplate.Proofs.Condition.Resolution
import SqlTemplate.Proofs.Placeholder.Segmentation
import SqlTemplate.Proofs.Number.Decimal
import SqlTemplate.Proofs.Number.Shortest
import SqlTemplate.Proofs.Condition.Display
import SqlTemplate.Proofs.Value.Text
import SqlTemplate.Proofs.Condition.Legible
import SqlTemplate.Proofs.Placeholder.Collapse
import SqlTemplate.Proofs.Template.Junction
import SqlTemplate.Proofs.Template.Sign
import SqlTemplate.Proofs.Template.Derivation
import SqlTemplate.Proofs.Template.Reading
import SqlTemplate.Proofs.Template.Comment
import SqlTemplate.Proofs.Template.EmptyText
import SqlTemplate.Proofs.Template.Spelling
import SqlTemplate.Proofs.Template.Element
import SqlTemplate.Proofs.Template.Hole
import SqlTemplate.Proofs.Template.Exchange
import SqlTemplate.Proofs.Template.Gaps
import SqlTemplate.Proofs.Catalog.Independence
import SqlTemplate.Proofs.Placeholder.Numbering
import SqlTemplate.Proofs.Prune.Expansion
import SqlTemplate.Proofs.Prune.Laziness
import SqlTemplate.Proofs.Sql.Classification
import SqlTemplate.Proofs.Sql.Count
import SqlTemplate.Proofs.Sql.Slots
import SqlTemplate.Proofs.Value.Tagged
import SqlTemplate.Proofs.Value.Plain
import SqlTemplate.Proofs.Value.Integer
import SqlTemplate.Proofs.Template.ByOffset
