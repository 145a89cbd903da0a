import Storefront.Amount
import Storefront.Binary64.Basic
import Storefront.Binary64.Order
import Storefront.Binary64.Scaled
import Storefront.Binary64.Text
import Storefront.Catalog
import Storefront.Condition
import Storefront.Configuration.Basic
import Storefront.Configuration.Cell
import Storefront.Configuration.Field
import Storefront.Configuration.OptionStore
import Storefront.Configuration.Sheet
import Storefront.Decimal
import Storefront.Document.Basic
import Storefront.Document.Numeral
import Storefront.Document.Reader
import Storefront.Document.Writer
import Storefront.Evaluation
import Storefront.Inventory
import Storefront.Operator
import Storefront.Ordered.IdSet
import Storefront.Ordered.Map
import Storefront.Ordered.StableSort
import Storefront.Plan.Basic
import Storefront.Plan.Query
import Storefront.Plan.Sql
import Storefront.Proofs.Amount.Displayed
import Storefront.Proofs.Binary64.Exact
import Storefront.Proofs.Binary64.RoundTrip
import Storefront.Proofs.Binary64.Rounding
import Storefront.Proofs.Binary64.Scaled
import Storefront.Proofs.Configuration.Cells
import Storefront.Proofs.Configuration.Coherent
import Storefront.Proofs.Configuration.Documents
import Storefront.Proofs.Configuration.FailClosed
import Storefront.Proofs.Configuration.Interrupted
import Storefront.Proofs.Configuration.Locality
import Storefront.Proofs.Configuration.Purge
import Storefront.Proofs.Configuration.Repair
import Storefront.Proofs.Configuration.Resaving
import Storefront.Proofs.Configuration.RoundTrip
import Storefront.Proofs.Configuration.Rows
import Storefront.Proofs.Document.Format
import Storefront.Proofs.Document.Numeral
import Storefront.Proofs.Document.Texts
import Storefront.Proofs.Document.Whole
import Storefront.Proofs.Evaluation.Meaning
import Storefront.Proofs.Inventory.Built
import Storefront.Proofs.Inventory.Counting
import Storefront.Proofs.Inventory.Matching
import Storefront.Proofs.Ordered.Latest
import Storefront.Proofs.Plan.HiddenCategories
import Storefront.Proofs.Plan.HiddenProducts
import Storefront.Proofs.Plan.MetaJoin
import Storefront.Proofs.Plan.PriceTests
import Storefront.Proofs.Plan.Union
import Storefront.Proofs.Record.Fields
import Storefront.Proofs.Record.Recovery
import Storefront.Proofs.Record.Rules
import Storefront.Proofs.Record.SameForm
import Storefront.Proofs.Record.Texts
import Storefront.Proofs.Report.Course
import Storefront.Proofs.Report.Facts
import Storefront.Proofs.Report.FreeTier
import Storefront.Proofs.Report.Matched
import Storefront.Proofs.Report.Untested
import Storefront.Proofs.Schedule.Order
import Storefront.Proofs.Schedule.Repair
import Storefront.Proofs.Schedule.Stable
import Storefront.Proofs.Serialized.Blanks
import Storefront.Proofs.Serialized.Delimited
import Storefront.Proofs.Serialized.Outline
import Storefront.Proofs.Serialized.Pieces
import Storefront.Proofs.Serialized.Places
import Storefront.Proofs.Serialized.Progress
import Storefront.Proofs.Serialized.Recognition
import Storefront.Proofs.Serialized.RoundTrip
import Storefront.Proofs.Snapshot.Constructed
import Storefront.Proofs.Snapshot.Edited
import Storefront.Proofs.Snapshot.Recorded
import Storefront.Proofs.StoredValue.Texts
import Storefront.Proofs.Text.ByteOrder
import Storefront.Proofs.Text.Numeral
import Storefront.Record.Basic
import Storefront.Record.Plan
import Storefront.Record.Rules
import Storefront.Record.Shop
import Storefront.Report
import Storefront.Request
import Storefront.Ruleset
import Storefront.Schedule
import Storefront.Serialized.Reader
import Storefront.Serialized.Writer
import Storefront.Snapshot.Ascending
import Storefront.Snapshot.Basic
import Storefront.StoredValue.Basic
import Storefront.StoredValue.OfDocument
import Storefront.Text.Blank
import Storefront.Text.Bytes
import Storefront.Text.Numeral
