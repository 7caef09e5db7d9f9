import PinLedger.Config.Writer
import PinLedger.Feed.Writer
import PinLedger.Main
import PinLedger.Proofs.Service.Exclusion
import PinLedger.Proofs.Service.Watermark
import PinLedger.Proofs.Service.Reset
import PinLedger.Statement.Chunk
import PinLedger.Store.Writer
import PinLedger.Proofs.Reconcile.Transition
import PinLedger.Proofs.Run.Faults
import PinLedger.Proofs.Service.BatchSize
import PinLedger.Proofs.Service.Arrivals
import PinLedger.Proofs.Run.PageOrder
import PinLedger.Proofs.Service.PageOrder
import PinLedger.Proofs.Store.EdgeRedo
import PinLedger.Proofs.Service.Windows
import PinLedger.Proofs.Run.Floor
import PinLedger.Proofs.Service.Floor
import PinLedger.Proofs.Run.Redelivery
import PinLedger.Proofs.Service.Redelivery
import PinLedger.Proofs.Window
import PinLedger.Proofs.Run.Scratch
import PinLedger.Proofs.Service.Remapping
import PinLedger.Proofs.Service.Execution
import PinLedger.Proofs.Service.Provenance
import PinLedger.Proofs.Service.FailedReset
import PinLedger.Proofs.Service.Verdict
import PinLedger.Proofs.Reconcile.Classification
import PinLedger.Proofs.Reconcile.Unmapped
import PinLedger.Proofs.Reconcile.Extension
import PinLedger.Proofs.Reconcile.Calendar
import PinLedger.Proofs.Reconcile.Questions
import PinLedger.Proofs.Statement.Chunk
import PinLedger.Proofs.Run.OwnWrites
import PinLedger.Proofs.Text.Decimal
import PinLedger.Proofs.Time.Calendar
import PinLedger.Proofs.Time.Text
import PinLedger.Proofs.Sql.Reader
import PinLedger.Proofs.Sql.Statement
import PinLedger.Proofs.Json.Grammar
import PinLedger.Proofs.Json.Token
import PinLedger.Proofs.Service.Summary
import PinLedger.Proofs.Json.Skip
import PinLedger.Proofs.Json.Reader
import PinLedger.Proofs.Json.Structure
import PinLedger.Proofs.Feed.Page
import PinLedger.Proofs.Json.Writer
import PinLedger.Proofs.Feed.Layers
import PinLedger.Proofs.Feed.RoundTrip
import PinLedger.Proofs.Feed.Normalization
import PinLedger.Proofs.FirstMention
import PinLedger.Proofs.Text.Blank
import PinLedger.Proofs.Json.Invariant
import PinLedger.Proofs.Text.Parts
import PinLedger.Proofs.Layer.Mapping
import PinLedger.Proofs.Layer.Resolution
import PinLedger.Proofs.Task.Tracker
import PinLedger.Proofs.Store.Nearest
import PinLedger.Proofs.Sql.Quote
import PinLedger.Proofs.Store.Delivery
