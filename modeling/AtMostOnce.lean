import AtMostOnce.Arithmetic
import AtMostOnce.Assoc
import AtMostOnce.Bench
import AtMostOnce.Bench.Step
import AtMostOnce.Binary64
import AtMostOnce.Cache
import AtMostOnce.Dialogue
import AtMostOnce.Digest.Blake2b
import AtMostOnce.Digest.Blocks
import AtMostOnce.Digest.Sha2
import AtMostOnce.Encoding
import AtMostOnce.Engine
import AtMostOnce.Environment
import AtMostOnce.Error
import AtMostOnce.FieldStore
import AtMostOnce.FieldStore.Address
import AtMostOnce.FieldStore.Memory
import AtMostOnce.FieldStore.Server
import AtMostOnce.HashFunction
import AtMostOnce.Json.Fault
import AtMostOnce.Json.Format
import AtMostOnce.Json.Printer
import AtMostOnce.Json.Reader
import AtMostOnce.Json.Skip
import AtMostOnce.Json.Value
import AtMostOnce.Key
import AtMostOnce.KeyRule
import AtMostOnce.Ledger
import AtMostOnce.Ledger.Faulty
import AtMostOnce.Ledger.Fields
import AtMostOnce.Ledger.Memory
import AtMostOnce.Ledger.Table
import AtMostOnce.Locator
import AtMostOnce.Locator.Host
import AtMostOnce.Locator.Path
import AtMostOnce.PayloadCheck
import AtMostOnce.Proofs.Cache
import AtMostOnce.Proofs.Decimal
import AtMostOnce.Proofs.Digest
import AtMostOnce.Proofs.Engine.Account
import AtMostOnce.Proofs.Engine.Blame
import AtMostOnce.Proofs.Engine.Coherence
import AtMostOnce.Proofs.Engine.Course
import AtMostOnce.Proofs.Engine.Debts
import AtMostOnce.Proofs.Engine.Desk
import AtMostOnce.Proofs.Engine.Discipline
import AtMostOnce.Proofs.Engine.Dispatch
import AtMostOnce.Proofs.Engine.Drift
import AtMostOnce.Proofs.Engine.Figures
import AtMostOnce.Proofs.Engine.Guard
import AtMostOnce.Proofs.Engine.Interleaved
import AtMostOnce.Proofs.Engine.Missing
import AtMostOnce.Proofs.Engine.Office
import AtMostOnce.Proofs.Engine.Once
import AtMostOnce.Proofs.Engine.Origin
import AtMostOnce.Proofs.Engine.Orphans
import AtMostOnce.Proofs.Engine.Phase
import AtMostOnce.Proofs.Engine.Progress
import AtMostOnce.Proofs.Engine.Provenance
import AtMostOnce.Proofs.Engine.Replay
import AtMostOnce.Proofs.Engine.Restart
import AtMostOnce.Proofs.Engine.Resuming
import AtMostOnce.Proofs.Engine.Stages
import AtMostOnce.Proofs.Engine.Standing
import AtMostOnce.Proofs.Engine.Stops
import AtMostOnce.Proofs.Engine.Transparency
import AtMostOnce.Proofs.Faulty
import AtMostOnce.Proofs.Fields.Alone
import AtMostOnce.Proofs.Fields.Apart
import AtMostOnce.Proofs.Fields.Calls
import AtMostOnce.Proofs.Fields.Checked
import AtMostOnce.Proofs.Fields.Entries
import AtMostOnce.Proofs.Fields.Figures
import AtMostOnce.Proofs.Fields.Forms
import AtMostOnce.Proofs.Fields.Instant
import AtMostOnce.Proofs.Fields.Lifetime
import AtMostOnce.Proofs.Fields.Mirror
import AtMostOnce.Proofs.Fields.Naming
import AtMostOnce.Proofs.Fields.RoundTrip
import AtMostOnce.Proofs.Fields.Save
import AtMostOnce.Proofs.Fields.Takeover
import AtMostOnce.Proofs.Fields.Taking
import AtMostOnce.Proofs.Fields.Winner
import AtMostOnce.Proofs.Fields.Written
import AtMostOnce.Proofs.Held
import AtMostOnce.Proofs.Interleaving
import AtMostOnce.Proofs.Json.Canonical
import AtMostOnce.Proofs.Json.Depth
import AtMostOnce.Proofs.Json.Literal
import AtMostOnce.Proofs.Json.Reader
import AtMostOnce.Proofs.Json.Value
import AtMostOnce.Proofs.Key
import AtMostOnce.Proofs.Material
import AtMostOnce.Proofs.Protocol
import AtMostOnce.Proofs.Range
import AtMostOnce.Proofs.Selector.Bounds
import AtMostOnce.Proofs.Selector.Cursor
import AtMostOnce.Proofs.Selector.Footing
import AtMostOnce.Proofs.Selector.Node
import AtMostOnce.Proofs.Selector.Octets
import AtMostOnce.Proofs.Selector.Places
import AtMostOnce.Proofs.Selector.Reads
import AtMostOnce.Proofs.Selector.Respaced
import AtMostOnce.Proofs.Selector.RoundTrip
import AtMostOnce.Proofs.Selector.Scanning
import AtMostOnce.Proofs.Selector.Spacing
import AtMostOnce.Proofs.Selector.WellFormed
import AtMostOnce.Proofs.Store
import AtMostOnce.Proofs.Table.Admission
import AtMostOnce.Proofs.Table.Naming
import AtMostOnce.Proofs.Table.RoundTrip
import AtMostOnce.Record
import AtMostOnce.Selector
import AtMostOnce.Selector.Node
import AtMostOnce.Selector.Parser
import AtMostOnce.Settings
import AtMostOnce.Table
import AtMostOnce.Table.Attribute
import AtMostOnce.Table.Condition
import AtMostOnce.Table.Endpoint
import AtMostOnce.Table.Region
import AtMostOnce.Table.Shape
import AtMostOnce.Text.Base64
import AtMostOnce.Text.Blank
import AtMostOnce.Text.Decimal
import AtMostOnce.Text.Description
import AtMostOnce.Text.Hex
import AtMostOnce.Text.Hidden
import AtMostOnce.Text.Percent
import AtMostOnce.Text.Pieces
import AtMostOnce.Text.Quoted
import AtMostOnce.Time
import AtMostOnce.Word
