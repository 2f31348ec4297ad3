import Custodian.Json.Reader
import Custodian.Main
import Custodian.Stores.Memory
import Custodian.Wire.Decode
import Custodian.Proofs.Dialogue.Contract
import Custodian.Proofs.Dialogue.SideBySide
import Custodian.Proofs.Decimal.Sign
import Custodian.Proofs.Decimal.Text
import Custodian.Proofs.Keyed
import Custodian.Proofs.Ledger.CommitOrder
import Custodian.Proofs.Accrual.Settlement
import Custodian.Proofs.Accrual.Stream
import Custodian.Proofs.Replay.World
import Custodian.Proofs.Replay.Standing
import Custodian.Proofs.Replay.Walk
import Custodian.Proofs.Database.Listing
import Custodian.Proofs.Database.Session
import Custodian.Proofs.Snapshot.Seeding
import Custodian.Proofs.Replay.Report
import Custodian.Proofs.Snapshot.Soundness
import Custodian.Proofs.Accrual.Timeline
import Custodian.Proofs.Replay.Reference
import Custodian.Proofs.Database.Recording
import Custodian.Proofs.Snapshot.Growth
import Custodian.Proofs.Replay.Footprint
import Custodian.Proofs.Replay.Lookups
import Custodian.Proofs.Replay.Result
import Custodian.Proofs.Database.Lookups
import Custodian.Proofs.Dialogue.Buffer
import Custodian.Proofs.Replay.Concurrency
import Custodian.Proofs.Replay.Agreement
import Custodian.Proofs.Dialogue.Oracle
import Custodian.Proofs.Replay.Isolation
import Custodian.Proofs.Database.Faults
import Custodian.Proofs.Database.Ingestion
import Custodian.Proofs.Replay.Ingestion
import Custodian.Proofs.Decimal.Ratio
import Custodian.Proofs.Accrual.Accuracy
import Custodian.Proofs.Replay.Accuracy
import Custodian.Proofs.Cli.Collection
import Custodian.Proofs.Cli.Paging
import Custodian.Proofs.Accrual.Overflow
import Custodian.Proofs.Replay.ControlPoint
import Custodian.Proofs.Replay.Failures
import Custodian.Proofs.Cli.Enrolment
import Custodian.Proofs.Decimal.Value
import Custodian.Proofs.Database.Accounts
import Custodian.Proofs.Ledger.Rank
import Custodian.Proofs.Ledger.Paging
import Custodian.Proofs.Database.Enrolment
import Custodian.Proofs.Accrual.TimeShare
import Custodian.Proofs.Accrual.Entries
import Custodian.Proofs.Accrual.Adjacent
import Custodian.Proofs.Replay.Adjacent
import Custodian.Proofs.Dialogue.Transcript
import Custodian.Proofs.Snapshot.Checkpoints
import Custodian.Proofs.Accrual.Monotone
import Custodian.Proofs.Decimal.Rounding
import Custodian.Proofs.Accrual.Constant
import Custodian.Proofs.Replay.Constant
import Custodian.Proofs.Accrual.Balance
import Custodian.Proofs.Replay.Conservation
import Custodian.Proofs.Accrual.Congruence
import Custodian.Proofs.Replay.Reorder
import Custodian.Proofs.Database.FailedWrites
import Custodian.Proofs.Database.ReadBack
import Custodian.Proofs.Database.Batches
import Custodian.Proofs.Replay.RateMemo
import Custodian.Proofs.Database.Directory
import Custodian.Proofs.Time.Calendar
import Custodian.Proofs.Time.ColumnText
import Custodian.Proofs.Database.Appends
