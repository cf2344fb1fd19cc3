import AssureCode.Access.Verification
import AssureCode.Artifacts.Latest
import AssureCode.Assignment.Anchor
import AssureCode.Assignment.Decision
import AssureCode.Assignment.Refusal
import AssureCode.Ast.Attribution
import AssureCode.Ast.Model
import AssureCode.Auth.Emails
import AssureCode.Auth.Enrollment
import AssureCode.Auth.Reset
import AssureCode.Auth.SecondFactor
import AssureCode.Auth.SingleUse
import AssureCode.Bus.Agreement
import AssureCode.Bus.Offsets
import AssureCode.Bus.Replay
import AssureCode.Delivery.NoLoss
import AssureCode.Drift.FalseAlarms
import AssureCode.Drift.Monotone
import AssureCode.Escrow.Authorized
import AssureCode.Escrow.Capturable
import AssureCode.Escrow.Delivery
import AssureCode.Escrow.Failure
import AssureCode.Escrow.Lifecycle
import AssureCode.Escrow.Orders
import AssureCode.Gateway.Attempts
import AssureCode.Gateway.Bound
import AssureCode.Gateway.Expiry
import AssureCode.Gateway.Isolation
import AssureCode.Gateway.Once
import AssureCode.Graph.Durable
import AssureCode.Ledger.LegacyAnchor
import AssureCode.Ledger.Linear
import AssureCode.Ledger.Lossless
import AssureCode.Ledger.Sealing
import AssureCode.Ledger.Signing
import AssureCode.Ledger.Writer
import AssureCode.LedgerClient.Locks
import AssureCode.Oracle.Delivery
import AssureCode.Oracle.Gate
import AssureCode.Outbox.Starvation
import AssureCode.Payout.Cap
import AssureCode.Payout.Outcome
import AssureCode.Payout.Transfer
import AssureCode.Payout.Truth
import AssureCode.Pipeline.Agreement
import AssureCode.Pipeline.Demo
import AssureCode.Provisioning.Isolation
import AssureCode.Provisioning.Progress
import AssureCode.Provisioning.Resume
import AssureCode.Push.Passing
import AssureCode.Rag.Bound
import AssureCode.Rag.Lossless
import AssureCode.Rag.Store
import AssureCode.Regex.Pattern
import AssureCode.Sandbox.Cases
import AssureCode.Sandbox.Fences
import AssureCode.Sandbox.Forgery
import AssureCode.Scope.Alarm
import AssureCode.Scoring.Scale
import AssureCode.Scoring.Score
import AssureCode.Security.Enclosed
import AssureCode.Security.Injection
import AssureCode.Security.Merge
import AssureCode.Settlement.Attribution
import AssureCode.Settlement.Capture
import AssureCode.Settlement.Commit
import AssureCode.Settlement.Retry
import AssureCode.SourceFetcher.Whole
import AssureCode.Trigger.Abandoned
import AssureCode.Trigger.Attempts
import AssureCode.Trigger.Deadline
import AssureCode.Trigger.Model
import AssureCode.Walk.Scopes
import AssureCode.Webhook.Resolve
