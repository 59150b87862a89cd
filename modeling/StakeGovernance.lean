import StakeGovernance.Word
import StakeGovernance.Bytes.Blake3
import StakeGovernance.Text.Bech32
import StakeGovernance.Text.Decimal
import StakeGovernance.Text.Hex
import StakeGovernance.Json.Basic
import StakeGovernance.Json.Parser
import StakeGovernance.Json.Pointer
import StakeGovernance.Json.Printer
import StakeGovernance.Json.Record
import StakeGovernance.OrderedMap
import StakeGovernance.Value.Address
import StakeGovernance.Value.Digest
import StakeGovernance.Bytes.Reader
import StakeGovernance.Call
import StakeGovernance.Checkpoint.Log
import StakeGovernance.Checkpoint.Packed
import StakeGovernance.Staking.Curve
import StakeGovernance.Staking.Delegation
import StakeGovernance.Staking.Event
import StakeGovernance.Staking.Params
import StakeGovernance.Staking.Vault
import StakeGovernance.Ledger.Basic
import StakeGovernance.Ledger.Operations
import StakeGovernance.Ledger.Stored
import StakeGovernance.Governance.Error
import StakeGovernance.Proposal.Action
import StakeGovernance.Proposal.Record
import StakeGovernance.Governance.Event
import StakeGovernance.Governor.Basic
import StakeGovernance.Timelock.Basic
import StakeGovernance.Governance.Council
import StakeGovernance.Capability.Registry
import StakeGovernance.Protocol.Config
import StakeGovernance.Protocol.Basic
import StakeGovernance.Protocol.Execution
import StakeGovernance.Store.Contents
import StakeGovernance.Store.Database
import StakeGovernance.Store.Snapshot
import StakeGovernance.Service.Basic
import StakeGovernance.Toml.Basic
import StakeGovernance.Toml.Document
import StakeGovernance.Toml.Parser
import StakeGovernance.Toml.Printer
import StakeGovernance.Setup.Error
import StakeGovernance.Setup.File
import StakeGovernance.Setup.Genesis
import StakeGovernance.Setup.Layout
import StakeGovernance.CommandLine.Argument
import StakeGovernance.CommandLine.Action
import StakeGovernance.CommandLine.Invocation
import StakeGovernance.CommandLine.Run
import StakeGovernance.Main
import StakeGovernance.Proofs.Calls
import StakeGovernance.Proofs.Maps
import StakeGovernance.Proofs.Sums
import StakeGovernance.Proofs.Readings
import StakeGovernance.Proofs.BucketLogs
import StakeGovernance.Proofs.Commit
import StakeGovernance.Proofs.Plans
import StakeGovernance.Proofs.Planning
import StakeGovernance.Proofs.Soundness
import StakeGovernance.Proofs.Rejections
import StakeGovernance.Proofs.Power
import StakeGovernance.Proofs.PowerBound
import StakeGovernance.Proofs.Settling
import StakeGovernance.Proofs.Councils
import StakeGovernance.Proofs.Actions
import StakeGovernance.Proofs.Runs
import StakeGovernance.Proofs.Transitions
import StakeGovernance.Proofs.Orderly
import StakeGovernance.Proofs.Tables
import StakeGovernance.Proofs.Numbers
import StakeGovernance.Proofs.States
import StakeGovernance.Proofs.Executions
import StakeGovernance.Proofs.Tallies
import StakeGovernance.Proofs.Votes
import StakeGovernance.Proofs.Vaults
import StakeGovernance.Proofs.Locks
import StakeGovernance.Proofs.Solvency
import StakeGovernance.Proofs.Past
import StakeGovernance.Proofs.Totals
import StakeGovernance.Proofs.Waiting
import StakeGovernance.Proofs.Refusals
import StakeGovernance.Proofs.StakeChanges
import StakeGovernance.Proofs.Waits
import StakeGovernance.Proofs.Agreement
import StakeGovernance.Proofs.Lifecycle
import StakeGovernance.Proofs.Maturity
import StakeGovernance.Proofs.Replay
import StakeGovernance.Proofs.Reports
import StakeGovernance.Proofs.Pointers
import StakeGovernance.Proofs.Journal
import StakeGovernance.Proofs.Texts
import StakeGovernance.Proofs.Printing
import StakeGovernance.Proofs.Rearranged
import StakeGovernance.Proofs.Codecs
import StakeGovernance.Proofs.Columns
import StakeGovernance.Proofs.Storing
import StakeGovernance.Proofs.Files
import StakeGovernance.Proofs.Frames
import StakeGovernance.Proofs.Reconfiguring
import StakeGovernance.Proofs.Serving
import StakeGovernance.Proofs.RoundTrips
import StakeGovernance.Proofs.Cycles
import StakeGovernance.Proofs.Alike
import StakeGovernance.Proofs.Interchange
import StakeGovernance.Proofs.Commuting
import StakeGovernance.Proofs.Strangers
import StakeGovernance.Proofs.Admission
import StakeGovernance.Proofs.OpenProposals
import StakeGovernance.Proofs.Documents
import StakeGovernance.Proofs.Founding
import StakeGovernance.Proofs.NewDelegates
import StakeGovernance.Proofs.Snapshots
import StakeGovernance.Proofs.Accounts
import StakeGovernance.Proofs.Charters
import StakeGovernance.Proofs.Decay
import StakeGovernance.Proofs.Footprints
import StakeGovernance.Proofs.MovedPower
import StakeGovernance.Proofs.Installments
import StakeGovernance.Proofs.Calendar
import StakeGovernance.Proofs.Horizon
import StakeGovernance.Proofs.Turns
import StakeGovernance.Proofs.Payments
import StakeGovernance.Proofs.Arguments
import StakeGovernance.Proofs.Preimages
import StakeGovernance.Proofs.Packing
import StakeGovernance.Proofs.Replacing
import StakeGovernance.Proofs.Symbols
import StakeGovernance.Proofs.Checksums
import StakeGovernance.Proofs.Durability
import StakeGovernance.Proofs.Archives
import StakeGovernance.Proofs.Loading
import StakeGovernance.Proofs.Spellings
import StakeGovernance.Proofs.Decimals
import StakeGovernance.Proofs.Curves
import StakeGovernance.Proofs.Parts
import StakeGovernance.Proofs.Wordings
import StakeGovernance.Proofs.Routing
import StakeGovernance.Proofs.Histories
import StakeGovernance.Proofs.Rounding
