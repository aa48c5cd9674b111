import Ferry.Api.Body
import Ferry.Api.Exposition
import Ferry.Api.Response
import Ferry.Api.Route
import Ferry.Api.Transfers
import Ferry.Completion
import Ferry.Config.Basic
import Ferry.Config.Codec
import Ferry.Config.Environment
import Ferry.Config.Error
import Ferry.Config.Load
import Ferry.Config.Validate
import Ferry.Dispatch.Error
import Ferry.Dispatch.Http
import Ferry.Dispatch.Inbound
import Ferry.File.Error
import Ferry.File.Path
import Ferry.File.Tree
import Ferry.Flow.FileCopy
import Ferry.Flow.Finish
import Ferry.Flow.Manager
import Ferry.Flow.Outcome
import Ferry.Ids
import Ferry.Job.Basic
import Ferry.Job.Codec
import Ferry.Job.Error
import Ferry.Job.Request
import Ferry.Job.Resource
import Ferry.Job.State
import Ferry.Json.Basic
import Ferry.Json.Lexer
import Ferry.Json.Parser
import Ferry.Json.Printer
import Ferry.Json.Record
import Ferry.Metrics
import Ferry.Net.IpAddress
import Ferry.Net.MediaType
import Ferry.Net.Percent
import Ferry.Net.Url
import Ferry.Net.Utf8
import Ferry.Orchestrator.Cycle
import Ferry.Orchestrator.Error
import Ferry.Orchestrator.Initiate
import Ferry.Orchestrator.Operation
import Ferry.Orchestrator.Report
import Ferry.Orchestrator.Status
import Ferry.Orchestrator.Supervisor
import Ferry.Orchestrator.Worker
import Ferry.Program
import Ferry.Properties
import Ferry.Provision.Directory
import Ferry.Provision.Error
import Ferry.Provision.Manifest
import Ferry.Provision.Response
import Ferry.Provision.Writer
import Ferry.Rehearsal.Acts
import Ferry.Rehearsal.Client
import Ferry.Rehearsal.Fault
import Ferry.Rehearsal.Fixtures
import Ferry.Rehearsal.Stage
import Ferry.Store.Call
import Ferry.Store.Cell
import Ferry.Store.Row
import Ferry.Store.Table
import Ferry.Text.Blank
import Ferry.Text.CharacterTable
import Ferry.Text.Quoted
import Ferry.Time.Calendar
import Ferry.Time.Instant
import Ferry.Time.Rfc3339
import Ferry.Toml.Parser
import Ferry.Toml.Scalar
import Ferry.Toml.Table
import Ferry.Toml.Text
import Ferry.Wait
import Ferry.Width
import Ferry.Proofs.Json.Lexing
import Ferry.Proofs.Json.Parsing
import Ferry.Proofs.Job.Codec
import Ferry.Proofs.Store.Origins
import Ferry.Proofs.Store.Reading
import Ferry.Proofs.Store.Rows
import Ferry.Proofs.Interference
import Ferry.Proofs.Orchestrator.CycleRules
import Ferry.Proofs.Service.Basic
import Ferry.Proofs.Service.Ownership
import Ferry.Proofs.Service.Terms
import Ferry.Proofs.Service.Worker
import Ferry.Proofs.Service.Background
import Ferry.Proofs.Service.Lifecycle
import Ferry.Proofs.Service.Calls
import Ferry.Proofs.Service.Callbacks
import Ferry.Proofs.Service.Receipt
import Ferry.Proofs.Provision.Responses
import Ferry.Proofs.Orchestrator.Control
import Ferry.Proofs.Orchestrator.Points
import Ferry.Proofs.Orchestrator.Custody
import Ferry.Proofs.Orchestrator.Supervision
import Ferry.Proofs.Orchestrator.Initiation
import Ferry.Proofs.File.Paths
import Ferry.Proofs.File.Trees
import Ferry.Proofs.File.Walking
import Ferry.Proofs.File.Making
import Ferry.Proofs.File.Writing
import Ferry.Proofs.Flow.FileCopy
import Ferry.Proofs.Flow.Finishing
import Ferry.Proofs.Flow.Confinement
import Ferry.Proofs.Flow.Delivery
import Ferry.Proofs.Flow.Overtaking
import Ferry.Proofs.Api.Acknowledgment
import Ferry.Proofs.Store.Queue
import Ferry.Proofs.Orchestrator.Inspection
import Ferry.Proofs.Flow.CopySteps
import Ferry.Proofs.Flow.Marker
import Ferry.Proofs.Completion
import Ferry.Proofs.Flow.Sighting
import Ferry.Proofs.Job.Consistency
import Ferry.Proofs.Store.Copies
import Ferry.Proofs.TaskSystem.Basic
import Ferry.Proofs.TaskSystem.Consistency
import Ferry.Proofs.Service.InHand
import Ferry.Proofs.Service.Following
import Ferry.Proofs.Service.Attendance
import Ferry.Proofs.Service.Launching
import Ferry.Proofs.Service.Restarting
import Ferry.Proofs.Store.Integrity
import Ferry.Proofs.Metrics
import Ferry.Proofs.TaskSystem.Counting
import Ferry.Proofs.TaskSystem.Starting
import Ferry.Proofs.Dispatch.Handover
import Ferry.Proofs.TaskSystem.Failures
import Ferry.Proofs.Orchestrator.Batches
import Ferry.Proofs.Orchestrator.Phases
import Ferry.Proofs.Orchestrator.Turns
import Ferry.Proofs.Orchestrator.Retries
import Ferry.Proofs.Orchestrator.Backoff
import Ferry.Proofs.Orchestrator.Looping
import Ferry.Proofs.Store.Ledger
import Ferry.Proofs.Net.Query
import Ferry.Proofs.Api.Listing
import Ferry.Proofs.TaskSystem.RetryBound
import Ferry.Proofs.TaskSystem.Overrun
import Ferry.Proofs.File.Unlinked
import Ferry.Proofs.Provision.Directories
import Ferry.Proofs.Job.Orders
import Ferry.Proofs.Json.Records
import Ferry.Proofs.Dispatch.Spellings
import Ferry.Proofs.Net.Utf8
import Ferry.Proofs.Net.Percent
import Ferry.Proofs.Net.Segments
import Ferry.Proofs.Dispatch.Acknowledging
