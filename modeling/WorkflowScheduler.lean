import WorkflowScheduler.Text.Bytes
import WorkflowScheduler.Text.Lines
import WorkflowScheduler.Timer
import WorkflowScheduler.Json.Value
import WorkflowScheduler.Json.Decoder
import WorkflowScheduler.Calendar.Format
import WorkflowScheduler.Cron.Window
import WorkflowScheduler.Execution.Status
import WorkflowScheduler.Execution.IdSet
import WorkflowScheduler.Execution.Kind
import WorkflowScheduler.Catalog.Basic
import WorkflowScheduler.Execution.Basic
import WorkflowScheduler.Catalog.Json
import WorkflowScheduler.Executor.Address
import WorkflowScheduler.Executor.Registry
import WorkflowScheduler.Error
import WorkflowScheduler.Store.Basic
import WorkflowScheduler.Queue.Basic
import WorkflowScheduler.Trigger.Basic
import WorkflowScheduler.Trigger.Table
import WorkflowScheduler.Store.Request
import WorkflowScheduler.Program
import WorkflowScheduler.Dispatch
import WorkflowScheduler.Master.Registrar
import WorkflowScheduler.Master.Operations
import WorkflowScheduler.Master.Schedules
import WorkflowScheduler.Service.Message
import WorkflowScheduler.Service.Basic
import WorkflowScheduler.Scenario.Fault
import WorkflowScheduler.Scenario.Basic
import WorkflowScheduler.Interaction
import WorkflowScheduler.Agent.Inventory
import WorkflowScheduler.Agent.Reporter
import WorkflowScheduler.Net.SocketAddress
import WorkflowScheduler.Config
import WorkflowScheduler.Shutdown
import WorkflowScheduler.Store.SeedFile
import WorkflowScheduler.Net.Endpoint
import WorkflowScheduler.Executor.Link
import WorkflowScheduler.CommandLine.Level
import WorkflowScheduler.CommandLine.Reading
import WorkflowScheduler.CommandLine.Command
import WorkflowScheduler.CommandLine.Output
import WorkflowScheduler.CommandLine.Client
import WorkflowScheduler.Master.Startup
import WorkflowScheduler.CommandLine.Settings
import WorkflowScheduler.Scenario.Launch
import WorkflowScheduler.Scenario.Cluster
import WorkflowScheduler.Json.Access
import WorkflowScheduler.Service.Json
import WorkflowScheduler.Main
import WorkflowScheduler.Proofs.Rows
import WorkflowScheduler.Proofs.Interference
import WorkflowScheduler.Proofs.Site
import WorkflowScheduler.Proofs.Serving
import WorkflowScheduler.Proofs.Dispatching
import WorkflowScheduler.Proofs.System
import WorkflowScheduler.Proofs.Lifecycle
import WorkflowScheduler.Proofs.Pending
import WorkflowScheduler.Proofs.Load
import WorkflowScheduler.Proofs.Addresses
import WorkflowScheduler.Proofs.Settled
import WorkflowScheduler.Proofs.HandOut
import WorkflowScheduler.Proofs.Cancel
import WorkflowScheduler.Proofs.Calendar
import WorkflowScheduler.Proofs.Cron.Sets
import WorkflowScheduler.Proofs.Cron.Bounds
import WorkflowScheduler.Proofs.Cron.Search
import WorkflowScheduler.Proofs.Cron.FireTime
import WorkflowScheduler.Proofs.Cron.Window
import WorkflowScheduler.Proofs.Cron.Overlooked
import WorkflowScheduler.Proofs.Refusals
import WorkflowScheduler.Proofs.Registrar
import WorkflowScheduler.Proofs.Registration
import WorkflowScheduler.Proofs.Closing
import WorkflowScheduler.Proofs.RegistryHistory
import WorkflowScheduler.Proofs.Workers
import WorkflowScheduler.Proofs.Cancelling
import WorkflowScheduler.Proofs.Writes
import WorkflowScheduler.Proofs.Race
import WorkflowScheduler.Proofs.Draining
import WorkflowScheduler.Proofs.FailOver
import WorkflowScheduler.Proofs.Restarting
import WorkflowScheduler.Proofs.Backfill
import WorkflowScheduler.Proofs.TriggerTable
import WorkflowScheduler.Proofs.Firing
import WorkflowScheduler.Proofs.Rounds
import WorkflowScheduler.Proofs.Installing
import WorkflowScheduler.Proofs.Queueing
import WorkflowScheduler.Proofs.Reactions
import WorkflowScheduler.Proofs.Orphans
import WorkflowScheduler.Proofs.BackfillRuns
import WorkflowScheduler.Proofs.Effects
import WorkflowScheduler.Proofs.Outages
import WorkflowScheduler.Proofs.Scheduling
import WorkflowScheduler.Proofs.Numerals
import WorkflowScheduler.Proofs.Stamps
import WorkflowScheduler.Proofs.Json.Scalars
import WorkflowScheduler.Proofs.Json.Spelling
import WorkflowScheduler.Proofs.Json.Records
import WorkflowScheduler.Proofs.StoredRecords
import WorkflowScheduler.Proofs.Rotation
import WorkflowScheduler.Proofs.Acceptance
import WorkflowScheduler.Proofs.Reporting
import WorkflowScheduler.Proofs.Seeds
import WorkflowScheduler.Proofs.Cron.FiveFields
import WorkflowScheduler.Proofs.Links
import WorkflowScheduler.Proofs.RequestedTimes
