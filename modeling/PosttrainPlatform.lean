import PosttrainPlatform.Lib.Runs
import PosttrainPlatform.Lib.Programs
import PosttrainPlatform.Lib.Contract
import PosttrainPlatform.Lib.Sequential
import PosttrainPlatform.Lib.Loops
import PosttrainPlatform.Lib.Batches
import PosttrainPlatform.Lib.History
import PosttrainPlatform.Lib.Ledger
import PosttrainPlatform.Lib.Fencing
import PosttrainPlatform.Lib.Table
import PosttrainPlatform.Lib.FirstFit
import PosttrainPlatform.Lib.Typestate
import PosttrainPlatform.Lib.Outbox
import PosttrainPlatform.Lib.Traces
import PosttrainPlatform.Lib.Doubles
import PosttrainPlatform.Lib.Words
import PosttrainPlatform.Lib.Selection
import PosttrainPlatform.Lib.SortedLists
import PosttrainPlatform.Lib.Paging
import PosttrainPlatform.Lib.Ancestry
import PosttrainPlatform.Lib.Numbering
import PosttrainPlatform.Lib.Latest
import PosttrainPlatform.Model.Values
import PosttrainPlatform.Model.Schema
import PosttrainPlatform.Repository.Jobs
import PosttrainPlatform.Repository.Reservations
import PosttrainPlatform.Repository.Attempts
import PosttrainPlatform.Repository.Runs
import PosttrainPlatform.Repository.Artifacts
import PosttrainPlatform.Repository.Registry
import PosttrainPlatform.Repository.Listings
import PosttrainPlatform.Services.Transactions
import PosttrainPlatform.Services.RetryPolicy
import PosttrainPlatform.Services.Statements
import PosttrainPlatform.Services.Api
import PosttrainPlatform.Services.Control
import PosttrainPlatform.Services.Training
import PosttrainPlatform.Services.Worker
import PosttrainPlatform.Services.Registry
import PosttrainPlatform.Services.QualityGates
import PosttrainPlatform.Services.Metrics
import PosttrainPlatform.Services.Lineage
import PosttrainPlatform.Subprocess.Process
import PosttrainPlatform.Subprocess.Codec
import PosttrainPlatform.Subprocess.ToyTrainer
import PosttrainPlatform.Subprocess.TrainerActions
import PosttrainPlatform.Subprocess.EvaluationMetrics
import PosttrainPlatform.Subprocess.ToyEvaluator
import PosttrainPlatform.System
import PosttrainPlatform.Properties.Effects
import PosttrainPlatform.Properties.Rows
import PosttrainPlatform.Properties.Fencing
import PosttrainPlatform.Properties.Backing
import PosttrainPlatform.Properties.Roles
import PosttrainPlatform.Properties.Admission
import PosttrainPlatform.Properties.Conservation
import PosttrainPlatform.Properties.Views
import PosttrainPlatform.Properties.Grants
import PosttrainPlatform.Properties.Cancellation
import PosttrainPlatform.Properties.Acknowledgement
import PosttrainPlatform.Properties.Deletion
import PosttrainPlatform.Properties.DeadLetters
import PosttrainPlatform.Properties.Outputs
import PosttrainPlatform.Properties.Executors
import PosttrainPlatform.Properties.Lifecycle
import PosttrainPlatform.Properties.Backoff
import PosttrainPlatform.Properties.Tokens
import PosttrainPlatform.Properties.Patch
import PosttrainPlatform.Properties.AttemptLog
import PosttrainPlatform.Properties.Atomicity
import PosttrainPlatform.Properties.Scheduling
import PosttrainPlatform.Properties.Ranking
import PosttrainPlatform.Properties.WaitingReasons
import PosttrainPlatform.Properties.PassAudit
import PosttrainPlatform.Properties.Dispatch
import PosttrainPlatform.Properties.Past
import PosttrainPlatform.Properties.Discipline
import PosttrainPlatform.Properties.Order
import PosttrainPlatform.Properties.Records
import PosttrainPlatform.Properties.Growth
import PosttrainPlatform.Properties.Knows
import PosttrainPlatform.Properties.Storage
import PosttrainPlatform.Properties.Orphans
import PosttrainPlatform.Properties.TrainingOutputs
import PosttrainPlatform.Properties.EvaluationRuns
import PosttrainPlatform.Properties.RunMirror
import PosttrainPlatform.Properties.UploadLeases
import PosttrainPlatform.Properties.StaleLeases
import PosttrainPlatform.Properties.RecoveryPass
import PosttrainPlatform.Properties.RelayPass
import PosttrainPlatform.Properties.ReconcilerPass
import PosttrainPlatform.Properties.Reuploads
import PosttrainPlatform.Properties.LateCancellation
import PosttrainPlatform.Properties.Alone
import PosttrainPlatform.Properties.SubprocessOutput
import PosttrainPlatform.Properties.GateEngine
import PosttrainPlatform.Properties.GateSemantics
import PosttrainPlatform.Properties.DroppedConstraints
import PosttrainPlatform.Properties.GateVerdicts
import PosttrainPlatform.Properties.BaselineRuns
import PosttrainPlatform.Properties.GateReads
import PosttrainPlatform.Properties.BaselineChoice
import PosttrainPlatform.Properties.Reproducibility
import PosttrainPlatform.Properties.Discovery
import PosttrainPlatform.Properties.Searches
import PosttrainPlatform.Properties.ResumeOrder
import PosttrainPlatform.Properties.ToyEvaluations
import PosttrainPlatform.Properties.ToyTrainings
import PosttrainPlatform.Properties.Resumption
import PosttrainPlatform.Properties.TrainingResults
import PosttrainPlatform.Properties.Delivery
import PosttrainPlatform.Properties.MetricVisibility
import PosttrainPlatform.Properties.CompletedRuns
import PosttrainPlatform.Properties.Aggregates
import PosttrainPlatform.Properties.RepeatedEvaluations
import PosttrainPlatform.Properties.SubprocessInputs
import PosttrainPlatform.Properties.BaselineExamples
import PosttrainPlatform.Properties.Quantiles
import PosttrainPlatform.Properties.Lineage
import PosttrainPlatform.Properties.Versions
import PosttrainPlatform.Properties.Listings
import PosttrainPlatform.Properties.Counters
import PosttrainPlatform.Properties.Histograms
import PosttrainPlatform.Properties.BackoffLaw
import PosttrainPlatform.Properties.Accuracy
