import DegreePlan.Main
import DegreePlan.Plan.Review
import DegreePlan.Proofs.Json.Equality
import DegreePlan.Proofs.Listing
import DegreePlan.Proofs.Plan.Reachable
import DegreePlan.Proofs.Plan.Reorder
import DegreePlan.Proofs.Requirement.Grouping
import DegreePlan.Proofs.Requirement.Progress
import DegreePlan.Proofs.Requirement.Shortest
import DegreePlan.Proofs.Requirement.Wire
import DegreePlan.Proofs.Service.Evaluation
import DegreePlan.Proofs.Sync.Isolation
import DegreePlan.Proofs.Sync.Ledger
import DegreePlan.Proofs.Sync.Mirror
import DegreePlan.Proofs.Sync.Named
import DegreePlan.Proofs.Sync.Opening
import DegreePlan.Proofs.Sync.Overtaking
import DegreePlan.Proofs.Sync.Partial
import DegreePlan.Proofs.Sync.Refusal
import DegreePlan.Proofs.Sync.Replay
import DegreePlan.Proofs.Sync.Retry
import DegreePlan.Proofs.Sync.Rollback
import DegreePlan.Proofs.Sync.Schedule
import DegreePlan.Proofs.Sync.Twins
import DegreePlan.Service.Basic
import DegreePlan.Settings
import DegreePlan.Sync.Coordinator
import DegreePlan.Proofs.Requirement.Prose
import DegreePlan.Proofs.Requirement.Grammar
import DegreePlan.Proofs.Plan.Export
import DegreePlan.Proofs.Plan.Intake
import DegreePlan.Proofs.Plan.Records
import DegreePlan.Proofs.Service.Semesters
import DegreePlan.Proofs.Archive.Totals
import DegreePlan.Proofs.Catalog.Depths
import DegreePlan.Proofs.Catalog.Load
import DegreePlan.Proofs.Requirement.Choice
import DegreePlan.Proofs.Plan.Mean
import DegreePlan.Proofs.Term.Range
import DegreePlan.Proofs.Catalog.Offenders
import DegreePlan.Proofs.Catalog.Bounds
import DegreePlan.Proofs.Course.Canonical
import DegreePlan.Proofs.Sync.Effect
import DegreePlan.Proofs.Cache.History
