import QueryPlans.Plan.Engine
import QueryPlans.Request.Builder
import QueryPlans.Request.Interchange
import QueryPlans.Settings.Reader
import QueryPlans.Proofs.Arguments.Table
import QueryPlans.Proofs.Continuation
import QueryPlans.Proofs.Forest.Entries
import QueryPlans.Proofs.Forest.Events
import QueryPlans.Proofs.Forest.Grammar
import QueryPlans.Proofs.Layout.Arrangement
import QueryPlans.Proofs.Outcome.Concatenation
import QueryPlans.Proofs.Outcome.Repetition
import QueryPlans.Proofs.Ownership.Consumers
import QueryPlans.Proofs.Ownership.Identity
import QueryPlans.Proofs.Ownership.Partition
import QueryPlans.Proofs.Ownership.Paths
import QueryPlans.Proofs.Ownership.Placement
import QueryPlans.Proofs.Page.Ending
import QueryPlans.Proofs.Plan.Accounting
import QueryPlans.Proofs.Plan.Binding
import QueryPlans.Proofs.Plan.Capacity
import QueryPlans.Proofs.Plan.Convergence
import QueryPlans.Proofs.Plan.Rebinding
import QueryPlans.Proofs.Plan.Recency
import QueryPlans.Proofs.Plan.Transparency
import QueryPlans.Proofs.Request.Acceptance
import QueryPlans.Proofs.Schedule.Buffering
import QueryPlans.Proofs.Schedule.Counting
import QueryPlans.Proofs.Schedule.Finality
import QueryPlans.Proofs.Schedule.Width
import QueryPlans.Proofs.Shape.FixedPoints
import QueryPlans.Proofs.Shape.Paging
import QueryPlans.Proofs.Shape.Resuming
import QueryPlans.Proofs.Stack.Descent
