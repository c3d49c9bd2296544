import Workflow.Main
import Workflow.Queue.Listing
import Workflow.Scenario.Build
import Workflow.Scenario.Session
import Workflow.Proofs.Congruence
import Workflow.Proofs.Fuel
import Workflow.Proofs.Attribution
import Workflow.Proofs.Chaining
import Workflow.Proofs.Unread
import Workflow.Proofs.Unrolling
import Workflow.Proofs.Bracketing
import Workflow.Proofs.Dispatch
import Workflow.Proofs.Growth
import Workflow.Proofs.Progress
import Workflow.Proofs.Moments
import Workflow.Proofs.Blocking
import Workflow.Proofs.Registry
import Workflow.Proofs.Confined
import Workflow.Proofs.Weight
import Workflow.Proofs.Container.Frame
import Workflow.Proofs.Container.Settle
import Workflow.Proofs.Container.Serial
import Workflow.Proofs.Container.Grouping
import Workflow.Proofs.Container.Resumption
import Workflow.Proofs.Container.Conservation
import Workflow.Proofs.Container.Account
import Workflow.Proofs.Draining
import Workflow.Proofs.Container.Lock
import Workflow.Proofs.Container.Isolation
import Workflow.Proofs.Correspondence
import Workflow.Proofs.Footprint
import Workflow.Proofs.Succession
import Workflow.Proofs.Interchange
import Workflow.Proofs.Wrapping
import Workflow.Proofs.Container.OwnContext
import Workflow.Proofs.Iteration
import Workflow.Proofs.Value.Shape
import Workflow.Proofs.Value.Exchange
import Workflow.Proofs.Json.Quoted
import Workflow.Proofs.Json.Literal
import Workflow.Proofs.Json.Reader
import Workflow.Proofs.Json.Written
import Workflow.Proofs.Json.Grammar
import Workflow.Proofs.Text.Digits
import Workflow.Proofs.Text.LeadingInt
import Workflow.Proofs.Double.Rounding
import Workflow.Proofs.Double.Shortest
import Workflow.Proofs.Double.Text
import Workflow.Proofs.Value.Tree
import Workflow.Proofs.Value.RoundTrip
import Workflow.Proofs.Table
import Workflow.Proofs.Text.ByteOrder
import Workflow.Proofs.Value.Place
import Workflow.Proofs.Value.Loading
import Workflow.Proofs.Context.Counting
import Workflow.Proofs.Context.History
import Workflow.Proofs.Value.Numbers
import Workflow.Proofs.Context.Totals
import Workflow.Proofs.Sharing
