import PlanSupervision.FanOut.Rehearsal
import PlanSupervision.Monitor.Rehearsal
import PlanSupervision.Supervisor.Rehearsal
import PlanSupervision.Proofs.Gate.Bracket
import PlanSupervision.Proofs.Monitor.Timeline
import PlanSupervision.Proofs.Plan.Documents
import PlanSupervision.Proofs.Plan.Vigil
import PlanSupervision.Proofs.Monitor.Conduct
import PlanSupervision.Proofs.Monitor.Duty
import PlanSupervision.Proofs.Monitor.Aftermath
import PlanSupervision.Proofs.Plan.Shown
import PlanSupervision.Proofs.Supervisor.Moves
import PlanSupervision.Proofs.Supervisor.Order
import PlanSupervision.Proofs.Plan.Passage
import PlanSupervision.Proofs.Supervisor.Blocks
import PlanSupervision.Proofs.Supervisor.Chores
import PlanSupervision.Proofs.Supervisor.Incident
import PlanSupervision.Proofs.Supervisor.Closure
import PlanSupervision.Proofs.Supervisor.Accounting
import PlanSupervision.Proofs.Gate.Latch
import PlanSupervision.Proofs.Supervisor.Release
import PlanSupervision.Proofs.Monitor.Notices
import PlanSupervision.Proofs.Monitor.Pursuit
import PlanSupervision.Proofs.Monitor.Supervision
import PlanSupervision.Proofs.Document.RoundTrip
import PlanSupervision.Proofs.Supervisor.Feedback
import PlanSupervision.Proofs.Supervisor.Independence
import PlanSupervision.Proofs.Router.Delivery
import PlanSupervision.Proofs.FanOut.Conservation
import PlanSupervision.Proofs.Monitor.Publication
import PlanSupervision.Proofs.Monitor.Classification
import PlanSupervision.Proofs.Monitor.Reduction
import PlanSupervision.Proofs.Monitor.Restoration
import PlanSupervision.Proofs.Monitor.Script
import PlanSupervision.Proofs.Monitor.Ledger
import PlanSupervision.Proofs.Monitor.Effects
import PlanSupervision.Proofs.Plan.Atomicity
import PlanSupervision.Proofs.Watchdog.History
import PlanSupervision.Proofs.Remote.Parameters
import PlanSupervision.Proofs.Monitor.Guards
import PlanSupervision.Proofs.Remote.Recovery
