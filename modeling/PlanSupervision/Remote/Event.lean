import PlanSupervision.Document.Basic
import PlanSupervision.Remote.Progress

/-!
The events that a remote service sends about delegated tasks.
-/

namespace PlanSupervision

inductive RemoteEvent where
  | progress (notification : Progress)
  | document (taskId : String) (document : Document)
  | finished (taskId : String) (outcome : TaskOutcome)
deriving Inhabited

def RemoteEvent.taskId : RemoteEvent → String
  | progress notification => notification.taskId
  | document taskId _ => taskId
  | finished taskId _ => taskId

end PlanSupervision
