import PlanSupervision.Document.Wire
import PlanSupervision.Span

/-!
What can go wrong, by cause. Every error has a stable label and a message.
-/

namespace PlanSupervision

structure DispatchFault where
  listener : String
  document : DocumentKind
  source : String
deriving DecidableEq, Inhabited

namespace DispatchFault

def label (_ : DispatchFault) : String := "dispatch_handler_fault"

def message (fault : DispatchFault) : String :=
  "listener " ++ fault.listener ++ " failed on " ++ fault.document.name ++ ": " ++ fault.source

end DispatchFault

inductive PlanError where
  | watchdogExpired (window : Span)
  | failed (error : String)
  | aborted (reason : String)
  | dispatch (fault : DispatchFault)
  | document (error : DocumentError)
deriving DecidableEq, Inhabited

namespace PlanError

def label : PlanError → String
  | watchdogExpired _ => "plan_watchdog_expired"
  | failed _ => "plan_failed"
  | aborted _ => "plan_aborted"
  | dispatch _ => "plan_dispatch_fault"
  | document _ => "plan_bad_document"

def message : PlanError → String
  | watchdogExpired window =>
      "External callback watchdog timer expired. No reset within " ++ window.text
  | failed error => "plan failed: " ++ error
  | aborted reason => "plan aborted: " ++ reason
  | dispatch fault => fault.message
  | document error => error.message

def isInfrastructure : PlanError → Bool
  | watchdogExpired _ | aborted _ => true
  | failed _ | dispatch _ | document _ => false

end PlanError

inductive CollaboratorError where
  | unavailable (detail : String)
  | rejected (detail : String)
deriving DecidableEq, Inhabited

namespace CollaboratorError

def label : CollaboratorError → String
  | unavailable _ => "collaborator_unavailable"
  | rejected _ => "collaborator_rejected"

def message : CollaboratorError → String
  | unavailable detail => "unavailable: " ++ detail
  | rejected detail => "rejected: " ++ detail

end CollaboratorError

inductive MonitorError where
  | streamClosed (taskId : String)
  | dispatch (fault : DispatchFault)
deriving DecidableEq, Inhabited

namespace MonitorError

def label : MonitorError → String
  | streamClosed _ => "monitor_stream_closed"
  | dispatch _ => "monitor_dispatch_fault"

def message : MonitorError → String
  | streamClosed taskId =>
      "remote event stream closed before task " ++ taskId ++ " finished"
  | dispatch fault => fault.message

end MonitorError

end PlanSupervision
