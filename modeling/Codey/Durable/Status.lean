import Codey.Lib.Json

/-!
# Errors, phases and statuses

The error classes of the durable layer and the transition tables of its four state machines: task
phase, scheduler status, submission status and approval status.
-/

namespace Codey

/-- The exceptions the durable layer raises, with the text they carry. -/
inductive Error where
  | commitConflict (message : String)
  | idempotencyConflict (message : String)
  | keyError (message : String)
  | valueError (message : String)
  | typeError (message : String)
  | indexError (message : String)
  | integrityError (message : String)
  | sessionSealed (message : String)
  | operationTransition (message : String)
  | recursionError
  deriving DecidableEq

/-- The exceptions that `_commit` lets through without failing the session. -/
def Error.rejection : Error → Bool
  | .commitConflict _ | .idempotencyConflict _ | .keyError _ | .typeError _ | .valueError _ => true
  | .indexError _ | .integrityError _ | .sessionSealed _ | .operationTransition _
  | .recursionError => false

/-- Task lifecycle phase. -/
inductive Phase where
  | accepted
  | dispatching
  | running
  | completionPending
  | completed
  | failed
  | cancelled
  deriving DecidableEq

def Phase.name : Phase → String
  | .accepted => "accepted"
  | .dispatching => "dispatching"
  | .running => "running"
  | .completionPending => "completion_pending"
  | .completed => "completed"
  | .failed => "failed"
  | .cancelled => "cancelled"

/-- Task lifecycle only; operation owns provider/tool execution position. -/
def taskPhaseTransitions : Phase → List Phase
  | .accepted => [.dispatching, .running, .failed, .cancelled]
  | .dispatching => [.accepted, .running, .failed, .cancelled]
  | .running => [.completionPending, .failed, .cancelled]
  | .completionPending => [.completed, .failed, .cancelled]
  | .completed | .failed | .cancelled => []

/-- A checkpoint may keep its phase; a new task is accepted or already in flight. -/
def validTaskTransition (previous : Option Phase) (current : Phase) : Bool :=
  match previous with
  | none => current ∈ [.accepted, .dispatching]
  | some previous => previous = current || current ∈ taskPhaseTransitions previous

/-- Scheduler ownership state, independent from the task's logical phase. -/
inductive TaskStatus where
  | pending
  | running
  | waiting
  | completing
  | completed
  | failed
  | cancelled
  deriving DecidableEq

def TaskStatus.name : TaskStatus → String
  | .pending => "pending"
  | .running => "running"
  | .waiting => "waiting"
  | .completing => "completing"
  | .completed => "completed"
  | .failed => "failed"
  | .cancelled => "cancelled"

/-- `TASK_TERMINAL_STATUSES`. -/
def TaskStatus.terminal : TaskStatus → Bool
  | .completed | .failed | .cancelled => true
  | .pending | .running | .waiting | .completing => false

def taskStatusTransitions : TaskStatus → List TaskStatus
  | .pending => [.pending, .running, .waiting, .failed, .cancelled]
  | .running => [.running, .pending, .waiting, .completing, .failed, .cancelled]
  | .waiting => [.waiting, .running, .pending, .failed, .cancelled]
  | .completing => [.completing, .completed, .failed, .cancelled]
  | .completed => [.completed]
  | .failed => [.failed]
  | .cancelled => [.cancelled]

def taskStatusForPhase : Phase → TaskStatus
  | .completed => .completed
  | .failed => .failed
  | .cancelled => .cancelled
  | .completionPending => .completing
  | .accepted => .pending
  | .dispatching | .running => .running

def validTaskStatusTransition (previous : Option TaskStatus) (current : TaskStatus) : Bool :=
  match previous with
  | none => current ∈ [.pending, .running]
  | some previous => current ∈ taskStatusTransitions previous

lemma TaskStatus.terminal_of_transition {s t : TaskStatus}
    (h : validTaskStatusTransition (some s) t = true) (hs : s.terminal = true) : t = s := by
  cases s <;> simp [validTaskStatusTransition, taskStatusTransitions, terminal] at h hs ⊢ <;>
    exact h

inductive SubmissionStatus where
  | queued
  | running
  | done
  | unanswered
  | cancelled
  deriving DecidableEq

def SubmissionStatus.name : SubmissionStatus → String
  | .queued => "queued"
  | .running => "running"
  | .done => "done"
  | .unanswered => "unanswered"
  | .cancelled => "cancelled"

def submissionTransitions : SubmissionStatus → List SubmissionStatus
  | .queued => [.running, .done, .unanswered, .cancelled]
  | .running => [.done, .unanswered, .cancelled]
  | .done | .unanswered | .cancelled => []

def validSubmissionTransition (previous current : SubmissionStatus) : Bool :=
  current ∈ submissionTransitions previous

/-- Whether an admitted submission has entered the conversation history. -/
inductive SubmissionPlacement where
  | queued
  | placed
  deriving DecidableEq

/-- How an input joins a conversation that is busy. -/
inductive SubmissionMode where
  | steer
  | followUp
  | write
  deriving DecidableEq

def SubmissionMode.name : SubmissionMode → String
  | .steer => "steer"
  | .followUp => "follow_up"
  | .write => "write"

/-- Durable shell permission lifecycle, separate from scheduler status. -/
inductive ApprovalStatus where
  | requested
  | approved
  | denied
  | executionClaimed
  | executionSettled
  | expired
  | cancelled
  deriving DecidableEq

def ApprovalStatus.name : ApprovalStatus → String
  | .requested => "requested"
  | .approved => "approved"
  | .denied => "denied"
  | .executionClaimed => "execution_claimed"
  | .executionSettled => "execution_settled"
  | .expired => "expired"
  | .cancelled => "cancelled"

/-- `ApprovalStatus(name)`. -/
def ApprovalStatus.ofName? (name : String) : Option ApprovalStatus :=
  [requested, approved, denied, executionClaimed, executionSettled, expired, cancelled].find?
    (·.name = name)

@[simp] lemma ApprovalStatus.ofName?_name (s : ApprovalStatus) : ofName? s.name = some s := by
  cases s <;> decide

def approvalStatusTransitions : ApprovalStatus → List ApprovalStatus
  | .requested => [.approved, .denied, .expired, .cancelled]
  | .approved => [.executionClaimed, .expired, .cancelled]
  | .executionClaimed => [.executionSettled]
  | .denied | .executionSettled | .expired | .cancelled => []

def validApprovalTransition (previous : Option ApprovalStatus) (current : ApprovalStatus) : Bool :=
  match previous with
  | none => current = .requested
  | some previous => current ∈ approvalStatusTransitions previous

end Codey
