import Mathlib.Data.List.Nodup
import Codey.Durable.Status
import Codey.Lib.Check

/-!
# Task checkpoints

The durable state of a task: its identity, its phase, its scheduler status and a free-form JSON
state with a few keys that the scheduler owns. A `TaskCheckpoint` carries the proof that its
construction raised nothing, so an ill-formed one cannot reach the store.
-/

namespace Codey

/-! ### The scheduler's keys of a task state -/

namespace Fields

def strD (state : Fields) (key : String) : String :=
  ((state.get? key).bind Json.str?).getD ""

def name? (state : Fields) (key : String) : Option String :=
  ((state.get? key).bind Json.str?).filter (· ≠ "")

def strs (state : Fields) (key : String) : List String :=
  match state.get? key with
  | some (.arr items) => items.filterMap Json.str?
  | _ => []

def attemptToken (state : Fields) : String := state.strD "attempt_token"

def attemptOwner (state : Fields) : String := state.strD "attempt_owner"

def attemptNumber (state : Fields) : Nat :=
  match state.get? "attempt_number" with
  | some (.int n) => n.toNat
  | _ => 0

def attemptProcessId (state : Fields) : Nat :=
  match state.get? "attempt_process_id" with
  | some (.int n) => n.toNat
  | _ => 0

def ownerTaskId (state : Fields) : Option String := state.name? "owner_task_id"

def waitingOn (state : Fields) : List String := state.strs "waiting_on"

/-- `state.get("join_policy", "allSettled")` is one of two words. -/
def failFast (state : Fields) : Bool := state.strD "join_policy" = "failFast"

def pendingEffectIds (state : Fields) : List String := state.strs "pending_effect_ids"

def cancelRequested (state : Fields) : Bool := state.truthy "cancel_requested"

def obj? (state : Fields) (key : String) : Option Fields :=
  match state.get? key with
  | some (.obj members) => some members
  | _ => none

def operation (state : Fields) : Option Fields := state.obj? "operation"

def ofStrs (items : List String) : Json := .arr (items.map .str)

@[simp] lemma filterMap_ofStrs (items : List String) :
    (items.map Json.str).filterMap Json.str? = items := by
  simp [List.filterMap_map, Function.comp_def]

lemma strs_of_get? {state : Fields} {key : String} {items : List String}
    (h : state.get? key = some (ofStrs items)) : state.strs key = items := by
  simp only [strs, h, ofStrs, filterMap_ofStrs]

lemma strs_congr {a b : Fields} {key : String} (h : a.get? key = b.get? key) :
    a.strs key = b.strs key := by
  simp only [strs, h]

end Fields

/-! ### Validation -/

/-- The fields a checkpoint is built from. -/
structure CheckpointData where
  taskId : String
  conversationId : String
  submissionId : String
  phase : Phase
  revision : Nat
  providerSnapshot : Fields
  state : Fields
  currentTurnId : Option String := none
  pendingEffectId : Option String := none
  status : TaskStatus
  deriving DecidableEq

/-- A value is absent, `None`, or a non-empty string. -/
def optionalName : Option Json → Bool
  | none | some .null => true
  | some (.str s) => s ≠ ""
  | some _ => false

def namesOnly (items : List Json) : Bool :=
  items.all fun item => match item with
    | .str s => s ≠ ""
    | _ => false

def validateWaitingOn : Option Json → Except Error Unit
  | none => .ok ()
  | some (.arr items) => do
    require (namesOnly items) (.valueError "waiting task dependencies must be non-empty strings")
    require (decide items.Nodup) (.valueError "waiting task dependencies must be unique")
  | some _ => .error (.valueError "waiting task dependencies must be a list")

def validateJoinPolicy : Option Json → Except Error Unit
  | none | some (.str "failFast") | some (.str "allSettled") => .ok ()
  | some (.arr _) => .error (.typeError "unhashable type: 'list'")
  | some (.obj _) => .error (.typeError "unhashable type: 'dict'")
  | some _ => .error (.valueError "unknown task join policy")

def optionalFlag : Option Json → Bool
  | none | some (.bool _) => true
  | some _ => false

def validateTaskSchedulerState (state : Fields) : Except Error Unit := do
  require (optionalName (state.get? "owner_task_id"))
    (.valueError "owner task ID must be a non-empty string")
  validateWaitingOn (state.get? "waiting_on")
  validateJoinPolicy (state.get? "join_policy")
  require (optionalFlag (state.get? "abandon_on_restart"))
    (.valueError "abandon_on_restart must be boolean")

/-- A value is absent or a positive integer. -/
def optionalVersion : Option Json → Bool
  | none => true
  | some (.int n) => 1 ≤ n
  | some _ => false

def optionalObject : Option Json → Bool
  | none | some (.obj _) => true
  | some _ => false

def validateWorkflowState (state : Fields) : Except Error Unit := do
  require (optionalName (state.get? "workflow_name"))
    (.valueError "workflow name must be a non-empty string")
  require (optionalVersion (state.get? "workflow_version"))
    (.valueError "workflow version must be a positive integer")
  checkAll ["workflow_input", "workflow_checkpoint"] fun key =>
    require (optionalObject (state.get? key)) (.valueError (key ++ " must be an object"))
  require (optionalName (state.get? "workflow_replay_digest"))
    (.valueError "workflow replay digest must be a non-empty string")

/-- A value is absent or a natural number. -/
def optionalCount : Option Json → Bool
  | none => true
  | some (.int n) => 0 ≤ n
  | some _ => false

/-- A value is absent or a string. -/
def optionalText : Option Json → Bool
  | none | some (.str _) => true
  | some _ => false

def validateAttempt (state : Fields) : Except Error Unit := do
  require (optionalCount (state.get? "attempt_number") && optionalText (state.get? "attempt_token")
      && optionalText (state.get? "attempt_owner")
      && optionalCount (state.get? "attempt_process_id"))
    (.valueError "invalid task execution attempt")
  require ((state.attemptToken = "") = (state.attemptOwner = "")
      && (state.attemptToken = "" || state.attemptNumber ≠ 0))
    (.valueError "invalid task execution attempt ownership")
  require (state.attemptToken = "" || 0 < state.attemptProcessId)
    (.valueError "running task attempt requires an owner process")
  require (state.attemptToken ≠ "" || state.attemptProcessId = 0)
    (.valueError "unowned task cannot retain an owner process")

def validatePendingEffects (pendingEffectId : Option String) (state : Fields) :
    Except Error Unit :=
  match state.get? "pending_effect_ids" with
  | none | some .null =>
    require (pendingEffectId = none) (.valueError "pending effect checkpoint is inconsistent")
  | some (.arr items) => do
    require (namesOnly items) (.valueError "pending effect IDs must be non-empty strings")
    require (decide items.Nodup) (.valueError "pending effect IDs must be unique")
    require (pendingEffectId = state.pendingEffectIds.getLast?)
      (.valueError "pending effect checkpoint is inconsistent")
  | some _ => throw (.valueError "pending effect IDs must be a list")

def Phase.terminal : Phase → Bool
  | .completed | .failed | .cancelled => true
  | .accepted | .dispatching | .running | .completionPending => false

def CheckpointData.postInit (t : CheckpointData) : Except Error Unit := do
  require (t.taskId ≠ "" && t.conversationId ≠ "" && t.submissionId ≠ "")
    (.valueError "task identity and phase are required")
  require (!t.status.terminal || t.phase.name = t.status.name)
    (.valueError "terminal task status must match its terminal phase")
  require (t.status.terminal || !t.phase.terminal)
    (.valueError "terminal task phase requires a terminal status")
  validateTaskSchedulerState t.state
  validateWorkflowState t.state
  validateAttempt t.state
  validatePendingEffects t.pendingEffectId t.state

/-- A checkpoint whose construction raised nothing. -/
structure TaskCheckpoint extends CheckpointData where
  valid : toCheckpointData.postInit = .ok ()

instance : DecidableEq TaskCheckpoint := fun s t =>
  decidable_of_iff (s.toCheckpointData = t.toCheckpointData) (by cases s; cases t; simp)

namespace TaskCheckpoint

/-- The constructor, also behind every `replace`. -/
def make (d : CheckpointData) : Except Error TaskCheckpoint :=
  match h : d.postInit with
  | .ok () => .ok ⟨d, h⟩
  | .error e => .error e

@[simp] lemma make_eq_ok {d : CheckpointData} {t : TaskCheckpoint} :
    make d = .ok t ↔ t.toCheckpointData = d := by
  unfold make
  split
  · rename_i h
    constructor
    · rintro heq
      obtain rfl := Except.ok.inj heq
      rfl
    · rintro rfl
      rfl
  · rename_i e h
    simp only [reduceCtorEq, false_iff]
    rintro rfl
    simp [t.valid] at h

@[ext] lemma ext {s t : TaskCheckpoint} (h : s.toCheckpointData = t.toCheckpointData) : s = t := by
  cases s; cases t; congr

/-- What the construction has checked, one conjunct for each statement of it. -/
lemma checked (t : TaskCheckpoint) :
    (t.taskId ≠ "" ∧ t.conversationId ≠ "" ∧ t.submissionId ≠ "") ∧
    (t.status.terminal = true → t.phase.name = t.status.name) ∧
    (t.status.terminal = true ∨ t.phase.terminal = false) ∧
    validateTaskSchedulerState t.state = .ok () ∧ validateWorkflowState t.state = .ok () ∧
    validateAttempt t.state = .ok () ∧
    validatePendingEffects t.pendingEffectId t.state = .ok () := by
  have h := t.valid
  simp only [CheckpointData.postInit, except_seq_eq_ok, require_eq_ok] at h
  obtain ⟨hid, hstatus, hphase, hsched, hflow, hattempt, hpending⟩ := h
  refine ⟨by simpa [and_assoc] using hid, fun hterm => ?_, ?_, hsched, hflow, hattempt, hpending⟩
  · simpa [hterm] using hstatus
  · simpa using hphase

lemma status_terminal_iff (t : TaskCheckpoint) :
    t.status.terminal = true ↔ t.phase.terminal = true := by
  obtain ⟨-, hname, hphase, -⟩ := t.checked
  constructor
  · intro hs
    have := hname hs
    cases hst : t.status <;> cases hph : t.phase <;>
      simp_all [TaskStatus.terminal, Phase.terminal, TaskStatus.name, Phase.name]
  · intro hp
    exact hphase.resolve_right (by simp [hp])

lemma pendingEffectId_eq (t : TaskCheckpoint) :
    t.pendingEffectId = t.state.pendingEffectIds.getLast? := by
  obtain ⟨-, -, -, -, -, -, h⟩ := t.checked
  unfold validatePendingEffects at h
  split at h <;> rename_i hget
  · simpa [Fields.pendingEffectIds, Fields.strs, hget] using h
  · simpa [Fields.pendingEffectIds, Fields.strs, hget] using h
  · simp only [except_seq_eq_ok, require_eq_ok] at h
    simpa using h.2.2
  · cases h

end TaskCheckpoint

/-! ### The rules of a checkpoint update -/

def frozenTaskStateKeys : List String :=
  ["input_entry_id", "input_identity", "input_request", "task_policy", "reviewer_selection",
    "workflow_origin", "owner_task_id", "abandon_on_restart", "workflow_name", "workflow_input",
    "workflow_replay_contract"]

/-- An admitted fact is never replaced, but one that was missing may be added. -/
def validFrozenTaskState (previous current : Fields) : Bool :=
  frozenTaskStateKeys.all fun key => match previous.get? key with
    | none => true
    | some before => (current.get? key).any before.pyEq

def operationIdentityKeys : List String :=
  ["session_id", "run_id", "operation_id", "writer_attempt", "repair_rounds"]

/-- The operation positions a cancelled task may still pass through. -/
def cleanupLeaves : List String :=
  ["closing", "plan_ready", "completion_pending", "control_ready", "provider_request_ready",
    "provider_effect_pending", "provider_response_ready", "tool_effect_pending",
    "tool_delivery_pending", "kernel_settled", "writer_settled", "repair_settled", "terminal"]

/-- Receipt and closure commits that a cancelled task may still make. The two stores hand the
operation before the commit over in different forms, so how identity facts compare is theirs. -/
def validCancellationCleanup (same : Option Json → Option Json → Bool) (previous : Fields)
    (current : CheckpointData) : Bool :=
  current.state.cancelRequested && current.phase = .running
    && current.status ∈ [.running, .pending, .waiting]
    && match previous.operation, current.state.operation with
      | some before, some after =>
        operationIdentityKeys.all (fun key => same (before.get? key) (after.get? key))
          && cleanupLeaves.contains (after.strD "leaf")
          && after.get? "stop_reason" ≠ some (.str "done")
      | _, _ => false

/-- The operation positions from which a cancelled task needs a worker to close it. -/
def kernelCleanupLeaves : List String :=
  ["provider_request_ready", "provider_response_ready", "plan_ready", "completion_pending",
    "control_ready", "closing", "tool_effect_pending", "tool_delivery_pending"]

def kernelCleanupRequired (t : CheckpointData) : Bool :=
  match t.state.operation with
  | some operation =>
    t.state.truthy "pending_effect_ids" || kernelCleanupLeaves.contains (operation.strD "leaf")
  | none => false

/-- A queued steering receipt may settle without a provider task of its own. -/
def validInputConsumption (previous : CheckpointData) (current : CheckpointData) : Bool :=
  previous.phase = .accepted && previous.status = .pending
    && previous.state.get? "input_mode" = some (.str "steer")
    && previous.state.get? "input_state" = some (.str "queued")
    && !previous.state.truthy "attempt_token"
    && current.phase = .completed && current.status = .completed
    && current.state.get? "input_state" = some (.str "consumed")
    && (match current.state.name? "consumed_by_task_id" with
      | some consumer => consumer ≠ current.taskId
      | none => false)
    && ((current.state.get? "input_entry_id").bind Json.str?).isSome
    && current.state.attemptToken = ""

/-- The attempt fence: the writer names the stored token, and a token changes only by being
released at rest or taken by a claim. -/
def validExecutionAttempt (previous current : CheckpointData) (expected : Option String) : Bool :=
  previous.state.attemptToken = expected.getD ""
    && if current.state.attemptToken = previous.state.attemptToken then
        previous.state.attemptNumber = current.state.attemptNumber
          && previous.state.attemptOwner = current.state.attemptOwner
      else if current.state.attemptToken = "" then
        current.status ∈ [.pending, .waiting, .completed, .failed, .cancelled]
          && current.state.attemptNumber = previous.state.attemptNumber
      else
        previous.status = .pending && current.status = .running
          && previous.state.attemptToken = ""
          && current.state.attemptNumber = previous.state.attemptNumber + 1

end Codey
