import Codey.Durable.Session

/-!
# Scheduler operations

The operations of a session on the scheduler state of tasks: claiming and releasing attempts,
waiting, cancellation over the ownership tree, completion that is held until owned work drains, and
the two reconciliations. Values that the source draws at random (attempt tokens, entry ids) are
arguments.
-/

namespace Codey

/-- `state[key] == value` in both directions of inclusion. -/
def sameSet (xs ys : List String) : Bool := xs.all (ys.contains ·) && ys.all (xs.contains ·)

namespace Session

variable (c : Session)

/-! ### Ending a task -/

def pendingTuple? (state : Fields) : Option (List String) :=
  match state.get? "pending_effect_ids" with
  | none => some []
  | some (.arr _) => some state.pendingEffectIds
  | some _ => none

def unsettled (effects : List EffectRecord) : List String :=
  (effects.filter (·.settlement.isNone)).map (·.effectId)

/-- The pending index, when it agrees with the effect rows. -/
def agreedPending (state : Fields) (effects : List EffectRecord) : Except Error (List String) :=
  match pendingTuple? state with
  | some pending =>
    if sameSet (unsettled effects) pending then .ok pending
    else .error (.commitConflict "task checkpoint and pending effects disagree")
  | none => .error (.commitConflict "task checkpoint and pending effects disagree")

/-- The keys that a lifecycle failure may not replace. -/
def authoritativeKeys : List String :=
  ["operation", "delivery_batches", "pending_effect_ids", "approvals"]

def failedState (state patch : Fields) (pending : List String) : Fields :=
  releaseAttemptState
    ((state.merge patch).merge [("pending_effect_ids", Fields.ofStrs pending)])

/-- Stop scheduling and fail the submission without asserting effect outcomes. -/
def failTask (taskId reason : String) (state : Fields) (expectedAttemptToken : Option String) :
    Op CommitResult := do
  c.ensureUsable
  let current ← view (·.task taskId)
  let (_, revision) ← view (·.head current.conversationId)
  let effects ← look (·.effectsForTask taskId)
  Prog.ofExcept (checkAll authoritativeKeys fun key =>
    require ((state.get? key).all fun v => v.pyEq ((current.state.get? key).getD .null))
      (.commitConflict ("task failure cannot replace authoritative " ++ key)))
  let pending ← Prog.ofExcept (agreedPending current.state effects)
  let next ← Prog.ofExcept (TaskCheckpoint.make { current.toCheckpointData with
    phase := .failed
    revision := current.revision + 1
    state := failedState current.state state pending
    status := .failed })
  let submission ← view (·.submission current.submissionId)
  let update ← Prog.ofExcept (SubmissionUpdate.make {
    submissionId := submission.submissionId, conversationId := current.conversationId
    expectedStatus := submission.status, status := .unanswered, reason := some reason })
  c.commitData {
    conversationId := current.conversationId, expectedRevision := revision, task := some next
    submissionUpdate := some update, expectedAttemptToken }

/-- The cancellation of a submission that has not settled. -/
def cancelUpdate (submission : SubmissionRecord) (conversationId reason : String) :
    Except Error (Option SubmissionUpdate) :=
  if submission.status = .queued || submission.status = .running then do
    let update ← SubmissionUpdate.make {
      submissionId := submission.submissionId, conversationId
      expectedStatus := submission.status, status := .cancelled, reason := some reason }
    pure (some update)
  else .ok none

/-- Close a task as cancelled: recovery wins over the attempt that held it. -/
def cancelTerminal (current : TaskCheckpoint) (state : Fields) (reason : String) :
    Op CommitResult := do
  let (_, revision) ← view (·.head current.conversationId)
  let effects ← look (·.effectsForTask current.taskId)
  let _ ← Prog.ofExcept (agreedPending current.state effects)
  let next ← Prog.ofExcept (TaskCheckpoint.make { current.toCheckpointData with
    phase := .cancelled
    revision := current.revision + 1
    state := releaseAttemptState state
    status := .cancelled })
  let submission ← view (·.submission current.submissionId)
  let update ← Prog.ofExcept (cancelUpdate submission current.conversationId reason)
  c.commitData {
    conversationId := current.conversationId, expectedRevision := revision, task := some next
    submissionUpdate := update, expectedAttemptToken := some current.state.attemptToken }

/-! ### Attempts -/

/-- The state of a task that a session has claimed. -/
def claimedState (state : Fields) (token : String) : Fields :=
  state.merge [
    ("attempt_number", .int (state.attemptNumber + 1)),
    ("attempt_owner", .str c.ownerId),
    ("attempt_token", .str token),
    ("attempt_process_id", .int c.processId)]

def claimTask (taskId token : String) : Op CommitResult := do
  c.ensureUsable
  let current ← view (·.task taskId)
  ensure (current.status = .pending)
    (.valueError ("task is not pending: " ++ current.status.name))
  ensure (!current.phase.terminal)
    (.valueError ("task is not dispatchable: " ++ current.phase.name))
  c.commitTask { current.toCheckpointData with
      phase := if current.phase = .accepted then .dispatching else current.phase
      revision := current.revision + 1
      state := c.claimedState current.state token
      status := .running }
    (some current.state.attemptToken)

def unclaimTask (taskId : String) : Op CommitResult := do
  c.ensureUsable
  let current ← view (·.task taskId)
  ensure (current.status = .running)
    (.valueError ("task is not running: " ++ current.status.name))
  c.commitTask { current.toCheckpointData with
      phase := if current.phase = .dispatching then .accepted else current.phase
      revision := current.revision + 1
      state := releaseAttemptState current.state
      status := .pending }
    none

/-- `str(state.get("cancel_reason") or "cancelled")`. -/
def cancelReason (state : Fields) : String :=
  ApprovalRecord.textD state "cancel_reason" "cancelled"

/-- What a parked task waits for, and how. -/
structure Wait where
  state : Option Fields := none
  on : Option (List String) := none
  joinPolicy : String := "allSettled"

/-- The dependencies of a parked task: those given, each once, or those it had. -/
def waitDependencies (state : Fields) (w : Wait) : List String :=
  (w.on.map List.eraseDups).getD state.waitingOn

/-- The walk of `wait_task` from one dependency: it follows the first dependency of each task it
visits, and looks for `taskId` in the whole list of each. The walk visits a task once, so the
number of tasks bounds it. -/
def waitWalk (known : String → Option TaskCheckpoint) (taskId : String) :
    Nat → List String → TaskCheckpoint → Except Error Unit
  | 0, _, _ => .ok ()
  | fuel + 1, walked, cursor =>
    match cursor.state.waitingOn with
    | [] => .ok ()
    | first :: _ =>
      if walked.contains cursor.taskId then .ok ()
      else if cursor.state.waitingOn.contains taskId then .error (.commitConflict "task wait cycle")
      else match known first with
        | none => .ok ()
        | some next => waitWalk known taskId fuel (cursor.taskId :: walked) next

/-- The checks of `wait_task` on the dependencies. -/
def validateWait (taskId : String) (dependencies : List String) (tasks : TaskTable) :
    Except Error Unit := do
  require (!dependencies.contains taskId) (.commitConflict "a task cannot wait on itself")
  checkAll dependencies fun dependency => match tasks.get? dependency with
    | none => .error (.commitConflict ("unknown waiting task: " ++ dependency))
    | some cursor => waitWalk tasks.get? taskId (tasks.rows.length + 1) [] cursor

def answered (current : TaskCheckpoint) (state : Option Fields) : Bool :=
  state.any (fun s => s.get? "stop_reason" = some (.str "question"))
    && (current.state.obj? "question").any fun q => q.get? "state" = some (.str "answered")

def parkedState (state : Fields) (dependencies : List String) (w : Wait) : Fields :=
  (releaseAttemptState (state.merge (w.state.getD []))).merge [
    ("waiting_on", Fields.ofStrs dependencies),
    ("join_policy", .str w.joinPolicy),
    ("join_wait", .bool w.on.isSome)]

/-- Park a live task at its exact logical checkpoint. -/
def waitTask (taskId : String) (w : Wait) : Op CommitResult := do
  c.ensureUsable
  let current ← view (·.task taskId)
  ensure (current.status = .running || current.status = .pending)
    (.valueError ("task is not live: " ++ current.status.name))
  let patch := w.state.getD []
  if current.state.cancelRequested then
    if kernelCleanupRequired current.toCheckpointData then c.unclaimTask taskId
    else c.cancelTerminal current (current.state.merge patch) (cancelReason current.state)
  else do
    ensure (w.joinPolicy = "failFast" || w.joinPolicy = "allSettled")
      (.valueError "unknown task join policy")
    let dependencies := waitDependencies current.state w
    let tasks ← look (·.tasks)
    Prog.ofExcept (validateWait taskId dependencies tasks)
    c.commitTask { current.toCheckpointData with
        revision := current.revision + 1
        state := parkedState current.state dependencies w
        status := if answered current w.state then .pending else .waiting }
      (some current.state.attemptToken)

/-! ### Cancellation over the ownership tree -/

/-- Visit the children that were not seen yet, each before it is listed. -/
def visitChildren (visit : String → List String × List TaskCheckpoint →
    Op (List String × List TaskCheckpoint)) :
    List TaskCheckpoint → List String × List TaskCheckpoint →
    Op (List String × List TaskCheckpoint)
  | [], found => pure found
  | child :: children, found =>
    if found.1.contains child.taskId then visitChildren visit children found
    else do
      let found ← visit child.taskId (child.taskId :: found.1, found.2)
      visitChildren visit children (found.1, found.2 ++ [child])

/-- The recursion of `_owned_descendants`. -/
def visitOwned : Nat → String → List String × List TaskCheckpoint →
    Op (List String × List TaskCheckpoint)
  | 0, _, _ => .throw .recursionError
  | depth + 1, parent, found => do
    let children ← look (·.ownedDependents parent)
    visitChildren (visitOwned depth) children found

/-- The durable ownership subtree, deepest children first. -/
def ownedDescendants (depth : Nat) (taskId : String) : Op (List TaskCheckpoint) := do
  let found ← visitOwned depth taskId ([], [])
  pure found.2

def liveOwnedDescendants (depth : Nat) (taskId : String) : Op (List TaskCheckpoint) := do
  let descendants ← ownedDescendants depth taskId
  pure (descendants.filter (!·.status.terminal))

/-- The status of an owner that is held until its owned work has drained. -/
def heldStatus (status : TaskStatus) : TaskStatus :=
  match status with
  | .running => .running
  | .completing => .completing
  | _ => .waiting

def holdCancel (current : TaskCheckpoint) (state : Fields) (status : TaskStatus) :
    Op CommitResult :=
  c.commitTask { current.toCheckpointData with revision := current.revision + 1, state, status }
    (some current.state.attemptToken)

/-- The result of a call that finds nothing left to do. -/
def unchanged (current : TaskCheckpoint) : Op CommitResult := do
  let sequence ← look (·.sequence)
  pure ⟨current.revision, sequence, none⟩

def cancelState (state : Fields) (reason : String) : Fields :=
  state.merge [("cancel_requested", .bool true), ("cancel_reason", .str reason)]

/-- Pass a cancellation down: running descendants receive the barrier first, queued ones are
closed at once. -/
def cancelChildren (request cancel : String → Op CommitResult) : List TaskCheckpoint → Op Unit
  | [] => pure ()
  | child :: children => do
    if child.status.terminal then cancelChildren request cancel children
    else do
      let _ ← if child.status = .running then request child.taskId else cancel child.taskId
      cancelChildren request cancel children

mutual
/-- Durably publish cancellation intent before stopping a worker. -/
def requestCancel (depth : Nat) (taskId reason : String) (stateUpdate : Fields)
    (expectedRevision : Option Nat) : Op CommitResult :=
  match depth with
  | 0 => .throw .recursionError
  | depth + 1 => do
    c.ensureUsable
    let current ← view (·.task taskId)
    ensure (expectedRevision.all (· = current.revision)) (.commitConflict "task revision changed")
    if current.status.terminal || (current.state.cancelRequested && stateUpdate.isEmpty) then
      unchanged current
    else do
      let descendants ← ownedDescendants depth taskId
      cancelChildren (fun id => requestCancel depth id reason [] none)
        (fun id => cancelTask depth id reason) descendants
      let current ← view (·.task taskId)
      let state := cancelState (current.state.merge stateUpdate) reason
      let live ← liveOwnedDescendants depth taskId
      if !live.isEmpty then c.holdCancel current state (heldStatus current.status)
      else if current.status = .running || kernelCleanupRequired current.toCheckpointData then
        c.holdCancel current state (if current.status = .running then .running else .pending)
      else c.cancelTerminal current state reason

/-- Atomically close cancellation after the worker and its effects have stopped. -/
def cancelTask (depth : Nat) (taskId reason : String) : Op CommitResult :=
  match depth with
  | 0 => .throw .recursionError
  | depth + 1 => do
    c.ensureUsable
    let current ← view (·.task taskId)
    if current.status = .cancelled then unchanged current
    else do
      ensure (!current.status.terminal)
        (.commitConflict ("terminal task cannot be cancelled: " ++ current.status.name))
      let descendants ← ownedDescendants depth taskId
      cancelChildren (fun id => requestCancel depth id reason [] none)
        (fun id => cancelTask depth id reason) descendants
      let current ← view (·.task taskId)
      let state := cancelState current.state reason
      let live ← liveOwnedDescendants depth taskId
      if !live.isEmpty then c.holdCancel current state (heldStatus current.status)
      else c.cancelTerminal current state reason
end

/-! ### Recovery -/

/-- Whether recovery leaves a running task to the process that claimed it. -/
def attemptAlive (current : TaskCheckpoint) : Bool :=
  0 < current.state.attemptProcessId
    && (current.state.attemptProcessId = c.processId || c.alive current.state.attemptProcessId)

/-- Return one abandoned attempt to the pending queue, or close it. -/
def recoverTask (task : TaskCheckpoint) : Op CommitResult :=
  if task.state.get? "abandon_on_restart" = some (.bool true) then
    c.failTask task.taskId "abandoned on restart" [("abort_reason", .str "restart")]
      (some task.state.attemptToken)
  else if task.state.cancelRequested && !kernelCleanupRequired task.toCheckpointData then
    c.cancelTerminal task (task.state.merge [("cancel_requested", .bool true)])
      (cancelReason task.state)
  else
    c.commitTask { task.toCheckpointData with
        revision := task.revision + 1
        state := releaseAttemptState task.state
        status := .pending }
      (some task.state.attemptToken)

/-- Go on after a commit that lost its race. -/
def skipConflict (e : Error) : Op Unit :=
  match e with
  | .commitConflict _ => pure ()
  | e => .throw e

/-- Return abandoned scheduler ownership to the durable pending queue. -/
def recoverSchedulerState (force : Bool) : Op Unit := do
  c.ensureUsable
  let tasks ← look (·.pendingTasks)
  Prog.forEach tasks fun task =>
    if task.status ≠ .running || (!force && c.attemptAlive task) then pure ()
    else (do let _ ← c.recoverTask task).handle skipConflict

/-! ### Completion -/

/-- The keys of a checkpoint that a task step cannot replace. -/
def executionStateKeys : List String :=
  ["attempt_token", "attempt_owner", "attempt_process_id", "attempt_number", "input_state",
    "question", "resume_input", "resume_entry_id", "operation", "delivery_batches", "approvals"]

/-- One task step and its submission outcome. -/
structure Advance where
  phase : Phase
  state : Fields
  answer : Option (String × String) := none
  submissionStatus : Option SubmissionStatus := none
  reason : Option String := none
  taskStatus : Option TaskStatus := none

/-- The digest of a workflow position, renewed when a step leaves one. -/
def withWorkflowDigest (current : TaskCheckpoint) (merged : Fields) : Fields :=
  match current.state.name? "workflow_name", merged.obj? "workflow_checkpoint" with
  | some name, some checkpoint =>
    let version := match merged.get? "workflow_version", current.state.get? "workflow_version" with
      | some (.int n), _ => n
      | _, some (.int n) => n
      | _, _ => 1
    merged.merge [("workflow_replay_digest", .str (c.digest (.obj [
      ("checkpoint", .obj checkpoint),
      ("input", .obj ((current.state.obj? "workflow_input").getD [])),
      ("name", .str name),
      ("version", .int version)])))]
  | _, _ => merged

def advancedState (current : TaskCheckpoint) (state : Fields) : Fields :=
  c.withWorkflowDigest current
    ((current.state.merge state).merge (current.state.restrict executionStateKeys))

/-- A task step leaves the keys of the execution as they are, and takes the others from the map of
its caller when they are there. -/
lemma get?_advancedState (current : TaskCheckpoint) (state : Fields) {key : String}
    (hkey : key ≠ "workflow_replay_digest") :
    (c.advancedState current state).get? key =
      if key ∈ executionStateKeys then (current.state.get? key).or (state.get? key)
      else (state.get? key).or (current.state.get? key) := by
  have hdigest : ∀ merged : Fields,
      (c.withWorkflowDigest current merged).get? key = merged.get? key := by
    intro merged
    unfold withWorkflowDigest
    split
    · simp [Ne.symm hkey]
    · rfl
  unfold advancedState
  rw [hdigest]
  simp only [Fields.get?_merge, Fields.get?_restrict]
  split_ifs
  · cases current.state.get? key <;> simp
  · simp

/-- The answer entry of a task step. -/
def answerEntries (current : TaskCheckpoint) (head : Option String) :
    Option (String × String) → Except Error (List EntryDraft)
  | none => .ok []
  | some (entryId, answer) => do
    let entry ← EntryDraft.make entryId current.conversationId head "assistant_message"
      [("text", .str answer)] (some current.taskId)
    pure [entry]

/-- The submission outcome of a task step. -/
def advanceUpdate (current : TaskCheckpoint) (a : Advance) : Op (Option SubmissionUpdate) :=
  match a.submissionStatus with
  | none => pure none
  | some status => do
    let submission ← view (·.submission current.submissionId)
    let update ← Prog.ofExcept (SubmissionUpdate.make {
      submissionId := submission.submissionId, conversationId := submission.conversationId
      expectedStatus := submission.status, status, answerEntryId := a.answer.map (·.1)
      reason := a.reason })
    pure (some update)

/-- Persist one task step and its submission outcome atomically. -/
def advanceTask (taskId : String) (a : Advance) : Op CommitResult := do
  c.ensureUsable
  let current ← view (·.task taskId)
  ensure (!current.state.cancelRequested || a.phase = .cancelled || a.phase = .failed)
    (.commitConflict "task cancellation barrier is active")
  let (head, revision) ← view (·.head current.conversationId)
  let entries ← Prog.ofExcept (answerEntries current head a.answer)
  let next ← Prog.ofExcept (TaskCheckpoint.make { current.toCheckpointData with
    phase := a.phase
    revision := current.revision + 1
    state := c.advancedState current a.state
    status := a.taskStatus.getD (taskStatusForPhase a.phase) })
  let update ← advanceUpdate current a
  c.commitData {
    conversationId := current.conversationId, expectedRevision := revision, entries
    task := some next, submissionUpdate := update }

def startTask (taskId : String) (state : Fields) : Op CommitResult :=
  c.advanceTask taskId { phase := .running, state, submissionStatus := some .running }

/-- A task that no worker has started yet. -/
def admitted (current : TaskCheckpoint) : Bool :=
  current.phase = .accepted || current.phase = .dispatching

/-- Keep the answer in the checkpoint until the owned work has drained. -/
def holdCompletion (taskId answer : String) (state : Fields) : Op CommitResult := do
  let current ← view (·.task taskId)
  let current ← if admitted current then do
      let _ ← c.startTask taskId state
      view (·.task taskId)
    else pure current
  if current.phase ≠ .completionPending then do
    let _ ← c.advanceTask taskId {
      phase := .completionPending, state, taskStatus := some .completing }
  c.advanceTask taskId {
    phase := .completionPending
    state := state.merge [("completion_answer", .str answer), ("completion_state", .obj state)]
    taskStatus := some .completing }

def finishTask (taskId answer entryId : String) (state : Fields) : Op CommitResult := do
  c.ensureUsable
  let live ← liveOwnedDescendants c.depth taskId
  if !live.isEmpty then c.holdCompletion taskId answer state
  else c.advanceTask taskId {
    phase := .completed, state, answer := some (entryId, answer), submissionStatus := some .done }

/-- Move a task on to `completion_pending`. -/
def reachCompletion (current : TaskCheckpoint) (state : Fields) : Op Unit := do
  if admitted current then do
    let _ ← c.startTask current.taskId state
  let current ← view (·.task current.taskId)
  if current.phase ≠ .completionPending then do
    let _ ← c.advanceTask current.taskId { phase := .completionPending, state }

/-- Commit the terminal answer after making completion explicit. -/
def completeTask (taskId answer entryId : String) (state : Fields) : Op CommitResult := do
  c.ensureUsable
  let current ← view (·.task taskId)
  let live ← liveOwnedDescendants c.depth taskId
  if !live.isEmpty then c.holdCompletion taskId answer state
  else do
    if current.phase ≠ .completionPending then c.reachCompletion current state
    c.finishTask taskId answer entryId state

/-! ### Reconciliation -/

/-- Read the dependencies of a parked task one by one. -/
def readJoined : List String → Op (List TaskCheckpoint × List String)
  | [] => pure ([], [])
  | dependency :: rest => do
    let found ← look (·.tasks.get? dependency)
    let (children, missing) ← readJoined rest
    match found with
    | some child => pure (child :: children, missing)
    | none => pure (children, dependency :: missing)

/-- A dependency ended without a result. -/
def failedChild (status : TaskStatus) : Bool := status = .failed || status = .cancelled

/-- How each dependency ended. -/
def joinResults (children : List TaskCheckpoint) : Fields :=
  children.foldl (fun results child => Fields.set results child.taskId (.str child.status.name)) []

/-- Reconcile one durable join without relying on scheduler memory. -/
def reconcileWaiting (task : TaskCheckpoint) : Op Unit :=
  if task.status ≠ .waiting || task.state.cancelRequested
      || (task.state.waitingOn.isEmpty && task.state.get? "join_wait" ≠ some (.bool true)) then
    pure ()
  else if task.state.waitingOn.isEmpty then do
    let _ ← c.advanceTask task.taskId {
      phase := task.phase, state := [("waiting_on", .arr [])], taskStatus := some .pending }
  else do
    let (children, missing) ← readJoined task.state.waitingOn
    if !missing.isEmpty then do
      let _ ← c.failTask task.taskId "waiting task disappeared"
        [("join_error", Fields.ofStrs missing)] none
    else match task.state.failFast, children.find? (failedChild ·.status) with
      | true, some failed => do
        let submission ← view (·.submission failed.submissionId)
        let reason := match submission.reason.filter (· ≠ "") with
          | some reason => reason
          | none => "owned task " ++ failed.taskId ++ " did not complete"
        let _ ← c.failTask task.taskId reason [("join_failed_task", .str failed.taskId)] none
      | _, _ =>
        if children.all (·.status.terminal) then do
          let _ ← c.advanceTask task.taskId {
            phase := task.phase
            state := [("waiting_on", .arr []),
              ("join_results", .obj (joinResults children))]
            taskStatus := some .pending }
        else pure ()

/-- Reconcile durable joins: of one task, or of all of them. -/
def reconcileWaitingTasks (taskId : Option String) : Op Unit := do
  c.ensureUsable
  let tasks ← match taskId with
    | none => look (·.tasks.rows)
    | some taskId => do
      let task ← view (·.task taskId)
      pure [task]
  Prog.forEach tasks c.reconcileWaiting

/-- Finish a held outcome or a cancellation intent of a task whose owned work has drained. -/
def reconcileFinal (entryId : String → String) (task : TaskCheckpoint) : Op Unit := do
  let live ← liveOwnedDescendants c.depth task.taskId
  if !live.isEmpty then pure ()
  else if task.state.cancelRequested then do
    let _ ← c.cancelTerminal task task.state (cancelReason task.state)
  else match task.status, task.state.get? "completion_answer" with
    | .completing, some (.str answer) =>
      match task.state.get? "completion_state" with
      | none => do
        let _ ← c.finishTask task.taskId answer (entryId task.taskId) []
      | some (.obj state) => do
        let _ ← c.finishTask task.taskId answer (entryId task.taskId) state
      | some _ => pure ()
    | _, _ => pure ()

/-- The tasks of a list that are still held, as they are stored. -/
def readHeld : List String → Op (List TaskCheckpoint)
  | [] => pure []
  | taskId :: taskIds => do
    let found ← look (·.tasks.get? taskId)
    let rest ← readHeld taskIds
    match found with
    | some task =>
      if task.status = .completing || task.status = .waiting then pure (task :: rest)
      else pure rest
    | none => pure rest

/-- Finish held outcomes and cancellation intents after owned work drains. -/
def reconcileFinalization (taskIds : Option (List String)) (entryId : String → String) :
    Op Unit := do
  c.ensureUsable
  let taskIds ← match taskIds with
    | none => look (·.finalizationQueue)
    | some taskIds => pure taskIds
  Prog.forEach taskIds.eraseDups fun taskId => c.reconcileWaitingTasks (some taskId)
  let selected ← readHeld taskIds.eraseDups
  Prog.forEach selected (c.reconcileFinal entryId)

end Session

end Codey
