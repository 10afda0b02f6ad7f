import Codey.Durable.Calls
import Codey.Durable.Workflows

/-!
# The other operations

The session operations that `Call` leaves out. Most of them write no stored task at all; the others
place queued inputs, withdraw or revise them, or merge a map into the state of a task.
-/

namespace Codey

/-- What a commit without effects and without the checkpoint of a stored task may carry: history,
submissions and artifacts, and the checkpoint of a task that it admits. -/
structure Passive where
  conversationId : String
  expectedRevision : Nat
  entries : List EntryDraft := []
  submission : Option SubmissionDraft := none
  admitted : Option { t : TaskCheckpoint // t.revision = 0 } := none
  submissionUpdate : Option SubmissionUpdate := none
  artifacts : List ArtifactRecord := []
  createConversation : Option CreateConversation := none
  deleteConversation : Bool := false
  branchEntryId : Option String := none
  editedEntryId : Option String := none
  replacedRunIds : List String := []

def Passive.mutation (p : Passive) : MutationData where
  conversationId := p.conversationId
  expectedRevision := p.expectedRevision
  entries := p.entries
  submission := p.submission
  task := p.admitted.map (·.1)
  submissionUpdate := p.submissionUpdate
  artifacts := p.artifacts
  createConversation := p.createConversation
  deleteConversation := p.deleteConversation
  branchEntryId := p.branchEntryId
  editedEntryId := p.editedEntryId
  replacedRunIds := p.replacedRunIds

namespace Session

variable (c : Session)

/-! ### Placing inputs -/

/-- The placement of a queued input that no running task consumes. -/
def placeWaiting (task : TaskCheckpoint) (row : SubmissionRow) (head : Option String)
    (entryId : String) : Except Error Placement := do
  require (!task.status.terminal) (.commitConflict "cannot place a terminal task")
  require (((row.content.get? "text").bind Json.str?).any fun text => !text.toList.all blank)
    (.commitConflict "queued submission has no input text")
  let entry ← EntryDraft.make entryId row.conversationId head "user_message"
    (((row.content.obj? "message_metadata").getD []).set "text"
      ((row.content.get? "text").getD .null)) (some task.taskId)
  let next ← TaskCheckpoint.make (placedState task entry.entryId "" false)
  let update ← SubmissionUpdate.make {
    submissionId := row.id, conversationId := row.conversationId
    expectedStatus := row.status, status := row.status
    inputEntryId := some entry.entryId, placement := some .placed }
  pure ⟨some entry, some next, update⟩

/-- Place one queued input; how a passive write is placed is given. -/
def placeSubmission (submissionId entryId : String)
    (write : SubmissionRow → Except Error (Option EntryDraft × SubmissionUpdate)) : Op Unit := do
  match ← look (·.submissions.get? submissionId) with
  | none => Prog.ofExcept (.error (.keyError ("unknown submission: " ++ submissionId)))
  | some row =>
    if row.placement = .placed then pure ()
    else do
      ensure (row.status = .queued) (.commitConflict "only queued submissions may be placed")
      if row.mode = .write then do
        let (entry, update) ← Prog.ofExcept (write row)
        let (_, revision) ← view (·.head row.conversationId)
        let _ ← c.commitData {
          conversationId := row.conversationId, expectedRevision := revision
          entries := entry.toList, submissionUpdate := some update }
      else do
        let tasks ← look (·.tasks.rows)
        match tasks.find? (·.submissionId = submissionId) with
        | none => Prog.ofExcept (.error (.commitConflict "queued submission has no task"))
        | some task => do
          let (head, revision) ← view (·.head task.conversationId)
          let placed ← Prog.ofExcept (placeWaiting task row head entryId)
          let _ ← c.commitData {
            conversationId := task.conversationId, expectedRevision := revision
            entries := placed.entry.toList, task := placed.task
            submissionUpdate := some placed.update
            expectedAttemptToken := some task.state.attemptToken }

/-- Place one selected submission at a boundary that no task owns. -/
def placeAlone (b : Boundary) (conversationId : String) (tasks : List TaskCheckpoint)
    (head : Option String) (row : SubmissionRow) (entryId : String) : Except Error Placement :=
  if row.mode = .write then do
    let (entry, update) ← b.write row
    pure ⟨entry, none, update⟩
  else
    match (tasks.filter fun t =>
      t.conversationId = conversationId && t.submissionId = row.id).getLast? with
    | none => .error (.commitConflict "queued submission has no task")
    | some task => placeWaiting task row head entryId

/-- The placements of a boundary that no task owns. -/
def placeUnowned (b : Boundary) (conversationId : String) (tasks : List TaskCheckpoint) :
    Option String → List (SubmissionRow × String) → Except Error (List Placement)
  | _, [] => .ok []
  | head, (row, entryId) :: selected => do
    let placed ← placeAlone b conversationId tasks head row entryId
    let rest ← placeUnowned b conversationId tasks
      ((placed.entry.map (·.entryId)).or head) selected
    pure (placed :: rest)

/-- Place the inputs that a generation boundary selects. -/
def placeBoundaryInputs (b : Boundary) (conversationId : String) : Op Unit := do
  let queued ← look (·.queuedRows (some conversationId))
  let selected := b.select queued
  let (head, revision) ← view (·.head conversationId)
  let tasks ← look (·.tasks.rows)
  let placements ← Prog.ofExcept (placeUnowned b conversationId tasks head selected)
  if placements.isEmpty then pure ()
  else do
    let _ ← c.commitData {
      conversationId, expectedRevision := revision
      entries := placements.filterMap (·.entry), taskUpdates := placements.filterMap (·.task)
      submissionUpdates := placements.map (·.update) }

/-- Commit the placement of a boundary and the checkpoint of the active task together. -/
def commitGenerationBoundary (b : Boundary) (conversationId taskId : String) : Op Unit := do
  let active ← view (·.task taskId)
  ensure (active.conversationId = conversationId)
    (.commitConflict "generation boundary task conversation mismatch")
  ensure (!active.status.terminal)
    (.commitConflict "cannot advance a terminal generation task")
  let queued ← look (·.queuedRows (some conversationId))
  let selected := b.select queued
  let (head, revision) ← view (·.head conversationId)
  let tasks ← look (·.tasks.rows)
  let placements ← Prog.ofExcept (placeAll b conversationId taskId tasks head selected)
  let active ← view (·.task taskId)
  let next ← Prog.ofExcept (TaskCheckpoint.make { active.toCheckpointData with
    revision := active.revision + 1
    state := active.state.merge [("generation_boundary", .str b.at_)] })
  let updates := placements.filterMap (·.task) ++ [next]
  let _ ← c.commitData {
    conversationId, expectedRevision := revision, entries := placements.filterMap (·.entry)
    task := updates.find? (·.taskId = taskId), taskUpdates := updates.filter (·.taskId ≠ taskId)
    submissionUpdates := placements.map (·.update) }

/-! ### Queued inputs -/

/-- The checkpoint of a task whose queued input was withdrawn. -/
def withdrawnState (task : TaskCheckpoint) : CheckpointData :=
  { task.toCheckpointData with
    phase := .cancelled
    revision := task.revision + 1
    state := (releaseAttemptState task.state).merge [("cancel_requested", .bool true),
      ("cancel_reason", .str "aborted"), ("pending_effect_ids", .arr [])]
    pendingEffectId := none
    status := .cancelled }

/-- Withdraw one queued item by its position in the inbox of a conversation. -/
def withdrawQueuedSubmissionAt (conversationId : String) (position : Nat)
    (expectedSubmissionId : Option String) : Op Unit := do
  let queued ← look (·.queuedRows (some conversationId))
  match queued[position]? with
  | none => Prog.ofExcept (.error (.indexError "queued submission position is out of range"))
  | some row => do
    ensure (expectedSubmissionId.all (· = row.id))
      (.commitConflict "queued submission position changed")
    let update ← Prog.ofExcept (SubmissionUpdate.make {
      submissionId := row.id, conversationId, expectedStatus := .queued, status := .unanswered
      reason := some "aborted" })
    if row.mode = .write then do
      let (_, revision) ← view (·.head conversationId)
      let _ ← c.commitData {
        conversationId, expectedRevision := revision, submissionUpdate := some update }
    else do
      let tasks ← look (·.tasks.rows)
      match tasks.find? (·.submissionId = row.id) with
      | none => Prog.ofExcept (.error (.commitConflict "queued input has no task checkpoint"))
      | some task => do
        ensure (task.status = .pending) (.commitConflict "queued input is no longer pending")
        let (_, revision) ← view (·.head conversationId)
        let effects ← look (·.effectsForTask task.taskId)
        ensure (effects.all (·.settlement.isSome))
          (.commitConflict "queued input has unsettled effects")
        let next ← Prog.ofExcept (TaskCheckpoint.make (withdrawnState task))
        let _ ← c.commitData {
          conversationId, expectedRevision := revision, task := some next
          submissionUpdate := some update }

/-- The map that a revision of a queued input merges into the state of its task. -/
def revisedInput (text mode : Option String) : Fields :=
  (text.map fun text => [("input_text", Json.str text), ("task", .str text)]).toList.flatten ++
    (mode.map fun mode => [("input_mode", Json.str mode)]).toList.flatten

/-- Revise an input that is not placed yet, and its projection in the state of the task. -/
def reviseQueuedInput (taskId : String) (expectedRevision : Nat) (text : Option String)
    (mode : Option SubmissionMode) : Op Unit := do
  let current ← view (·.task taskId)
  ensure (current.revision = expectedRevision) (.commitConflict "input revision conflict")
  let submission ← view (·.submission current.submissionId)
  ensure (current.status = .pending && current.phase = .accepted
      && current.state.get? "input_state" = some (.str "queued")
      && current.state.attemptToken = "" && submission.placement = .queued
      && submission.status = .queued)
    (.commitConflict "input is already placed or settled")
  ensure (text.all fun text => 0 < (strip text.toList).length && (strip text.toList).length ≤ 64000)
    (.valueError "invalid input text")
  ensure (mode.all fun mode => mode = .steer || mode = .followUp)
    (.valueError "invalid input mode")
  ensure (current.state.obj? "input_request").isSome
    (.commitConflict "queued input request unavailable")
  let (_, revision) ← view (·.head current.conversationId)
  let next ← Prog.ofExcept (TaskCheckpoint.make { current.toCheckpointData with
    revision := current.revision + 1
    state := current.state.merge (revisedInput text (mode.map (·.name))) })
  let update ← Prog.ofExcept (SubmissionUpdate.make {
    submissionId := submission.submissionId, conversationId := current.conversationId
    expectedStatus := submission.status, status := submission.status
    content := text.map fun text => (submission.content.getD []).set "text" (.str text), mode })
  let _ ← c.commitData {
    conversationId := current.conversationId, expectedRevision := revision, task := some next
    submissionUpdate := some update }

/-! ### Maps -/

/-- Derive a map from a task and merge it; none verifies a read without a commit. -/
def transformTaskState (taskId : String)
    (transform : TaskCheckpoint → Except Error (Option Fields)) : Op Unit := do
  let current ← view (·.task taskId)
  match ← Prog.ofExcept (transform current) with
  | none => pure ()
  | some patch => do
    let _ ← c.updateTaskState taskId patch (some current.revision)

/-- `_record_immutable_task_state`: the first value of a key wins. -/
def recordImmutableTaskState (taskId key : String) (value : Fields) (conflict : String) :
    Op Unit := do
  let current ← view (·.task taskId)
  match (current.state.get? key).getD .null with
  | .null => do
    let (_, revision) ← view (·.head current.conversationId)
    let next ← Prog.ofExcept (TaskCheckpoint.make { current.toCheckpointData with
      revision := current.revision + 1, state := current.state.merge [(key, .obj value)] })
    let _ ← c.commitData {
      conversationId := current.conversationId, expectedRevision := revision, task := some next }
  | existing => ensure (existing.pyEq (.obj value)) (.commitConflict conflict)

def recordTaskPolicy (taskId : String) (policy : Fields) : Op Unit :=
  c.recordImmutableTaskState taskId "task_policy" policy
    "task authorization snapshot is immutable"

def recordReviewerSelection (taskId : String) (selection : Fields) : Op Unit :=
  c.recordImmutableTaskState taskId "reviewer_selection" selection
    "reviewer selection is immutable"

end Session

/-! ### Operations -/

/-- An operation of a session: a call, one of those above, a migration of the stored workflows, an
approval step that carries a checkpoint of its caller, or one that commits nothing of a stored
task. -/
inductive Operation where
  | call (request : Call)
  | passive (c : Session) (p : Passive)
  | placeSubmission (c : Session) (submissionId entryId : String)
      (write : SubmissionRow → Except Error (Option EntryDraft × SubmissionUpdate))
  | placeBoundaryInputs (c : Session) (b : Session.Boundary) (conversationId : String)
  | commitGenerationBoundary (c : Session) (b : Session.Boundary) (conversationId taskId : String)
  | withdrawQueuedSubmissionAt (c : Session) (conversationId : String) (position : Nat)
      (expectedSubmissionId : Option String)
  | reviseQueuedInput (c : Session) (taskId : String) (expectedRevision : Nat)
      (text : Option String) (mode : Option SubmissionMode)
  | transformTaskState (c : Session) (taskId : String)
      (transform : TaskCheckpoint → Except Error (Option Fields))
  | recordTaskPolicy (c : Session) (taskId : String) (policy : Fields)
  | recordReviewerSelection (c : Session) (taskId : String) (selection : Fields)
  | reconcileWorkflows (c : Session) (definitions : Workflows)
  | transitionApproval (c : Session) (approvalId : String) (approval : ApprovalRecord)
      (expectedStatus : ApprovalStatus) (task : TaskCheckpoint)

def Operation.prog : Operation → Op Unit
  | call request => request.prog
  | passive c p => do let _ ← c.commitData p.mutation
  | placeSubmission c submissionId entryId write => c.placeSubmission submissionId entryId write
  | placeBoundaryInputs c b conversationId => c.placeBoundaryInputs b conversationId
  | commitGenerationBoundary c b conversationId taskId =>
    c.commitGenerationBoundary b conversationId taskId
  | withdrawQueuedSubmissionAt c conversationId position expected =>
    c.withdrawQueuedSubmissionAt conversationId position expected
  | reviseQueuedInput c taskId expectedRevision text mode =>
    c.reviseQueuedInput taskId expectedRevision text mode
  | transformTaskState c taskId transform => c.transformTaskState taskId transform
  | recordTaskPolicy c taskId policy => c.recordTaskPolicy taskId policy
  | recordReviewerSelection c taskId selection => c.recordReviewerSelection taskId selection
  | reconcileWorkflows c definitions => do let _ ← c.reconcileWorkflows definitions
  | transitionApproval c approvalId approval expectedStatus task => do
    let _ ← c.transitionApproval approvalId approval expectedStatus (some task)

end Codey
