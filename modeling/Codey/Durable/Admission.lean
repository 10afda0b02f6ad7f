import Codey.Durable.Session

/-!
# Input admission

`admit_input`: the commit that brings a task into being together with its submission and its
first entry.
-/

namespace Codey

/-- A versioned workflow that a task runs. -/
structure Workflow where
  name : String
  version : Int := 1
  input : Fields := []
  checkpoint : Fields := []
  replayContract : String := "deterministic-v1"

/-- The history edit that an input replaces a message by, as `prepare_edit` resolved it. -/
structure InputEdit where
  entryId : String
  localParent : Option String
  parent : Option String
  replacedRunIds : List String

/-- The arguments of `admit_input`. The ids that the source draws at random, the fingerprint of
the request, its checked message metadata, the tool results it answers and the edit it makes are
given. -/
structure Admission where
  conversationId : String
  requestId : String
  taskId : String
  text : String
  providerSnapshot : Fields := []
  taskState : Fields := []
  initialPhase : Phase := .accepted
  ownerTaskId : Option String := none
  abandonOnRestart : Bool := false
  workflow : Option Workflow := none
  placement : SubmissionPlacement := .placed
  mode : SubmissionMode := .followUp
  entryId : String
  submissionId : String
  fingerprint : String := ""
  metadata : Fields := []
  toolEntries : List EntryDraft := []
  edit : Option InputEdit := none

namespace Session

variable (c : Session)

/-- The workflow facts of a new task. -/
def workflowState (w : Workflow) : Fields :=
  [("workflow_name", .str w.name), ("workflow_version", .int w.version),
    ("workflow_input", .obj w.input), ("workflow_checkpoint", .obj w.checkpoint),
    ("workflow_replay_contract", .str w.replayContract),
    ("workflow_replay_digest", .str (c.digest (.obj [
      ("checkpoint", .obj w.checkpoint), ("input", .obj w.input), ("name", .str w.name),
      ("version", .int w.version)])))]

def optionalStr (value : Option String) : Json := (value.map Json.str).getD .null

/-- The state of a new task. -/
def admittedState (a : Admission) (entry : Option EntryDraft) : Fields :=
  ((a.taskState.merge [
      ("input_state", .str (if a.placement = .queued then "queued" else "placed")),
      ("input_text", .str a.text),
      ("input_mode", .str a.mode.name),
      ("owner_task_id", optionalStr a.ownerTaskId),
      ("abandon_on_restart", .bool a.abandonOnRestart)]).merge
    (entry.map fun e => [("input_entry_id", Json.str e.entryId)]).toList.flatten).merge
    (a.workflow.map c.workflowState).toList.flatten

/-- The user entry of a placed input, after the tool results that it answers. -/
def inputEntry (a : Admission) (head : Option String) : Except Error (Option EntryDraft) :=
  if a.placement = .placed then do
    let entry ← EntryDraft.make a.entryId a.conversationId head "user_message"
      ((Fields.merge [("text", .str a.text)] a.metadata).merge
        ((a.edit.map fun edit => [("edited_entry_id", Json.str edit.entryId),
          ("edit_parent_entry_id", optionalStr edit.parent)]).toList.flatten))
      (some a.taskId)
    pure (some entry)
  else .ok none

/-- The checks of `admit_input` that read no store. -/
def validateAdmission (a : Admission) : Except Error Unit := do
  require (!a.text.toList.all blank) (.valueError "input text is required")
  require (a.initialPhase = .accepted || a.initialPhase = .dispatching)
    (.valueError "input admission phase must be accepted or dispatching")
  require (a.ownerTaskId ≠ some a.taskId) (.valueError "a task cannot own itself")

/-- The workflow checks of `admit_input`. -/
def validateWorkflow (w : Workflow) : Except Error Unit := do
  require (w.name ≠ "") (.valueError "workflow name is required")
  require (1 ≤ w.version) (.valueError "workflow version must be a positive integer")
  require (w.replayContract ≠ "") (.valueError "workflow replay contract is required")

def ensureOwner : Option String → Op Unit
  | none => pure ()
  | some owner => do
    let found ← look (·.tasks.get? owner)
    ensure found.isSome (.valueError ("owner task does not exist: " ++ owner))

/-- The head and revision of a conversation, which the admission creates if it is missing. -/
def readHead (conversationId : String) : Op (Option String × Nat × Option CreateConversation) := do
  let exists_ ← look (·.hasConversation conversationId)
  if exists_ then do
    let (head, revision) ← view (·.head conversationId)
    pure (head, revision, none)
  else pure (none, 0, some .root)

/-- Atomically admit one input. -/
def admitInput (a : Admission) : Op CommitResult := do
  c.ensureUsable
  Prog.ofExcept (validateAdmission a)
  ensureOwner a.ownerTaskId
  Prog.ofExcept (checkAll a.workflow.toList validateWorkflow)
  let (head, revision, creation) ← readHead a.conversationId
  let existing ← view (·.submissionResultForRequest a.conversationId a.requestId a.fingerprint)
  match existing with
  | some result => pure result
  | none => do
    let head := match a.edit with
      | some edit => edit.localParent
      | none => head
    ensure (creation.isNone || a.toolEntries.isEmpty)
      (.commitConflict "a new conversation has no unanswered tool calls")
    let head := (a.toolEntries.getLast?.map (·.entryId)).or head
    let entry ← Prog.ofExcept (inputEntry a head)
    let submission ← Prog.ofExcept (SubmissionDraft.make {
      submissionId := a.submissionId, requestId := a.requestId
      conversationId := a.conversationId, entry, fingerprint := a.fingerprint
      placement := a.placement, mode := a.mode
      content := some [("message_metadata", .obj a.metadata), ("text", .str a.text)] })
    let task ← Prog.ofExcept (TaskCheckpoint.make {
      taskId := a.taskId, conversationId := a.conversationId, submissionId := a.submissionId
      phase := a.initialPhase, revision := 0, providerSnapshot := a.providerSnapshot
      state := c.admittedState a entry, status := taskStatusForPhase a.initialPhase })
    c.commitData {
      conversationId := a.conversationId, expectedRevision := revision
      entries := a.toolEntries ++ entry.toList, submission := some submission, task := some task
      createConversation := creation, editedEntryId := a.edit.map (·.entryId)
      replacedRunIds := (a.edit.map (·.replacedRunIds)).getD [] }

end Session

end Codey
