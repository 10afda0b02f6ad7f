import Codey.Durable.Session

/-!
# Worker operations

The operations of a session on the effects, approvals and questions of a task, and the checkpoint
mutation that a runtime reducer derives.
-/

namespace Codey

namespace Session

variable (c : Session)

/-! ### Effects -/

def recordEffectIntents (taskId : String) (effects : List EffectRecord) : Op CommitResult := do
  c.ensureUsable
  let current ← view (·.task taskId)
  ensure (!current.state.cancelRequested) (.commitConflict "task cancellation barrier is active")
  ensure (current.status = .running)
    (.commitConflict "only a running task admits unapproved effects")
  let (_, revision) ← view (·.head current.conversationId)
  let next ← Prog.ofExcept (withEffectIntents current effects)
  c.commitData {
    conversationId := current.conversationId, expectedRevision := revision, task := some next
    effects }

def settleEffect (taskId : String) (effect : EffectRecord) (expectedStatus : String)
    (artifacts : List ArtifactRecord) : Op CommitResult := do
  c.ensureUsable
  ensure (effect.taskId = taskId) (.valueError "effect must belong to the task")
  ensure (effect.settlement.isSome && effect.status ≠ "pending")
    (.valueError "effect settlement requires a terminal outcome")
  let current ← view (·.task taskId)
  let (_, revision) ← view (·.head current.conversationId)
  let existing ← view (·.effect effect.effectId)
  if existing.settlement.isSome then do
    ensure (existing.pyEq effect)
      (.commitConflict "effect is already settled with a different outcome")
    let sequence ← look (·.sequence)
    pure ⟨revision, sequence, none⟩
  else do
    let next ← Prog.ofExcept (withEffectSettlement current effect)
    c.commitData {
      conversationId := current.conversationId, expectedRevision := revision, task := some next
      effect := some effect, expectedEffectStatus := some expectedStatus, artifacts }

/-- Record an interrupted external effect without replaying it. -/
def settleUnknownEffect (taskId effectId : String) : Op CommitResult := do
  c.ensureUsable
  let current ← view (·.task taskId)
  let existing ← view (·.effect effectId)
  let receipt ← Prog.ofExcept (interruptedEffect current existing)
  c.settleEffect taskId receipt existing.status []

/-! ### Approvals -/

def createApproval (approval : ApprovalRecord) : Op CommitResult := do
  c.ensureUsable
  let (_, revision) ← view (·.head approval.conversationId)
  c.commitData {
    conversationId := approval.conversationId, expectedRevision := revision
    approval := some approval }

def transitionApproval (approvalId : String) (approval : ApprovalRecord)
    (expectedStatus : ApprovalStatus) (task : Option TaskCheckpoint) : Op CommitResult := do
  c.ensureUsable
  ensure (approval.approvalId = approvalId)
    (.valueError "approval identity does not match transition target")
  let (_, revision) ← view (·.head approval.conversationId)
  c.commitData {
    conversationId := approval.conversationId, expectedRevision := revision, task
    approval := some approval, expectedApprovalStatus := some expectedStatus }

/-- Consume an approval and record its external effect intent together. -/
def claimApprovalAndBeginEffect (approvalId : String) (effect : EffectRecord)
    (expectedStatus : ApprovalStatus) : Op (Option CommitResult) := do
  c.ensureUsable
  let approval ← view (·.approval approvalId)
  let current ← view (·.task approval.taskId)
  ensure (effect.taskId = current.taskId)
    (.commitConflict "approval effect belongs to another task")
  ensure (effect.category = "shell" && effect.status = "pending" && effect.settlement.isNone)
    (.valueError "approval claim requires a pending shell effect intent")
  if approval.status = .executionClaimed then do
    let existing ← view (·.effect effect.effectId)
    ensure (existing.pyEq effect) (.commitConflict "approval shell effect identity changed")
    pure none
  else do
    ensure (approval.status = expectedStatus) (.commitConflict "approval status changed")
    let next ← Prog.ofExcept (withEffectIntents current [effect])
    let claimed ← Prog.ofExcept (ApprovalRecord.make { approval.toApprovalData with
      status := .executionClaimed, revision := approval.revision + 1 })
    let (_, revision) ← view (·.head current.conversationId)
    let result ← c.commitData {
      conversationId := current.conversationId, expectedRevision := revision, task := some next
      effects := [effect], approval := some claimed
      expectedApprovalStatus := some expectedStatus }
    pure (some result)

structure ApprovalOutcome where
  next : CheckpointData
  settled : List EffectRecord
  status : ApprovalStatus

/-- The outcome of a claimed approval is that of its shell effect; a denied one has none. -/
def approvalOutcome (approval : ApprovalRecord) (current : TaskCheckpoint) (settlement : Fields) :
    Op (Option ApprovalOutcome) :=
  match approval.status with
  | .executionClaimed => do
    let effect ← view (·.effect ("shell-" ++ approval.approvalId))
    if effect.settlement.isSome then pure none
    else do
      ensure (effect.status ≠ "pending" || !settlement.isEmpty)
        (.commitConflict "shell settlement payload is required")
      let settled ← Prog.ofExcept (EffectRecord.make { effect.toEffectData with
        status := "ok", settlement := some settlement })
      let next ← Prog.ofExcept (withEffectSettlement current settled)
      pure (some ⟨next.toCheckpointData, [settled], .executionSettled⟩)
  | .denied =>
    pure (some ⟨{ current.toCheckpointData with revision := current.revision + 1 }, [], .denied⟩)
  | _ => Prog.ofExcept (.error (.commitConflict "shell approval is not settled or denied"))

/-- The wakeup of the task that emitted the shell call. -/
def resumedApproval (next : CheckpointData) (approvalId : String) : CheckpointData :=
  { next with
    state := releaseAttemptState ((next.state.merge [("resume_input",
      .obj [("approval_id", .str approvalId), ("kind", .str "resolve_shell_approval")])]).pop
        "resume_entry_id")
    status := .pending }

/-- Settle an approval and wake the original task atomically. The entries of the tool results that
are appended beside it are given. -/
def settleApproval (approvalId : String) (settlement : Fields) (resume : Bool)
    (entries : List EntryDraft) : Op (Option CommitResult) := do
  c.ensureUsable
  let approval ← view (·.approval approvalId)
  let current ← view (·.task approval.taskId)
  if approval.continuationStatus = "started" || approval.continuationStatus = "cancelled" then
    pure none
  else do
    let outcome ← approvalOutcome approval current settlement
    match outcome with
    | none => pure none
    | some outcome => do
      let next ← Prog.ofExcept (TaskCheckpoint.make
        (if resume then resumedApproval outcome.next approvalId else outcome.next))
      let updated ← Prog.ofExcept (ApprovalRecord.make { approval.toApprovalData with
        status := outcome.status
        revision := approval.revision + 1
        settlement := some settlement
        continuationStatus := if resume then "started" else "not_required"
        continuationRunId := if resume then current.taskId else approval.continuationRunId })
      let (_, revision) ← view (·.head current.conversationId)
      let result ← c.commitData {
        conversationId := current.conversationId, expectedRevision := revision, entries
        task := some next, settlements := outcome.settled, approval := some updated
        expectedApprovalStatus := some approval.status
        expectedAttemptToken := some current.state.attemptToken }
      pure (some result)

/-! ### Task transactions -/

/-- Atomically update task-owned metadata without changing its phase. -/
def updateTaskState (taskId : String) (state : Fields) (expectedRevision : Option Nat) :
    Op CommitResult := do
  c.ensureUsable
  let current ← view (·.task taskId)
  ensure (expectedRevision.all (· = current.revision)) (.commitConflict "task revision changed")
  c.commitTask { current.toCheckpointData with
      revision := current.revision + 1, state := current.state.merge state }
    (some current.state.attemptToken)

/-- Derive and commit one mutation of a task; the derivation may read the store again. -/
def transactTask (taskId : String)
    (derive : TaskCheckpoint → List EffectRecord → Nat → Op (Option DurableMutation)) :
    Op (Option CommitResult) := do
  c.ensureUsable
  let current ← view (·.task taskId)
  let (_, revision) ← view (·.head current.conversationId)
  let effects ← look (·.effectsForTask taskId)
  match ← derive current effects revision with
  | none => pure none
  | some m => do
    ensure (m.task.any (fun t => t.taskId = taskId && t.revision = current.revision + 1)
        && m.expectedRevision = revision)
      (.valueError "task transaction must advance its captured checkpoint")
    let result ← c.commit m
    pure (some result)

/-- The question of a task that waits for the user, when it is the identified one. -/
def pendingQuestion (current : TaskCheckpoint) (identity answer : String) (revision : Nat) :
    Except Error (Option Fields) :=
  match current.state.obj? "question" with
  | none => .error (.valueError "question not found")
  | some question => do
    require (question.get? "id" = some (.str identity)) (.valueError "question not found")
    if question.get? "state" = some (.str "answered")
        && question.get? "answer" = some (.str answer) then pure none
    else do
      require (question.get? "state" = some (.str "pending")
          && question.get? "revision" = some (.int revision))
        (.valueError "question revision conflict")
      require (current.status = .running || current.status = .waiting)
        (.valueError "question task is not running or suspended")
      pure (some question)

/-- The state of a task whose question was answered. -/
def answeredState (current : TaskCheckpoint) (question : Fields) (answer entryId : String)
    (revision : Nat) : Fields :=
  current.state.merge [
    ("question", .obj (((question.set "answer" (.str answer)).set "revision"
      (.int (revision + 1))).set "state" (.str "answered"))),
    ("resume_input", .obj [
      ("instruction", .str ("The user answered this question: " ++ question.strD "question"
        ++ "\nAnswer: " ++ answer ++ "\nContinue the original task within its existing "
        ++ "authorization. Command execution still requires its own approval.")),
      ("kind", .str "resume_run"),
      ("source_run_id", .str current.taskId)]),
    ("resume_entry_id", .str entryId)]

/-- The acceptance of an answer: the answer, the wakeup and the checkpoint share a commit. -/
def acceptAnswer (identity answer : String) (revision : Nat) (current : TaskCheckpoint)
    (conversationRevision : Nat) : Op (Option DurableMutation) := do
  match ← Prog.ofExcept (pendingQuestion current identity answer revision) with
  | none => pure none
  | some question => do
    let (head, _) ← view (·.head current.conversationId)
    let entry ← Prog.ofExcept (EntryDraft.make ("answer-" ++ identity) current.conversationId head
      "user_message" [("question_id", .str identity), ("text", .str answer)]
      (some current.taskId))
    let state := answeredState current question answer entry.entryId revision
    let next ← Prog.ofExcept (TaskCheckpoint.make { current.toCheckpointData with
      revision := current.revision + 1
      state := if current.status = .waiting then releaseAttemptState state else state
      status := if current.status = .waiting then .pending else current.status })
    let m ← Prog.ofExcept (DurableMutation.make {
      conversationId := current.conversationId, expectedRevision := conversationRevision
      entries := [entry], task := some next
      expectedAttemptToken := some current.state.attemptToken })
    pure (some m)

def answerQuestion (taskId identity answer : String) (revision : Nat) :
    Op (Option CommitResult) :=
  c.transactTask taskId fun current _ conversationRevision =>
    acceptAnswer identity answer revision current conversationRevision

/-! ### Runtime mutations -/

/-- What a runtime reducer derives from a checkpoint and its effects: the operation position, the
policy, every effect it projects and the delivery batches. -/
structure RuntimeView where
  operation : Fields
  taskPolicy : Option Fields := none
  effects : List EffectRecord := []
  batches : List Json := []

/-- The new intents and the new settlements among the projected effects. -/
def effectChanges (known : List EffectRecord) :
    List EffectRecord → Except Error (List EffectRecord × List EffectRecord)
  | [] => .ok ([], [])
  | record :: records =>
    match known.find? (·.effectId = record.effectId) with
    | none =>
      if record.settlement.isSome then
        .error (.operationTransition "effect must commit intent before settlement")
      else do
        let (intents, settlements) ← effectChanges known records
        pure (record :: intents, settlements)
    | some previous =>
      if previous.pyEq record || (previous.settlement.isSome && record.settlement.isSome
          && Fields.pyEq? previous.settlement record.settlement) then
        effectChanges known records
      else if previous.settlement.isSome || record.settlement.isNone then
        .error (.operationTransition "effect outcome is immutable")
      else do
        let (intents, settlements) ← effectChanges known records
        pure (intents, record :: settlements)

/-- The checkpoint with the new intents and then the new settlements in its pending index. -/
def withEffectChanges (current : TaskCheckpoint) (intents settlements : List EffectRecord) :
    Except Error TaskCheckpoint := do
  let next ← if intents.isEmpty then
      TaskCheckpoint.make { current.toCheckpointData with revision := current.revision + 1 }
    else do
      require (current.status = .running)
        (.commitConflict "runtime effects require a running task")
      withEffectIntents current intents
  foldE settlements withEffectSettlement next

def runtimeState (state : Fields) (v : RuntimeView) : Fields :=
  (state.merge (v.taskPolicy.map fun policy => [("task_policy", Json.obj policy)]).toList.flatten).merge
    [("operation", .obj v.operation), ("delivery_batches", .arr v.batches)]

lemma get?_runtimeState (state : Fields) (v : RuntimeView) {key : String}
    (hkey : key ∉ ["operation", "delivery_batches", "task_policy"]) :
    (runtimeState state v).get? key = state.get? key := by
  simp only [List.mem_cons, List.not_mem_nil, or_false, not_or] at hkey
  obtain ⟨hoperation, hbatches, hpolicy⟩ := hkey
  cases hview : v.taskPolicy <;>
    simp [runtimeState, hview, Ne.symm hoperation, Ne.symm hbatches, Ne.symm hpolicy]

/-- The entries of the messages that a runtime mutation appends. -/
def messageEntries (sessionId runId : String) :
    Option String → List (String × String × Fields) → Except Error (List EntryDraft)
  | _, [] => .ok []
  | head, (entryId, kind, payload) :: messages => do
    let entry ← EntryDraft.make entryId sessionId head kind payload (some runId)
    let rest ← messageEntries sessionId runId (some entry.entryId) messages
    pure (entry :: rest)

/-- Reuse the artifacts that are registered with the same content and owner. -/
def unregisteredArtifacts : List ArtifactRecord → Op (List ArtifactRecord)
  | [] => pure []
  | artifact :: artifacts => do
    let found ← look (·.artifacts.get? artifact.handle)
    match found with
    | none => do
      let rest ← unregisteredArtifacts artifacts
      pure (artifact :: rest)
    | some existing => do
      ensure ({ artifact with createdAt := existing.createdAt } = existing)
        (.commitConflict "artifact handle has conflicting content or ownership")
      unregisteredArtifacts artifacts

/-- The inputs that a generation boundary places beside a runtime mutation. Which of the queued
submissions are selected, the entry ids, and how a passive write is placed are given. -/
structure Boundary where
  at_ : String
  select : List SubmissionRow → List (SubmissionRow × String)
  write : SubmissionRow → Except Error (Option EntryDraft × SubmissionUpdate)
  transition : Option Fields := none

/-- What one selected submission adds to a mutation. -/
structure Placement where
  entry : Option EntryDraft
  task : Option TaskCheckpoint
  update : SubmissionUpdate

/-- The task checkpoint of a placed input; a steering input is consumed by the active task. -/
def placedState (task : TaskCheckpoint) (entryId consumer : String) (consumed : Bool) :
    CheckpointData :=
  let state := task.state.merge [
    ("input_state", .str (if consumed then "consumed" else "placed")),
    ("input_entry_id", .str entryId)]
  { task.toCheckpointData with
    revision := task.revision + 1
    state := if consumed then state.merge [("consumed_by_task_id", .str consumer)] else state
    phase := if consumed then .completed else task.phase
    status := if consumed then .completed else task.status }

/-- Place one selected submission. -/
def placeSelected (b : Boundary) (conversationId consumer : String) (tasks : List TaskCheckpoint)
    (head : Option String) (row : SubmissionRow) (entryId : String) : Except Error Placement :=
  if row.mode = .write then do
    let (entry, update) ← b.write row
    pure ⟨entry, none, update⟩
  else
    match (tasks.filter fun t =>
      t.conversationId = conversationId && t.submissionId = row.id).getLast? with
    | none => .error (.commitConflict "queued submission has no task")
    | some task => do
      require (!task.status.terminal) (.commitConflict "cannot place a terminal task")
      require (((row.content.get? "text").bind Json.str?).any fun text => !text.toList.all blank)
        (.commitConflict "queued submission has no input text")
      let entry ← EntryDraft.make entryId row.conversationId head "user_message"
        (((row.content.obj? "message_metadata").getD []).set "text"
          ((row.content.get? "text").getD .null)) (some task.taskId)
      let consumed : Bool := row.mode = .steer
      let next ← TaskCheckpoint.make (placedState task entry.entryId consumer consumed)
      let update ← SubmissionUpdate.make {
        submissionId := row.id, conversationId := row.conversationId
        expectedStatus := row.status, status := if consumed then .done else row.status
        detail := if consumed then some [("consumed_by_task_id", .str consumer)] else none
        inputEntryId := some entry.entryId, placement := some .placed }
      pure ⟨some entry, some next, update⟩

/-- Place the selected submissions one after the other. -/
def placeAll (b : Boundary) (conversationId consumer : String) (tasks : List TaskCheckpoint) :
    Option String → List (SubmissionRow × String) → Except Error (List Placement)
  | _, [] => .ok []
  | head, (row, entryId) :: selected => do
    let placed ← placeSelected b conversationId consumer tasks head row entryId
    let rest ← placeAll b conversationId consumer tasks
      ((placed.entry.map (·.entryId)).or head) selected
    pure (placed :: rest)

def rebase : Option String → List EntryDraft → List EntryDraft
  | _, [] => []
  | parent, e :: entries => { e with parentId := parent } :: rebase (some e.entryId) entries

/-- The receipt that a generation boundary leaves in the active checkpoint. -/
def boundaryReceipt (b : Boundary) (m : DurableMutation) (selected : List SubmissionRow)
    (placed : List EntryDraft) : Fields :=
  [("generation_boundary", .str b.at_),
    ("generation_boundary_receipt", .obj [
      ("at", .str b.at_),
      ("conversation_revision", .int (m.expectedRevision + m.entries.length + placed.length)),
      ("provider_effect_ids", Fields.ofStrs
        ((m.settlements.filter (·.category = "provider_send")).map (·.effectId))),
      ("submission_ids", Fields.ofStrs (selected.map (·.id)))])]

/-- Fold boundary placement into an already derived task mutation. -/
def mergeGenerationBoundary (b : Boundary) (m : DurableMutation) (taskId : String) :
    Op DurableMutation := do
  match m.task with
  | none => Prog.ofExcept (.error
      (.commitConflict "generation boundary mutation must own the active task"))
  | some active => do
    ensure (active.taskId = taskId)
      (.commitConflict "generation boundary mutation must own the active task")
    let queued ← look (·.queuedRows (some m.conversationId))
    let selected := b.select queued
    let (head, revision) ← view (·.head m.conversationId)
    let tasks ← look (·.tasks.rows)
    let placements ← Prog.ofExcept (placeAll b m.conversationId taskId tasks head selected)
    ensure (revision = m.expectedRevision)
      (.commitConflict "generation boundary conversation revision changed")
    let (head, _) ← view (·.head m.conversationId)
    let placed := rebase ((m.entries.getLast?.map (·.entryId)).or head)
      (placements.filterMap (·.entry))
    let next ← Prog.ofExcept (TaskCheckpoint.make { active.toCheckpointData with
      state := active.state.merge (boundaryReceipt b m (selected.map (·.1)) placed) })
    Prog.ofExcept (DurableMutation.make { m.toMutationData with
      entries := m.entries ++ placed
      task := some next
      taskUpdates := m.taskUpdates
        ++ (placements.filterMap (·.task)).filter (·.taskId ≠ taskId)
      submissionUpdates := m.submissionUpdates ++ placements.map (·.update) })

def applyBoundaryTransition (m : DurableMutation) (operation : Fields) :
    Except Error DurableMutation :=
  match m.task with
  | none => .error (.operationTransition "boundary lost its task")
  | some task => do
    let next ← TaskCheckpoint.make { task.toCheckpointData with
      state := task.state.merge [("operation", .obj operation)] }
    DurableMutation.make { m.toMutationData with task := some next }

/-- A runtime mutation: the reducer that derives its view, the messages and artifacts that it
carries, and the boundary that it is folded into. -/
structure RuntimeMutation where
  view : TaskCheckpoint → List EffectRecord → Except Error (Option RuntimeView)
  messages : List (String × String × Fields) := []
  artifacts : List ArtifactRecord := []
  boundary : Option Boundary := none

/-- The boundary part of a runtime mutation. -/
def withBoundary (boundary : Option Boundary) (m : DurableMutation) (runId : String) :
    Op DurableMutation :=
  match boundary with
  | none => pure m
  | some b => do
    let merged ← mergeGenerationBoundary b m runId
    match b.transition with
    | none => pure merged
    | some operation => Prog.ofExcept (applyBoundaryTransition merged operation)

/-- The derivation of `mutate_checkpoint`. -/
def deriveRuntime (sessionId runId : String) (r : RuntimeMutation) (current : TaskCheckpoint)
    (effects : List EffectRecord) (revision : Nat) : Op (Option DurableMutation) := do
  match ← Prog.ofExcept (r.view current effects) with
  | none => pure none
  | some v => do
    let (intents, settlements) ← Prog.ofExcept (effectChanges effects v.effects)
    let next ← Prog.ofExcept (withEffectChanges current intents settlements)
    let next ← Prog.ofExcept (TaskCheckpoint.make { next.toCheckpointData with
      revision := current.revision + 1, state := runtimeState next.state v })
    let (head, _) ← view (·.head sessionId)
    let entries ← Prog.ofExcept (messageEntries sessionId runId head r.messages)
    let artifacts ← unregisteredArtifacts r.artifacts
    let m ← Prog.ofExcept (DurableMutation.make {
      conversationId := sessionId, expectedRevision := revision, entries, task := some next
      effects := intents, settlements, artifacts })
    let m ← withBoundary r.boundary m runId
    pure (some m)

/-- Try a program again after a commit that lost its race, a bounded number of times. -/
def retryConflict (attempt : Op Unit) : Nat → Op Unit
  | 0 => attempt
  | n + 1 => attempt.handle fun e => match e with
    | .commitConflict _ => retryConflict attempt n
    | e => .throw e

def mutateCheckpoint (sessionId runId : String) (r : RuntimeMutation) : Op Unit :=
  retryConflict (do
    let _ ← c.transactTask runId (deriveRuntime sessionId runId r)) 2

end Session

end Codey
