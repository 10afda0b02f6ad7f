import Codey.Durable.Ancestry
import Codey.Lib.Table

/-!
# The SQLite store

The durable tables and `SQLiteDurableStore.commit`: one transaction that validates a mutation
against the stored rows and writes it, or raises and leaves every table as it was.

Of the schema's constraints those are modelled that a validated mutation can still violate: the
primary key of `entries`, and the foreign keys and the check of `task_waiters`. The others repeat
what the validation has established.
-/

namespace Codey

structure ConversationRow where
  id : String
  headEntryId : Option String := none
  revision : Nat := 0
  parentConversationId : Option String := none
  parentEntryId : Option String := none
  deriving DecidableEq

structure SubmissionRow where
  id : String
  conversationId : String
  requestId : String
  entryId : Option String
  revision : Nat
  fingerprint : String
  status : SubmissionStatus
  placement : SubmissionPlacement
  mode : SubmissionMode
  content : Fields
  commitSeq : Nat
  answerEntryId : Option String := none
  reason : Option String := none
  detail : Option Fields := none
  deriving DecidableEq

structure CommitResult where
  revision : Nat
  sequence : Nat
  submissionId : Option String := none
  deriving DecidableEq

abbrev ConversationTable := Table ConversationRow.id
abbrev EntryTable := Table EntryDraft.entryId
abbrev SubmissionTable := Table SubmissionRow.id
abbrev TaskTable := Table fun t : TaskCheckpoint => t.taskId
abbrev EffectTable := Table fun e : EffectRecord => e.effectId
abbrev ArtifactTable := Table ArtifactRecord.handle

/-- The durable tables, rows in the order of their row numbers. -/
structure SqliteStore where
  conversations : ConversationTable := .empty
  entries : EntryTable := .empty
  submissions : SubmissionTable := .empty
  tasks : TaskTable := .empty
  effects : EffectTable := .empty
  artifacts : ArtifactTable := .empty
  /-- `finalization_queue(task_id)` -/
  queue : List String := []
  /-- `task_waiters(waited_task_id, waiter_task_id)` -/
  waiters : List (String × String) := []
  /-- `task_owners(owner_task_id, child_task_id)` -/
  owners : List (String × String) := []
  /-- The last row of `commits`. -/
  sequence : Nat := 0

namespace SqliteStore

variable (s : SqliteStore)

/-! ### Reads -/

def conversation (id : String) : Except Error ConversationRow :=
  match s.conversations.get? id with
  | some row => .ok row
  | none => .error (.keyError ("unknown conversation: " ++ id))

def head (id : String) : Except Error (Option String × Nat) := do
  let row ← s.conversation id
  pure (row.headEntryId, row.revision)

def conversationParent (id : String) : Except Error (Option String × Option String) := do
  let row ← s.conversation id
  pure (row.parentConversationId, row.parentEntryId)

def hasConversation (id : String) : Bool := (s.conversations.get? id).isSome

def entriesOf (id : String) : Except Error (List EntryDraft) := do
  let _ ← s.conversation id
  pure (s.entries.rows.filter (·.conversationId = id))

/-- `context_path` inside the transaction. -/
def path (conversationId : String) (leafId : Option String) : Except Error (List EntryDraft) :=
  contextPath s.entriesOf s.conversationParent (s.conversations.rows.length + 1) conversationId
    leafId

def task (id : String) : Except Error TaskCheckpoint :=
  match s.tasks.get? id with
  | some row => .ok row
  | none => .error (.keyError ("unknown task: " ++ id))

def effect (id : String) : Except Error EffectRecord :=
  match s.effects.get? id with
  | some row => .ok row
  | none => .error (.keyError ("unknown effect: " ++ id))

def effectsForTask (taskId : String) : List EffectRecord :=
  s.effects.rows.filter (·.taskId = taskId)

def approvalPayload (approvalId : String) (t : TaskCheckpoint) : Option Fields :=
  (t.state.obj? "approvals").bind (·.obj? approvalId)

def approval (approvalId : String) : Except Error ApprovalRecord :=
  match s.tasks.rows.findSome? (approvalPayload approvalId) with
  | some payload => ApprovalRecord.fromPayload payload
  | none => .error (.keyError ("unknown approval: " ++ approvalId))

def artifact (handle : String) : Except Error ArtifactRecord :=
  match s.artifacts.get? handle with
  | some row => .ok row
  | none => .error (.keyError ("unknown artifact: " ++ handle))

def submissionFromRow (row : SubmissionRow) : Except Error SubmissionRecord :=
  SubmissionRecord.make {
    submissionId := row.id, conversationId := row.conversationId, requestId := row.requestId
    status := row.status, inputEntryId := row.entryId, answerEntryId := row.answerEntryId
    reason := row.reason, detail := row.detail, placement := row.placement, mode := row.mode
    content := some row.content }

def submission (id : String) : Except Error SubmissionRecord :=
  match s.submissions.get? id with
  | some row => submissionFromRow row
  | none => .error (.keyError ("unknown submission: " ++ id))

/-- The admission already made under a request id, or a conflict when it differs. -/
def submissionResultForRequest (conversationId requestId fingerprint : String) :
    Except Error (Option CommitResult) :=
  match s.submissions.rows.find? fun row =>
      row.conversationId = conversationId && row.requestId = requestId with
  | none => .ok none
  | some row =>
    if row.fingerprint = fingerprint then .ok (some ⟨row.revision, row.commitSeq, some row.id⟩)
    else .error (.idempotencyConflict
      "request_id was already admitted with different durable result content")

/-- The queued submissions of one conversation, or of all, in the order of their commits. -/
def queuedRows (conversationId : Option String) : List SubmissionRow :=
  (s.submissions.rows.filter fun row =>
    conversationId.all (· = row.conversationId) && row.status = .queued
      && row.placement = .queued).insertionSort fun a b =>
        a.commitSeq < b.commitSeq ∨ (a.commitSeq = b.commitSeq ∧ a.id ≤ b.id)

def pendingTasks : List TaskCheckpoint := s.tasks.rows.filter (!·.status.terminal)

def finalizationQueue : List String := s.queue.insertionSort (· ≤ ·)

/-- The tasks that `taskId` owns. -/
def ownedDependents (taskId : String) : List TaskCheckpoint :=
  s.tasks.rows.filter fun t => s.owners.contains (taskId, t.taskId)

/-! ### Validation -/

/-- How the store compares a fact of the loaded operation with one of the new checkpoint: a loaded
list is never equal to a frozen one. -/
def loadedSame (before after : Option Json) : Bool :=
  (before.getD .null).pyEq (after.getD .null) && !(before.getD .null).hasArr

/-- Whether the walk from an owner up to its owners meets `taskId`. It visits a task once, so the
number of tasks bounds it. -/
def ownerCycle (taskId : String) : Nat → List String → String → Bool
  | 0, _, _ => false
  | fuel + 1, seen, cursor =>
    if seen.contains cursor then cursor = taskId
    else match s.tasks.get? cursor with
      | none => false
      | some parent => match parent.state.ownerTaskId with
        | none => false
        | some next => ownerCycle taskId fuel (cursor :: seen) next

def validateTaskOwner (t : TaskCheckpoint) : Except Error Unit :=
  match t.state.ownerTaskId with
  | none => .ok ()
  | some owner => do
    require (owner ≠ t.taskId) (.commitConflict "a task cannot own itself")
    require (s.tasks.get? owner).isSome (.commitConflict "owner task does not exist")
    require (!s.ownerCycle t.taskId (s.tasks.rows.length + 1) [t.taskId] owner)
      (.commitConflict "task ownership cycle")

def validateExistingTask (row t : TaskCheckpoint) (expected : Option String) :
    Except Error Unit := do
  require (!row.state.cancelRequested || t.phase = .cancelled || t.phase = .failed
      || validCancellationCleanup loadedSame row.state t.toCheckpointData)
    (.commitConflict "task cancellation barrier is active")
  require (validExecutionAttempt row.toCheckpointData t.toCheckpointData expected)
    (.commitConflict "task execution attempt changed")
  require (t.revision = row.revision + 1) (.commitConflict "task revision changed")
  require (row.conversationId = t.conversationId && row.submissionId = t.submissionId
      && row.providerSnapshot = t.providerSnapshot)
    (.commitConflict "task identity is immutable")
  require (validFrozenTaskState row.state t.state)
    (.commitConflict "admitted task state is immutable")
  require (validInputConsumption row.toCheckpointData t.toCheckpointData
      || validTaskTransition (some row.phase) t.phase)
    (.commitConflict ("invalid task phase transition: " ++ row.phase.name ++ " -> "
      ++ t.phase.name))
  require (validInputConsumption row.toCheckpointData t.toCheckpointData
      || validTaskStatusTransition (some row.status) t.status)
    (.commitConflict ("invalid task status transition: " ++ row.status.name ++ " -> "
      ++ t.status.name))

def taskSubmission (t : TaskCheckpoint) (proposed : Option SubmissionDraft) : Bool :=
  match s.submissions.get? t.submissionId with
  | some row => row.conversationId = t.conversationId
  | none => proposed.any fun d =>
    d.submissionId = t.submissionId && d.conversationId = t.conversationId

def validateTask (t : TaskCheckpoint) (proposed : Option SubmissionDraft)
    (expected : Option String) : Except Error Unit := do
  require (s.taskSubmission t proposed)
    (.commitConflict "task must belong to a committed submission")
  match s.tasks.get? t.taskId with
  | none => do
    require (t.revision = 0) (.commitConflict "new task must start at revision zero")
    require (validTaskTransition none t.phase)
      (.commitConflict "new task must start in accepted or dispatching phase")
    s.validateTaskOwner t
    require (validTaskStatusTransition none t.status)
      (.commitConflict "new task must start with a non-terminal scheduler status")
  | some row => do
    s.validateTaskOwner t
    validateExistingTask row t expected

def validateEffect (m : MutationData) (e : EffectRecord) : Except Error Unit := do
  require ((s.tasks.get? e.taskId).isSome || m.task.any (·.taskId = e.taskId))
    (.commitConflict "effect task does not exist")
  let single : Bool := m.effect = some e
  let settling : Bool := e ∈ m.settlements
  match s.effects.get? e.effectId with
  | none =>
    require (!((single && m.expectedEffectStatus.isSome) || settling))
      (.commitConflict "effect status changed")
  | some row => do
    let expected := if settling then some "pending" else m.expectedEffectStatus
    require row.settlement.isNone (.commitConflict "effect is already settled")
    require ((single || settling) && some row.status = expected)
      (.commitConflict "effect status changed")
    require (row.identity = e.identity) (.commitConflict "effect identity is immutable")

def validateEffects (m : MutationData) : Except Error Unit := do
  require (m.allEffects.isEmpty || m.task.isSome)
    (.commitConflict "effect mutation requires its task checkpoint")
  checkAll m.allEffects (s.validateEffect m)

def validateArtifact (m : MutationData) (a : ArtifactRecord) : Except Error Unit := do
  require (s.artifacts.get? a.handle).isNone (.commitConflict "artifact handle already exists")
  require (a.ownerTaskId.all fun id =>
      (s.tasks.get? id).isSome || m.allTasks.any (·.taskId = id))
    (.commitConflict "artifact owner task does not exist")
  require (a.ownerEffectId.all fun id =>
      (s.effects.get? id).isSome || m.allEffects.any (·.effectId = id))
    (.commitConflict "artifact owner effect does not exist")

/-- An update that revises the text or the mode of an input may only do so while it is queued. -/
def revisesQueued (row : SubmissionRow) (u : SubmissionUpdate) : Bool :=
  row.status = .queued && row.placement = .queued && row.entryId.isNone && row.mode ≠ .write
    && u.status = .queued && u.inputEntryId.isNone && u.placement.isNone

def validateSubmissionUpdate (m : MutationData) (u : SubmissionUpdate) : Except Error Unit :=
  match s.submissions.get? u.submissionId with
  | none => .error (.commitConflict "unknown submission")
  | some row => do
    require (row.conversationId = u.conversationId) (.commitConflict "unknown submission")
    require (row.status = u.expectedStatus
        && (row.status = u.status || validSubmissionTransition row.status u.status))
      (.commitConflict "submission status changed")
    require ((u.content.isNone && u.mode.isNone) || revisesQueued row u)
      (.commitConflict "only queued user inputs can be revised")
    require (u.answerEntryId.all fun id => m.entries.any (·.entryId = id))
      (.commitConflict "answer entry must be part of the same commit")
    require (u.inputEntryId.all fun id => m.entries.any (·.entryId = id))
      (.commitConflict "placed input entry must be part of the same commit")
    require (u.placement.all fun p => row.placement ≠ .placed || p = .placed)
      (.commitConflict "placed submission cannot return to queued")
    require (u.placement.all fun p =>
        p ≠ .placed || u.inputEntryId.isSome || row.entryId.isSome)
      (.commitConflict "placing a submission requires an input entry")

def entryOwners (m : MutationData) : List TaskCheckpoint :=
  s.tasks.rows.filter fun t => m.entries.any (·.writer = some t.taskId)

/-- The parent of the first new entry. -/
def entryParent (m : MutationData) (head : Option String) : Except Error (Option String) := do
  if !m.entries.isEmpty && m.editedEntryId.isNone && m.createConversation.isNone
      && !(s.entryOwners m).isEmpty then do
    let path ← s.path m.conversationId head
    validateEntryOwners m.entries path (s.entryOwners m)
  if m.editedEntryId.isSome then do
    let path ← s.path m.conversationId head
    validateEdit m path (s.tasks.rows.any fun t =>
      t.conversationId = m.conversationId && !t.status.terminal)
  else pure head

/-- New entries extend the active branch one after the other. -/
def validateEntries (parent : Option String) (entries : List EntryDraft) : Except Error Unit :=
  match entries with
  | [] => .ok ()
  | e :: entries => do
    require (e.parentId = parent)
      (.commitConflict "mutation entries do not extend the active branch")
    require (s.entries.get? e.entryId).isNone (.commitConflict "entry ID already exists")
    validateEntries (some e.entryId) entries

def validateMutation (m : MutationData) (c : ConversationRow) : Except Error Unit := do
  require (c.revision = m.expectedRevision) (.commitConflict "conversation revision changed")
  require (m.branchEntryId.all fun id =>
      (s.entries.get? id).any (·.conversationId = m.conversationId))
    (.commitConflict "branch entry does not belong to conversation")
  let parent ← s.entryParent m c.headEntryId
  s.validateEntries parent m.entries
  checkAll m.task.toList fun t => s.validateTask t m.submission m.expectedAttemptToken
  checkAll m.taskUpdates fun t => s.validateTask t none none
  s.validateEffects m
  checkAll m.artifacts (s.validateArtifact m)
  checkAll m.allUpdates (s.validateSubmissionUpdate m)

/-! ### Writes -/

/-- The task that a placed input entry belongs to, through the submission it places. -/
def placedTask (m : MutationData) (entryId : String) : Option String := do
  let u ← (m.allUpdates.filter fun u => u.inputEntryId = some entryId
    && m.allTasks.any (·.submissionId = u.submissionId)).getLast?
  let t ← (m.allTasks.filter (·.submissionId = u.submissionId)).getLast?
  pure t.taskId

def entryRow (m : MutationData) (sequence : Nat) (e : EntryDraft) : EntryDraft :=
  { e with commitSeq := sequence, byTaskId := e.writer.or (placedTask m e.entryId) }

def writeEntry (m : MutationData) (sequence : Nat) (s : SqliteStore) (e : EntryDraft) :
    Except Error SqliteStore :=
  if (s.entries.get? e.entryId).isSome then
    .error (.integrityError "UNIQUE constraint failed: entries.id")
  else .ok { s with entries := s.entries.put (entryRow m sequence e) }

/-- One row of `task_waiters`. -/
def writeWaiter (waiter : String) (s : SqliteStore) (waited : String) :
    Except Error SqliteStore := do
  require (waited ≠ waiter)
    (.integrityError "CHECK constraint failed: waited_task_id <> waiter_task_id")
  require (s.tasks.get? waited).isSome (.integrityError "FOREIGN KEY constraint failed")
  pure { s with waiters := s.waiters ++ [(waited, waiter)] }

/-- `task_owners` after a checkpoint is written. -/
def putOwner (owners : List (String × String)) (t : TaskCheckpoint) : List (String × String) :=
  owners.filter (·.2 ≠ t.taskId)
    ++ (t.state.ownerTaskId.map fun owner => (owner, t.taskId)).toList

/-- `finalization_queue` after a checkpoint is written. -/
def putQueue (queue : List String) (t : TaskCheckpoint) : List String :=
  if t.status = .completing || t.status = .waiting then
    if queue.contains t.taskId then queue else queue ++ [t.taskId]
  else queue.filter (· ≠ t.taskId)

def writeTask (s : SqliteStore) (t : TaskCheckpoint) : Except Error SqliteStore := do
  let s := { s with
    tasks := s.tasks.put t
    waiters := s.waiters.filter (·.2 ≠ t.taskId) }
  let s ← foldE t.state.waitingOn (writeWaiter t.taskId) s
  pure { s with owners := putOwner s.owners t, queue := putQueue s.queue t }

def withOutcome (row e : EffectRecord) : EffectRecord where
  toEffectData := { row.toEffectData with status := e.status, settlement := e.settlement }
  named := by
    obtain ⟨h₁, h₂, h₃, h₄, h₅, -⟩ := row.named
    exact ⟨h₁, h₂, h₃, h₄, h₅, e.named.2.2.2.2.2⟩

/-- Insert a new effect, or settle one that has the expected status. -/
def writeEffect (expected : Option String) (s : SqliteStore) (e : EffectRecord) :
    Except Error SqliteStore :=
  match expected with
  | none =>
    if (s.effects.get? e.effectId).isSome then
      .error (.integrityError "UNIQUE constraint failed: effects.id")
    else .ok { s with effects := s.effects.put e }
  | some expected => match s.effects.get? e.effectId with
    | some row =>
      if row.status = expected then .ok { s with effects := s.effects.put (withOutcome row e) }
      else .error (.commitConflict "effect status changed")
    | none => .error (.commitConflict "effect status changed")

/-- A submission row after an update: outcome columns are set, input columns only when given. -/
def updatedRow (row : SubmissionRow) (u : SubmissionUpdate) : SubmissionRow :=
  { row with
    status := u.status, answerEntryId := u.answerEntryId, reason := u.reason, detail := u.detail
    entryId := u.inputEntryId.or row.entryId, placement := u.placement.getD row.placement
    content := u.content.getD row.content, mode := u.mode.getD row.mode }

def writeSubmissionUpdate (s : SqliteStore) (u : SubmissionUpdate) : Except Error SqliteStore :=
  match s.submissions.get? u.submissionId with
  | some row =>
    if row.conversationId = u.conversationId && row.status = u.expectedStatus then
      .ok { s with submissions := s.submissions.put (updatedRow row u) }
    else .error (.commitConflict "submission status changed")
  | none => .error (.commitConflict "submission status changed")

/-- The row of a new submission. -/
def submissionRow (d : SubmissionDraft) (revision sequence : Nat) : SubmissionRow where
  id := d.submissionId
  conversationId := d.conversationId
  requestId := d.requestId
  entryId := d.entry.map (·.entryId)
  revision := revision
  fingerprint := d.fingerprint
  status := d.status
  placement := d.placement
  mode := d.mode
  content := d.content.getD []
  commitSeq := sequence
  reason := d.reason

/-- The head and the revision that a mutation leaves. -/
def nextConversation (m : MutationData) (c : ConversationRow) : ConversationRow :=
  match m.branchEntryId with
  | some branch => { c with headEntryId := some branch, revision := c.revision + 1 }
  | none => match m.entries.getLast? with
    | some e => { c with
        headEntryId := some e.entryId, revision := c.revision + m.entries.length }
    | none => c

def write (m : MutationData) (c : ConversationRow) : Except Error SqliteStore := do
  let sequence := s.sequence + 1
  let s := { s with sequence }
  let s ← foldE m.entries (writeEntry m sequence) s
  let c' := nextConversation m c
  let s := { s with
    conversations := s.conversations.put c'
    submissions := match m.submission with
      | some d => s.submissions.put (submissionRow d c'.revision sequence)
      | none => s.submissions }
  let s ← foldE m.allTasks writeTask s
  let s ← foldE m.effect.toList (writeEffect m.expectedEffectStatus) s
  let s ← foldE m.effects (writeEffect none) s
  let s ← foldE m.settlements (writeEffect (some "pending")) s
  let s := { s with artifacts := m.artifacts.foldl Table.put s.artifacts }
  foldE m.allUpdates writeSubmissionUpdate s

/-! ### Commit -/

/-- A stored submission as the draft it was admitted from, for comparison with a retry. -/
def storedDraft (draft : SubmissionDraft) (row : SubmissionRow) :
    Except Error SubmissionDraft :=
  SubmissionDraft.make {
    submissionId := row.id, requestId := draft.requestId
    conversationId := draft.conversationId
    entry := (row.entryId.bind s.entries.get?).map fun e =>
      { e with
        conversationId := draft.conversationId
        named := ⟨e.named.1, draft.conversationId_ne, e.named.2.2⟩ }
    fingerprint := row.fingerprint, placement := row.placement, mode := row.mode
    content := some row.content }

/-- The result of a request that was admitted before. -/
def findSubmission (draft : Option SubmissionDraft) : Except Error (Option CommitResult) :=
  match draft with
  | none => .ok none
  | some draft =>
    match s.submissions.rows.find? fun row =>
        row.conversationId = draft.conversationId && row.requestId = draft.requestId with
    | none => .ok none
    | some row => do
      let stored ← s.storedDraft draft row
      require (sameSubmission stored.toSubmissionDraftData draft.toSubmissionDraftData)
        (.idempotencyConflict "request_id was already admitted with different input")
      pure (some ⟨row.revision, row.commitSeq, some row.id⟩)

/-- Insert the conversation that a mutation creates. -/
def create (m : MutationData) : Except Error SqliteStore :=
  match m.createConversation with
  | none => .ok s
  | some creation => do
    require (!s.hasConversation m.conversationId) (.commitConflict "conversation already exists")
    match creation.parentConversationId with
    | none => pure ()
    | some parent => do
      let _ ← s.path parent creation.parentEntryId
      pure ()
    pure { s with conversations := s.conversations.put {
      id := m.conversationId
      parentConversationId := creation.parentConversationId
      parentEntryId := creation.parentEntryId } }

/-- Remove a conversation and everything that belongs to it; the foreign keys of `task_waiters`,
`task_owners`, `finalization_queue` and `artifacts` cascade. -/
def delete (m : MutationData) (c : ConversationRow) : Except Error SqliteStore := do
  require (!s.conversations.rows.any (·.parentConversationId = some m.conversationId))
    (.commitConflict "conversation has forked children")
  require (c.revision = m.expectedRevision) (.commitConflict "conversation revision changed")
  let gone := fun id => (s.tasks.get? id).any (·.conversationId = m.conversationId)
  let goneEffect := fun id => (s.effects.get? id).any fun e => gone e.taskId
  pure { s with
    conversations := s.conversations.filter (·.id ≠ m.conversationId)
    entries := s.entries.filter (·.conversationId ≠ m.conversationId)
    submissions := s.submissions.filter (·.conversationId ≠ m.conversationId)
    tasks := s.tasks.filter (·.conversationId ≠ m.conversationId)
    effects := s.effects.filter (!gone ·.taskId)
    artifacts := s.artifacts.filter fun a =>
      !(a.ownerTaskId.any gone) && !(a.ownerEffectId.any goneEffect)
    queue := s.queue.filter (!gone ·)
    waiters := s.waiters.filter fun w => !gone w.1 && !gone w.2
    owners := s.owners.filter fun o => !gone o.1 && !gone o.2
    sequence := s.sequence + 1 }

def reportedSubmission (m : MutationData) : Option String :=
  match m.submission, m.submissionUpdate with
  | some d, _ => some d.submissionId
  | none, some u => some u.submissionId
  | none, none => m.submissionUpdates.getLast?.map (·.submissionId)

/-- `SQLiteDurableStore.commit`: one transaction, rolled back when anything in it raises. -/
def commit (m : DurableMutation) : Except Error (CommitResult × SqliteStore) := do
  match ← s.findSubmission m.submission with
  | some replayed => pure (replayed, s)
  | none => do
    let s ← s.create m.toMutationData
    let c ← s.conversation m.conversationId
    if m.deleteConversation then do
      let s' ← s.delete m.toMutationData c
      pure (⟨c.revision + 1, s'.sequence, none⟩, s')
    else do
      s.validateMutation m.toMutationData c
      require (m.submission.all fun d => (s.submissions.get? d.submissionId).isNone)
        (.idempotencyConflict "submission ID was already used")
      let s' ← s.write m.toMutationData c
      pure (⟨(nextConversation m.toMutationData c).revision, s'.sequence,
        reportedSubmission m.toMutationData⟩, s')

end SqliteStore

end Codey
