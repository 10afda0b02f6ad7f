import Codey.Durable.Checkpoint
import Codey.Lib.Text

/-!
# Durable records

The other records of the durable layer: conversation entries, submissions and their updates,
external effects, approvals and artifacts. Payload objects are kept in the order of a sorting
encoder, so that equal payloads are those with equal texts; `Fields.pyEq` is equality in the host
language.
-/

namespace Codey

/-- Equality of two payload objects in the host language. -/
def Fields.pyEq (a b : Fields) : Bool := Json.pyEqMembers a b

/-- Equality of two optional payload objects in the host language. -/
def Fields.pyEq? : Option Fields → Option Fields → Bool
  | none, none => true
  | some a, some b => a.pyEq b
  | _, _ => false

/-! ### Entries -/

/-- An immutable node of a conversation. -/
structure EntryDraft where
  entryId : String
  conversationId : String
  parentId : Option String
  kind : String
  payload : Fields
  commitSeq : Nat := 0
  byTaskId : Option String := none
  named : (entryId ≠ "" ∧ conversationId ≠ "" ∧ kind ≠ "") := by decide

instance : DecidableEq EntryDraft := fun a b =>
  decidable_of_iff (a.entryId = b.entryId ∧ a.conversationId = b.conversationId ∧
      a.parentId = b.parentId ∧ a.kind = b.kind ∧ a.payload = b.payload ∧
      a.commitSeq = b.commitSeq ∧ a.byTaskId = b.byTaskId)
    (by cases a; cases b; simp)

/-- Dataclass equality: every field, payloads by value. -/
def EntryDraft.pyEq (a b : EntryDraft) : Bool :=
  a.entryId = b.entryId && a.conversationId = b.conversationId && a.parentId = b.parentId
    && a.kind = b.kind && a.payload.pyEq b.payload && a.commitSeq = b.commitSeq
    && a.byTaskId = b.byTaskId

/-- The task that wrote the entry; an empty id names none. -/
def EntryDraft.writer (e : EntryDraft) : Option String := e.byTaskId.filter (· ≠ "")

def EntryDraft.make (entryId conversationId : String) (parentId : Option String) (kind : String)
    (payload : Fields) (byTaskId : Option String) : Except Error EntryDraft :=
  if h : entryId ≠ "" ∧ conversationId ≠ "" ∧ kind ≠ "" then
    .ok { entryId, conversationId, parentId, kind, payload, byTaskId, named := h }
  else .error (.valueError "entry identity and kind are required")

/-! ### Submissions -/

/-- A write that starts settled: it was placed at once, or found the head moved. -/
def writeTerminal (mode : SubmissionMode) (status : SubmissionStatus)
    (placement : SubmissionPlacement) (reason : Option String) : Bool :=
  mode = .write && ((status = .done && placement = .placed)
    || (status = .unanswered && placement = .queued && reason = some "stale"))

structure SubmissionDraftData where
  submissionId : String
  requestId : String
  conversationId : String
  entry : Option EntryDraft
  fingerprint : String := ""
  status : SubmissionStatus := .queued
  placement : SubmissionPlacement := .placed
  mode : SubmissionMode := .followUp
  content : Option Fields := none
  reason : Option String := none
  deriving DecidableEq

def SubmissionDraftData.postInit (s : SubmissionDraftData) : Except Error Unit := do
  require (s.submissionId ≠ "" && s.requestId ≠ "" && s.conversationId ≠ "")
    (.valueError "submission identity and request ID are required")
  require (s.entry.all fun e => e.conversationId = s.conversationId)
    (.valueError "submission entry belongs to another conversation")
  require (s.status = .queued || writeTerminal s.mode s.status s.placement s.reason)
    (.valueError "new input submissions must start queued")
  require (s.placement ≠ .placed || s.entry.isSome)
    (.valueError "placed submissions require an entry")
  require (s.placement ≠ .queued || s.entry.isNone)
    (.valueError "queued submissions cannot already have an entry")
  require (s.placement ≠ .queued || s.content.isSome)
    (.valueError "queued submissions require content")
  require (s.reason ≠ some "") (.valueError "submission reason cannot be empty")

/-- A request for an input or a passive write, as it enters the store. -/
structure SubmissionDraft extends SubmissionDraftData where
  valid : toSubmissionDraftData.postInit = .ok ()

instance : DecidableEq SubmissionDraft := fun s t =>
  decidable_of_iff (s.toSubmissionDraftData = t.toSubmissionDraftData) (by cases s; cases t; simp)

def SubmissionDraft.make (d : SubmissionDraftData) : Except Error SubmissionDraft :=
  match h : d.postInit with
  | .ok () => .ok ⟨d, h⟩
  | .error e => .error e

@[simp] lemma SubmissionDraft.make_eq_ok {d : SubmissionDraftData} {s : SubmissionDraft} :
    make d = .ok s ↔ s.toSubmissionDraftData = d := by
  unfold make
  split <;> rename_i h
  · constructor
    · intro heq
      obtain rfl := Except.ok.inj heq
      rfl
    · rintro rfl
      rfl
  · simp only [reduceCtorEq, false_iff]
    rintro rfl
    simp [s.valid] at h

lemma SubmissionDraft.conversationId_ne (s : SubmissionDraft) : s.conversationId ≠ "" := by
  have h := s.valid
  simp only [SubmissionDraftData.postInit, except_seq_eq_ok, require_eq_ok, Bool.and_eq_true,
    decide_eq_true_eq] at h
  exact h.1.2

lemma SubmissionDraft.submissionId_ne (s : SubmissionDraft) : s.submissionId ≠ "" := by
  have h := s.valid
  simp only [SubmissionDraftData.postInit, except_seq_eq_ok, require_eq_ok, Bool.and_eq_true,
    decide_eq_true_eq] at h
  exact h.1.1.1

/-- A request id names one exact admission, with its status, entry, content and fingerprint. -/
def sameSubmission (a b : SubmissionDraftData) : Bool :=
  a.placement = b.placement && a.mode = b.mode && a.status = b.status && a.reason = b.reason
    && (match a.entry, b.entry with
      | none, none => true
      | some e, some f => e.conversationId = f.conversationId && e.kind = f.kind
        && e.payload.pyEq f.payload
      | _, _ => false)
    && (a.content.getD []).pyEq (b.content.getD []) && a.fingerprint = b.fingerprint

structure SubmissionRecordData where
  submissionId : String
  conversationId : String
  requestId : String
  status : SubmissionStatus
  inputEntryId : Option String
  answerEntryId : Option String := none
  reason : Option String := none
  detail : Option Fields := none
  placement : SubmissionPlacement := .placed
  mode : SubmissionMode := .followUp
  content : Option Fields := none
  deriving DecidableEq

def consumedSteer (s : SubmissionRecordData) : Bool :=
  s.mode = .steer && s.detail.any (fun d => (d.name? "consumed_by_task_id").isSome)
    && s.inputEntryId.any (· ≠ "")

def SubmissionRecordData.postInit (s : SubmissionRecordData) : Except Error Unit := do
  require (s.submissionId ≠ "" && s.conversationId ≠ "" && s.requestId ≠ "")
    (.valueError "submission record identity is required")
  require (s.placement ≠ .placed || s.inputEntryId.any (· ≠ ""))
    (.valueError "placed submissions require an input entry")
  require (s.placement ≠ .queued || s.inputEntryId.isNone)
    (.valueError "queued submissions cannot reference an input entry")
  if s.status = .done then
    if s.mode = .write then
      require (s.inputEntryId.any (· ≠ "")) (.valueError "completed writes require an entry")
    else
      require (consumedSteer s || s.answerEntryId.any (· ≠ ""))
        (.valueError "completed submissions require an answer entry")
  else
    require s.answerEntryId.isNone
      (.valueError "only completed submissions may reference an answer entry")

/-- A submission as the store hands it out. -/
structure SubmissionRecord extends SubmissionRecordData where
  valid : toSubmissionRecordData.postInit = .ok ()

def SubmissionRecord.make (d : SubmissionRecordData) : Except Error SubmissionRecord :=
  match h : d.postInit with
  | .ok () => .ok ⟨d, h⟩
  | .error e => .error e

structure SubmissionUpdateData where
  submissionId : String
  conversationId : String
  expectedStatus : SubmissionStatus
  status : SubmissionStatus
  answerEntryId : Option String := none
  reason : Option String := none
  detail : Option Fields := none
  inputEntryId : Option String := none
  placement : Option SubmissionPlacement := none
  content : Option Fields := none
  mode : Option SubmissionMode := none
  deriving DecidableEq

def SubmissionUpdateData.postInit (u : SubmissionUpdateData) : Except Error Unit := do
  require (u.mode ≠ some .write) (.valueError "invalid queued input mode")
  require (u.expectedStatus = u.status || validSubmissionTransition u.expectedStatus u.status)
    (.valueError ("invalid submission transition: " ++ u.expectedStatus.name ++ " -> "
      ++ u.status.name))
  require (u.status ≠ .done || u.answerEntryId.isSome || u.inputEntryId.isSome)
    (.valueError "completed submissions require an entry")
  require (u.status = .done || u.answerEntryId.isNone)
    (.valueError "only completed submissions may reference an answer entry")

structure SubmissionUpdate extends SubmissionUpdateData where
  valid : toSubmissionUpdateData.postInit = .ok ()

instance : DecidableEq SubmissionUpdate := fun s t =>
  decidable_of_iff (s.toSubmissionUpdateData = t.toSubmissionUpdateData)
    (by cases s; cases t; simp)

def SubmissionUpdate.make (d : SubmissionUpdateData) : Except Error SubmissionUpdate :=
  match h : d.postInit with
  | .ok () => .ok ⟨d, h⟩
  | .error e => .error e

/-! ### Effects -/

structure EffectData where
  effectId : String
  taskId : String
  category : String
  replayClass : String
  argsDigest : String
  status : String
  intent : Fields
  settlement : Option Fields := none
  deriving DecidableEq

/-- One external effect of a task: its intent, and its outcome once it has one. -/
structure EffectRecord extends EffectData where
  named : (effectId ≠ "" ∧ taskId ≠ "" ∧ category ≠ "" ∧ replayClass ≠ "" ∧ argsDigest ≠ "" ∧
    status ≠ "") := by decide

instance : DecidableEq EffectRecord := fun a b =>
  decidable_of_iff (a.toEffectData = b.toEffectData) (by cases a; cases b; simp)

namespace EffectRecord

def make (d : EffectData) : Except Error EffectRecord :=
  if h : d.effectId ≠ "" ∧ d.taskId ≠ "" ∧ d.category ≠ "" ∧ d.replayClass ≠ "" ∧
      d.argsDigest ≠ "" ∧ d.status ≠ "" then .ok ⟨d, h⟩
  else .error (.valueError "effect identity and classification are required")

@[simp] lemma make_eq_ok {d : EffectData} {e : EffectRecord} :
    make d = .ok e ↔ e.toEffectData = d := by
  unfold make
  split_ifs with h
  · constructor
    · intro heq
      obtain rfl := Except.ok.inj heq
      rfl
    · rintro rfl
      rfl
  · simp only [false_iff]
    rintro rfl
    exact h e.named

/-- Dataclass equality: every field, payloads by value. -/
def pyEq (a b : EffectRecord) : Bool :=
  a.effectId = b.effectId && a.taskId = b.taskId && a.category = b.category
    && a.replayClass = b.replayClass && a.argsDigest = b.argsDigest && a.status = b.status
    && a.intent.pyEq b.intent && Fields.pyEq? a.settlement b.settlement

def identity (e : EffectRecord) : String × String × String × String × Fields :=
  (e.taskId, e.category, e.replayClass, e.argsDigest, e.intent)

end EffectRecord

/-- A cancelled task admits only the receipt that closes its provider request. -/
def cancellationReceiptsOnly (current : CheckpointData) (effects : List EffectRecord) : Bool :=
  match current.state.operation with
  | none => false
  | some position =>
    position.get? "leaf" = some (.str "provider_request_ready") && position.truthy "work_ref"
      && effects.all fun e => e.category = "provider_send"
        && e.intent.get? "display_ref" = some (.str "closing_acknowledgement")
        && ((e.intent.get? "request_ref").getD .null).pyEq
          ((position.get? "request_ref").getD .null)

/-! ### Approvals -/

def continuationStatuses : List String :=
  ["waiting_for_result", "queued", "resuming", "started", "failed", "unavailable", "cancelled",
    "not_required"]

structure ApprovalData where
  approvalId : String
  taskId : String
  conversationId : String
  status : ApprovalStatus
  commandDigest : String
  commandRef : String
  cwd : String
  revision : Nat := 0
  settlement : Option Fields := none
  continuationStatus : String := "waiting_for_result"
  continuationRunId : String := ""
  deriving DecidableEq

def ApprovalData.postInit (a : ApprovalData) : Except Error Unit := do
  require (a.approvalId ≠ "" && a.taskId ≠ "" && a.conversationId ≠ "")
    (.valueError "approval identity is required")
  require (a.commandDigest ≠ "" && a.commandRef ≠ "" && a.cwd ≠ "")
    (.valueError "approval command identity is required")
  require (continuationStatuses.contains a.continuationStatus)
    (.valueError "invalid approval continuation status")

/-- The current permission decision for one shell invocation. -/
structure ApprovalRecord extends ApprovalData where
  valid : toApprovalData.postInit = .ok ()

instance : DecidableEq ApprovalRecord := fun s t =>
  decidable_of_iff (s.toApprovalData = t.toApprovalData) (by cases s; cases t; simp)

namespace ApprovalRecord

def make (d : ApprovalData) : Except Error ApprovalRecord :=
  match h : d.postInit with
  | .ok () => .ok ⟨d, h⟩
  | .error e => .error e

@[simp] lemma make_eq_ok {d : ApprovalData} {a : ApprovalRecord} :
    make d = .ok a ↔ a.toApprovalData = d := by
  unfold make
  split <;> rename_i h
  · constructor
    · intro heq
      obtain rfl := Except.ok.inj heq
      rfl
    · rintro rfl
      rfl
  · simp only [reduceCtorEq, false_iff]
    rintro rfl
    simp [a.valid] at h

def toPayload (a : ApprovalData) : Fields :=
  [("approval_id", .str a.approvalId), ("command_digest", .str a.commandDigest),
    ("command_ref", .str a.commandRef), ("continuation_run_id", .str a.continuationRunId),
    ("continuation_status", .str a.continuationStatus),
    ("conversation_id", .str a.conversationId), ("cwd", .str a.cwd),
    ("revision", .int a.revision),
    ("settlement", (a.settlement.map Json.obj).getD .null), ("status", .str a.status.name),
    ("task_id", .str a.taskId)]

/-- `str(payload.get(key) or "")`. Only texts are ever written there; of the other values, numbers
and booleans keep their text and the rest stand for none. -/
def text (payload : Fields) (key : String) : String :=
  match payload.get? key with
  | some (.str s) => s
  | some (.int n) => if n = 0 then "" else toString n
  | some (.bool true) => "True"
  | _ => ""

def textD (payload : Fields) (key : String) (default : String) : String :=
  if text payload key = "" then default else text payload key

def revisionOf : Option Json → Except Error Nat
  | some (.int n) =>
    if 0 ≤ n then .ok n.toNat else .error (.valueError "approval revision cannot be negative")
  | some (.bool b) => .ok b.toNat
  | some (.str s) => match s.toInt? with
    | some n =>
      if 0 ≤ n then .ok n.toNat else .error (.valueError "approval revision cannot be negative")
    | none => .error (.valueError "invalid literal for int() with base 10")
  | _ => .ok 0

def fromPayload (payload : Fields) : Except Error ApprovalRecord := do
  let revision ← revisionOf (payload.get? "revision")
  match ApprovalStatus.ofName? (text payload "status") with
  | none => .error (.valueError (text payload "status" ++ " is not a valid ApprovalStatus"))
  | some status =>
    make {
      approvalId := text payload "approval_id"
      taskId := text payload "task_id"
      conversationId := text payload "conversation_id"
      status
      commandDigest := text payload "command_digest"
      commandRef := text payload "command_ref"
      cwd := text payload "cwd"
      revision
      settlement := payload.obj? "settlement"
      continuationStatus := textD payload "continuation_status" "waiting_for_result"
      continuationRunId := text payload "continuation_run_id" }

theorem fromPayload_toPayload (a : ApprovalRecord) :
    fromPayload (toPayload a.toApprovalData) = .ok a := by
  have hcs : a.continuationStatus ≠ "" := by
    intro h
    have := a.valid
    simp only [ApprovalData.postInit, except_seq_eq_ok, require_eq_ok, h] at this
    simp [continuationStatuses] at this
  have hset : Fields.obj? (toPayload a.toApprovalData) "settlement" = a.settlement := by
    cases h : a.settlement <;> simp [toPayload, Fields.obj?, h]
  simp [fromPayload, toPayload, revisionOf, text, textD, hcs] at hset ⊢
  simp [bind, Except.bind, hset]

end ApprovalRecord

/-! ### Artifacts -/

/-- Metadata for bytes stored outside the store's payload tables. -/
structure ArtifactRecord where
  handle : String
  sha256 : String
  byteCount : Nat
  storagePath : String
  ownerTaskId : Option String := none
  ownerEffectId : Option String := none
  createdAt : String := ""
  metadata : Fields := []
  deriving DecidableEq

end Codey
