import Codey.Durable.Mutation

/-!
# Reducers of a checkpoint

The pure steps that a checkpoint takes beside its effects and approvals: new effect intents, an
effect's settlement, the receipt of an interrupted effect, and the folding of an approval into the
checkpoint that owns it.
-/

namespace Codey

/-! ### Effects -/

/-- `list(state.get("pending_effect_ids", []))`. -/
def pendingList (state : Fields) : Except Error (List String) :=
  match state.get? "pending_effect_ids" with
  | some .null => .error (.typeError "'NoneType' object is not iterable")
  | _ => .ok state.pendingEffectIds

def appendNew (pending : List String) : List String → List String
  | [] => pending
  | id :: ids => appendNew (if id ∈ pending then pending else pending ++ [id]) ids

def withPending (current : TaskCheckpoint) (pending : List String) : CheckpointData :=
  { current.toCheckpointData with
    revision := current.revision + 1
    state := current.state.merge [("pending_effect_ids", Fields.ofStrs pending)]
    pendingEffectId := pending.getLast? }

def withEffectIntents (current : TaskCheckpoint) (effects : List EffectRecord) :
    Except Error TaskCheckpoint := do
  require (!effects.isEmpty && effects.all fun e =>
      e.taskId = current.taskId && e.status = "pending" && e.settlement.isNone)
    (.valueError "effect intents must be pending and belong to the task")
  require (current.phase = .running && current.status ∈ [.running, .waiting]
      && (!current.state.cancelRequested
        || cancellationReceiptsOnly current.toCheckpointData effects))
    (.commitConflict "task does not admit new external effects")
  let pending ← pendingList current.state
  TaskCheckpoint.make (withPending current (appendNew pending (effects.map (·.effectId))))

def withEffectSettlement (current : TaskCheckpoint) (effect : EffectRecord) :
    Except Error TaskCheckpoint := do
  require (effect.taskId = current.taskId && effect.settlement.isSome
      && effect.status ≠ "pending")
    (.valueError "effect settlement requires a terminal outcome belonging to the task")
  let pending ← pendingList current.state
  TaskCheckpoint.make (withPending current (pending.filter (· ≠ effect.effectId)))

/-- The receipt of an external outcome lost across process death. -/
def interruptedEffect (task : TaskCheckpoint) (effect : EffectRecord) :
    Except Error EffectRecord := do
  let lane := effect.intent.strD "lane"
  let operationId := effect.intent.strD "operation_id"
  require (lane ≠ "" && operationId ≠ "")
    (.valueError "durable effect identity must be canonical before recovery")
  EffectRecord.make { effect.toEffectData with
    status := "interrupted"
    settlement := some [
      ("effect_category", .str effect.category),
      ("effect_id", .str effect.effectId),
      ("effect_kind", .str "runtime_effect"),
      ("error_code", .str "interrupted_by_crash"),
      ("lane", .str lane),
      ("operation_id", .str operationId),
      ("record_kind", .str "settlement"),
      ("ref", .str ("effect_settlement:" ++ effect.effectId)),
      ("replay_class", .str effect.replayClass),
      ("run_id", .str (ApprovalRecord.textD effect.intent "run_id" task.taskId)),
      ("schema_version", .int 1),
      ("sent_state", .str (if effect.category = "provider_send" then "maybe_sent" else "settled")),
      ("session_id", .str (ApprovalRecord.textD effect.intent "session_id" task.conversationId)),
      ("status", .str "interrupted")] }

/-! ### Approvals -/

def approvalsOf (state : Fields) : Except Error Fields :=
  match state.get? "approvals" with
  | none => .ok []
  | some (.obj members) => .ok members
  | some _ => .error (.commitConflict "task approval state is corrupt")

/-- The compare-and-set of an approval against the record it replaces. -/
def validateApprovalStep (existing : Option ApprovalRecord) (approval : ApprovalRecord)
    (expected : Option ApprovalStatus) : Except Error Unit :=
  match existing with
  | none => do
    require (approval.revision = 0 && approval.status = .requested)
      (.commitConflict "new approval must start as requested revision zero")
    require expected.isNone (.commitConflict "new approval cannot have an expected status")
  | some existing => do
    require (expected = some existing.status) (.commitConflict "approval status changed")
    require (approval.revision = existing.revision + 1)
      (.commitConflict "approval revision changed")
    require (existing.status = approval.status
        || validApprovalTransition (some existing.status) approval.status)
      (.commitConflict ("invalid approval transition: " ++ existing.status.name ++ " -> "
        ++ approval.status.name))
    require (approval.taskId = existing.taskId
        && approval.conversationId = existing.conversationId
        && approval.commandDigest = existing.commandDigest
        && approval.commandRef = existing.commandRef && approval.cwd = existing.cwd)
      (.commitConflict "approval identity is immutable")

/-- The record under an id in the approvals object of a checkpoint. -/
def existingApproval (approvals : Fields) (approvalId : String) :
    Except Error (Option ApprovalRecord) :=
  match approvals.obj? approvalId with
  | none => .ok none
  | some payload => do
    let existing ← ApprovalRecord.fromPayload payload
    pure (some existing)

def withApproval (state approvals : Fields) (approval : ApprovalRecord) : Fields :=
  state.merge [("approvals",
    .obj (approvals.set approval.approvalId
      (.obj (ApprovalRecord.toPayload approval.toApprovalData))))]

/-- Fold the approval of a mutation into its task checkpoint, or into the next revision of the
current one. -/
def materializeApproval (m : DurableMutation) (approval : ApprovalRecord)
    (current : TaskCheckpoint) : Except Error DurableMutation := do
  require (current.conversationId = m.conversationId)
    (.commitConflict "approval conversation boundary mismatch")
  let approvals ← approvalsOf current.state
  let existing ← existingApproval approvals approval.approvalId
  validateApprovalStep existing approval m.expectedApprovalStatus
  let proposed := match m.task with
    | none => { current.toCheckpointData with
        revision := current.revision + 1, state := withApproval current.state approvals approval }
    | some proposed => { proposed.toCheckpointData with
        state := withApproval proposed.state approvals approval }
  let proposed ← TaskCheckpoint.make proposed
  DurableMutation.make { m.toMutationData with
    task := some proposed, approval := none, expectedApprovalStatus := none }

end Codey
