import Codey.Runtime.SessionView

/-!
# The operation reducer

From a view of the run and the inputs of the decision, the only action that the runtime may take.
-/

namespace Codey

namespace Runtime

inductive ActionKind where
  | continueOperation | failInvariant | replaySafeToolBatch | redeliverSettledBatch
  | settleProviderUnknown | synthesizeInterruptedEffects | terminal | interpretProviderResponse
  | commitGenerationBoundary | submitProviderRequest | prepareTurn | executeToolPlan
  | observeBatchProgress | evaluateCompletion | prepareControlDelivery | closeProtocol
  | returnKernelResult | beginClosing | resumeQuestion | returnWaiting | reconcileApproval
deriving DecidableEq, Repr

structure RuntimeDecisionInputs where
  cancelRequested : Bool := false
  closingIntent : Bool := false
  questionAnswered : Bool := false
  approvalRef : String := ""
  approvalReady : Bool := false
  approvalOutcomeUnknown : Bool := false
deriving DecidableEq, Repr

structure RuntimeAction where
  kind : ActionKind
  leaf : Option Leaf := none
  reason : String := ""
  effectId : String := ""
  effectIds : List String := []
  deliveryBatchId : String := ""
  driver : String := ""
  responseRef : String := ""
  requestRef : String := ""
  workRef : String := ""
deriving DecidableEq, Repr

/-- `_external_outcome_unknown`. -/
def RuntimeEffectProjection.outcomeUnknown (e : RuntimeEffectProjection) : Bool :=
  match e.settlement with
  | none => false
  | some receipt => receipt.sentState = .maybeSent || receipt.errorCode = "interrupted_by_crash"

def progressReferenceValid (v : SessionView) : Bool :=
  match v.state with
  | none => true
  | some state =>
    if state.counters.progress.lastBatchId = "" then true
    else match batchById v.batches state.counters.progress.lastBatchId with
      | none => false
      | some b => batchFullySettled b v.effects

variable (state : RuntimeOperationState)

def failAt (reason : String) : RuntimeAction :=
  { kind := .failInvariant, leaf := some state.leaf, reason := reason }

def cancelLeaves : List Leaf :=
  [.writerRunning, .repairRunning, .providerRequestReady, .providerResponseReady, .planReady,
    .completionPending, .controlReady, .closing, .kernelSettled, .toolDeliveryPending]

def operationGuardAction (v : SessionView) (inputs : RuntimeDecisionInputs) :
    Option RuntimeAction :=
  match v.state with
  | none => some { kind := .failInvariant, reason := "missing_operation_state" }
  | some state =>
    let unknown := v.effects.filter (·.outcomeUnknown)
    if ¬ state.leaf.known then some (failAt state "unknown_leaf")
    else if ¬ progressReferenceValid v then
      some (failAt state "progress_batch_missing_or_incomplete")
    else if unknown ≠ [] then
      some { failAt state "external_outcome_unknown" with
             effectIds := unknown.map (·.intent.effectId) }
    else if inputs.cancelRequested ∧ ¬ inputs.closingIntent ∧ state.leaf ∈ cancelLeaves then
      some { kind := .beginClosing, leaf := some state.leaf, reason := "stopped"
             driver := state.driver }
    else if state.leaf = .terminal then
      if v.unsettled ≠ [] then some (failAt state "terminal_retains_pending_effects")
      else some { kind := .terminal, leaf := some state.leaf }
    else none

def providersOf (unsettled : List RuntimeEffectProjection) : List RuntimeEffectProjection :=
  unsettled.filter fun e => e.intent.effectCategory = .providerSend

def responseReadyAction (effects : List RuntimeEffectProjection) : RuntimeAction :=
  match effects.filter fun e =>
      e.intent.effectCategory = .providerSend && e.intent.turn = state.turn with
  | [provider] =>
    if state.responseRef = "" ∨ ∃ receipt ∈ provider.settlement, receipt.sentState ≠ .settled then
      failAt state "missing_provider_response_fact"
    else
      { kind := .interpretProviderResponse, leaf := some state.leaf
        effectId := provider.intent.effectId, responseRef := state.responseRef
        driver := state.driver }
  | _ => failAt state "missing_provider_response_fact"

def preparedRequestAction (unsettled : List RuntimeEffectProjection) : RuntimeAction :=
  match providersOf unsettled, unsettled with
  | [provider], [_] =>
    if state.responseRef ≠ "" then
      { kind := .commitGenerationBoundary, leaf := some state.leaf
        effectId := provider.intent.effectId, responseRef := state.responseRef
        requestRef := state.requestRef, driver := state.driver
        reason := "before_provider_request" }
    else failAt state "prepared_request_effects_mismatch"
  | _, unsettled =>
    if unsettled ≠ [] ∨ state.responseRef ≠ "" ∨ state.requestRef = "" then
      failAt state "prepared_request_effects_mismatch"
    else
      { kind := .submitProviderRequest, leaf := some state.leaf, requestRef := state.requestRef
        driver := state.driver }

def providerPendingAction (effects : List RuntimeEffectProjection)
    (pending : PendingRuntimeFacts) : RuntimeAction :=
  match pending.effectIds with
  | [effectId] =>
    { kind := .settleProviderUnknown, leaf := some state.leaf, effectId := effectId
      deliveryBatchId := pending.deliveryBatchId, driver := state.driver }
  | _ =>
    match effects.filter fun e => e.intent.effectCategory = .providerSend
        && e.intent.turn = state.turn && e.settlement.isSome with
    | stale :: _ =>
      { failAt state "settled_provider_effect_still_pending" with
        effectId := stale.intent.effectId, driver := state.driver }
    | [] => failAt state "missing_provider_effect_intent"

/-- `_safe_tool_projection`. -/
def RuntimeEffectProjection.safeTool (e : RuntimeEffectProjection) : Bool :=
  e.intent.replayClass = .safe && isReplayableSafeTool e.intent.toolName
    && e.intent.replayArgs.isSome

/-- The interrupted calls get results of their own. -/
def synthesizeAction (pending : PendingRuntimeFacts) (reason : String) : RuntimeAction :=
  { kind := .synthesizeInterruptedEffects, leaf := some state.leaf
    effectIds := pending.effectIds, deliveryBatchId := pending.deliveryBatchId
    driver := state.driver, reason := reason }

def toolPendingAction (effects : List RuntimeEffectProjection)
    (batches : List DeliveryBatchProjection) (pending : PendingRuntimeFacts) : RuntimeAction :=
  if pending.effectIds = [] then
    match effects.filter fun e => e.intent.effectCategory = .toolCall
        && e.intent.turn = state.turn && e.settlement.isSome with
    | [] => failAt state "empty_tool_pending"
    | stale =>
      { failAt state "settled_tool_effect_still_pending" with
        effectIds := stale.map (·.intent.effectId)
        deliveryBatchId := pending.deliveryBatchId, driver := state.driver }
  else
    let livePending := pending.effectIds.filterMap (effectById effects)
    if livePending.length ≠ pending.effectIds.length then
      { failAt state "missing_tool_effect_intent" with
        effectIds := pending.effectIds, deliveryBatchId := pending.deliveryBatchId
        driver := state.driver }
    else
      -- frozen local selections and review commits are repeatable in a research task
      let researchCommit := state.taskKind = "research" && livePending.all fun e =>
        e.intent.toolName ∈ ["submit_research_review", "submit_research_answer"]
      if state.taskKind ∉ ["project", "hybrid"] ∧ ¬ researchCommit then
        synthesizeAction state pending "task_kind_not_replayable"
      else
        match batchById batches pending.deliveryBatchId with
        | none =>
          { failAt state "missing_delivery_batch" with
            deliveryBatchId := pending.deliveryBatchId, driver := state.driver }
        | some b =>
          if b.canRecoverBeforeProviderSend ∧ livePending.all (·.safeTool) then
            { kind := .replaySafeToolBatch, leaf := some state.leaf
              effectIds := pending.effectIds, deliveryBatchId := b.intent.batchId
              driver := state.driver }
          else synthesizeAction state pending "tool_effect_not_replayable_as_batch"

def approvalAction (inputs : RuntimeDecisionInputs) (unsettled : List RuntimeEffectProjection) :
    RuntimeAction :=
  if inputs.approvalOutcomeUnknown then failAt state "approval_execution_outcome_unknown"
  else if inputs.approvalReady ∨ inputs.cancelRequested then
    { kind := .reconcileApproval, leaf := some state.leaf, effectId := inputs.approvalRef
      reason := if inputs.cancelRequested then "stopped" else "" }
  else if providersOf unsettled ≠ [] then
    { kind := .commitGenerationBoundary, leaf := some state.leaf, reason := "approval" }
  else
    { kind := .returnWaiting, leaf := some state.leaf, reason := "approval"
      effectId := inputs.approvalRef }

def deliveryPendingAction (effects : List RuntimeEffectProjection)
    (batches : List DeliveryBatchProjection) (pending : PendingRuntimeFacts) : RuntimeAction :=
  match batchById batches pending.deliveryBatchId with
  | none =>
    { failAt state "missing_delivery_batch" with
      deliveryBatchId := pending.deliveryBatchId, driver := state.driver }
  | some b =>
    -- original results are delivered again rather than computed again
    if batchFullySettled b effects then
      { kind := .redeliverSettledBatch, leaf := some state.leaf, effectIds := b.intent.toolRefs
        deliveryBatchId := b.intent.batchId, driver := state.driver }
    else if b.canRecoverBeforeProviderSend then
      { kind := .replaySafeToolBatch, leaf := some state.leaf, effectIds := b.intent.toolRefs
        deliveryBatchId := b.intent.batchId, driver := state.driver }
    else
      { kind := .continueOperation, leaf := some state.leaf
        reason := "tool_delivery_not_recoverable", deliveryBatchId := pending.deliveryBatchId
        driver := state.driver }

def toolDeliveryAction (effects : List RuntimeEffectProjection)
    (batches : List DeliveryBatchProjection) (pending : PendingRuntimeFacts)
    (unsettled : List RuntimeEffectProjection) : RuntimeAction :=
  match (batchById batches pending.deliveryBatchId).filter fun b =>
      batchFullySettled b effects && state.counters.progress.lastBatchId ≠ b.intent.batchId with
  | some b =>
    { kind := .observeBatchProgress, leaf := some state.leaf, effectIds := b.intent.toolRefs
      deliveryBatchId := b.intent.batchId, driver := state.driver }
  | none =>
    match providersOf unsettled with
    | [] => deliveryPendingAction state effects batches pending
    | provider :: others =>
      if others ≠ [] ∨ unsettled.length ≠ 1 then
        failAt state "generation_boundary_effects_mismatch"
      else
        { kind := .commitGenerationBoundary, leaf := some state.leaf
          effectId := provider.intent.effectId, reason := "post_tools" }

/-- The action at a leaf that carries on an execution, if it is one. -/
def executionAction : Leaf → Option ActionKind
  | .planReady => some .executeToolPlan
  | .completionPending => some .evaluateCompletion
  | .controlReady => some .prepareControlDelivery
  | .closing => some .closeProtocol
  | .kernelSettled => some .returnKernelResult
  | _ => none

def executionPositionAction (inputs : RuntimeDecisionInputs) : Option RuntimeAction :=
  if state.leaf = .kernelSettled ∧ inputs.questionAnswered then
    some { kind := .resumeQuestion, leaf := some state.leaf, workRef := state.workRef }
  else
    (executionAction state.leaf).map fun kind =>
      if state.leaf ∈ [.controlReady, .closing, .kernelSettled] ∧ state.workRef = "" then
        failAt state "execution_input_missing"
      else
        { kind := kind, leaf := some state.leaf, responseRef := state.responseRef
          workRef := state.workRef, driver := state.driver }

def lifecycleAction (v : SessionView) : RuntimeAction :=
  if state.leaf ∈ [.accepted, .writerRunning, .writerSettled, .completionProofRecorded,
      .repairContextAdmitted, .repairRunning, .repairSettled] then
    if v.unsettled ≠ [] then failAt state "unexpected_pending_effects"
    else if state.leaf ∈ [.writerRunning, .repairRunning] ∧ ∃ b ∈ v.batches, b.isTerminal = false
    then failAt state "unexpected_undelivered_batch"
    else
      { kind := if state.leaf ∈ [.writerRunning, .repairRunning] then .prepareTurn
          else .continueOperation
        leaf := some state.leaf }
  else failAt state "unhandled_leaf"

/-- The action at a leaf once the guards have passed. -/
def leafAction (v : SessionView) (inputs : RuntimeDecisionInputs) : RuntimeAction :=
  let pending := pendingFor v
  match state.leaf with
  | .providerRequestReady => preparedRequestAction state v.unsettled
  | .providerEffectPending => providerPendingAction state v.effects pending
  | .providerResponseReady => responseReadyAction state v.effects
  | .toolEffectPending =>
    if inputs.approvalRef ≠ "" then approvalAction state inputs v.unsettled
    else toolPendingAction state v.effects v.batches pending
  | .toolDeliveryPending => toolDeliveryAction state v.effects v.batches pending v.unsettled
  | _ => (executionPositionAction state inputs).getD (lifecycleAction state v)

def nextRuntimeAction (v : SessionView) (inputs : RuntimeDecisionInputs) : RuntimeAction :=
  match operationGuardAction v inputs, v.state with
  | some action, _ => action
  | none, some state => leafAction state v inputs
  | none, none => { kind := .failInvariant, reason := "missing_operation_state" }

end Runtime

end Codey
