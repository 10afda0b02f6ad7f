import Codey.Runtime.OperationState
import Codey.Lib.Text

/-!
# Session views

What the runtime reads of one run: the operation state, its external effects and the batches in
which tool results are delivered. The facts pending at a leaf are derived from these.
-/

namespace Codey

namespace Runtime

/-! ### Effects -/

inductive EffectCategory where
  | providerSend | toolCall
deriving DecidableEq, Repr

inductive ReplayClass where
  | safe | notSafe
deriving DecidableEq, Repr

inductive SentState where
  | maybeSent | settled | notSent
deriving DecidableEq, Repr

structure RuntimeEffectIntent where
  effectId : String
  effectCategory : EffectCategory
  turn : Nat
  toolName : String
  replayClass : ReplayClass
  replayArgs : Option Fields
deriving DecidableEq

structure RuntimeEffectSettlement where
  sentState : SentState
  errorCode : String
deriving DecidableEq, Repr

structure RuntimeEffectProjection where
  intent : RuntimeEffectIntent
  settlement : Option RuntimeEffectSettlement
deriving DecidableEq

/-- The tools whose call may be repeated: the read-only ones, the idempotent ones and the
resumable container. -/
def replayableSafeToolNames : List String :=
  ["ls", "read", "search", "references", "knowledge_commit", "submit_research_review",
    "submit_research_answer", "codemode"]

def isReplayableSafeTool (toolName : String) : Bool :=
  String.ofList (strip toolName.toList) ∈ replayableSafeToolNames

/-! ### Delivery batches -/

structure DeliveryBatchItem where
  toolName : String
  ref : String
  replayClass : ReplayClass
  isDenied : Bool
deriving DecidableEq, Repr

structure DeliveryBatchIntent where
  batchId : String
  turn : Nat
  items : List DeliveryBatchItem
deriving DecidableEq, Repr

def DeliveryBatchIntent.toolRefs (i : DeliveryBatchIntent) : List String := i.items.map (·.ref)

structure DeliveryBatchProjection where
  intent : DeliveryBatchIntent
  sendAttempts : List String
  supersededEffectIds : List String
  isDelivered : Bool
  isAbandoned : Bool
deriving DecidableEq, Repr

namespace DeliveryBatchProjection

variable (b : DeliveryBatchProjection)

def isTerminal : Bool := b.isDelivered || b.isAbandoned

def activeAttempts : List String :=
  b.sendAttempts.filter fun effectId => effectId ∉ b.supersededEffectIds

def isAllSafe : Bool :=
  !b.intent.items.isEmpty && b.intent.items.all fun item =>
    item.replayClass = .safe && !item.isDenied && isReplayableSafeTool item.toolName

def canRecoverBeforeProviderSend : Bool :=
  !b.isDelivered && !b.isAbandoned && b.activeAttempts.isEmpty && b.isAllSafe

end DeliveryBatchProjection

/-! ### Views -/

structure SessionView where
  state : Option RuntimeOperationState
  effects : List RuntimeEffectProjection
  batches : List DeliveryBatchProjection
deriving DecidableEq

def SessionView.unsettled (v : SessionView) : List RuntimeEffectProjection :=
  v.effects.filter (·.settlement.isNone)

structure PendingRuntimeFacts where
  effectCategory : Option EffectCategory := none
  effectIds : List String := []
  deliveryBatchId : String := ""
deriving DecidableEq, Repr

/-- The id of the first batch that meets a condition, or the given text. -/
def firstBatchId (batches : List DeliveryBatchProjection) (p : DeliveryBatchProjection → Bool)
    (default : String) : String :=
  ((batches.find? p).map (·.intent.batchId)).getD default

def pendingIds (unsettled : List RuntimeEffectProjection) (category : EffectCategory)
    (turn : Nat) : List String :=
  (unsettled.filter fun e =>
    e.intent.effectCategory = category && e.intent.turn = turn).map (·.intent.effectId)

def pendingFor (v : SessionView) : PendingRuntimeFacts :=
  match v.state with
  | none => {}
  | some state =>
    let currentBatches := v.batches.filter fun b => b.intent.turn = state.turn
    match state.leaf with
    | .providerEffectPending | .providerResponseReady =>
      let ids := pendingIds v.unsettled .providerSend state.turn
      { effectCategory := some .providerSend
        effectIds := ids
        deliveryBatchId := match ids with
          | [] => ""
          | id :: _ => firstBatchId v.batches (fun b => id ∈ b.sendAttempts) "" }
    | .toolEffectPending =>
      let ids := pendingIds v.unsettled .toolCall state.turn
      { effectCategory := some .toolCall
        effectIds := ids
        deliveryBatchId := match ids with
          | [] => ""
          | id :: _ => firstBatchId currentBatches (fun b => ids ⊆ b.intent.toolRefs)
              (firstBatchId currentBatches (fun b => id ∈ b.intent.toolRefs) "") }
    | .toolDeliveryPending =>
      let openBatches := currentBatches.filter fun b => !b.isTerminal
      -- an ambiguous history names no batch
      { deliveryBatchId := match openBatches.filter fun b => b.sendAttempts.isEmpty with
          | [fresh] => fresh.intent.batchId
          | [] => match openBatches with
            | [only] => only.intent.batchId
            | _ => ""
          | _ => "" }
    | _ => {}

def effectById (effects : List RuntimeEffectProjection) (effectId : String) :
    Option RuntimeEffectProjection :=
  effects.find? fun e => e.intent.effectId = effectId

def batchById (batches : List DeliveryBatchProjection) (batchId : String) :
    Option DeliveryBatchProjection :=
  batches.find? fun b => b.intent.batchId = batchId

/-- `_batch_fully_settled`: the table of effects keeps the last one of each id. -/
def batchFullySettled (b : DeliveryBatchProjection) (effects : List RuntimeEffectProjection) :
    Bool :=
  !b.intent.toolRefs.isEmpty && b.intent.toolRefs.all fun effectId =>
    match effectById effects.reverse effectId with
    | none => false
    | some e => e.settlement.isSome

end Runtime

end Codey
