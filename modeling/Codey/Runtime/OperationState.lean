import Codey.Lib.Json

/-!
# Operation states

The state of one run's operation: its leaf, what the leaf points at, and the budgets it has used.
-/

namespace Codey

namespace Runtime

/-- The position of an operation. A state that no decoder has read may name any other leaf. -/
inductive Leaf where
  | accepted | writerRunning | providerRequestReady | providerEffectPending
  | providerResponseReady | planReady | completionPending | controlReady | closing | kernelSettled
  | toolEffectPending | toolDeliveryPending | writerSettled | completionProofRecorded
  | repairContextAdmitted | repairRunning | repairSettled | terminal
  | unlisted (name : String)
deriving DecidableEq, Repr

/-- `leaf in LEAVES`. -/
def Leaf.known : Leaf → Bool
  | .unlisted _ => false
  | _ => true

structure ToolAttemptRecord where
  tool : String
  callFp : String
  resultFp : String
  ok : Bool
  changed : Bool
  turn : Nat
  editEpoch : Nat
deriving DecidableEq, Repr

/-- Bounded progress data owned by the operation checkpoint. -/
structure ProgressSnapshot where
  limit : Nat := 4
  seen : List (String × String × String) := []
  attempts : List ToolAttemptRecord := []
  idle : Nat := 0
  lastBatchId : String := ""
  schemaVersion : Nat := 1
  repairFailureKey : String := ""
  repairRejections : Nat := 0
deriving DecidableEq, Repr

/-- Bounded execution history. -/
structure RuntimeExecutionCounters where
  invalidTurns : Nat := 0
  lengthContinuationUsed : Bool := false
  closingRound : Nat := 0
  progress : ProgressSnapshot := {}
deriving DecidableEq, Repr

structure RuntimeOperationTerminal where
  stopReason : String
  summaryChars : Nat
  turns : Nat
  maxTurns : Nat
  provider : String
  blockedReason : String
  finishedAt : String
deriving DecidableEq, Repr

structure RuntimeOperationState where
  sessionId : String
  runId : String
  operationId : String
  lane : String
  projectRef : String
  providerId : String
  turnBudget : Nat
  maxRepairRounds : Nat
  leaf : Leaf
  startedAt : String
  updatedAt : String
  taskKind : String := "task"
  taskPolicy : Fields := []
  modelSelection : Fields := []
  reviewerSelection : Fields := []
  finalDelivery : String := "not_required"
  writerAttempt : Nat := 1
  candidateValidationAttempted : Bool := false
  turnsUsed : Nat := 0
  stopReason : String := ""
  completionProofRef : String := ""
  completionProofStatus : String := ""
  repairRounds : Nat := 0
  repairContextRef : String := ""
  blockedReason : String := ""
  driver : String := ""
  turn : Nat := 0
  toolIndex : Nat := 0
  responseRef : String := ""
  requestRef : String := ""
  workRef : String := ""
  continuationRef : String := ""
  logicalTurn : Nat := 0
  counters : RuntimeExecutionCounters := {}
  terminal : Option RuntimeOperationTerminal := none
deriving DecidableEq

end Runtime

end Codey
