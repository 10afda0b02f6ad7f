import Codey.Durable.TaskHistory

/-!
# Recovery of CodeMode

A program may store and load values in the state of its task and call tools. The checkpoint of the
task keeps, for each execution, the requests of its state operations with the revisions that they
were committed under; a repeated load looks its value up in the checkpoint of that revision. The
calls are known from their effects.
-/

namespace Codey

namespace Codemode

/-- A `CodeModeReplayError`, or any other exception. -/
inductive Failure where
  | replay (message : String)
  | raised (error : Error)
  deriving DecidableEq

def passing {α : Type} : Except Error α → Except Failure α
  | .ok a => .ok a
  | .error e => .error (.raised e)

/-- What the recovery takes from the standard library: the digest of a value, the length of its
text and the text of an exception. -/
structure Host where
  digest : Json → String
  encodedSize : Json → Nat
  errorText : Error → String

/-- The arguments of `DurableCodeModeReplay`. -/
structure Identity where
  taskId : String
  executionId : String
  fingerprint : String
  parentEffectId : String
  effectScope : String := ""
  allowWrites : Bool := false

/-! ### State -/

def maxKeys : Nat := 64

def keyBytes : Nat := 256

def valueBytes : Nat := 16384

def valueError {α : Type} (message : String) : Except Failure α :=
  .error (.raised (.valueError message))

/-- `_key` -/
def checkKey (key : String) : Except Failure Unit := do
  require (key ≠ "") (.raised (.valueError "CodeMode state key must be a non-empty string"))
  require (key.utf8ByteSize ≤ keyBytes)
    (.raised (.valueError "CodeMode state key exceeds size limit"))

def valuesAt (current : TaskCheckpoint) : Except Failure Fields :=
  match current.state.get? "codemode_state" with
  | none => .ok []
  | some (.obj values) => .ok values
  | some _ => valueError "invalid CodeMode program state"

def prepareStore (host : Host) (current : TaskCheckpoint) (key : String) (value : Json) :
    Except Failure Fields := do
  checkKey key
  require (host.encodedSize value ≤ valueBytes)
    (.raised (.valueError "CodeMode state value exceeds size limit"))
  let values ← valuesAt current
  require ((values.get? key).isSome || values.length < maxKeys)
    (.raised (.valueError "CodeMode state key limit exceeded"))
  .ok (values.set key value)

/-! ### Records -/

/-- `_records` -/
def recordsOf (current : TaskCheckpoint) : Except Failure Fields :=
  match current.state.get? "codemode_replay" with
  | none => .ok []
  | some (.obj records) => .ok records
  | some _ => .error (.replay "invalid CodeMode recovery metadata")

def isInt : Option Json → Bool
  | some (.int _) => true
  | _ => false

def isBool : Option Json → Bool
  | some (.bool _) => true
  | _ => false

variable (id : Identity)

/-- Whether a record is one of this execution. -/
def recordFits (record : Fields) : Bool :=
  record.get? "fingerprint" = some (.str id.fingerprint)
    && isInt (record.get? "epoch_ms")
    && isInt (record.get? "seed")
    && (record.get? "schema").any (fun schema => schema.pyEq (.int 1))
    && record.get? "effect_scope" = some (.str id.effectScope)
    && isBool (record.get? "allow_writes")

/-- `_record`, with its list of steps. -/
def recordOf (current : TaskCheckpoint) : Except Failure (Fields × List Json) := do
  let records ← recordsOf current
  match records.get? id.executionId with
  | none => .error (.raised (.keyError id.executionId))
  | some (.obj record) =>
    match Fields.get? record "state" with
    | some (.arr steps) => do
      require (recordFits id record)
        (.replay "CodeMode recovery identity or metadata mismatch")
      .ok (record, steps)
    | _ => .error (.replay "CodeMode recovery identity or metadata mismatch")
  | some _ => .error (.replay "CodeMode recovery identity or metadata mismatch")

def newRecord (epochMs seed : Int) : Fields :=
  [("allow_writes", .bool id.allowWrites), ("effect_scope", .str id.effectScope),
    ("epoch_ms", .int epochMs), ("fingerprint", .str id.fingerprint), ("schema", .int 1),
    ("seed", .int seed), ("state", .arr [])]

/-- `initialize` in `__init__`. -/
def initializeRecord (epochMs seed : Int) (current : TaskCheckpoint) :
    Except Failure (Option Fields × Unit) := do
  let records ← recordsOf current
  if (records.get? id.executionId).isSome then do
    let _ ← recordOf id current
    .ok (none, ())
  else
    .ok (some [("codemode_replay", .obj (records.set id.executionId
      (.obj (newRecord id epochMs seed))))], ())

/-! ### State operations -/

inductive StateOp where
  | store (key : String) (value : Json)
  | load (key : String)
  deriving DecidableEq

def StateOp.key : StateOp → String
  | .store key _ => key
  | .load key => key

def StateOp.request : StateOp → Json
  | .store key value => .obj [("key", .str key), ("op", .str "store"), ("value", value)]
  | .load key => .obj [("key", .str key), ("op", .str "load")]

def StateOp.values (host : Host) (op : StateOp) (current : TaskCheckpoint) :
    Except Failure (Option Fields) :=
  match op with
  | .store key value => (prepareStore host current key value).map some
  | .load _ => .ok none

def StateOp.result (op : StateOp) (values : Fields) : Json :=
  match op with
  | .store _ _ => .null
  | .load key => (values.get? key).getD .null

def stepOf (host : Host) (op : StateOp) (revision : Nat) : Json :=
  .obj [("request", .str (host.digest op.request)), ("revision", .int revision)]

/-- `step[key]` -/
def stepMember (step : Json) (key : String) : Except Failure Json :=
  match step with
  | .obj members =>
    match Fields.get? members key with
    | some value => .ok value
    | none => .error (.raised (.keyError key))
  | _ => .error (.raised (.typeError "a step is not an object"))

/-- A step that the record has: a load is looked up in the checkpoint of its revision. -/
def replayStep (host : Host) (op : StateOp) (history : Except Error (List TaskTransition))
    (step : Json) : Except Failure Json := do
  let request ← stepMember step "request"
  require (request = .str (host.digest op.request))
    (.replay "CodeMode state operation changed during recovery")
  match op with
  | .store _ _ => .ok .null
  | .load key => do
    let history ← passing history
    let revision ← stepMember step "revision"
    match history.find? fun t => (Json.int t.task.revision).pyEq revision with
    | none => .error (.replay "CodeMode state history is missing")
    | some past => do
      let values ← valuesAt past.task
      .ok ((StateOp.load key).result values)

/-- A step that the record does not have yet: what it changes in the state of the task, and its
result. -/
def newStep (host : Host) (op : StateOp) (current : TaskCheckpoint) (record : Fields)
    (steps : List Json) : Except Failure (Fields × Json) := do
  let records ← recordsOf current
  let values ← valuesAt current
  let stored ← op.values host current
  let record := record.set "state" (.arr (steps ++ [stepOf host op (current.revision + 1)]))
  let patch := [("codemode_replay", Json.obj (records.set id.executionId (.obj record)))]
  .ok ((stored.map fun values => ("codemode_state", Json.obj values)).toList ++ patch,
    op.result values)

/-- `apply` in `_state_step`. -/
def stateStep (host : Host) (op : StateOp) (index : Nat)
    (history : Except Error (List TaskTransition)) (current : TaskCheckpoint) :
    Except Failure (Option Fields × Json) := do
  let (record, steps) ← recordOf id current
  match steps[index]? with
  | some step => do
    let result ← replayStep host op history step
    .ok (none, result)
  | none => do
    require (index = steps.length && steps.length < 256)
      (.replay "CodeMode state recovery sequence exceeds its budget")
    let (patch, result) ← newStep id host op current record steps
    .ok (some patch, result)

/-! ### Transactions -/

/-- The mutation of `update_task_state`. -/
def stateMutation (l : LoggedStore) (current : TaskCheckpoint) (patch : Fields) :
    Except Error DurableMutation := do
  let (_, revision) ← l.store.head current.conversationId
  let next ← TaskCheckpoint.make { current.toCheckpointData with
    revision := current.revision + 1, state := current.state.merge patch }
  DurableMutation.make {
    conversationId := current.conversationId, expectedRevision := revision, task := some next
    expectedAttemptToken := some current.state.attemptToken }

/-- `transform_task_state`: the result, and whether something was committed. -/
def transformTaskState {α : Type} (taskId : String)
    (transform : TaskCheckpoint → Except Failure (Option Fields × α)) (l : LoggedStore) :
    Except Failure (α × Bool × LoggedStore) := do
  let current ← passing (l.store.task taskId)
  let (patch, a) ← transform current
  match patch with
  | none => .ok (a, false, l)
  | some patch => do
    let m ← passing (stateMutation l current patch)
    let (_, l') ← passing (l.commit m)
    .ok (a, true, l')

/-! ### An execution -/

structure ChildCall where
  name : String
  args : Fields
  callId : String
  deriving DecidableEq

/-- The fields of a `DurableCodeModeReplay`. -/
structure Replay where
  epochMs : Json
  seed : Json
  stateIndex : Nat := 0
  childrenSeen : List String := []
  failure : String := ""
  deriving DecidableEq

def Failure.text (host : Host) : Failure → String
  | .replay message => message
  | .raised error => host.errorText error

def Replay.invalidate (r : Replay) (reason : String) : Replay :=
  if r.failure = "" then { r with failure := reason } else r

/-- `__init__` after the record is there. -/
def context (l : LoggedStore) : Except Failure Replay := do
  let current ← passing (l.store.task id.taskId)
  let (record, _) ← recordOf id current
  .ok { epochMs := (record.get? "epoch_ms").getD .null, seed := (record.get? "seed").getD .null }

/-- `_state_step` within `admission`. -/
def perform (host : Host) (r : Replay) (op : StateOp) (l : LoggedStore) :
    Except Failure (Json × Bool × LoggedStore) := do
  require (r.failure = "") (.replay r.failure)
  checkKey op.key
  transformTaskState id.taskId
    (stateStep id host op r.stateIndex (taskHistory id.taskId none l.commits)) l

/-- A receipt that tells how a call ended. -/
def hasReceipt (e : EffectRecord) : Bool :=
  e.settlement.isSome && (e.status = "ok" || e.status = "error")

def namesCall (call : ChildCall) (e : EffectRecord) : Bool :=
  e.intent.get? "parent_effect_id" = some (.str id.parentEffectId)
    && e.intent.get? "call_id" = some (.str call.callId)

/-- `child` within `admission`, after the effect was added to those that were seen. -/
def child (r : Replay) (call : ChildCall) (effectId : String) (l : LoggedStore) :
    Except Failure Unit := do
  require (r.failure = "") (.replay r.failure)
  match l.store.effects.get? effectId with
  | none => .ok ()
  | some e => do
    require (namesCall id call e) (.replay "CodeMode child identity changed during recovery")
    require (hasReceipt e)
      (.replay "CodeMode child receipt is missing or uncertain; refusing re-execution")

def childrenOf (l : LoggedStore) : List String :=
  ((l.store.effectsForTask id.taskId).filter fun e =>
    e.intent.get? "parent_effect_id" = some (.str id.parentEffectId)).map (·.effectId)

def assertValid (r : Replay) (l : LoggedStore) : Except Failure Unit := do
  require (r.failure = "") (.replay r.failure)
  let current ← passing (l.store.task id.taskId)
  let (_, steps) ← recordOf id current
  require (r.childrenSeen.all (· ∈ childrenOf id l) && (childrenOf id l).all (· ∈ r.childrenSeen)
      && r.stateIndex = steps.length)
    (.replay "CodeMode recovery did not consume its recorded control flow")

end Codemode

end Codey
