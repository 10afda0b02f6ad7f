import Codey.Lib.Table
import Codey.Durable.Mutation

/-!
# The private timeline

Each commit carries an envelope with the checkpoints and the effects that it changed. The past of a
task is read by replaying the envelopes that name it. Envelopes are JSON objects; what is written
here is read back here, so that a name is always a text.
-/

namespace Codey

structure TaskTransition where
  commitSeq : Nat
  task : TaskCheckpoint
  effectChanges : List EffectRecord
  headEntryId : Option String

structure TaskSnapshot where
  commitSeq : Nat
  task : TaskCheckpoint
  effects : List EffectRecord
  headEntryId : Option String

/-! ### Names -/

def Phase.ofName? (name : String) : Option Phase :=
  [.accepted, .dispatching, .running, .completionPending, .completed, .failed, .cancelled].find?
    fun p => Phase.name p = name

@[simp] lemma Phase.ofName?_name (p : Phase) : ofName? p.name = some p := by
  cases p <;> rfl

def TaskStatus.ofName? (name : String) : Option TaskStatus :=
  [.pending, .running, .waiting, .completing, .completed, .failed, .cancelled].find?
    fun s => TaskStatus.name s = name

@[simp] lemma TaskStatus.ofName?_name (s : TaskStatus) : ofName? s.name = some s := by
  cases s <;> rfl

/-! ### Members of an envelope -/

namespace Fields

/-- `raw[key]`. -/
def member (raw : Fields) (key : String) : Except Error Json :=
  match raw.get? key with
  | some value => .ok value
  | none => .error (.keyError key)

def text (raw : Fields) (key : String) : Except Error String := do
  match ← raw.member key with
  | .str s => pure s
  | _ => .error (.typeError (key ++ " is not a text"))

/-- A text or `None` under a key. -/
def textOrNone (raw : Fields) (key : String) : Except Error (Option String) := do
  match ← raw.member key with
  | .null => pure none
  | .str s => pure (some s)
  | _ => .error (.typeError (key ++ " is not a text"))

def object (raw : Fields) (key : String) : Except Error Fields := do
  match ← raw.member key with
  | .obj members => pure members
  | _ => .error (.typeError (key ++ " is not an object"))

end Fields

/-- `None` or a text. -/
def Json.ofText (value : Option String) : Json := (value.map Json.str).getD .null

@[simp] lemma textOrNone_ofText {raw : Fields} {key : String} (value : Option String)
    (h : raw.get? key = some (Json.ofText value)) : raw.textOrNone key = .ok value := by
  unfold Fields.textOrNone Fields.member
  rw [h]
  cases value <;> rfl

/-! ### Checkpoints -/

def taskCheckpointSchemaVersion : Int := 2

def v1ExecutionPhases : List String :=
  ["provider_prepared", "assistant_intent_committed", "assistant_response_pending",
    "assistant_response_unknown", "tool_intent_committed", "tool_effect_running",
    "tool_outcome_ready", "effect_unknown", "verification_pending"]

/-- Versioned format migration; operation and effects retain execution facts. -/
def migrateCheckpointPhase (phase : String) (schemaVersion : Json) : Except Error Phase := do
  require (schemaVersion = .int 1 || schemaVersion = .int taskCheckpointSchemaVersion)
    (.valueError "unsupported task checkpoint schema")
  if schemaVersion = .int 1 && v1ExecutionPhases.contains phase then pure .running
  else match Phase.ofName? phase with
    | some phase => pure phase
    | none => .error (.valueError ("unknown task phase: " ++ phase))

def checkpointPayload (t : TaskCheckpoint) : Fields :=
  [("task_id", .str t.taskId), ("conversation_id", .str t.conversationId),
    ("submission_id", .str t.submissionId), ("phase", .str t.phase.name),
    ("revision", .int t.revision), ("provider_snapshot", .obj t.providerSnapshot),
    ("state", .obj t.state), ("current_turn_id", .ofText t.currentTurnId),
    ("pending_effect_id", .ofText t.pendingEffectId), ("status", .str t.status.name),
    ("schema_version", .int taskCheckpointSchemaVersion)]

def checkpointFromPayload (raw : Fields) : Except Error TaskCheckpoint := do
  let phaseName ← raw.text "phase"
  let version ← raw.member "schema_version"
  let phase ← migrateCheckpointPhase phaseName version
  let taskId ← raw.text "task_id"
  let conversationId ← raw.text "conversation_id"
  let submissionId ← raw.text "submission_id"
  let revision ← match ← raw.member "revision" with
    | .int (.ofNat n) => pure n
    | _ => .error (.valueError "task revision must be a non-negative integer")
  let providerSnapshot ← raw.object "provider_snapshot"
  let state ← raw.object "state"
  let currentTurnId ← raw.textOrNone "current_turn_id"
  let pendingEffectId ← raw.textOrNone "pending_effect_id"
  let statusName ← raw.text "status"
  let status ← match TaskStatus.ofName? statusName with
    | some status => pure status
    | none => .error (.valueError ("unknown task status: " ++ statusName))
  TaskCheckpoint.make {
    taskId, conversationId, submissionId, phase, revision, providerSnapshot, state, currentTurnId
    pendingEffectId, status }

/-- A checkpoint is read back from its payload. -/
lemma checkpointFromPayload_checkpointPayload (t : TaskCheckpoint) :
    checkpointFromPayload (checkpointPayload t) = .ok t := by
  have hphase : migrateCheckpointPhase t.phase.name (.int taskCheckpointSchemaVersion) =
      .ok t.phase := by
    simp [migrateCheckpointPhase, taskCheckpointSchemaVersion, bind, Except.bind, pure, Except.pure]
  have hturn : (checkpointPayload t).textOrNone "current_turn_id" = .ok t.currentTurnId :=
    textOrNone_ofText _ rfl
  have hpending : (checkpointPayload t).textOrNone "pending_effect_id" = .ok t.pendingEffectId :=
    textOrNone_ofText _ rfl
  have hmake : TaskCheckpoint.make t.toCheckpointData = .ok t := TaskCheckpoint.make_eq_ok.mpr rfl
  unfold checkpointFromPayload
  rw [hturn, hpending]
  simp [checkpointPayload, Fields.text, Fields.member, Fields.object, bind, Except.bind, pure,
    Except.pure, hphase, hmake]

/-! ### Effects -/

def effectPayload (e : EffectRecord) : Fields :=
  [("effect_id", .str e.effectId), ("task_id", .str e.taskId), ("category", .str e.category),
    ("replay_class", .str e.replayClass), ("args_digest", .str e.argsDigest),
    ("status", .str e.status), ("intent", .obj e.intent),
    ("settlement", (e.settlement.map Json.obj).getD .null)]

def effectFromPayload (raw : Fields) : Except Error EffectRecord := do
  let effectId ← raw.text "effect_id"
  let taskId ← raw.text "task_id"
  let category ← raw.text "category"
  let replayClass ← raw.text "replay_class"
  let argsDigest ← raw.text "args_digest"
  let status ← raw.text "status"
  let intent ← raw.object "intent"
  let settlement ← match ← raw.member "settlement" with
    | .null => pure none
    | .obj members => pure (some members)
    | _ => .error (.typeError "settlement is not an object")
  EffectRecord.make {
    effectId, taskId, category, replayClass, argsDigest, status, intent, settlement }

lemma effectFromPayload_effectPayload (e : EffectRecord) :
    effectFromPayload (effectPayload e) = .ok e := by
  unfold effectFromPayload
  cases hsettlement : e.settlement <;>
    simp only [effectPayload, Fields.text, Fields.member, Fields.object, Fields.get?_cons, bind,
      Except.bind, pure, Except.pure, hsettlement, Option.map_none, Option.map_some,
      Option.getD_none, Option.getD_some, EffectRecord.make_eq_ok, String.reduceEq, if_true,
      if_false] <;>
    rw [← hsettlement]

/-! ### Envelopes -/

def executionPayload (m : MutationData) (head : Option String) : Fields :=
  match m.allTasks with
  | [] => []
  | t :: ts =>
    [("schema_version", .int 1), ("task", .obj (checkpointPayload t)),
      ("tasks", .arr ((t :: ts).map fun t => .obj (checkpointPayload t))),
      ("head_entry_id", .ofText head),
      ("effects", .arr (m.allEffects.map fun e => .obj (effectPayload e)))]

def ofTask (taskId : String) (item : Json) : Option Fields :=
  match item with
  | .obj members =>
    if Fields.get? members "task_id" = some (.str taskId) then some members else none
  | _ => none

/-- The effects of an envelope, of one task when one is named. -/
def effectsFromPayload (taskId : Option String) : List Json → Except Error (List EffectRecord)
  | [] => .ok []
  | item :: items => do
    let raw : Fields ← match item with
      | .obj members => pure members
      | _ => .error (.typeError "effect is not an object")
    if taskId.all fun id => raw.get? "task_id" = some (.str id) then do
      let effect ← effectFromPayload raw
      let effects ← effectsFromPayload taskId items
      pure (effect :: effects)
    else effectsFromPayload taskId items

def transitionFromPayload (sequence : Nat) (raw : Fields) (taskId : Option String) :
    Except Error TaskTransition := do
  require ((raw.get? "schema_version").any fun v => v.pyEq (.int 1))
    (.valueError "unsupported workflow timeline schema")
  let effects ← match ← raw.member "effects" with
    | .arr items => pure items
    | _ => .error (.typeError "effects is not a list")
  let rawTask ← match taskId, raw.get? "tasks" with
    | some id, some (.arr rows) => match rows.findSome? (ofTask id) with
      | some selected => pure selected
      | none => .error (.keyError ("task " ++ id ++ " is not present in timeline commit"))
    | _, _ => raw.object "task"
  let task ← checkpointFromPayload rawTask
  let effectChanges ← effectsFromPayload taskId effects
  let headEntryId ← raw.textOrNone "head_entry_id"
  pure ⟨sequence, task, effectChanges, headEntryId⟩

/-- Whether an envelope names a task, in the list of its checkpoints or in the single one of the
original format. -/
def namesTask (raw : Fields) (taskId : String) : Bool :=
  (match raw.get? "tasks" with
    | some (.arr rows) => rows.any fun item => (ofTask taskId item).isSome
    | _ => false)
    || ((raw.get? "task").bind (ofTask taskId)).isSome

/-! ### Replay -/

/-- `task_history`, from the envelopes of the commits in their order. -/
def taskHistory (taskId : String) (through : Option Nat) :
    List (Nat × Option Fields) → Except Error (List TaskTransition)
  | [] => .ok []
  | (sequence, envelope) :: commits =>
    match envelope.filter fun raw => through.all (sequence ≤ ·) && namesTask raw taskId with
    | some raw => do
      let transition ← transitionFromPayload sequence raw (some taskId)
      let history ← taskHistory taskId through commits
      pure (transition :: history)
    | none => taskHistory taskId through commits

abbrev EffectDict := Table fun e : EffectRecord => e.effectId

/-- The effects after some transitions: a later record of an effect replaces an earlier one. -/
def replayedEffects (transitions : List TaskTransition) : EffectDict :=
  (transitions.flatMap (·.effectChanges)).foldl Table.put Table.empty

def snapshotAt (transitions : List TaskTransition) : Except Error TaskSnapshot :=
  match transitions.getLast? with
  | none => .error (.keyError "task has no checkpoint at this commit")
  | some latest =>
    .ok ⟨latest.commitSeq, latest.task, (replayedEffects transitions).rows, latest.headEntryId⟩

/-! ### What an envelope says of a task -/

def recorded (m : MutationData) (taskId : String) (sequence : Nat) (head : Option String) :
    Option TaskTransition :=
  (m.allTasks.find? (·.taskId = taskId)).map fun t =>
    ⟨sequence, t, m.allEffects.filter (·.taskId = taskId), head⟩

lemma ofTask_checkpointPayload (t : TaskCheckpoint) (taskId : String) :
    ofTask taskId (.obj (checkpointPayload t)) =
      if t.taskId = taskId then some (checkpointPayload t) else none := by
  simp [ofTask, checkpointPayload]

lemma findSome?_checkpointPayload (ts : List TaskCheckpoint) (taskId : String) :
    (ts.map fun t => Json.obj (checkpointPayload t)).findSome? (ofTask taskId) =
      (ts.find? (·.taskId = taskId)).map checkpointPayload := by
  induction ts with
  | nil => rfl
  | cons t ts ih =>
    rw [List.map_cons, List.findSome?_cons, ofTask_checkpointPayload, List.find?_cons]
    by_cases h : t.taskId = taskId
    · simp [h]
    · simp [h, ih]

lemma effectsFromPayload_effectPayload (es : List EffectRecord) (taskId : String) :
    effectsFromPayload (some taskId) (es.map fun e => .obj (effectPayload e)) =
      .ok (es.filter (·.taskId = taskId)) := by
  induction es with
  | nil => rfl
  | cons e es ih =>
    have hname : (effectPayload e).get? "task_id" = some (.str e.taskId) := rfl
    rw [List.map_cons, effectsFromPayload]
    by_cases h : e.taskId = taskId
    · simp [hname, h, ih, effectFromPayload_effectPayload, bind, Except.bind, pure, Except.pure]
    · simp [hname, h, ih, bind, Except.bind, pure, Except.pure]

/-- An envelope names the tasks whose checkpoints its mutation writes. -/
lemma namesTask_executionPayload (m : MutationData) (head : Option String) (taskId : String) :
    namesTask (executionPayload m head) taskId = m.allTasks.any (·.taskId = taskId) := by
  unfold executionPayload
  cases hts : m.allTasks with
  | nil => rfl
  | cons t ts =>
    have hfirst : (ofTask taskId (.obj (checkpointPayload t))).isSome =
      decide (t.taskId = taskId) := by
      rw [ofTask_checkpointPayload]
      by_cases h : t.taskId = taskId <;> simp [h]
    have hall : ((t :: ts).map fun t => Json.obj (checkpointPayload t)).any
        (fun item => (ofTask taskId item).isSome) = (t :: ts).any (·.taskId = taskId) := by
      rw [List.any_map]
      congr 1
      funext u
      rw [Function.comp_apply, ofTask_checkpointPayload]
      by_cases h : u.taskId = taskId <;> simp [h]
    simp only [namesTask, Fields.get?_cons, String.reduceEq, if_false, if_true, hall,
      Option.bind_some, hfirst, List.any_cons]
    by_cases h : t.taskId = taskId <;> simp [h]

/-- An envelope is read back as what its mutation records. -/
lemma transitionFromPayload_executionPayload {m : MutationData} {taskId : String} {sequence : Nat}
    {head : Option String} {transition : TaskTransition}
    (h : recorded m taskId sequence head = some transition) :
    transitionFromPayload sequence (executionPayload m head) (some taskId) = .ok transition := by
  obtain ⟨t, ht, rfl⟩ := Option.map_eq_some_iff.mp h
  unfold executionPayload
  cases hts : m.allTasks with
  | nil => simp [hts] at ht
  | cons u us =>
    rw [hts] at ht
    have hselected : ((u :: us).map fun t => Json.obj (checkpointPayload t)).findSome?
        (ofTask taskId) = some (checkpointPayload t) := by
      rw [findSome?_checkpointPayload, ht]
      rfl
    unfold transitionFromPayload
    simp only [Fields.get?_cons, Fields.member, String.reduceEq, if_false, if_true, Option.any_some,
      Json.pyEq_refl, require_true, bind, Except.bind, pure, Except.pure, hselected,
      checkpointFromPayload_checkpointPayload, effectsFromPayload_effectPayload]
    rw [textOrNone_ofText head (by simp)]

end Codey
