import Codey.Control.Records

/-!
# The control service

The commands of external actors and operators, the takeover by the user, the budget poll and the
check before a dispatch. Each of them holds the control line from its first read to its last
commit; what it finds outside the durable state is given by an `Env`.
-/

namespace Codey

namespace Control

/-- A session of the browser, with the path of its project. -/
structure UiSession where
  id : String
  title : String
  provider : String
  project : String
  modelSelection : Json

structure Question where
  id : String
  runId : String
  audience : String
  deriving DecidableEq

structure Candidate where
  terminal : Bool
  cleanupPending : Bool
  digest : String
  deriving DecidableEq

/-- What a command finds outside the durable state: the clock, the file system, the browser state,
the provider settings, the runs in progress, and what the durable line makes of a cancellation. -/
structure Env (φ : Type) where
  now : Rat
  draining : Bool
  sessions : List UiSession
  runId : String
  active : Option String
  workspace : String → String
  resolve : String → String
  authorized : String → Bool
  isDirectory : String → Bool
  selection : Except Failure Unit
  admission : Task φ → Json
  question : String → Option Question
  answer : Except Failure Json
  candidate : Except Failure Candidate
  settled : Task φ → TaskStatus
  query : Except Failure Json

/-- The fingerprints, the texts they are written as, and the length of an encoded command. -/
structure Host (φ ψ : Type) extends Hashes φ ψ where
  hex : φ → String
  frameBytes : Fields → Nat

def see {φ α : Type} (f : World φ → α) : Op φ α := Prog.readE fun w => .ok (f w)

def defaultProvider : String := "deepseek"

/-- The model connections, `PROVIDER_LABELS`. -/
def providerLabels : List String :=
  ["deepseek", "mimo", "stepfun", "qwen", "glm", "local", "zen", "cline"]

def seconds (args : Fields) : Except Failure Int := do
  let value := intArg args "max_seconds" 1800
  require (1 ≤ value && value ≤ 86400) (invalid "max_seconds must be between 1 and 86400")
  pure value

def revisions (args : Fields) : Except Failure Int := do
  let value := intArg args "max_revisions" 3
  require (0 ≤ value && value ≤ 20) (invalid "max_revisions must be between 0 and 20")
  pure value

/-- The command comes under the current generation, from its controller or an operator. -/
def guard (actor : Actor) (config : Config) (args : Fields) : Except Failure Unit := do
  require (intArg args "control_generation" = config.controlGeneration)
    (.control "STALE_CONTROL" "Control ownership changed"
      (.obj [("control_generation", .int config.controlGeneration)]))
  require (actor.operator ||
      (config.mode = .delegated && config.controllerActorId = actor.actorId))
    (.control "FORBIDDEN" "This conversation is not delegated to this caller")

variable {φ ψ : Type} [DecidableEq φ] [DecidableEq ψ]

def configFor (actor : Actor) (conversationId : String) : Op φ Config :=
  Prog.readE fun w => match w.latest conversationId with
    | none => .error (.control "NOT_FOUND" "Conversation not found")
    | some config =>
      if actor.operator || actor.actorId = config.createdBy ||
          actor.actorId = config.controllerActorId then .ok config
      else .error (.control "FORBIDDEN" "Conversation is outside this control identity")

def taskFor (conversationId runId : String) : Op φ (Task φ) :=
  Prog.readE fun w => match w.task? runId with
    | none => .error (.control "NOT_FOUND" "Run not found")
    | some task =>
      if task.conversationId = conversationId then .ok task
      else .error (.control "NOT_FOUND" "Run not found in this conversation")

section Cancel

variable (env : Env φ)

def Task.cancel (t : Task φ) : Task φ :=
  if t.status.terminal || t.cancelRequested then t
  else { t with cancelRequested := true, status := env.settled t }

/-- `request_cancel`. Its descent to the tasks that this one owns is a matter of the durable
line. -/
def requestCancel (taskId : String) : Op φ Unit :=
  .step (fun w => { w with
      tasks := w.tasks.map fun t => if t.taskId = taskId then t.cancel env else t })
    fun _ => .ret ()

def cancel (t : Task φ) : Op φ Unit :=
  if t.status.terminal then pure () else requestCancel env t.taskId

def Task.ownedBefore (t : Task φ) (conversationId : String) (generation : Int) : Bool :=
  t.conversationId = conversationId && t.sent.any fun sent => (sent.generation : Int) < generation

def cancelOwned (conversationId : String) (generation : Int) : Op φ Unit := do
  let tasks ← see (·.tasks)
  Prog.forEach tasks fun t =>
    if t.ownedBefore conversationId generation then cancel env t else pure ()

end Cancel

/-- The conversation and the generation of a configuration that was returned. -/
def owner : Json → Except Failure (String × Int)
  | .obj members => match Fields.get? members "conversation_id",
      Fields.get? members "control_generation" with
    | some (.str conversationId), some (.int generation) => .ok (conversationId, generation)
    | _, _ => .error (.durable (.keyError "conversation_id"))
  | _ => .error (.durable (.typeError "a configuration is an object"))

namespace Host

variable (h : Host φ ψ) (env : Env φ)

def conversationId (actorId requestId : String) : String :=
  "control_" ++ String.ofList
    ((h.hex (h.fingerprint (.arr [.str actorId, .str requestId]))).toList.take 24)

def inputIdentity (conversationId requestId : String) : String :=
  "control_" ++ String.ofList
    ((h.hex (h.fingerprint (.arr [.str conversationId, .str requestId]))).toList.take 40)

/-! ### The commands -/

def create (actor : Actor) (args : Fields) : Except Failure Config := do
  let conversationId := textArg args "conversation_id"
  let raw := textArg args "project"
  let project := if raw = "" then env.workspace conversationId else env.resolve raw
  require (actor.operator || raw = "" || env.authorized project)
    (.control "FORBIDDEN" "Project is outside the service's authorized roots")
  require (env.isDirectory project) (invalid "Project directory does not exist")
  let provider := textArg args "provider" defaultProvider
  require (providerLabels.contains provider) (invalid "Unknown model connection")
  let maxSeconds ← seconds args
  let maxRevisions ← revisions args
  pure {
    conversationId := conversationId
    title := String.ofList ((textArg args "title" "Codex · Codey").toList.take 160)
    project := project
    provider := provider
    modelSelection := (args.get? "model_selection").getD (.obj [])
    createdBy := actor.actorId
    createdAt := env.now
    mode := .delegated
    controllerActorId := "codex"
    controlGeneration := 1
    rootRequestId := ""
    expiresAt := env.now + maxSeconds
    maxSeconds := maxSeconds
    maxRevisions := maxRevisions }

/-- The configuration that `grant_control` leaves. -/
def granted (config : Config) (args : Fields) : Except Failure Config := do
  let maxSeconds ← seconds args
  let maxRevisions ← revisions args
  pure { config with
    mode := .delegated
    controllerActorId := "codex"
    controlGeneration := config.controlGeneration + 1
    expiresAt := env.now + maxSeconds
    rootRequestId := ""
    maxRevisions := maxRevisions }

def revoked (config : Config) (mode : Mode) : Config :=
  { config with mode := mode, controlGeneration := config.controlGeneration + 1 }

/-- What a message is refused for, once its sender and its generation are right. -/
def validateMessage (actor : Actor) (args : Fields) (config : Config) (w : World φ) :
    Except Failure Unit := do
  require (!env.draining)
    (.control "SERVER_DRAINING" "Service is draining; no new input was admitted")
  require (actor.operator || env.now < config.expiresAt)
    (.control "BUDGET_EXHAUSTED" "Delegation time budget exhausted")
  let tasks := w.tasks.filter fun t => t.conversationId = textArg args "conversation_id" &&
    t.sent.any (·.generation = config.controlGeneration)
  require (actor.operator || tasks.length < 1 + config.maxRevisions)
    (.control "BUDGET_EXHAUSTED" "Delegation revision budget exhausted")
  let mode := textArg args "mode" "follow_up"
  require ((mode = "follow_up" || mode = "steer") && !(textArg args "text").toList.all blank)
    (invalid "Invalid input mode or empty task")
  require (mode ≠ "steer" || (env.active.isSome &&
      env.active = (args.get? "expected_run_id").bind Json.str?))
    (.control "RUN_MISMATCH" "The expected active run is no longer current")

/-- The run that a message steers may still be steered. -/
def checkTarget (args : Fields) : Op φ Unit :=
  if textArg args "mode" "follow_up" = "steer" then do
    let target ← taskFor (textArg args "conversation_id") (env.active.getD "")
    Prog.ofExcept (require (!target.status.terminal && !target.cancelRequested)
      (.control "RUN_MISMATCH" "The target run is already settling"))
  else pure ()

def checkReply (args : Fields) : Op φ Unit :=
  if textArg args "in_reply_to_run_id" = "" then pure ()
  else do
    let _ ← taskFor (textArg args "conversation_id") (textArg args "in_reply_to_run_id")
    pure ()

/-- The task that a message becomes. -/
def sentTask (actor : Actor) (args : Fields) (config : Config) : Task φ where
  taskId := env.runId
  conversationId := textArg args "conversation_id"
  inputIdentity := some
    (h.inputIdentity (textArg args "conversation_id") (textArg args "request_id"))
  sent := some {
    actor := actor
    generation := config.controlGeneration
    fingerprint := h.fingerprint (.obj [("actor", .str actor.actorId), ("params", .obj args)]) }
  status := .pending
  cancelRequested := false

def send (actor : Actor) (args : Fields) (config : Config) : Op φ Json := do
  let task := h.sentTask env actor args config
  let existing ← see (·.input? (task.inputIdentity.getD ""))
  match existing with
  | some existing =>
    Prog.ofExcept (require
      (existing.sent.map (·.fingerprint) = task.sent.map (·.fingerprint))
      (.control "REQUEST_CONFLICT" "This input ID already names different content"))
    pure (env.admission existing)
  | none => do
    Prog.ofExcept (guard actor config args)
    Prog.readE (validateMessage env actor args config)
    checkTarget env args
    checkReply args
    Prog.step (·.admitTask task) fun _ => pure (env.admission task)

/-- What `send_message` asks of its caller and of the providers before it takes the control
line. -/
def prepareMessage (actor : Actor) (args : Fields) : Op φ Unit := do
  let old ← h.receipt (textArg args "conversation_id") actor.actorId "send_message" args
  let existing ← see (·.input?
    (h.inputIdentity (textArg args "conversation_id") (textArg args "request_id")))
  if old.isSome || existing.isSome then pure ()
  else do
    let config ← configFor actor (textArg args "conversation_id")
    Prog.ofExcept (guard actor config args)
    Prog.ofExcept (require (!env.draining)
      (.control "SERVER_DRAINING" "Service is draining; no new input was admitted"))
    Prog.ofExcept env.selection

/-- The answer to a question, which also lets its suspended run go on. -/
def answerQuestion (actor : Actor) (args : Fields) : Op φ Json := do
  let task ← taskFor (textArg args "conversation_id") (textArg args "run_id")
  match env.question (textArg args "question_id") with
  | none => Prog.throw (.control "NOT_FOUND" "Question does not belong to this run")
  | some item => do
    Prog.ofExcept (require (item.runId = textArg args "run_id")
      (.control "NOT_FOUND" "Question does not belong to this run"))
    Prog.ofExcept (require (item.audience ≠ "user" || actor.operator)
      (.control "FORBIDDEN" "This question needs the user's decision"))
    let updated ← Prog.ofExcept env.answer
    let answer : Answer := {
      questionId := item.id, revision := intArg args "revision", answer := textArg args "answer" }
    Prog.step (fun w => if answer ∈ w.answers then w else { w with
        answers := w.answers ++ [answer]
        tasks := w.tasks.map fun t => if t.taskId = task.taskId && t.status = .waiting
          then { t with status := .pending } else t })
      fun _ => pure updated

def listArg (args : Fields) (key : String) : List Json :=
  match args.get? key with
  | some (.arr items) => items
  | _ => []

def reviewData (actor : Actor) (args : Fields) : Json := .obj (
  [("actor_id", Json.str actor.actorId)] ++ args.restrict ["candidate_digest", "passed", "run_id"]
    ++ [("source", .str actor.name)] ++ args.restrict ["summary"]
    ++ [("verification", .arr ((listArg args "verification").take 20))])

/-- `admit_write` of a review, under the request id `review:` and the request id of the command. -/
def recordReview (r : Review) : Op φ Unit :=
  .step (fun w =>
      if w.reviews.any fun old => old.conversationId = r.conversationId && old.requestId = r.requestId
      then w else { w with reviews := w.reviews ++ [r] })
    fun w =>
      if w.reviews.all fun old => !(old.conversationId = r.conversationId &&
          old.requestId = r.requestId) || old.data = r.data
      then .ret ()
      else .throw (.durable (.idempotencyConflict
        "request_id was already admitted with different durable result content"))

def review (actor : Actor) (args : Fields) : Op φ Json := do
  let _ ← taskFor (textArg args "conversation_id") (textArg args "run_id")
  let candidate ← Prog.ofExcept env.candidate
  Prog.ofExcept (require (candidate.terminal && !candidate.cleanupPending &&
      candidate.digest = textArg args "candidate_digest")
    (.control "REVISION_CONFLICT" "Review does not name the current settled candidate"))
  recordReview {
    conversationId := textArg args "conversation_id"
    requestId := textArg args "request_id"
    data := reviewData actor args }
  pure (reviewData actor args)

/-- `_mutate`: the result of a command, with the configuration that is still to be recorded. -/
def mutate (actor : Actor) (name : String) (args : Fields) : Op φ (Json × Option Config) :=
  if name = "create_conversation" then do
    let config ← Prog.ofExcept (create env actor args)
    pure (config.toJson, some config)
  else do
    let config ← configFor actor (textArg args "conversation_id")
    if name = "send_message" then do
      let result ← h.send env actor args config
      pure (result, none)
    else do
      Prog.ofExcept (guard actor config args)
      if name = "grant_control" then do
        let config ← Prog.ofExcept (granted env config args)
        pure (config.toJson, some config)
      else if name = "pause_control" then do
        let config := revoked config .paused
        -- the barrier of the new generation precedes the cancellations
        h.write (textArg args "conversation_id") actor.actorId name args config.toJson (some config)
        cancelOwned env config.conversationId config.controlGeneration
        pure (config.toJson, none)
      else if name = "stop_run" then do
        let task ← taskFor (textArg args "conversation_id") (textArg args "run_id")
        cancel env task
        pure (.obj [("cancel_requested", .bool true), ("run_id", .str (textArg args "run_id"))],
          none)
      else if name = "answer_question" then do
        let result ← answerQuestion env actor args
        pure (result, none)
      else if name = "record_review" then do
        let result ← review env actor args
        pure (result, none)
      else Prog.throw (invalid "Unsupported mutation")

/-- The answer to a command is recorded, unless the command has recorded it itself. -/
def conclude (actor : Actor) (name : String) (args : Fields) (done : Json × Option Config) :
    Op φ Unit :=
  if name = "pause_control" then pure ()
  else h.write (textArg args "conversation_id") actor.actorId name args done.1 done.2

/-- The part of `execute` that holds the control line. -/
def line (actor : Actor) (name : String) (readonly : Bool) (args : Fields) : Op φ Json :=
  if readonly then do
    let _ ← configFor actor (textArg args "conversation_id")
    Prog.ofExcept env.query
  else do
    let old ← h.receipt (textArg args "conversation_id") actor.actorId name args
    match old with
    | some old =>
      if name ≠ "pause_control" then pure old
      else do
        let of ← Prog.ofExcept (owner old)
        cancelOwned env of.1 of.2
        pure old
    | none => do
      let done ← h.mutate env actor name args
      h.conclude actor name args done
      pure done.1

/-- The checks of `execute` before it reads any state. -/
def accepted (actor : Actor) (name : String) (params : Json) : Except Failure (Bool × Fields) := do
  let args ← validateCommand h.frameBytes name params
  let command ← declared name
  require (!command.operator || actor.operator)
    (.control "FORBIDDEN" "This operation requires an explicit user capability")
  if name = "create_conversation" then
    pure (command.readonly, args.set "conversation_id"
      (.str (h.conversationId actor.actorId (textArg args "request_id"))))
  else pure (command.readonly, args)

def elsewhere (name : String) : Bool :=
  ["prepare_release", "activate_release", "get_upgrade", "get_health", "list_conversations",
    "wait_run"].contains name

def prepare (actor : Actor) (name : String) (args : Fields) : Op φ Unit :=
  if name = "send_message" then h.prepareMessage env actor args else pure ()

/-- Execute a command. -/
def execute (actor : Actor) (name : String) (params : Json) : Op φ Json := do
  let command ← Prog.ofExcept (h.accepted actor name params)
  if elsewhere name then Prog.ofExcept env.query
  else do
    h.prepare env actor name command.2
    h.line env actor name command.1 command.2

/-! ### The user, the clock and the dispatcher -/

/-- The configuration under which a session of the browser is adopted. -/
def importedConfig (item : UiSession) : Config where
  conversationId := item.id
  title := if item.title = "" then "Chat" else item.title
  provider := item.provider
  project := item.project
  modelSelection := item.modelSelection
  createdAt := env.now
  mode := .manual
  controllerActorId := ""
  createdBy := "user"
  controlGeneration := 0
  expiresAt := 0
  maxRevisions := 3
  rootRequestId := ""
  maxSeconds := 1800

/-- Adopt one session of the browser. -/
def importSession (item : UiSession) : Op φ Unit :=
  if item.provider = "" then pure ()
  else do
    let config ← see (·.latest item.id)
    if config.isSome then pure ()
    else
      h.write item.id "user" "import_ui" [("request_id", .str "import-ui")]
        (.obj [("conversation_id", .str item.id)]) (some (importedConfig env item))

def importUi : Op φ Unit := Prog.forEach env.sessions (h.importSession env)

def takeoverId (generation : Nat) : String := "takeover_" ++ toString generation

/-- The request id of the poll under a generation. -/
def budgetId (generation : Nat) : String := "budget_" ++ toString generation

def takenMode (paused : Bool) : Mode := if paused then .paused else .manual

/-- `takeover_ui`, once the sessions of the browser are imported. -/
def takeover (conversationId : String) (paused : Bool) : Op φ Unit := do
  let config ← see (·.latest conversationId)
  match config with
  | none => pure ()
  | some config =>
    if config.mode ≠ .delegated then pure ()
    else do
      let config := revoked config (takenMode paused)
      h.write conversationId "user" "takeover"
        [("request_id", .str (takeoverId config.controlGeneration))] config.toJson (some config)
      cancelOwned env config.conversationId config.controlGeneration

/-- A real action of the user revokes automation before human input is admitted. -/
def takeoverUi (conversationId : String) (paused : Bool) : Op φ Unit := do
  h.importUi env
  h.takeover env conversationId paused

/-- The command by which the poll revokes an expired delegation. -/
def budgetParams (config : Config) : Json := .obj [
  ("control_generation", .int config.controlGeneration),
  ("conversation_id", .str config.conversationId),
  ("request_id", .str (budgetId config.controlGeneration))]

/-- One turn of the poll. An error for the caller is swallowed. -/
def pollOne (config : Config) : Op φ Unit :=
  if config.mode = .delegated && config.expiresAt ≤ env.now then
    ((h.execute env .user "pause_control" (budgetParams config)).bind fun _ => pure ()).handle
      fun e => if e.isControl then pure () else Prog.throw e
  else pure ()

/-- `poll`. `due` says that the last check was at least a second ago. -/
def poll (due : Bool) : Op φ Unit :=
  if !due || env.draining then pure ()
  else do
    let configs ← see (·.configurations)
    Prog.forEach configs (h.pollOne env)

end Host

/-- Whether a task may be dispatched. One whose delegation was revoked or has expired is
cancelled. -/
def permitsDispatch (env : Env φ) (task : Task φ) : Op φ Bool :=
  if env.draining then pure false
  else match task.sent with
    | none => pure true
    | some sent => do
      let config ← see (·.latest task.conversationId)
      if config.any fun config => config.mode = .delegated &&
          config.controlGeneration = sent.generation && env.now < config.expiresAt then pure true
      else do
        requestCancel env task.taskId
        pure false

end Control

end Codey
