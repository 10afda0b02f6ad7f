import Codey.Control.Protocol
import Codey.Lib.Prog
import Mathlib.Data.List.Dedup
import Mathlib.Data.List.Sort
import Mathlib.Data.Rat.Defs

/-!
# Control records

The passive entries in which a conversation keeps who controls it and which commands it has
answered, next to the tasks that the commands bring into being and stop.
-/

namespace Codey

namespace Control

/-- Who may act on a conversation. -/
inductive Mode where
  | delegated
  | paused
  | manual
  deriving DecidableEq

def Mode.name : Mode → String
  | .delegated => "delegated"
  | .paused => "paused"
  | .manual => "manual"

/-- The configuration of a conversation. -/
structure Config where
  conversationId : String
  title : String
  project : String
  provider : String
  modelSelection : Json
  createdBy : String
  createdAt : Rat
  mode : Mode
  controllerActorId : String
  controlGeneration : Nat
  rootRequestId : String
  expiresAt : Rat
  maxSeconds : Int
  maxRevisions : Int
  deriving DecidableEq

/-- The configuration as a command returns it. -/
def Config.toJson (c : Config) : Json := .obj [
  ("control_generation", .int c.controlGeneration),
  ("controller_actor_id", .str c.controllerActorId),
  ("conversation_id", .str c.conversationId),
  ("created_at", .float c.createdAt),
  ("created_by", .str c.createdBy),
  ("expires_at", .float c.expiresAt),
  ("max_revisions", .int c.maxRevisions),
  ("max_seconds", .int c.maxSeconds),
  ("mode", .str c.mode.name),
  ("model_selection", c.modelSelection),
  ("project", .str c.project),
  ("provider", .str c.provider),
  ("root_request_id", .str c.rootRequestId),
  ("title", .str c.title)]

/-- A control entry: the answer to a command, with the configuration if the command changed it.
`φ` is the type of fingerprints. -/
structure Record (φ : Type) where
  conversationId : String
  requestId : String
  fingerprint : φ
  result : Json
  config : Option Config
  deriving DecidableEq

/-- What the task of an input that a command sent says of it. -/
structure Sent (φ : Type) where
  actor : Actor
  generation : Nat
  fingerprint : φ

/-- A durable task, as far as the control service reads it. -/
structure Task (φ : Type) where
  taskId : String
  conversationId : String
  inputIdentity : Option String
  sent : Option (Sent φ)
  status : TaskStatus
  cancelRequested : Bool

structure Review where
  conversationId : String
  requestId : String
  data : Json
  deriving DecidableEq

structure Answer where
  questionId : String
  revision : Int
  answer : String
  deriving DecidableEq

/-- The durable state that the control service reads and writes; each list in commit order. -/
structure World (φ : Type) where
  records : List (Record φ) := []
  tasks : List (Task φ) := []
  reviews : List Review := []
  answers : List Answer := []

variable {φ ψ : Type} [DecidableEq φ] [DecidableEq ψ]

/-- A program of the control service; every step of it is one durable commit or one read. -/
abbrev Op (φ : Type) (α : Type) := Prog (World φ) Failure α

namespace World

def entries (w : World φ) (conversationId : String) : List (Record φ) :=
  w.records.filter (·.conversationId = conversationId)

/-- The configuration that counts, `latest`. -/
def latest (w : World φ) (conversationId : String) : Option Config :=
  (w.entries conversationId).reverse.findSome? (·.config)

def answered (w : World φ) (conversationId requestId : String) : Option (Record φ) :=
  (w.entries conversationId).reverse.find? (·.requestId = requestId)

def conversationIds (w : World φ) : List String :=
  (w.records.map (·.conversationId)).dedup.insertionSort (· ≤ ·)

def configurations (w : World φ) : List Config := w.conversationIds.filterMap w.latest

def task? (w : World φ) (taskId : String) : Option (Task φ) := w.tasks.find? (·.taskId = taskId)

/-- `input_queue.get`. -/
def input? (w : World φ) (identity : String) : Option (Task φ) :=
  w.tasks.find? (·.inputIdentity = some identity)

/-- Append a control entry. -/
def record (w : World φ) (r : Record φ) : World φ := { w with records := w.records ++ [r] }

def admitTask (w : World φ) (t : Task φ) : World φ := { w with tasks := w.tasks ++ [t] }

end World

/-- `fingerprint` of a control request, and of the write that a control entry is admitted by. -/
structure Hashes (φ ψ : Type) where
  fingerprint : Json → φ
  digest : Record φ → ψ

namespace Hashes

variable (h : Hashes φ ψ)

def request (actorId operation : String) (params : Fields) : φ :=
  h.fingerprint (.obj [("actor", .str actorId), ("operation", .str operation),
    ("params", .obj params)])

/-- The answer that a request has had already. -/
def receipt (conversationId actorId name : String) (params : Fields) : Op φ (Option Json) :=
  Prog.readE fun w => match w.answered conversationId (textArg params "request_id") with
    | none => .ok none
    | some r =>
      if r.fingerprint = h.request actorId name params then .ok (some r.result)
      else .error (.control "REQUEST_CONFLICT" "This request ID already names different content")

/-- `admit_write` of a control entry: the entry is admitted under the request id `control:` and the
request id of the command, which only control entries have. -/
def admitRecord (r : Record φ) : Op φ Unit :=
  .step (fun w => match w.answered r.conversationId r.requestId with
      | none => w.record r
      | some _ => w)
    fun w => match w.answered r.conversationId r.requestId with
      | none => .ret ()
      | some old =>
        if h.digest old = h.digest r then .ret ()
        else .throw (.durable (.idempotencyConflict
          "request_id was already admitted with different durable result content"))

/-- Record the answer to a command. -/
def write (conversationId actorId name : String) (params : Fields) (result : Json)
    (config : Option Config := none) : Op φ Unit :=
  h.admitRecord {
    conversationId := conversationId
    requestId := textArg params "request_id"
    fingerprint := h.request actorId name params
    result := result
    config := config }

end Hashes

end Control

end Codey
