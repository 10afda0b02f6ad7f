import Codey.Durable.Status
import Codey.Lib.Check
import Codey.Lib.Text

/-!
# The control protocol

The bounded command catalogue of the control service, and the check of a command against it.
-/

namespace Codey

namespace Control

/-- What a control operation raises: an error for its caller, or one of the durable layer. -/
inductive Failure where
  | control (code message : String) (details : Json := .null)
  | durable (e : Codey.Error)
  deriving DecidableEq

/-- The error is one that a caller is told about, `ControlError`. -/
def Failure.isControl : Failure → Bool
  | .control _ _ _ => true
  | .durable _ => false

/-- A caller, as `authenticate` makes one. -/
structure Actor where
  actorId : String
  name : String
  operator : Bool := false
  named : actorId ≠ ""

lemma user_ne_empty : "user" ≠ "" := by decide

lemma codex_ne_empty : "codex" ≠ "" := by decide

def Actor.user : Actor where
  actorId := "user"
  name := "User"
  operator := true
  named := user_ne_empty

def Actor.codex : Actor where
  actorId := "codex"
  name := "Codex"
  named := codex_ne_empty

/-- The type of a field of a command. -/
inductive FieldKind where
  | string
  | integer
  | number
  | boolean
  | object
  | array
  deriving DecidableEq

def FieldKind.name : FieldKind → String
  | .string => "string"
  | .integer => "integer"
  | .number => "number"
  | .boolean => "boolean"
  | .object => "object"
  | .array => "array"

/-- The value is of the type. -/
def FieldKind.holds : FieldKind → Json → Bool
  | .string, .str _ | .integer, .int _ | .number, .int _ | .number, .float _ | .boolean, .bool _
  | .object, .obj _ | .array, .arr _ => true
  | _, _ => false

structure Command where
  fields : List (String × FieldKind)
  required : List String := []
  readonly : Bool := true
  operator : Bool := false

def scopeFields : List (String × FieldKind) := [("conversation_id", .string)]

def runFields : List (String × FieldKind) := scopeFields ++ [("run_id", .string)]

def writeFields : List (String × FieldKind) :=
  scopeFields ++ [("request_id", .string), ("control_generation", .integer)]

/-- The catalogue. -/
def commands : List (String × Command) := [
  ("get_health", { fields := [] }),
  ("list_conversations", { fields := [] }),
  ("create_conversation", {
    fields := [("request_id", .string), ("project", .string), ("title", .string),
      ("provider", .string), ("model_selection", .object), ("max_revisions", .integer),
      ("max_seconds", .integer)]
    required := ["request_id"], readonly := false }),
  ("read_conversation", { fields := scopeFields, required := ["conversation_id"] }),
  ("get_control", { fields := scopeFields, required := ["conversation_id"] }),
  ("grant_control", {
    fields := writeFields ++ [("max_revisions", .integer), ("max_seconds", .integer)]
    required := ["conversation_id", "request_id", "control_generation"]
    readonly := false, operator := true }),
  ("pause_control", {
    fields := writeFields
    required := ["conversation_id", "request_id", "control_generation"], readonly := false }),
  ("send_message", {
    fields := writeFields ++ [("text", .string), ("mode", .string), ("expected_run_id", .string),
      ("in_reply_to_run_id", .string), ("max_turns", .integer), ("intent", .string)]
    required := ["conversation_id", "request_id", "control_generation", "text"]
    readonly := false }),
  ("get_run_result", { fields := runFields, required := ["conversation_id", "run_id"] }),
  ("wait_run", {
    fields := runFields ++ [("until", .string), ("after_revision", .string),
      ("seen_attention_token", .string), ("timeout_seconds", .number)]
    required := ["conversation_id", "run_id"] }),
  ("read_run_evidence", {
    fields := runFields ++ [("execution_id", .string), ("offset", .integer), ("limit", .integer)]
    required := ["conversation_id", "run_id"] }),
  ("stop_run", {
    fields := writeFields ++ [("run_id", .string)]
    required := ["conversation_id", "run_id", "request_id", "control_generation"]
    readonly := false }),
  ("answer_question", {
    fields := writeFields ++ [("run_id", .string), ("question_id", .string),
      ("revision", .integer), ("answer", .string)]
    required := ["conversation_id", "run_id", "request_id", "control_generation", "question_id",
      "revision", "answer"]
    readonly := false }),
  ("record_review", {
    fields := writeFields ++ [("run_id", .string), ("candidate_digest", .string),
      ("passed", .boolean), ("summary", .string), ("verification", .array)]
    required := ["conversation_id", "run_id", "request_id", "control_generation",
      "candidate_digest", "passed", "summary"]
    readonly := false }),
  ("prepare_release", {
    fields := [("request_id", .string), ("source", .string), ("verification", .array)]
    required := ["request_id", "source"], readonly := false, operator := true }),
  ("activate_release", {
    fields := [("request_id", .string), ("candidate_release", .string),
      ("candidate_digest", .string), ("expected_instance_id", .string),
      ("timeout_seconds", .number)]
    required := ["request_id", "candidate_release", "candidate_digest", "expected_instance_id"]
    readonly := false, operator := true }),
  ("get_upgrade", { fields := [("upgrade_id", .string)], required := ["upgrade_id"] })]

def maxFrameBytes : Nat := 1024 * 1024

def maxText : Nat := 64000

/-- A command that is refused for what it says. -/
def invalid (message : String) : Failure := .control "INVALID_ARGUMENT" message

/-- The entry of the catalogue. -/
def declared (name : String) : Except Failure Command :=
  match commands.lookup name with
  | some command => .ok command
  | none => .error (invalid ("Unknown control operation: " ++ name))

def Command.args (command : Command) : Json → Except Failure Fields
  | .obj members =>
    if members.all fun member => (command.fields.lookup member.1).isSome then .ok members
    else .error (invalid "Expected an object containing only declared fields")
  | _ => .error (invalid "Expected an object containing only declared fields")

def lengthOk (key : String) : Json → Bool
  | .str text => text.length ≤ maxText &&
      (!"_id".toList.isSuffixOf key.toList || !text.toList.all blank)
  | _ => true

def Command.checkField (command : Command) (member : String × Json) : Except Failure Unit := do
  let kind := (command.fields.lookup member.1).getD .string
  require (kind.holds member.2)
    (invalid ("Invalid " ++ member.1 ++ ": expected " ++ kind.name))
  require (lengthOk member.1 member.2) (invalid ("Invalid length for " ++ member.1))

/-- Check a command. `frameBytes` is the length of the encoded parameters. -/
def validateCommand (frameBytes : Fields → Nat) (name : String) (params : Json) :
    Except Failure Fields := do
  let command ← declared name
  let args ← command.args params
  require (command.required.all fun key => (args.get? key).isSome)
    (invalid "Missing required command fields")
  checkAll args command.checkField
  require (frameBytes args ≤ maxFrameBytes) (invalid "Command exceeds the frame budget")
  pure args

def textArg (args : Fields) (key : String) (absent : String := "") : String :=
  ((args.get? key).bind Json.str?).getD absent

/-- A whole-number argument. -/
def intArg (args : Fields) (key : String) (absent : Int := 0) : Int :=
  match args.get? key with
  | some (.int n) => n
  | _ => absent

end Control

end Codey
