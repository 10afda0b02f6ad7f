import Codey.Providers.ApiCodec
import Codey.Providers.TextResults
import Codey.Runtime.ProtocolWindow
import Codey.Toolchain.SchemaValue
import Mathlib.Data.Finset.Dedup
import Mathlib.Data.Finset.Empty
import Mathlib.Data.Finset.Lattice.Basic
import Mathlib.Data.List.Sort

/-!
# Provider requests

The requests that a provider is sent, and their wire form: encoded as they are, decoded with every
check that an admitted request has to pass.
-/

namespace Codey

namespace RequestCodec

open Toolchain TextResults

inductive Method where
  | send
  | sendTurn
  | sendToolResults
  | acknowledgeToolResults
  | sendToolResultsBound
  | acknowledgeToolResultsBound
  deriving DecidableEq, Repr

namespace Method

def all : List Method :=
  [.send, .sendTurn, .sendToolResults, .acknowledgeToolResults, .sendToolResultsBound,
    .acknowledgeToolResultsBound]

def name : Method → String
  | send => "send"
  | sendTurn => "send_turn"
  | sendToolResults => "send_tool_results"
  | acknowledgeToolResults => "acknowledge_tool_results"
  | sendToolResultsBound => "send_tool_results_bound"
  | acknowledgeToolResultsBound => "acknowledge_tool_results_bound"

def ofName? (name : String) : Option Method := all.find? (·.name = name)

def positional : Method → List String
  | send => ["text", "timeout"]
  | sendTurn => ["prompt", "tools", "timeout"]
  | sendToolResults => ["results", "tools", "timeout"]
  | acknowledgeToolResults => ["results", "declared_tools", "timeout"]
  | sendToolResultsBound => ["results", "window_ref", "tools", "timeout", "delivery_commit",
      "tool_call_observations", "tool_call_history_groups", "output_token_limit",
      "require_tool_call"]
  | acknowledgeToolResultsBound => ["results", "window_ref", "declared_tools", "timeout"]

def promptKey : Method → Option String
  | send => some "text"
  | sendTurn => some "prompt"
  | _ => none

def toolsKey : Method → Option String
  | send => none
  | acknowledgeToolResults | acknowledgeToolResultsBound => some "declared_tools"
  | _ => some "tools"

def resultsKey : Method → Option String
  | send | sendTurn => none
  | _ => some "results"

def windowKey : Method → Option String
  | sendToolResultsBound | acknowledgeToolResultsBound => some "window_ref"
  | _ => none

/-- The names of the options that a method takes. -/
def allowed : Method → List String
  | send => ["timeout", "tool_call_observations", "tool_call_history_groups", "output_token_limit",
      "tool_call_json", "tool_call_schema", "tool_call_contract", "tool_call_results"]
  | acknowledgeToolResults | acknowledgeToolResultsBound => ["timeout"]
  | sendToolResultsBound => ["timeout", "tool_call_observations", "tool_call_history_groups",
      "output_token_limit", "require_tool_call", "delivery_commit"]
  | _ => ["timeout", "tool_call_observations", "tool_call_history_groups", "output_token_limit",
      "require_tool_call"]

end Method

/-! ### Options -/

inductive Seconds where
  | int (n : Int)
  | float (q : Rat)
  deriving DecidableEq

/-- The fields of `ProviderRequestOptions` but for their presence. -/
structure OptionValues where
  timeout : Option Seconds := none
  toolCallObservations : String := ""
  toolCallHistoryGroups : Int := 0
  outputTokenLimit : Int := 0
  requireToolCall : Bool := false
  toolCallJson : Bool := false
  toolCallSchema : Option Fields := none
  toolCallContract : String := ""
  toolCallResults : Option (List TextResultSpan) := none
  deliveryCommit : Option Fields := none
  deriving DecidableEq

def optionNames : List String :=
  ["delivery_commit", "output_token_limit", "require_tool_call", "timeout", "tool_call_contract",
    "tool_call_history_groups", "tool_call_json", "tool_call_observations", "tool_call_results",
    "tool_call_schema"]

namespace OptionValues

/-- A name with its field, and whether the field differs from its default. -/
def changedNames (v : OptionValues) : List (String × Bool) :=
  [("delivery_commit", v.deliveryCommit ≠ none), ("output_token_limit", v.outputTokenLimit ≠ 0),
    ("require_tool_call", v.requireToolCall), ("timeout", v.timeout ≠ none),
    ("tool_call_contract", v.toolCallContract ≠ ""),
    ("tool_call_history_groups", v.toolCallHistoryGroups ≠ 0), ("tool_call_json", v.toolCallJson),
    ("tool_call_observations", v.toolCallObservations ≠ ""),
    ("tool_call_results", v.toolCallResults ≠ none), ("tool_call_schema", v.toolCallSchema ≠ none)]

def changed (v : OptionValues) : Finset String :=
  ((v.changedNames.filter (·.2)).map (·.1)).toFinset

end OptionValues

/-- Options, with the names of those that are present: all that differ from their defaults are. -/
structure ProviderRequestOptions extends OptionValues where
  supplied : Finset String
  covers : toOptionValues.changed ⊆ supplied
  deriving DecidableEq

/-- The constructor supplies what differs from its default. -/
def ProviderRequestOptions.make (supplied : Finset String) (values : OptionValues) :
    ProviderRequestOptions :=
  ⟨values, supplied ∪ values.changed, Finset.subset_union_right⟩

/-! ### Requests -/

structure ProviderToolDefinition where
  name : String
  description : String
  parameters : List (String × SchemaValue)

inductive ProviderRequest where
  | sendText (prompt : String) (options : ProviderRequestOptions)
  | sendTurn (prompt : String) (tools : Option (List ProviderToolDefinition))
      (options : ProviderRequestOptions)
  | sendToolResults (results : List Api.ProviderToolResult)
      (tools : Option (List ProviderToolDefinition)) (options : ProviderRequestOptions)
  | acknowledgeToolResults (results : List Api.ProviderToolResult)
      (tools : List ProviderToolDefinition) (options : ProviderRequestOptions)
  | sendToolResultsBound (results : List Api.ProviderToolResult) (window : ProtocolWindowRef)
      (tools : Option (List ProviderToolDefinition)) (options : ProviderRequestOptions)
  | acknowledgeToolResultsBound (results : List Api.ProviderToolResult)
      (window : ProtocolWindowRef) (tools : List ProviderToolDefinition)
      (options : ProviderRequestOptions)

namespace ProviderRequest

def options : ProviderRequest → ProviderRequestOptions
  | sendText _ o | sendTurn _ _ o | sendToolResults _ _ o | acknowledgeToolResults _ _ o
  | sendToolResultsBound _ _ _ o | acknowledgeToolResultsBound _ _ _ o => o

def method : ProviderRequest → Method
  | sendText _ _ => .send
  | sendTurn _ _ _ => .sendTurn
  | sendToolResults _ _ _ => .sendToolResults
  | acknowledgeToolResults _ _ _ => .acknowledgeToolResults
  | sendToolResultsBound _ _ _ _ => .sendToolResultsBound
  | acknowledgeToolResultsBound _ _ _ _ => .acknowledgeToolResultsBound

def prompt : ProviderRequest → String
  | sendText prompt _ | sendTurn prompt _ _ => prompt
  | _ => ""

end ProviderRequest

/-! ### Encoding -/

def jsonValue (x : Json) : Except String Json := encodeTransportValue defaultJsonLimits x

def Seconds.toJson : Seconds → Json
  | int n => .int n
  | float q => .float q

def ProviderToolDefinition.toJson (t : ProviderToolDefinition) : Json :=
  .obj [("description", .str t.description), ("name", .str t.name),
    ("parameters", .obj (SchemaValue.toJsonMembers t.parameters))]

def resultToJson (r : Api.ProviderToolResult) : Json :=
  .obj [("call_id", .str r.callId), ("content", .str r.content),
    ("user_content", (r.userContent.map .str).getD .null)]

def toolsToJson (tools : List ProviderToolDefinition) : Json :=
  .arr (tools.map ProviderToolDefinition.toJson)

def resultsToJson (results : List Api.ProviderToolResult) : Json := .arr (results.map resultToJson)

/-- `getattr(options, name)`, as the transport writes it. -/
def OptionValues.json (v : OptionValues) (name : String) : Json :=
  match name with
  | "timeout" => (v.timeout.map Seconds.toJson).getD .null
  | "tool_call_observations" => .str v.toolCallObservations
  | "tool_call_history_groups" => .int v.toolCallHistoryGroups
  | "output_token_limit" => .int v.outputTokenLimit
  | "require_tool_call" => .bool v.requireToolCall
  | "tool_call_json" => .bool v.toolCallJson
  | "tool_call_schema" => (v.toolCallSchema.map .obj).getD .null
  | "tool_call_contract" => .str v.toolCallContract
  | "tool_call_results" => (v.toolCallResults.map payloads).getD .null
  | "delivery_commit" => (v.deliveryCommit.map .obj).getD .null
  | _ => .null

def ProviderRequestOptions.present (o : ProviderRequestOptions) : List String :=
  optionNames.filter (· ∈ o.supplied)

def providerOptionsPayload (o : ProviderRequestOptions) : Except String Fields :=
  if ¬ o.supplied ⊆ optionNames.toFinset then .error "unknown provider option presence"
  else o.present.mapM fun name => (jsonValue (o.json name)).map (name, ·)

/-- The positional arguments of a request. -/
def encodeArgs : ProviderRequest → Except String (List Json)
  | .sendText prompt _ => .ok [.str prompt]
  | .sendTurn prompt tools _ =>
    ([(tools.map toolsToJson).getD .null].mapM jsonValue).map (.str prompt :: ·)
  | .sendToolResults results tools _ =>
    [resultsToJson results, (tools.map toolsToJson).getD .null].mapM jsonValue
  | .acknowledgeToolResults results tools _ =>
    [resultsToJson results, toolsToJson tools].mapM jsonValue
  | .sendToolResultsBound results window tools _ =>
    [resultsToJson results, window.toPayload, (tools.map toolsToJson).getD .null].mapM jsonValue
  | .acknowledgeToolResultsBound results window tools _ =>
    [resultsToJson results, window.toPayload, toolsToJson tools].mapM jsonValue

def encodeProviderRequest (r : ProviderRequest) : Except String Json :=
  encodeArgs r >>= fun args =>
  providerOptionsPayload r.options >>= fun kwargs =>
  .ok (.obj [("args", .arr args), ("kwargs", .obj kwargs), ("method", .str r.method.name)])

/-! ### Decoding -/

def decodeObject (x : Json) : Except String Fields := decodeJsonObject defaultJsonLimits (.json x)

/-- `row[key]`, of a row that has the key. -/
def member (row : Fields) (key : String) : Json := (row.get? key).getD .null

def decodeTool (raw : Json) : Except String ProviderToolDefinition :=
  decodeObject raw >>= fun row =>
  if row.map Prod.fst ≠ ["description", "name", "parameters"] then
    .error "frozen provider declaration is invalid"
  else
    decodeObject (member row "parameters") >>= fun schema =>
    requireJsonString (member row "name") "name" >>= fun name =>
    requireJsonString (member row "description") "description" >>= fun description =>
    .ok ⟨name, description, SchemaValue.freezeMembers (SchemaValue.ofJsonMembers schema)⟩

/-- `_tools` -/
def decodeTools (value : Json) : Except String (Option (List ProviderToolDefinition)) :=
  match value with
  | .null => .ok none
  | .arr rows => (rows.mapM decodeTool).map some
  | _ => .error "frozen provider declarations are not a list"

def decodeUser (user : Json) : Except String (Option String) :=
  if user = .null then .ok none else (requireJsonString user "user_content").map some

def decodeResult (raw : Json) : Except String Api.ProviderToolResult :=
  decodeObject raw >>= fun row =>
  if row.map Prod.fst ≠ ["call_id", "content", "user_content"] then
    .error "frozen provider result is invalid"
  else
    requireJsonString (member row "call_id") "call_id" >>= fun callId =>
    requireJsonString (member row "content") "content" >>= fun content =>
    decodeUser (member row "user_content") >>= fun user =>
    .ok ⟨callId, content, user⟩

/-- `_results` -/
def decodeResults (value : Json) : Except String (List Api.ProviderToolResult) :=
  match value with
  | .arr rows => rows.mapM decodeResult
  | _ => .error "frozen provider results are not a list"

/-- The least whole number that is no finite float. -/
def maxFinite : Int := 2 ^ 1024 - 2 ^ 970

def Seconds.Admissible : Seconds → Prop
  | int n => 0 < n ∧ n < maxFinite
  | float q => 0 < q

instance : (s : Seconds) → Decidable s.Admissible
  | .int n => inferInstanceAs (Decidable (0 < n ∧ n < maxFinite))
  | .float q => inferInstanceAs (Decidable (0 < q))

def seconds? : Json → Option Seconds
  | .int n => some (.int n)
  | .float q => some (.float q)
  | _ => none

def decodeTimeout (value : Json) : Except String (Option Seconds) :=
  if value = .null then .ok none
  else
    match seconds? value with
    | some s =>
      if s.Admissible then .ok (some s)
      else .error "provider timeout must be positive finite seconds or null"
    | none => .error "provider timeout must be positive finite seconds or null"

def decodeOptional (value : Json) : Except String (Option Fields) :=
  if value = .null then .ok none else (decodeObject value).map some

def CountFits (n : Int) : Prop := 0 ≤ n ∧ n ≤ 2 ^ 63 - 1

instance (n : Int) : Decidable (CountFits n) := inferInstanceAs (Decidable (_ ∧ _))

section

-- The digest of a text, and how a list of names is printed.
variable (digest : Text → String) (listText : List String → String)

def decodeSpanOption (prompt : String) (value : Json) :
    Except String (Option (List TextResultSpan)) :=
  if value = .null then .ok none
  else (decodeTextResultSpans digest prompt.toList value).map some

/-- The values of the options of a row; what is missing has its default. -/
def decodeOptionValues (prompt : String) (row : Fields) : Except String OptionValues :=
  let get (name : String) : Json := (row.get? name).getD (OptionValues.json {} name)
  decodeTimeout (get "timeout") >>= fun timeout =>
  requireJsonInteger (get "tool_call_history_groups") "tool_call_history_groups" >>= fun history =>
  requireJsonInteger (get "output_token_limit") "output_token_limit" >>= fun output =>
  if ¬ CountFits history ∨ ¬ CountFits output then
    .error "provider counts must fit nonnegative int64"
  else
    requireJsonString (get "tool_call_observations") "tool_call_observations" >>=
      fun observations =>
    requireJsonBoolean (get "require_tool_call") "require_tool_call" >>= fun requireCall =>
    requireJsonBoolean (get "tool_call_json") "tool_call_json" >>= fun json =>
    decodeOptional (get "tool_call_schema") >>= fun schema =>
    requireJsonString (get "tool_call_contract") "tool_call_contract" >>= fun contract =>
    decodeSpanOption digest prompt (get "tool_call_results") >>= fun results =>
    decodeOptional (get "delivery_commit") >>= fun commit =>
    .ok { timeout, toolCallObservations := observations, toolCallHistoryGroups := history,
          outputTokenLimit := output, requireToolCall := requireCall, toolCallJson := json,
          toolCallSchema := schema, toolCallContract := contract, toolCallResults := results,
          deliveryCommit := commit }

def decodeProviderOptions (value : Json) (m : Method) (prompt : String) :
    Except String ProviderRequestOptions :=
  decodeObject value >>= fun row =>
  let names := row.map Prod.fst
  let unknown := (names.filter (· ∉ m.allowed)).dedup.insertionSort (· ≤ ·)
  if unknown ≠ [] then .error s!"unsupported {m.name} options: {listText unknown}"
  else (decodeOptionValues digest prompt row).map (.make names.toFinset)

def bindPositional : List String → List Json → Fields → Except String Fields
  | name :: names, value :: args, arguments =>
    if (arguments.get? name).isSome then .error s!"duplicate provider argument: {name}"
    else bindPositional names args ((name, value) :: arguments)
  | _, _, arguments => .ok arguments

/-- `arguments.pop(key, None)`, where the method has the key. -/
def popMember (key : Option String) (arguments : Fields) : Json × Fields :=
  match key with
  | none => (.null, arguments)
  | some key => (member arguments key, arguments.pop key)

/-- The prompt, the tools, the results and the window of a method, and the other arguments. -/
def takeArguments (m : Method) (arguments : Fields) : Json × Json × Json × Json × Fields :=
  let prompt := popMember m.promptKey arguments
  let tools := popMember m.toolsKey prompt.2
  let results := popMember m.resultsKey tools.2
  let window := popMember m.windowKey results.2
  (prompt.1, tools.1, results.1, window.1, window.2)

def decodePrompt (m : Method) (value : Json) : Except String String :=
  if m.promptKey = none then .ok "" else requireJsonString value "prompt"

def decodeResultList (m : Method) (value : Json) : Except String (List Api.ProviderToolResult) :=
  if m.resultsKey = none then .ok [] else decodeResults value

def decodeWindow (m : Method) (value : Json) : Except String (Option ProtocolWindowRef) :=
  if m.windowKey = none then .ok none
  else (ProtocolWindowRef.fromPayload (some value)).map some

/-- The request of a method. -/
def assemble (m : Method) (prompt : String) (tools : Option (List ProviderToolDefinition))
    (results : List Api.ProviderToolResult) (window : Option ProtocolWindowRef)
    (options : ProviderRequestOptions) : Except String ProviderRequest :=
  match m, tools, window with
  | .send, _, _ => .ok (.sendText prompt options)
  | .sendTurn, tools, _ => .ok (.sendTurn prompt tools options)
  | .sendToolResults, tools, _ => .ok (.sendToolResults results tools options)
  | .sendToolResultsBound, tools, some window =>
    .ok (.sendToolResultsBound results window tools options)
  | .sendToolResultsBound, _, none => .error "AssertionError"
  | .acknowledgeToolResults, some tools, _ => .ok (.acknowledgeToolResults results tools options)
  | .acknowledgeToolResultsBound, some tools, some window =>
    .ok (.acknowledgeToolResultsBound results window tools options)
  | .acknowledgeToolResultsBound, some _, none => .error "AssertionError"
  | .acknowledgeToolResults, none, _ | .acknowledgeToolResultsBound, none, _ =>
    .error "acknowledgement requires declared_tools"

def decodeInvocation (m : Method) (args : List Json) (kwargs : Fields) :
    Except String ProviderRequest :=
  if m.positional.length < args.length then .error "too many provider positional arguments"
  else
    bindPositional m.positional args kwargs >>= fun arguments =>
    match takeArguments m arguments with
    | (promptValue, toolsValue, resultsValue, windowValue, rest) =>
      decodePrompt m promptValue >>= fun prompt =>
      decodeTools toolsValue >>= fun tools =>
      decodeResultList m resultsValue >>= fun results =>
      decodeWindow m windowValue >>= fun window =>
      decodeProviderOptions digest listText (.obj rest) m prompt >>= fun options =>
      assemble m prompt tools results window options

def decodeProviderRequest (payload : Json) : Except String ProviderRequest :=
  decodeObject payload >>= fun row =>
  if (row.get? "schema_version").any (· ≠ .int 1) then
    .error "unknown provider invocation version"
  else
    requireJsonString (member row "method") "method" >>= fun name =>
    match Method.ofName? name, member row "args", member row "kwargs" with
    | some m, .arr args, .obj kwargs => decodeInvocation digest listText m args kwargs
    | _, _, _ => .error "frozen provider invocation is invalid"

end

end RequestCodec

end Codey
