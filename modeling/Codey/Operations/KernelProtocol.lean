import Codey.Toolchain.ToolSpec

/-!
# The turn protocol

A reply of a provider becomes a plan: calls of tools, a control, or a protocol error. What a call
may name is decided by the snapshot of the turn, which holds the tools that were advertised, their
definitions and the authorization.
-/

namespace Codey

namespace Operations

open Toolchain (Sent decodeJsonObject defaultJsonLimits normalizeToolArgs ToolArgLimits ToolSpec
  validateArgsWithSpec)

/-! ### Tools -/

def nativeToCanonical : List (String × String) :=
  [("ls", "list_dir"), ("read", "read_file"), ("search", "grep"),
    ("references", "find_references"), ("edit", "edit"), ("run", "run"), ("shell", "shell"),
    ("done", "done")]

/-- `TOOL_DEFINITION_BY_NAME`: the names and aliases of the project tools with their runtime names. -/
def runtimeName : String → Option String
  | "list_dir" | "ls" => some "ls"
  | "read_file" | "read" => some "read"
  | "grep" | "search" => some "search"
  | "find_references" | "references" => some "references"
  | "edit" => some "edit"
  | "run" => some "run"
  | "shell" => some "shell"
  | _ => none

def parallelSafe : List String := ["list_dir", "ls", "read_file", "read", "grep", "search"]

/-- `_TEXT_BATCH_TOOLS` -/
def isTextBatchTool (name : String) : Bool := name ∈ ["parallel", "read_files"]

def controllerAliases : List String := ["open_result", "reopen_source", "open_hit"]

def knownTaskGrants : List String :=
  ["project.read", "project.write", "project.verify", "shell.approval", "web.read",
    "knowledge.read", "knowledge.write", "knowledge.link", "control"]

def maxNativeCallsPerTurn : Nat := 8

def maxParallelCalls : Nat := 4

/-! ### Replies and plans -/

structure TextRequest where
  tool : String
  args : Fields

inductive DecodedTextTurn where
  | requests (items : List TextRequest)
  | answer (text : String)
  | error (message kind tool : String) (nonempty : message ≠ "")

structure ProviderToolCall where
  id : String
  name : String
  arguments : Sent

inductive TurnFinish where
  | complete
  | outputLimit
  | protocolError
  deriving DecidableEq

structure AssistantTurn where
  text : String := ""
  toolCalls : List ProviderToolCall := []
  raw : Fields := []
  finish : TurnFinish := .complete

inductive Reply where
  | text (decoded : DecodedTextTurn)
  | assistant (turn : AssistantTurn)

structure ToolCall where
  name : String
  args : Fields
  callId : String := ""
  deriving DecidableEq

structure Control where
  kind : String
  body : String
  deriving DecidableEq

structure ToolPlan where
  calls : List ToolCall
  control : Option Control
  protocolError : String := ""
  protocolErrorKind : String := ""
  protocolToolName : String := ""
  controlArgs : Fields := []
  deriving DecidableEq

structure TaskPolicy where
  grants : List String
  strictResearch : Bool := false
  requiredChecks : List String := []
  source : String := ""
  version : Nat := 1
  sourcesOpenRequired : Bool := false
  deniedCapabilities : List String := []
  deriving DecidableEq

structure TurnSnapshot where
  allowed : Option (List String)
  toolNames : List String := []
  policy : Option TaskPolicy := none
  frozenSpecs : List ToolSpec := []
  nestedToolNames : List String := []
  /-- Whether there is a `research_scope`. -/
  researchScope : Bool := false

def TurnSnapshot.inventoryNames (snapshot : TurnSnapshot) : List String :=
  (snapshot.toolNames ++ snapshot.nestedToolNames).eraseDups

/-! ### The host -/

/-- What the protocol takes from the language, the tools that are registered, what the patterns for
denied source find in a program, and the decoder of a text turn. The built-in tools are registered,
and names are in lower case. -/
structure Host extends Toolchain.Language where
  registry : List ToolSpec
  deniedSource : String → Option String
  decodeTextTurn : String → DecodedTextTurn
  named : ∀ spec ∈ registry, spec.name ≠ "" ∧
    lower (String.ofList (strip spec.name.toList)) = spec.name
  builtin : ∀ entry ∈ nativeToCanonical, ∃ spec ∈ registry, spec.name = entry.2

variable (host : Host)

/-- `str(raw or "").strip().lower()` -/
def normalName (raw : String) : String := host.lower (String.ofList (strip raw.toList))

def trimmed (text : String) : String := String.ofList (strip text.toList)

def canonicalToolName (raw : String) : String :=
  let name := normalName host raw
  if name = "" then ""
  else if host.registry.any (·.name = name) then name
  else
    match nativeToCanonical.find? (·.1 = name) with
    | some entry => entry.2
    | none => ((host.registry.find? fun spec => name ∈ spec.aliases).map (·.name)).getD ""

def specForTool (name : String) : Option ToolSpec :=
  let canonical := canonicalToolName host name
  if canonical = "" then none else host.registry.find? (·.name = canonical)

/-- The text of an error, which is empty when there is none, or an exception. -/
def validateArgsAgainstSpec (name : String) (args : Fields) : Except String String :=
  match specForTool host name with
  | none => .ok ("unknown tool: " ++ if name = "" then "?" else name)
  | some spec => validateArgsWithSpec host.toLanguage spec args

/-- `_normalize_grant` and `TaskPolicy.allows` -/
def TaskPolicy.allows (policy : TaskPolicy) (grant : String) : Bool :=
  let text := normalName host grant
  text ∈ knownTaskGrants && text ∉ policy.deniedCapabilities && text ∈ policy.grants

/-- The definitions of a turn by name: `{spec.name: spec for spec in specs}`. -/
def lookupFrozen (specs : List ToolSpec) (name : String) : Option ToolSpec :=
  specs.reverse.find? (·.name = name)

/-! ### Permissions -/

def isCodingOnlyTool (tool : String) : Bool :=
  let name := canonicalToolName host tool
  name ≠ "" && name ≠ "done" && (specForTool host name).any (·.executor = "project")

def controllerAllows (tool : String) : Option (List String) → Bool
  | none => true
  | some allowed =>
    let name := normalName host tool
    isCodingOnlyTool host name ||
      if name = "open_url" then ("open_url" :: controllerAliases).any (· ∈ allowed)
      else name ∈ allowed

def grantForTool (tool : String) : String := ((specForTool host tool).map (·.grant)).getD ""

def policyAllows (policy : Option TaskPolicy) (tool : String) (frozen : Option (List ToolSpec)) :
    Bool :=
  match policy with
  | none => false
  | some policy =>
    let grant :=
      match frozen with
      | some specs => ((lookupFrozen specs tool).map (·.grant)).getD ""
      | none => grantForTool host tool
    grant ≠ "" && policy.allows host grant

/-! ### Early returns -/

def invalidPlan (message : String) (tool : String := "") (kind : String := "invalid_args") :
    ToolPlan :=
  { calls := [], control := none, protocolError := message, protocolErrorKind := kind
    protocolToolName := tool }

def disallowedPlan (tool : String) (controller : Bool) : ToolPlan :=
  if controller then
    invalidPlan (tool ++ " is not allowed by the current controller state") tool "disallowed_tool"
  else invalidPlan ("disallowed tool for this task policy: " ++ tool) tool "disallowed_tool"

/-- How the computation of a plan ends early: a plan is returned, or an exception is raised. -/
inductive Stop where
  | plan (plan : ToolPlan)
  | raised

/-! ### Arguments -/

def toolAndArgs (object : Fields) : String × Fields :=
  let tool :=
    match Fields.get? object "tool" with
    | some value => if value.truthy then normalName host (host.str value) else ""
    | none => ""
  match Fields.get? object "args" with
  | some (.obj args) => (tool, args)
  | none | some .null => (tool, object.filter fun member => member.1 ≠ "tool")
  | some _ => (tool, [])

/-- The arguments and the error of a validator, `tuple[ToolArgs, str]`. -/
abbrev Validated := Fields × String

/-- The fields of older shapes that an edit no longer takes. -/
def legacyEdit (tool : String) (args : Fields) : Option String :=
  if normalName host tool = "edit" then
    if (Fields.get? args "old_string").isSome || (Fields.get? args "new_string").isSome then
      some "edit requires replacements for existing files"
    else if (match Fields.get? args "replacements" with
        | some (.arr items) => items.any fun item =>
          match item with
          | .obj members =>
            (Fields.get? members "search").isSome || (Fields.get? members "replace").isSome
          | _ => false
        | _ => false) then
      some "edit rejects legacy replacement fields: use old_string/new_string"
    else (["search", "replace"].find? fun key => (Fields.get? args key).isSome).map
      ("edit rejects legacy alias: " ++ ·)
  else none

/-- `_validate_coding_args`. What the normalizer returns is decoded outside of its `try`. -/
def validateCodingArgs (tool : String) (args : Fields) : Except Stop Validated :=
  match legacyEdit host tool args, runtimeName tool with
  | some message, _ => .ok ([], message)
  | none, none => .ok ([], "unknown tool: " ++ tool)
  | none, some runtime =>
    match normalizeToolArgs host.lower runtime (.json (.obj args)) {} with
    | .error (.repair message _) => .ok ([], message)
    | .error (.value message) => .ok ([], tool ++ " args invalid: " ++ message)
    | .ok repair =>
      match decodeJsonObject defaultJsonLimits (.json (.obj repair.args)) with
      | .ok decoded => .ok (decoded, "")
      | .error _ => .error .raised

/-- `str(args.get(key, "") or "").strip()` -/
def textArg (args : Fields) (key : String) : String :=
  match Fields.get? args key with
  | some value => if value.truthy then trimmed (host.str value) else ""
  | none => ""

/-- `_validate_research_args` for the two shapes it is called for: a controller alias, and a source
search that names its source. -/
def validateResearchArgs (tool : String) (args : Fields) : Validated :=
  if tool ∈ controllerAliases then
    let idKey :=
      if tool = "open_result" then "result_id"
      else if tool = "reopen_source" then "source_id" else "hit_id"
    let value := textArg host args idKey
    if value = "" then ([], tool ++ " missing required arg '" ++ idKey ++ "'")
    else (Fields.set args idKey (.str value), "")
  else
    let sid := textArg host args "source_id"
    let query := textArg host args "query"
    if sid = "" then ([], "source_search missing required arg 'source_id'")
    else if query = "" then ([], "source_search missing required arg 'query'")
    else (Fields.set (Fields.set args "source_id" (.str sid)) "query" (.str query), "")

def lookupSpec (name : String) : Option (List ToolSpec) → Option ToolSpec
  | some specs => lookupFrozen specs name
  | none => specForTool host name

def specErrorFor (name : String) (args : Fields) (spec : ToolSpec)
    (frozen : Option (List ToolSpec)) : String :=
  let checked := match frozen with
    | some _ => validateArgsWithSpec host.toLanguage spec args
    | none => validateArgsAgainstSpec host name args
  match checked with
  | .ok error => error
  | .error detail => name ++ " args invalid: spec validator failed (" ++
      String.ofList ((strip detail.toList).take 200) ++ ")"

/-- The texts of a list that holds nothing else. -/
def texts? : Json → Option (List String)
  | .arr items => items.mapM Json.str?
  | _ => none

/-- `question_args`, and what is decoded of it. -/
def questionArgs (args : Fields) : Except String Fields := do
  let value ← decodeJsonObject defaultJsonLimits (.json (.obj args))
  let question := ((Fields.get? value "question").bind Json.str?).getD ""
  require (decide (0 < (strip question.toList).length ∧ (strip question.toList).length ≤ 2000))
    "question must be nonempty text of at most 2000 characters"
  let options := ((Fields.get? value "options").bind texts?).getD []
  require (decide (2 ≤ options.length ∧ options.length ≤ 6 ∧ (∀ option ∈ options,
      0 < (strip option.toList).length ∧ (strip option.toList).length ≤ 300) ∧ options.Nodup))
    "question requires 2-6 distinct text options"
  let descriptions := texts? ((Fields.get? value "descriptions").getD (.arr []))
  require (descriptions.any fun found => decide (found.length ≤ options.length ∧
      ∀ description ∈ found, description.length ≤ 500)) "invalid question descriptions"
  match (Fields.get? value "allow_free_text").getD (.bool true) with
  | .bool free =>
    decodeJsonObject defaultJsonLimits (.json (.obj [("question", .str question),
      ("options", .arr (options.map .str)),
      ("descriptions", .arr ((descriptions.getD []).map .str)), ("allow_free_text", .bool free)]))
  | _ => .error "allow_free_text must be a boolean"

mutual
/-- `_check_input_numbers`: the integers are safe in the language of the program. -/
def safeNumbers : Json → Bool
  | .int n => decide (n.natAbs ≤ 9007199254740991)
  | .arr items => safeItems items
  | .obj members => safeMembers members
  | _ => true

def safeItems : List Json → Bool
  | [] => true
  | item :: items => safeNumbers item && safeItems items

def safeMembers : List (String × Json) → Bool
  | [] => true
  | (_, value) :: members => safeNumbers value && safeMembers members
end

def codemodeSourceBytes : Nat := 100000

/-- The inputs of a program, `canonical_json_mapping` with `_check_input_numbers`. -/
def codemodeInputs (args : Fields) : Except String Fields :=
  let checked : Except String Fields :=
    match Toolchain.encodeTransportValue defaultJsonLimits
      ((Fields.get? args "inputs").getD (.obj [])) with
    | .error message => .error message
    | .ok (.obj inputs) =>
      if safeMembers inputs then .ok inputs
      else .error "codemode inputs integers must be JavaScript safe integers"
    | .ok _ => .error "canonical payload must be a mapping"
  checked.mapError ("codemode inputs must be a strict JSON object: " ++ ·)

/-- `parse_codemode_args`, and the arguments that are made of the program. -/
def parseCodemodeArgs (args : Fields) : Except String Fields := do
  let code := ((Fields.get? args "code").bind Json.str?).getD ""
  require (trimmed code ≠ "") "codemode code must be a non-empty string"
  let inputs ← codemodeInputs args
  let inputBytes := if inputs.isEmpty then 0 else (host.dumps (.obj inputs)).utf8ByteSize
  require (code.utf8ByteSize + inputBytes ≤ codemodeSourceBytes)
    "codemode source and inputs exceed source byte limit"
  let language := match Fields.get? args "language" with
    | some value => if value.truthy then normalName host (host.str value) else "javascript"
    | none => "javascript"
  require (language ∈ ["javascript", "js"]) "codemode language must be javascript"
  match host.deniedSource code with
  | none => .ok [("code", .str code), ("language", .str "javascript"), ("inputs", .obj inputs)]
  | some found =>
    let access :=
      if "tools".toList <+: (host.lower found).toList then "recursive invocation"
      else "direct host access token '" ++ found ++ "'"
    .error ("codemode rejected before execution: " ++ access ++ " is denied.")

/-- A validator that returns arguments or raises a `ValueError`. -/
def caught : Except String Fields → Validated
  | .ok args => (args, "")
  | .error message => ([], message)

def validateToolArgs (tool : String) (args : Fields) (frozen : Option (List ToolSpec)) :
    Except Stop Validated :=
  let canonical := canonicalToolName host tool
  let name := if canonical = "" then normalName host tool else canonical
  match lookupSpec host name frozen with
  | none => .ok ([], "unknown tool: " ++ if tool = "" then "?" else tool)
  | some spec =>
    let specError := specErrorFor host name args spec frozen
    if specError ≠ "" then .ok ([], specError)
    else if name = "ask_user" then .ok (caught (questionArgs args))
    else if name = "done" then .ok (args, "")
    else if name = "codemode" then .ok (caught (parseCodemodeArgs host args))
    else if name ∈ controllerAliases ||
        name = "source_search" && (Fields.get? args "source_id").isSome then
      .ok (validateResearchArgs host name args)
    else if spec.executor = "project" then validateCodingArgs host name args
    else .ok (args, "")

/-! ### Batches -/

structure Item where
  tool : String
  args : Fields
  callId : String
  deriving DecidableEq

/-- A call in a `parallel` wrapper. -/
def expandRow (row : Json) : Except String Item :=
  match row with
  | .obj members => do
    let (name, args) := toolAndArgs host members
    require (name ∈ parallelSafe) "parallel accepts only list_dir, read_file, and grep"
    require (match Fields.get? members "args" with
      | none | some (.obj _) => true
      | some _ => false) (name ++ " args must be an object")
    .ok ⟨name, args, ""⟩
  | _ => .error "every parallel call must be an object"

/-- The calls of a wrapper; the first error counts. -/
def expandRows : List Json → Except String (List Item)
  | [] => .ok []
  | row :: rows => do
    let item ← expandRow host row
    let items ← expandRows rows
    .ok (item :: items)

/-- The paths of a `read_files` wrapper. -/
def batchPaths (args : Fields) : List Json :=
  match Fields.get? args "paths" with
  | some (.str path) => [.str path]
  | some (.arr paths) => paths
  | _ => []

/-- The members of a `parallel` wrapper. -/
def batchCalls (args : Fields) : List Json :=
  match Fields.get? args "calls" with
  | some (.arr calls) => calls
  | _ => []

def expandTextBatch (tool : String) (args : Fields) : Except String (List Item) :=
  if tool = "read_files" then do
    let paths := batchPaths args
    require (!paths.isEmpty && paths.length ≤ maxNativeCallsPerTurn) "read_files requires 1..8 paths"
    require (paths.all fun path => path.str?.any fun text => trimmed text ≠ "")
      "read_files paths must be non-empty strings"
    .ok (paths.map fun path => ⟨"read_file", [("path", path)], ""⟩)
  else do
    let calls := batchCalls args
    require (!calls.isEmpty && calls.length ≤ maxParallelCalls)
      "parallel requires 1..4 read-only calls"
    expandRows host calls

/-- An error of a batch ends the computation. -/
def batchError {α : Type} (expanded : Except String α) : Except Stop α :=
  expanded.mapError fun message => .plan (invalidPlan message)

/-- The items that one item stands for. -/
def lowerItem (item : Item) : Except Stop (List Item) :=
  let name := canonicalToolName host item.tool
  if isTextBatchTool name then do
    batchError (require (item.callId = "")
      "batch wrappers are text-only; native calls require individual ids")
    match validateArgsAgainstSpec host name item.args with
    | .error _ => .error .raised
    | .ok error => batchError do
      require (error = "") error
      expandTextBatch host name item.args
  else .ok [item]

def lowerItems : List Item → Except Stop (List Item)
  | [] => .ok []
  | item :: items => do
    let children ← lowerItem host item
    let rest ← lowerItems items
    .ok (children ++ rest)

def lowerTextBatches (items : List Item) : Except Stop (List Item) := do
  let expanded ← lowerItems host items
  batchError (require (expanded.length ≤ maxNativeCallsPerTurn)
    "expanded batch exceeds the turn call limit")
  .ok expanded

/-! ### Plans -/

/-- What a plan is checked against. -/
structure Limits where
  policy : Option TaskPolicy
  controllerAllowed : Option (List String)
  snapshotNames : Option (List String)
  frozenSpecs : Option (List ToolSpec)

def stop {α : Type} (plan : ToolPlan) : Except Stop α := .error (.plan plan)

def ensure (cond : Bool) (plan : ToolPlan) : Except Stop Unit := require cond (.plan plan)

def checkTool (limits : Limits) (tool : String) : Except Stop Unit := do
  ensure (policyAllows host limits.policy tool limits.frozenSpecs) (disallowedPlan tool false)
  ensure (controllerAllows host tool limits.controllerAllowed) (disallowedPlan tool true)

/-- One round of the loop of `_plan_from_tool_objects`, up to the point where a call is added. A
control ends the loop. -/
def planItem (limits : Limits) (count : Nat) (item : Item) : Except Stop ToolCall := do
  let tool := canonicalToolName host item.tool
  ensure (tool ≠ "") (invalidPlan ("unknown tool: " ++ if item.tool = "" then "?" else item.tool)
    item.tool "unknown_tool")
  ensure (limits.snapshotNames.all fun names => tool ∈ names)
    (invalidPlan (tool ++ " is not allowed by the current controller state (not in the turn " ++
      "snapshot: " ++ tool ++ ")") tool "snapshot_tool_mismatch")
  if tool = "done" || tool = "ask_user" then do
    ensure (count = 1)
      (invalidPlan (tool ++ " must be the only call in a turn") tool "too_many_tools")
    checkTool host limits tool
    let validated ← validateToolArgs host tool item.args limits.frozenSpecs
    ensure (validated.2 = "") (invalidPlan validated.2 tool)
    let body := textArg host validated.1 (if tool = "done" then "summary" else "question")
    stop { calls := [], control := some ⟨tool, body⟩, controlArgs := validated.1 }
  else do
    checkTool host limits tool
    let validated ← validateToolArgs host tool item.args limits.frozenSpecs
    ensure (validated.2 = "") (invalidPlan validated.2 tool)
    .ok ⟨tool, validated.1, item.callId⟩

mutual
/-- A value with the members of every object in the order of their names. -/
def sortKeys : Json → Json
  | .arr items => .arr (sortItems items)
  | .obj members => .obj (sortMembers members)
  | value => value

def sortItems : List Json → List Json
  | [] => []
  | item :: items => sortKeys item :: sortItems items

def sortMembers : List (String × Json) → List (String × Json)
  | [] => []
  | (key, value) :: members => Fields.set (sortMembers members) key (sortKeys value)
end

/-- What stands for a text call: `json.dumps([tool, validated], sort_keys=True)`. -/
def callKey (call : ToolCall) : String × Fields := (call.name, sortMembers call.args)

/-- The loop of `_plan_from_tool_objects` after the calls and the keys of the text calls so far. -/
def planItems (limits : Limits) (count : Nat) :
    List Item → List ToolCall → List (String × Fields) → Except Stop (List ToolCall)
  | [], calls, _ => .ok calls
  | item :: items, calls, textKeys => do
    let call ← planItem host limits count item
    if item.callId = "" then
      if callKey call ∈ textKeys then planItems limits count items calls textKeys
      else planItems limits count items (calls ++ [call]) (callKey call :: textKeys)
    else planItems limits count items (calls ++ [call]) textKeys

def planFromToolObjects (limits : Limits) (items : List Item) : Except Stop ToolPlan := do
  let items ← lowerTextBatches host items
  let names := items.map fun item => canonicalToolName host item.tool
  ensure (!("shell" ∈ names && items.length ≠ 1))
    (invalidPlan "shell must be the only tool call in a turn" "shell" "mixed_shell_batch")
  ensure (!(items.length ≠ 1 &&
      names.any fun name => name ∈ ["submit_research_review", "submit_research_answer"]))
    (invalidPlan "research submission must be the only tool call in a turn")
  let calls ← planItems host limits items.length items [] []
  ensure (!calls.isEmpty) (invalidPlan "no JSON tool call found" "" "no_json")
  let body := if calls.length = 1 then "Need tool result" else "Need tool results"
  .ok { calls := calls, control := some ⟨"continue", body⟩ }

/-! ### Responses -/

/-- The last loop of `_native_tool_objects`. -/
def nativeItems : List ProviderToolCall → Except Stop (List Item)
  | [] => .ok []
  | call :: calls =>
    let name := normalName host call.name
    match decodeJsonObject defaultJsonLimits call.arguments with
    | .error _ => stop (invalidPlan (name ++ " args must be an object") name)
    | .ok args => do
      let items ← nativeItems calls
      .ok (⟨name, args, call.id⟩ :: items)

def nativeToolObjects (calls : List ProviderToolCall) : Except Stop (List Item) := do
  ensure (calls.length ≤ maxNativeCallsPerTurn)
    (invalidPlan ("too many native tool calls in one turn (" ++ toString calls.length ++
      "); send at most 8") "" "too_many_tools")
  let missing := (calls.filter fun call => call.id = "").map fun call =>
    if call.name = "" then "?" else call.name
  ensure missing.isEmpty
    (invalidPlan ("native tool call without an id cannot be answered: " ++
      ", ".intercalate missing))
  let ids := calls.map (·.id)
  ensure (ids.all fun id => trimmed id ≠ "" && id.length ≤ 256)
    (invalidPlan "native tool call ids must be nonempty strings of at most 256 characters")
  ensure (decide ids.Nodup)
    (invalidPlan "duplicate native tool call ids cannot be answered unambiguously")
  ensure (!((calls.map fun call => normalName host call.name).any (· = "done") &&
      calls.length ≠ 1))
    (invalidPlan "done must be the only call in a turn" "done" "too_many_tools")
  nativeItems host calls

def decodedTextObjects : DecodedTextTurn → Except Stop (List Item)
  | .error message kind tool _ => stop (invalidPlan message tool kind)
  | .answer text => stop { calls := [], control := some ⟨"done", text⟩ }
  | .requests items => .ok (items.map fun item => ⟨item.tool, item.args, ""⟩)

def responseObjects : Reply → Except Stop (List Item)
  | .text decoded => decodedTextObjects decoded
  | .assistant turn =>
    match turn.finish with
    | .protocolError =>
      let detail :=
        match Fields.get? turn.raw "protocol_error" with
        | some (.str detail) => if detail = "" then none else some detail
        | _ => none
      let tool :=
        match Fields.get? turn.raw "protocol_tool_name" with
        | some (.str tool) => String.ofList (tool.toList.take 80)
        | _ => ""
      stop (invalidPlan ((detail.map fun detail => String.ofList (detail.toList.take 500)).getD
        "provider returned malformed tool calls") tool)
    | .outputLimit => stop (invalidPlan "assistant response was truncated" "" "output_limit")
    | .complete =>
      if turn.toolCalls.isEmpty then
        if Fields.get? turn.raw "text_protocol" = some (.bool true) then
          decodedTextObjects (host.decodeTextTurn turn.text)
        else if trimmed turn.text = "" then
          stop (invalidPlan "empty assistant answer" "" "empty_answer")
        else stop { calls := [], control := some ⟨"done", trimmed turn.text⟩ }
      else nativeToolObjects host turn.toolCalls

/-- What becomes of a plan that a response gives directly. -/
def checkDirect (snapshot : Option TurnSnapshot) (frozen : Option (List ToolSpec))
    (plan : ToolPlan) : ToolPlan :=
  let done := plan.control.any fun control => control.kind = "done"
  if snapshot.any (·.researchScope) && done then
    invalidPlan ("Submit the answer with submit_research_answer under the frozen contract; " ++
      "global done is not allowed")
  else if done && plan.protocolError = "" &&
      (frozen.bind fun specs => lookupFrozen specs "done").any
        (fun spec => "report_sections" ∈ spec.required) then
    invalidPlan ("Research completion requires done.report_sections.coverage under the frozen " ++
      "contract; plain text and summary-only reports are not accepted.") "done"
  else plan

/-- The plan of a reply under given limits. -/
def planReply (limits : Limits) (snapshot : Option TurnSnapshot) (reply : Reply) :
    Except Stop ToolPlan :=
  match responseObjects host reply with
  | .error (.plan plan) => .ok (checkDirect snapshot limits.frozenSpecs plan)
  | .error .raised => .error .raised
  | .ok items => planFromToolObjects host limits items

def frozenSpecMap (snapshot : TurnSnapshot) : Option (List ToolSpec) :=
  if (snapshot.frozenSpecs.all fun spec => spec.name ∈ snapshot.inventoryNames) &&
      snapshot.inventoryNames.all fun name => snapshot.frozenSpecs.any (·.name = name) then
    some snapshot.frozenSpecs
  else none

/-- `normalize_turn`. There is no plan when an exception is raised. -/
def normalizeTurn (reply : Reply) (policy : Option TaskPolicy)
    (controllerAllowed snapshotNames : Option (List String)) (snapshot : Option TurnSnapshot) :
    Option ToolPlan :=
  let outcome : Except Stop ToolPlan :=
    match snapshot with
    | none =>
      planReply host ⟨policy, controllerAllowed.map (·.map (normalName host)), snapshotNames, none⟩
        none reply
    | some snapshot =>
      if policy.isSome && policy ≠ snapshot.policy then
        stop (invalidPlan "turn policy differs from the captured authorization")
      else
        match frozenSpecMap snapshot with
        | none =>
          stop (invalidPlan "invalid tool snapshot: incomplete tool snapshot definitions")
        | some specs =>
          planReply host ⟨snapshot.policy, snapshot.allowed.map (·.map (normalName host)),
            some snapshot.inventoryNames, some specs⟩ snapshot reply
  match outcome with
  | .ok plan => some plan
  | .error (.plan plan) => some plan
  | .error .raised => none

end Operations

end Codey
