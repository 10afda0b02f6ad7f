import Codey.Lib.Text
import Codey.Lib.Walk
import Codey.Toolchain.JsonValue

/-!
# Repair of tool arguments

What a model sends as the arguments of a tool call is brought into one shape: one name for each
argument, numbers as numbers, and paths that lead from the project root downwards. How a tool name
is put in lower case is left open (`lower`).
-/

namespace Codey

namespace Toolchain

structure ToolArgLimits where
  maxReplacements : Int := 8
  readMaxLines : Int := 600

/-- What the normalizer may raise. -/
inductive ArgsError where
  /-- `ToolArgsRepairError` -/
  | repair (message repairKind : String)
  /-- a plain `ValueError` -/
  | value (message : String)
  deriving DecidableEq

def reject {α : Type} (message : String) : Except ArgsError α :=
  .error (.repair message "invalid_args")

/-! ### Counts of repairs -/

/-- Counts by kind, in the order of their first record. -/
abbrev Counts := List (String × Nat)

/-- `counts[kind] = counts.get(kind, 0) + n`. -/
def Counts.add : Counts → String → Nat → Counts
  | [], kind, n => [(kind, n)]
  | (k, m) :: rest, kind, n => if k = kind then (k, m + n) :: rest else (k, m) :: add rest kind n

def recordRepair (counts : Counts) (kind : String) : Counts := counts.add kind 1

structure ToolArgsRepairResult where
  args : Fields
  aliasRewriteCount : Nat := 0
  argRepairCounts : Counts := []
  deriving DecidableEq

/-! ### Paths -/

def pathArgKeys : List String := ["path", "cwd"]
def searchQueryKeys : List String := ["query", "pattern"]
def referencesSymbolKeys : List String := ["symbol", "name"]
def commandKeys : List String := ["command", "cmd"]
def editOldKeys : List String := ["old_string"]
def editNewKeys : List String := ["new_string"]

def rejectUnknownArgs (args : Fields) (allowedKeys : List String) (context : String) :
    Except ArgsError Unit :=
  require (args.all fun m => allowedKeys.contains m.1)
    (.repair (context ++ " contains unsupported fields") "invalid_args")

/-- `_DRIVE_PATH_RE` -/
def isDrivePath : List Char → Bool
  | letter :: colon :: _ => letter.isAlpha && decide (colon = ':')
  | _ => false

/-- Replace backslashes. -/
def forwardSlashes (cs : List Char) : List Char := cs.map fun ch => if ch = '\\' then '/' else ch

def segmentMove (segment : List Char) : Move (List Char) :=
  if segment = [] ∨ segment = ['.'] then .stay
  else if segment = ['.', '.'] then .up
  else .down segment

def pathMoves (cs : List Char) : List (Move (List Char)) := (cs.splitOn '/').map segmentMove

/-- `"/".join(stack) or "."` -/
def joinSegments (stack : List (List Char)) : List Char :=
  if stack = [] then ['.'] else ['/'].intercalate stack

def relativeTo : String := "paths must be relative to the project root: "

/-- Fold a project-relative path, and say whether that changed it. -/
def normalizePath : Json → Except ArgsError (String × Bool)
  | .str rawValue =>
    let raw := strip rawValue.toList
    if raw = [] then reject "path cannot be empty"
    else if isDrivePath raw then
      reject (relativeTo ++ "absolute drive paths are not allowed")
    else if ['/', '/'] <+: forwardSlashes raw then
      reject (relativeTo ++ "UNC paths are not allowed")
    else if ['/'] <+: forwardSlashes raw then
      reject (relativeTo ++ "absolute paths are not allowed")
    else
      match walk [] (pathMoves (forwardSlashes raw)) with
      | none =>
        reject (relativeTo ++ "parent directory traversal outside project root is not allowed")
      | some stack =>
        .ok (String.ofList (joinSegments stack),
          decide (String.ofList (joinSegments stack) ≠ rawValue))
  | _ => reject "path must be a string"

def pathRepairs (aliased changed : Bool) : Nat × Counts :=
  ((if aliased then 1 else 0) + (if changed then 1 else 0),
    (if aliased then [("path_alias", 1)] else []) ++
      (if changed then [("path_normalized", 1)] else []))

def conflict {α : Type} (semanticName : String) (present : Fields) : Except ArgsError α :=
  reject (s!"conflicting {semanticName} fields: " ++ ", ".intercalate (present.map (·.1)))

/-- The path of a call, from either of its names. -/
def resolvePathArg (args : Fields) (defaultPath missingMsg : Option String) :
    Except ArgsError (String × Nat × Counts) :=
  match args.restrict pathArgKeys with
  | [] =>
    match defaultPath with
    | some path => normalizePath (.str path) >>=
      fun (p, changed) => .ok (p, pathRepairs false changed)
    | none => reject (missingMsg.getD "path cannot be empty")
  | [(key, rawPath)] =>
    normalizePath rawPath >>= fun (p, changed) => .ok (p, pathRepairs (key = "cwd") changed)
  | present => conflict "path" present

/-! ### Texts and numbers -/

/-- A text from one of several names, with the name when it is not the first. -/
def requireTextArg (args : Fields) (keys : List String) (semanticName : String)
    (missingMsg : Option String := none) (allowBlank allowMissing : Bool := false) :
    Except ArgsError (String × Option String) :=
  match args.restrict keys with
  | [] =>
    if allowMissing then .ok ("", none)
    else reject (missingMsg.getD (semanticName ++ " requires a value"))
  | [(key, .str val)] =>
    if !allowBlank && (strip val.toList).isEmpty then
      reject (semanticName ++ " cannot be empty or whitespace")
    else .ok (val, if keys.head? = some key then none else some key)
  | [_] => reject (semanticName ++ " must be a string")
  | present => conflict semanticName present

/-- How many digits the language reads in a number. -/
def maxStrDigits : Nat := 4300

/-- The digits of a text that `isascii` and `isdigit` accept. -/
def asciiDigits (s : String) : Option (List Char) :=
  let digits := strip s.toList
  if digits ≠ [] ∧ digits.all Char.isDigit then some digits else none

/-- `int(digits)` -/
def readInt (digits : List Char) : Option Int :=
  if maxStrDigits < digits.length then none
  else some (digits.foldl (fun n ch => 10 * n + (ch.toNat - '0'.toNat)) 0 : Nat)

/-- An integer of at least `low`, or a text of digits; `invalid` names what it has to be, and
`overlong` is raised for a text with too many digits. -/
def boundedInt (low : Int) (invalid : String) (overlong : List Char → ArgsError) (value : Json)
    (name : String) (maximum : Option Int) : Except ArgsError (Int × Bool) :=
  let bounded (parsed : Int) (coerced : Bool) : Except ArgsError (Int × Bool) :=
    if parsed < low then reject (name ++ invalid)
    else if maximum.any (· < parsed) then
      reject (s!"{name} must be at most {maximum.getD 0}")
    else .ok (parsed, coerced)
  match value with
  | .int parsed => bounded parsed false
  | .str s =>
    match asciiDigits s with
    | none => reject (name ++ invalid)
    | some digits =>
      match readInt digits with
      | none => .error (overlong digits)
      | some parsed => bounded parsed true
  | _ => reject (name ++ invalid)

def boundedPositiveInt (value : Json) (name : String) (maximum : Option Int := none) :
    Except ArgsError (Int × Bool) :=
  boundedInt 1 " must be a positive integer"
    (fun _ => .repair (name ++ " must be a positive integer") "invalid_args") value name maximum

/-- Here the error of `int` is not caught. -/
def boundedNonnegativeInt (value : Json) (name : String) (maximum : Option Int := none) :
    Except ArgsError (Int × Bool) :=
  boundedInt 0 " must be a non-negative integer"
    (fun digits => .value (s!"Exceeds the limit ({maxStrDigits} digits) for integer string conversion: value has {digits.length} digits; use sys.set_int_max_str_digits() to increase the limit"))
    value name maximum

/-- An argument that may be missing. -/
def optionalArg {β : Type} (args : Fields) (key : String) (check : Json → Except ArgsError β) :
    Except ArgsError (Option β) :=
  match args.get? key with
  | none => .ok none
  | some value => check value >>= fun b => .ok (some b)

/-- Count a number that was sent as text. -/
def recordCoerced (repairs : Nat × Counts) : Option (Int × Bool) → Nat × Counts
  | some (_, true) => (repairs.1 + 1, recordRepair repairs.2 "numeric_coerced")
  | _ => repairs

def member (key : String) : Option Json → Fields
  | some value => [(key, value)]
  | none => []

def numberMember (key : String) (n : Option (Int × Bool)) : Fields :=
  member key (n.map fun n => .int n.1)

/-! ### Tools -/

/-- One replacement of an edit. -/
def normalizeReplacement : Json → Except ArgsError Json
  | .obj item => do
    if (Fields.get? item "path").isSome || (Fields.get? item "cwd").isSome then
      reject "edit replacements apply to the top-level path only; use separate edit calls for different files"
    else do
      rejectUnknownArgs item ["old_string", "new_string"] "edit replacement"
      let (old, _) ← requireTextArg item editOldKeys "old_string"
      let (new, _) ← requireTextArg item editNewKeys "new_string" none true
      .ok (.obj [("old_string", .str old), ("new_string", .str new)])
  | _ => reject "every edit replacement must be an object"

/-- The content of an edit, with the reference it was made against. -/
def normalizeContent (args : Fields) (content : Json) : Except ArgsError Fields :=
  match content with
  | .str text =>
    match args.get? "base_result_ref" with
    | some _ => do
      let (ref, _) ← requireTextArg args ["base_result_ref"] "base_result_ref"
      .ok [("content", .str text), ("base_result_ref", .str ref)]
    | none => .ok [("content", .str text)]
  | _ => reject "edit content must be a string"

/-- The replacements of an edit. -/
def normalizeReplacements (args : Fields) (limits : ToolArgLimits) : Except ArgsError Fields :=
  if (args.get? "base_result_ref").isSome then
    reject ("base_result_ref requires content mode. For replacements, remove the base_result_ref key " ++
      "and keep path and replacements; do not change only the reference value.")
  else
    match args.get? "replacements" with
    | some (.arr (item :: items)) =>
      if limits.maxReplacements < (item :: items).length then
        reject s!"edit supports at most {limits.maxReplacements} replacements"
      else do
        let normalized ← (item :: items).mapM normalizeReplacement
        .ok [("replacements", .arr normalized)]
    | _ => reject "edit replacements must be a non-empty list"

/-- What an edit does: it writes a whole content, or replaces parts of it. -/
def normalizeMode (args : Fields) (limits : ToolArgLimits) : Except ArgsError Fields :=
  if (args.get? "content").isSome = (args.get? "replacements").isSome then
    reject "edit requires exactly one mode: content or replacements"
  else
    match args.get? "content" with
    | some content => normalizeContent args content
    | none => normalizeReplacements args limits

def normalizeEdit (args : Fields) (limits : ToolArgLimits) :
    Except ArgsError ToolArgsRepairResult := do
  rejectUnknownArgs args ["path", "cwd", "content", "replacements", "base_result_ref"] "edit"
  let (path, rewrites, counts) ← resolvePathArg args none
    (some "edit requires a top-level path and can only edit one file")
  let mode ← normalizeMode args limits
  .ok ⟨("path", .str path) :: mode, rewrites, counts⟩

def normalizeRead (args : Fields) (limits : ToolArgLimits) :
    Except ArgsError ToolArgsRepairResult := do
  rejectUnknownArgs args ["path", "cwd", "offset", "limit"] "read"
  let (path, repairs) ← resolvePathArg args none (some "read requires a path")
  let offset ← optionalArg args "offset" (boundedPositiveInt · "offset")
  let limit ← optionalArg args "limit" (boundedPositiveInt · "limit" (some limits.readMaxLines))
  let (rewrites, counts) := recordCoerced (recordCoerced repairs offset) limit
  .ok ⟨("path", .str path) :: (numberMember "offset" offset ++ numberMember "limit" limit), rewrites,
    counts⟩

def normalizeLs (args : Fields) : Except ArgsError ToolArgsRepairResult := do
  rejectUnknownArgs args ["path", "cwd"] "list_dir"
  let (path, rewrites, counts) ← resolvePathArg args (some ".") none
  .ok ⟨[("path", .str path)], rewrites, counts⟩

def aliasRepairs (aliased : Option String) (kind : String) (path : Nat × Counts) : Nat × Counts :=
  match aliased with
  | some _ => (1 + path.1, path.2.foldl (fun counts (k, n) => counts.add k n) (recordRepair [] kind))
  | none => (path.1, path.2.foldl (fun counts (k, n) => counts.add k n) [])

/-- A tool with one text and a path. -/
def normalizeText (args : Fields) (keys : List String) (name missingMsg kind context : String) :
    Except ArgsError ToolArgsRepairResult := do
  rejectUnknownArgs args (keys ++ pathArgKeys) context
  let (text, aliased) ← requireTextArg args keys name (some missingMsg)
  let (path, repairs) ← resolvePathArg args (some ".") none
  let (rewrites, counts) := aliasRepairs aliased kind repairs
  .ok ⟨[(name, .str text), ("path", .str path)], rewrites, counts⟩

def normalizeReferences (args : Fields) : Except ArgsError ToolArgsRepairResult :=
  normalizeText args referencesSymbolKeys "symbol" "find_references requires a symbol"
    "references_field_alias" "find_references"

def normalizeRunShell (toolName : String) (args : Fields) : Except ArgsError ToolArgsRepairResult :=
  normalizeText args commandKeys "command" s!"{toolName} requires a command" "command_field_alias"
    toolName

def positiveGlob (s : String) : Bool :=
  decide (s.toList.head? ≠ some '!') && !s.toList.contains '\x00'

def checkBool (key : String) : Json → Except ArgsError Json
  | .bool b => .ok (.bool b)
  | _ => reject (key ++ " must be a boolean")

def checkInclude : Json → Except ArgsError Json
  | .str s => if positiveGlob s then .ok (.str s) else reject "include must be one positive glob string"
  | _ => reject "include must be one positive glob string"

def checkExclude : Json → Except ArgsError Json
  | .arr items =>
    if items.all fun item => item.str?.any fun s => s != "" && positiveGlob s then .ok (.arr items)
    else reject "exclude must be a list of positive glob strings"
  | _ => reject "exclude must be a list of positive glob strings"

def searchArgs : List String :=
  searchQueryKeys ++ pathArgKeys ++ ["offset", "limit", "literal", "case_sensitive", "include",
    "exclude", "before_context", "after_context"]

def normalizeSearch (args : Fields) : Except ArgsError ToolArgsRepairResult := do
  rejectUnknownArgs args searchArgs "grep"
  let (query, aliased) ← requireTextArg args searchQueryKeys "query" (some "grep requires a query")
  let (path, repairs) ← resolvePathArg args (some ".") none
  let literal ← optionalArg args "literal" (checkBool "literal")
  let caseSensitive ← optionalArg args "case_sensitive" (checkBool "case_sensitive")
  let included ← optionalArg args "include" checkInclude
  let excluded ← optionalArg args "exclude" checkExclude
  let before ← optionalArg args "before_context" (boundedNonnegativeInt · "before_context")
  let after ← optionalArg args "after_context" (boundedNonnegativeInt · "after_context")
  let offset ← optionalArg args "offset" (boundedPositiveInt · "offset")
  let limit ← optionalArg args "limit" (boundedPositiveInt · "limit" (some 100))
  let (rewrites, counts) :=
    [before, after, offset, limit].foldl recordCoerced
      (aliasRepairs aliased "search_field_alias" repairs)
  .ok ⟨("query", .str query) :: ("path", .str path) ::
    (member "literal" literal ++ member "case_sensitive" caseSensitive ++
      member "include" included ++ member "exclude" excluded ++
      numberMember "before_context" before ++ numberMember "after_context" after ++
      numberMember "offset" offset ++ numberMember "limit" limit), rewrites, counts⟩

/-- Normalize the arguments of a canonical runtime tool. -/
def normalizeTool (tool : String) (args : Fields) (limits : ToolArgLimits) :
    Except ArgsError ToolArgsRepairResult :=
  if tool = "edit" then normalizeEdit args limits
  else if tool = "read" then normalizeRead args limits
  else if tool = "ls" then normalizeLs args
  else if tool = "search" then normalizeSearch args
  else if tool = "references" then normalizeReferences args
  else if tool ∈ ["run", "shell"] then normalizeRunShell tool args
  else .error (.repair s!"unsupported runtime tool: {tool}" "unknown_tool")

/-- `tool_name.lower().strip()` -/
def runtimeTool (lower : String → String) (toolName : String) : String :=
  String.ofList (strip (lower toolName).toList)

def normalizeToolArgs (lower : String → String) (toolName : String) (args : Sent)
    (limits : ToolArgLimits := {}) : Except ArgsError ToolArgsRepairResult :=
  match decodeJsonObject defaultJsonLimits args with
  | .error message => reject message
  | .ok decoded => normalizeTool (runtimeTool lower toolName) decoded limits

end Toolchain

end Codey
