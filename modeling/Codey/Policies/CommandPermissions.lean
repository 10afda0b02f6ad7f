import Codey.Lib.Lists
import Codey.Policies.CmdNames

/-!
# Saved command grants

The store of exact-command grants: which requests a saved grant answers, over every sequence of
grants and revocations.
-/

namespace Codey

namespace Policies

/-- What a call finds around it: the file system, the spelling of paths, and the environment. -/
structure Surroundings where
  resolve : String → Except String String
  join : String → String → String
  normcase : String → String
  environ : String → Option String

/-- A request that waits for approval. -/
structure Pending where
  project : String
  cwd : String
  command : String
  sessionId : String
  shell : Json
  analysis : Json

/-- What a grant is for. -/
structure Identity where
  project : String
  cwd : String
  command : String
  executor : String
  environmentSha256 : String
  deriving DecidableEq

inductive GrantScope where
  | session
  | project
  deriving DecidableEq

def GrantScope.name : GrantScope → String
  | .session => "session"
  | .project => "project"

def GrantScope.ofName? (s : String) : Option GrantScope :=
  [GrantScope.session, .project].find? (·.name = s)

structure Grant where
  identity : Identity
  sessionId : String
  scope : GrantScope
  deriving DecidableEq

/-- A row of the file. -/
structure Rule where
  id : String
  grant : Grant
  named : id ≠ ""
  deriving DecidableEq

section Identity

variable (lib : Library) (around : Surroundings)

/-- `value or "."` -/
def orDot (s : String) : String := if s = "" then "." else s

/-- The variables that a command's meaning depends on. -/
def environmentKeys : List String := ["COMSPEC", "CONDA_PREFIX", "PATH", "PATHEXT", "VIRTUAL_ENV"]

def environmentSha256 : String :=
  lib.sha256 (lib.dumps (.obj (environmentKeys.map fun key =>
    (key, .str ((around.environ key).getD "")))))

/-- The interpreter and the parser, as a grant records them. -/
def executor (shell : ShellSpec) (parser : String) : String :=
  lib.dumps (.obj [("parser", .str parser), ("shell", shell.toPayload)])

def commandIdentity (pending : Pending) (shell : ShellSpec) (analysis : ShellAnalysis) :
    Except String Identity := do
  let project ← around.resolve (orDot pending.project)
  let cwd ← around.resolve (around.join project (orDot pending.cwd))
  pure {
    project := around.normcase project
    cwd := around.normcase cwd
    command := pending.command
    executor := executor lib shell analysis.parser
    environmentSha256 := environmentSha256 lib around }

def requestAnalysis (pending : Pending) : Except String (ShellSpec × ShellAnalysis) := do
  let shell ← ShellSpec.fromPayload lib pending.shell
  let analysis ← boundAnalysis lib pending.command shell pending.analysis
  pure (shell, analysis)

def sessionRuleAvailable (command : String) (shell : ShellSpec) (analysis : ShellAnalysis) : Bool :=
  shell.startup = .noninteractive && analysis.reusable && analysis.matches lib command shell &&
    analysis.parser = parserIdentity shell

/-- The command families that a project grant is offered for. -/
def projectFamily (pathName : String → String) (argv : List String) : Bool :=
  match argv with
  | executable :: first :: rest =>
    let executable := withoutExe (lib.lower (pathName executable))
    (executable = "git" && ["status", "diff", "log", "show"].contains first) ||
    (["python", "py"].contains executable && first = "-m" &&
      (rest.head? = some "unittest" || rest.head? = some "pytest")) ||
    (["npm", "pnpm", "cargo", "go"].contains executable && ["test", "check"].contains first)
  | _ => false

/-- `project_rule_available`. `pathName` is the last part of a path. -/
def projectRuleAvailable (pathName : String → String) (command : String) (shell : ShellSpec)
    (analysis : ShellAnalysis) : Bool :=
  sessionRuleAvailable lib command shell analysis &&
    analysis.simpleArgv.any (projectFamily lib pathName)

end Identity

/-! ### The file -/

section File

/-- The members of a row. -/
def ruleKeys : List String :=
  ["id", "project", "cwd", "command", "executor", "environment_sha256", "session_id", "scope"]

def Rule.toPayload (rule : Rule) : Json := .obj [
  ("id", .str rule.id),
  ("project", .str rule.grant.identity.project),
  ("cwd", .str rule.grant.identity.cwd),
  ("command", .str rule.grant.identity.command),
  ("executor", .str rule.grant.identity.executor),
  ("environment_sha256", .str rule.grant.identity.environmentSha256),
  ("session_id", .str rule.grant.sessionId),
  ("scope", .str rule.grant.scope.name)]

def Rule.fromPayload (value : Json) : Except String Rule := do
  let invalid := "Invalid saved command permission"
  let row ← object value ruleKeys invalid
  let id ← textOf row "id" invalid
  let project ← textOf row "project" invalid
  let cwd ← textOf row "cwd" invalid
  let command ← textOf row "command" invalid
  let executor ← textOf row "executor" invalid
  let environmentSha256 ← textOf row "environment_sha256" invalid
  let sessionId ← textOf row "session_id" invalid
  let scope ← textOf row "scope" invalid
  let scope ← ShellSpec.named (GrantScope.ofName? scope) invalid
  if named : id ≠ "" then
    let identity : Identity := {
      project := project
      cwd := cwd
      command := command
      executor := executor
      environmentSha256 := environmentSha256 }
    pure {
      id := id
      grant := { identity := identity, sessionId := sessionId, scope := scope }
      named := named }
  else .error invalid

/-- `_read`. There is no file at first. -/
def readRules (file : Option Json) : Except String (List Rule) :=
  match file with
  | none => .ok []
  | some (.obj payload) =>
    match (member payload "version").pyEq (.int 1), member payload "rules" with
    | true, .arr rows => rows.mapM Rule.fromPayload
    | _, _ => .error "Invalid saved command permissions"
  | some _ => .error "Invalid saved command permissions"

/-- `_write`. -/
def writeRules (rows : List Rule) : Json :=
  .obj [("version", .int 1), ("rules", .arr (rows.map Rule.toPayload))]

@[simp] lemma GrantScope.ofName?_name (scope : GrantScope) :
    GrantScope.ofName? scope.name = some scope := by
  cases scope <;> decide

/-- The texts of a row are read as they were written, and its scope is that of its name. -/
lemma Rule.fromPayload_toPayload (rule : Rule) : Rule.fromPayload rule.toPayload = .ok rule := by
  have hread : Rule.fromPayload rule.toPayload =
      (ShellSpec.named (GrantScope.ofName? rule.grant.scope.name)
        "Invalid saved command permission" >>= fun scope =>
          if named : rule.id ≠ "" then
            .ok { rule with grant := { rule.grant with scope := scope } }
          else .error "Invalid saved command permission") := rfl
  rw [hread, GrantScope.ofName?_name]
  exact dif_pos rule.named

@[simp] lemma readRules_writeRules (rows : List Rule) :
    readRules (some (writeRules rows)) = .ok rows := by
  have hrows : (rows.map Rule.toPayload).mapM Rule.fromPayload = .ok rows := by
    rw [List.mapM_map]
    exact (mapM_eq_ok fun rule _ => Rule.fromPayload_toPayload rule).trans
      (congrArg Except.ok (List.map_id rows))
  simpa [readRules, writeRules, member, Json.pyEq, Json.number?] using hrows

end File

/-! ### The store -/

section Store

variable (lib : Library) (around : Surroundings)

/-- Whether a row is listed. -/
def listed (sessionId project : String) (allScopes : Bool) (row : Rule) : Except String Bool :=
  if allScopes || (row.grant.scope = .session && row.grant.sessionId = sessionId) then .ok true
  else if project ≠ "" && row.grant.scope = .project then do
    let resolved ← around.resolve project
    pure (row.grant.identity.project = around.normcase resolved)
  else .ok false

def listRules (file : Option Json) (sessionId : String) (project : String := "")
    (allScopes : Bool := false) : Except String (List Rule) := do
  let rows ← readRules file
  filterE (listed around sessionId project allScopes) rows

def grantable (pending : Pending) : Except String (Option Identity) := do
  let request ← requestAnalysis lib pending
  if sessionRuleAvailable lib pending.command request.1 request.2 then
    (commandIdentity lib around pending request.1 request.2).map some
  else pure none

def matching (pending : Pending) (file : Option Json) : Except String (Option Rule) :=
  match grantable lib around pending with
  | .ok (some identity) => do
    let rows ← listRules around file pending.sessionId identity.project
    pure (rows.find? (·.grant.identity = identity))
  | _ => pure none

def grantOf (pending : Pending) (scope : GrantScope) (identity : Identity) : Grant where
  identity := identity
  sessionId := if scope = .session then pending.sessionId else ""
  scope := scope

/-- The grant of a request that may be remembered. -/
def rememberable (pathName : String → String) (pending : Pending) (scope : String) :
    Except String Grant := do
  let scope ← ShellSpec.named (GrantScope.ofName? scope) "Invalid command permission scope"
  let request ← requestAnalysis lib pending
  require (sessionRuleAvailable lib pending.command request.1 request.2)
    "This command requires one-time approval"
  require (scope ≠ .project ||
      projectRuleAvailable lib pathName pending.command request.1 request.2)
    "This command supports one-time or exact session approval only"
  let identity ← commandIdentity lib around pending request.1 request.2
  pure (grantOf pending scope identity)

/-- `remember`. A new row takes the fresh `id`, unless its grant is there already. -/
def remember (pathName : String → String) (pending : Pending) (scope id : String) (hid : id ≠ "")
    (file : Option Json) : Except String (Option Json) := do
  let grant ← rememberable lib around pathName pending scope
  let rows ← readRules file
  pure (if rows.any (·.grant = grant) then file
    else some (writeRules (rows ++ [{ id := id, grant := grant, named := hid }])))

def revoke (id : String) (file : Option Json) : Except String (Option Json) := do
  let rows ← readRules file
  pure (some (writeRules (rows.filter (·.id ≠ id))))

end Store

end Policies

end Codey
