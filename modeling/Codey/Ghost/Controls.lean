import Codey.Ghost.Scopes
import Codey.Lib.Check
import Codey.Lib.Json
import Codey.Lib.Steps

/-!
# Privacy switches

The switches of the user, of each project and of each session live in one settings document. Every
writer rewrites the document as a whole.
-/

namespace Codey

namespace Ghost

/-! ### The settings document -/

/-- `GHOST_CONTROL_NAMES` -/
inductive Control where
  | acceptEvents | retrieveProjections | runMaintenance | admitHints
deriving DecidableEq, Repr

def Control.all : List Control := [.acceptEvents, .retrieveProjections, .runMaintenance, .admitHints]

lemma Control.mem_all (control : Control) : control ∈ Control.all := by cases control <;> decide

def Control.name : Control → String
  | .acceptEvents => "accept_events"
  | .retrieveProjections => "retrieve_projections"
  | .runMaintenance => "run_maintenance"
  | .admitHints => "admit_hints"

@[simp] lemma Control.name_inj {a b : Control} : a.name = b.name ↔ a = b := by
  cases a <;> cases b <;> decide

structure GhostSettingsError where
  reason : String
deriving DecidableEq, Repr

def isBool : Json → Bool
  | .bool _ => true
  | _ => false

def members (value : Json) (reason : String) : Except GhostSettingsError Fields :=
  match value with
  | .obj fields => .ok fields
  | _ => .error ⟨reason⟩

/-- The document read when there is none. -/
def defaultSettings : Fields := [("learning_enabled", .bool true), ("schema_version", .int 1)]

/-- `settings.get("control_scopes", {})` -/
def controlScopes (settings : Fields) : Except GhostSettingsError Fields :=
  members ((settings.get? "control_scopes").getD (.obj [])) "control_scopes must be object"

/-- `scopes.get(scope, {})` -/
def scopeControls (scopes : Fields) (scope : Scope) : Except GhostSettingsError Fields :=
  members ((scopes.get? scope.name).getD (.obj [])) (scope.name ++ " controls must be object")

/-- The checks of `_read_settings_unlocked`. -/
def checkSettings (payload : Fields) : Except GhostSettingsError Unit := do
  let enabled := (payload.get? "learning_enabled").getD .null
  require (isBool enabled) ⟨"learning_enabled must be bool"⟩
  require (payload.get? "schema_version" = some (.int 1)) ⟨"schema mismatch"⟩
  checkAll Control.all fun c =>
    require (isBool ((payload.get? c.name).getD enabled)) ⟨c.name ++ " must be bool"⟩
  let scopes ← controlScopes payload
  checkAll Scope.all fun scope => (scopeControls scopes scope).map fun _ => ()

/-- `_read_settings_unlocked` -/
def readSettings (row : Option Json) : Except GhostSettingsError Fields := do
  let payload ← members (row.getD (.obj defaultSettings)) "learning_enabled must be bool"
  checkSettings payload
  return payload

/-! ### Effective controls -/

/-- `apply` of `_effective_controls_unlocked` -/
def applyBucket (values : Control → Bool) (bucket : Json) :
    Except GhostSettingsError (Control → Bool) :=
  match bucket with
  | .null => .ok values
  | bucket => do
    let fields ← members bucket "control scope bucket must be object"
    checkAll Control.all fun c =>
      require (isBool ((fields.get? c.name).getD (.bool true)) || fields.get? c.name = some .null)
        ⟨c.name ++ " must be bool"⟩
    return fun c => values c && ((fields.get? c.name).getD (.bool true) != .bool false)

/-- The bucket of one project or session is applied, when the access names one. -/
def applyReference (scopes : Fields) (scope : Scope) (ref : String) (values : Control → Bool) :
    Except GhostSettingsError (Control → Bool) :=
  if ref = "" then .ok values
  else do
    let entries ← scopeControls scopes scope
    applyBucket values ((entries.get? ref).getD (.obj []))

/-- `_effective_controls_unlocked`, for references that have been normalised -/
def effectiveControls (settings : Fields) (projectRef sessionRef : String) :
    Except GhostSettingsError (Control → Bool) := do
  let fallback := (settings.get? "learning_enabled").getD .null
  require (isBool fallback) ⟨"learning_enabled must be bool"⟩
  let scopes ← controlScopes settings
  let values ← applyBucket (fun c => ((settings.get? c.name).getD fallback).truthy)
    ((scopes.get? Scope.user.name).getD (.obj []))
  let values ← applyReference scopes .project projectRef values
  applyReference scopes .session sessionRef values

/-- `control_enabled`, for references that have been normalised -/
def enabledAt (row : Option Json) (control : Control) (projectRef sessionRef : String) :
    Except GhostSettingsError Bool := do
  let settings ← readSettings row
  let values ← effectiveControls settings projectRef sessionRef
  return values control

def controlEnabled (host : Host) (row : Option Json) (control : Control)
    (project session : String) : Except GhostSettingsError Bool :=
  enabledAt row control (normalizeProject host project) (sessionRef session)

/-! ### Writers -/

/-- The bucket of a scope with one control set; only a project or a session has entries. -/
def setBucket (bucket : Fields) (control : Control) (enabled : Bool) (scope : Scope)
    (ref : String) : Except GhostSettingsError Fields :=
  match scope with
  | .user => .ok (bucket.set control.name (.bool enabled))
  | .project | .session => do
    let entry ← members ((bucket.get? ref).getD (.obj [])) "control scope entry must be object"
    return bucket.set ref (.obj (entry.set control.name (.bool enabled)))

/-- The members of the user's own controls beside `control_scopes`. -/
def setUserMembers (current : Fields) (control : Control) (enabled : Bool) : Fields :=
  let current := current.set control.name (.bool enabled)
  if control = .acceptEvents then current.set "learning_enabled" (.bool enabled) else current

/-- The document that `set_control` writes. -/
def setControl (row : Option Json) (control : Control) (enabled : Bool) (scope : Scope)
    (ref now : String) : Except GhostSettingsError Json := do
  let current ← readSettings row
  let scopes ← controlScopes current
  let bucket ← scopeControls scopes scope
  let bucket ← setBucket bucket control enabled scope ref
  let current := current.set "control_scopes" (.obj (scopes.set scope.name (.obj bucket)))
  let current := if scope = .user then setUserMembers current control enabled else current
  return .obj ((current.set "schema_version" (.int 1)).set "updated_at" (.str now))

/-- The `control_scopes` of the row; a row that cannot be used counts as empty. -/
def storedScopes (row : Option Json) : Fields :=
  match row with
  | some (.obj existing) =>
    match Fields.get? existing "control_scopes" with
    | some (.obj scopes) => scopes
    | _ => []
  | _ => []

/-- What the first transaction of `set_learning_enabled` reads. -/
def readScopes (row : Option Json) : Fields :=
  (storedScopes row).restrict [Scope.project.name, Scope.session.name]

/-- The document that the second transaction of `set_learning_enabled` writes. -/
def learningSettings (scopes : Fields) (enabled : Bool) (now : String) : Json :=
  .obj [
    ("accept_events", .bool enabled),
    ("admit_hints", .bool enabled),
    ("control_scopes", .obj (scopes.set Scope.user.name (.obj [
      ("accept_events", .bool enabled), ("admit_hints", .bool enabled),
      ("retrieve_projections", .bool enabled), ("run_maintenance", .bool enabled)]))),
    ("learning_enabled", .bool enabled),
    ("retrieve_projections", .bool enabled),
    ("run_maintenance", .bool enabled),
    ("schema_version", .int 1),
    ("updated_at", .str now)]

/-- `settings.get(name) is not True` -/
def notTrue (settings : Fields) (name : String) : Bool := settings.get? name ≠ some (.bool true)

def resetUserMembers (settings : Fields) : Fields :=
  Control.all.foldl (fun fields c => fields.set c.name (.bool true))
    (settings.set "learning_enabled" (.bool true))

/-- Whether a scope has anything to delete. -/
def hasControls (settings bucket : Fields) (scope : Scope) (ref : String) : Bool :=
  match scope with
  | .user => !bucket.isEmpty || Control.all.any (fun c => notTrue settings c.name) ||
      notTrue settings "learning_enabled"
  | .project | .session => (bucket.get? ref).isSome

def dropBucket (bucket : Fields) (scope : Scope) (ref : String) : Fields :=
  match scope with
  | .user => []
  | .project | .session => bucket.pop ref

/-- The document that `_delete_control_scope_unlocked` writes, if it writes one. -/
def deleteControlScope (row : Option Json) (scope : Scope) (ref now : String) :
    Except GhostSettingsError (Option Json) := do
  let settings ← readSettings row
  let scopes ← controlScopes settings
  let bucket ← scopeControls scopes scope
  if hasControls settings bucket scope ref then
    let reset := if scope = .user then resetUserMembers settings else settings
    let scopes := scopes.set scope.name (.obj (dropBucket bucket scope ref))
    return some (.obj ((reset.set "control_scopes" (.obj scopes)).set "updated_at" (.str now)))
  else return none

/-! ### What the writers write -/

variable {row : Option Json} {settings scopes fields : Fields} {scope : Scope}

@[simp] lemma members_eq_ok {value : Json} {reason : String} :
    members value reason = .ok fields ↔ value = .obj fields := by
  cases value <;> simp [members]

lemma checkSettings_eq_ok {u : Unit} :
    checkSettings settings = .ok u ↔
      isBool ((settings.get? "learning_enabled").getD .null) = true ∧
        settings.get? "schema_version" = some (.int 1) ∧
        (∀ c : Control, isBool ((settings.get? c.name).getD
          ((settings.get? "learning_enabled").getD .null)) = true) ∧
        ∃ scopes, controlScopes settings = .ok scopes ∧
          ∀ scope, ∃ bucket, scopeControls scopes scope = .ok bucket := by
  have hscopes : ∀ scopes : Fields,
      (checkAll Scope.all fun scope => (scopeControls scopes scope).map fun _ => ()) = .ok u ↔
        ∀ scope, ∃ bucket, scopeControls scopes scope = .ok bucket := by
    intro scopes
    rw [checkAll_eq_ok]
    constructor
    · intro h scope
      specialize h scope scope.mem_all
      cases hb : scopeControls scopes scope with
      | error e => simp [hb, Except.map] at h
      | ok bucket => exact ⟨bucket, rfl⟩
    · intro h scope _
      obtain ⟨bucket, hb⟩ := h scope
      simp [hb, Except.map]
  simp only [checkSettings, except_bind_eq_ok, require_eq_ok, checkAll_eq_ok, decide_eq_true_eq,
    hscopes]
  constructor
  · rintro ⟨-, hbool, -, hschema, -, hcontrols, scopes, hscopes, hbuckets⟩
    exact ⟨hbool, hschema, fun c => hcontrols c c.mem_all, scopes, hscopes, hbuckets⟩
  · rintro ⟨hbool, hschema, hcontrols, scopes, hscopes, hbuckets⟩
    exact ⟨(), hbool, (), hschema, (), fun c _ => hcontrols c, scopes, hscopes, hbuckets⟩

lemma readSettings_eq_ok :
    readSettings row = .ok settings ↔
      row.getD (.obj defaultSettings) = .obj settings ∧ checkSettings settings = .ok () := by
  simp only [readSettings, except_bind_eq_ok, members_eq_ok]
  constructor
  · rintro ⟨payload, hrow, u, hcheck, hpure⟩
    obtain rfl := Except.ok.inj hpure
    exact ⟨hrow, hcheck⟩
  · rintro ⟨hrow, hcheck⟩
    exact ⟨settings, hrow, (), hcheck, rfl⟩

/-- The scopes of a document that has been read are those that the row stores. -/
lemma storedScopes_of_read (hread : readSettings row = .ok settings)
    (hscopes : controlScopes settings = .ok scopes) : storedScopes row = scopes := by
  rw [controlScopes, members_eq_ok] at hscopes
  cases row with
  | none =>
    obtain ⟨hrow, -⟩ := readSettings_eq_ok.mp hread
    obtain rfl : defaultSettings = settings := by simpa using hrow
    simpa [defaultSettings, storedScopes, eq_comm] using hscopes
  | some value =>
    obtain ⟨hrow, -⟩ := readSettings_eq_ok.mp hread
    obtain rfl : value = .obj settings := hrow
    cases hget : settings.get? "control_scopes" with
    | none => simpa [storedScopes, hget] using hscopes
    | some member =>
      obtain rfl : member = .obj scopes := by simpa [hget] using hscopes
      simp [storedScopes, hget]

end Ghost

end Codey
