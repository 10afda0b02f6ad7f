import Codey.Lib.Lists
import Codey.Lib.Table
import Codey.Lib.Text
import Mathlib.Algebra.Order.Ring.Rat
import Mathlib.Data.String.Basic

/-!
# Provider health

The health of providers as it stands in one file: what a success and a failure make of it, how an
open circuit cools down, how a state is published, and which provider is selected. The supervisors
that share the file hold its lock from the reading to the writing, so that each operation is one
step on the file.
-/

namespace Codey

namespace Supervisor

def maxHealthBytes : Nat := 64 * 1024
def maxProviders : Nat := 16
def structuralThreshold : Nat := 2
def transientThreshold : Nat := 3
def structuralCooldown : Rat := 300
def transientCooldown : Rat := 90
def rateLimitCooldown : Rat := 300

def failureTransient : String := "transient"
def failureRateLimited : String := "rate_limited"
def structuralFailures : List String := ["control_missing", "response_missing", "readiness_stale"]
def authFailures : List String := ["authentication_required", "challenge_required"]

inductive State where
  | unknown
  | healthy
  | degraded
  | opened
  | authRequired
  deriving DecidableEq

/-- `ProviderHealth` -/
structure Health where
  state : State := .unknown
  consecutiveFailures : Nat := 0
  lastFailureKind : String := ""
  lastSuccessAt : Rat := 0
  lastFailureAt : Rat := 0
  circuitOpenUntil : Rat := 0
  successCount : Nat := 0
  failureCount : Nat := 0
  deriving DecidableEq

structure Row where
  id : String
  health : Health
  deriving DecidableEq

/-- The health of the providers by their ids. -/
abbrev Snapshot := Table Row.id

/-- The host: lower case and letters, and the length of an encoded file. -/
structure Host where
  lower : List Char → List Char
  isAlnum : Char → Bool
  fileBytes : List Row → Nat
  lower_lower : ∀ cs, lower (lower cs) = lower cs
  blank_of_isAlnum : ∀ ch, isAlnum ch = true → blank ch = false

/-- What goes wrong in one operation. A `sync` fails behind the replacement of the file. -/
inductive Fault where
  | none
  | lock
  | read
  | write
  | sync
  deriving DecidableEq

/-- `HealthStoreError` -/
inductive Error where
  | lockUnavailable
  | unreadable
  | full
  | unwritable
  deriving DecidableEq

/-! ### Identifiers -/

def normalizeProviderId (h : Host) (value : String) : String :=
  let text := h.lower (strip value.toList)
  let letters := text.filter fun ch => ch ≠ '-' && ch ≠ '_'
  if letters ≠ [] ∧ letters.all h.isAlnum then String.ofList text else ""

/-! ### Events -/

def expireOpen (health : Health) (now : Rat) : Option Health :=
  if health.state = .opened ∧ health.circuitOpenUntil ≤ now then
    some { health with state := .degraded, circuitOpenUntil := 0 }
  else none

/-- A health with its circuit cooled down when it is time. -/
def settle (health : Health) (now : Rat) : Health := (expireOpen health now).getD health

def applySuccess (current : Health) (canary : Bool) (now : Rat) : Health := { current with
  state := if canary then .degraded else .healthy
  consecutiveFailures := 0
  lastFailureKind := ""
  lastSuccessAt := now
  circuitOpenUntil := 0
  successCount := current.successCount + 1 }

def failureFamily (kind : String) : String :=
  if kind ∈ structuralFailures then "structural"
  else if kind ∈ authFailures then "auth"
  else kind

def failureRun (current : Health) (kind : String) : Nat :=
  if failureFamily current.lastFailureKind = failureFamily kind then current.consecutiveFailures + 1
  else 1

def applyFailure (current : Health) (kind : String) (now : Rat) : Health :=
  let count := failureRun current kind
  let (state, openUntil) : State × Rat :=
    if kind ∈ authFailures then (.authRequired, 0)
    else if kind = failureRateLimited then (.opened, now + rateLimitCooldown)
    else if kind ∈ structuralFailures ∧ structuralThreshold ≤ count then
      (.opened, now + structuralCooldown)
    else if kind = failureTransient ∧ transientThreshold ≤ count then
      (.opened, now + transientCooldown)
    else (.degraded, 0)
  { current with
    state := state
    consecutiveFailures := count
    lastFailureKind := kind
    lastFailureAt := now
    circuitOpenUntil := openUntil
    failureCount := current.failureCount + 1 }

def applyCanaryFailure (current : Health) (kind : String) (now : Rat) : Health :=
  let updated := applyFailure current kind now
  if updated.state = .opened ∨ updated.state = .authRequired then updated
  else { updated with
    state := .opened
    circuitOpenUntil :=
      now + if kind ∈ structuralFailures then structuralCooldown else transientCooldown }

/-- `_allow` of `prepare_user_selected` -/
def allow (current : Health) : Health :=
  if current.state ≠ .authRequired then current
  else { current with state := .degraded, circuitOpenUntil := 0 }

/-! ### The file -/

def readHealth (health : Health) : Health := { health with
  lastFailureKind := String.ofList (health.lastFailureKind.toList.take 40)
  lastSuccessAt := max 0 health.lastSuccessAt
  lastFailureAt := max 0 health.lastFailureAt
  circuitOpenUntil := max 0 health.circuitOpenUntil }

/-- `_load`, of a file that can be read -/
def load (h : Host) (file : List Row) : Snapshot :=
  Table.ofRows ((file.map fun row => ⟨normalizeProviderId h row.id, readHealth row.health⟩).filter
    (·.id ≠ ""))

def lookup (d : Snapshot) (id : String) : Health := ((d.get? id).map (·.health)).getD {}

def reads (h : Host) (file : List Row) (id : String) : Health := lookup (load h file) id

/-- The records of a snapshot in the order of the file. -/
def rowsOf (d : Snapshot) : List Row := sortByKey (·.id) d.rows

def writeSnapshot {α : Type} (h : Host) (fault : Fault) (file : List Row) (d : Snapshot)
    (result : α) : List Row × Except Error α :=
  if maxProviders < d.rows.length then (file, .error .full)
  else if maxHealthBytes < h.fileBytes (rowsOf d) then (file, .error .unwritable)
  else if fault = .write then (file, .error .unwritable)
  else if fault = .sync then (rowsOf d, .error .unwritable)
  else (rowsOf d, .ok result)

def exclusive {α : Type} (h : Host) (fault : Fault) (file : List Row)
    (body : Snapshot → List Row × Except Error α) : List Row × Except Error α :=
  if fault = .lock then (file, .error .lockUnavailable)
  else if fault = .read then (file, .error .unreadable)
  else body (load h file)

/-- `_update`; `get` is an update that changes nothing but what has expired. -/
def update (h : Host) (fault : Fault) (now : Rat) (file : List Row) (providerId : String)
    (mutate : Health → Health) : List Row × Except Error Health :=
  exclusive h fault file fun disk =>
    let key := normalizeProviderId h providerId
    let original := lookup disk key
    let updated := mutate (settle original now)
    if updated = original then (file, .ok original)
    else writeSnapshot h fault file (disk.put ⟨key, updated⟩) updated

/-- Whether a provider can be selected. -/
def State.available (state : State) : Bool := state ≠ .opened && state ≠ .authRequired

/-- The loop of `select` over the candidates. -/
def firstAvailable (snapshot : Snapshot) (blocked : List String) :
    List String → List String → Option String
  | [], _ => none
  | id :: ids, seen =>
    if id = "" ∨ id ∈ seen ∨ id ∈ blocked then firstAvailable snapshot blocked ids seen
    else if (lookup snapshot id).state.available then some id
    else firstAvailable snapshot blocked ids (id :: seen)

/-- The records whose circuit has cooled down. -/
def expired (d : Snapshot) (now : Rat) : List Row :=
  d.rows.filterMap fun row => (expireOpen row.health now).map fun health => ⟨row.id, health⟩

def select (h : Host) (fault : Fault) (now : Rat) (file : List Row) (preferred : String)
    (providerIds excluded : List String) : List Row × Except Error (Option String) :=
  exclusive h fault file fun disk =>
    let next := (expired disk now).foldl Table.put disk
    let result := firstAvailable next (excluded.map (normalizeProviderId h))
      ((preferred :: providerIds).map (normalizeProviderId h)) []
    if expired disk now = [] then (file, .ok result)
    else writeSnapshot h fault file next result

end Supervisor

end Codey
