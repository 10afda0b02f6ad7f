import Mathlib.Algebra.Order.Ring.Rat
import Mathlib.Logic.Function.Basic

/-!
# Admission of provider requests

The coordinator that all requests of one scope share: leases, waiters, cooldowns and probe claims,
and the policy that an attempt loop asks. Instants and delays are rationals. How a text is put in
lower case is left open (`lower`): only its values are compared.
-/

namespace Codey

namespace Zen

/-! ### Failures and their classification -/

/-- A complete HTTP failure response. -/
structure GenerationRejectedError where
  status : Int
  detail : String := ""
  retryAfter : Option ℚ := none
  errorType : String := ""
  errorCode : String := ""
  serviceMessage : String := ""
  deriving DecidableEq

/-- What an attempt may raise. -/
inductive Failure where
  | rejected (error : GenerationRejectedError)
  | notSent (reasonCode message : String)
  | other (message : String)
  deriving DecidableEq

inductive RejectionKind where
  | transient
  | quota
  | eligibility
  | unknown
  deriving DecidableEq

def RejectionKind.text : RejectionKind → String
  | .transient => "transient"
  | .quota => "quota"
  | .eligibility => "eligibility"
  | .unknown => "unknown"

inductive RejectionScope where
  | model
  | identity
  | session
  | unknown
  deriving DecidableEq

structure ZenRejection where
  kind : RejectionKind
  scope : RejectionScope
  retryable : Bool
  notBefore : Option ℚ := none
  deriving DecidableEq

/-- `value or default` of a delay. -/
def delayOr (delay : Option ℚ) (default : ℚ) : ℚ :=
  match delay with
  | none => default
  | some d => if d = 0 then default else d

def endpointUnavailable : String := "Upstream request failed: Endpoint is unavailable."

def classifyRejection (lower : String → String) (now : ℚ) (error : GenerationRejectedError) :
    ZenRejection :=
  let kind := lower error.errorType
  let code := lower error.errorCode
  if kind ∈ ["freeusagelimiterror", "blackusagelimiterror", "gousagelimiterror"] then
    { kind := .quota, scope := .identity, retryable := false }
  else if code ∈ ["quota_exceeded", "daily_limit", "free_tier_limit", "monthly_limit"] then
    { kind := .quota, scope := .identity, retryable := false }
  else if kind ∈ ["autherror", "creditserror", "monthlylimiterror", "userlimiterror", "modelerror",
      "regionerror", "datapolicyerror"] ∨ error.status ∈ [401, 403] then
    { kind := .eligibility, scope := .identity, retryable := false }
  else if error.status = 429 ∧ kind ∈ ["ratelimiterror", "rate_limit"] ∧
      code ∈ ["", "rate_limit", "too_many_requests"] then
    { kind := .transient, scope := .model, retryable := true,
      notBefore := some (now + delayOr error.retryAfter (1 / 4)) }
  else if error.status = 429 ∧ kind = "server_error" ∧ code = "" ∧
      error.serviceMessage = endpointUnavailable then
    { kind := .transient, scope := .model, retryable := true,
      notBefore := some (now + delayOr error.retryAfter 2) }
  else { kind := .unknown, scope := .unknown, retryable := false }

/-! ### The coordinator -/

structure ControlScope where
  baseUrl : String
  authIdentity : String
  agreementRevision : String
  deriving DecidableEq

/-- What cooldowns and probes are kept by: a scope and a model. -/
abbrev ControlKey := ControlScope × String

structure Cooldown where
  notBefore : ℚ
  version : Nat
  reason : String
  deriving DecidableEq

/-- A probe claim: the registration token of its request and the version of the cooldown. -/
structure ProbeClaim where
  token : Nat
  version : Nat
  deriving DecidableEq

structure ZenRequestCoordinator where
  maxInflight : Nat := 3
  maxPending : Nat := 8
  pending : List Nat := []
  inflight : Nat := 0
  cooldowns : ControlKey → Option Cooldown := fun _ => none
  probes : ControlKey → Option ProbeClaim := fun _ => none
  nextId : Nat := 0
  waiterSeq : Nat := 0
  waiters : List Nat := []
  waiterMeta : Nat → Option ControlKey := fun _ => none

namespace ZenRequestCoordinator

def register (c : ZenRequestCoordinator) : Option (Nat × ZenRequestCoordinator) :=
  if c.maxPending ≤ c.pending.length then none
  else some (c.nextId + 1,
    { c with nextId := c.nextId + 1, pending := c.pending ++ [c.nextId + 1] })

def remove (c : ZenRequestCoordinator) (ident : Nat) : ZenRequestCoordinator :=
  { c with
    pending := c.pending.filter (· ≠ ident)
    probes := fun key => (c.probes key).filter (·.token ≠ ident) }

/-- Line up for a lease. -/
def enqueue (c : ZenRequestCoordinator) (key : ControlKey) : Nat × ZenRequestCoordinator :=
  (c.waiterSeq + 1,
    { c with
      waiterSeq := c.waiterSeq + 1
      waiters := c.waiters ++ [c.waiterSeq + 1]
      waiterMeta := Function.update c.waiterMeta (c.waiterSeq + 1) (some key) })

/-- Leave the line. -/
def dequeue (c : ZenRequestCoordinator) (ticket : Nat) : ZenRequestCoordinator :=
  { c with
    waiters := c.waiters.erase ticket
    waiterMeta := Function.update c.waiterMeta ticket none }

def blockedUntil (c : ZenRequestCoordinator) (key : ControlKey) : ℚ :=
  match c.cooldowns key with
  | some cooldown => cooldown.notBefore
  | none => 0

def probeBlocked (c : ZenRequestCoordinator) (now : ℚ) (key : ControlKey) : Bool :=
  (c.cooldowns key).isSome && decide (c.blockedUntil key ≤ now) && (c.probes key).isSome

/-- The first waiter whose key is neither cooling down nor being probed. -/
def eligible (c : ZenRequestCoordinator) (now : ℚ) : Option Nat :=
  if c.inflight < c.maxInflight then
    c.waiters.find? fun queued =>
      match c.waiterMeta queued with
      | none => false
      | some key => decide (c.blockedUntil key ≤ now) && !c.probeBlocked now key
  else none

/-- What one round of the wait in `acquire` comes to. -/
inductive Admission where
  | raised (failure : Failure)
  | granted (receipt : Option ProbeClaim)
  | waiting
  deriving DecidableEq

/-- The claims after a grant: a request that is let through a cooldown probes it. -/
def probesGranted (c : ZenRequestCoordinator) (token : Nat) (key : ControlKey) :
    ControlKey → Option ProbeClaim :=
  match c.cooldowns key with
  | some cooldown => Function.update c.probes key (some ⟨token, cooldown.version⟩)
  | none => c.probes

def grant (c : ZenRequestCoordinator) (token : Nat) (key : ControlKey) (ticket : Nat) :
    ZenRequestCoordinator :=
  { c.dequeue ticket with
    probes := c.probesGranted token key
    inflight := c.inflight + 1 }

/-- One round of the loop in `acquire`. -/
def poll (c : ZenRequestCoordinator) (token : Nat) (key : ControlKey) (ticket : Nat)
    (deadline now : ℚ) (cancelled : Bool) : Admission × ZenRequestCoordinator :=
  if cancelled then
    (.raised (.other "request cancelled while waiting for Zen request capacity"),
      c.dequeue ticket)
  else if deadline ≤ now then
    (.raised (.other "Zen request admission timed out"), c.dequeue ticket)
  else if c.eligible now = some ticket ∧ c.blockedUntil key ≤ now ∧
      c.probeBlocked now key = false ∧ c.inflight < c.maxInflight then
    (.granted (c.probesGranted token key key), c.grant token key ticket)
  else (.waiting, c)

def release (c : ZenRequestCoordinator) : ZenRequestCoordinator :=
  { c with inflight := c.inflight - 1 }

def cooldownPublished (c : ZenRequestCoordinator) (key : ControlKey) (notBefore : ℚ)
    (reason : String) : Cooldown :=
  match c.cooldowns key with
  | some old => ⟨max old.notBefore notBefore, old.version + 1, reason⟩
  | none => ⟨notBefore, 1, reason⟩

def publishCooldown (c : ZenRequestCoordinator) (key : ControlKey) (notBefore : ℚ)
    (reason : String) : ZenRequestCoordinator :=
  { c with
    cooldowns := Function.update c.cooldowns key (some (c.cooldownPublished key notBefore reason))
    probes := Function.update c.probes key none }

/-- Give a probe claim back; the success of a probe ends its cooldown. -/
def settle (c : ZenRequestCoordinator) (key : ControlKey) (receipt : Option ProbeClaim)
    (successful : Bool) : ZenRequestCoordinator :=
  if (c.probes key).isSome ∧ receipt = c.probes key then
    { c with
      probes := Function.update c.probes key none
      cooldowns := if successful then Function.update c.cooldowns key none else c.cooldowns }
  else c

end ZenRequestCoordinator

/-! ### The policy -/

structure RetryDirective where
  retry : Bool
  notBefore : Option ℚ := none
  reason : String := ""
  deriving DecidableEq

/-- What the policy takes from the process it runs in. -/
structure Platform where
  lower : String → String
  isWindows : Bool
  maxAttempts : Nat := 6

/-- `ZenRoutes.fallback`: the failures for which a route that is not direct yet becomes direct. -/
def fallsBack (p : Platform) (direct cancelled : Bool) (deadline now : ℚ) : Failure → Bool
  | .rejected error => p.isWindows && !cancelled && decide (now < deadline) && !direct &&
      decide (error.status = 429 ∧ error.errorType = "FreeUsageLimitError")
  | .notSent reasonCode _ => p.isWindows && !cancelled && decide (now < deadline) && !direct &&
      decide (reasonCode = "pre_submission_network_error")
  | .other _ => false

/-- The delay before the next attempt. -/
def backoff (used : Nat) : ℚ := min 30 (2 ^ max 1 used)

def retryInstant (now : ℚ) (used : Nat) (error : GenerationRejectedError) (notBefore : ℚ) : ℚ :=
  if error.serviceMessage = endpointUnavailable then
    now + max (delayOr error.retryAfter 0) (backoff used)
  else notBefore

/-- `ZenRequestPolicy.observe_failure` for a failure that changes no route. -/
def observeFailure (p : Platform) (c : ZenRequestCoordinator) (key : ControlKey)
    (receipt : Option ProbeClaim) (now : ℚ) (used : Nat) : Failure →
    RetryDirective × ZenRequestCoordinator
  | .notSent reasonCode message =>
    if reasonCode = "pre_submission_network_error" then
      ({ retry := true, notBefore := some (now + backoff used), reason := "not_submitted" }, c)
    else ({ retry := false, reason := message }, c)
  | .other message => ({ retry := false, reason := message }, c)
  | .rejected error =>
    let result := classifyRejection p.lower now error
    if result.retryable then
      match result.notBefore with
      | some notBefore =>
        ({ retry := true, notBefore := some (retryInstant now used error notBefore),
           reason := result.kind.text },
          c.publishCooldown key (retryInstant now used error notBefore) result.kind.text)
      | none => ({ retry := true, reason := result.kind.text }, c)
    else ({ retry := false, reason := result.kind.text }, c.settle key receipt false)

end Zen

end Codey
