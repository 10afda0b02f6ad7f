import Codey.Providers.Reliability
import Codey.Lib.Steps
import Codey.Lib.Table

/-!
# The attempt loop of a provider

The requests that share one coordinator, each between its registration and its close. An event is
one step of one request, the start of a request, or the passage of time; what the service answers,
when a request is cancelled and what else may raise is chosen by the event.
-/

namespace Codey

namespace Zen

/-- Where a request stands in its exchange. -/
inductive Phase where
  /-- At the head of the loop over attempts. -/
  | starting
  /-- In `acquire`, with a ticket in the line. -/
  | waiting (ticket : Nat)
  /-- The coordinator has granted a lease, the policy still looks for a route. -/
  | granted
  | sending
  /-- The attempt has raised, and the failure is still to be observed. -/
  | raised (failure : Failure)
  | observed (directive : RetryDirective)
  /-- In `wait_until`, before the next attempt. -/
  | pausing (notBefore : ℚ)
  /-- The loop is left; a lease that is held is given back first. -/
  | unwinding (successful : Bool)
  | leaving (successful : Bool)
  | settled
  deriving DecidableEq

/-- A request. `lease` is the lease it holds, by its receipt, and `receipt` that of the last lease
it was given; `seen` counts the cooldowns of its key that were published before its last grant. -/
structure Request where
  token : Nat
  key : ControlKey
  deadline : ℚ
  /-- Whether the route is direct, when the policy keeps routes. -/
  route : Option Bool := none
  attempt : Nat := 0
  used : Nat := 0
  lastError : Option Failure := none
  lease : Option (Option ProbeClaim) := none
  receipt : Option ProbeClaim := none
  phase : Phase := .starting
  seen : Nat := 0
  deriving DecidableEq

/-- A coordinator and the requests that are registered with it; `published` counts the cooldowns
of each key. -/
structure System where
  coordinator : ZenRequestCoordinator := {}
  now : ℚ
  requests : Table Request.token := .empty
  published : ControlKey → Nat := fun _ => 0

inductive Event where
  | elapse (duration : ℚ)
  | register (key : ControlKey) (deadline : ℚ) (route : Option Bool)
  | start (token : Nat) (cancelled : Bool)
  | poll (token : Nat) (cancelled : Bool)
  /-- The policy has the transport options of the granted request. -/
  | accept (token : Nat)
  /-- The policy raises instead: the route is not available, or something else fails. -/
  | decline (token : Nat) (notSubmitted : Bool) (message : String)
  | reply (token : Nat) (successful : Bool)
  /-- The attempt raises, after `reserved` further reservations of the transport. -/
  | fail (token : Nat) (failure : Failure) (reserved : Nat)
  | observe (token : Nat) (cancelled : Bool)
  | release (token : Nat)
  | resume (token : Nat) (cancelled : Bool)
  | settle (token : Nat)
  | close (token : Nat)

namespace System

def put (w : System) (r : Request) : System := { w with requests := w.requests.put r }

def set (w : System) (c : ZenRequestCoordinator) (r : Request) : System :=
  { w with coordinator := c, requests := w.requests.put r }

end System

/-- The phase after an exception: the loop handles rejections and requests that were not sent. -/
def Phase.afterRaise : Failure → Phase
  | .rejected error => .raised (.rejected error)
  | .notSent reasonCode message => .raised (.notSent reasonCode message)
  | .other _ => .unwinding false

namespace Request

variable (p : Platform) (w : System) (r : Request)

def maxTotal : Nat := max 1 p.maxAttempts

/-- One round in `acquire`. -/
def polled (c : ZenRequestCoordinator) (ticket : Nat) (cancelled : Bool) : System :=
  match c.poll r.token r.key ticket r.deadline w.now cancelled with
  | (.granted receipt, c) =>
    w.set c { r with phase := .granted, lease := some receipt, seen := w.published r.key }
  | (.waiting, c) => w.set c { r with phase := .waiting ticket }
  | (.raised failure, c) => w.set c { r with phase := .afterRaise failure }

/-- Reserve an attempt and line up for it; without budget the last error is raised again. -/
def started (cancelled : Bool) : System :=
  if maxTotal p ≤ r.used then
    match r.lastError with
    | some failure => w.put { r with phase := .raised failure }
    | none => w.put { r with phase := .unwinding false }
  else
    polled w { r with used := r.used + 1 } (w.coordinator.enqueue r.key).2
      (w.coordinator.enqueue r.key).1 cancelled

def declined (notSubmitted : Bool) (message : String) : System :=
  w.set w.coordinator.release { r with
    lease := none
    phase := if notSubmitted then .raised (.notSent "not_submitted" message)
      else .unwinding false }

def fallsBack (failure : Failure) (cancelled : Bool) : Bool :=
  match r.route with
  | some direct => Zen.fallsBack p direct cancelled r.deadline w.now failure
  | none => false

/-- The receipt of the lease that is held, `getattr(lease, "receipt", None)`. -/
def heldReceipt : Option ProbeClaim :=
  match r.lease with
  | some receipt => receipt
  | none => none

/-- Count the cooldown that an observed failure publishes. -/
def publishedAfter (failure : Failure) : ControlKey → Nat :=
  match failure with
  | .rejected error =>
    if (classifyRejection p.lower w.now error).notBefore.isSome then
      Function.update w.published r.key (w.published r.key + 1)
    else w.published
  | _ => w.published

/-- `observe_failure` in the handler of a failure. -/
def observed (failure : Failure) (cancelled : Bool) : System :=
  if r.fallsBack p w failure cancelled then
    w.set (w.coordinator.settle r.key r.heldReceipt false)
      { r with
        route := some true
        lastError := some failure
        phase := .observed { retry := true, reason := "direct_fallback" } }
  else
    let (directive, c) := observeFailure p w.coordinator r.key r.heldReceipt w.now r.used failure
    { w.set c { r with lastError := some failure, phase := .observed directive } with
      published := r.publishedAfter p w failure }

/-- Give back the lease that is held, if any. -/
def leaseReturned (c : ZenRequestCoordinator) : ZenRequestCoordinator :=
  if r.lease.isSome then c.release else c

/-- Whether the handler goes on with another attempt. -/
def retries (directive : RetryDirective) : Bool :=
  directive.retry && decide (r.attempt + 1 < maxTotal p)

/-- The handler gives the lease back and raises, waits or starts the next attempt. -/
def handled (directive : RetryDirective) : System :=
  w.set (r.leaseReturned w.coordinator) (if r.retries p directive then
    match directive.notBefore with
    | some notBefore => { r with lease := none, phase := .pausing notBefore }
    | none => { r with lease := none, attempt := r.attempt + 1, phase := .starting }
    else { r with lease := none, phase := .leaving false })

/-- One round of `wait_until`. -/
def resumed (notBefore : ℚ) (cancelled : Bool) : System :=
  if cancelled then w.put { r with phase := .unwinding false }
  else if min (notBefore - w.now) (r.deadline - w.now) ≤ 0 then
    if r.deadline ≤ w.now then w.put { r with phase := .unwinding false }
    else w.put { r with attempt := r.attempt + 1, phase := .starting }
  else w

/-- The step of a request, when it stands where the event takes place. -/
def step : Event → Option System
  | .start _ cancelled => if r.phase = .starting then some (r.started p w cancelled) else none
  | .poll _ cancelled =>
    match r.phase with
    | .waiting ticket => some (r.polled w w.coordinator ticket cancelled)
    | _ => none
  | .accept _ =>
    if r.phase = .granted then
      some (w.put { r with receipt := r.heldReceipt, phase := .sending })
    else none
  | .decline _ notSubmitted message =>
    if r.phase = .granted ∧ r.route.isSome then some (r.declined w notSubmitted message) else none
  | .reply _ successful =>
    if r.phase = .sending then some (w.put { r with phase := .unwinding successful }) else none
  | .fail _ failure reserved =>
    if r.phase = .sending then
      some (w.put { r with
        used := max r.used (min (r.used + reserved) (maxTotal p))
        phase := .afterRaise failure })
    else none
  | .observe _ cancelled =>
    match r.phase with
    | .raised failure => some (r.observed p w failure cancelled)
    | _ => none
  | .release _ =>
    match r.phase with
    | .observed directive => some (r.handled p w directive)
    | .unwinding successful =>
      some (w.set (r.leaseReturned w.coordinator)
        { r with lease := none, phase := .leaving successful })
    | _ => none
  | .resume _ cancelled =>
    match r.phase with
    | .pausing notBefore => some (r.resumed w notBefore cancelled)
    | _ => none
  | .settle _ =>
    match r.phase with
    | .leaving successful =>
      some (w.set (w.coordinator.settle r.key r.receipt successful) { r with phase := .settled })
    | _ => none
  | .close _ =>
    if r.phase = .settled then
      some { w with
        coordinator := w.coordinator.remove r.token
        requests := w.requests.filter (·.token ≠ r.token) }
    else none
  | .elapse _ | .register .. => none

end Request

def Event.token? : Event → Option Nat
  | .elapse _ | .register .. => none
  | .start token _ | .poll token _ | .accept token | .decline token _ _ | .reply token _
  | .fail token _ _ | .observe token _ | .release token | .resume token _ | .settle token
  | .close token => some token

/-- One step of the system. A request that finds the queue full leaves no trace. -/
def System.step (p : Platform) (w : System) : Event → Option System
  | .elapse duration => if 0 ≤ duration then some { w with now := w.now + duration } else none
  | .register key deadline route =>
    match w.coordinator.register with
    | none => some w
    | some (token, c) =>
      some { w with
        coordinator := c
        requests := w.requests.put { token, key, deadline, route } }
  | event =>
    event.token?.bind fun token => (w.requests.get? token).bind fun r => r.step p w event

end Zen

end Codey
