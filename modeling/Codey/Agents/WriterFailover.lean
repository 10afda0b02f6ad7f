import Mathlib.Data.Finset.Insert

/-!
# Writer failover

The runner that is shared by the attempts of a task: an attempt that fails gives way to the next
provider, within a budget of switches and a budget of turns. What happens is kept in a log, from
which the host answers.
-/

namespace Codey

namespace WriterFailover

/-- What a writer sees of the project. -/
structure CheckpointView (V : Type) where
  prompt : String := ""
  changedFiles : List String := []
  successfulChecks : List V := []
  deriving DecidableEq

structure WriterAttempt (P V : Type) where
  task : String
  providerId : String
  provider : P
  remainingTurns : Int
  freshChat : Bool
  handoff : String
  checkpoint : CheckpointView V
  deriving DecidableEq

structure RunResult (R : Type) where
  turns : Int
  result : R

/-- The highest turn that a `_TurnCounter` was given. -/
def turnsSeen (notes : List Int) : Int := notes.foldl max 0

/-! ### The host -/

inductive Attempted (F R : Type) where
  | returned (result : RunResult R)
  | failed (notes : List Int) (failure : F)
  | raised

inductive Connected (P : Type) where
  | connected (provider : P)
  | failed
  | cancelled

inductive Canary where
  | passed
  | failed
  | raised

/-- What happens, in the order in which it does. The hooks that are told of a failure, of a success
or of a closed session are told at these events. -/
inductive Event (P V : Type) where
  | called (turnBudget : Int)
  | attempt (spec : WriterAttempt P V)
  | attemptReturned (providerId : String)
  | attemptFailed (providerId : String) (notes : List Int)
  | attemptRaised (providerId : String)
  | switched (providerId : String)
  | connected (providerId : String)
  | connectFailed (providerId : String)
  | connectCancelled (providerId : String)
  | canaryPassed (providerId : String)
  | canaryFailed (providerId : String)
  | canaryRaised (providerId : String)
  deriving DecidableEq

/-- The hooks that answer, each from all that has happened. The next provider is none of those it
is given. -/
structure Host (P V F R : Type) where
  attempt : List (Event P V) → Attempted F R
  selectNext : List (Event P V) → Finset String → Option String
  connect : List (Event P V) → String → Connected P
  needsCanary : String → Bool
  runCanary : List (Event P V) → String → P → Canary
  captureFailure : List (Event P V) → F
  refreshCheckpoint : List (Event P V) → CheckpointView V
  stopped : List (Event P V) → Bool
  fresh : ∀ log tried id, selectNext log tried = some id → id ∉ tried

/-- What `run` raises. -/
inductive Raised (F : Type) where
  | taskCancelled
  | providerAction (failure : F)
  | assertion
  | other

/-! ### The runner -/

structure Runner (P V : Type) where
  provider : Option P
  providerId : String
  switches : Nat
  tried : Finset String
  maxSwitches : Nat
  log : List (Event P V)

variable {P V F R : Type}

namespace Runner

def note (r : Runner P V) (e : Event P V) : Runner P V := { r with log := r.log ++ [e] }

/-- `_close_current`, and what the owner does between two calls. -/
def closeCurrent (r : Runner P V) : Runner P V := { r with provider := none }

def addTried (r : Runner P V) (id : String) : Runner P V := { r with tried := insert id r.tried }

/-- The next provider takes the place of the last one before it is connected. -/
def switchTo (r : Runner P V) (id : String) : Runner P V :=
  { r with providerId := id, switches := r.switches + 1, tried := insert id r.tried,
           log := r.log ++ [.switched id] }

def attach (r : Runner P V) (provider : P) : Runner P V :=
  { r with provider := some provider, log := r.log ++ [.connected r.providerId] }

def unconnected (r : Runner P V) : Runner P V :=
  (r.note (.connectFailed r.providerId)).addTried r.providerId

end Runner

/-- What a round of `_activate_next` comes to. -/
inductive Round (F V : Type) where
  | again
  | raise (e : Raised F)
  | active (view : CheckpointView V)

/-- A round that went wrong is the last one when the switches are used up. -/
def retry (r : Runner P V) (failure : F) : Runner P V × Round F V :=
  (r, if r.maxSwitches ≤ r.switches then .raise (.providerAction failure) else .again)

def activateRound (h : Host P V F R) (origin : F) (r : Runner P V) : Runner P V × Round F V :=
  match h.selectNext r.log r.tried with
  | none => (r, .raise (.providerAction origin))
  | some nextId =>
    let r := r.switchTo nextId
    match h.connect r.log nextId with
    | .cancelled => (r.note (.connectCancelled nextId), .raise .taskCancelled)
    | .failed =>
      let r := r.note (.connectFailed nextId)
      retry r (h.captureFailure r.log)
    | .connected provider =>
      let r := r.attach provider
      if h.needsCanary nextId then
        match h.runCanary r.log nextId provider with
        | .raised => (r.note (.canaryRaised nextId), .raise .other)
        | .failed => retry (r.note (.canaryFailed nextId)).closeCurrent origin
        | .passed =>
          let r := r.note (.canaryPassed nextId)
          (r, .active (h.refreshCheckpoint r.log))
      else (r, .active (h.refreshCheckpoint r.log))

/-- The ways in which a round ends. -/
inductive RoundEnds (h : Host P V F R) (r : Runner P V) : Runner P V × Round F V → Prop where
  | exhausted {e : Raised F} : h.selectNext r.log r.tried = none → RoundEnds h r (r, .raise e)
  | cancelled {id : String} {e : Raised F} : h.selectNext r.log r.tried = some id →
      RoundEnds h r ((r.switchTo id).note (.connectCancelled id), .raise e)
  | unconnected {id : String} {failure : F} : h.selectNext r.log r.tried = some id →
      RoundEnds h r (retry ((r.switchTo id).note (.connectFailed id)) failure)
  | canaryRaised {id : String} {p : P} {e : Raised F} : h.selectNext r.log r.tried = some id →
      RoundEnds h r (((r.switchTo id).attach p).note (.canaryRaised id), .raise e)
  | canaryFailed {id : String} {p : P} {failure : F} : h.selectNext r.log r.tried = some id →
      RoundEnds h r (retry (((r.switchTo id).attach p).note (.canaryFailed id)).closeCurrent failure)
  | canaryPassed {id : String} {p : P} {view : CheckpointView V} :
      h.selectNext r.log r.tried = some id →
      RoundEnds h r (((r.switchTo id).attach p).note (.canaryPassed id), .active view)
  | spared {id : String} {p : P} {view : CheckpointView V} :
      h.selectNext r.log r.tried = some id → h.needsCanary id = false →
      RoundEnds h r ((r.switchTo id).attach p, .active view)

lemma ends_activateRound (h : Host P V F R) (origin : F) (r : Runner P V) :
    RoundEnds h r (activateRound h origin r) := by
  rw [activateRound]
  cases hselect : h.selectNext r.log r.tried with
  | none => exact .exhausted hselect
  | some id =>
    dsimp only
    cases h.connect (r.switchTo id).log id with
    | cancelled => exact .cancelled hselect
    | failed => exact .unconnected hselect
    | connected p =>
      cases hneeds : h.needsCanary id with
      | false => exact .spared hselect hneeds
      | true =>
        cases hcanary : h.runCanary ((r.switchTo id).attach p).log id p with
        | raised =>
          simp only [hcanary, if_true]
          exact .canaryRaised hselect
        | failed =>
          simp only [hcanary, if_true]
          exact .canaryFailed hselect
        | passed =>
          simp only [hcanary, if_true]
          exact .canaryPassed hselect

lemma retry_again {r r' : Runner P V} {failure : F}
    (h : retry (V := V) r failure = (r', .again)) : r = r' ∧ r.switches < r.maxSwitches := by
  rw [retry, Prod.mk.injEq] at h
  obtain ⟨rfl, hround⟩ := h
  split_ifs at hround with hmax
  exact ⟨rfl, Nat.not_le.mp hmax⟩

/-- Another round has used a switch, and there are more. -/
lemma activateRound_again {h : Host P V F R} {origin : F} {r r' : Runner P V}
    (hagain : activateRound h origin r = (r', .again)) :
    r'.maxSwitches = r.maxSwitches ∧ r'.switches = r.switches + 1 ∧
      r'.switches < r'.maxSwitches := by
  have hends := ends_activateRound h origin r
  rw [hagain] at hends
  generalize hround : (r', Round.again) = result at hends
  cases hends with
  | exhausted | cancelled | canaryRaised | canaryPassed | spared => cases hround
  | unconnected =>
    obtain ⟨rfl, hmore⟩ := retry_again hround.symm
    exact ⟨rfl, rfl, hmore⟩
  | canaryFailed =>
    obtain ⟨rfl, hmore⟩ := retry_again hround.symm
    exact ⟨rfl, rfl, hmore⟩

def activateNext (h : Host P V F R) (origin : F) (r : Runner P V) :
    Runner P V × Except (Raised F) (CheckpointView V) :=
  match _hround : activateRound h origin r with
  | (r', .again) => activateNext h origin r'
  | (r', .raise e) => (r', .error e)
  | (r', .active view) => (r', .ok view)
termination_by r.maxSwitches - r.switches
decreasing_by
  have := activateRound_again _hround
  omega

/-- What a call of `run` is given. -/
structure Call (V : Type) where
  task : String
  turnBudget : Int
  fresh : Bool
  handoff : String
  checkpoint : CheckpointView V

/-- `_initial_reconnect`: the provider that was closed is connected again, without a canary. -/
def initialReconnect (h : Host P V F R) (fresh : Bool) (checkpoint : CheckpointView V)
    (r : Runner P V) : Runner P V × Except (Raised F) (Bool × CheckpointView V) :=
  match h.connect r.log r.providerId with
  | .connected provider => (r.attach provider, .ok (fresh, checkpoint))
  | .cancelled => (r.note (.connectCancelled r.providerId), .error .taskCancelled)
  | .failed =>
    let r := r.unconnected
    let failure := h.captureFailure r.log
    if r.maxSwitches ≤ r.switches then (r, .error (.providerAction failure))
    else ((activateNext h failure r).1, (activateNext h failure r).2.map fun view => (true, view))

/-- What an attempt leaves: the result of the call, or the view for the next provider. -/
inductive Attempt (F V R : Type) where
  | stop (result : Except (Raised F) (RunResult R))
  | again (turnsUsed : Int) (view : CheckpointView V)

/-- The body of the loop of `run`: an attempt, and the next provider when it fails. -/
def attemptRound (h : Host P V F R) (call : Call V) (turnsUsed : Int) (fresh : Bool)
    (handoff : String) (checkpoint : CheckpointView V) (r : Runner P V) :
    Runner P V × Attempt F V R :=
  match r.provider with
  | none => (r, .stop (.error .assertion))
  | some provider =>
    let spec : WriterAttempt P V :=
      { task := call.task, providerId := r.providerId, provider,
        remainingTurns := max 1 (call.turnBudget - turnsUsed), freshChat := fresh, handoff,
        checkpoint }
    let r := r.note (.attempt spec)
    match h.attempt r.log with
    | .raised => (r.note (.attemptRaised r.providerId), .stop (.error .other))
    | .returned result =>
      (r.note (.attemptReturned r.providerId),
        .stop (.ok { result with turns := min call.turnBudget (turnsUsed + result.turns) }))
    | .failed notes failure =>
      let r := r.note (.attemptFailed r.providerId notes)
      if h.stopped r.log then (r, .stop (.error .taskCancelled))
      else
        let turnsUsed := turnsUsed + max 1 (turnsSeen notes)
        let r := r.closeCurrent.addTried r.providerId
        if r.maxSwitches ≤ r.switches ∨ call.turnBudget ≤ turnsUsed then
          (r, .stop (.error (.providerAction failure)))
        else
          let next := activateNext h failure r
          (next.1, match next.2 with
            | .error e => .stop (.error e)
            | .ok view => .again turnsUsed view)

structure Offers (call : Call V) (turnsUsed : Int) (r : Runner P V) (spec : WriterAttempt P V) :
    Prop where
  provider : r.provider = some spec.provider
  providerId : spec.providerId = r.providerId
  remainingTurns : spec.remainingTurns = max 1 (call.turnBudget - turnsUsed)

def Runner.failed (r : Runner P V) (spec : WriterAttempt P V) (notes : List Int) : Runner P V :=
  (r.note (.attempt spec)).note (.attemptFailed r.providerId notes)

/-- The ways in which an attempt ends. -/
inductive AttemptEnds (h : Host P V F R) (call : Call V) (turnsUsed : Int) (r : Runner P V) :
    Runner P V × Attempt F V R → Prop where
  | unprovided {result : Except (Raised F) (RunResult R)} : r.provider = none →
      AttemptEnds h call turnsUsed r (r, .stop result)
  | raised {spec : WriterAttempt P V} {result : Except (Raised F) (RunResult R)} :
      Offers call turnsUsed r spec →
      AttemptEnds h call turnsUsed r
        ((r.note (.attempt spec)).note (.attemptRaised r.providerId), .stop result)
  | returned {spec : WriterAttempt P V} {result : Except (Raised F) (RunResult R)} :
      Offers call turnsUsed r spec →
      AttemptEnds h call turnsUsed r
        ((r.note (.attempt spec)).note (.attemptReturned r.providerId), .stop result)
  | stopped {spec : WriterAttempt P V} {notes : List Int}
      {result : Except (Raised F) (RunResult R)} : Offers call turnsUsed r spec →
      AttemptEnds h call turnsUsed r (r.failed spec notes, .stop result)
  | exhausted {spec : WriterAttempt P V} {notes : List Int}
      {result : Except (Raised F) (RunResult R)} : Offers call turnsUsed r spec →
      AttemptEnds h call turnsUsed r
        ((r.failed spec notes).closeCurrent.addTried r.providerId, .stop result)
  | switched {spec : WriterAttempt P V} {notes : List Int} {failure : F} {given : Runner P V}
      {later : Attempt F V R} : Offers call turnsUsed r spec →
      given = (r.failed spec notes).closeCurrent.addTried r.providerId →
      given.switches < given.maxSwitches →
      turnsUsed + max 1 (turnsSeen notes) < call.turnBudget →
      (∀ used view, later = .again used view →
        used = turnsUsed + max 1 (turnsSeen notes) ∧
          (activateNext h failure given).2 = .ok view) →
      AttemptEnds h call turnsUsed r ((activateNext h failure given).1, later)

lemma ends_attemptRound (h : Host P V F R) (call : Call V) (turnsUsed : Int) (fresh : Bool)
    (handoff : String) (checkpoint : CheckpointView V) (r : Runner P V) :
    AttemptEnds h call turnsUsed r
      (attemptRound h call turnsUsed fresh handoff checkpoint r) := by
  unfold attemptRound
  cases hprovider : r.provider with
  | none => exact .unprovided hprovider
  | some p =>
    dsimp only
    generalize hspec : WriterAttempt.mk call.task r.providerId p
      (max 1 (call.turnBudget - turnsUsed)) fresh handoff checkpoint = spec
    have hoffers : Offers call turnsUsed r spec := by
      subst hspec
      exact ⟨hprovider, rfl, rfl⟩
    cases h.attempt (r.note (.attempt spec)).log with
    | raised => exact .raised hoffers
    | returned result => exact .returned hoffers
    | failed notes failure =>
      dsimp only
      split_ifs with hstopped hend
      · exact .stopped hoffers
      · exact .exhausted hoffers
      · obtain ⟨hswitches, hbudget⟩ := not_or.mp hend
        refine .switched hoffers rfl (Nat.not_le.mp hswitches) (Int.not_le.mp hbudget) ?_
        intro used view hlater
        split at hlater
        next => cases hlater
        next hnext =>
          cases hlater
          exact ⟨rfl, hnext⟩

lemma attemptRound_again {h : Host P V F R} {call : Call V} {turnsUsed used : Int} {fresh : Bool}
    {handoff : String} {checkpoint view : CheckpointView V} {r r' : Runner P V}
    (hagain : attemptRound h call turnsUsed fresh handoff checkpoint r = (r', .again used view)) :
    turnsUsed < used ∧ used < call.turnBudget := by
  have hends := ends_attemptRound h call turnsUsed fresh handoff checkpoint r
  rw [hagain] at hends
  generalize hresult : (r', Attempt.again used view) = result at hends
  cases hends with
  | unprovided | raised | returned | stopped | exhausted => cases hresult
  | switched _ _ _ hbudget hlater =>
    obtain ⟨rfl, -⟩ := hlater used view (congrArg Prod.snd hresult).symm
    omega

/-- The loop of `run`. -/
def attempts (h : Host P V F R) (call : Call V) (turnsUsed : Int) (fresh : Bool) (handoff : String)
    (checkpoint : CheckpointView V) (r : Runner P V) :
    Runner P V × Except (Raised F) (RunResult R) :=
  match _hround : attemptRound h call turnsUsed fresh handoff checkpoint r with
  | (r', .stop result) => (r', result)
  | (r', .again used view) => attempts h call used true "" view r'
termination_by (call.turnBudget - turnsUsed).toNat
decreasing_by
  have := attemptRound_again _hround
  omega

def run (h : Host P V F R) (call : Call V) (r : Runner P V) :
    Runner P V × Except (Raised F) (RunResult R) :=
  match r.provider with
  | some _ =>
    attempts h call 0 call.fresh call.handoff call.checkpoint (r.note (.called call.turnBudget))
  | none =>
    let entry := initialReconnect h call.fresh call.checkpoint (r.note (.called call.turnBudget))
    match entry.2 with
    | .error e => (entry.1, .error e)
    | .ok (fresh, checkpoint) => attempts h call 0 fresh call.handoff checkpoint entry.1

inductive Op (V : Type) where
  | run (call : Call V)
  | close

def perform (h : Host P V F R) (r : Runner P V) : Op V → Runner P V
  | .run call => (run h call r).1
  | .close => r.closeCurrent

end WriterFailover

end Codey
