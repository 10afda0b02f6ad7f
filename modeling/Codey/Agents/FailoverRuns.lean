import Codey.Agents.WriterFailover
import Codey.Lib.Since

/-!
# Runs of the writer failover

Over any calls, the switches and the turns stay within their budgets. No attempt is made on a
provider that has failed or that has not passed its canary, as long as no call connects such a
provider again.
-/

namespace Codey

namespace WriterFailover

variable {P V F R : Type} {h : Host P V F R} {r r' : Runner P V} {log : List (Event P V)}
  {e : Event P V} {id : String} {call : Call V}

/-! ### Standing -/

def Failed (log : List (Event P V)) (id : String) : Prop :=
  .connectFailed id ∈ log ∨ (∃ notes, .attemptFailed id notes ∈ log) ∨ .canaryFailed id ∈ log

def Unproven (log : List (Event P V)) (id : String) : Prop :=
  Since (fun _ e => e = .switched id) (fun _ e => e ≠ .canaryPassed id) log

/-- A provider that an attempt may be made on. -/
structure Standing (needsCanary : String → Bool) (log : List (Event P V)) (id : String) : Prop where
  unfailed : ¬Failed log id
  proven : needsCanary id = true → ¬Unproven log id

def turnsUsed (log : List (Event P V)) : Int :=
  log.foldl (fun used e => match e with
    | .called _ => 0
    | .attemptFailed _ notes => used + max 1 (turnsSeen notes)
    | _ => used) 0

def turnBudget (log : List (Event P V)) : Option Int :=
  log.foldl (fun budget e => match e with
    | .called given => some given
    | _ => budget) none

/-- An attempt is on a provider that may have one, and is offered no more turns than are left. -/
def Allowed (needsCanary : String → Bool) (before : List (Event P V)) : Event P V → Prop
  | .attempt spec => Standing needsCanary before spec.providerId ∧
      ∀ budget, turnBudget before = some budget → 1 ≤ budget →
        spec.remainingTurns + turnsUsed before ≤ budget
  | _ => True

/-- The budgets and the providers are respected by all that has happened. -/
def Respects (h : Host P V F R) (r : Runner P V) : Prop :=
  r.switches ≤ r.maxSwitches ∧ Each (Allowed h.needsCanary) r.log

/-- A call does not attempt a provider that may have no attempt: its own may have one, or it was
closed and does not connect again. -/
def Ready (h : Host P V F R) (r : Runner P V) (call : Call V) : Prop :=
  Standing h.needsCanary r.log r.providerId ∨
    r.provider = none ∧
      ∀ p, h.connect (r.log ++ [.called call.turnBudget]) r.providerId ≠ .connected p

lemma failed_snoc : Failed (log ++ [e]) id ↔
    Failed log id ∨ e = .connectFailed id ∨ (∃ notes, e = .attemptFailed id notes) ∨
      e = .canaryFailed id := by
  simp only [Failed, List.mem_append, List.mem_singleton, exists_or, eq_comm (b := e)]
  tauto

lemma unproven_snoc : Unproven (log ++ [e]) id ↔
    e = .switched id ∨ (Unproven log id ∧ e ≠ .canaryPassed id) := since_snoc

lemma turnsUsed_snoc : turnsUsed (log ++ [e]) = match e with
    | .called _ => 0
    | .attemptFailed _ notes => turnsUsed log + max 1 (turnsSeen notes)
    | _ => turnsUsed log := by
  rw [turnsUsed, List.foldl_append, List.foldl_cons, List.foldl_nil]
  rfl

lemma turnBudget_snoc : turnBudget (log ++ [e]) = match e with
    | .called given => some given
    | _ => turnBudget log := by
  rw [turnBudget, List.foldl_append, List.foldl_cons, List.foldl_nil]
  rfl

/-! ### What is tried -/

def Event.excludes : Event P V → Option String
  | .switched id | .connectFailed id | .canaryFailed id | .attemptFailed id _ => some id
  | _ => none

/-- Everything that happened to exclude a provider is remembered. -/
def Settled (tried : Finset String) (log : List (Event P V)) : Prop :=
  ∀ e ∈ log, ∀ id, e.excludes = some id → id ∈ tried

variable {tried : Finset String}

lemma settled_snoc :
    Settled tried (log ++ [e]) ↔ Settled tried log ∧ ∀ id, e.excludes = some id → id ∈ tried := by
  simp only [Settled, List.forall_mem_append, List.forall_mem_singleton]

lemma Settled.mono {tried tried' : Finset String} (hs : Settled tried log)
    (hsub : tried ⊆ tried') : Settled tried' log :=
  fun e he id hid => hsub (hs e he id hid)

lemma Settled.insert (hs : Settled tried log) (id : String) : Settled (insert id tried) log :=
  hs.mono (Finset.subset_insert id tried)

lemma Settled.unfailed (hs : Settled tried log) (hid : id ∉ tried) : ¬Failed log id := by
  rintro (hmem | ⟨notes, hmem⟩ | hmem)
  · exact hid (hs _ hmem id rfl)
  · exact hid (hs _ hmem id rfl)
  · exact hid (hs _ hmem id rfl)

/-! ### The log only grows -/

lemma RoundEnds.grows {result : Runner P V × Round F V} (hends : RoundEnds h r result) :
    r.log <+: result.1.log := by
  have hswitch : ∀ id, r.log <+: (r.switchTo id).log := fun id => List.prefix_append _ _
  have hattach : ∀ id p, r.log <+: ((r.switchTo id).attach p).log :=
    fun id p => (hswitch id).trans (List.prefix_append _ _)
  cases hends with
  | exhausted => exact List.prefix_rfl
  | cancelled | unconnected => exact (hswitch _).trans (List.prefix_append _ _)
  | canaryRaised | canaryFailed | canaryPassed => exact (hattach _ _).trans (List.prefix_append _ _)
  | spared => exact hattach _ _

lemma activateNext_grows (h : Host P V F R) (origin : F) (r : Runner P V) :
    r.log <+: (activateNext h origin r).1.log := by
  induction r using activateNext.induct h origin with
  | case1 r r' hround ih =>
    have hgrows := (ends_activateRound h origin r).grows
    rw [hround] at hgrows
    rw [activateNext, hround]
    exact hgrows.trans ih
  | case2 r r' e hround =>
    have hgrows := (ends_activateRound h origin r).grows
    rw [hround] at hgrows
    rw [activateNext, hround]
    exact hgrows
  | case3 r r' view hround =>
    have hgrows := (ends_activateRound h origin r).grows
    rw [hround] at hgrows
    rw [activateNext, hround]
    exact hgrows

lemma failed_grows (r : Runner P V) (spec : WriterAttempt P V) (notes : List Int) :
    r.log <+: (r.failed spec notes).log :=
  (List.prefix_append _ _).trans (List.prefix_append _ _)

variable {used : Int} {result : Runner P V × Attempt F V R}

lemma AttemptEnds.grows (hends : AttemptEnds h call used r result) : r.log <+: result.1.log := by
  cases hends with
  | unprovided => exact List.prefix_rfl
  | raised | returned => exact (List.prefix_append _ _).trans (List.prefix_append _ _)
  | stopped | exhausted => exact failed_grows r _ _
  | @switched spec notes failure given later _ hgiven =>
    have hlog : (r.failed spec notes).log = given.log := by rw [hgiven]; rfl
    exact (failed_grows r spec notes).trans (hlog ▸ activateNext_grows h failure given)

lemma attempts_grows (h : Host P V F R) (call : Call V) (used : Int) (fresh : Bool)
    (handoff : String) (checkpoint : CheckpointView V) (r : Runner P V) :
    r.log <+: (attempts h call used fresh handoff checkpoint r).1.log := by
  induction used, fresh, handoff, checkpoint, r using attempts.induct h call with
  | case1 used fresh handoff checkpoint r r' result hround =>
    have hgrows := (ends_attemptRound h call used fresh handoff checkpoint r).grows
    rw [hround] at hgrows
    rw [attempts, hround]
    exact hgrows
  | case2 used fresh handoff checkpoint r r' used' view hround ih =>
    have hgrows := (ends_attemptRound h call used fresh handoff checkpoint r).grows
    rw [hround] at hgrows
    rw [attempts, hround]
    exact hgrows.trans ih

lemma initialReconnect_grows (h : Host P V F R) (fresh : Bool) (checkpoint : CheckpointView V)
    (r : Runner P V) : r.log <+: (initialReconnect h fresh checkpoint r).1.log := by
  unfold initialReconnect
  cases h.connect r.log r.providerId with
  | connected p => exact List.prefix_append _ _
  | cancelled => exact List.prefix_append _ _
  | failed =>
    have hnote : r.log <+: r.unconnected.log := List.prefix_append _ _
    dsimp only
    split_ifs
    · exact hnote
    · exact hnote.trans (activateNext_grows h _ _)

lemma run_grows (h : Host P V F R) (call : Call V) (r : Runner P V) :
    r.log <+: (run h call r).1.log := by
  have hnote : r.log <+: (r.note (.called call.turnBudget)).log := List.prefix_append _ _
  unfold run
  cases r.provider with
  | some p => exact hnote.trans (attempts_grows h call _ _ _ _ _)
  | none =>
    have hentry := hnote.trans (initialReconnect_grows h call.fresh call.checkpoint _)
    dsimp only
    split
    · exact hentry
    · exact hentry.trans (attempts_grows h call _ _ _ _ _)

lemma perform_grows (h : Host P V F R) (r : Runner P V) (op : Op V) :
    r.log <+: (perform h r op).log := by
  cases op with
  | run call => exact run_grows h call r
  | close => exact List.prefix_rfl

lemma foldl_perform_grows (h : Host P V F R) (r : Runner P V) (ops : List (Op V)) :
    r.log <+: (ops.foldl (perform h) r).log := by
  induction ops generalizing r with
  | nil => exact List.prefix_rfl
  | cons op ops ih => exact (perform_grows h r op).trans (ih _)

/-! ### Selecting the next provider -/

/-- What the selection of a provider keeps. -/
structure Selects (h : Host P V F R) (r r' : Runner P V) : Prop where
  maxSwitches : r'.maxSwitches = r.maxSwitches
  bounded : r'.switches ≤ r'.maxSwitches
  settled : Settled r'.tried r'.log
  allowed : Each (Allowed h.needsCanary) r'.log
  used : turnsUsed r'.log = turnsUsed r.log
  budget : turnBudget r'.log = turnBudget r.log

lemma Selects.trans {r₁ r₂ r₃ : Runner P V} (h₁ : Selects h r₁ r₂) (h₂ : Selects h r₂ r₃) :
    Selects h r₁ r₃ where
  maxSwitches := h₂.maxSwitches.trans h₁.maxSwitches
  bounded := h₂.bounded
  settled := h₂.settled
  allowed := h₂.allowed
  used := h₂.used.trans h₁.used
  budget := h₂.budget.trans h₁.budget

lemma selects_switchTo (hs : Settled r.tried r.log) (hallowed : Each (Allowed h.needsCanary) r.log)
    (hmore : r.switches < r.maxSwitches) (id : String) : Selects h r (r.switchTo id) where
  maxSwitches := rfl
  bounded := hmore
  settled := settled_snoc.mpr ⟨hs.insert id, fun id' hid => by
    obtain rfl := Option.some.inj hid
    exact Finset.mem_insert_self id r.tried⟩
  allowed := each_snoc.mpr ⟨hallowed, trivial⟩
  used := turnsUsed_snoc
  budget := turnBudget_snoc

/-- What happens to the provider that the runner has switched to. -/
lemma Selects.snoc {r₁ r₂ : Runner P V} (hsel : Selects h r r₁) (hlog : r₂.log = r₁.log ++ [e])
    (hmax : r₂.maxSwitches = r₁.maxSwitches) (hswitches : r₂.switches = r₁.switches)
    (htried : r₂.tried = r₁.tried) (hexcludes : ∀ id, e.excludes = some id → id ∈ r₁.tried)
    (hquiet : ∀ before, Allowed h.needsCanary before e)
    (hused : turnsUsed (r₁.log ++ [e]) = turnsUsed r₁.log)
    (hbudget : turnBudget (r₁.log ++ [e]) = turnBudget r₁.log) : Selects h r r₂ where
  maxSwitches := hmax.trans hsel.maxSwitches
  bounded := by
    rw [hswitches, hmax]
    exact hsel.bounded
  settled := by
    rw [hlog, htried]
    exact settled_snoc.mpr ⟨hsel.settled, hexcludes⟩
  allowed := by
    rw [hlog]
    exact each_snoc.mpr ⟨hsel.allowed, hquiet _⟩
  used := by rw [hlog, hused, hsel.used]
  budget := by rw [hlog, hbudget, hsel.budget]

lemma unfailed_attach (hs : Settled r.tried r.log) (hid : id ∉ r.tried) (p : P) :
    ¬Failed ((r.switchTo id).attach p).log id := by
  change ¬Failed ((r.log ++ [.switched id]) ++ [.connected id]) id
  rw [failed_snoc, failed_snoc]
  simpa using hs.unfailed hid

lemma retry_ne_active (r : Runner P V) (failure : F) (view : CheckpointView V) :
    (retry r failure).2 ≠ .active view := by
  unfold retry
  split_ifs
  · exact fun h => by cases h
  · exact fun h => by cases h

/-- What selecting a provider leaves, with a provider in good standing when one is active. -/
lemma RoundEnds.selects {result : Runner P V × Round F V} (hends : RoundEnds h r result)
    (hs : Settled r.tried r.log) (hallowed : Each (Allowed h.needsCanary) r.log)
    (hmore : r.switches < r.maxSwitches) :
    Selects h r result.1 ∧ ∀ view, result.2 = .active view →
      Standing h.needsCanary result.1.log result.1.providerId := by
  have hswitch : ∀ id, Selects h r (r.switchTo id) := selects_switchTo hs hallowed hmore
  have htried : ∀ id, id ∈ (r.switchTo id).tried := fun id => Finset.mem_insert_self id r.tried
  have hattach : ∀ id p, Selects h r ((r.switchTo id).attach p) := fun id p =>
    (hswitch id).snoc rfl rfl rfl rfl (by simp [Event.excludes]) (fun _ => trivial)
      turnsUsed_snoc turnBudget_snoc
  cases hends with
  | exhausted =>
    refine ⟨⟨rfl, hmore.le, hs, hallowed, rfl, rfl⟩, ?_⟩
    intro view hview
    cases hview
  | @cancelled id _ _ =>
    refine ⟨(hswitch id).snoc rfl rfl rfl rfl (by simp [Event.excludes]) (fun _ => trivial)
      turnsUsed_snoc turnBudget_snoc, ?_⟩
    intro view hview
    cases hview
  | @unconnected id failure _ =>
    refine ⟨(hswitch id).snoc rfl rfl rfl rfl ?_ (fun _ => trivial) turnsUsed_snoc
      turnBudget_snoc, fun view hview => absurd hview (retry_ne_active _ _ view)⟩
    intro id' hid
    obtain rfl := Option.some.inj hid
    exact htried id
  | @canaryRaised id p _ _ =>
    refine ⟨(hattach id p).snoc rfl rfl rfl rfl (by simp [Event.excludes]) (fun _ => trivial)
      turnsUsed_snoc turnBudget_snoc, ?_⟩
    intro view hview
    cases hview
  | @canaryFailed id p failure _ =>
    refine ⟨(hattach id p).snoc rfl rfl rfl rfl ?_ (fun _ => trivial) turnsUsed_snoc
      turnBudget_snoc, fun view hview => absurd hview (retry_ne_active _ _ view)⟩
    intro id' hid
    obtain rfl := Option.some.inj hid
    exact htried id
  | @canaryPassed id p view hselect =>
    refine ⟨(hattach id p).snoc rfl rfl rfl rfl (by simp [Event.excludes]) (fun _ => trivial)
      turnsUsed_snoc turnBudget_snoc, fun _ _ => ⟨?_, fun _ => ?_⟩⟩
    · change ¬Failed (((r.switchTo id).attach p).log ++ [.canaryPassed id]) id
      rw [failed_snoc]
      simpa using unfailed_attach hs (h.fresh _ _ _ hselect) p
    · change ¬Unproven (((r.switchTo id).attach p).log ++ [.canaryPassed id]) id
      rw [unproven_snoc]
      simp
  | @spared id p view hselect hneeds =>
    refine ⟨hattach id p, fun _ _ => ⟨?_, fun hneeds' => ?_⟩⟩
    · exact unfailed_attach hs (h.fresh _ _ _ hselect) p
    · exact absurd (hneeds.symm.trans hneeds') Bool.false_ne_true

lemma activateNext_selects (origin : F) (hs : Settled r.tried r.log)
    (hallowed : Each (Allowed h.needsCanary) r.log) (hmore : r.switches < r.maxSwitches) :
    Selects h r (activateNext h origin r).1 ∧ ∀ view, (activateNext h origin r).2 = .ok view →
      Standing h.needsCanary (activateNext h origin r).1.log
        (activateNext h origin r).1.providerId := by
  induction r using activateNext.induct h origin with
  | case1 r r' hround ih =>
    obtain ⟨hsel, -⟩ := (ends_activateRound h origin r).selects hs hallowed hmore
    rw [hround] at hsel
    obtain ⟨hrest, hstanding⟩ := ih hsel.settled hsel.allowed (activateRound_again hround).2.2
    rw [activateNext, hround]
    exact ⟨hsel.trans hrest, hstanding⟩
  | case2 r r' e hround =>
    obtain ⟨hsel, -⟩ := (ends_activateRound h origin r).selects hs hallowed hmore
    rw [hround] at hsel
    rw [activateNext, hround]
    exact ⟨hsel, fun view hview => by cases hview⟩
  | case3 r r' view hround =>
    obtain ⟨hsel, hstanding⟩ := (ends_activateRound h origin r).selects hs hallowed hmore
    rw [hround] at hsel hstanding
    rw [activateNext, hround]
    exact ⟨hsel, fun _ _ => hstanding view rfl⟩

/-! ### Attempts -/

/-- What a call keeps: everything so far was allowed, and what excludes a provider is remembered,
except for the provider of the runner. -/
structure Kept (h : Host P V F R) (r : Runner P V) : Prop where
  bounded : r.switches ≤ r.maxSwitches
  allowed : Each (Allowed h.needsCanary) r.log
  settled : Settled (insert r.providerId r.tried) r.log

lemma Selects.kept (hsel : Selects h r r') : Kept h r' :=
  ⟨hsel.bounded, hsel.allowed, hsel.settled.insert _⟩

lemma Kept.note (hkept : Kept h r) (hquiet : Allowed h.needsCanary r.log e)
    (hexcludes : ∀ id, e.excludes = some id → id = r.providerId) : Kept h (r.note e) where
  bounded := hkept.bounded
  allowed := each_snoc.mpr ⟨hkept.allowed, hquiet⟩
  settled := settled_snoc.mpr ⟨hkept.settled, fun id hid => by
    rw [hexcludes id hid]
    exact Finset.mem_insert_self _ _⟩

lemma Kept.closeCurrent (hkept : Kept h r) : Kept h r.closeCurrent :=
  ⟨hkept.bounded, hkept.allowed, hkept.settled⟩

lemma Kept.addTried (hkept : Kept h r) : Kept h (r.addTried r.providerId) :=
  ⟨hkept.bounded, hkept.allowed, hkept.settled.insert _⟩

/-- A runner that may offer an attempt, with some turns used by the call. -/
structure Offering (h : Host P V F R) (call : Call V) (used : Int) (r : Runner P V) : Prop where
  kept : Kept h r
  standing : Standing h.needsCanary r.log r.providerId
  budget : turnBudget r.log = some call.turnBudget
  spent : turnsUsed r.log = used
  left : 1 ≤ call.turnBudget → used < call.turnBudget

variable {spec : WriterAttempt P V}

lemma Offering.allowed (hoffering : Offering h call used r) (hoffers : Offers call used r spec) :
    Allowed h.needsCanary r.log (.attempt spec) := by
  refine ⟨?_, fun budget hgiven hpos => ?_⟩
  · rw [hoffers.providerId]
    exact hoffering.standing
  · obtain rfl := Option.some.inj (hoffering.budget.symm.trans hgiven)
    have := hoffering.left hpos
    rw [hoffers.remainingTurns, hoffering.spent]
    omega

lemma Offering.attempt (hoffering : Offering h call used r) (hoffers : Offers call used r spec) :
    Kept h (r.note (.attempt spec)) :=
  hoffering.kept.note (hoffering.allowed hoffers) (by simp [Event.excludes])

lemma Offering.failed (hoffering : Offering h call used r) (hoffers : Offers call used r spec)
    (notes : List Int) : Kept h (r.failed spec notes) := by
  refine (hoffering.attempt hoffers).note trivial ?_
  intro id hid
  exact (Option.some.inj hid).symm

/-- What an attempt keeps, and what another one finds. -/
lemma AttemptEnds.kept (hends : AttemptEnds h call used r result)
    (hoffering : Offering h call used r) :
    Kept h result.1 ∧
      ∀ used' view, result.2 = .again used' view → Offering h call used' result.1 := by
  cases hends with
  | unprovided => exact ⟨hoffering.kept, fun _ _ hagain => by cases hagain⟩
  | raised hoffers | returned hoffers =>
    refine ⟨(hoffering.attempt hoffers).note trivial (by simp [Event.excludes]), ?_⟩
    intro used' view hagain
    cases hagain
  | stopped hoffers => exact ⟨hoffering.failed hoffers _, fun _ _ hagain => by cases hagain⟩
  | exhausted hoffers =>
    exact ⟨(hoffering.failed hoffers _).closeCurrent.addTried, fun _ _ hagain => by cases hagain⟩
  | @switched spec notes failure given later hoffers hgiven hmore hbudget hlater =>
    subst hgiven
    have hfailed := hoffering.failed hoffers notes
    obtain ⟨hsel, hstanding⟩ := activateNext_selects failure
      (r := (r.failed spec notes).closeCurrent.addTried r.providerId) hfailed.settled
      hfailed.allowed hmore
    refine ⟨hsel.kept, fun used' view hagain => ?_⟩
    obtain ⟨rfl, hview⟩ := hlater used' view hagain
    refine ⟨hsel.kept, hstanding view hview, hsel.budget.trans ?_, hsel.used.trans ?_,
      fun _ => hbudget⟩
    · change turnBudget ((r.log ++ [.attempt spec]) ++ [.attemptFailed r.providerId notes]) = _
      rw [turnBudget_snoc, turnBudget_snoc]
      exact hoffering.budget
    · change turnsUsed ((r.log ++ [.attempt spec]) ++ [.attemptFailed r.providerId notes]) = _
      rw [turnsUsed_snoc, turnsUsed_snoc]
      exact congrArg (· + max 1 (turnsSeen notes)) hoffering.spent

/-- Over the loop, what every attempt keeps. -/
lemma attempts_kept (h : Host P V F R) (call : Call V) (used : Int) (fresh : Bool)
    (handoff : String) (checkpoint : CheckpointView V) (r : Runner P V)
    (hoffering : Offering h call used r) :
    Kept h (attempts h call used fresh handoff checkpoint r).1 := by
  induction used, fresh, handoff, checkpoint, r using attempts.induct h call with
  | case1 used fresh handoff checkpoint r r' result hround =>
    obtain ⟨hkept, -⟩ :=
      (ends_attemptRound h call used fresh handoff checkpoint r).kept hoffering
    rw [hround] at hkept
    rw [attempts, hround]
    exact hkept
  | case2 used fresh handoff checkpoint r r' used' view hround ih =>
    obtain ⟨-, hagain⟩ :=
      (ends_attemptRound h call used fresh handoff checkpoint r).kept hoffering
    rw [hround] at hagain
    rw [attempts, hround]
    exact ih (hagain used' view rfl)

/-! ### Calls -/

lemma Standing.snoc {needsCanary : String → Bool} (hstanding : Standing needsCanary log id)
    (hexcludes : e.excludes = none) : Standing needsCanary (log ++ [e]) id where
  unfailed := by
    rw [failed_snoc]
    rintro (hfailed | rfl | ⟨notes, rfl⟩ | rfl)
    · exact hstanding.unfailed hfailed
    · cases hexcludes
    · cases hexcludes
    · cases hexcludes
  proven hneeds := by
    rw [unproven_snoc]
    rintro (rfl | ⟨hunproven, -⟩)
    · cases hexcludes
    · exact hstanding.proven hneeds hunproven

lemma offering_called (hkept : Kept h r) (hstanding : Standing h.needsCanary r.log r.providerId)
    (call : Call V) : Offering h call 0 (r.note (.called call.turnBudget)) where
  kept := hkept.note trivial (by simp [Event.excludes])
  standing := hstanding.snoc rfl
  budget := turnBudget_snoc
  spent := turnsUsed_snoc
  left hpos := hpos

lemma Kept.unconnected (hkept : Kept h r) : Kept h r.unconnected := by
  refine (hkept.note (e := .connectFailed r.providerId) trivial ?_).addTried
  intro id hid
  exact (Option.some.inj hid).symm

/-- A provider that was closed is connected again, or another one is selected. -/
lemma initialReconnect_kept (call : Call V) (fresh : Bool) (checkpoint : CheckpointView V)
    (hkept : Kept h r) (hbudget : turnBudget r.log = some call.turnBudget)
    (hspent : turnsUsed r.log = 0)
    (hready : Standing h.needsCanary r.log r.providerId ∨
      ∀ p, h.connect r.log r.providerId ≠ .connected p) :
    Kept h (initialReconnect h fresh checkpoint r).1 ∧
      ∀ entry, (initialReconnect h fresh checkpoint r).2 = .ok entry →
        Offering h call 0 (initialReconnect h fresh checkpoint r).1 := by
  unfold initialReconnect
  cases hconnect : h.connect r.log r.providerId with
  | connected p =>
    have hstanding := hready.resolve_right fun hnever => hnever p hconnect
    have hattached : Kept h (r.attach p) :=
      ⟨hkept.bounded, each_snoc.mpr ⟨hkept.allowed, trivial⟩,
        settled_snoc.mpr ⟨hkept.settled, by simp [Event.excludes]⟩⟩
    exact ⟨hattached, fun _ _ => ⟨hattached, hstanding.snoc rfl, turnBudget_snoc.trans hbudget,
      turnsUsed_snoc.trans hspent, fun hpos => hpos⟩⟩
  | cancelled => exact ⟨hkept.note trivial (by simp [Event.excludes]), fun _ hok => by cases hok⟩
  | failed =>
    have hfailed := hkept.unconnected
    dsimp only
    split_ifs with hmax
    · exact ⟨hfailed, fun _ hok => by cases hok⟩
    · obtain ⟨hsel, hstanding⟩ := activateNext_selects (h.captureFailure r.unconnected.log)
        (settled_snoc.mpr ⟨hkept.settled, by simp [Event.excludes]⟩) hfailed.allowed
        (Nat.not_le.mp hmax)
      refine ⟨hsel.kept, fun entry hentry => ⟨hsel.kept, ?_, ?_, ?_, fun hpos => hpos⟩⟩
      · cases hnext : (activateNext h (h.captureFailure r.unconnected.log) r.unconnected).2 with
        | error e =>
          rw [hnext] at hentry
          cases hentry
        | ok view => exact hstanding view hnext
      · exact hsel.budget.trans (turnBudget_snoc.trans hbudget)
      · exact hsel.used.trans (turnsUsed_snoc.trans hspent)

/-- A call that is ready keeps what holds between calls. -/
lemma run_kept (hkept : Kept h r) (hready : Ready h r call) : Kept h (run h call r).1 := by
  unfold run
  cases hprovider : r.provider with
  | some p =>
    have hstanding := hready.resolve_right fun hnone => by
      rw [hprovider] at hnone
      cases hnone.1
    exact attempts_kept h call _ _ _ _ _ (offering_called hkept hstanding call)
  | none =>
    have hcalled : Kept h (r.note (.called call.turnBudget)) :=
      hkept.note trivial (by simp [Event.excludes])
    obtain ⟨hentry, hoffering⟩ := initialReconnect_kept call call.fresh call.checkpoint
      hcalled turnBudget_snoc turnsUsed_snoc (hready.imp (fun hstanding => hstanding.snoc rfl)
        And.right)
    dsimp only
    split
    · exact hentry
    next fresh checkpoint hok => exact attempts_kept h call _ _ _ _ _ (hoffering _ hok)

/-! ### Calls that are not ready -/

lemma AttemptEnds.first (hends : AttemptEnds h call used r result)
    (hprovider : r.provider.isSome = true) :
    ∃ spec : WriterAttempt P V, spec.providerId = r.providerId ∧
      r.log ++ [.attempt spec] <+: result.1.log := by
  cases hends with
  | unprovided hnone =>
    rw [hnone] at hprovider
    cases hprovider
  | @raised spec _ hoffers | @returned spec _ hoffers | @stopped spec _ _ hoffers
  | @exhausted spec _ _ hoffers => exact ⟨spec, hoffers.providerId, List.prefix_append _ _⟩
  | @switched spec notes failure given later hoffers hgiven =>
    have hlog : (r.log ++ [.attempt spec]) ++ [.attemptFailed r.providerId notes] = given.log := by
      rw [hgiven]
      rfl
    exact ⟨spec, hoffers.providerId,
      (List.prefix_append _ _).trans (hlog ▸ activateNext_grows h failure given)⟩

/-- A loop with a provider begins with an attempt on it. -/
lemma attempts_first (h : Host P V F R) (call : Call V) (used : Int) (fresh : Bool)
    (handoff : String) (checkpoint : CheckpointView V) (hprovider : r.provider.isSome = true) :
    ∃ spec : WriterAttempt P V, spec.providerId = r.providerId ∧
      r.log ++ [.attempt spec] <+: (attempts h call used fresh handoff checkpoint r).1.log := by
  obtain ⟨spec, hid, hlog⟩ :=
    (ends_attemptRound h call used fresh handoff checkpoint r).first hprovider
  refine ⟨spec, hid, ?_⟩
  rw [attempts]
  split
  next r' result hround =>
    rw [hround] at hlog
    exact hlog
  next r' used' view hround =>
    rw [hround] at hlog
    exact hlog.trans (attempts_grows h call used' true "" view r')

lemma Standing.of_snoc {needsCanary : String → Bool} (hpassed : e ≠ .canaryPassed id)
    (hstanding : Standing needsCanary (log ++ [e]) id) : Standing needsCanary log id where
  unfailed hfailed := hstanding.unfailed (failed_snoc.mpr (.inl hfailed))
  proven hneeds hunproven :=
    hstanding.proven hneeds (unproven_snoc.mpr (.inr ⟨hunproven, hpassed⟩))

lemma not_each_attempts {fresh : Bool} {handoff : String} {checkpoint : CheckpointView V}
    (hprovider : r.provider.isSome = true)
    (hstanding : ¬Standing h.needsCanary r.log r.providerId) :
    ¬Each (Allowed h.needsCanary) (attempts h call used fresh handoff checkpoint r).1.log := by
  obtain ⟨spec, hid, hlog⟩ := attempts_first h call used fresh handoff checkpoint hprovider
  intro heach
  obtain ⟨-, hallowed, -⟩ := each_snoc.mp (heach.of_isPrefix hlog)
  rw [hid] at hallowed
  exact hstanding hallowed

lemma not_each_run (hready : ¬Ready h r call) :
    ¬Each (Allowed h.needsCanary) (run h call r).1.log := by
  obtain ⟨hstanding, hconnects⟩ := not_or.mp hready
  have hcalled : ¬Standing h.needsCanary (r.note (.called call.turnBudget)).log r.providerId :=
    fun hgood => hstanding (hgood.of_snoc (by simp))
  unfold run
  cases hprovider : r.provider with
  | some p => exact not_each_attempts (by simp [Runner.note, hprovider]) hcalled
  | none =>
    obtain ⟨p, hconnect⟩ : ∃ p, h.connect (r.log ++ [.called call.turnBudget]) r.providerId =
        .connected p := by
      by_contra hnone
      exact hconnects ⟨hprovider, fun p hp => hnone ⟨p, hp⟩⟩
    have hentry : initialReconnect h call.fresh call.checkpoint
        (r.note (.called call.turnBudget)) =
          ((r.note (.called call.turnBudget)).attach p, .ok (call.fresh, call.checkpoint)) := by
      unfold initialReconnect
      rw [Runner.note, hconnect]
    dsimp only
    rw [hentry]
    exact not_each_attempts rfl fun hgood => hcalled (hgood.of_snoc (by simp))

/-! ### Runs -/

lemma perform_kept (hkept : Kept h r) (op : Op V) (hready : ∀ call, op = .run call →
    Ready h r call) : Kept h (perform h r op) := by
  cases op with
  | run call => exact run_kept hkept (hready call rfl)
  | close => exact hkept.closeCurrent

lemma foldl_perform_kept (hkept : Kept h r) (ops : List (Op V))
    (hready : ∀ before call later, ops = before ++ .run call :: later →
      Ready h (before.foldl (perform h) r) call) : Kept h (ops.foldl (perform h) r) := by
  induction ops generalizing r with
  | nil => exact hkept
  | cons op ops ih =>
    refine ih (perform_kept hkept op fun call hop => ?_) fun before call later hops => ?_
    · exact hready [] call ops (by rw [hop, List.nil_append])
    · exact hready (op :: before) call later (by rw [hops, List.cons_append])

/-- Over any calls on a runner the budgets are kept and no provider is attempted that may have no
attempt, exactly when no call connects such a provider again or finds it open. -/
theorem failover_respects_iff (h : Host P V F R) (r : Runner P V) (hlog : r.log = [])
    (hswitches : r.switches ≤ r.maxSwitches) (ops : List (Op V)) :
    Respects h (ops.foldl (perform h) r) ↔
      ∀ before call later, ops = before ++ .run call :: later →
        Ready h (before.foldl (perform h) r) call := by
  constructor
  · rintro ⟨-, heach⟩ before call later rfl
    by_contra hready
    refine not_each_run hready (heach.of_isPrefix ?_)
    rw [List.foldl_append, List.foldl_cons]
    exact foldl_perform_grows h _ later
  · intro hready
    have hkept : Kept h r := ⟨hswitches, by rw [hlog]; exact each_nil, by
      rw [hlog]
      exact fun e he => absurd he List.not_mem_nil⟩
    have hend := foldl_perform_kept hkept ops hready
    exact ⟨hend.bounded, hend.allowed⟩

/-- A host whose attempts fail after a turn, and that has no other provider. -/
def failingHost : Host Unit Unit Unit Unit where
  attempt _ := .failed [1] ()
  selectNext _ _ := none
  connect _ _ := .connected ()
  needsCanary _ := false
  runCanary _ _ _ := .passed
  captureFailure _ := ()
  refreshCheckpoint _ := {}
  stopped _ := false
  fresh _ _ _ h := by cases h

def loneRunner : Runner Unit Unit := ⟨some (), "p1", 0, {"p1"}, 2, []⟩

def shortCall : Call Unit := ⟨"task", 1, true, "", {}⟩

/-- The first run of a runner with a connected provider. -/
theorem failover_respects_iff_first :
    Respects failingHost ([.run shortCall].foldl (perform failingHost) loneRunner) ∧
      ∀ before call later, [.run shortCall] = before ++ .run call :: later →
        Ready failingHost (before.foldl (perform failingHost) loneRunner) call := by
  have hready : ∀ before call later, [Op.run shortCall] = before ++ .run call :: later →
      Ready failingHost (before.foldl (perform failingHost) loneRunner) call := by
    rintro (_ | ⟨op, before⟩) call later h
    · exact Or.inl ⟨by simp [Failed, loneRunner], fun h => by cases h⟩
    · simp at h
  exact ⟨(failover_respects_iff failingHost loneRunner rfl (Nat.zero_le 2) _).mpr hready, hready⟩

/-- The provider whose attempt has failed is connected and attempted again. -/
theorem not_respects_lone :
    ¬Respects failingHost
      ([.run shortCall, .run shortCall].foldl (perform failingHost) loneRunner) := by
  rintro ⟨-, heach⟩
  refine not_each_run ?_ heach
  have hfailed : Failed (run failingHost shortCall loneRunner).1.log "p1" := by
    refine .inr (.inl ⟨[1], ?_⟩)
    unfold run
    rw [attempts]
    exact .tail _ (.tail _ (.head _))
  have hid : (run failingHost shortCall loneRunner).1.providerId = "p1" := by
    unfold run
    rw [attempts]
    rfl
  rintro (hstanding | ⟨-, hnever⟩)
  · refine hstanding.unfailed ?_
    change Failed _ (run failingHost shortCall loneRunner).1.providerId
    rw [hid]
    exact hfailed
  · exact hnever () rfl

end WriterFailover

end Codey
