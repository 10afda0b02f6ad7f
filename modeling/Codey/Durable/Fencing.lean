import Codey.Durable.Calls

/-!
# Execution fencing

An attempt of a task is a token in its checkpoint. Claims are the only steps that store a new
token, every other step keeps it or releases it, and a commit that names another token is
rejected.
-/

namespace Codey

def attemptKeys : List String :=
  ["attempt_token", "attempt_owner", "attempt_process_id", "attempt_number"]

def TaskStatus.parked (status : TaskStatus) : Bool := status = .pending || status = .waiting

/-! ### The store's fence -/

/-- A commit that names another token than the stored one is rejected, unless it only repeats an
admission; in no case does it change a table. -/
theorem SqliteStore.fence_rejects {s s' : SqliteStore} {m : DurableMutation} {t row : TaskCheckpoint}
    {r : CommitResult} (htask : m.task = some t) (hrow : s.tasks.get? t.taskId = some row)
    (htoken : m.expectedAttemptToken.getD "" ≠ row.state.attemptToken)
    (h : s.commit m = .ok (r, s')) : s' = s ∧ m.submission.isSome = true := by
  rcases commit_cases h with ⟨rfl, hsub⟩ | ⟨hdel, -⟩ | ⟨-, haccepted⟩
  · exact ⟨rfl, hsub⟩
  · have := m.conversationOnly_of_delete hdel
    simp [MutationData.conversationOnly, htask] at this
  · have hchecked := (checked_of_validateTask (haccepted.task t htask) hrow).1
    have := hchecked.attempt
    simp only [validExecutionAttempt, Bool.and_eq_true, decide_eq_true_eq] at this
    exact absurd this.1.symm htoken

lemma validExecutionAttempt_claimed {t : TaskCheckpoint} (c : Session) {token : String}
    (htoken : token ≠ "") (hpending : t.status = .pending) (hfree : t.state.attemptToken = "") :
    validExecutionAttempt t.toCheckpointData { t.toCheckpointData with
      state := c.claimedState t.state token, status := .running }
      (some t.state.attemptToken) = true := by
  have hnew : (c.claimedState t.state token).attemptToken = token := by
    simp [Session.claimedState, Fields.attemptToken, Fields.strD]
  have hnumber : (c.claimedState t.state token).attemptNumber = t.state.attemptNumber + 1 := by
    simp [Session.claimedState, Fields.attemptNumber]
  simp [validExecutionAttempt, hnew, hnumber, hfree, htoken, hpending]

/-! ### Claims -/

/-- The commit of a claim. -/
inductive ClaimSite (c : Session) (taskId token : String) (s : SqliteStore) (m : MutationData) :
    Prop where
  | claim {base next : TaskCheckpoint} {s₀ : SqliteStore} (seen : Evolves s₀ s)
      (row : s₀.tasks.get? taskId = some base) (pending : base.status = .pending)
      (task : m.task = some next) (updates : m.taskUpdates = [])
      (kept : m.deleteConversation = false)
      (next_eq : next.toCheckpointData = { base.toCheckpointData with
        phase := if base.phase = .accepted then .dispatching else base.phase
        revision := base.revision + 1
        state := c.claimedState base.state token
        status := .running })

lemma ClaimSite.unfenced (c : Session) (taskId token : String) :
    Unfenced (ClaimSite c taskId token) := by
  rintro s m expected ⟨seen, row, pending, task, updates, kept, next_eq⟩
  exact ⟨seen, row, pending, task, updates, kept, next_eq⟩

variable {taskId token : String} {s : SqliteStore}

lemma ClaimSite.kept {c : Session} {m : MutationData} (h : ClaimSite c taskId token s m) :
    m.deleteConversation = false := by
  cases h
  assumption

namespace Session

/-- A claim, among other sessions, commits as a claim. -/
lemma guards_claimTask_site {K : World → Prop} (c : Session) (taskId token : String) :
    Prog.Guards Others (Commits (ClaimSite c taskId token)) K (c.claimTask taskId token)
      fun _ _ => True := by
  have F := (Terms.unnamed_shared attemptKeys).frame
  refine Prog.guards_bind (guards_ensureUsable fun w _ => ?_)
  refine Prog.guards_bind (guards_task F fun w₁ current _ hget hid _ => ?_)
  refine Prog.guards_bind (guards_ensure fun hpending => ?_)
  refine Prog.guards_bind (guards_ensure fun _ => ?_)
  refine Prog.guards_bind (Prog.guards_ofExcept fun next hnext => ?_)
  have hnext := TaskCheckpoint.make_eq_ok.mp hnext
  refine Prog.guards_bind (guards_view fun w₂ _ hw₂ _ => ?_)
  exact guards_commitData F (ClaimSite.unfenced c taskId token) (F.stable w₂) rfl fun w₃ hw₃ =>
    .claim (F.trans _ _ _ hw₂ hw₃) hget (by simpa using hpending) rfl rfl rfl hnext

end Session

/-- How a claim changes the store: it revises its task, which was pending, and no other. -/
lemma Commits.claimed {c : Session} {w w' : World} (h : Commits (ClaimSite c taskId token) w w') :
    w'.store = w.store ∨ ∃ base next, w.store.tasks.get? taskId = some base ∧
      base.status = .pending ∧ next.taskId = taskId ∧ next.status = .running ∧
      next.state = c.claimedState base.state token ∧
      (∃ expected, Checked base next expected) ∧
      ∀ id, w'.store.tasks.get? id = if id = taskId then some next else w.store.tasks.get? id := by
  rcases h with heq | ⟨m, r, hcommit, ⟨seen, row, pending, task, updates, kept, next_eq⟩⟩
  · exact Or.inl heq
  rcases SqliteStore.commit_cases hcommit with ⟨heq, -⟩ | ⟨hdel, -⟩ | ⟨-, haccepted⟩
  · exact Or.inl heq
  · simp [kept] at hdel
  rename_i base next s₀
  have hbase : base.taskId = taskId := Table.key_of_get? (t := s₀.tasks) row
  have hid : next.taskId = taskId := by rw [next_eq, ← hbase]
  obtain ⟨hrow, hchecked⟩ := row_of_seen seen (by rw [hbase]; exact row) (by rw [hid, hbase])
    (by rw [next_eq]) (haccepted.task next task)
  refine Or.inr ⟨base, next, by rw [← hid]; exact hrow, pending, hid, by rw [next_eq],
    by rw [next_eq], ⟨_, hchecked⟩, fun id => ?_⟩
  have htasks : m.allTasks = [next] := by simp [MutationData.allTasks, task, updates]
  rw [haccepted.tasks_eq, htasks]
  simp only [List.foldl_cons, List.foldl_nil, Table.get?_put, hid, eq_comm]

/-! ### The other operations -/

def Session.Advance.parks (a : Session.Advance) : Bool :=
  (a.taskStatus.getD (taskStatusForPhase a.phase)).parked

def fenceTerms (call : Call) : Terms :=
  { Terms.unnamed attemptKeys with
    claims := False
    step := fun base a => Unnamed attemptKeys a.state ∧
      (a.parks = true → ∃ c, call = .advanceTask c base.taskId a) }

def Call.claims (taskId : String) : Call → Bool
  | .claimTask _ id _ => id = taskId
  | _ => false

/-- The operations of workers and of the scheduler, with maps that leave the attempt keys alone. -/
def Call.Fenced (call : Call) : Prop :=
  call.LeavesAlone attemptKeys ∧ match call with
    | .reconcileWaitingTasks .. => False
    | _ => True

/-- An attempt that one step of a call other than a claim leaves of another. -/
structure Fields.KeepsAttempt (before after : Fields) : Prop where
  number : after.attemptNumber = before.attemptNumber
  token : after.attemptToken = before.attemptToken ∨ after.attemptToken = ""

variable {before after : Fields}

lemma Fields.KeepsAttempt.of_get?
    (hnumber : after.get? "attempt_number" = before.get? "attempt_number")
    (htoken : after.get? "attempt_token" = before.get? "attempt_token") :
    KeepsAttempt before after where
  number := by simp only [attemptNumber, hnumber]
  token := Or.inl (by simp only [attemptToken, strD, htoken])

lemma Fields.KeepsAttempt.released (h : KeepsAttempt before after) :
    KeepsAttempt before (releaseAttemptState after) where
  number := by
    rw [← h.number]
    simp [releaseAttemptState, attemptNumber]
  token := Or.inr (by simp [releaseAttemptState, attemptToken, strD])

@[simp] lemma attemptToken_release (state : Fields) :
    (releaseAttemptState state).attemptToken = "" := by
  simp [releaseAttemptState, Fields.attemptToken, Fields.strD]

variable {status : TaskStatus}

/-- A task that holds no token when it is parked holds none behind a step that keeps its attempt. -/
lemma Fields.KeepsAttempt.fenced (h : KeepsAttempt before after)
    (hfree : status.parked = true → before.attemptToken = "") :
    KeepsAttempt before after ∧ (status.parked = true → after.attemptToken = "") :=
  ⟨h, fun hpark => h.token.elim (fun hsame => hsame.trans (hfree hpark)) id⟩

lemma Fields.KeepsAttempt.freed (h : KeepsAttempt before after) :
    KeepsAttempt before (releaseAttemptState after) ∧
      (status.parked = true → (releaseAttemptState after).attemptToken = "") :=
  ⟨h.released, fun _ => attemptToken_release _⟩

lemma number_mem : "attempt_number" ∈ attemptKeys := by decide

lemma token_mem : "attempt_token" ∈ attemptKeys := by decide

variable {call : Call}

/-- A change that is not a claim keeps the attempt or releases it, and parks no task that holds
one. -/
lemma Change.fenced {now : SqliteStore} {base : TaskCheckpoint} {phase : Phase}
    {state : Fields} {status : TaskStatus} {intents settled : List EffectRecord}
    (h : Change (fenceTerms call) now base phase state status intents settled)
    (hparked : base.status.parked = true → base.state.attemptToken = "")
    (hstatus : status.parked = true → validTaskStatusTransition (some base.status) status = true)
    (hparks : ∀ c a, call = .advanceTask c base.taskId a → a.parks = true →
      base.state.attemptToken = "") :
    Fields.KeepsAttempt base.state state ∧ (status.parked = true → state.attemptToken = "") := by
  cases h with
  | claim c token hclaims _ => exact absurd hclaims id
  | release => exact (Fields.KeepsAttempt.of_get? rfl rfl).freed
  | park w _ _ hwait =>
    obtain ⟨s, -, hparks', -⟩ := hwait
    have hkeeps : Fields.KeepsAttempt base.state
        (releaseAttemptState (base.state.merge (w.state.getD []))) :=
      (Fields.KeepsAttempt.of_get? (by simp [hparks' _ number_mem])
        (by simp [hparks' _ token_mem])).released
    have hnumber : (Session.parkedState base.state (Session.waitDependencies base.state w)
        w).attemptNumber = base.state.attemptNumber := by
      rw [← hkeeps.number]
      simp [Session.parkedState, Fields.attemptNumber]
    have htoken : (Session.parkedState base.state (Session.waitDependencies base.state w)
        w).attemptToken = "" := by
      simp [Session.parkedState, releaseAttemptState, Fields.attemptToken, Fields.strD]
    exact ⟨⟨hnumber, Or.inr htoken⟩, fun _ => htoken⟩
  | hold patch reason _ hpatch heq =>
    refine Fields.KeepsAttempt.fenced
      (.of_get? (by simp [Session.cancelState, hpatch _ number_mem])
        (by simp [Session.cancelState, hpatch _ token_mem])) fun hpark => hparked ?_
    have htrans := hstatus hpark
    rcases heq with rfl | rfl <;> cases hbase : base.status <;>
      simp [hbase, Session.heldStatus, TaskStatus.parked, validTaskStatusTransition,
        taskStatusTransitions] at hpark htrans ⊢
  | cancel state hstate _ =>
    refine Fields.KeepsAttempt.freed ?_
    cases hstate with
    | patched patch reason hpatch =>
      exact .of_get? (by simp [Session.cancelState, hpatch _ number_mem])
        (by simp [Session.cancelState, hpatch _ token_mem])
    | parked s w hw => exact .of_get? (by simp [hw _ number_mem]) (by simp [hw _ token_mem])
    | recovered => exact .of_get? (by simp) (by simp)
    | held => exact .of_get? rfl rfl
  | fail patch pending effects hpatch _ _ =>
    exact (Fields.KeepsAttempt.of_get? (by simp [hpatch _ number_mem])
      (by simp [hpatch _ token_mem])).freed
  | advance c a hstep _ _ =>
    refine Fields.KeepsAttempt.fenced (.of_get? ?_ ?_) fun hpark => ?_
    · rw [c.get?_advancedState base a.state (by decide), if_pos (by decide),
        hstep.1 _ number_mem, Option.or_none]
    · rw [c.get?_advancedState base a.state (by decide), if_pos (by decide),
        hstep.1 _ token_mem, Option.or_none]
    · obtain ⟨c', hcall⟩ := hstep.2 hpark
      exact hparks c' a hcall hpark
  | update patch hpatch =>
    exact Fields.KeepsAttempt.fenced (.of_get? (by simp [hpatch _ number_mem])
      (by simp [hpatch _ token_mem])) hparked
  | intents effects next hnext =>
    exact Fields.KeepsAttempt.fenced (.of_get? (get?_withEffectIntents hnext (by decide))
      (get?_withEffectIntents hnext (by decide))) hparked
  | settle effect next hnext =>
    exact Fields.KeepsAttempt.fenced (.of_get? (get?_withEffectSettlement hnext (by decide))
      (get?_withEffectSettlement hnext (by decide))) hparked
  | approval settled next resume id h =>
    have hkeeps : Fields.KeepsAttempt base.state next.state := by
      rcases h with ⟨hstate, -⟩ | ⟨e, next', -, hnext', rfl⟩
      · exact .of_get? (by rw [hstate]) (by rw [hstate])
      · exact .of_get? (get?_withEffectSettlement hnext' (by decide))
          (get?_withEffectSettlement hnext' (by decide))
    cases resume with
    | true =>
      refine Fields.KeepsAttempt.freed ⟨?_, ?_⟩
      · rw [← hkeeps.number]
        simp [Fields.attemptNumber]
      · refine hkeeps.token.imp (fun h => ?_) fun h => ?_ <;> rw [← h] <;>
          simp [Fields.attemptToken, Fields.strD]
    | false => exact hkeeps.fenced hparked
  | answer question answer entryId revision hlive =>
    have hkeeps : Fields.KeepsAttempt base.state
        (Session.answeredState base question answer entryId revision) :=
      .of_get? (by simp [Session.answeredState]) (by simp [Session.answeredState])
    split
    · exact hkeeps.freed
    · exact hkeeps.fenced hparked
  | runtime intents settled next v rest hnext hrest =>
    have hnone : ∀ key ∈ attemptKeys, rest.get? key = none := by
      intro key hkey
      by_contra hne
      simp only [attemptKeys, List.mem_cons, List.not_mem_nil, or_false] at hkey
      rcases hkey with rfl | rfl | rfl | rfl <;>
        simpa using hrest _ (Option.isSome_iff_ne_none.mpr hne)
    refine Fields.KeepsAttempt.fenced (.of_get? ?_ ?_) hparked
    · rw [Fields.get?_merge, hnone _ number_mem, Option.none_or,
        Session.get?_runtimeState _ _ (by decide), Session.get?_withEffectChanges hnext (by decide)]
    · rw [Fields.get?_merge, hnone _ token_mem, Option.none_or,
        Session.get?_runtimeState _ _ (by decide), Session.get?_withEffectChanges hnext (by decide)]

/-! ### Runs -/

def Call.ParksHeld (call : Call) (s : SqliteStore) : Prop :=
  ∃ c taskId a t, call = .advanceTask c taskId a ∧ a.parks = true ∧
    s.tasks.get? taskId = some t ∧ t.state.attemptToken ≠ ""

def ParkedFree (s : SqliteStore) : Prop :=
  ∀ id t, s.tasks.get? id = some t → t.status.parked = true → t.state.attemptToken = ""

def committedClaims (taskId : String) (tr : List (Call × World × World)) : Nat :=
  tr.countP fun e => e.1.claims taskId
    && decide (e.2.1.store.tasks.get? taskId ≠ e.2.2.store.tasks.get? taskId)

/-- How one step treats the attempt of a task: `claimed` tells whether it is a committed claim. -/
structure AttemptStep (claimed : Bool) (before after : Fields) : Prop where
  number : after.attemptNumber = before.attemptNumber + if claimed then 1 else 0
  token : after.attemptToken = before.attemptToken ∨ after.attemptToken = "" ∨
    (before.attemptToken = "" ∧ claimed = true)

lemma Fields.KeepsAttempt.attemptStep (h : KeepsAttempt before after) :
    AttemptStep false before after where
  number := by simpa using h.number
  token := h.token.imp_right Or.inl

/-- How a step of a system treats attempts: parked tasks hold none, the attempts of stored tasks are
stepped, and new tasks start without one. -/
structure FenceStep (call : Call) (s s' : SqliteStore) : Prop where
  parked : ParkedFree s'
  attempt : ∀ id t, s.tasks.get? id = some t → ∃ t', s'.tasks.get? id = some t' ∧
    AttemptStep (call.claims id && decide (s.tasks.get? id ≠ s'.tasks.get? id)) t.state t'.state
  fresh : ∀ id t', s.tasks.get? id = none → s'.tasks.get? id = some t' →
    t'.state.attemptNumber = 0 ∧ call.claims id = false

lemma FenceStep.refl (h : ParkedFree s) : FenceStep call s s where
  parked := h
  attempt _ t ht := ⟨t, ht, by simp, Or.inl rfl⟩
  fresh _ _ hnone hsome := by simp [hnone] at hsome

/-- A committed claim is counted, and takes the token of a task that held none. -/
lemma Commits.fenceStep {c : Session} {w w' : World} (hs : ParkedFree w.store)
    (h : Commits (ClaimSite c taskId token) w w') :
    FenceStep (.claimTask c taskId token) w.store w'.store := by
  rcases h.claimed with heq | ⟨base, next, hrow, hpending, hid, hrunning, hstate, ⟨_, hchecked⟩,
    htasks⟩
  · rw [heq]
    exact .refl hs
  have hfree : base.state.attemptToken = "" := hs taskId base hrow (by simp [hpending,
    TaskStatus.parked])
  have hnumber : next.state.attemptNumber = base.state.attemptNumber + 1 := by
    simp [hstate, Session.claimedState, Fields.attemptNumber]
  constructor
  · intro id t ht hpark
    rw [htasks] at ht
    split at ht
    · obtain rfl := Option.some.inj ht
      simp [hrunning, TaskStatus.parked] at hpark
    · exact hs id t ht hpark
  · intro id t ht
    rw [htasks]
    by_cases hid' : id = taskId
    · subst hid'
      obtain rfl := Option.some.inj (hrow.symm.trans ht)
      have hne : ¬ some base = some next := by
        intro heq
        have := hchecked.revision
        rw [Option.some.inj heq] at this
        omega
      refine ⟨next, by simp, ?_, ?_⟩
      · simpa [Call.claims, hrow, hne] using hnumber
      · exact Or.inr (Or.inr ⟨hfree, by simp [Call.claims, hrow, hne]⟩)
    · refine ⟨t, by simp [hid', ht], ?_, Or.inl rfl⟩
      simp [Call.claims, Ne.symm hid']
  · intro id t hnone hsome
    rw [htasks] at hsome
    split at hsome
    · rename_i heq
      simp [heq, hrow] at hnone
    · simp [hnone] at hsome

/-- What one written row makes of the attempt that was stored. -/
lemma Wrote.fenced {m : DurableMutation} {t : TaskCheckpoint} (hs : ParkedFree s)
    (hparks : ¬ call.ParksHeld s) (h : Wrote (fenceTerms call) s m t) :
    (t.status.parked = true → t.state.attemptToken = "") ∧
    (∀ row, s.tasks.get? t.taskId = some row → Fields.KeepsAttempt row.state t.state) ∧
    (s.tasks.get? t.taskId = none → t.state.attemptNumber = 0) := by
  cases h with
  | @revised base phase state status intents settled folded pending row change folded_eq next_eq
      checked task effects settlements expected =>
    have hid : t.taskId = base.taskId := by rw [next_eq]
    have hstatus : t.status = status := by rw [next_eq]
    have hget : ∀ key ∈ attemptKeys, t.state.get? key = state.get? key := by
      intro key hkey
      have hne : ¬ "approvals" = key := fun heq => by simp [← heq, attemptKeys] at hkey
      rw [next_eq]
      rcases folded_eq with rfl | ⟨approvals, rfl⟩ <;> simp [hne]
    have htoken : t.state.attemptToken = state.attemptToken := by
      simp only [Fields.attemptToken, Fields.strD, hget "attempt_token" (by decide)]
    have hnumber : t.state.attemptNumber = state.attemptNumber := by
      simp only [Fields.attemptNumber, hget "attempt_number" (by decide)]
    have htransition : status.parked = true →
        validTaskStatusTransition (some base.status) status = true := by
      intro hpark
      rw [← hstatus] at hpark ⊢
      refine checked.status.resolve_left fun hconsumed => ?_
      simp only [validInputConsumption, Bool.and_eq_true, decide_eq_true_eq] at hconsumed
      simp [hconsumed.1.1.1.1.2, TaskStatus.parked] at hpark
    obtain ⟨hkeeps, hfree⟩ := change.fenced (hs _ base row) htransition fun c a hcall hpark =>
      by_contra fun hne => hparks ⟨c, base.taskId, a, base, hcall, hpark, hid ▸ row, hne⟩
    rw [htoken, hstatus]
    refine ⟨hfree, fun row' hrow' => ?_, fun hnone => ?_⟩
    · obtain rfl := Option.some.inj (row.symm.trans hrow')
      exact ⟨hnumber.trans hkeeps.number, by rw [htoken]; exact hkeeps.token⟩
    · rw [row] at hnone
      cases hnone
  | @placed base entryId consumer consumed row next_eq checked unfenced =>
    have hkeeps : Fields.KeepsAttempt base.state t.state := by
      rw [next_eq]
      refine .of_get? ?_ ?_ <;>
      · simp only [Session.placedState]
        split <;> simp
    refine ⟨fun hpark => ?_, fun row' hrow' => ?_, fun hnone => ?_⟩
    · refine hkeeps.token.elim (fun h => h.trans (hs _ base row ?_)) id
      rw [next_eq] at hpark
      simp only [Session.placedState] at hpark
      split at hpark
      · simp [TaskStatus.parked] at hpark
      · exact hpark
    · obtain rfl := Option.some.inj (row.symm.trans hrow')
      exact hkeeps
    · rw [row] at hnone
      cases hnone
  | @admitted c a entry row admits next_eq initial owner task effects =>
    have hget : ∀ key ∈ attemptKeys, t.state.get? key = none := by
      intro key hkey
      have hnone := admits key hkey
      rw [next_eq]
      simp only [attemptKeys, List.mem_cons, List.not_mem_nil, or_false] at hkey
      rcases hkey with rfl | rfl | rfl | rfl <;>
        cases entry <;> cases hworkflow : a.workflow <;>
        simp [Session.admittedState, Session.workflowState, hnone, hworkflow]
    refine ⟨fun _ => ?_, fun row' hrow' => ?_, fun _ => ?_⟩
    · simp [Fields.attemptToken, Fields.strD, hget "attempt_token" (by decide)]
    · rw [row] at hrow'
      cases hrow'
    · simp [Fields.attemptNumber, hget "attempt_number" (by decide)]

lemma Revises.fenceStep {s s' : SqliteStore} (hs : ParkedFree s) (hparks : ¬ call.ParksHeld s)
    (hcall : ∀ id, call.claims id = false) (h : Revises (fenceTerms call) s s') :
    FenceStep call s s' := by
  rcases h with rfl | ⟨m, r, -, haccepted, hwrote⟩
  · exact .refl hs
  have hwritten := fun t ht => (hwrote t ht).fenced hs hparks
  constructor
  · intro id t ht
    rcases haccepted.get?_tasks id with ⟨t', hmem, -, hget⟩ | ⟨-, hget⟩
    · obtain rfl := Option.some.inj (hget.symm.trans ht)
      exact (hwritten t' hmem).1
    · exact hs id t (by rw [← hget, ht])
  · intro id t ht
    rw [hcall id, Bool.false_and]
    rcases haccepted.get?_tasks id with ⟨t', hmem, rfl, hget⟩ | ⟨-, hget⟩
    · exact ⟨t', hget, ((hwritten t' hmem).2.1 t ht).attemptStep⟩
    · exact ⟨t, by rw [hget, ht], by simp, Or.inl rfl⟩
  · intro id t hnone hsome
    refine ⟨?_, hcall id⟩
    rcases haccepted.get?_tasks id with ⟨t', hmem, rfl, hget⟩ | ⟨-, hget⟩
    · obtain rfl := Option.some.inj (hget.symm.trans hsome)
      exact (hwritten t' hmem).2.2 hnone
    · rw [hget, hnone] at hsome
      cases hsome

/-- A fenced call keeps to the terms of fencing. -/
lemma Call.Fenced.meets (h : call.Fenced) (hclaim : ∀ id, call.claims id = false) (w : World) :
    call.Meets Others (fenceTerms call) w := by
  obtain ⟨halone, hlisted⟩ := h
  have hkeys : ∀ key ∈ attemptKeys, key ∉ internalKeys := by decide
  have hmeets := halone.meets hkeys w
  have hcompletion : ∀ {answer state}, Unnamed attemptKeys state →
      ∀ base a, Session.CompletionStep answer state a → (fenceTerms call).step base a := by
    intro answer state hstate base a ha
    refine ⟨unnamed_completion hkeys hstate ha, fun hpark => ?_⟩
    rcases ha.status with hnone | hsome <;> rcases ha.phase with hphase | hphase | hphase <;>
      simp [Session.Advance.parks, TaskStatus.parked, taskStatusForPhase, *] at hpark
  cases call with
  | claimTask c taskId token => simpa [Call.claims] using hclaim taskId
  | advanceTask c taskId a =>
    exact ⟨fun base hbase => ⟨halone, fun _ => ⟨c, by rw [hbase]⟩⟩, fun _ _ => trivial⟩
  | startTask => exact fun _ => hcompletion halone
  | finishTask => exact hcompletion halone
  | completeTask => exact hcompletion halone
  | reconcileWaitingTasks => exact absurd hlisted id
  | reconcileFinalization => exact absurd halone id
  | _ => exact hmeets

/-- Every step of a system of fenced calls treats attempts as it should. -/
lemma System.fenceSteps {w₀ : World} (hempty : w₀.store = {}) {tr : List (Call × World × World)}
    {P : System} (hrun : Pool.Run Call.prog ⟨w₀, []⟩ tr P) (hcalls : ∀ e ∈ tr, e.1.Fenced)
    (hparks : ∀ e ∈ tr, ¬ e.1.ParksHeld e.2.1.store) :
    ParkedFree P.state.store ∧ ∀ e ∈ tr, FenceStep e.1 e.2.1.store e.2.2.store := by
  let G : Call → World → World → Prop := fun call => match call with
    | .claimTask c taskId token => Commits (ClaimSite c taskId token)
    | call => Commits (Site (fenceTerms call))
  have hG : ∀ call w w', G call w w' → Others w w' := by
    intro call w w' h
    cases call with
    | claimTask c taskId token =>
      rcases h with heq | ⟨m, r, hcommit, hsite⟩
      · rw [Others, heq]
        exact Evolves.refl w.store
      · exact evolves_of_commit hcommit hsite.kept
    | _ => exact (Commits.revises (fun _ _ h => h) h).evolves
  have hstart : ∀ (call : Call) (w : World), call.Fenced →
      Prog.Guards Others (G call) (Others w) call.prog fun _ _ => True := by
    intro call w hcall
    have hshared : (fenceTerms call).Shared := ⟨rfl, fun _ _ => trivial, fun _ => trivial⟩
    have hguards := fun hclaim => Call.guards hshared.frame (fun _ _ _ => trivial) hshared.keeps
      (hcall.meets hclaim w)
    cases call with
    | claimTask c taskId token =>
      exact Prog.guards_seq (Session.guards_claimTask_site c taskId token) fun _ _ => trivial
    | _ => exact hguards fun _ => rfl
  have hsteps := System.steps hG hstart hrun hcalls
  have hfence : ∀ e ∈ tr, ParkedFree e.2.1.store → FenceStep e.1 e.2.1.store e.2.2.store := by
    intro e he hfree
    rcases hsteps e he with heq | hstep
    · rw [heq]
      exact .refl hfree
    · obtain ⟨call, w, w'⟩ := e
      cases call with
      | claimTask c taskId token => exact Commits.fenceStep hfree hstep
      | _ =>
        exact (Commits.revises (fun _ _ h => h) hstep).fenceStep hfree (hparks _ he) fun _ => rfl
  obtain ⟨hfree, hall⟩ := hrun.invariant (I := fun w => ParkedFree w.store)
    (by rw [hempty]; exact fun _ _ h => by simp at h) fun e he hfree => (hfence e he hfree).parked
  exact ⟨hfree, fun e he => hfence e he (hall e he).1⟩

/-- The attempt numbers count the committed claims. -/
lemma System.attemptNumber_eq {w₀ : World} (hempty : w₀.store = {})
    {tr : List (Call × World × World)} {P : System}
    (hrun : Pool.Run Call.prog ⟨w₀, []⟩ tr P)
    (hsteps : ∀ e ∈ tr, FenceStep e.1 e.2.1.store e.2.2.store) (taskId : String) :
    match P.state.store.tasks.get? taskId with
    | some t => t.state.attemptNumber = committedClaims taskId tr
    | none => committedClaims taskId tr = 0 := by
  refine hrun.trace_induction (I := fun done w => match w.store.tasks.get? taskId with
    | some t => t.state.attemptNumber = committedClaims taskId done
    | none => committedClaims taskId done = 0) (by simp [hempty, committedClaims]) ?_
  intro done e he hdone
  have hstep := hsteps e he
  have hcount : committedClaims taskId (done ++ [e]) = committedClaims taskId done +
      if (e.1.claims taskId && decide (e.2.1.store.tasks.get? taskId ≠
        e.2.2.store.tasks.get? taskId)) = true then 1 else 0 := by
    simp only [committedClaims, List.countP_append, List.countP_singleton]
  rw [hcount]
  cases hbefore : e.2.1.store.tasks.get? taskId with
  | some t =>
    rw [hbefore] at hdone
    obtain ⟨t', ht', hattempt⟩ := hstep.attempt taskId t hbefore
    rw [hbefore, ht'] at hattempt
    simp only [ht']
    rw [← hdone]
    exact hattempt.number
  | none =>
    rw [hbefore] at hdone
    cases hafter : e.2.2.store.tasks.get? taskId with
    | none => simpa using hdone
    | some t' =>
      obtain ⟨hzero, hclaims⟩ := hstep.fresh taskId t' hbefore hafter
      simp only [hclaims, Bool.false_and, Bool.false_eq_true, if_false, hdone]
      exact hzero

/-- In every state that a system reaches from an empty store: the attempt number of a task is the
number of its committed claims, a parked task holds no token, hence the fence admits its claim, and
a commit that names another token than the stored one changes no table, and is rejected unless it
repeats an admission. Along the way a token changes only by being released, or by a committed claim
of a task that holds none. -/
theorem execution_fencing {w₀ : World} (hempty : w₀.store = {}) {P : System}
    {tr : List (Call × World × World)} (hrun : Pool.Run Call.prog ⟨w₀, []⟩ tr P)
    (hcalls : ∀ e ∈ tr, e.1.Fenced) (hparks : ∀ e ∈ tr, ¬ e.1.ParksHeld e.2.1.store) :
    (∀ id t, P.state.store.tasks.get? id = some t →
      t.state.attemptNumber = committedClaims id tr ∧
      (t.status = .pending ∨ t.status = .waiting → t.state.attemptToken = "") ∧
      (t.status = .pending → ∀ (c : Session) token, token ≠ "" →
        validExecutionAttempt t.toCheckpointData { t.toCheckpointData with
          state := c.claimedState t.state token, status := .running }
          (some t.state.attemptToken) = true)) ∧
    (∀ (m : DurableMutation) t row, m.task = some t →
      P.state.store.tasks.get? t.taskId = some row →
      m.expectedAttemptToken.getD "" ≠ row.state.attemptToken →
      (∀ r s', P.state.store.commit m = .ok (r, s') →
        s' = P.state.store ∧ m.submission.isSome = true) ∧
      ∀ c : Session, (c.afterCommit m P.state).store = P.state.store) ∧
    ∀ e ∈ tr, ∀ id t t', e.2.1.store.tasks.get? id = some t →
      e.2.2.store.tasks.get? id = some t' → t'.state.attemptToken ≠ t.state.attemptToken →
      t'.state.attemptToken = "" ∨ (t.state.attemptToken = "" ∧ e.1.claims id = true) := by
  obtain ⟨hfree, hsteps⟩ := System.fenceSteps hempty hrun hcalls hparks
  refine ⟨fun id t ht => ?_, fun m t row htask hrow htoken => ?_, fun e he id t t' ht ht' hne => ?_⟩
  · have hnumber := System.attemptNumber_eq hempty hrun hsteps id
    rw [ht] at hnumber
    have hparked : t.status = .pending ∨ t.status = .waiting → t.state.attemptToken = "" :=
      fun hstatus => hfree id t ht (by simpa [TaskStatus.parked] using hstatus)
    exact ⟨hnumber, hparked, fun hpending c token htoken =>
      validExecutionAttempt_claimed c htoken hpending (hparked (Or.inl hpending))⟩
  · have hreject := fun r s' => @SqliteStore.fence_rejects P.state.store s' m t row r htask hrow
      htoken
    refine ⟨hreject, fun c => ?_⟩
    unfold Session.afterCommit
    split
    · rename_i hcommit
      exact (hreject _ _ hcommit).1
    · split <;> rfl
  · obtain ⟨t₁, ht₁, hattempt⟩ := (hsteps e he).attempt id t ht
    obtain rfl := Option.some.inj (ht₁.symm.trans ht')
    rcases hattempt.token with heq | hreleased | ⟨hnone, hclaimed⟩
    · exact absurd heq hne
    · exact Or.inl hreleased
    · rw [Bool.and_eq_true] at hclaimed
      exact Or.inr ⟨hnone, hclaimed.1⟩

def sampleAttempt : List Call :=
  [.admitInput firstSession (plainInput "task" none), .claimTask firstSession "task" "token",
    .unclaimTask firstSession "task", .claimTask laterSession "task" "token-2"]

theorem execution_fencing_sample : ∃ tr P, Pool.Run Call.prog ⟨{ store := {} }, []⟩ tr P ∧
    (P.state.store.tasks.get? "task").map (·.state.attemptToken) = some "token-2" ∧
    committedClaims "task" tr = 2 := by
  obtain ⟨tr, P, hrun, hstate, hmem⟩ :=
    Pool.Run.execute Call.prog sampleAttempt ⟨{ store := {} }, []⟩
  have hcall : ∀ e ∈ tr, e.1.Fenced ∧ ∀ c id a, e.1 ≠ .advanceTask c id a := fun e he => by
    have := hmem e he
    simp only [sampleAttempt, List.mem_cons, List.not_mem_nil, or_false] at this
    rcases this with h | h | h | h <;> rw [h] <;>
      simp [Call.Fenced, Call.LeavesAlone, Unnamed, attemptKeys, plainInput]
  have hfencing := execution_fencing rfl hrun (fun e he => (hcall e he).1)
    fun e he ⟨c, id, a, _, h, _⟩ => (hcall e he).2 c id a h
  have htask : (P.state.store.tasks.get? "task").map (·.state.attemptNumber) = some 2 := by
    rw [hstate]
    decide +kernel
  obtain ⟨t, ht, hnumber⟩ := Option.map_eq_some_iff.mp htask
  refine ⟨tr, P, hrun, ?_, ?_⟩
  · rw [hstate]
    decide +kernel
  · rw [← (hfencing.1 "task" t ht).1]
    exact hnumber

/-- The admission of the input "task" once more, in the name of another attempt. -/
def refenced : DurableMutation where
  conversationId := "conversation-task"
  expectedRevision := 0
  submission := some {
    submissionId := "submission-task", requestId := "request-task"
    conversationId := "conversation-task", entry := none, placement := .queued
    content := some [("message_metadata", .obj []), ("text", .str "go on")]
    valid := by decide +kernel }
  task := some {
    taskId := "task", conversationId := "conversation-task", submissionId := "submission-task"
    phase := .accepted, revision := 0, providerSnapshot := [], state := [], status := .pending
    valid := by decide +kernel }
  expectedAttemptToken := some "other"
  valid := by decide +kernel

/-- Without the conditions on callers attempts go wrong: a task step may park a task that holds a
token, and one of a task that was never claimed may bring an attempt along. The fence does not
reject an admission that was committed before. -/
theorem execution_fencing_unconditional :
    (∃ tr P t, Pool.Run Call.prog ⟨{ store := {} }, []⟩ tr P ∧
      P.state.store.tasks.get? "task" = some t ∧ t.status = .pending ∧
      t.state.attemptToken = "token") ∧
    (∃ tr P t, Pool.Run Call.prog ⟨{ store := {} }, []⟩ tr P ∧
      P.state.store.tasks.get? "task" = some t ∧ t.state.attemptNumber = 1 ∧
      committedClaims "task" tr = 0) ∧
    ∃ tr P, Pool.Run Call.prog ⟨{ store := {} }, []⟩ tr P ∧
      (P.state.store.tasks.get? "task").map (·.state.attemptToken) = some "token" ∧
      (P.state.store.commit refenced).isOk = true := by
  refine ⟨?_, ?_, ?_⟩
  · obtain ⟨tr, P, hrun, hstate, -⟩ := Pool.Run.execute Call.prog
      [.admitInput firstSession (plainInput "task" none),
        .claimTask firstSession "task" "token",
        .advanceTask firstSession "task" { phase := .accepted, state := [] }]
      ⟨{ store := {} }, []⟩
    have htask : (P.state.store.tasks.get? "task").map
        (fun t => (t.status, t.state.attemptToken)) = some (.pending, "token") := by
      rw [hstate]
      decide +kernel
    obtain ⟨t, ht, heq⟩ := Option.map_eq_some_iff.mp htask
    exact ⟨tr, P, t, hrun, ht, congrArg Prod.fst heq, congrArg Prod.snd heq⟩
  · obtain ⟨tr, P, hrun, hstate, hmem⟩ := Pool.Run.execute Call.prog
      [.admitInput firstSession (plainInput "task" none),
        .startTask firstSession "task" [("attempt_token", .str "token"),
          ("attempt_owner", .str "owner-1"), ("attempt_process_id", .int 1),
          ("attempt_number", .int 1)]]
      ⟨{ store := {} }, []⟩
    have htask : (P.state.store.tasks.get? "task").map (·.state.attemptNumber) = some 1 := by
      rw [hstate]
      decide +kernel
    obtain ⟨t, ht, hnumber⟩ := Option.map_eq_some_iff.mp htask
    refine ⟨tr, P, t, hrun, ht, hnumber, ?_⟩
    refine List.countP_eq_zero.mpr fun e he => ?_
    have := hmem e he
    simp only [List.mem_cons, List.not_mem_nil, or_false] at this
    rcases this with h | h <;> simp [h, Call.claims]
  · obtain ⟨tr, P, hrun, hstate, -⟩ := Pool.Run.execute Call.prog
      [.admitInput firstSession { plainInput "task" none with placement := .queued },
        .claimTask firstSession "task" "token"]
      ⟨{ store := {} }, []⟩
    refine ⟨tr, P, hrun, ?_, ?_⟩ <;> rw [hstate] <;> decide +kernel

end Codey
