import Codey.Durable.SchedulingSites
import Codey.Durable.ExecutionSites

/-!
# Revisions of a task

A commit replaces a task row by its next revision. Since a site revises a checkpoint that was read
before, the row it replaces is that checkpoint.
-/

namespace Codey

/-! ### What the store has checked -/

/-- What the store has checked of the revision of a row. -/
structure Checked (row t : TaskCheckpoint) (expected : Option String) : Prop where
  barrier : row.state.cancelRequested = true → t.phase = .cancelled ∨ t.phase = .failed ∨
    validCancellationCleanup SqliteStore.loadedSame row.state t.toCheckpointData = true
  attempt : validExecutionAttempt row.toCheckpointData t.toCheckpointData expected = true
  revision : t.revision = row.revision + 1
  conversation : row.conversationId = t.conversationId
  submission : row.submissionId = t.submissionId
  frozen : validFrozenTaskState row.state t.state = true
  phase : validInputConsumption row.toCheckpointData t.toCheckpointData = true ∨
    validTaskTransition (some row.phase) t.phase = true
  status : validInputConsumption row.toCheckpointData t.toCheckpointData = true ∨
    validTaskStatusTransition (some row.status) t.status = true

lemma Checked.live {row t : TaskCheckpoint} {expected : Option String}
    (h : Checked row t expected) (ht : t.status.terminal = false) :
    row.status.terminal = false := by
  by_contra hrow
  rw [Bool.not_eq_false] at hrow
  rcases h.status with hconsumed | htransition
  · simp only [validInputConsumption, Bool.and_eq_true, decide_eq_true_eq] at hconsumed
    simp [hconsumed.1.1.1.1.2, TaskStatus.terminal] at ht
  · rw [TaskStatus.terminal_of_transition htransition hrow, hrow] at ht
    cases ht

namespace SqliteStore

lemma checked_of_validate {row t : TaskCheckpoint} {expected : Option String}
    (h : validateExistingTask row t expected = .ok ()) : Checked row t expected := by
  simp only [validateExistingTask, except_seq_eq_ok, require_eq_ok, Bool.or_eq_true,
    Bool.and_eq_true, decide_eq_true_eq, Bool.not_eq_true'] at h
  obtain ⟨hbarrier, hattempt, hrevision, ⟨⟨hconv, hsub⟩, -⟩, hfrozen, hphase, hstatus⟩ := h
  refine ⟨fun hcancel => ?_, hattempt, hrevision, hconv, hsub, hfrozen, hphase, hstatus⟩
  simpa [hcancel, or_assoc] using hbarrier

variable {s s' : SqliteStore} {m : DurableMutation} {t row : TaskCheckpoint}
  {proposed : Option SubmissionDraft} {expected : Option String}

lemma checked_of_validateTask (h : s.validateTask t proposed expected = .ok ())
    (hrow : s.tasks.get? t.taskId = some row) :
    Checked row t expected ∧ s.validateTaskOwner t = .ok () := by
  obtain ⟨-, h⟩ := except_seq_eq_ok.mp h
  rw [hrow] at h
  obtain ⟨howner, h⟩ := except_seq_eq_ok.mp h
  exact ⟨checked_of_validate h, howner⟩

lemma revision_zero_of_validateTask (h : s.validateTask t proposed expected = .ok ())
    (hrow : s.tasks.get? t.taskId = none) :
    t.revision = 0 ∧ s.validateTaskOwner t = .ok () := by
  obtain ⟨-, h⟩ := except_seq_eq_ok.mp h
  rw [hrow] at h
  simp only [except_seq_eq_ok, require_eq_ok, decide_eq_true_eq] at h
  exact ⟨h.1, h.2.2.1⟩

lemma Accepted.validated (h : Accepted s m s') (ht : t ∈ m.allTasks) :
    (m.task = some t ∧ s.validateTask t m.submission m.expectedAttemptToken = .ok ()) ∨
      (t ∈ m.taskUpdates ∧ s.validateTask t none none = .ok ()) := by
  simp only [MutationData.allTasks, List.mem_append, Option.mem_toList] at ht
  rcases ht with ht | ht
  · exact Or.inl ⟨ht, h.task t ht⟩
  · exact Or.inr ⟨ht, h.taskUpdates t ht⟩

lemma Accepted.get?_tasks (h : Accepted s m s') (id : String) :
    (∃ t ∈ m.allTasks, t.taskId = id ∧ s'.tasks.get? id = some t) ∨
      (∀ t ∈ m.allTasks, t.taskId ≠ id) ∧ s'.tasks.get? id = s.tasks.get? id :=
  h.tasks_eq ▸ Table.get?_foldl_put_cases m.allTasks_nodup s.tasks id

lemma Accepted.get?_effects (h : Accepted s m s') (id : String) :
    (∃ e ∈ m.allEffects, e.effectId = id ∧ s'.effects.get? id = some e) ∨
      (∀ e ∈ m.allEffects, e.effectId ≠ id) ∧ s'.effects.get? id = s.effects.get? id :=
  h.effects_eq ▸ Table.get?_foldl_put_cases m.allEffects_nodup s.effects id

end SqliteStore

/-! ### Evolution -/

def Evolves (s s' : SqliteStore) : Prop :=
  ∀ id row, s.tasks.get? id = some row → ∃ row', s'.tasks.get? id = some row' ∧
    row.revision ≤ row'.revision ∧ (row'.revision = row.revision → row' = row)

lemma Evolves.refl (s : SqliteStore) : Evolves s s :=
  fun _ row h => ⟨row, h, le_refl _, fun _ => rfl⟩

lemma Evolves.trans {s s' s'' : SqliteStore} (h : Evolves s s') (h' : Evolves s' s'') :
    Evolves s s'' := by
  intro id row hrow
  obtain ⟨row', hrow', hle, heq⟩ := h id row hrow
  obtain ⟨row'', hrow'', hle', heq'⟩ := h' id row' hrow'
  refine ⟨row'', hrow'', le_trans hle hle', fun hrev => ?_⟩
  rw [heq' (by omega), heq (by omega)]

lemma SqliteStore.Accepted.evolves {s s' : SqliteStore} {m : DurableMutation}
    (h : Accepted s m s') : Evolves s s' := by
  intro id row hrow
  rcases h.get?_tasks id with ⟨t, ht, rfl, hget⟩ | ⟨-, hget⟩
  · have hrev : t.revision = row.revision + 1 := by
      rcases h.validated ht with ⟨-, hv⟩ | ⟨-, hv⟩ <;>
        exact (checked_of_validateTask hv hrow).1.revision
    exact ⟨t, hget, by omega, by omega⟩
  · exact ⟨row, by rw [hget, hrow], le_refl _, fun _ => rfl⟩

lemma evolves_of_commit {s s' : SqliteStore} {m : DurableMutation} {r : CommitResult}
    (h : s.commit m = .ok (r, s')) (hkept : m.deleteConversation = false) : Evolves s s' := by
  rcases SqliteStore.commit_cases h with ⟨rfl, -⟩ | ⟨hdel, -⟩ | ⟨-, haccepted⟩
  · exact .refl _
  · simp [hkept] at hdel
  · exact haccepted.evolves

/-! ### Keys that an operation does not write itself -/

/-- The keys that the operations write, or keep, in the state of a task that they revise. -/
def writtenKeys : List String :=
  Session.executionStateKeys ++ ["cancel_requested", "cancel_reason", "pending_effect_ids",
    "task_policy", "generation_boundary", "generation_boundary_receipt", "workflow_replay_digest"]

def parkedKeys : List String := ["waiting_on", "join_policy", "join_wait"]

/-- A map that an operation was given for the state of a task. -/
inductive Given (T : Terms) (base : TaskCheckpoint) : Fields → Prop where
  | none : Given T base []
  | caller {patch : Fields} : T.caller patch → Given T base patch
  | update {patch : Fields} : T.updates patch → Given T base patch
  | step {a : Session.Advance} : T.step base a → Given T base a.state
  | parks {s : SqliteStore} {w : Session.Wait} : T.parks s base w →
      Given T base (w.state.getD [])

/-- A change takes the other keys from the map that it was given, or leaves them as they were; only
parking writes the keys of a parked task. -/
lemma Change.get?_cases {T : Terms} {now : SqliteStore} {base : TaskCheckpoint} {phase : Phase}
    {state : Fields} {status : TaskStatus} {intents settled : List EffectRecord}
    (h : Change T now base phase state status intents settled) {key : String}
    (hkey : key ∉ writtenKeys) :
    (∃ patch, Given T base patch ∧ state.get? key = (patch.get? key).or (base.state.get? key)) ∨
    key ∈ parkedKeys ∧ ∃ s w, T.since s now ∧ T.parks s base w ∧
      Session.validateWait base.taskId (Session.waitDependencies base.state w) s.tasks = .ok () ∧
      state = Session.parkedState base.state (Session.waitDependencies base.state w) w := by
  have hne : ∀ k ∈ writtenKeys, ¬ k = key := fun k hk heq => hkey (heq ▸ hk)
  have hsame : ∀ {after : Fields}, after.get? key = base.state.get? key →
      ∃ patch, Given T base patch ∧ after.get? key = (patch.get? key).or (base.state.get? key) :=
    fun h => ⟨[], .none, by simpa using h⟩
  have hrelease : ∀ after : Fields, (releaseAttemptState after).get? key = after.get? key :=
    fun after => by
      simp [releaseAttemptState, hne "attempt_token" (by decide), hne "attempt_owner" (by decide),
        hne "attempt_process_id" (by decide)]
  have hcancel : ∀ (after : Fields) reason,
      (Session.cancelState after reason).get? key = after.get? key := fun after reason => by
    simp [Session.cancelState, hne "cancel_requested" (by decide),
      hne "cancel_reason" (by decide)]
  have hpending : key ≠ "pending_effect_ids" := fun heq => hkey (heq ▸ by decide)
  cases h with
  | claim c token _ _ =>
    exact Or.inl (hsame (by simp [Session.claimedState, hne "attempt_number" (by decide),
      hne "attempt_owner" (by decide), hne "attempt_token" (by decide),
      hne "attempt_process_id" (by decide)]))
  | release => exact Or.inl (hsame (hrelease _))
  | park w _ _ hwait =>
    obtain ⟨s, hs, hparks, hvalid⟩ := hwait
    by_cases hparked : key ∈ parkedKeys
    · exact Or.inr ⟨hparked, s, w, hs, hparks, hvalid, rfl⟩
    · have hne' : ∀ k ∈ parkedKeys, ¬ k = key := fun k hk heq => hparked (heq ▸ hk)
      refine Or.inl ⟨_, .parks hparks, ?_⟩
      simp [Session.parkedState, hrelease, hne' "waiting_on" (by decide),
        hne' "join_policy" (by decide), hne' "join_wait" (by decide)]
  | hold patch reason _ hpatch _ => exact Or.inl ⟨patch, .caller hpatch, by simp [hcancel]⟩
  | cancel state hstate _ =>
    refine Or.inl ?_
    simp only [hrelease]
    cases hstate with
    | patched patch reason hpatch => exact ⟨patch, .caller hpatch, by simp [hcancel]⟩
    | parked s w hparks => exact ⟨_, .parks hparks, by simp⟩
    | recovered => exact hsame (by simp [hne "cancel_requested" (by decide)])
    | held => exact hsame rfl
  | fail patch pending effects hpatch _ _ =>
    exact Or.inl ⟨patch, .caller hpatch, by
      simp [Session.failedState, hrelease, Ne.symm hpending]⟩
  | advance c a hstep _ _ =>
    refine Or.inl ⟨_, .step hstep, ?_⟩
    rw [c.get?_advancedState base a.state (Ne.symm (hne "workflow_replay_digest" (by decide))),
      if_neg fun hmem => hkey (List.mem_append_left _ hmem)]
  | update patch hpatch => exact Or.inl ⟨patch, .update hpatch, by simp⟩
  | intents effects next hnext => exact Or.inl (hsame (get?_withEffectIntents hnext hpending))
  | settle effect next hnext => exact Or.inl (hsame (get?_withEffectSettlement hnext hpending))
  | approval settled next resume id h =>
    have hnext : next.state.get? key = base.state.get? key := by
      rcases h with ⟨hstate, -⟩ | ⟨e, next', -, hnext', rfl⟩
      · rw [hstate]
      · exact get?_withEffectSettlement hnext' hpending
    refine Or.inl (hsame ?_)
    split
    · simpa [Session.resumedApproval, hrelease, hne "resume_input" (by decide),
        hne "resume_entry_id" (by decide)] using hnext
    · exact hnext
  | answer question answer entryId revision _ =>
    have hanswered : (Session.answeredState base question answer entryId revision).get? key =
        base.state.get? key := by
      simp [Session.answeredState, hne "question" (by decide), hne "resume_input" (by decide),
        hne "resume_entry_id" (by decide)]
    refine Or.inl (hsame ?_)
    split
    · rw [hrelease, hanswered]
    · exact hanswered
  | runtime intents settled next v rest hnext hrest =>
    have hnone : rest.get? key = none := by
      by_contra hsome
      rcases hrest key (Option.isSome_iff_ne_none.mpr hsome) with rfl | rfl | rfl <;>
        exact hkey (by decide)
    refine Or.inl (hsame ?_)
    rw [Fields.get?_merge, hnone, Option.none_or, Session.get?_runtimeState,
      Session.get?_withEffectChanges hnext hpending]
    simp only [List.mem_cons, List.not_mem_nil, or_false, not_or]
    exact ⟨fun heq => hkey (heq ▸ by decide), fun heq => hkey (heq ▸ by decide),
      fun heq => hkey (heq ▸ by decide)⟩

/-! ### The rows that a site writes -/

lemma Site.kept {T : Terms} {now : SqliteStore} {m : MutationData} (h : Site T now m) :
    m.deleteConversation = false := by
  cases h with
  | revise _ _ _ _ _ _ _ _ _ kept _ => exact kept
  | enter _ _ _ _ _ _ kept => exact kept

/-- How a row was written by a commit. -/
inductive Wrote (T : Terms) (s : SqliteStore) (m : DurableMutation) (next : TaskCheckpoint) :
    Prop where
  | revised {base : TaskCheckpoint} {phase : Phase} {state : Fields} {status : TaskStatus}
      {intents settled : List EffectRecord} {folded : Fields} {pending : Option String}
      (row : s.tasks.get? next.taskId = some base)
      (change : Change T s base phase state status intents settled)
      (folded_eq : folded = [] ∨ ∃ approvals, folded = [("approvals", approvals)])
      (next_eq : next.toCheckpointData = { base.toCheckpointData with
        phase, state := state.merge folded, status, revision := base.revision + 1
        pendingEffectId := pending })
      (checked : Checked base next m.expectedAttemptToken)
      (task : m.task = some next)
      (effects : m.effects = intents) (settlements : m.effect.toList ++ m.settlements = settled)
      (expected : m.effect.isSome = true → m.expectedEffectStatus.isSome = true)
  | placed {base : TaskCheckpoint} {entryId consumer : String} {consumed : Bool}
      (row : s.tasks.get? next.taskId = some base)
      (next_eq : next.toCheckpointData = Session.placedState base entryId consumer consumed)
      (checked : Checked base next none) (unfenced : m.task ≠ some next)
  | admitted {c : Session} {a : Admission} {entry : Option EntryDraft}
      (row : s.tasks.get? next.taskId = none) (admits : T.admits a)
      (next_eq : next.toCheckpointData = {
        taskId := a.taskId, conversationId := a.conversationId, submissionId := a.submissionId
        phase := a.initialPhase, revision := 0, providerSnapshot := a.providerSnapshot
        state := c.admittedState a entry, status := taskStatusForPhase a.initialPhase })
      (initial : a.initialPhase = .accepted ∨ a.initialPhase = .dispatching)
      (owner : s.validateTaskOwner next = .ok ()) (task : m.task = some next)
      (effects : m.allEffects = [])

/-- A checkpoint that was read is still the row that its next revision replaces. -/
lemma row_of_seen {s₀ s : SqliteStore} {base next : TaskCheckpoint} {expected : Option String}
    {proposed : Option SubmissionDraft} (hevolves : Evolves s₀ s)
    (hseen : s₀.tasks.get? base.taskId = some base) (hid : next.taskId = base.taskId)
    (hrev : next.revision = base.revision + 1)
    (hvalid : s.validateTask next proposed expected = .ok ()) :
    s.tasks.get? next.taskId = some base ∧ Checked base next expected := by
  obtain ⟨row, hrow, -, heq⟩ := hevolves _ _ hseen
  rw [← hid] at hrow
  have hchecked := (SqliteStore.checked_of_validateTask hvalid hrow).1
  obtain rfl := heq (by have := hchecked.revision; omega)
  exact ⟨hrow, hchecked⟩

/-- The commit of a site replays an admission, or every row it leaves was there or was written. -/
theorem Site.wrote {T : Terms} (hsince : ∀ s s', T.since s s' → Evolves s s')
    {s s' : SqliteStore} {m : DurableMutation} {r : CommitResult}
    (hsite : Site T s m.toMutationData) (hcommit : s.commit m = .ok (r, s')) :
    s' = s ∨ (SqliteStore.Accepted s m s' ∧ ∀ t ∈ m.allTasks, Wrote T s m t) := by
  rcases SqliteStore.commit_cases hcommit with ⟨rfl, -⟩ | ⟨hdel, -⟩ | ⟨-, haccepted⟩
  · exact Or.inl rfl
  · simp [hsite.kept] at hdel
  refine Or.inr ⟨haccepted, fun t ht => ?_⟩
  cases hsite with
  | @revise base next s₀ phase state status intents settled seen row change task next_eq updates
      effects settlements expected kept noSubmission =>
    obtain ⟨folded, pending, hfolded, hnext⟩ := next_eq
    simp only [MutationData.allTasks, List.mem_append, Option.mem_toList] at ht
    by_cases htask : m.task = some t
    · obtain rfl := Option.some.inj (task.symm.trans htask)
      obtain ⟨hrow, hchecked⟩ := row_of_seen (hsince _ _ seen) row (by rw [hnext])
        (by rw [hnext]) (haccepted.task _ htask)
      exact .revised hrow change hfolded hnext hchecked htask effects settlements expected
    · have hmem := ht.resolve_left htask
      obtain ⟨-, b, s₁, entryId, consumer, consumed, hs₁, hb, hplaced⟩ := updates t hmem
      obtain ⟨hrow, hchecked⟩ := row_of_seen (hsince _ _ hs₁) hb
        (by rw [hplaced]; rfl) (by rw [hplaced]; rfl) (haccepted.taskUpdates t hmem)
      exact .placed hrow hplaced hchecked htask
  | @enter c a entry next admits task next_eq initial updates effects kept =>
    simp only [MutationData.allTasks, updates, List.append_nil, Option.mem_toList] at ht
    obtain rfl := Option.some.inj (task.symm.trans ht)
    have hvalid := haccepted.task _ ht
    have hrow : s.tasks.get? next.taskId = none := by
      cases hrow : s.tasks.get? next.taskId with
      | none => rfl
      | some row =>
        have := (SqliteStore.checked_of_validateTask hvalid hrow).1.revision
        rw [next_eq] at this
        cases this
    exact .admitted hrow admits next_eq initial
      (SqliteStore.revision_zero_of_validateTask hvalid hrow).2 ht effects

end Codey
