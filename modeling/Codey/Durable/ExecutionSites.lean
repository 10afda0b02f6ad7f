import Codey.Durable.Sites

/-!
# The sites of the worker operations

The operations on effects, approvals and questions, the checkpoint mutation of a runtime reducer
and the admission of an input commit at sites only.
-/

namespace Codey

open Prog (Stable Guards guards_bind guards_ofExcept guards_seq guards_throw)

/-! ### Reducers -/

variable {current next : TaskCheckpoint} {effects : List EffectRecord}

/-- What new intents require of a checkpoint, and what they leave. -/
lemma withEffectIntents_eq_ok (h : withEffectIntents current effects = .ok next) :
    (∀ e ∈ effects, e.taskId = current.taskId ∧ e.status = "pending" ∧ e.settlement = none) ∧
    current.phase = .running ∧
    (current.state.cancelRequested = false ∨
      cancellationReceiptsOnly current.toCheckpointData effects = true) ∧
    ∃ pending, pendingList current.state = .ok pending ∧ next.toCheckpointData =
      withPending current (appendNew pending (effects.map (·.effectId))) := by
  obtain ⟨hnew, h⟩ := except_seq_eq_ok.mp h
  obtain ⟨hadmits, h⟩ := except_seq_eq_ok.mp h
  obtain ⟨pending, hpending, h⟩ := except_bind_eq_ok.mp h
  simp only [require_eq_ok, Bool.and_eq_true, List.all_eq_true, decide_eq_true_eq,
    Bool.or_eq_true, Bool.not_eq_true', Option.isNone_iff_eq_none, and_assoc] at hnew hadmits
  exact ⟨hnew.2, hadmits.1, hadmits.2.2, pending, hpending, TaskCheckpoint.make_eq_ok.mp h⟩

variable {effect : EffectRecord}

lemma withEffectSettlement_eq_ok (h : withEffectSettlement current effect = .ok next) :
    (effect.taskId = current.taskId ∧ effect.settlement.isSome = true ∧
      effect.status ≠ "pending") ∧
    ∃ pending, pendingList current.state = .ok pending ∧ next.toCheckpointData =
      withPending current (pending.filter (· ≠ effect.effectId)) := by
  obtain ⟨hsettled, h⟩ := except_seq_eq_ok.mp h
  obtain ⟨pending, hpending, h⟩ := except_bind_eq_ok.mp h
  simp only [require_eq_ok, Bool.and_eq_true, decide_eq_true_eq, and_assoc] at hsettled
  exact ⟨by simpa using hsettled, pending, hpending, TaskCheckpoint.make_eq_ok.mp h⟩

lemma withEffectIntents_frame (h : withEffectIntents current effects = .ok next) :
    next.toCheckpointData = { current.toCheckpointData with
      revision := current.revision + 1, state := next.state
      pendingEffectId := next.pendingEffectId } := by
  obtain ⟨-, -, -, pending, -, h⟩ := withEffectIntents_eq_ok h
  rw [h]
  rfl

lemma withEffectSettlement_frame (h : withEffectSettlement current effect = .ok next) :
    next.toCheckpointData = { current.toCheckpointData with
      revision := current.revision + 1, state := next.state
      pendingEffectId := next.pendingEffectId } := by
  obtain ⟨-, pending, -, h⟩ := withEffectSettlement_eq_ok h
  rw [h]
  rfl

lemma get?_withEffectIntents {key : String} (h : withEffectIntents current effects = .ok next)
    (hkey : key ≠ "pending_effect_ids") : next.state.get? key = current.state.get? key := by
  obtain ⟨-, -, -, pending, -, h⟩ := withEffectIntents_eq_ok h
  simp [h, withPending, Ne.symm hkey]

lemma get?_withEffectSettlement {key : String}
    (h : withEffectSettlement current effect = .ok next) (hkey : key ≠ "pending_effect_ids") :
    next.state.get? key = current.state.get? key := by
  obtain ⟨-, pending, -, h⟩ := withEffectSettlement_eq_ok h
  simp [h, withPending, Ne.symm hkey]

/-- What the folding of an approval leaves of a mutation. -/
structure Folded (m : DurableMutation) (approval : ApprovalRecord) (current : TaskCheckpoint)
    (m' : DurableMutation) where
  approvals : Fields
  existing : Option ApprovalRecord
  next : TaskCheckpoint
  sameConversation : current.conversationId = m.conversationId
  approvals_eq : approvalsOf current.state = .ok approvals
  existing_eq : existingApproval approvals approval.approvalId = .ok existing
  valid : validateApprovalStep existing approval m.expectedApprovalStatus = .ok ()
  next_eq : next.toCheckpointData = match m.task with
    | none => { current.toCheckpointData with
        revision := current.revision + 1, state := withApproval current.state approvals approval }
    | some proposed => { proposed.toCheckpointData with
        state := withApproval proposed.state approvals approval }
  m'_eq : m'.toMutationData = { m.toMutationData with
    task := some next, approval := none, expectedApprovalStatus := none }

lemma materializeApproval_eq_ok {m m' : DurableMutation} {approval : ApprovalRecord}
    {current : TaskCheckpoint} (h : materializeApproval m approval current = .ok m') :
    Nonempty (Folded m approval current m') := by
  obtain ⟨hconv, h⟩ := except_seq_eq_ok.mp h
  obtain ⟨approvals, happs, h⟩ := except_bind_eq_ok.mp h
  obtain ⟨existing, hexisting, h⟩ := except_bind_eq_ok.mp h
  obtain ⟨hvalid, h⟩ := except_seq_eq_ok.mp h
  obtain ⟨next, hnext, h⟩ := except_bind_eq_ok.mp h
  exact ⟨⟨approvals, existing, next, by simpa using hconv, happs, hexisting, hvalid,
    TaskCheckpoint.make_eq_ok.mp hnext, DurableMutation.make_eq_ok.mp h⟩⟩

namespace Session

variable {R : World → World → Prop} {T : Terms} {K : World → Prop} {c : Session}

/-! ### Effects -/

variable {taskId : String}

lemma guards_recordEffectIntents (F : Frame R T) {effects : List EffectRecord} :
    Guards R (Commits (Site T)) K (c.recordEffectIntents taskId effects) fun _ _ => True := by
  refine guards_bind (guards_ensureUsable fun w _ => ?_)
  refine guards_bind (guards_task F fun w₁ current _ _ _ hseen => ?_)
  refine guards_bind (guards_ensure fun _ => ?_)
  refine guards_bind (guards_ensure fun _ => ?_)
  refine guards_bind (guards_view fun w₂ _ hw₂ _ => ?_)
  refine guards_bind (guards_ofExcept fun next hnext => ?_)
  refine guards_commitData F (Site.unfenced T) (F.stable w₂) rfl fun w₃ hw₃ => ?_
  obtain ⟨s₀, hs₀, hrow⟩ := hseen w₃ (F.trans _ _ _ hw₂ hw₃)
  exact .revise hs₀ hrow (.intents effects next hnext) rfl
    ⟨[], next.pendingEffectId, Or.inl rfl, withEffectIntents_frame hnext⟩ (by simp) rfl rfl
    (by simp) rfl rfl

lemma guards_settleEffect (F : Frame R T) {effect : EffectRecord} {expectedStatus : String}
    {artifacts : List ArtifactRecord} :
    Guards R (Commits (Site T)) K (c.settleEffect taskId effect expectedStatus artifacts)
      fun _ _ => True := by
  refine guards_bind (guards_ensureUsable fun w _ => ?_)
  refine guards_bind (guards_ensure fun _ => ?_)
  refine guards_bind (guards_ensure fun _ => ?_)
  refine guards_bind (guards_task F fun w₁ current _ _ _ hseen => ?_)
  refine guards_bind (guards_view fun w₂ _ hw₂ _ => ?_)
  refine guards_bind (guards_view fun w₃ existing hw₃ _ => ?_)
  split
  · refine guards_bind (guards_ensure fun _ => ?_)
    exact guards_bind (guards_look fun _ _ => trivial)
  refine guards_bind (guards_ofExcept fun next hnext => ?_)
  refine guards_commitData F (Site.unfenced T) (F.stable w₃) rfl fun w₄ hw₄ => ?_
  obtain ⟨s₀, hs₀, hrow⟩ := hseen w₄ (F.trans _ _ _ hw₂ (F.trans _ _ _ hw₃ hw₄))
  exact .revise hs₀ hrow (.settle effect next hnext) rfl
    ⟨[], next.pendingEffectId, Or.inl rfl, withEffectSettlement_frame hnext⟩ (by simp) rfl rfl
    (by simp) rfl rfl

lemma guards_settleUnknownEffect (F : Frame R T) {taskId effectId : String} :
    Guards R (Commits (Site T)) K (c.settleUnknownEffect taskId effectId) fun _ _ => True := by
  refine guards_bind (guards_ensureUsable fun w _ => ?_)
  refine guards_bind (guards_task F fun w₁ current _ _ _ _ => ?_)
  refine guards_bind (guards_view fun w₂ existing _ _ => ?_)
  exact guards_bind (guards_ofExcept fun receipt _ => guards_settleEffect F)

/-! ### Approvals -/

variable {intents settled : List EffectRecord} {approval : ApprovalRecord} {state : Fields}

/-- The folding of an approval into the checkpoint that a mutation revises. -/
lemma Site.folded {now s₀ : SqliteStore} {m m' : DurableMutation}
    {current base next : TaskCheckpoint} {phase : Phase} {status : TaskStatus}
    (pending : Option String)
    (fold : Folded m approval current m') (seen : T.since s₀ now)
    (row : s₀.tasks.get? base.taskId = some base)
    (change : Change T now base phase state status intents settled) (task : m.task = some next)
    (next_eq : next.toCheckpointData = { base.toCheckpointData with
      phase, state, status, revision := base.revision + 1, pendingEffectId := pending })
    (updates : m.taskUpdates = []) (effects : m.effects = intents)
    (settlements : m.effect.toList ++ m.settlements = settled) (effect : m.effect = none)
    (kept : m.deleteConversation = false) (noSubmission : m.submission = none) :
    Site T now m'.toMutationData := by
  have hm' := fold.m'_eq
  have hfold := fold.next_eq
  rw [task] at hfold
  dsimp only at hfold
  have hnext : fold.next.toCheckpointData = { base.toCheckpointData with
      phase, status, revision := base.revision + 1, pendingEffectId := pending
      state := state.merge [("approvals", .obj (fold.approvals.set approval.approvalId
        (.obj (ApprovalRecord.toPayload approval.toApprovalData))))] } := by
    rw [hfold, next_eq]
    rfl
  refine .revise seen row change (by rw [hm']) ⟨_, pending, Or.inr ⟨_, rfl⟩, hnext⟩ ?_ ?_ ?_ ?_ ?_ ?_
  · simp [hm', updates]
  · simp [hm', effects]
  · simpa [hm'] using settlements
  · simp [hm', effect]
  · simp [hm', kept]
  · simp [hm', noSubmission]

/-- The commit of an approval without a task folds it into the next revision of its task. -/
lemma guards_commitApproval (F : Frame R T) (hK : Stable R K) {revision : Nat}
    {expected : Option ApprovalStatus} :
    Guards R (Commits (Site T)) K (c.commitData {
      conversationId := approval.conversationId, expectedRevision := revision
      approval := some approval, expectedApprovalStatus := expected }) fun _ _ => True := by
  refine guards_bind (guards_ofExcept fun m hm => ?_)
  have hm := DurableMutation.make_eq_ok.mp hm
  refine guards_commit_approval F (Site.unfenced T) hK (by rw [hm])
    fun w current m' _ _ hseen hm' w' hw' => ?_
  obtain ⟨fold⟩ := materializeApproval_eq_ok hm'
  have hnext := fold.next_eq
  have hm'_eq := fold.m'_eq
  simp only [hm] at hnext hm'_eq
  obtain ⟨s₀, hs₀, hrow⟩ := hseen w' hw'
  refine .revise hs₀ hrow (.approval [] current.toCheckpointData false "" (Or.inl ⟨rfl, rfl⟩))
    (by rw [hm'_eq]) ⟨_, current.pendingEffectId, Or.inr ⟨_, rfl⟩, hnext⟩ ?_ ?_ ?_ ?_ ?_ ?_
  all_goals simp [hm'_eq]

lemma guards_createApproval (F : Frame R T) :
    Guards R (Commits (Site T)) K (c.createApproval approval) fun _ _ => True := by
  refine guards_bind (guards_ensureUsable fun w _ => ?_)
  exact guards_bind (guards_view fun w₁ _ _ _ => guards_commitApproval F (F.stable w₁))

variable {approvalId : String}

lemma guards_transitionApproval (F : Frame R T) {expected : ApprovalStatus} :
    Guards R (Commits (Site T)) K (c.transitionApproval approvalId approval expected none)
      fun _ _ => True := by
  refine guards_bind (guards_ensureUsable fun w _ => ?_)
  refine guards_bind (guards_ensure fun _ => ?_)
  exact guards_bind (guards_view fun w₁ _ _ _ => guards_commitApproval F (F.stable w₁))

lemma guards_claimApprovalAndBeginEffect (F : Frame R T) {effect : EffectRecord}
    {expected : ApprovalStatus} :
    Guards R (Commits (Site T)) K (c.claimApprovalAndBeginEffect approvalId effect expected)
      fun _ _ => True := by
  refine guards_bind (guards_ensureUsable fun w _ => ?_)
  refine guards_bind (guards_view fun w₁ approval _ _ => ?_)
  refine guards_bind (guards_task F fun w₂ current _ _ _ hseen => ?_)
  refine guards_bind (guards_ensure fun _ => ?_)
  refine guards_bind (guards_ensure fun _ => ?_)
  split
  · refine guards_bind (guards_view fun w₃ existing _ _ => ?_)
    exact guards_bind (guards_ensure fun _ => trivial)
  refine guards_bind (guards_ensure fun _ => ?_)
  refine guards_bind (guards_ofExcept fun next hnext => ?_)
  refine guards_bind (guards_ofExcept fun claimed _ => ?_)
  refine guards_bind (guards_view fun w₃ _ hw₃ _ => ?_)
  refine guards_seq ?_ fun _ _ => trivial
  refine guards_bind (guards_ofExcept fun m hm => ?_)
  have hm := DurableMutation.make_eq_ok.mp hm
  refine guards_commit_approval F (Site.unfenced T) (F.stable w₃) (by rw [hm])
    fun w₄ current' m' hw₄ _ _ hm' w₅ hw₅ => ?_
  obtain ⟨fold⟩ := materializeApproval_eq_ok hm'
  obtain ⟨s₀, hs₀, hrow⟩ := hseen w₅ (F.trans _ _ _ hw₃ (F.trans _ _ _ hw₄ hw₅))
  refine Site.folded next.pendingEffectId fold hs₀ hrow (.intents [effect] next hnext) (by rw [hm])
    (withEffectIntents_frame hnext) ?_ ?_ ?_ ?_ ?_ ?_
  all_goals simp [hm]

/-- What the settlement of an approval makes of a checkpoint. -/
lemma guards_approvalOutcome {S : SqliteStore → MutationData → Prop}
    {current : TaskCheckpoint} {settlement : Fields}
    {Q : Option ApprovalOutcome → (World → Prop) → Prop} (hK : Stable R K)
    (hnone : ∀ K' : World → Prop, (∀ w, K' w → K w) → Stable R K' → Q none K')
    (hsome : ∀ (K' : World → Prop) outcome, (∀ w, K' w → K w) → Stable R K' →
      (outcome.settled = [] ∧ outcome.next = { current.toCheckpointData with
          revision := current.revision + 1 } ∨
        ∃ e next', outcome.settled = [e] ∧ withEffectSettlement current e = .ok next' ∧
          outcome.next = next'.toCheckpointData) → Q (some outcome) K') (F : Frame R T) :
    Guards R (Commits S) K (approvalOutcome approval current settlement) Q := by
  unfold approvalOutcome
  split
  · refine guards_bind (guards_view fun w effect hw _ => ?_)
    split
    · exact hnone _ (hK w · hw) (F.stable w)
    refine guards_bind (guards_ensure fun _ => ?_)
    refine guards_bind (guards_ofExcept fun settled _ => ?_)
    refine guards_bind (guards_ofExcept fun next hnext => ?_)
    exact hsome _ _ (hK w · hw) (F.stable w) (Or.inr ⟨settled, next, rfl, hnext, rfl⟩)
  · exact hsome _ _ (fun _ hw => hw) hK (Or.inl ⟨rfl, rfl⟩)
  · exact guards_throw

lemma guards_settleApproval (F : Frame R T) {settlement : Fields} {resume : Bool}
    {entries : List EntryDraft} :
    Guards R (Commits (Site T)) K (c.settleApproval approvalId settlement resume entries)
      fun _ _ => True := by
  refine guards_bind (guards_ensureUsable fun w _ => ?_)
  refine guards_bind (guards_view fun w₁ approval _ _ => ?_)
  refine guards_bind (guards_task F fun w₂ current _ _ _ hseen => ?_)
  split
  · exact trivial
  refine guards_bind (guards_approvalOutcome (F.stable w₂) (fun _ _ _ => trivial) ?_ F)
  intro K' outcome hsub hstable houtcome
  refine guards_bind (guards_ofExcept fun next hnext => ?_)
  have hnext := TaskCheckpoint.make_eq_ok.mp hnext
  refine guards_bind (guards_ofExcept fun updated _ => ?_)
  refine guards_bind (guards_view fun w₃ _ hw₃ _ => ?_)
  refine guards_seq ?_ fun _ _ => trivial
  refine guards_bind (guards_ofExcept fun m hm => ?_)
  have hm := DurableMutation.make_eq_ok.mp hm
  refine guards_commit_approval F (Site.unfenced T) (F.stable w₃) (by rw [hm])
    fun w₄ current' m' hw₄ _ _ hm' w₅ hw₅ => ?_
  obtain ⟨fold⟩ := materializeApproval_eq_ok hm'
  obtain ⟨s₀, hs₀, hrow⟩ := hseen w₅ (hsub w₅ (hstable _ _ hw₃ (F.trans _ _ _ hw₄ hw₅)))
  have hdata : outcome.next = { current.toCheckpointData with
      revision := current.revision + 1, state := outcome.next.state
      pendingEffectId := outcome.next.pendingEffectId } := by
    rcases houtcome with ⟨-, h⟩ | ⟨e, next', -, hnext', h⟩
    · rw [h]
    · rw [h]
      exact withEffectSettlement_frame hnext'
  refine Site.folded outcome.next.pendingEffectId fold hs₀ hrow
    (.approval outcome.settled outcome.next resume approvalId ?_) (by rw [hm])
    ?_ ?_ ?_ ?_ ?_ ?_ ?_
  · rcases houtcome with ⟨hsettled, h⟩ | ⟨e, next', hsettled, hnext', h⟩
    · exact Or.inl ⟨by rw [h], hsettled⟩
    · exact Or.inr ⟨e, next', hsettled, hnext', h⟩
  · rw [hnext]
    split
    · unfold resumedApproval
      rw [hdata]
    · rw [hdata]
  all_goals simp [hm]

/-! ### Task transactions -/

lemma guards_updateTaskState (F : Frame R T)
    {expected : Option Nat} (hcaller : T.updates state) :
    Guards R (Commits (Site T)) K (c.updateTaskState taskId state expected) fun _ _ => True := by
  refine guards_bind (guards_ensureUsable fun w _ => ?_)
  refine guards_bind (guards_task F fun w₁ current _ _ _ hseen => ?_)
  refine guards_bind (guards_ensure fun _ => ?_)
  exact guards_commitTask F (F.stable w₁) hseen fun _ _ => .update state hcaller

/-- A transaction commits what its derivation has made of the checkpoint it was given. -/
lemma guards_transactTask (F : Frame R T)
    {derive : TaskCheckpoint → List EffectRecord → Nat → Op (Option DurableMutation)}
    (hderive : ∀ (K' : World → Prop) current effects revision, Stable R K' →
      SeenRow T K' current → Guards R (Commits (Site T)) K' (derive current effects revision)
        fun m K'' => Stable R K'' ∧ ∀ m' ∈ m, m'.approval = none ∧
          ∀ w, K'' w → Site T w.store m'.toMutationData) :
    Guards R (Commits (Site T)) K (c.transactTask taskId derive) fun _ _ => True := by
  refine guards_bind (guards_ensureUsable fun w _ => ?_)
  refine guards_bind (guards_task F fun w₁ current _ _ _ hseen => ?_)
  refine guards_bind (guards_view fun w₂ _ hw₂ _ => ?_)
  refine guards_bind (guards_look fun w₃ hw₃ => ?_)
  refine guards_bind (Guards.imp (hderive (R w₃) current _ _ (F.stable w₃)
    (hseen.mono fun w' hw' => F.trans _ _ _ hw₂ (F.trans _ _ _ hw₃ hw'))) ?_)
  rintro (_ | m) K' ⟨hstable, hm⟩
  · exact trivial
  obtain ⟨happ, hsite⟩ := hm m rfl
  refine guards_bind (guards_ensure fun _ => ?_)
  exact guards_seq (guards_commit F (Site.unfenced T) hstable happ hsite) fun _ _ => trivial

lemma pendingQuestion_eq_ok {current : TaskCheckpoint} {identity answer : String} {revision : Nat}
    {question : Fields}
    (h : pendingQuestion current identity answer revision = .ok (some question)) :
    current.status = .running ∨ current.status = .waiting := by
  unfold pendingQuestion at h
  split at h
  · cases h
  obtain ⟨-, h⟩ := except_seq_eq_ok.mp h
  split at h
  · cases h
  simp only [except_seq_eq_ok, require_eq_ok, Bool.or_eq_true, decide_eq_true_eq] at h
  exact h.2.1

lemma guards_answerQuestion (F : Frame R T) {taskId identity answer : String} {revision : Nat} :
    Guards R (Commits (Site T)) K (c.answerQuestion taskId identity answer revision)
      fun _ _ => True := by
  refine guards_transactTask F fun K' current effects rev hK' hseen => ?_
  refine guards_bind (guards_ofExcept fun question hquestion => ?_)
  cases question with
  | none => exact ⟨hK', by simp⟩
  | some question =>
    refine guards_bind (guards_view fun w _ hw _ => ?_)
    refine guards_bind (guards_ofExcept fun entry _ => ?_)
    refine guards_bind (guards_ofExcept fun next hnext => ?_)
    refine guards_bind (guards_ofExcept fun m hm => ?_)
    have hnext := TaskCheckpoint.make_eq_ok.mp hnext
    have hm := DurableMutation.make_eq_ok.mp hm
    refine ⟨F.stable w, fun m' hm' => ?_⟩
    obtain rfl := Option.mem_some.mp hm'
    rw [hm]
    refine ⟨rfl, fun w' hw' => ?_⟩
    exact .plain (hseen w' (hK' w w' hw hw'))
      (.answer question answer entry.entryId revision (pendingQuestion_eq_ok hquestion))
      ⟨rfl, rfl, rfl, rfl, rfl, rfl, rfl⟩ hnext

/-! ### Runtime mutations -/

/-- What the first step of a runtime mutation has and every settlement keeps, its result has. -/
lemma withEffectChanges_induction {P : TaskCheckpoint → Prop} {current next : TaskCheckpoint}
    {intents settlements : List EffectRecord}
    (h : withEffectChanges current intents settlements = .ok next)
    (hnone : ∀ t : TaskCheckpoint, intents = [] → t.toCheckpointData =
      { current.toCheckpointData with revision := current.revision + 1 } → P t)
    (hintents : ∀ t, withEffectIntents current intents = .ok t → P t)
    (hsettle : ∀ e ∈ settlements, ∀ t t', P t → withEffectSettlement t e = .ok t' → P t') :
    P next := by
  unfold withEffectChanges at h
  split at h
  · rename_i hempty
    obtain ⟨first, hfirst, h⟩ := except_bind_eq_ok.mp h
    exact foldE_induction P h
      (hnone first (by simpa using hempty) (TaskCheckpoint.make_eq_ok.mp hfirst)) hsettle
  · obtain ⟨-, h⟩ := except_seq_eq_ok.mp h
    obtain ⟨first, hfirst, h⟩ := except_bind_eq_ok.mp h
    exact foldE_induction P h (hintents first hfirst) hsettle

/-- New effects and settlements leave the other fields of a checkpoint alone. -/
lemma withEffectChanges_frame {current next : TaskCheckpoint}
    {intents settlements : List EffectRecord}
    (h : withEffectChanges current intents settlements = .ok next) :
    next.toCheckpointData = { current.toCheckpointData with
      revision := next.revision, state := next.state
      pendingEffectId := next.pendingEffectId } := by
  refine withEffectChanges_induction (P := fun t : TaskCheckpoint => t.toCheckpointData = {
    current.toCheckpointData with
      revision := t.revision, state := t.state, pendingEffectId := t.pendingEffectId }) h
    (fun t _ ht => by rw [ht]) (fun t ht => by rw [withEffectIntents_frame ht]) ?_
  intro e _ t t' ht hstep
  have hframe := withEffectSettlement_frame hstep
  rw [ht] at hframe
  rw [hframe]

/-- New effects and settlements touch no key of the state besides the pending index. -/
lemma get?_withEffectChanges {current next : TaskCheckpoint}
    {intents settlements : List EffectRecord} {key : String}
    (h : withEffectChanges current intents settlements = .ok next)
    (hkey : key ≠ "pending_effect_ids") : next.state.get? key = current.state.get? key := by
  refine withEffectChanges_induction
    (P := fun t : TaskCheckpoint => t.state.get? key = current.state.get? key) h
    (fun t _ ht => by rw [ht]) (fun t ht => get?_withEffectIntents ht hkey) ?_
  exact fun e _ t t' ht hstep => (get?_withEffectSettlement hstep hkey).trans ht

/-- A placement revises a task that was read. -/
lemma placeSelected_task {b : Boundary} {conversationId consumer entryId : String}
    {tasks : List TaskCheckpoint} {head : Option String} {row : SubmissionRow} {p : Placement}
    (h : placeSelected b conversationId consumer tasks head row entryId = .ok p)
    {t : TaskCheckpoint} (ht : p.task = some t) :
    ∃ base ∈ tasks, ∃ entryId consumed,
      t.toCheckpointData = placedState base entryId consumer consumed := by
  unfold placeSelected at h
  split at h
  · obtain ⟨_, -, rfl⟩ := except_last_eq_ok.mp h
    cases ht
  · split at h
    · cases h
    rename_i base hbase
    obtain ⟨-, h⟩ := except_seq_eq_ok.mp h
    obtain ⟨-, h⟩ := except_seq_eq_ok.mp h
    obtain ⟨entry, -, h⟩ := except_bind_eq_ok.mp h
    obtain ⟨next, hnext, h⟩ := except_bind_eq_ok.mp h
    obtain ⟨update, -, rfl⟩ := except_last_eq_ok.mp h
    obtain rfl := Option.some.inj ht
    have hmem := List.mem_of_getLast? hbase
    exact ⟨base, (List.mem_filter.mp hmem).1, entry.entryId, _,
      TaskCheckpoint.make_eq_ok.mp hnext⟩

lemma placeAll_task {b : Boundary} {conversationId consumer : String}
    {tasks : List TaskCheckpoint} {head : Option String}
    {selected : List (SubmissionRow × String)} {ps : List Placement}
    (h : placeAll b conversationId consumer tasks head selected = .ok ps) {p : Placement}
    (hp : p ∈ ps) {t : TaskCheckpoint} (ht : p.task = some t) :
    ∃ base ∈ tasks, ∃ entryId consumed,
      t.toCheckpointData = placedState base entryId consumer consumed := by
  induction selected generalizing head ps with
  | nil =>
    obtain rfl := Except.ok.inj h
    cases hp
  | cons row selected ih =>
    obtain ⟨row, entryId⟩ := row
    obtain ⟨placed, hplaced, h⟩ := except_bind_eq_ok.mp h
    obtain ⟨rest, hrest, rfl⟩ := except_last_eq_ok.mp h
    rcases List.mem_cons.mp hp with rfl | hp
    · exact placeSelected_task hplaced ht
    · exact ih hrest hp

def BoundaryKeys (rest : Fields) : Prop :=
  ∀ key, (rest.get? key).isSome = true →
    key = "operation" ∨ key = "generation_boundary" ∨ key = "generation_boundary_receipt"

/-- A mutation that a runtime reducer has derived from `base`. -/
structure Derived (T : Terms) (K : World → Prop) (base : TaskCheckpoint)
    (intents settled : List EffectRecord) (state : Fields) (m : DurableMutation) : Prop where
  task : ∃ next rest pending, m.task = some next ∧ BoundaryKeys rest ∧
    next.toCheckpointData = { base.toCheckpointData with
      state := state.merge rest, revision := base.revision + 1, pendingEffectId := pending }
  updates : ∀ t ∈ m.taskUpdates, ∀ w, K w → PlacedAt T w.store t
  effect : m.effect = none
  effects : m.effects = intents
  settlements : m.settlements = settled
  approval : m.approval = none
  kept : m.deleteConversation = false
  noSubmission : m.submission = none

variable {m : DurableMutation} {base : TaskCheckpoint}

lemma Derived.mono {K' : World → Prop} (h : Derived T K base intents settled state m)
    (hK : ∀ w, K' w → K w) : Derived T K' base intents settled state m :=
  { h with updates := fun t ht w hw => h.updates t ht w (hK w hw) }

/-- A later part of the derivation merges boundary facts into the state and adds placements. -/
lemma Derived.extend {base next next' : TaskCheckpoint}
    {state extra : Fields} {m m' : DurableMutation} (entries : List EntryDraft)
    (placed : List TaskCheckpoint) (updates : List SubmissionUpdate)
    (h : Derived T K base intents settled state m) (htask : m.task = some next)
    (hextra : BoundaryKeys extra) (hnext' : next'.toCheckpointData =
      { next.toCheckpointData with state := next.state.merge extra })
    (hm' : m'.toMutationData = { m.toMutationData with
      entries, task := some next', taskUpdates := m.taskUpdates ++ placed
      submissionUpdates := updates })
    (hplaced : ∀ t ∈ placed, ∀ w, K w → PlacedAt T w.store t) :
    Derived T K base intents settled state m' := by
  obtain ⟨next₀, rest, pending, hnext₀, hkeys, hdata⟩ := h.task
  obtain rfl := Option.some.inj (hnext₀.symm.trans htask)
  constructor
  · refine ⟨next', rest.merge extra, pending, by rw [hm'], fun key hkey => ?_, ?_⟩
    · rw [Fields.get?_merge, Option.isSome_or, Bool.or_eq_true] at hkey
      exact hkey.elim (hextra key) (hkeys key)
    · rw [hnext', hdata]
      simp only [Fields.merge, List.append_assoc]
  · intro t ht
    simp only [hm', List.mem_append] at ht
    exact ht.elim (h.updates t) (hplaced t)
  · rw [hm']
    exact h.effect
  · rw [hm']
    exact h.effects
  · rw [hm']
    exact h.settlements
  · rw [hm']
    exact h.approval
  · rw [hm']
    exact h.kept
  · rw [hm']
    exact h.noSubmission

lemma guards_mergeGenerationBoundary (F : Frame R T) (hplaces : T.places) (hK : Stable R K)
    {b : Boundary} (h : Derived T K base intents settled state m) :
    Guards R (Commits (Site T)) K (mergeGenerationBoundary b m taskId) fun m' K' =>
      Stable R K' ∧ (∀ w, K' w → K w) ∧ Derived T K' base intents settled state m' := by
  obtain ⟨next, -, -, htask, -⟩ := h.task
  unfold mergeGenerationBoundary
  rw [htask]
  refine guards_bind (guards_ensure fun _ => ?_)
  refine guards_bind (guards_look fun w hw => ?_)
  refine guards_bind (guards_view fun w₁ _ hw₁ _ => ?_)
  refine guards_bind (guards_look fun w₂ hw₂ => ?_)
  refine guards_bind (guards_ofExcept fun placements hplacements => ?_)
  refine guards_bind (guards_ensure fun _ => ?_)
  refine guards_bind (guards_view fun w₃ _ hw₃ _ => ?_)
  refine guards_bind (guards_ofExcept fun next' hnext' => ?_)
  have hsub : ∀ w', R w₃ w' → K w' := fun w' hw' =>
    hK _ _ hw (F.trans _ _ _ hw₁ (F.trans _ _ _ hw₂ (F.trans _ _ _ hw₃ hw')))
  refine guards_ofExcept fun m' hm' => ⟨F.stable w₃, hsub, ?_⟩
  refine (h.mono hsub).extend _ _ _ htask (fun key hkey => ?_) (TaskCheckpoint.make_eq_ok.mp hnext')
    (DurableMutation.make_eq_ok.mp hm') fun t ht w' hw' => ?_
  · by_contra hne
    simp only [not_or] at hne
    simp [boundaryReceipt, Ne.symm hne.2.1, Ne.symm hne.2.2] at hkey
  · obtain ⟨p, hp, htask'⟩ := List.mem_filterMap.mp (List.mem_filter.mp ht).1
    obtain ⟨row, hrow, entryId, consumed, ht⟩ := placeAll_task hplacements hp htask'
    exact ⟨hplaces, row, w₂.store, entryId, taskId, consumed,
      F.rely _ _ (F.trans _ _ _ hw₃ hw'), Table.mem_rows_iff.mp hrow, ht⟩

lemma guards_withBoundary (F : Frame R T) (hplaces : T.places) (hK : Stable R K)
    {boundary : Option Boundary} {runId : String} (h : Derived T K base intents settled state m) :
    Guards R (Commits (Site T)) K (withBoundary boundary m runId) fun m' K' =>
      Stable R K' ∧ (∀ w, K' w → K w) ∧ Derived T K' base intents settled state m' := by
  unfold withBoundary
  split
  · exact ⟨hK, fun _ hw => hw, h⟩
  rename_i b
  refine guards_bind (Guards.imp (guards_mergeGenerationBoundary F hplaces hK h) ?_)
  rintro merged K' ⟨hstable, hsub, hmerged⟩
  split
  · exact ⟨hstable, hsub, hmerged⟩
  refine guards_ofExcept fun m' hm' => ⟨hstable, hsub, ?_⟩
  obtain ⟨next, -, -, htask, -⟩ := hmerged.task
  unfold applyBoundaryTransition at hm'
  rw [htask] at hm'
  obtain ⟨next', hnext', hm'⟩ := except_bind_eq_ok.mp hm'
  refine hmerged.extend merged.entries [] merged.submissionUpdates htask (fun key hkey => Or.inl ?_)
    (TaskCheckpoint.make_eq_ok.mp hnext') ?_ (by simp)
  · by_contra hne
    simp [Ne.symm hne] at hkey
  · rw [DurableMutation.make_eq_ok.mp hm', List.append_nil]

lemma guards_unregisteredArtifacts (F : Frame R T) (hK : Stable R K)
    (artifacts : List ArtifactRecord) :
    Guards R (Commits (Site T)) K (unregisteredArtifacts artifacts) fun _ K' =>
      Stable R K' ∧ ∀ w, K' w → K w := by
  induction artifacts generalizing K with
  | nil => exact ⟨hK, fun _ hw => hw⟩
  | cons artifact artifacts ih =>
    refine guards_bind (guards_look fun w hw => ?_)
    have hsub : ∀ w', R w w' → K w' := fun w' => hK w w' hw
    split
    · refine guards_bind (Guards.imp (ih (F.stable w)) ?_)
      rintro _ K' ⟨hstable, hsub'⟩
      exact ⟨hstable, fun w' hw' => hsub w' (hsub' w' hw')⟩
    · refine guards_bind (guards_ensure fun _ => Guards.imp (ih (F.stable w)) ?_)
      rintro _ K' ⟨hstable, hsub'⟩
      exact ⟨hstable, fun w' hw' => hsub w' (hsub' w' hw')⟩

lemma Derived.site {base first : TaskCheckpoint} {v : RuntimeView}
    (h : Derived T K base intents settled (runtimeState first.state v) m)
    (hseen : SeenRow T K base) (hfirst : withEffectChanges base intents settled = .ok first)
    {w : World} (hw : K w) : Site T w.store m.toMutationData := by
  obtain ⟨next, rest, pending, htask, hkeys, hnext⟩ := h.task
  obtain ⟨s₀, hs₀, hrow⟩ := hseen w hw
  exact .revise hs₀ hrow (.runtime intents settled first v rest hfirst hkeys) htask
    ⟨[], pending, Or.inl rfl, hnext⟩ (fun t ht => h.updates t ht w hw) h.effects
    (by simp [h.effect, h.settlements]) (by simp [h.effect]) h.kept h.noSubmission

lemma guards_retryConflict {p : Op Unit}
    (h : ∀ K' : World → Prop, Guards R (Commits (Site T)) K' p fun _ _ => True) (n : Nat) :
    Guards R (Commits (Site T)) K (retryConflict p n) fun _ _ => True := by
  induction n generalizing K with
  | zero => exact h K
  | succ n ih =>
    refine Prog.guards_handle (h K) fun e K' => ?_
    split
    · exact ih
    · exact guards_throw

lemma guards_mutateCheckpoint (F : Frame R T) (hplaces : T.places) {sessionId runId : String}
    {r : RuntimeMutation} :
    Guards R (Commits (Site T)) K (c.mutateCheckpoint sessionId runId r) fun _ _ => True := by
  refine guards_retryConflict (fun K' => guards_seq (guards_transactTask F
    fun K₁ current effects revision hK₁ hseen => ?_) fun _ _ => Prog.guards_ret trivial) 2
  refine guards_bind (guards_ofExcept fun v _ => ?_)
  cases v with
  | none => exact ⟨hK₁, by simp⟩
  | some v =>
    refine guards_bind (guards_ofExcept fun changes _ => ?_)
    obtain ⟨intents, settlements⟩ := changes
    refine guards_bind (guards_ofExcept fun first hfirst => ?_)
    refine guards_bind (guards_ofExcept fun next hnext => ?_)
    refine guards_bind (guards_view fun w _ hw _ => ?_)
    refine guards_bind (guards_ofExcept fun entries _ => ?_)
    refine guards_bind (Guards.imp
      (guards_unregisteredArtifacts F (F.stable w) r.artifacts) ?_)
    rintro artifacts K₂ ⟨hK₂, hsub⟩
    refine guards_bind (guards_ofExcept fun m hm => ?_)
    have hm := DurableMutation.make_eq_ok.mp hm
    have hnext := TaskCheckpoint.make_eq_ok.mp hnext
    have hderived : Derived T K₂ current intents settlements (runtimeState first.state v) m := by
      constructor
      · refine ⟨next, [], first.pendingEffectId, by rw [hm], by simp [BoundaryKeys], ?_⟩
        rw [hnext, withEffectChanges_frame hfirst]
        rfl
      all_goals simp [hm]
    refine guards_bind (Guards.imp (guards_withBoundary F hplaces hK₂ hderived) ?_)
    rintro m' K₃ ⟨hK₃, hsub', hm'⟩
    refine ⟨hK₃, fun m'' hmem => ?_⟩
    obtain rfl := Option.mem_some.mp hmem
    refine ⟨hm'.approval, fun w' hw' => hm'.site (hseen.mono fun w'' hw'' => ?_) hfirst hw'⟩
    exact hK₁ _ _ hw (hsub _ (hsub' _ hw''))

/-! ### Admission -/

lemma guards_ensureOwner {owner : Option String} :
    Guards R (Commits (Site T)) K (ensureOwner owner) fun _ _ => True := by
  cases owner with
  | none => exact trivial
  | some owner => exact guards_bind (guards_look fun _ _ => guards_ensure fun _ => trivial)

lemma guards_readHead (F : Frame R T) {conversationId : String} :
    Guards R (Commits (Site T)) K (readHead conversationId) fun _ K' => Stable R K' := by
  refine guards_bind (guards_look fun w _ => ?_)
  split
  · exact guards_bind (guards_view fun w' _ _ _ => F.stable w')
  · exact F.stable w

lemma guards_admitInput (F : Frame R T) {a : Admission} (hadmits : T.admits a) :
    Guards R (Commits (Site T)) K (c.admitInput a) fun _ _ => True := by
  refine guards_bind (guards_ensureUsable fun w _ => ?_)
  refine guards_bind (guards_ofExcept fun _ hvalid => ?_)
  refine guards_seq guards_ensureOwner fun _ K₁ => ?_
  refine guards_bind (guards_ofExcept fun _ _ => ?_)
  refine guards_bind (Guards.imp (guards_readHead F) ?_)
  rintro ⟨head, revision, creation⟩ K₂ -
  refine guards_bind (guards_view fun w₁ existing _ _ => ?_)
  cases existing with
  | some result => exact trivial
  | none =>
    refine guards_bind (guards_ensure fun _ => ?_)
    refine guards_bind (guards_ofExcept fun entry _ => ?_)
    refine guards_bind (guards_ofExcept fun submission _ => ?_)
    refine guards_bind (guards_ofExcept fun task htask => ?_)
    have htask := TaskCheckpoint.make_eq_ok.mp htask
    refine guards_commitData F (Site.unfenced T) (F.stable w₁) rfl fun w' hw' => ?_
    refine @Site.enter T w'.store _ c a entry task hadmits rfl htask ?_ rfl rfl rfl
    simp only [validateAdmission, except_seq_eq_ok, require_eq_ok, Bool.or_eq_true,
      decide_eq_true_eq] at hvalid
    exact hvalid.2.1

end Session

end Codey
