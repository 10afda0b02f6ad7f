import Codey.Durable.EffectLedger
import Codey.Durable.OtherCalls

/-!
# The cancellation barrier

Once the cancellation of a task was requested, no commit starts new work for it: the store, the
effect reducer and the task step each refuse a part of it.
-/

namespace Codey

def barrierKeys : List String := ["cancel_requested", "operation"]

/-- The terms of calls whose maps do not withdraw a cancellation when they end a task. -/
def barrierTerms : Terms :=
  { Terms.unnamed barrierKeys with
    updates := Unnamed ["cancel_requested"]
    step := fun _ a => a.phase = .cancelled ∨ a.phase = .failed → Unnamed barrierKeys a.state
    admits := fun _ => True }

/-- The maps that a call may end a task with name neither the flag nor the operation. -/
def Call.KeepsBarrier : Call → Prop
  | .waitTask _ _ w => Unnamed barrierKeys (w.state.getD [])
  | .requestCancel _ _ _ state _ => Unnamed barrierKeys state
  | .failTask _ _ _ state _ => Unnamed barrierKeys state
  | .advanceTask _ _ a => a.phase = .cancelled ∨ a.phase = .failed → Unnamed barrierKeys a.state
  | .updateTaskState _ _ state _ => Unnamed ["cancel_requested"] state
  | _ => True

lemma Call.KeepsBarrier.meets {call : Call} (h : call.KeepsBarrier) (w : World) :
    call.Meets Others barrierTerms w := by
  have hnil : Unnamed barrierKeys [] := fun _ _ => rfl
  have hkeys : ∀ key ∈ barrierKeys, key ∉ internalKeys := by decide
  obtain ⟨hmissing, hfailed, -⟩ := joins_unnamed hkeys
  have hcompletion : ∀ answer state base a, Session.CompletionStep answer state a →
      barrierTerms.step base a := by
    intro answer state base a ha hphase
    rcases ha.phase with h | h | h <;> simp [h] at hphase
  have hjoins : Session.Joins barrierTerms := by
    refine ⟨hmissing, hfailed, fun base a ha hphase => ?_⟩
    have := ha.phase
    rcases hphase with h | h <;> simp [h, Phase.terminal] at this
  cases call with
  | admitInput => exact trivial
  | claimTask => exact trivial
  | waitTask => exact ⟨fun _ _ _ _ _ _ => h, fun _ _ _ _ _ _ _ => trivial⟩
  | requestCancel => exact ⟨hnil, h⟩
  | cancelTask => exact hnil
  | recoverSchedulerState =>
    exact ⟨unnamed_of_internal hkeys fun key hkey => by
      by_contra hne
      have hkk : ¬ "abort_reason" = key := fun hkk => hne (hkk ▸ by decide)
      simp [hkk] at hkey, fun _ _ _ _ _ _ _ _ _ => trivial⟩
  | advanceTask => exact ⟨fun _ _ => h, fun _ _ => trivial⟩
  | startTask => exact fun answer => hcompletion answer _
  | finishTask => exact hcompletion _ _
  | completeTask => exact hcompletion _ _
  | reconcileWaitingTasks => exact hjoins
  | reconcileFinalization =>
    exact ⟨hjoins, fun _ => True, trivial, fun _ _ _ _ => trivial, fun _ _ _ _ => trivial,
      fun _ _ answer state base a _ _ _ => hcompletion answer state base a⟩
  | _ => exact h

def stoppedDone (state : Fields) : Bool :=
  state.operation.any fun operation => operation.get? "stop_reason" = some (.str "done")

lemma cancelRequested_congr {a b : Fields}
    (h : a.get? "cancel_requested" = b.get? "cancel_requested") :
    a.cancelRequested = b.cancelRequested := Fields.truthy_congr h

lemma stoppedDone_congr {a b : Fields} (h : a.get? "operation" = b.get? "operation") :
    stoppedDone a = stoppedDone b := by
  simp only [stoppedDone, Fields.operation, Fields.obj?, h]

@[simp] lemma cancelRequested_cancelState (state : Fields) (reason : String) :
    (Session.cancelState state reason).cancelRequested = true := by
  simp [Session.cancelState, Fields.cancelRequested, Fields.truthy, Json.truthy]

@[simp] lemma cancelRequested_release (state : Fields) :
    (releaseAttemptState state).cancelRequested = state.cancelRequested :=
  cancelRequested_congr (by simp [releaseAttemptState])

variable {base : TaskCheckpoint} {state : Fields}

lemma Cancelled.cancelRequested (h : Cancelled barrierTerms base state)
    (hflag : base.state.cancelRequested = true) : state.cancelRequested = true := by
  cases h with
  | patched patch reason _ => simp
  | parked s w hparks =>
    rw [← hflag]
    exact cancelRequested_congr (by simp [hparks "cancel_requested" (by decide)])
  | recovered => simp [Fields.cancelRequested, Fields.truthy, Json.truthy]
  | held => exact hflag

variable {intents settled : List EffectRecord} {status : TaskStatus} {now : SqliteStore}

/-- No change withdraws a requested cancellation from a task that it leaves cancelled or failed. -/
lemma Change.cancelRequested {phase : Phase}
    (h : Change barrierTerms now base phase state status intents settled)
    (hflag : base.state.cancelRequested = true) (hphase : phase = .cancelled ∨ phase = .failed) :
    state.cancelRequested = true := by
  have hkey : "cancel_requested" ∈ barrierKeys := by decide
  have hsame : ∀ {after : Fields}, after.get? "cancel_requested" =
      base.state.get? "cancel_requested" → after.cancelRequested = true :=
    fun h => (cancelRequested_congr h).trans hflag
  cases h with
  | claim c token _ _ => exact hsame (by simp [Session.claimedState])
  | release => exact hsame (by simp [releaseAttemptState])
  | park w _ hcancel _ => simp [hflag] at hcancel
  | hold patch reason _ _ _ => simp
  | cancel state hstate _ => simpa using hstate.cancelRequested hflag
  | fail patch pending effects hpatch _ _ =>
    exact hsame (by simp [Session.failedState, releaseAttemptState, hpatch _ hkey])
  | advance c a hstep _ _ =>
    refine hsame ?_
    rw [c.get?_advancedState base a.state (by decide), if_neg (by decide), hstep hphase _ hkey,
      Option.none_or]
  | update patch hpatch => exact hsame (by simp [hpatch "cancel_requested" (by decide)])
  | intents effects next hnext => exact hsame (get?_withEffectIntents hnext (by decide))
  | settle effect next hnext => exact hsame (get?_withEffectSettlement hnext (by decide))
  | approval settled next resume id h =>
    have hnext : next.state.get? "cancel_requested" = base.state.get? "cancel_requested" := by
      rcases h with ⟨hstate, -⟩ | ⟨e, next', -, hnext', rfl⟩
      · rw [hstate]
      · exact get?_withEffectSettlement hnext' (by decide)
    refine hsame ?_
    split
    · simpa [Session.resumedApproval, releaseAttemptState] using hnext
    · exact hnext
  | answer question answer entryId revision _ =>
    refine hsame ?_
    split <;> simp [Session.answeredState, releaseAttemptState]
  | runtime intents settled next v rest hnext hrest =>
    have hnone : rest.get? "cancel_requested" = none := by
      by_contra hne
      simpa using hrest _ (Option.isSome_iff_ne_none.mpr hne)
    refine hsame ?_
    rw [Fields.get?_merge, hnone, Option.none_or, Session.get?_runtimeState _ _ (by decide),
      Session.get?_withEffectChanges hnext (by decide)]

/-- A task that is closed in a state that was not done yet is not done afterwards either. -/
lemma Change.stoppedDone {phase : Phase}
    (h : Change barrierTerms now base phase state status intents settled)
    (hlive : base.phase.terminal = false) (hphase : phase = .cancelled ∨ phase = .failed)
    (hdone : stoppedDone state = true) : stoppedDone base.state = true := by
  have hkey : "operation" ∈ barrierKeys := by decide
  have hsame : ∀ {after : Fields}, Codey.stoppedDone after = true →
      after.get? "operation" = base.state.get? "operation" →
      Codey.stoppedDone base.state = true := fun hafter h => stoppedDone_congr h ▸ hafter
  have hterminal : phase.terminal = true := by rcases hphase with rfl | rfl <;> rfl
  cases h with
  | claim c token _ _ => split at hterminal <;> simp_all [Phase.terminal]
  | release _ _ hrelease => rcases hrelease with rfl | rfl <;> grind [Phase.terminal]
  | cancel state hstate _ =>
    refine hsame hdone ?_
    cases hstate with
    | patched patch reason hpatch =>
      simp [releaseAttemptState, Session.cancelState, hpatch _ hkey]
    | parked s w hparks => simp [releaseAttemptState, hparks "operation" hkey]
    | recovered => simp [releaseAttemptState]
    | held => simp [releaseAttemptState]
  | fail patch pending effects hpatch _ _ =>
    exact hsame hdone (by simp [Session.failedState, releaseAttemptState, hpatch _ hkey])
  | advance c a hstep _ _ =>
    refine hsame hdone ?_
    rw [c.get?_advancedState base a.state (by decide), if_pos (by decide), hstep hphase _ hkey,
      Option.or_none]
  | _ => simp [hlive] at hterminal

/-! ### New effects -/

/-- The receipt that closes the provider request of a cancelled task. -/
def ClosingReceipt (t : TaskCheckpoint) (e : EffectRecord) : Prop :=
  e.category = "provider_send" ∧
  e.intent.get? "display_ref" = some (.str "closing_acknowledgement") ∧
  ∃ operation, t.state.operation = some operation ∧
    ((e.intent.get? "request_ref").getD .null).pyEq
      ((operation.get? "request_ref").getD .null) = true

lemma closingReceipt_of_intents {base next : TaskCheckpoint} {effects : List EffectRecord}
    (h : withEffectIntents base effects = .ok next) (hflag : base.state.cancelRequested = true) :
    ∀ e ∈ effects, ClosingReceipt base e := by
  obtain ⟨-, -, hadmits, -⟩ := withEffectIntents_eq_ok h
  have hreceipts := hadmits.resolve_left (by simp [hflag])
  unfold cancellationReceiptsOnly at hreceipts
  split at hreceipts
  · cases hreceipts
  · rename_i operation hoperation
    simp only [Bool.and_eq_true, List.all_eq_true, decide_eq_true_eq] at hreceipts
    intro e he
    obtain ⟨⟨hcategory, hdisplay⟩, hrequest⟩ := hreceipts.2 e he
    exact ⟨hcategory, hdisplay, operation, hoperation, hrequest⟩

/-- A flagged task starts closing receipts only. -/
lemma Change.closingReceipt {T : Terms} {phase : Phase}
    (h : Change T now base phase state status intents settled)
    (hflag : base.state.cancelRequested = true) : ∀ e ∈ intents, ClosingReceipt base e := by
  cases h with
  | intents effects next hnext => exact closingReceipt_of_intents hnext hflag
  | runtime intents settled next v rest hnext _ =>
    refine Session.withEffectChanges_induction
      (P := fun _ => ∀ e ∈ intents, ClosingReceipt base e) hnext ?_
      (fun _ ht => closingReceipt_of_intents ht hflag) fun _ _ _ _ h _ => h
    rintro _ rfl _ e he
    cases he
  | _ => simp

/-! ### Steps -/

/-- What becomes of a flagged task. -/
structure Barred (t t' : TaskCheckpoint) : Prop where
  flag : t'.state.cancelRequested = true
  completed : t'.phase = .completed → t.phase = .completed
  stopped : t.status.terminal = false → stoppedDone t'.state = true →
    stoppedDone t.state = true
  live : t'.status.terminal = false → t.status.terminal = false

/-- A written task keeps the flag, and is not newly done, in a state that closes it. -/
structure ClosesBarred (t t' : TaskCheckpoint) : Prop where
  flag : t.state.cancelRequested = true → t'.phase = .cancelled ∨ t'.phase = .failed →
    t'.state.cancelRequested = true
  stopped : t.status.terminal = false → t'.phase = .cancelled ∨ t'.phase = .failed →
    stoppedDone t'.state = true → stoppedDone t.state = true

lemma Barred.refl {t : TaskCheckpoint} (h : t.state.cancelRequested = true) : Barred t t :=
  ⟨h, id, fun _ => id, id⟩

/-- The store lets a flagged task be closed or cleaned up. -/
lemma Checked.barred {row t : TaskCheckpoint} {expected : Option String}
    (h : Checked row t expected) (hcloses : ClosesBarred row t)
    (hflag : row.state.cancelRequested = true) : Barred row t := by
  by_cases hphase : t.phase = .cancelled ∨ t.phase = .failed
  · refine ⟨hcloses.flag hflag hphase, fun hcompleted => ?_,
      fun hrow => hcloses.stopped hrow hphase, h.live⟩
    rcases hphase with hphase | hphase <;> simp [hphase] at hcompleted
  · have hcleanup := (h.barrier hflag).resolve_left (fun h => hphase (Or.inl h))
    have hcleanup := hcleanup.resolve_left (fun h => hphase (Or.inr h))
    simp only [validCancellationCleanup, Bool.and_eq_true, decide_eq_true_eq] at hcleanup
    obtain ⟨⟨⟨hcancel, hrunning⟩, -⟩, hposition⟩ := hcleanup
    refine ⟨hcancel, by simp [hrunning], fun _ hdone => ?_, h.live⟩
    split at hposition
    · rename_i before after _ hafter
      simp only [Bool.and_eq_true, decide_eq_true_eq] at hposition
      simp only [stoppedDone, hafter, Option.any_some, decide_eq_true_eq] at hdone
      exact absurd hdone hposition.2
    · cases hposition

lemma Wrote.closesBarred {s : SqliteStore} {m : DurableMutation} {t row : TaskCheckpoint}
    (h : Wrote barrierTerms s m t) (hrow : s.tasks.get? t.taskId = some row) :
    ClosesBarred row t := by
  cases h with
  | @revised base phase state status intents settled folded pending hbase change folded_eq next_eq
      checked task effects settlements expected =>
    obtain rfl := Option.some.inj (hrow.symm.trans hbase)
    have hget : ∀ key, "approvals" ≠ key → t.state.get? key = state.get? key := by
      intro key hkey
      rw [next_eq]
      rcases folded_eq with rfl | ⟨approvals, rfl⟩ <;> simp [hkey]
    have hphase : t.phase = phase := by rw [next_eq]
    constructor
    · intro hflag hclosed
      rw [cancelRequested_congr (hget _ (by decide))]
      exact change.cancelRequested hflag (hphase ▸ hclosed)
    · intro hlive hclosed hdone
      rw [stoppedDone_congr (hget _ (by decide))] at hdone
      refine change.stoppedDone ?_ (hphase ▸ hclosed) hdone
      rwa [← Bool.not_eq_true, ← row.status_terminal_iff, Bool.not_eq_true]
  | @placed base entryId consumer consumed hbase next_eq checked unfenced =>
    obtain rfl := Option.some.inj (hrow.symm.trans hbase)
    have hget : ∀ key ∈ barrierKeys, t.state.get? key = row.state.get? key := by
      intro key hkey
      rw [next_eq]
      simp only [barrierKeys, List.mem_cons, List.not_mem_nil, or_false] at hkey
      simp only [Session.placedState]
      rcases hkey with rfl | rfl <;> split <;> simp
    refine ⟨fun hflag _ => ?_, fun _ _ hdone => ?_⟩
    · rwa [cancelRequested_congr (hget _ (by decide))]
    · rwa [stoppedDone_congr (hget _ (by decide))] at hdone
  | admitted hnone =>
    rw [hnone] at hrow
    cases hrow

structure BarrierStep (s s' : SqliteStore) : Prop where
  task : ∀ id t, s.tasks.get? id = some t → t.state.cancelRequested = true →
    ∃ t', s'.tasks.get? id = some t' ∧ Barred t t'
  effect : ∀ id e t, s.effects.get? id = none → s'.effects.get? id = some e →
    s.tasks.get? e.taskId = some t → t.state.cancelRequested = true → ClosingReceipt t e

lemma BarrierStep.refl (s : SqliteStore) : BarrierStep s s where
  task _ t ht hflag := ⟨t, ht, .refl hflag⟩
  effect id e t hnone hsome := by simp [hnone] at hsome

variable {s s' : SqliteStore}

lemma SqliteStore.Accepted.barred {m : DurableMutation} (h : Accepted s m s')
    (hcloses : ∀ t ∈ m.allTasks, ∀ row, s.tasks.get? t.taskId = some row → ClosesBarred row t)
    {id : String} {t : TaskCheckpoint} (ht : s.tasks.get? id = some t)
    (hflag : t.state.cancelRequested = true) : ∃ t', s'.tasks.get? id = some t' ∧ Barred t t' := by
  rcases h.get?_tasks id with ⟨t', hmem, rfl, hget⟩ | ⟨-, hget⟩
  · refine ⟨t', hget, ?_⟩
    rcases h.validated hmem with ⟨-, hvalid⟩ | ⟨-, hvalid⟩ <;>
      exact (checked_of_validateTask hvalid ht).1.barred (hcloses t' hmem t ht) hflag
  · exact ⟨t, by rw [hget, ht], .refl hflag⟩

lemma Revises.barrierStep (h : Revises barrierTerms s s') : BarrierStep s s' := by
  rcases h with rfl | ⟨m, r, -, haccepted, hwrote⟩
  · exact .refl _
  refine ⟨fun id t => haccepted.barred fun t ht row => (hwrote t ht).closesBarred, ?_⟩
  intro id e t hnone hsome ht hflag
  rcases haccepted.get?_effects id with ⟨f, hf, rfl, hget⟩ | ⟨-, hget⟩
  · obtain rfl := Option.some.inj (hget.symm.trans hsome)
    obtain ⟨next, hnext, htask⟩ := haccepted.effect_task hf
    cases hwrote next (by simp [MutationData.allTasks, hnext]) with
    | @revised base phase state status intents settled folded pending row change folded_eq next_eq
        checked task effects settlements expected =>
      rw [htask, row] at ht
      obtain rfl := Option.some.inj ht
      subst effects
      by_cases hnew : f ∈ m.effects
      · exact change.closingReceipt hflag f hnew
      · -- A settlement, on the other hand, is written over a row that was there.
        have hsettled : f ∈ m.effect.toList ++ m.settlements := by
          simp only [MutationData.allEffects, List.mem_append] at hf ⊢
          tauto
        have hstored := haccepted.settled_stored hsettled expected
        simp [hnone] at hstored
    | placed _ _ _ unfenced => exact absurd hnext unfenced
    | admitted _ _ _ _ _ _ effects => simp [effects] at hf
  · rw [hget, hnone] at hsome
    cases hsome

/-! ### The other operations -/

/-- A checkpoint that closes its task keeps the cancellation requested, and is not done. -/
def ClosesAborted (t : CheckpointData) : Prop :=
  t.phase = .cancelled ∨ t.phase = .failed →
    t.state.cancelRequested = true ∧ stoppedDone t.state = false

/-- What the other operations write over a checkpoint that they have read: a request stays, and a
task that changes its phase keeps its operation. -/
structure Rewrites (base : TaskCheckpoint) (next : CheckpointData) : Prop where
  taskId : next.taskId = base.taskId
  revision : next.revision = base.revision + 1
  flag : base.state.cancelRequested = true → next.state.cancelRequested = true
  stopped : next.phase = base.phase ∨ next.state.get? "operation" = base.state.get? "operation"

/-- A map that is merged into the state. -/
lemma Rewrites.merge {base : TaskCheckpoint} {patch : Fields}
    (h : Unnamed ["cancel_requested"] patch) : Rewrites base { base.toCheckpointData with
      revision := base.revision + 1, state := base.state.merge patch } where
  taskId := rfl
  revision := rfl
  flag hflag := by
    rwa [cancelRequested_congr (b := base.state)]
    simp [h "cancel_requested" (by decide)]
  stopped := Or.inl rfl

lemma Rewrites.placed (base : TaskCheckpoint) (entryId consumer : String) (consumed : Bool) :
    Rewrites base (Session.placedState base entryId consumer consumed) where
  taskId := rfl
  revision := rfl
  flag hflag := by
    rwa [cancelRequested_congr (b := base.state)]
    cases consumed <;> simp [Session.placedState]
  stopped := Or.inr (by cases consumed <;> simp [Session.placedState])

lemma Rewrites.withdrawn (base : TaskCheckpoint) :
    Rewrites base (Session.withdrawnState base) where
  taskId := rfl
  revision := rfl
  flag _ := by simp [Session.withdrawnState, Fields.cancelRequested, Fields.truthy, Json.truthy]
  stopped := Or.inr (by simp [Session.withdrawnState, releaseAttemptState])

lemma Rewrites.closesBarred {base t : TaskCheckpoint} (h : Rewrites base t.toCheckpointData) :
    ClosesBarred base t where
  flag hflag _ := h.flag hflag
  stopped hlive hclosed hdone := by
    rcases h.stopped with hphase | hsame
    · have hterminal : base.phase.terminal = true := by
        rw [← hphase]
        rcases hclosed with hclosed | hclosed <;> rw [hclosed] <;> rfl
      rw [base.status_terminal_iff.mpr hterminal] at hlive
      cases hlive
    · rwa [stoppedDone_congr hsame] at hdone

/-- A mutation without effects, whose checkpoints are those of admitted tasks, rewrite one that was
read, or do not withdraw a request in what they close. -/
structure QuietSite (now : SqliteStore) (m : MutationData) : Prop where
  kept : m.deleteConversation = false
  effects : m.allEffects = []
  tasks : ∀ t ∈ m.allTasks, t.revision = 0 ∨ ClosesAborted t.toCheckpointData ∨
    ∃ base s₀, Evolves s₀ now ∧ s₀.tasks.get? base.taskId = some base ∧
      Rewrites base t.toCheckpointData

lemma QuietSite.unfenced : Unfenced QuietSite := fun _ _ _ h => ⟨h.kept, h.effects, h.tasks⟩

lemma QuietSite.barrierStep {m : DurableMutation} (hsite : QuietSite s m.toMutationData)
    (h : SqliteStore.Accepted s m s') : BarrierStep s s' := by
  refine ⟨fun id t => h.barred fun t ht row hrow => ?_, ?_⟩
  · rcases hsite.tasks t ht with hzero | hcloses | ⟨base, s₀, hevolves, hseen, hrewrites⟩
    · rcases h.validated ht with ⟨-, hvalid⟩ | ⟨-, hvalid⟩ <;>
      · have := (SqliteStore.checked_of_validateTask hvalid hrow).1.revision
        omega
    · refine ⟨fun _ hclosed => (hcloses hclosed).1, fun _ hclosed hdone => ?_⟩
      rw [(hcloses hclosed).2] at hdone
      cases hdone
    · have hbase : s.tasks.get? t.taskId = some base := by
        rcases h.validated ht with ⟨-, hvalid⟩ | ⟨-, hvalid⟩ <;>
          exact (row_of_seen hevolves hseen hrewrites.taskId hrewrites.revision hvalid).1
      obtain rfl := Option.some.inj (hbase.symm.trans hrow)
      exact hrewrites.closesBarred
  · intro id e t hnone hsome _ _
    rcases h.get?_effects id with ⟨f, hf, -, -⟩ | ⟨-, hget⟩
    · simp [hsite.effects] at hf
    · rw [hget, hnone] at hsome
      cases hsome

lemma others_of_quiet {w w' : World} (h : Commits QuietSite w w') : Others w w' := by
  rcases h with heq | ⟨m, r, hcommit, hsite⟩
  · rw [Others, heq]
    exact Evolves.refl w.store
  · exact evolves_of_commit hcommit hsite.kept

lemma barrierTerms_shared : barrierTerms.Shared := ⟨rfl, fun _ _ => trivial, fun _ => trivial⟩

/-- A checkpoint that was read among the rows of the store. -/
lemma seenRow_of_mem {w : World} {t : TaskCheckpoint} (h : t ∈ w.store.tasks.rows) :
    SeenRow barrierTerms (Others w) t :=
  fun _ hw => ⟨w.store, hw, Table.mem_rows_iff.mp h⟩

lemma SeenRow.rewritten {K : World → Prop} {base t : TaskCheckpoint} {w : World}
    (h : SeenRow barrierTerms K base) (hw : K w) (hrewrites : Rewrites base t.toCheckpointData) :
    t.revision = 0 ∨ ClosesAborted t.toCheckpointData ∨
      ∃ base s₀, Evolves s₀ w.store ∧ s₀.tasks.get? base.taskId = some base ∧
        Rewrites base t.toCheckpointData := by
  obtain ⟨s₀, hs₀, hrow⟩ := h w hw
  exact Or.inr (Or.inr ⟨base, s₀, hs₀, hrow, hrewrites⟩)

namespace Session

open Prog (Stable guards_bind guards_seq guards_ofExcept)

variable {c : Session} {K : World → Prop} {m : MutationData}

/-- The guarantee of an operation that commits at quiet sites only. -/
abbrev Quiet {α : Type} (K : World → Prop) (p : Op α) (Q : α → (World → Prop) → Prop) : Prop :=
  Prog.Guards Others (Commits QuietSite) K p Q

lemma quiet_commitData (hK : Stable Others K) (happroval : m.approval = none)
    (hkept : m.deleteConversation = false) (heffects : m.allEffects = [])
    (htasks : ∀ t ∈ m.allTasks, t.revision = 0 ∨
      ∃ base, SeenRow barrierTerms K base ∧ Rewrites base t.toCheckpointData) :
    Quiet K (c.commitData m) fun _ _ => True :=
  guards_commitData barrierTerms_shared.frame QuietSite.unfenced hK happroval fun _ hw =>
    ⟨hkept, heffects, fun t ht => (htasks t ht).elim Or.inl fun ⟨_, hseen, hrewrites⟩ =>
      hseen.rewritten hw hrewrites⟩

/-- The commit of one rewritten checkpoint, with entries and submissions beside it. -/
lemma quiet_commitTask {base next : TaskCheckpoint} (hK : Stable Others K)
    (happroval : m.approval = none) (hkept : m.deleteConversation = false)
    (heffects : m.allEffects = []) (htask : m.allTasks = [next])
    (hseen : SeenRow barrierTerms K base) (hrewrites : Rewrites base next.toCheckpointData) :
    Quiet K (c.commitData m) fun _ _ => True := by
  refine quiet_commitData hK happroval hkept heffects fun t ht => Or.inr ⟨base, hseen, ?_⟩
  rw [htask, List.mem_singleton] at ht
  rwa [ht]

lemma quiet_passive {p : Passive} (hK : Stable Others K) (hkept : p.deleteConversation = false) :
    Quiet K (c.commitData p.mutation) fun _ _ => True := by
  refine quiet_commitData hK rfl hkept rfl fun t ht => ?_
  cases hadmitted : p.admitted with
  | none => simp [MutationData.allTasks, Passive.mutation, hadmitted] at ht
  | some admitted =>
    simp only [MutationData.allTasks, Passive.mutation, hadmitted, Option.map_some,
      Option.toList_some, List.append_nil, List.mem_singleton] at ht
    exact Or.inl (ht ▸ admitted.2)

variable {task : TaskCheckpoint} {row : SubmissionRow} {head : Option String} {entryId : String}
  {p : Placement}

lemma placeWaiting_task (h : placeWaiting task row head entryId = .ok p) :
    ∃ next entryId, p.task = some next ∧
      next.toCheckpointData = placedState task entryId "" false := by
  obtain ⟨-, h⟩ := except_seq_eq_ok.mp h
  obtain ⟨-, h⟩ := except_seq_eq_ok.mp h
  obtain ⟨entry, -, h⟩ := except_bind_eq_ok.mp h
  obtain ⟨next, hnext, h⟩ := except_bind_eq_ok.mp h
  obtain ⟨update, -, rfl⟩ := except_last_eq_ok.mp h
  exact ⟨next, entry.entryId, rfl, TaskCheckpoint.make_eq_ok.mp hnext⟩

/-- A placement at a boundary without a task places tasks that were read. -/
lemma placeUnowned_task {b : Boundary} {conversationId : String} {tasks : List TaskCheckpoint}
    {selected : List (SubmissionRow × String)} {ps : List Placement}
    (h : placeUnowned b conversationId tasks head selected = .ok ps) (hp : p ∈ ps)
    {t : TaskCheckpoint} (ht : p.task = some t) :
    ∃ base ∈ tasks, Rewrites base t.toCheckpointData := by
  induction selected generalizing head ps with
  | nil =>
    obtain rfl := Except.ok.inj h
    cases hp
  | cons chosen selected ih =>
    obtain ⟨row, entryId⟩ := chosen
    obtain ⟨placed, hplaced, h⟩ := except_bind_eq_ok.mp h
    obtain ⟨rest, hrest, rfl⟩ := except_last_eq_ok.mp h
    rcases List.mem_cons.mp hp with rfl | hp
    · unfold placeAlone at hplaced
      split at hplaced
      · obtain ⟨_, -, rfl⟩ := except_last_eq_ok.mp hplaced
        cases ht
      · split at hplaced
        · cases hplaced
        rename_i task hfound
        obtain ⟨next, _, hnext, hdata⟩ := placeWaiting_task hplaced
        obtain rfl := Option.some.inj (hnext.symm.trans ht)
        have hmem := List.mem_of_getLast? hfound
        exact ⟨task, (List.mem_filter.mp hmem).1, hdata ▸ .placed task _ _ _⟩
    · exact ih hrest hp

lemma quiet_placeSubmission {submissionId : String}
    {write : SubmissionRow → Except Error (Option EntryDraft × SubmissionUpdate)} :
    Quiet K (c.placeSubmission submissionId entryId write) fun _ _ => True := by
  refine guards_bind (guards_look fun w₁ _ => ?_)
  split
  · exact guards_ofExcept fun _ h => by cases h
  split
  · exact trivial
  refine guards_bind (guards_ensure fun _ => ?_)
  split
  · refine guards_bind (guards_ofExcept fun _ _ => guards_bind (guards_view fun w _ _ _ => ?_))
    exact guards_seq (quiet_commitData (barrierTerms_shared.frame.stable w) rfl rfl rfl
      fun t ht => by simp [MutationData.allTasks] at ht) fun _ _ => trivial
  refine guards_bind (guards_look fun w₂ _ => ?_)
  split
  · exact guards_ofExcept fun _ h => by cases h
  rename_i task hfound
  refine guards_bind (guards_view fun w₃ _ hw₃ _ => ?_)
  refine guards_bind (guards_ofExcept fun placed hplaced => ?_)
  obtain ⟨next, _, hnext, hdata⟩ := placeWaiting_task hplaced
  have hseen := (seenRow_of_mem (List.mem_of_find?_eq_some hfound)).mono
    fun w hw => Evolves.trans hw₃ hw
  have hrewrites : Rewrites task next.toCheckpointData := hdata ▸ .placed task _ _ _
  exact guards_seq (quiet_commitTask (barrierTerms_shared.frame.stable w₃) rfl rfl rfl
    (by rw [MutationData.allTasks, hnext]; rfl) hseen hrewrites) fun _ _ => trivial

lemma quiet_placeBoundaryInputs {b : Boundary} {conversationId : String} :
    Quiet K (c.placeBoundaryInputs b conversationId) fun _ _ => True := by
  refine guards_bind (guards_look fun w₁ _ => guards_bind (guards_view fun w₂ _ _ _ => ?_))
  refine guards_bind (guards_look fun w₃ _ => guards_bind (guards_ofExcept fun ps hps => ?_))
  split
  · exact trivial
  refine guards_seq (quiet_commitData (barrierTerms_shared.frame.stable w₃) rfl rfl rfl
    fun t ht => ?_) fun _ _ => trivial
  obtain ⟨p, hp, htask⟩ := List.mem_filterMap.mp (show t ∈ ps.filterMap (·.task) from ht)
  obtain ⟨base, hbase, hrewrites⟩ := placeUnowned_task hps hp htask
  exact Or.inr ⟨base, seenRow_of_mem hbase, hrewrites⟩

lemma quiet_commitGenerationBoundary {b : Boundary} {conversationId taskId : String} :
    Quiet K (c.commitGenerationBoundary b conversationId taskId) fun _ _ => True := by
  have F := barrierTerms_shared.frame
  refine guards_bind (guards_view fun w₁ active _ _ => ?_)
  refine guards_bind (guards_ensure fun _ => guards_bind (guards_ensure fun _ => ?_))
  refine guards_bind (guards_look fun w₂ _ => guards_bind (guards_view fun w₃ _ _ _ => ?_))
  refine guards_bind (guards_look fun w₄ _ => guards_bind (guards_ofExcept fun ps hps => ?_))
  refine guards_bind (guards_task F fun w₅ base hw₅ _ _ hseen => ?_)
  refine guards_bind (guards_ofExcept fun next hnext => ?_)
  have hnext := TaskCheckpoint.make_eq_ok.mp hnext
  refine guards_seq (quiet_commitData (F.stable w₅) rfl rfl rfl fun t ht => ?_) fun _ _ => trivial
  have hmem : t ∈ ps.filterMap (·.task) ++ [next] := by
    rcases List.mem_append.mp ht with ht | ht
    · exact List.mem_of_find?_eq_some (Option.mem_toList.mp ht)
    · exact (List.mem_filter.mp ht).1
  rcases List.mem_append.mp hmem with hplaced | hactive
  · obtain ⟨p, hp, htask⟩ := List.mem_filterMap.mp hplaced
    obtain ⟨base, hbase, entryId, consumed, hdata⟩ := placeAll_task hps hp htask
    exact Or.inr ⟨base, (seenRow_of_mem hbase).mono fun w hw => Evolves.trans hw₅ hw,
      hdata ▸ .placed base _ _ _⟩
  · rw [List.mem_singleton] at hactive
    refine Or.inr ⟨base, hseen, ?_⟩
    rw [hactive, hnext]
    exact .merge fun key hkey => by
      rw [List.mem_singleton.mp hkey]
      simp

lemma quiet_withdrawQueuedSubmissionAt {conversationId : String} {position : Nat}
    {expected : Option String} :
    Quiet K (c.withdrawQueuedSubmissionAt conversationId position expected) fun _ _ => True := by
  have F := barrierTerms_shared.frame
  refine guards_bind (guards_look fun w₁ _ => ?_)
  split
  · exact guards_ofExcept fun _ h => by cases h
  refine guards_bind (guards_ensure fun _ => guards_bind (guards_ofExcept fun update _ => ?_))
  split
  · refine guards_bind (guards_view fun w _ _ _ => ?_)
    exact guards_seq (quiet_commitData (F.stable w) rfl rfl rfl
      fun t ht => by simp [MutationData.allTasks] at ht) fun _ _ => trivial
  refine guards_bind (guards_look fun w₂ _ => ?_)
  split
  · exact guards_ofExcept fun _ h => by cases h
  rename_i task hfound
  refine guards_bind (guards_ensure fun _ => guards_bind (guards_view fun w₃ _ hw₃ _ => ?_))
  refine guards_bind (guards_look fun w₄ hw₄ => guards_bind (guards_ensure fun _ => ?_))
  refine guards_bind (guards_ofExcept fun next hnext => ?_)
  have hseen := (seenRow_of_mem (List.mem_of_find?_eq_some hfound)).mono
    fun w hw => Evolves.trans (Evolves.trans hw₃ hw₄) hw
  exact guards_seq (quiet_commitTask (F.stable w₄) rfl rfl rfl rfl hseen
    (TaskCheckpoint.make_eq_ok.mp hnext ▸ .withdrawn task)) fun _ _ => trivial

lemma unnamed_revisedInput (text mode : Option String) :
    Unnamed ["cancel_requested"] (revisedInput text mode) := by
  intro key hkey
  rw [List.mem_singleton.mp hkey]
  cases text <;> cases mode <;> rfl

lemma quiet_reviseQueuedInput {taskId : String} {expected : Nat} {text : Option String}
    {mode : Option SubmissionMode} :
    Quiet K (c.reviseQueuedInput taskId expected text mode) fun _ _ => True := by
  have F := barrierTerms_shared.frame
  refine guards_bind (guards_task F fun w₁ base _ _ _ hseen => ?_)
  refine guards_bind (guards_ensure fun _ => guards_bind (guards_view fun w₂ _ hw₂ _ => ?_))
  refine guards_bind (guards_ensure fun _ => guards_bind (guards_ensure fun _ => ?_))
  refine guards_bind (guards_ensure fun _ => guards_bind (guards_ensure fun _ => ?_))
  refine guards_bind (guards_view fun w₃ _ hw₃ _ => ?_)
  refine guards_bind (guards_ofExcept fun next hnext => guards_bind (guards_ofExcept fun _ _ => ?_))
  refine guards_seq (quiet_commitTask (F.stable w₃) rfl rfl rfl rfl
    (hseen.mono fun w hw => Evolves.trans (Evolves.trans hw₂ hw₃) hw) ?_) fun _ _ => trivial
  rw [TaskCheckpoint.make_eq_ok.mp hnext]
  exact .merge (unnamed_revisedInput text _)

lemma quiet_transformTaskState {taskId : String}
    {transform : TaskCheckpoint → Except Error (Option Fields)}
    (h : ∀ t patch, transform t = .ok (some patch) → Unnamed ["cancel_requested"] patch) :
    Quiet K (c.transformTaskState taskId transform) fun _ _ => True := by
  have F := barrierTerms_shared.frame
  refine guards_bind (guards_view fun w₁ current _ _ => ?_)
  refine guards_bind (guards_ofExcept fun found hfound => ?_)
  split
  · exact trivial
  rename_i patch
  refine guards_seq ?_ fun _ _ => trivial
  refine guards_bind (guards_ensureUsable fun w₂ _ => ?_)
  refine guards_bind (guards_task F fun w₃ base _ _ _ hseen => guards_bind ?_)
  refine guards_ensure fun _ => guards_bind (guards_ofExcept fun next hnext => ?_)
  refine guards_bind (guards_view fun w₄ _ hw₄ _ => ?_)
  refine quiet_commitTask (F.stable w₄) rfl rfl rfl rfl
    (hseen.mono fun w hw => Evolves.trans hw₄ hw) ?_
  rw [TaskCheckpoint.make_eq_ok.mp hnext]
  exact .merge (h current patch hfound)

lemma quiet_recordImmutableTaskState {taskId key conflict : String} {value : Fields}
    (hkey : key ≠ "cancel_requested") :
    Quiet K (c.recordImmutableTaskState taskId key value conflict) fun _ _ => True := by
  have F := barrierTerms_shared.frame
  refine guards_bind (guards_task F fun w₁ base _ _ _ hseen => ?_)
  split
  · refine guards_bind (guards_view fun w₂ _ hw₂ _ => ?_)
    refine guards_bind (guards_ofExcept fun next hnext => ?_)
    refine guards_seq (quiet_commitTask (F.stable w₂) rfl rfl rfl rfl
      (hseen.mono fun w hw => Evolves.trans hw₂ hw) ?_) fun _ _ => trivial
    rw [TaskCheckpoint.make_eq_ok.mp hnext]
    refine .merge fun other hother => ?_
    rw [List.mem_singleton.mp hother]
    simp [hkey]
  · exact guards_ensure fun _ => trivial

/-- A migration rewrites a task that was read. -/
lemma quiet_migrateTask {d : WorkflowDefinition} {checkpoint : Fields} {t : TaskCheckpoint}
    (hK : Stable Others K) (hseen : SeenRow barrierTerms K t) :
    Quiet K (c.migrateTask d checkpoint t) fun _ _ => True := by
  refine guards_bind (guards_view fun w _ hw _ => ?_)
  refine guards_bind (guards_ofExcept fun next hnext => ?_)
  refine quiet_commitTask (barrierTerms_shared.frame.stable w) rfl rfl rfl rfl
    (hseen.mono fun w' hw' => hK w w' hw hw') ?_
  rw [TaskCheckpoint.make_eq_ok.mp hnext]
  refine .merge fun key hkey => ?_
  rw [List.mem_singleton.mp hkey]
  simp

/-- The loop over the stored workflows knows the tasks that were read before it. -/
lemma quiet_reconcileEach {definitions : Workflows} {tasks : List TaskCheckpoint}
    (hK : Stable Others K) (hseen : ∀ t ∈ tasks, SeenRow barrierTerms K t) :
    Quiet K (c.reconcileEach definitions tasks) fun _ _ => True := by
  induction tasks generalizing K with
  | nil => exact trivial
  | cons t tasks ih =>
    refine guards_bind (guards_ofExcept fun found _ => ?_)
    split
    · exact ih hK fun u hu => hseen u (List.mem_cons_of_mem t hu)
    rename_i d _
    refine guards_bind (guards_ofExcept fun checkpoint _ => guards_bind ?_)
    let Known : World → Prop := fun w => ∀ u ∈ tasks,
      ∃ s, Evolves s w.store ∧ s.tasks.get? u.taskId = some u
    have hothers : Stable Others Known := fun w w' hw hww' u hu =>
      (hw u hu).imp fun s hs => ⟨hs.1.trans hww', hs.2⟩
    have hown : ∀ w w', Known w → Commits QuietSite w w' → Known w' := fun w w' hw h =>
      hothers w w' hw (others_of_quiet h)
    refine ((quiet_migrateTask hK (hseen t List.mem_cons_self)).carry hothers hown
      fun w hw u hu => hseen u (List.mem_cons_of_mem t hu) w hw).imp fun _ K' hK' => ?_
    exact guards_seq ((ih hothers fun u hu w hw => hw u hu).mono hK'.2 fun _ _ _ _ _ => trivial)
      fun _ _ => trivial

lemma quiet_reconcileWorkflows {definitions : Workflows} :
    Quiet K (c.reconcileWorkflows definitions) fun _ _ => True :=
  guards_bind (guards_ensureUsable fun _ _ => guards_bind (guards_look fun w _ =>
    quiet_reconcileEach (barrierTerms_shared.frame.stable w) fun _ ht => seenRow_of_mem ht))

/-- An approval is folded into the checkpoint that comes with it, beside its flag and operation. -/
lemma quiet_transitionApproval {approvalId : String} {approval : ApprovalRecord}
    {expected : ApprovalStatus} {t : TaskCheckpoint} (hcloses : ClosesAborted t.toCheckpointData) :
    Quiet K (c.transitionApproval approvalId approval expected (some t)) fun _ _ => True := by
  have F := barrierTerms_shared.frame
  refine guards_bind (guards_ensureUsable fun _ _ => guards_bind (guards_ensure fun _ => ?_))
  refine guards_bind (guards_view fun w _ _ _ => guards_bind (guards_ofExcept fun m hm => ?_))
  have hm := DurableMutation.make_eq_ok.mp hm
  refine guards_commit_approval F QuietSite.unfenced (F.stable w) (by rw [hm])
    fun _ current m' _ _ _ hfolded _ _ => ?_
  obtain ⟨approvals, _, next, -, -, -, -, hnext, hm'⟩ := materializeApproval_eq_ok hfolded
  rw [hm] at hnext hm'
  rw [hm']
  refine ⟨rfl, rfl, fun u hu => Or.inr (Or.inl ?_)⟩
  simp only [MutationData.allTasks, Option.toList_some, List.append_nil, List.mem_singleton] at hu
  rw [hu, hnext]
  intro hphase
  obtain ⟨hflag, hdone⟩ := hcloses hphase
  refine ⟨?_, ?_⟩
  · rwa [cancelRequested_congr (b := t.state)]
    simp [withApproval]
  · rwa [stoppedDone_congr (b := t.state)]
    simp [withApproval]

end Session

/-! ### Runs -/

/-- What is asked of the steps of a system. -/
def Operation.KeepsBarrier : Operation → Prop
  | .call request => request.KeepsBarrier
  | .passive _ p => p.deleteConversation = false
  | .transformTaskState _ _ transform =>
    ∀ t patch, transform t = .ok (some patch) → Unnamed ["cancel_requested"] patch
  | .transitionApproval _ _ _ _ task => ClosesAborted task.toCheckpointData
  | _ => True

/-- How the steps of an operation change a world. -/
def Operation.Commits : Operation → World → World → Prop
  | .call _ => Codey.Commits (Site barrierTerms)
  | _ => Codey.Commits QuietSite

open Session in
lemma Operation.guards {operation : Operation} (h : operation.KeepsBarrier) (w : World) :
    Prog.Guards Others operation.Commits (Others w) operation.prog fun _ _ => True := by
  cases operation with
  | call request =>
    exact Call.guards barrierTerms_shared.frame (fun _ _ _ => trivial) barrierTerms_shared.keeps
      (Call.KeepsBarrier.meets h w)
  | passive c p =>
    exact Prog.guards_seq (quiet_passive (barrierTerms_shared.frame.stable w) h) fun _ _ => trivial
  | placeSubmission => exact quiet_placeSubmission
  | placeBoundaryInputs => exact quiet_placeBoundaryInputs
  | commitGenerationBoundary => exact quiet_commitGenerationBoundary
  | withdrawQueuedSubmissionAt => exact quiet_withdrawQueuedSubmissionAt
  | reviseQueuedInput => exact quiet_reviseQueuedInput
  | transformTaskState => exact quiet_transformTaskState h
  | recordTaskPolicy => exact quiet_recordImmutableTaskState (by decide)
  | recordReviewerSelection => exact quiet_recordImmutableTaskState (by decide)
  | reconcileWorkflows => exact Prog.guards_seq quiet_reconcileWorkflows fun _ _ => trivial
  | transitionApproval => exact Prog.guards_seq (quiet_transitionApproval h) fun _ _ => trivial

lemma Operation.Commits.barrierStep {operation : Operation} {w w' : World}
    (h : operation.Commits w w') : BarrierStep w.store w'.store := by
  have hquiet : Codey.Commits QuietSite w w' → BarrierStep w.store w'.store := by
    rintro (heq | ⟨m, r, hcommit, hsite⟩)
    · rw [heq]
      exact .refl _
    · rcases SqliteStore.commit_cases hcommit with ⟨heq, -⟩ | ⟨hdel, -⟩ | ⟨-, haccepted⟩
      · rw [heq]
        exact .refl _
      · simp [hsite.kept] at hdel
      · exact hsite.barrierStep haccepted
  cases operation with
  | call => exact (Codey.Commits.revises (fun _ _ h => h) h).barrierStep
  | _ => exact hquiet h

lemma Operation.Commits.others {operation : Operation} {w w' : World}
    (h : operation.Commits w w') : Others w w' := by
  cases operation with
  | call => exact (Codey.Commits.revises (fun _ _ h => h) h).evolves
  | _ => exact others_of_quiet h

/-- Every step of a system keeps the barrier. -/
lemma System.barrierSteps {w₀ : World} {tr : List (Operation × World × World)}
    {P : Pool World Error Operation} (hrun : Pool.Run Operation.prog ⟨w₀, []⟩ tr P)
    (hcalls : ∀ e ∈ tr, e.1.KeepsBarrier) :
    ∀ e ∈ tr, BarrierStep e.2.1.store e.2.2.store := by
  have hguards : ∀ (operation : Operation) (w : World), operation.KeepsBarrier →
      Prog.Guards Others operation.Commits (Others w) operation.prog fun _ _ => True :=
    fun _ w h => Operation.guards h w
  have hsteps := System.steps (fun _ _ _ h => Operation.Commits.others h) hguards hrun hcalls
  intro e he
  rcases hsteps e he with heq | hstep
  · rw [heq]
    exact .refl _
  · exact hstep.barrierStep

/-- A cancellation is requested of a running task. -/
def sampleStop : List Operation :=
  [.call (.admitInput firstSession (plainInput "task" none)),
    .call (.claimTask firstSession "task" "token"), .call (.startTask firstSession "task" []),
    .call (.requestCancel firstSession "task" "cancelled" [] none)]

/-- The worker goes on, a policy is recorded, and the task is closed. -/
def sampleStopped : List Operation :=
  [.call (.recordEffectIntents firstSession "task" [sampleEffect]),
    .recordTaskPolicy firstSession "task" [],
    .passive firstSession { conversationId := "conversation-task", expectedRevision := 1 },
    .call (.cancelTask firstSession "task" "cancelled")]

def sampleDone : Session.RuntimeMutation where
  view _ _ := .ok (some { operation := [("stop_reason", .str "done")] })

/-- A run of the operations `before`, one after the other, leaves a flagged task, and the operations
`after` bring it to a state that it was not in. -/
def Escapes (before after : List Operation) (bad : TaskCheckpoint → Bool) : Prop :=
  ∃ (tr tr' : List (Operation × World × World)) (P P' : Pool World Error Operation)
      (t t' : TaskCheckpoint),
    Pool.Run Operation.prog ⟨{ store := {} }, []⟩ tr P ∧ Pool.Run Operation.prog P tr' P' ∧
    (∀ e ∈ tr, e.1 ∈ before) ∧ (∀ e ∈ tr', e.1 ∈ after) ∧
    P.state.store.tasks.get? "task" = some t ∧ t.state.cancelRequested = true ∧ bad t = false ∧
    P'.state.store.tasks.get? "task" = some t' ∧ bad t' = true

lemma escapes_of_execute {bad : TaskCheckpoint → Bool} {before after : List Operation}
    (h : ((Pool.execute Operation.prog before { store := {} }).store.tasks.get? "task").map
        (fun t => (t.state.cancelRequested, bad t)) = some (true, false) ∧
      ((Pool.execute Operation.prog after
        (Pool.execute Operation.prog before { store := {} })).store.tasks.get? "task").map bad =
          some true) : Escapes before after bad := by
  obtain ⟨tr, P, hrun, hstate, hcalls⟩ :=
    Pool.Run.execute Operation.prog before ⟨{ store := {} }, []⟩
  obtain ⟨tr', P', hrun', hstate', hcalls'⟩ := Pool.Run.execute Operation.prog after P
  obtain ⟨t, ht, hflag⟩ := Option.map_eq_some_iff.mp h.1
  obtain ⟨t', ht', hbad⟩ := Option.map_eq_some_iff.mp h.2
  obtain ⟨hflag, hgood⟩ := Prod.mk.inj hflag
  refine ⟨tr, tr', P, P', t, t', hrun, hrun', hcalls, hcalls', ?_, hflag, hgood, ?_, hbad⟩
  · rw [hstate, ht]
  · rw [hstate', hstate, ht']

/-- An approval of a command of the task. -/
def sampleAsked (status : ApprovalStatus) (revision : Nat) : ApprovalRecord where
  approvalId := "approval"
  taskId := "task"
  conversationId := "conversation-task"
  status := status
  commandDigest := "digest"
  commandRef := "ref"
  cwd := "src"
  revision := revision
  valid := rfl

/-- A checkpoint of a caller that fails the task, without its request. -/
def sampleFailed : TaskCheckpoint where
  taskId := "task"
  conversationId := "conversation-task"
  submissionId := "submission-task"
  phase := .failed
  revision := 5
  providerSnapshot := []
  state := [("abandon_on_restart", .bool false), ("attempt_number", .int 1),
    ("input_entry_id", .str "entry-task"), ("owner_task_id", .null)]
  status := .failed
  valid := by decide +kernel

def otherDeletion : Passive where
  conversationId := "conversation-task"
  expectedRevision := 1
  deleteConversation := true

end Codey
