import Codey.Runtime.OperationReducer

/-!
# Recovery decisions

No action of the reducer sends or executes anything whose outcome is not known: requests and turns
wait for every effect to settle, and a batch is executed or delivered again only when nothing of it
can have reached the provider or all of its results are at hand.
-/

namespace Codey

namespace Runtime

variable {v : SessionView} {inputs : RuntimeDecisionInputs} {a : RuntimeAction}
  {state : RuntimeOperationState} {pending : PendingRuntimeFacts} {id : String}

/-- A batch of safe calls of which nothing can have reached the provider. -/
structure Replayable (b : DeliveryBatchProjection) : Prop where
  undelivered : b.isDelivered = false
  kept : b.isAbandoned = false
  unsent : b.activeAttempts = []
  safe : ∀ item ∈ b.intent.items,
    item.replayClass = .safe ∧ item.isDenied = false ∧ isReplayableSafeTool item.toolName = true

def Complete (v : SessionView) (b : DeliveryBatchProjection) : Prop :=
  ∀ ref ∈ b.intent.toolRefs, ∃ e ∈ v.effects,
    e.intent.effectId = ref ∧ e.settlement.isSome = true

def ActionKind.risky : ActionKind → Bool
  | .submitProviderRequest | .prepareTurn | .terminal | .replaySafeToolBatch
  | .redeliverSettledBatch => true
  | _ => false

/-- What has to hold of a view before an action of a risky kind. -/
structure RepeatsNothing (v : SessionView) (a : RuntimeAction) : Prop where
  settled : a.kind = .submitProviderRequest ∨ a.kind = .prepareTurn ∨ a.kind = .terminal →
    ∀ e ∈ v.effects, e.settlement.isSome = true
  replay : a.kind = .replaySafeToolBatch →
    ∃ b ∈ v.batches, b.intent.batchId = a.deliveryBatchId ∧ Replayable b
  redeliver : a.kind = .redeliverSettledBatch →
    ∃ b ∈ v.batches, b.intent.batchId = a.deliveryBatchId ∧ Complete v b

/-! ### Facts about views -/

lemma settled_of_unsettled_eq_nil (h : v.unsettled = []) :
    ∀ e ∈ v.effects, e.settlement.isSome = true := by
  intro e he
  have := List.filter_eq_nil_iff.mp h e he
  cases hsettlement : e.settlement with
  | none => simp [hsettlement] at this
  | some receipt => rfl

lemma replayable_of_canRecover {b : DeliveryBatchProjection}
    (h : b.canRecoverBeforeProviderSend = true) : Replayable b := by
  simp only [DeliveryBatchProjection.canRecoverBeforeProviderSend,
    DeliveryBatchProjection.isAllSafe, Bool.and_eq_true, Bool.not_eq_true', List.isEmpty_iff,
    List.all_eq_true, decide_eq_true_eq] at h
  obtain ⟨⟨⟨hdelivered, habandoned⟩, hsent⟩, -, hsafe⟩ := h
  exact ⟨hdelivered, habandoned, hsent, fun item hitem =>
    ⟨(hsafe item hitem).1.1, (hsafe item hitem).1.2, (hsafe item hitem).2⟩⟩

lemma complete_of_fullySettled {b : DeliveryBatchProjection}
    (h : batchFullySettled b v.effects = true) : Complete v b := by
  rw [batchFullySettled, Bool.and_eq_true, List.all_eq_true] at h
  intro ref href
  have := h.2 ref href
  cases hfind : effectById v.effects.reverse ref with
  | none => simp [hfind] at this
  | some e =>
    rw [hfind] at this
    rw [effectById] at hfind
    exact ⟨e, List.mem_reverse.mp (List.mem_of_find?_eq_some hfind),
      by simpa using List.find?_some hfind, this⟩

lemma mem_of_batchById {b : DeliveryBatchProjection} (h : batchById v.batches id = some b) :
    b ∈ v.batches := List.mem_of_find?_eq_some h

/-! ### The handlers -/

lemma RepeatsNothing.of_not_risky (h : a.kind.risky = false) : RepeatsNothing v a := by
  constructor
  · rintro (hkind | hkind | hkind) <;> simp [hkind, ActionKind.risky] at h
  · intro hkind
    simp [hkind, ActionKind.risky] at h
  · intro hkind
    simp [hkind, ActionKind.risky] at h

lemma RepeatsNothing.of_settled (hquiet : v.unsettled = [])
    (hreplay : a.kind ≠ .replaySafeToolBatch) (hredeliver : a.kind ≠ .redeliverSettledBatch) :
    RepeatsNothing v a :=
  ⟨fun _ => settled_of_unsettled_eq_nil hquiet, fun h => absurd h hreplay,
    fun h => absurd h hredeliver⟩

lemma repeatsNothing_preparedRequest : RepeatsNothing v
    (preparedRequestAction state v.unsettled) := by
  unfold preparedRequestAction
  split
  · split_ifs
    · exact .of_not_risky rfl
    · exact .of_not_risky rfl
  · split_ifs with hmismatch
    · exact .of_not_risky rfl
    · push Not at hmismatch
      exact .of_settled hmismatch.1 (by simp) (by simp)

lemma repeatsNothing_providerPending :
    RepeatsNothing v (providerPendingAction state v.effects pending) := by
  unfold providerPendingAction
  split
  · exact .of_not_risky rfl
  · split
    · exact .of_not_risky rfl
    · exact .of_not_risky rfl

lemma repeatsNothing_responseReady : RepeatsNothing v (responseReadyAction state v.effects) := by
  unfold responseReadyAction
  split
  · split_ifs
    · exact .of_not_risky rfl
    · exact .of_not_risky rfl
  · exact .of_not_risky rfl

lemma repeatsNothing_approval : RepeatsNothing v (approvalAction state inputs v.unsettled) := by
  unfold approvalAction
  split_ifs
  all_goals exact .of_not_risky rfl

lemma repeatsNothing_toolPending :
    RepeatsNothing v (toolPendingAction state v.effects v.batches pending) := by
  unfold toolPendingAction
  dsimp only
  split
  · split
    · exact .of_not_risky rfl
    · exact .of_not_risky rfl
  · split
    · exact .of_not_risky rfl
    · split
      · exact .of_not_risky rfl
      · cases hbatch : batchById v.batches pending.deliveryBatchId with
        | none => exact .of_not_risky rfl
        | some b =>
          simp only
          split
          · rename_i hsafe
            refine ⟨by simp, fun _ => ?_, by simp⟩
            exact ⟨b, mem_of_batchById hbatch, rfl, replayable_of_canRecover hsafe.1⟩
          · exact .of_not_risky rfl

lemma repeatsNothing_deliveryPending :
    RepeatsNothing v (deliveryPendingAction state v.effects v.batches pending) := by
  unfold deliveryPendingAction
  cases hbatch : batchById v.batches pending.deliveryBatchId with
  | none => exact .of_not_risky rfl
  | some b =>
    simp only
    split_ifs with hcomplete hsafe
    · refine ⟨by simp, by simp, fun _ => ?_⟩
      exact ⟨b, mem_of_batchById hbatch, rfl, complete_of_fullySettled hcomplete⟩
    · refine ⟨by simp, fun _ => ?_, by simp⟩
      exact ⟨b, mem_of_batchById hbatch, rfl, replayable_of_canRecover hsafe⟩
    · exact .of_not_risky rfl

lemma repeatsNothing_toolDelivery :
    RepeatsNothing v (toolDeliveryAction state v.effects v.batches pending v.unsettled) := by
  unfold toolDeliveryAction
  split
  · exact .of_not_risky rfl
  · split
    · exact repeatsNothing_deliveryPending
    · split_ifs
      · exact .of_not_risky rfl
      · exact .of_not_risky rfl

lemma repeatsNothing_lifecycle : RepeatsNothing v (lifecycleAction state v) := by
  unfold lifecycleAction
  split_ifs with hleaf hunsettled hbatches hturn
  · exact .of_not_risky rfl
  · exact .of_not_risky rfl
  · exact .of_settled (not_not.mp hunsettled) (by simp) (by simp)
  · exact .of_not_risky rfl
  · exact .of_not_risky rfl

lemma repeatsNothing_execution (h : executionPositionAction state inputs = some a) :
    RepeatsNothing v a := by
  unfold executionPositionAction at h
  by_cases hquestion : state.leaf = .kernelSettled ∧ inputs.questionAnswered
  · rw [if_pos hquestion] at h
    obtain rfl := Option.some.inj h
    exact .of_not_risky rfl
  · rw [if_neg hquestion] at h
    obtain ⟨kind, hkind, rfl⟩ := Option.map_eq_some_iff.mp h
    split_ifs
    · exact .of_not_risky rfl
    · refine .of_not_risky ?_
      cases hleaf : state.leaf
      all_goals
        rw [hleaf] at hkind
        simp only [executionAction, reduceCtorEq, Option.some.injEq] at hkind
      all_goals
        subst hkind
        rfl

lemma repeatsNothing_leaf : RepeatsNothing v (leafAction state v inputs) := by
  unfold leafAction
  split
  · exact repeatsNothing_preparedRequest
  · exact repeatsNothing_providerPending
  · exact repeatsNothing_responseReady
  · split_ifs
    · exact repeatsNothing_approval
    · exact repeatsNothing_toolPending
  · exact repeatsNothing_toolDelivery
  · cases hexec : executionPositionAction state inputs with
    | none => exact repeatsNothing_lifecycle
    | some action => exact repeatsNothing_execution hexec

lemma repeatsNothing_guard (h : operationGuardAction v inputs = some a) : RepeatsNothing v a := by
  unfold operationGuardAction at h
  cases hstate : v.state with
  | none =>
    simp only [hstate, Option.some.injEq] at h
    subst h
    exact .of_not_risky rfl
  | some state =>
    simp only [hstate] at h
    split_ifs at h with hknown hprogress hunknown hcancel hterminal hunsettled
    all_goals obtain rfl := Option.some.inj h
    · exact .of_not_risky rfl
    · exact .of_not_risky rfl
    · exact .of_not_risky rfl
    · exact .of_settled (not_not.mp hunsettled) (by simp) (by simp)
    · exact .of_not_risky rfl
    · exact .of_not_risky rfl

lemma repeatsNothing_next : RepeatsNothing v (nextRuntimeAction v inputs) := by
  unfold nextRuntimeAction
  split
  · rename_i hguard
    exact repeatsNothing_guard hguard
  · exact repeatsNothing_leaf
  · exact .of_not_risky rfl

/-! ### Unknown outcomes -/

def SessionView.unknown (v : SessionView) : List RuntimeEffectProjection :=
  v.effects.filter (·.outcomeUnknown)

/-- The guards that come before the outcomes of effects are looked at. -/
def SessionView.Sound (v : SessionView) : Prop :=
  ∃ state, v.state = some state ∧ state.leaf.known = true ∧ progressReferenceValid v = true

lemma next_of_unknown (h : v.unknown ≠ []) :
    (nextRuntimeAction v inputs).kind = .failInvariant ∧
      (v.Sound →
        (nextRuntimeAction v inputs).effectIds = v.unknown.map (·.intent.effectId)) := by
  have hguard : ∃ action, operationGuardAction v inputs = some action ∧
      action.kind = .failInvariant ∧
      (v.Sound → action.effectIds = v.unknown.map (·.intent.effectId)) := by
    unfold operationGuardAction
    cases hstate : v.state with
    | none =>
      refine ⟨_, rfl, rfl, ?_⟩
      rintro ⟨state, hsome, -⟩
      rw [hstate] at hsome
      cases hsome
    | some state =>
      simp only
      have hunknown : v.effects.filter (·.outcomeUnknown) ≠ [] := h
      rw [if_pos hunknown]
      by_cases hknown : state.leaf.known = true
      · by_cases hprogress : progressReferenceValid v = true
        · rw [if_neg (not_not.mpr hknown), if_neg (not_not.mpr hprogress)]
          exact ⟨_, rfl, rfl, fun _ => rfl⟩
        · rw [if_neg (not_not.mpr hknown), if_pos hprogress]
          refine ⟨_, rfl, rfl, ?_⟩
          rintro ⟨-, -, -, hsound⟩
          exact absurd hsound hprogress
      · rw [if_pos hknown]
        refine ⟨_, rfl, rfl, ?_⟩
        rintro ⟨state', hsome, hsound, -⟩
        rw [hstate] at hsome
        obtain rfl := Option.some.inj hsome
        exact absurd hsound hknown
  obtain ⟨action, haction, hkind, hids⟩ := hguard
  rw [nextRuntimeAction, haction]
  exact ⟨hkind, hids⟩

/-- With an unknown outcome the reducer fails, naming all of them once the state, its leaf and its
progress reference have passed; and no action repeats an effect. -/
theorem recovery_never_repeats (v : SessionView) (inputs : RuntimeDecisionInputs) :
    (v.unknown ≠ [] → (nextRuntimeAction v inputs).kind = .failInvariant ∧
      (v.Sound →
        (nextRuntimeAction v inputs).effectIds = v.unknown.map (·.intent.effectId))) ∧
    RepeatsNothing v (nextRuntimeAction v inputs) :=
  ⟨next_of_unknown, repeatsNothing_next⟩

/-- A run whose progress names a batch that is not there, beside a send that may have arrived. -/
def strayProgressView : SessionView where
  state := some
    { sessionId := "s", runId := "r", operationId := "task:r", lane := "run:r", projectRef := ""
      providerId := "p", turnBudget := 8, maxRepairRounds := 1, leaf := .writerRunning
      startedAt := "t", updatedAt := "t"
      counters := { progress := { lastBatchId := "deliv-1" } } }
  effects :=
    [{ intent :=
         { effectId := "send-1", effectCategory := .providerSend, turn := 0, toolName := ""
           replayClass := .notSafe, replayArgs := none }
       settlement := some { sentState := .maybeSent, errorCode := "" } }]
  batches := []

/-- The missing batch is reported, and the send is not named. -/
theorem strayProgressView_unnamed : strayProgressView.unknown ≠ [] ∧
    (nextRuntimeAction strayProgressView {}).effectIds ≠
      strayProgressView.unknown.map (·.intent.effectId) := by
  decide

end Runtime

end Codey
