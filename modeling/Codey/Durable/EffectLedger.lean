import Codey.Durable.Calls

/-!
# The effect ledger

A checkpoint lists the effects of its task that have no settlement. The list is a copy of what the
effect rows say; the two agree in every reachable state, and the rows only ever settle, once.
-/

namespace Codey

/-! ### The pending index -/

lemma mem_appendNew {pending ids : List String} {id : String} :
    id ∈ appendNew pending ids ↔ id ∈ pending ∨ id ∈ ids := by
  induction ids generalizing pending with
  | nil => simp [appendNew]
  | cons i ids ih =>
    rw [appendNew, ih]
    split_ifs with hi
    · constructor
      · rintro (h | h)
        · exact Or.inl h
        · exact Or.inr (List.mem_cons_of_mem _ h)
      · rintro (h | h)
        · exact Or.inl h
        · rcases List.mem_cons.mp h with rfl | h
          · exact Or.inl hi
          · exact Or.inr h
    · simp only [List.mem_append, List.mem_cons, or_assoc, List.not_mem_nil, false_or]

lemma pendingList_eq_ok {state : Fields} {pending : List String}
    (h : pendingList state = .ok pending) : pending = state.pendingEffectIds := by
  unfold pendingList at h
  split at h
  · cases h
  · exact (Except.ok.inj h).symm

@[simp] lemma pendingEffectIds_withPending (t : TaskCheckpoint) (pending : List String) :
    (withPending t pending).state.pendingEffectIds = pending :=
  Fields.strs_of_get? (by simp [withPending])

/-- The pending index after some effects have started and then some have settled. -/
def PendingAfter (before after : Fields) (intents settled : List EffectRecord) : Prop :=
  ∀ id, id ∈ after.pendingEffectIds ↔
    (id ∈ before.pendingEffectIds ∨ id ∈ intents.map (·.effectId)) ∧
      id ∉ settled.map (·.effectId)

lemma PendingAfter.of_get? {before after : Fields}
    (h : after.get? "pending_effect_ids" = before.get? "pending_effect_ids") :
    PendingAfter before after [] [] := by
  simp [PendingAfter, Fields.pendingEffectIds, Fields.strs_congr h]

variable {base next : TaskCheckpoint}

lemma pendingAfter_intents {effects : List EffectRecord}
    (h : withEffectIntents base effects = .ok next) :
    PendingAfter base.state next.state effects [] := by
  obtain ⟨-, -, -, pending, hpending, hnext⟩ := withEffectIntents_eq_ok h
  intro id
  rw [hnext, pendingEffectIds_withPending, mem_appendNew, pendingList_eq_ok hpending]
  simp

lemma pendingAfter_settlement {effect : EffectRecord}
    (h : withEffectSettlement base effect = .ok next) :
    PendingAfter base.state next.state [] [effect] := by
  obtain ⟨-, pending, hpending, hnext⟩ := withEffectSettlement_eq_ok h
  intro id
  rw [hnext, pendingEffectIds_withPending, pendingList_eq_ok hpending]
  simp

lemma pendingAfter_settlements {settled : List EffectRecord}
    (h : foldE settled withEffectSettlement base = .ok next) :
    PendingAfter base.state next.state [] settled := by
  induction settled generalizing base with
  | nil =>
    obtain rfl := Except.ok.inj h
    simp [PendingAfter]
  | cons e settled ih =>
    obtain ⟨first, hfirst, h⟩ := foldE_cons_eq_ok.mp h
    intro id
    rw [ih h id, pendingAfter_settlement hfirst id]
    simp only [List.map_nil, List.not_mem_nil, or_false, List.map_cons, List.mem_cons, not_or]
    tauto

variable {intents settled : List EffectRecord}

lemma pendingAfter_changes (h : Session.withEffectChanges base intents settled = .ok next) :
    PendingAfter base.state next.state intents settled := by
  have hfold : ∀ first : TaskCheckpoint, PendingAfter base.state first.state intents [] →
      foldE settled withEffectSettlement first = .ok next →
      PendingAfter base.state next.state intents settled := by
    intro first hfirst h id
    rw [pendingAfter_settlements h id, hfirst id]
    simp
  unfold Session.withEffectChanges at h
  split at h
  · rename_i hempty
    obtain ⟨first, hfirst, h⟩ := except_bind_eq_ok.mp h
    obtain rfl : intents = [] := by simpa using hempty
    exact hfold first (.of_get? (by rw [TaskCheckpoint.make_eq_ok.mp hfirst])) h
  · obtain ⟨-, h⟩ := except_seq_eq_ok.mp h
    obtain ⟨first, hfirst, h⟩ := except_bind_eq_ok.mp h
    exact hfold first (pendingAfter_intents hfirst) h

/-- A failed task keeps its pending index. -/
lemma pendingAfter_failed {state patch : Fields} {pending : List String}
    {effects : List EffectRecord} (h : Session.agreedPending state effects = .ok pending) :
    PendingAfter state (Session.failedState state patch pending) [] [] := by
  have hpending : ∀ id, id ∈ pending ↔ id ∈ state.pendingEffectIds := by
    intro id
    unfold Session.agreedPending at h
    split at h
    · rename_i found hfound
      split_ifs at h
      obtain rfl := Except.ok.inj h
      unfold Session.pendingTuple? at hfound
      split at hfound <;> rename_i hget
      · obtain rfl := Option.some.inj hfound
        simp [Fields.pendingEffectIds, Fields.strs, hget]
      · rw [Option.some.inj hfound]
      · cases hfound
    · cases h
  intro id
  have : (Session.failedState state patch pending).pendingEffectIds = pending :=
    Fields.strs_of_get? (by simp [Session.failedState, releaseAttemptState])
  simp [this, hpending id]

/-- The keys that the callers of this section leave alone. -/
def pendingKeys : List String := ["pending_effect_ids"]

/-- Every change of a checkpoint moves its pending index along with its effects. -/
lemma Change.pendingAfter {now : SqliteStore} {base : TaskCheckpoint} {phase : Phase}
    {state : Fields} {status : TaskStatus}
    (h : Change (Terms.unnamed pendingKeys) now base phase state status intents settled) :
    PendingAfter base.state state intents settled := by
  have hkey : "pending_effect_ids" ∈ pendingKeys := by decide
  cases h with
  | claim c token _ _ => exact .of_get? (by simp [Session.claimedState])
  | release => exact .of_get? (by simp [releaseAttemptState])
  | park w _ _ hwait =>
    obtain ⟨s, -, hparks, -⟩ := hwait
    refine .of_get? ?_
    simp [Session.parkedState, releaseAttemptState, hparks _ hkey]
  | hold patch reason _ hpatch _ => exact .of_get? (by simp [Session.cancelState, hpatch _ hkey])
  | cancel state hstate _ =>
    refine .of_get? ?_
    cases hstate with
    | patched patch reason hpatch =>
      simp [Session.cancelState, releaseAttemptState, hpatch _ hkey]
    | parked s w hparks => simp [releaseAttemptState, hparks _ hkey]
    | recovered => simp [releaseAttemptState]
    | held => simp [releaseAttemptState]
  | fail patch pending effects _ hpending _ => exact pendingAfter_failed hpending
  | advance c a hstep _ _ =>
    refine .of_get? ?_
    rw [c.get?_advancedState base a.state (by decide), if_neg (by decide), hstep _ hkey,
      Option.none_or]
  | update patch hpatch => exact .of_get? (by simp [hpatch _ hkey])
  | intents effects next hnext => exact pendingAfter_intents hnext
  | settle effect next hnext => exact pendingAfter_settlement hnext
  | approval settled next resume id h =>
    have hnext : PendingAfter base.state next.state [] settled := by
      rcases h with ⟨hstate, rfl⟩ | ⟨e, next', rfl, hnext', rfl⟩
      · exact .of_get? (by rw [hstate])
      · exact pendingAfter_settlement hnext'
    split
    · have hresumed : (Session.resumedApproval next id).state.pendingEffectIds =
          next.state.pendingEffectIds :=
        Fields.strs_congr (by simp [Session.resumedApproval, releaseAttemptState])
      simpa only [PendingAfter, hresumed] using hnext
    · exact hnext
  | answer question answer entryId revision _ =>
    refine .of_get? ?_
    split <;> simp [Session.answeredState, releaseAttemptState]
  | runtime intents settled next v rest hnext hrest =>
    have hnone : rest.get? "pending_effect_ids" = none := by
      by_contra hne
      simpa using hrest _ (Option.isSome_iff_ne_none.mpr hne)
    have hsame : ((Session.runtimeState next.state v).merge rest).pendingEffectIds =
        next.state.pendingEffectIds := by
      refine Fields.strs_congr ?_
      rw [Fields.get?_merge, hnone, Option.none_or, Session.get?_runtimeState _ _ (by decide)]
    simpa only [PendingAfter, hsame] using pendingAfter_changes hnext

/-- What an operation starts is pending, and what it settles has an outcome. -/
lemma Change.effects {T : Terms} {now : SqliteStore} {base : TaskCheckpoint} {phase : Phase}
    {state : Fields} {status : TaskStatus}
    (h : Change T now base phase state status intents settled) :
    (∀ e ∈ intents, e.settlement = none) ∧ ∀ e ∈ settled, e.settlement.isSome = true := by
  cases h with
  | intents effects next hnext => exact ⟨fun e he => ((withEffectIntents_eq_ok hnext).1 e he).2.2,
      by simp⟩
  | settle effect next hnext =>
    exact ⟨by simp, fun e he => List.mem_singleton.mp he ▸ (withEffectSettlement_eq_ok hnext).1.2.1⟩
  | approval settled next resume id h =>
    refine ⟨by simp, fun e he => ?_⟩
    rcases h with ⟨-, rfl⟩ | ⟨f, next', rfl, hnext', -⟩
    · cases he
    · exact List.mem_singleton.mp he ▸ (withEffectSettlement_eq_ok hnext').1.2.1
  | runtime intents settled next v rest hnext _ =>
    have hintents : ∀ t, withEffectIntents base intents = .ok t →
        ∀ e ∈ intents, e.settlement = none :=
      fun t ht e he => ((withEffectIntents_eq_ok ht).1 e he).2.2
    have hsettled : ∀ first : TaskCheckpoint, foldE settled withEffectSettlement first = .ok next →
        ∀ e ∈ settled, e.settlement.isSome = true := by
      clear hnext
      induction settled with
      | nil => simp
      | cons f settled ih =>
        intro first h e he
        obtain ⟨second, hsecond, h⟩ := foldE_cons_eq_ok.mp h
        rcases List.mem_cons.mp he with rfl | he
        · exact (withEffectSettlement_eq_ok hsecond).1.2.1
        · exact ih second h e he
    unfold Session.withEffectChanges at hnext
    split at hnext
    · rename_i hempty
      obtain ⟨first, -, h⟩ := except_bind_eq_ok.mp hnext
      obtain rfl : intents = [] := by simpa using hempty
      exact ⟨by simp, hsettled first h⟩
    · obtain ⟨-, h⟩ := except_seq_eq_ok.mp hnext
      obtain ⟨first, hfirst, h⟩ := except_bind_eq_ok.mp h
      exact ⟨hintents first hfirst, hsettled first h⟩
  | _ => simp

/-! ### The effect rows -/

namespace SqliteStore

variable {s s' : SqliteStore} {m : DurableMutation} {e row : EffectRecord}

lemma Accepted.validEffect (h : Accepted s m s') (he : e ∈ m.allEffects) :
    s.validateEffect m.toMutationData e = .ok () := by
  have := h.effects
  simp only [validateEffects, except_seq_eq_ok, checkAll_eq_ok] at this
  exact this.2 e he

lemma Accepted.effect_task (h : Accepted s m s') (he : e ∈ m.allEffects) :
    ∃ t, m.task = some t ∧ e.taskId = t.taskId := by
  have := h.effects
  simp only [validateEffects, except_seq_eq_ok, require_eq_ok, Bool.or_eq_true] at this
  rcases this.1 with hempty | hsome
  · simp [List.isEmpty_iff.mp hempty] at he
  · obtain ⟨t, ht⟩ := Option.isSome_iff_exists.mp hsome
    exact ⟨t, ht, m.taskId_of_effect he ht⟩

/-- A stored effect is written once more by its settlement only, and its identity stays. -/
lemma Accepted.rewritten (h : Accepted s m s') (he : e ∈ m.allEffects)
    (hrow : s.effects.get? e.effectId = some row) :
    row.settlement = none ∧ row.identity = e.identity ∧ e ∉ m.effects := by
  have hvalid := h.validEffect he
  simp only [validateEffect, hrow, except_seq_eq_ok, require_eq_ok, Bool.and_eq_true,
    Bool.or_eq_true, decide_eq_true_eq, Option.isNone_iff_eq_none] at hvalid
  obtain ⟨-, hnone, ⟨hold, -⟩, hid⟩ := hvalid
  refine ⟨hnone, hid, fun hmem => ?_⟩
  have hnodup := m.allEffects_nodup
  simp only [MutationData.allEffects, List.map_append, List.nodup_append] at hnodup
  obtain ⟨⟨-, -, hfirst⟩, -, hrest⟩ := hnodup
  rcases hold with hsingle | hsettle
  · exact hfirst e.effectId (by simp [hsingle]) e.effectId (List.mem_map_of_mem hmem) rfl
  · exact hrest e.effectId (List.mem_append_right _ (List.mem_map_of_mem hmem)) e.effectId
      (List.mem_map_of_mem hsettle) rfl

/-- An effect that settles is stored. -/
lemma Accepted.settled_stored (h : Accepted s m s')
    (he : e ∈ m.effect.toList ++ m.settlements)
    (hexpected : m.effect.isSome = true → m.expectedEffectStatus.isSome = true) :
    (s.effects.get? e.effectId).isSome = true := by
  have hmem : e ∈ m.allEffects := by
    simp only [MutationData.allEffects, List.mem_append] at he ⊢
    exact he.elim (fun h => Or.inl (Or.inl h)) Or.inr
  by_contra hnone
  simp only [Bool.not_eq_true, Option.isSome_eq_false_iff, Option.isNone_iff_eq_none] at hnone
  have hvalid := h.validEffect hmem
  simp only [validateEffect, hnone, except_seq_eq_ok, require_eq_ok, Bool.not_eq_true',
    Bool.or_eq_false_iff, Bool.and_eq_false_iff, decide_eq_false_iff_not] at hvalid
  obtain ⟨-, hnew, hfresh⟩ := hvalid
  rcases List.mem_append.mp he with hsingle | hsettle
  · have hsome := Option.mem_toList.mp hsingle
    rcases hnew with hne | hnone
    · exact hne hsome
    · simp [hexpected (by simp [Option.mem_def.mp hsome])] at hnone
  · exact hfresh hsettle

end SqliteStore

/-- An effect keeps its identity, and once it has an outcome it is not written again. -/
def EffectsSettle (s s' : SqliteStore) : Prop :=
  ∀ id e, s.effects.get? id = some e → ∃ e', s'.effects.get? id = some e' ∧
    e'.identity = e.identity ∧ (e.settlement.isSome = true → e' = e)

lemma EffectsSettle.refl (s : SqliteStore) : EffectsSettle s s :=
  fun _ e h => ⟨e, h, rfl, fun _ => rfl⟩

lemma EffectsSettle.trans {s s' s'' : SqliteStore} (h : EffectsSettle s s')
    (h' : EffectsSettle s' s'') : EffectsSettle s s'' := by
  intro id e he
  obtain ⟨e', he', hid, heq⟩ := h id e he
  obtain ⟨e'', he'', hid', heq'⟩ := h' id e' he'
  refine ⟨e'', he'', hid'.trans hid, fun hsettled => ?_⟩
  obtain rfl := heq hsettled
  exact heq' hsettled

variable {s s' : SqliteStore} {m : DurableMutation}

lemma SqliteStore.Accepted.effectsSettle (h : Accepted s m s') : EffectsSettle s s' := by
  intro id e he
  rcases h.get?_effects id with ⟨f, hf, rfl, hget⟩ | ⟨-, hget⟩
  · obtain ⟨hnone, hid, -⟩ := h.rewritten hf he
    exact ⟨f, hget, hid.symm, by simp [hnone]⟩
  · exact ⟨e, by rw [hget, he], rfl, fun _ => rfl⟩

lemma Revises.effectsSettle {T : Terms} (h : Revises T s s') : EffectsSettle s s' := by
  rcases h with rfl | ⟨m, r, -, haccepted, -⟩
  · exact .refl _
  · exact haccepted.effectsSettle

/-! ### Agreement -/

/-- The effect `id` of the task `taskId` is waiting for its outcome. -/
def SqliteStore.Unsettled (s : SqliteStore) (taskId id : String) : Prop :=
  ∃ e, s.effects.get? id = some e ∧ e.taskId = taskId ∧ e.settlement = none

/-- The checkpoints and the effect rows agree, and every effect has its task. -/
structure Ledger (s : SqliteStore) : Prop where
  agrees : ∀ taskId t, s.tasks.get? taskId = some t →
    ∀ id, id ∈ t.state.pendingEffectIds ↔ s.Unsettled taskId id
  owned : ∀ id e, s.effects.get? id = some e → (s.tasks.get? e.taskId).isSome = true

/-- A commit does not touch the effects of the tasks that it does not fence. -/
lemma SqliteStore.Accepted.unsettled_iff (h : Accepted s m s') {taskId : String}
    (hne : ∀ t, m.task = some t → t.taskId ≠ taskId) (id : String) :
    s'.Unsettled taskId id ↔ s.Unsettled taskId id := by
  unfold Unsettled
  rcases h.get?_effects id with ⟨f, hf, rfl, hget⟩ | ⟨-, hget⟩
  · obtain ⟨t, ht, hft⟩ := h.effect_task hf
    constructor
    · rintro ⟨e, he, htask, -⟩
      rw [hget] at he
      exact absurd (hft.symm.trans ((Option.some.inj he) ▸ htask)) (hne t ht)
    · rintro ⟨e, he, htask, -⟩
      have hid := (h.rewritten hf he).2.1
      have : e.taskId = f.taskId := congrArg Prod.fst hid
      exact absurd (hft.symm.trans (this.symm.trans htask)) (hne t ht)
  · rw [hget]

/-- After the commit of a revision, the effects of its task without an outcome are those that had
none or started, less those that settled. -/
lemma SqliteStore.Accepted.unsettled_revised (h : Accepted s m s') {t : TaskCheckpoint}
    (htask : m.task = some t) (hintents : ∀ e ∈ m.effects, e.settlement = none)
    (hsettled : ∀ e ∈ m.effect.toList ++ m.settlements, e.settlement.isSome = true) (id : String) :
    s'.Unsettled t.taskId id ↔ (s.Unsettled t.taskId id ∨ id ∈ m.effects.map (·.effectId)) ∧
      id ∉ (m.effect.toList ++ m.settlements).map (·.effectId) := by
  have hnodup := m.allEffects_nodup
  simp only [MutationData.allEffects, List.map_append, List.nodup_append] at hnodup
  obtain ⟨⟨-, -, hfirst⟩, -, hrest⟩ := hnodup
  rcases h.get?_effects id with ⟨f, hf, rfl, hget⟩ | ⟨hne, hget⟩
  · have htaskId : f.taskId = t.taskId := m.taskId_of_effect hf htask
    by_cases hmem : f ∈ m.effects
    · have hnot : f.effectId ∉ (m.effect.toList ++ m.settlements).map (·.effectId) := by
        rw [List.map_append, List.mem_append]
        rintro (hin | hin)
        · exact hfirst _ hin _ (List.mem_map_of_mem hmem) rfl
        · exact hrest _ (List.mem_append_right _ (List.mem_map_of_mem hmem)) _ hin rfl
      exact iff_of_true ⟨f, hget, htaskId, hintents f hmem⟩
        ⟨Or.inr (List.mem_map_of_mem hmem), hnot⟩
    · have hout : f ∈ m.effect.toList ++ m.settlements := by
        simp only [MutationData.allEffects, List.mem_append] at hf
        rw [List.mem_append]
        tauto
      refine iff_of_false ?_ fun hright => hright.2 (List.mem_map_of_mem hout)
      rintro ⟨e, he, -, hnone⟩
      rw [hget] at he
      obtain rfl := Option.some.inj he
      have := hsettled f hout
      rw [hnone] at this
      cases this
  · have hno : ∀ xs : List EffectRecord, (∀ e ∈ xs, e ∈ m.allEffects) →
        id ∉ xs.map (·.effectId) := by
      intro xs hxs hin
      obtain ⟨e, he, heq⟩ := List.mem_map.mp hin
      exact hne e (hxs e he) heq
    have hin : id ∉ m.effects.map (·.effectId) :=
      hno _ fun e he => by simp [MutationData.allEffects, he]
    have hout : id ∉ (m.effect.toList ++ m.settlements).map (·.effectId) := hno _ fun e he => by
      simp only [MutationData.allEffects, List.mem_append] at he ⊢
      tauto
    unfold Unsettled
    rw [hget]
    simp only [hin, or_false, hout, not_false_eq_true, and_true]

lemma pendingAfter_folded {before after folded : Fields}
    (h : PendingAfter before after intents settled)
    (hfolded : folded = [] ∨ ∃ approvals, folded = [("approvals", approvals)]) :
    PendingAfter before (after.merge folded) intents settled := by
  have hsame : (after.merge folded).pendingEffectIds = after.pendingEffectIds := by
    refine Fields.strs_congr ?_
    rcases hfolded with rfl | ⟨approvals, rfl⟩ <;> simp
  simpa only [PendingAfter, hsame] using h

lemma Ledger.step (hs : Ledger s) (h : Revises (Terms.unnamed pendingKeys) s s') : Ledger s' := by
  rcases h with rfl | ⟨m, r, -, haccepted, hwrote⟩
  · exact hs
  constructor
  · intro taskId t ht
    rcases haccepted.get?_tasks taskId with ⟨t', hmem, rfl, hget⟩ | ⟨hne, hget⟩
    · obtain rfl := Option.some.inj (hget.symm.trans ht)
      cases hwrote t' hmem with
      | @revised base phase state status intents settled folded pending row change folded_eq next_eq
          checked task effects settlements expected =>
        intro id
        have hbase := hs.agrees _ base row id
        obtain ⟨hintents, hsettled⟩ := change.effects
        subst effects
        subst settlements
        rw [haccepted.unsettled_revised task hintents hsettled, ← hbase, next_eq]
        exact pendingAfter_folded change.pendingAfter folded_eq id
      | @placed base entryId consumer consumed row next_eq checked unfenced =>
        intro id
        have hsame : t'.state.pendingEffectIds = base.state.pendingEffectIds := by
          rw [next_eq]
          refine Fields.strs_congr ?_
          simp only [Session.placedState]
          split <;> simp
        rw [hsame, hs.agrees _ base row id, haccepted.unsettled_iff]
        intro t hfenced heq
        have hin : t ∈ m.allTasks := by simp [MutationData.allTasks, hfenced]
        exact unfenced (hfenced.trans (congrArg some
          (List.inj_on_of_nodup_map m.allTasks_nodup hin hmem heq)))
      | @admitted c a entry row admits next_eq initial owner task effects =>
        intro id
        have hnone : t'.state.get? "pending_effect_ids" = none := by
          have := admits "pending_effect_ids" (by decide)
          rw [next_eq]
          cases entry <;> cases hworkflow : a.workflow <;>
            simp [Session.admittedState, Session.workflowState, this, hworkflow]
        have hempty : t'.state.pendingEffectIds = [] := by
          simp [Fields.pendingEffectIds, Fields.strs, hnone]
        rw [hempty]
        refine iff_of_false (by simp) ?_
        rintro ⟨e, he, htask, -⟩
        rcases haccepted.get?_effects id with ⟨f, hf, -, -⟩ | ⟨-, hsame⟩
        · simp [effects] at hf
        · rw [hsame] at he
          have := hs.owned id e he
          rw [htask, row] at this
          cases this
    · rw [hget] at ht
      intro id
      rw [hs.agrees taskId t ht id, haccepted.unsettled_iff]
      exact fun t' hfenced => hne t' (by simp [MutationData.allTasks, hfenced])
  · intro id e he
    rcases haccepted.get?_effects id with ⟨f, hf, rfl, hget⟩ | ⟨-, hget⟩
    · obtain ⟨t, ht, hft⟩ := haccepted.effect_task hf
      rw [hget] at he
      obtain rfl := Option.some.inj he
      have hin : t ∈ m.allTasks := by simp [MutationData.allTasks, ht]
      have := Table.get?_foldl_put_of_mem m.allTasks_nodup s.tasks hin
      rw [hft, haccepted.tasks_eq, this]
      rfl
    · rw [hget] at he
      obtain ⟨row, hrow⟩ := Option.isSome_iff_exists.mp (hs.owned id e he)
      obtain ⟨row', hrow', -⟩ := haccepted.evolves _ row hrow
      rw [hrow']
      rfl

lemma Ledger.empty : Ledger {} where
  agrees _ _ h := by simp at h
  owned _ _ h := by simp at h

lemma mem_unsettled_iff {s : SqliteStore} {taskId id : String} :
    id ∈ Session.unsettled (s.effectsForTask taskId) ↔ s.Unsettled taskId id := by
  simp only [Session.unsettled, SqliteStore.effectsForTask, List.mem_map, List.mem_filter,
    decide_eq_true_eq, Option.isNone_iff_eq_none]
  constructor
  · rintro ⟨e, ⟨⟨hmem, htask⟩, hnone⟩, rfl⟩
    exact ⟨e, Table.mem_rows_iff.mp hmem, htask, hnone⟩
  · rintro ⟨e, he, htask, hnone⟩
    exact ⟨e, ⟨⟨Table.mem_of_get? he, htask⟩, hnone⟩, Table.key_of_get? (t := s.effects) he⟩

/-- In every state that a system reaches from an empty store, every checkpoint lists exactly the
effects of its task that have no settlement and names the last of them; and whatever the system
does next, an effect keeps its identity, and its outcome once it has one. -/
theorem effect_ledger {w₀ : World} (hempty : w₀.store = {}) {P P' : System}
    {tr tr' : List (Call × World × World)} (hrun : Pool.Run Call.prog ⟨w₀, []⟩ tr P)
    (hnext : Pool.Run Call.prog P tr' P')
    (hcalls : ∀ e ∈ tr ++ tr', e.1.LeavesAlone pendingKeys) :
    (∀ taskId t, P.state.store.tasks.get? taskId = some t →
      (∀ id, id ∈ t.state.pendingEffectIds ↔
        id ∈ Session.unsettled (P.state.store.effectsForTask taskId)) ∧
      t.pendingEffectId = t.state.pendingEffectIds.getLast?) ∧
    ∀ id e, P.state.store.effects.get? id = some e → ∃ e',
      P'.state.store.effects.get? id = some e' ∧ e'.taskId = e.taskId ∧
      e'.category = e.category ∧ e'.replayClass = e.replayClass ∧
      e'.argsDigest = e.argsDigest ∧ e'.intent = e.intent ∧
      (e.settlement.isSome = true → e'.status = e.status ∧ e'.settlement = e.settlement) := by
  have hsteps := System.revises (fun _ => Terms.unnamed_shared pendingKeys) (hrun.append hnext)
    fun e he => (hcalls e he).meets (by decide) e.2.1
  constructor
  · have hledger : Ledger P.state.store := by
      refine (hrun.invariant (I := fun w => Ledger w.store) ?_ fun e he hs => ?_).1
      · rw [hempty]
        exact .empty
      · exact hs.step (hsteps e (List.mem_append_left _ he))
    intro taskId t ht
    refine ⟨fun id => ?_, t.pendingEffectId_eq⟩
    rw [hledger.agrees taskId t ht id, mem_unsettled_iff]
  · intro id e he
    have hsettle : EffectsSettle P.state.store P'.state.store :=
      hnext.chain (E := fun w w' : World => EffectsSettle w.store w'.store)
        (fun w => .refl w.store) (fun _ _ _ h h' => h.trans h')
        fun e he => (hsteps e (List.mem_append_right _ he)).effectsSettle
    obtain ⟨e', he', hid, hfinal⟩ := hsettle id e he
    simp only [EffectRecord.identity, Prod.mk.injEq] at hid
    obtain ⟨h₁, h₂, h₃, h₄, h₅⟩ := hid
    refine ⟨e', he', h₁, h₂, h₃, h₄, h₅, fun hsettled => ?_⟩
    rw [hfinal hsettled]
    exact ⟨rfl, rfl⟩

/-- A shell command that is recorded and not settled yet. -/
def sampleEffect : EffectRecord where
  effectId := "effect"
  taskId := "task"
  category := "shell"
  replayClass := "external"
  argsDigest := "digest"
  status := "pending"
  intent := []

def sampleWork : List Call :=
  [.admitInput firstSession (plainInput "task" none), .claimTask firstSession "task" "token",
    .startTask firstSession "task" [], .recordEffectIntents firstSession "task" [sampleEffect]]

def sampleReceipt : EffectRecord where
  toEffectData := { sampleEffect.toEffectData with status := "ok", settlement := some [] }

def sampleSettlement : List Call :=
  [.settleEffect firstSession "task" sampleReceipt "pending" []]

theorem effect_ledger_sample : ∃ tr tr' P P',
    Pool.Run Call.prog ⟨{ store := {} }, []⟩ tr P ∧ Pool.Run Call.prog P tr' P' ∧
    (P.state.store.tasks.get? "task").map (·.state.pendingEffectIds) = some ["effect"] ∧
    (P'.state.store.tasks.get? "task").map (·.state.pendingEffectIds) = some [] ∧
    (∀ taskId t, P.state.store.tasks.get? taskId = some t →
      (∀ id, id ∈ t.state.pendingEffectIds ↔
        id ∈ Session.unsettled (P.state.store.effectsForTask taskId)) ∧
      t.pendingEffectId = t.state.pendingEffectIds.getLast?) := by
  obtain ⟨tr, P, hrun, hstate, hcalls⟩ :=
    Pool.Run.execute Call.prog sampleWork ⟨{ store := {} }, []⟩
  obtain ⟨tr', P', hrun', hstate', hcalls'⟩ := Pool.Run.execute Call.prog sampleSettlement P
  rw [hstate] at hstate'
  have hledger := effect_ledger rfl hrun hrun' fun e he => by
    rcases List.mem_append.mp he with he | he
    · have := hcalls e he
      simp only [sampleWork, List.mem_cons, List.not_mem_nil, or_false] at this
      rcases this with h | h | h | h <;> rw [h] <;>
        simp [Call.LeavesAlone, Unnamed, pendingKeys, plainInput]
    · have := hcalls' e he
      simp only [sampleSettlement, List.mem_singleton] at this
      rw [this]
      exact trivial
  refine ⟨tr, tr', P, P', hrun, hrun', ?_, ?_, hledger.1⟩
  · rw [hstate]
    decide +kernel
  · rw [hstate']
    decide +kernel

end Codey
