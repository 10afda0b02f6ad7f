import Codey.Durable.Revision

/-!
# Calls

The session operations as one type of calls. A system is a pool of calls that several sessions make
on one store: their atomic steps interleave in any order.
-/

namespace Codey

/-- A call of a session operation. The first field is the session that makes it. -/
inductive Call where
  | admitInput (c : Session) (a : Admission)
  | claimTask (c : Session) (taskId token : String)
  | unclaimTask (c : Session) (taskId : String)
  | waitTask (c : Session) (taskId : String) (w : Session.Wait)
  | requestCancel (c : Session) (taskId reason : String) (stateUpdate : Fields)
      (expectedRevision : Option Nat)
  | cancelTask (c : Session) (taskId reason : String)
  | failTask (c : Session) (taskId reason : String) (state : Fields)
      (expectedAttemptToken : Option String)
  | recoverSchedulerState (c : Session) (force : Bool)
  | advanceTask (c : Session) (taskId : String) (a : Session.Advance)
  | startTask (c : Session) (taskId : String) (state : Fields)
  | finishTask (c : Session) (taskId answer entryId : String) (state : Fields)
  | completeTask (c : Session) (taskId answer entryId : String) (state : Fields)
  | reconcileWaitingTasks (c : Session) (taskId : Option String)
  | reconcileFinalization (c : Session) (taskIds : Option (List String))
      (entryId : String → String)
  | updateTaskState (c : Session) (taskId : String) (state : Fields)
      (expectedRevision : Option Nat)
  | recordEffectIntents (c : Session) (taskId : String) (effects : List EffectRecord)
  | settleEffect (c : Session) (taskId : String) (effect : EffectRecord)
      (expectedStatus : String) (artifacts : List ArtifactRecord)
  | settleUnknownEffect (c : Session) (taskId effectId : String)
  | createApproval (c : Session) (approval : ApprovalRecord)
  | transitionApproval (c : Session) (approvalId : String) (approval : ApprovalRecord)
      (expectedStatus : ApprovalStatus)
  | claimApprovalAndBeginEffect (c : Session) (approvalId : String) (effect : EffectRecord)
      (expectedStatus : ApprovalStatus)
  | settleApproval (c : Session) (approvalId : String) (settlement : Fields) (resume : Bool)
      (entries : List EntryDraft)
  | answerQuestion (c : Session) (taskId identity answer : String) (revision : Nat)
  | mutateCheckpoint (c : Session) (sessionId runId : String) (r : Session.RuntimeMutation)

namespace Call

/-- The program of a call. -/
def prog : Call → Op Unit
  | admitInput c a => do let _ ← c.admitInput a
  | claimTask c taskId token => do let _ ← c.claimTask taskId token
  | unclaimTask c taskId => do let _ ← c.unclaimTask taskId
  | waitTask c taskId w => do let _ ← c.waitTask taskId w
  | requestCancel c taskId reason stateUpdate expectedRevision => do
    let _ ← c.requestCancel c.depth taskId reason stateUpdate expectedRevision
  | cancelTask c taskId reason => do let _ ← c.cancelTask c.depth taskId reason
  | failTask c taskId reason state expectedAttemptToken => do
    let _ ← c.failTask taskId reason state expectedAttemptToken
  | recoverSchedulerState c force => c.recoverSchedulerState force
  | advanceTask c taskId a => do let _ ← c.advanceTask taskId a
  | startTask c taskId state => do let _ ← c.startTask taskId state
  | finishTask c taskId answer entryId state => do
    let _ ← c.finishTask taskId answer entryId state
  | completeTask c taskId answer entryId state => do
    let _ ← c.completeTask taskId answer entryId state
  | reconcileWaitingTasks c taskId => c.reconcileWaitingTasks taskId
  | reconcileFinalization c taskIds entryId => c.reconcileFinalization taskIds entryId
  | updateTaskState c taskId state expectedRevision => do
    let _ ← c.updateTaskState taskId state expectedRevision
  | recordEffectIntents c taskId effects => do let _ ← c.recordEffectIntents taskId effects
  | settleEffect c taskId effect expectedStatus artifacts => do
    let _ ← c.settleEffect taskId effect expectedStatus artifacts
  | settleUnknownEffect c taskId effectId => do let _ ← c.settleUnknownEffect taskId effectId
  | createApproval c approval => do let _ ← c.createApproval approval
  | transitionApproval c approvalId approval expectedStatus => do
    let _ ← c.transitionApproval approvalId approval expectedStatus none
  | claimApprovalAndBeginEffect c approvalId effect expectedStatus => do
    let _ ← c.claimApprovalAndBeginEffect approvalId effect expectedStatus
  | settleApproval c approvalId settlement resume entries => do
    let _ ← c.settleApproval approvalId settlement resume entries
  | answerQuestion c taskId identity answer revision => do
    let _ ← c.answerQuestion taskId identity answer revision
  | mutateCheckpoint c sessionId runId r => c.mutateCheckpoint sessionId runId r

/-- A call, made in the world `w`, keeps to the terms `T`. -/
def Meets (R : World → World → Prop) (T : Terms) (w : World) : Call → Prop
  | admitInput _ a => T.admits a
  | claimTask .. => T.claims
  | waitTask _ taskId wait =>
    (∀ s s' base, R w s → R s s' → s.store.tasks.get? taskId = some base →
      T.parks s'.store base wait) ∧
    ∀ w' base, R w w' → w'.store.tasks.get? taskId = some base →
      base.status = .running ∨ base.status = .pending → base.state.cancelRequested = true →
      kernelCleanupRequired base.toCheckpointData = false → T.early base
  | requestCancel _ _ _ stateUpdate _ => T.caller [] ∧ T.caller stateUpdate
  | cancelTask .. => T.caller []
  | failTask _ _ _ state _ => T.caller state
  | recoverSchedulerState c force => T.caller [("abort_reason", .str "restart")] ∧
    ∀ w' base, R w w' → base ∈ w'.store.pendingTasks → base.status = .running →
      force = true ∨ c.attemptAlive base = false →
      base.state.get? "abandon_on_restart" ≠ some (.bool true) →
      base.state.cancelRequested = true → kernelCleanupRequired base.toCheckpointData = false →
      T.early base
  | advanceTask _ taskId a => (∀ base, base.taskId = taskId → T.step base a) ∧
    (a.phase = .completed → ∀ now, T.drained now taskId)
  | startTask _ _ state => ∀ answer base a, Session.CompletionStep answer state a → T.step base a
  | finishTask _ _ answer _ state =>
    ∀ base a, Session.CompletionStep answer state a → T.step base a
  | completeTask _ _ answer _ state =>
    ∀ base a, Session.CompletionStep answer state a → T.step base a
  | reconcileWaitingTasks .. => Session.Joins T
  | reconcileFinalization .. => Session.Joins T ∧ ∃ J, J w ∧ Session.Holds R T J
  | updateTaskState _ _ state _ => T.updates state
  | mutateCheckpoint .. => T.places
  | _ => True

variable {R : World → World → Prop} {T : Terms}

open Session in
/-- Every call commits at sites. -/
theorem guards (F : Frame R T) (hlooks : T.Looks R) (hkeeps : T.Keeps) {w : World} {call : Call}
    (h : call.Meets R T w) :
    Prog.Guards R (Commits (Site T)) (R w) call.prog fun _ _ => True := by
  cases call with
  | admitInput c a => exact Prog.guards_seq (guards_admitInput F h) fun _ _ => trivial
  | claimTask c taskId token => exact Prog.guards_seq (guards_claimTask F h) fun _ _ => trivial
  | unclaimTask c taskId => exact Prog.guards_seq (guards_unclaimTask F) fun _ _ => trivial
  | waitTask c taskId wait =>
    exact Prog.guards_seq (guards_waitTask F (F.stable w) h.1 h.2) fun _ _ => trivial
  | requestCancel c taskId reason stateUpdate expectedRevision =>
    exact Prog.guards_seq (guards_requestCancel F hlooks h.1 h.2) fun _ _ => trivial
  | cancelTask c taskId reason =>
    exact Prog.guards_seq (guards_cancelTask F hlooks h) fun _ _ => trivial
  | failTask c taskId reason state token =>
    exact Prog.guards_seq (guards_failTask F h) fun _ _ => trivial
  | recoverSchedulerState c force =>
    exact guards_recoverSchedulerState F hkeeps (F.stable w) h.1 h.2
  | advanceTask c taskId a =>
    exact Prog.guards_seq (guards_advanceTask F h.1 fun hphase =>
      ⟨F.stable w, fun w' _ => h.2 hphase w'.store⟩) fun _ _ => trivial
  | startTask c taskId state =>
    exact Prog.guards_seq (guards_startTask F (h "")) fun _ _ => trivial
  | finishTask c taskId answer entryId state =>
    exact Prog.guards_seq (guards_finishTask F hlooks h) fun _ _ => trivial
  | completeTask c taskId answer entryId state =>
    exact Prog.guards_seq (guards_completeTask F hlooks h) fun _ _ => trivial
  | reconcileWaitingTasks c taskId => exact guards_reconcileWaitingTasks F h
  | reconcileFinalization c taskIds entryId =>
    obtain ⟨hjoins, J, hJ, hholds⟩ := h
    exact guards_reconcileFinalization F hlooks hkeeps hjoins hholds fun w' =>
      hholds.others w w' hJ
  | updateTaskState c taskId state expected =>
    exact Prog.guards_seq (guards_updateTaskState F h) fun _ _ => trivial
  | recordEffectIntents c taskId effects =>
    exact Prog.guards_seq (guards_recordEffectIntents F) fun _ _ => trivial
  | settleEffect c taskId effect expected artifacts =>
    exact Prog.guards_seq (guards_settleEffect F) fun _ _ => trivial
  | settleUnknownEffect c taskId effectId =>
    exact Prog.guards_seq (guards_settleUnknownEffect F) fun _ _ => trivial
  | createApproval c approval =>
    exact Prog.guards_seq (guards_createApproval F) fun _ _ => trivial
  | transitionApproval c approvalId approval expected =>
    exact Prog.guards_seq (guards_transitionApproval F) fun _ _ => trivial
  | claimApprovalAndBeginEffect c approvalId effect expected =>
    exact Prog.guards_seq (guards_claimApprovalAndBeginEffect F) fun _ _ => trivial
  | settleApproval c approvalId settlement resume entries =>
    exact Prog.guards_seq (guards_settleApproval F) fun _ _ => trivial
  | answerQuestion c taskId identity answer revision =>
    exact Prog.guards_seq (guards_answerQuestion F) fun _ _ => trivial
  | mutateCheckpoint c sessionId runId r => exact guards_mutateCheckpoint F h

end Call

def firstSession : Session := { ownerId := "owner-1", processId := 1, alive := fun _ => false }

def laterSession : Session := { ownerId := "owner-2", processId := 2, alive := fun _ => false }

/-- A plain input in a conversation of its own. -/
def plainInput (taskId : String) (ownerTaskId : Option String) : Admission where
  conversationId := "conversation-" ++ taskId
  requestId := "request-" ++ taskId
  taskId := taskId
  text := "go on"
  ownerTaskId := ownerTaskId
  entryId := "entry-" ++ taskId
  submissionId := "submission-" ++ taskId

/-! ### Systems -/

/-- The sessions of several processes on one store, each in the middle of a call or of several. -/
abbrev System := Pool World Error Call

/-- How a store changes when a call to which the terms `T` apply makes one step. -/
def Revises (T : Terms) (s s' : SqliteStore) : Prop :=
  s' = s ∨ ∃ (m : DurableMutation) (r : CommitResult), s.commit m = .ok (r, s') ∧
    SqliteStore.Accepted s m s' ∧ ∀ t ∈ m.allTasks, Wrote T s m t

variable {T : Terms}

lemma Revises.evolves {s s' : SqliteStore} (h : Revises T s s') : Evolves s s' := by
  rcases h with rfl | ⟨m, r, -, haccepted, -⟩
  · exact .refl _
  · exact haccepted.evolves

lemma Commits.revises (hsince : ∀ s s', T.since s s' → Evolves s s') {w w' : World}
    (h : Commits (Site T) w w') : Revises T w.store w'.store := by
  rcases h with heq | ⟨m, r, hcommit, hsite⟩
  · exact Or.inl heq
  · exact (hsite.wrote hsince hcommit).imp_right fun ⟨haccepted, hwrote⟩ =>
      ⟨m, r, hcommit, haccepted, hwrote⟩

/-- What a session can rely on when others commit between its steps. -/
def Others (w w' : World) : Prop := Evolves w.store w'.store

/-- Terms that hold whatever other sessions commit: a look at the ownership tree establishes
nothing that lasts. -/
structure Terms.Shared (T : Terms) : Prop where
  since : T.since = Evolves
  drained : ∀ now id, T.drained now id
  early : ∀ base, T.early base

lemma Terms.Shared.frame (h : T.Shared) : Frame Others T where
  refl w := Evolves.refl w.store
  trans _ _ _ h h' := Evolves.trans h h'
  rely w w' hw := by
    rw [h.since]
    exact hw
  since_trans s s' s'' hs hs' := by
    rw [h.since] at hs hs' ⊢
    exact hs.trans hs'

lemma Terms.Shared.keeps (h : T.Shared) : T.Keeps := fun s m r s' hcommit hsite => by
  rw [h.since]
  exact evolves_of_commit hcommit hsite.kept

theorem System.steps {ι : Type} {start : ι → Op Unit} {G : ι → World → World → Prop}
    {ok : ι → World → Prop} (hG : ∀ i w w', G i w w' → Others w w')
    (hstart : ∀ i w, ok i w → Prog.Guards Others (G i) (Others w) (start i) fun _ _ => True)
    {w₀ : World} {tr : List (ι × World × World)} {P : Pool World Error ι}
    (h : Pool.Run start ⟨w₀, []⟩ tr P) (hok : ∀ e ∈ tr, ok e.1 e.2.1) :
    ∀ e ∈ tr, e.2.2 = e.2.1 ∨ G e.1 e.2.1 e.2.2 :=
  (Pool.Run.guaranteed (R := Others) (fun w => Evolves.refl w.store)
    (fun _ _ _ h h' => Evolves.trans h h') hG
    (fun i w hi => Prog.Sat.imp (hstart i w hi) fun _ _ _ => trivial) h hok).2

/-- Every step of a system revises tasks under the terms of its call. -/
theorem System.revises {T : Call → Terms} (hT : ∀ call, (T call).Shared) {w₀ : World}
    {tr : List (Call × World × World)} {P : System}
    (h : Pool.Run Call.prog ⟨w₀, []⟩ tr P)
    (hok : ∀ e ∈ tr, e.1.Meets Others (T e.1) e.2.1) :
    ∀ e ∈ tr, Revises (T e.1) e.2.1.store e.2.2.store := by
  have hG : ∀ call (w w' : World), Commits (Site (T call)) w w' →
      Revises (T call) w.store w'.store := fun call w w' => Commits.revises fun s s' hs => by
    rwa [(hT call).since] at hs
  intro e he
  rcases System.steps (G := fun call => Commits (Site (T call)))
      (fun call w w' h => (hG call w w' h).evolves)
      (fun call w (hcall : call.Meets Others (T call) w) =>
        Call.guards (hT call).frame (fun now id _ => (hT call).drained now id)
          (hT call).keeps hcall) h hok e he with heq | hstep
  · exact Or.inl (congrArg World.store heq)
  · exact hG _ _ _ hstep

/-- A step of a session: of a call, or of one of the other operations, each of which ends in a
commit. -/
inductive Action where
  | call (request : Call)
  | commit (c : Session) (m : DurableMutation)

def Action.prog : Action → Op Unit
  | .call request => request.prog
  | .commit c m => do let _ ← c.commit m

/-- A mutation that may differ from another one in its fence. -/
structure SameRows (m m' : MutationData) : Prop where
  task : m'.task = m.task
  updates : m'.taskUpdates = m.taskUpdates
  effects : m'.allEffects = m.allEffects
  kept : m'.deleteConversation = m.deleteConversation

/-- The commit of an operation that read the world `w` is made in a world that follows it. -/
def OtherSite (R : World → World → Prop) (w : World) (m : DurableMutation) (s : SqliteStore)
    (m' : MutationData) : Prop :=
  (∃ w', R w w' ∧ w'.store = s) ∧ SameRows m.toMutationData m'

lemma guards_otherCommit {R : World → World → Prop} (F : Frame R T) (c : Session)
    {m : DurableMutation} (happroval : m.approval = none) (w : World) :
    Prog.Guards R (Commits (OtherSite R w m)) (R w) (Action.commit c m).prog fun _ _ => True :=
  Prog.guards_seq (Session.guards_commit (S := OtherSite R w m) F
    (fun _ _ _ h => ⟨h.1, h.2.task, h.2.updates, h.2.effects, h.2.kept⟩) (F.stable w) happroval
    fun w' hw' => ⟨⟨w', hw', rfl⟩, rfl, rfl, rfl, rfl⟩) fun _ _ => trivial

lemma Commits.mono {S S' : SqliteStore → MutationData → Prop} (h : ∀ s m, S s m → S' s m)
    {w w' : World} (hw : Commits S w w') : Commits S' w w' :=
  hw.imp_right fun ⟨m, r, hcommit, hsite⟩ => ⟨m, r, hcommit, h _ _ hsite⟩

/-! ### Keys that callers do not name -/

def Unnamed (keys : List String) (state : Fields) : Prop := ∀ key ∈ keys, state.get? key = none

/-- The terms of calls whose maps name none of the keys. -/
def Terms.unnamed (keys : List String) : Terms where
  claims := True
  since := Evolves
  caller := Unnamed keys
  updates := Unnamed keys
  step _ a := Unnamed keys a.state
  parks _ _ w := Unnamed keys (w.state.getD [])
  admits a := Unnamed keys a.taskState
  drained _ _ := True
  early _ := True

lemma Terms.unnamed_shared (keys : List String) : (Terms.unnamed keys).Shared :=
  ⟨rfl, fun _ _ => trivial, fun _ => trivial⟩

lemma Terms.unnamed_aloneFrame (keys : List String) : Frame Eq (Terms.unnamed keys) :=
  Terms.aloneFrame Evolves.refl fun _ _ _ => Evolves.trans

/-- The keys that the operations write through the maps that callers use. -/
def internalKeys : List String :=
  ["abort_reason", "join_error", "join_failed_task", "waiting_on", "join_results",
    "completion_answer", "completion_state"]

/-- The maps that a call brings along name none of the keys. `reconcile_finalization` takes its map
from the store. -/
def Call.LeavesAlone (keys : List String) : Call → Prop
  | .admitInput _ a => Unnamed keys a.taskState
  | .waitTask _ _ w => Unnamed keys (w.state.getD [])
  | .requestCancel _ _ _ state _ => Unnamed keys state
  | .failTask _ _ _ state _ => Unnamed keys state
  | .advanceTask _ _ a => Unnamed keys a.state
  | .startTask _ _ state => Unnamed keys state
  | .finishTask _ _ _ _ state => Unnamed keys state
  | .completeTask _ _ _ _ state => Unnamed keys state
  | .updateTaskState _ _ state _ => Unnamed keys state
  | .reconcileFinalization .. => False
  | _ => True

variable {keys : List String}

lemma unnamed_of_internal (hkeys : ∀ key ∈ keys, key ∉ internalKeys) {state : Fields}
    (h : ∀ key, (state.get? key).isSome = true → key ∈ internalKeys) : Unnamed keys state := by
  intro key hkey
  by_contra hne
  exact hkeys key hkey (h key (Option.isSome_iff_ne_none.mpr hne))

lemma unnamed_completion (hkeys : ∀ key ∈ keys, key ∉ internalKeys) {answer : String}
    {state : Fields} {a : Session.Advance} (h : Unnamed keys state)
    (ha : Session.CompletionStep answer state a) : Unnamed keys a.state := by
  intro key hkey
  have hne : ∀ k ∈ internalKeys, ¬ k = key := fun k hk heq => hkeys key hkey (heq ▸ hk)
  rcases ha.state_eq with heq | heq
  · rw [heq, h key hkey]
  · simp [heq, h key hkey, hne "completion_answer" (by decide),
      hne "completion_state" (by decide)]

lemma joins_unnamed (hkeys : ∀ key ∈ keys, key ∉ internalKeys) :
    Session.Joins (Terms.unnamed keys) := by
  have hone : ∀ k ∈ internalKeys, ∀ v : Json, Unnamed keys [(k, v)] := fun k hk v =>
    unnamed_of_internal hkeys fun key hkey => by
      by_cases hkk : k = key
      · exact hkk ▸ hk
      · simp [hkk] at hkey
  refine ⟨fun _ => hone _ (by decide) _, fun _ => hone _ (by decide) _, fun base a ha => ?_⟩
  change Unnamed keys a.state
  rcases ha.state_eq with heq | ⟨results, heq⟩
  · rw [heq]
    exact hone _ (by decide) _
  · rw [heq]
    refine unnamed_of_internal hkeys fun key hkey => ?_
    by_contra hne
    have hkk : ∀ k ∈ internalKeys, ¬ k = key := fun k hk hkk => hne (hkk ▸ hk)
    simp [hkk "waiting_on" (by decide), hkk "join_results" (by decide)] at hkey

lemma Call.LeavesAlone.meets (hkeys : ∀ key ∈ keys, key ∉ internalKeys) {call : Call}
    (h : call.LeavesAlone keys) (w : World) : call.Meets Others (Terms.unnamed keys) w := by
  have hnil : Unnamed keys [] := fun _ _ => rfl
  cases call with
  | waitTask => exact ⟨fun _ _ _ _ _ _ => h, fun _ _ _ _ _ _ _ => trivial⟩
  | requestCancel => exact ⟨hnil, h⟩
  | cancelTask => exact hnil
  | recoverSchedulerState =>
    refine ⟨unnamed_of_internal hkeys fun key hkey => ?_, fun _ _ _ _ _ _ _ _ _ => trivial⟩
    by_contra hne
    have hkk : ¬ "abort_reason" = key := fun hkk => hne (hkk ▸ by decide)
    simp [hkk] at hkey
  | advanceTask => exact ⟨fun _ _ => h, fun _ _ => trivial⟩
  | startTask => exact fun _ _ _ ha => unnamed_completion hkeys h ha
  | finishTask => exact fun _ _ ha => unnamed_completion hkeys h ha
  | completeTask => exact fun _ _ ha => unnamed_completion hkeys h ha
  | claimTask => exact trivial
  | reconcileWaitingTasks => exact joins_unnamed hkeys
  | reconcileFinalization => exact absurd h id
  | _ => exact h

end Codey
