import Codey.Durable.Scheduling
import Codey.Durable.Admission
import Codey.Durable.Execution

/-!
# What an operation commits

Every commit of a session operation has a shape: it revises one task, from a checkpoint that the
operation has read, in one of the ways of `Change`. The operations are checked against this once,
under the interference of other sessions; invariants are then derived from the shapes.
-/

namespace Codey

/-! ### Terms -/

/-- What is known of the surroundings of an operation: whether it may claim a task, how the store
can have evolved since a read, what the state maps, task steps, waits and admissions that its
caller asks for look like, what a look at the ownership tree has established, what is known of a
task that is closed without such a look, and whether it may place inputs. -/
structure Terms where
  claims : Prop
  since : SqliteStore → SqliteStore → Prop
  caller : Fields → Prop
  updates : Fields → Prop
  step : TaskCheckpoint → Session.Advance → Prop
  parks : SqliteStore → TaskCheckpoint → Session.Wait → Prop
  admits : Admission → Prop
  drained : SqliteStore → String → Prop
  early : TaskCheckpoint → Prop
  places : Prop := True

/-! ### Changes of a checkpoint -/

/-- The state of a task that is closed as cancelled, from the state it had. -/
inductive Cancelled (T : Terms) (base : TaskCheckpoint) : Fields → Prop where
  | patched (patch : Fields) (reason : String) : T.caller patch →
      Cancelled T base (Session.cancelState (base.state.merge patch) reason)
  | parked (s : SqliteStore) (w : Session.Wait) : T.parks s base w →
      Cancelled T base (base.state.merge (w.state.getD []))
  | recovered : Cancelled T base (base.state.merge [("cancel_requested", .bool true)])
  | held : Cancelled T base base.state

/-- How one operation changes the checkpoint it has read: the phase, state and status it leaves,
the effects it starts and those it settles. -/
inductive Change (T : Terms) (now : SqliteStore) (base : TaskCheckpoint) :
    Phase → Fields → TaskStatus → List EffectRecord → List EffectRecord → Prop where
  | claim (c : Session) (token : String) : T.claims → base.status = .pending →
      Change T now base (if base.phase = .accepted then .dispatching else base.phase)
        (c.claimedState base.state token) .running [] []
  | release (phase : Phase) : base.status = .running →
      (phase = if base.phase = .dispatching then .accepted else base.phase) ∨
        phase = base.phase →
      Change T now base phase (releaseAttemptState base.state) .pending [] []
  | park (w : Session.Wait) : base.status = .running ∨ base.status = .pending →
      base.state.cancelRequested = false →
      (∃ s, T.since s now ∧ T.parks s base w ∧ Session.validateWait base.taskId
        (Session.waitDependencies base.state w) s.tasks = .ok ()) →
      Change T now base base.phase
        (Session.parkedState base.state (Session.waitDependencies base.state w) w)
        (if Session.answered base w.state then .pending else .waiting) [] []
  | hold (patch : Fields) (reason : String) (status : TaskStatus) : T.caller patch →
      status = Session.heldStatus base.status ∨
        status = (if base.status = .running then .running else .pending) →
      Change T now base base.phase
        (Session.cancelState (base.state.merge patch) reason) status [] []
  | cancel (state : Fields) : Cancelled T base state →
      T.drained now base.taskId ∨ T.early base →
      Change T now base .cancelled (releaseAttemptState state) .cancelled [] []
  | fail (patch : Fields) (pending : List String) (effects : List EffectRecord) :
      T.caller patch → Session.agreedPending base.state effects = .ok pending →
      (∀ key ∈ Session.authoritativeKeys, (patch.get? key).all
        (fun v => v.pyEq ((base.state.get? key).getD .null)) = true) →
      Change T now base .failed (Session.failedState base.state patch pending) .failed [] []
  | advance (c : Session) (a : Session.Advance) : T.step base a →
      (base.state.cancelRequested = false ∨ a.phase = .cancelled ∨ a.phase = .failed) →
      (a.phase = .completed → T.drained now base.taskId) →
      Change T now base a.phase (c.advancedState base a.state)
        (a.taskStatus.getD (taskStatusForPhase a.phase)) [] []
  | update (patch : Fields) : T.updates patch →
      Change T now base base.phase (base.state.merge patch) base.status [] []
  | intents (effects : List EffectRecord) (next : TaskCheckpoint) :
      withEffectIntents base effects = .ok next →
      Change T now base base.phase next.state base.status effects []
  | settle (effect : EffectRecord) (next : TaskCheckpoint) :
      withEffectSettlement base effect = .ok next →
      Change T now base base.phase next.state base.status [] [effect]
  | approval (settled : List EffectRecord) (next : CheckpointData) (resume : Bool) (id : String) :
      next.state = base.state ∧ settled = [] ∨
        (∃ e next', settled = [e] ∧ withEffectSettlement base e = .ok next' ∧
          next = next'.toCheckpointData) →
      Change T now base base.phase
        (if resume then (Session.resumedApproval next id).state else next.state)
        (if resume then .pending else base.status) [] settled
  | answer (question : Fields) (answer entryId : String) (revision : Nat) :
      base.status = .running ∨ base.status = .waiting →
      Change T now base base.phase
        (if base.status = .waiting then
          releaseAttemptState (Session.answeredState base question answer entryId revision)
        else Session.answeredState base question answer entryId revision)
        (if base.status = .waiting then .pending else base.status) [] []
  | runtime (intents settled : List EffectRecord) (next : TaskCheckpoint)
      (v : Session.RuntimeView) (rest : Fields) :
      Session.withEffectChanges base intents settled = .ok next →
      (∀ key, (rest.get? key).isSome = true →
        key = "operation" ∨ key = "generation_boundary" ∨ key = "generation_boundary_receipt") →
      Change T now base base.phase ((Session.runtimeState next.state v).merge rest)
        base.status intents settled

/-! ### Sites -/

def PlacedAt (T : Terms) (now : SqliteStore) (t : TaskCheckpoint) : Prop :=
  T.places ∧ ∃ base s₀ entryId consumer consumed, T.since s₀ now ∧
    s₀.tasks.get? base.taskId = some base ∧
    t.toCheckpointData = Session.placedState base entryId consumer consumed

/-- A mutation that revises one task from a checkpoint that was read, or that admits one. -/
inductive Site (T : Terms) (now : SqliteStore) (m : MutationData) : Prop where
  | revise {base next : TaskCheckpoint} {s₀ : SqliteStore} {phase : Phase} {state : Fields}
      {status : TaskStatus} {intents settled : List EffectRecord}
      (seen : T.since s₀ now) (row : s₀.tasks.get? base.taskId = some base)
      (change : Change T now base phase state status intents settled)
      (task : m.task = some next)
      (next_eq : ∃ folded pending,
        (folded = [] ∨ ∃ approvals, folded = [("approvals", approvals)]) ∧
        next.toCheckpointData = { base.toCheckpointData with
          phase, state := state.merge folded, status, revision := base.revision + 1
          pendingEffectId := pending })
      (updates : ∀ t ∈ m.taskUpdates, PlacedAt T now t)
      (effects : m.effects = intents)
      (settlements : m.effect.toList ++ m.settlements = settled)
      (expected : m.effect.isSome = true → m.expectedEffectStatus.isSome = true)
      (kept : m.deleteConversation = false) (noSubmission : m.submission = none)
  | enter {c : Session} {a : Admission} {entry : Option EntryDraft} {next : TaskCheckpoint}
      (admits : T.admits a) (task : m.task = some next)
      (next_eq : next.toCheckpointData = {
        taskId := a.taskId, conversationId := a.conversationId, submissionId := a.submissionId
        phase := a.initialPhase, revision := 0, providerSnapshot := a.providerSnapshot
        state := c.admittedState a entry, status := taskStatusForPhase a.initialPhase })
      (initial : a.initialPhase = .accepted ∨ a.initialPhase = .dispatching)
      (updates : m.taskUpdates = []) (effects : m.allEffects = [])
      (kept : m.deleteConversation = false)

/-- Everything below `id` in the ownership tree was seen, and seen to have ended: `V` holds the
tasks that were visited. -/
def Drained (since : SqliteStore → SqliteStore → Prop) (now : SqliteStore) (id : String) : Prop :=
  ∃ V : String → Prop, V id ∧
    (∀ x, V x → ∃ s, since s now ∧ ∀ child ∈ s.ownedDependents x, V child.taskId) ∧
    ∀ y, V y → y = id ∨
      ∃ s row, since s now ∧ s.tasks.get? y = some row ∧ row.status.terminal = true

/-- A step of an operation leaves the store alone, or commits a mutation of the given kind. -/
def Commits (S : SqliteStore → MutationData → Prop) (w w' : World) : Prop :=
  w'.store = w.store ∨ ∃ (m : DurableMutation) (r : CommitResult),
    w.store.commit m = .ok (r, w'.store) ∧ S w.store m.toMutationData

/-- The fence of a mutation does not matter to its kind. -/
def Unfenced (S : SqliteStore → MutationData → Prop) : Prop :=
  ∀ s m token, S s m → S s { m with expectedAttemptToken := some token }

/-- How the state may have evolved between two moments: `R` by steps of others alone, and
`T.since` by any steps. -/
structure Frame (R : World → World → Prop) (T : Terms) : Prop where
  refl : ∀ w, R w w
  trans : ∀ w w' w'', R w w' → R w' w'' → R w w''
  rely : ∀ w w', R w w' → T.since w.store w'.store
  since_trans : ∀ s s' s'', T.since s s' → T.since s' s'' → T.since s s''

lemma Terms.aloneFrame {T : Terms} (hrefl : ∀ s, T.since s s)
    (htrans : ∀ s s' s'', T.since s s' → T.since s' s'' → T.since s s'') : Frame Eq T where
  refl _ := rfl
  trans _ _ _ h h' := h.trans h'
  rely w _ h := h ▸ hrefl w.store
  since_trans := htrans

/-- The store at one moment and at another that steps of others lead to. -/
def Seen (R : World → World → Prop) (s s' : SqliteStore) : Prop :=
  ∃ w w', R w w' ∧ w.store = s ∧ w'.store = s'

def Terms.Looks (R : World → World → Prop) (T : Terms) : Prop :=
  ∀ now id, Drained (Seen R) now id → T.drained now id

/-- The operation's own commits, too, are steps along `since`. -/
def Terms.Keeps (T : Terms) : Prop :=
  ∀ s (m : DurableMutation) r s', s.commit m = .ok (r, s') → Site T s m.toMutationData →
    T.since s s'

def SeenRow (T : Terms) (K : World → Prop) (row : TaskCheckpoint) : Prop :=
  ∀ w, K w → ∃ s, T.since s w.store ∧ s.tasks.get? row.taskId = some row

lemma SeenRow.mono {T : Terms} {K K' : World → Prop} {row : TaskCheckpoint}
    (h : SeenRow T K row) (hK : ∀ w, K' w → K w) : SeenRow T K' row := fun w hw => h w (hK w hw)

/-- A mutation that changes nothing but one checkpoint, apart from entries and submissions. -/
structure Plain (m : MutationData) (next : TaskCheckpoint) : Prop where
  task : m.task = some next
  updates : m.taskUpdates = []
  effect : m.effect = none
  effects : m.effects = []
  settlements : m.settlements = []
  kept : m.deleteConversation = false
  noSubmission : m.submission = none

section Rules

open Prog (Stable Guards guards_bind guards_ofExcept)

variable {R : World → World → Prop} {T : Terms} {K : World → Prop}

lemma Frame.stable (F : Frame R T) (w : World) : Stable R (R w) := fun _ _ => F.trans _ _ _

lemma Site.plain {now : SqliteStore} {m : MutationData} {base next : TaskCheckpoint}
    {phase : Phase} {state : Fields} {status : TaskStatus}
    (seen : ∃ s, T.since s now ∧ s.tasks.get? base.taskId = some base)
    (change : Change T now base phase state status [] []) (hm : Plain m next)
    (next_eq : next.toCheckpointData = { base.toCheckpointData with
      phase, state, status, revision := base.revision + 1 }) : Site T now m := by
  obtain ⟨s₀, hs₀, hrow⟩ := seen
  refine .revise hs₀ hrow change hm.task ⟨[], base.pendingEffectId, Or.inl rfl, next_eq⟩ ?_
    hm.effects ?_ ?_ hm.kept hm.noSubmission
  · simp [hm.updates]
  · simp [hm.effect, hm.settlements]
  · simp [hm.effect]

lemma Site.unfenced (T : Terms) : Unfenced (Site T) := by
  intro s m token h
  cases h with
  | revise seen row change task next_eq updates effects settlements expected kept nosub =>
    exact .revise seen row change task next_eq updates effects settlements expected kept nosub
  | enter admits task next_eq initial updates effects kept =>
    exact .enter admits task next_eq initial updates effects kept

namespace Session

section Kinds

variable {S : SqliteStore → MutationData → Prop}

lemma guards_view {α : Type} {f : SqliteStore → Except Error α}
    {Q : α → (World → Prop) → Prop} (h : ∀ w a, K w → f w.store = .ok a → Q a (R w)) :
    Guards R (Commits S) K (view f) Q :=
  Prog.guards_readE (fun _ => Or.inl rfl) h

lemma guards_look {α : Type} {f : SqliteStore → α} {Q : α → (World → Prop) → Prop}
    (h : ∀ w, K w → Q (f w.store) (R w)) : Guards R (Commits S) K (look f) Q :=
  guards_view fun w a hw ha => by
    obtain rfl := Except.ok.inj ha
    exact h w hw

/-- Reading a task: the row that is read is known afterwards. -/
lemma guards_task (F : Frame R T) {id : String} {Q : TaskCheckpoint → (World → Prop) → Prop}
    (h : ∀ w row, K w → w.store.tasks.get? id = some row → row.taskId = id →
      SeenRow T (R w) row → Q row (R w)) :
    Guards R (Commits S) K (view (·.task id)) Q :=
  guards_view fun w row hw hrow => by
    unfold SqliteStore.task at hrow
    split at hrow
    · rename_i row' hget
      obtain rfl := Except.ok.inj hrow
      have hid : row'.taskId = id := Table.key_of_get? (t := w.store.tasks) hget
      refine h w row' hw hget hid fun w' hw' => ⟨w.store, F.rely w w' hw', ?_⟩
      rw [hid]
      exact hget
    · cases hrow

lemma guards_ensure {cond : Bool} {e : Error} {Q : Unit → (World → Prop) → Prop}
    (h : cond = true → Q () K) : Guards R (Commits S) K (ensure cond e) Q :=
  guards_ofExcept fun _ hcond => h (require_eq_ok.mp hcond)

variable {c : Session}

lemma guards_ensureUsable {Q : Unit → (World → Prop) → Prop} (h : ∀ w, K w → Q () (R w)) :
    Guards R (Commits S) K c.ensureUsable Q :=
  Prog.guards_readE (fun _ => Or.inl rfl) fun w _ hw _ => h w hw

variable {m : DurableMutation}

lemma guards_storeCommit (h : ∀ w, K w → S w.store m.toMutationData) :
    Guards R (Commits S) K (c.storeCommit m) fun _ _ => True := by
  intro w hw
  unfold afterCommit
  cases hc : w.store.commit m with
  | ok rs =>
    refine ⟨Or.inr ⟨m, rs.1, hc, h w hw⟩, ?_⟩
    simp only [hc, Prog.Sat]
  | error e =>
    refine ⟨Or.inl ?_, ?_⟩
    · dsimp only
      split <;> rfl
    · simp only [hc, Prog.Sat]

/-- A mutation without an approval is committed as it is, up to its fence. -/
lemma guards_fenced (hS : Unfenced S) (hK : Stable R K)
    (h : ∀ w, K w → S w.store m.toMutationData) :
    Guards R (Commits S) K (c.fence m >>= c.storeCommit) fun _ _ => True := by
  refine guards_bind ?_
  unfold fence
  split
  · refine guards_bind (guards_look fun w hw => ?_)
    split
    · exact guards_storeCommit fun w' hw' => h w' (hK w w' hw hw')
    · exact guards_storeCommit fun w' hw' => hS _ _ _ (h w' (hK w w' hw hw'))
  · exact guards_storeCommit h

lemma guards_commit (F : Frame R T) (hS : Unfenced S) (hK : Stable R K) (happ : m.approval = none)
    (h : ∀ w, K w → S w.store m.toMutationData) :
    Guards R (Commits S) K (c.commit m) fun _ _ => True := by
  refine guards_bind (guards_ensureUsable fun w hw => ?_)
  simp only [materialize, happ, Prog.pure_eq, Prog.bind_eq, Prog.ret_bind]
  exact guards_fenced hS (F.stable w) fun w' hw' => h w' (hK w w' hw hw')

/-- A mutation with an approval is folded into the checkpoint that the session reads for it. -/
lemma guards_commit_approval (F : Frame R T) (hS : Unfenced S) (hK : Stable R K)
    {approval : ApprovalRecord} (happ : m.approval = some approval)
    (h : ∀ w current m', K w → w.store.tasks.get? approval.taskId = some current →
      SeenRow T (R w) current → materializeApproval m approval current = .ok m' →
      ∀ w', R w w' → S w'.store m'.toMutationData) :
    Guards R (Commits S) K (c.commit m) fun _ _ => True := by
  refine guards_bind (guards_ensureUsable fun w hw => ?_)
  simp only [materialize, happ, Prog.bind_eq, Prog.bind_assoc]
  refine guards_bind (guards_task F fun w₁ current hw₁ hrow _ hseen => ?_)
  refine guards_bind (guards_ofExcept fun m' hm' => ?_)
  exact guards_fenced hS (F.stable w₁) (h w₁ current m' (hK w w₁ hw hw₁) hrow hseen hm')

lemma guards_commitData (F : Frame R T) (hS : Unfenced S) (hK : Stable R K) {m : MutationData}
    (happ : m.approval = none) (h : ∀ w, K w → S w.store m) :
    Guards R (Commits S) K (c.commitData m) fun _ _ => True := by
  refine guards_bind (guards_ofExcept fun m' hm' => ?_)
  obtain rfl := DurableMutation.make_eq_ok.mp hm'
  exact guards_commit F hS hK happ h

end Kinds

/-- The commit of one revised checkpoint. -/
lemma guards_commitTask (F : Frame R T) (hK : Stable R K) {c : Session} {base : TaskCheckpoint}
    {phase : Phase} {state : Fields} {status : TaskStatus} {token : Option String}
    (seen : SeenRow T K base)
    (change : ∀ w, K w → Change T w.store base phase state status [] []) :
    Guards R (Commits (Site T)) K (c.commitTask { base.toCheckpointData with
      phase, state, status, revision := base.revision + 1 } token) fun _ _ => True := by
  refine guards_bind (guards_ofExcept fun next hnext => ?_)
  have hnext := TaskCheckpoint.make_eq_ok.mp hnext
  refine guards_bind (guards_view fun w hr hw _ => ?_)
  exact guards_commitData F (Site.unfenced T) (F.stable w) rfl fun w' hw' =>
    have hK' := hK w w' hw hw'
    .plain (seen w' hK') (change w' hK') ⟨rfl, rfl, rfl, rfl, rfl, rfl, rfl⟩ hnext

end Session

end Rules

end Codey
