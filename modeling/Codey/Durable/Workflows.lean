import Codey.Durable.LoneCheckpoints

/-!
# Migrations of workflows

`reconcile_workflows`: the stored checkpoint of every workflow that is older than its definition is
migrated. Stored checkpoints are JSON objects; what a migration returns, or raises, is its own
matter, and a mapping that it returns need not have a JSON text.
-/

namespace Codey

namespace Fields

def workflowName (state : Fields) : Option String := state.name? "workflow_name"

def workflowVersion (state : Fields) : Int :=
  match state.get? "workflow_version" with
  | some (.int n) => if 1 ≤ n then n else 1
  | _ => 1

def workflowInput (state : Fields) : Fields := (state.obj? "workflow_input").getD []

def workflowCheckpoint (state : Fields) : Fields := (state.obj? "workflow_checkpoint").getD []

/-- `state.get("workflow_replay_contract", "deterministic-v1")`. -/
def replayContract (state : Fields) : Json :=
  (state.get? "workflow_replay_contract").getD (.str "deterministic-v1")

end Fields

/-- What a migration returns: a mapping, by its members or by what `json.dumps` raises for it (a
`NaN` or a set in it, a text that UTF-8 cannot encode), or anything else. -/
inductive Migrated where
  | mapping (members : Fields)
  | unencodable (e : Error)
  | other

/-- The current version of a workflow, and how older checkpoints are migrated to it. -/
structure WorkflowDefinition where
  name : String
  version : Int
  migrate : Option (Fields → Except Error Migrated) := none
  replayContract : String := "deterministic-v1"
  valid : (name ≠ "" ∧ 1 ≤ version ∧ replayContract ≠ "") := by decide

/-- The migrated checkpoint, or what its encoding will raise. -/
def WorkflowDefinition.migrateCheckpoint (d : WorkflowDefinition) (checkpoint : Fields)
    (fromVersion : Int) : Except Error (Except Error Fields) :=
  if d.version < fromVersion then
    .error (.valueError "stored workflow version is newer than definition")
  else if fromVersion = d.version then .ok (.ok checkpoint)
  else match d.migrate with
    | none => .error (.valueError "workflow migration is required")
    | some migrate => do
      match ← migrate checkpoint with
      | .mapping members => .ok (.ok members)
      | .unencodable e => .ok (.error e)
      | .other => .error (.valueError "workflow migration must return a mapping")

/-- The definitions that a scheduler knows, by name. -/
abbrev Workflows := String → Option WorkflowDefinition

/-- The definition that a task has to be brought up to, and its migrated checkpoint. A migration
that raises `ValueError` leaves the task out. -/
def migration (definitions : Workflows) (t : TaskCheckpoint) :
    Except Error (Option (WorkflowDefinition × Except Error Fields)) :=
  match t.state.workflowName.bind definitions with
  | none => .ok none
  | some d =>
    if d.version < t.state.workflowVersion then .ok none
    else if t.state.workflowVersion = d.version then .ok none
    else match d.migrateCheckpoint t.state.workflowCheckpoint t.state.workflowVersion with
      | .ok checkpoint => .ok (some (d, checkpoint))
      | .error (.valueError _) => .ok none
      | .error e => .error e

namespace Session

variable (c : Session)

def workflowDigest (name : String) (version : Int) (input checkpoint : Fields) : String :=
  c.digest (.obj [("checkpoint", .obj checkpoint), ("input", .obj input), ("name", .str name),
    ("version", .int version)])

/-- The state of a task at the version of a definition. -/
def migratedState (d : WorkflowDefinition) (checkpoint state : Fields) : Fields :=
  state.merge [
    ("workflow_version", .int d.version),
    ("workflow_checkpoint", .obj checkpoint),
    ("workflow_replay_contract", .str d.replayContract),
    ("workflow_replay_digest",
      .str (c.workflowDigest d.name d.version state.workflowInput checkpoint)),
    ("workflow_blocked_reason", .null)]

/-- Write the migrated checkpoint of a task. -/
def migrateTask (d : WorkflowDefinition) (checkpoint : Fields) (task : TaskCheckpoint) :
    Op CommitResult := do
  let (_, revision) ← view (·.head task.conversationId)
  let next ← Prog.ofExcept (TaskCheckpoint.make { task.toCheckpointData with
    revision := task.revision + 1, state := c.migratedState d checkpoint task.state })
  c.commitData (checkpointMutation task.conversationId revision next none task.state.attemptToken)

/-- The loop of `reconcile_workflows`. The digest encodes the migrated checkpoint, outside the `try`
around its migration. -/
def reconcileEach (definitions : Workflows) : List TaskCheckpoint → Op (List String)
  | [] => pure []
  | task :: tasks => do
    match ← Prog.ofExcept (migration definitions task) with
    | none => reconcileEach definitions tasks
    | some (d, checkpoint) => do
      let checkpoint ← Prog.ofExcept checkpoint
      let _ ← c.migrateTask d checkpoint task
      let changed ← reconcileEach definitions tasks
      pure (task.taskId :: changed)

/-- Apply explicit pure migrations; incompatible definitions stay blocked. -/
def reconcileWorkflows (definitions : Workflows) : Op (List String) := do
  c.ensureUsable
  let tasks ← look (·.tasks.rows)
  c.reconcileEach definitions tasks

end Session

/-- A task that is older than its definition, and whose migration succeeds. -/
structure Due (definitions : Workflows) (t : TaskCheckpoint) (d : WorkflowDefinition)
    (checkpoint : Fields) : Prop where
  defined : ∃ name, t.state.workflowName = some name ∧ definitions name = some d
  older : t.state.workflowVersion < d.version
  migrated : d.migrateCheckpoint t.state.workflowCheckpoint t.state.workflowVersion =
    .ok (.ok checkpoint)

/-- No task is older than a definition whose migration returns a mapping that has no JSON text. -/
def Encodable (definitions : Workflows) (t : TaskCheckpoint) : Prop :=
  ∀ name d e, t.state.workflowName = some name → definitions name = some d →
    t.state.workflowVersion < d.version →
    d.migrateCheckpoint t.state.workflowCheckpoint t.state.workflowVersion ≠ .ok (.error e)

/-- A live task under the contract of a definition: no cancellation has been requested, and the
scheduler takes its replay contract for that of the definition. -/
structure Fit (d : WorkflowDefinition) (t : TaskCheckpoint) : Prop where
  contract : t.state.replayContract = .str d.replayContract
  uncancelled : t.state.cancelRequested = false
  live : t.status.terminal = false

/-- A migration that raises, raises `ValueError`. -/
def Mild (definitions : Workflows) : Prop :=
  ∀ name d migrate, definitions name = some d → d.migrate = some migrate →
    ∀ checkpoint e, migrate checkpoint = .error e → ∃ message, e = .valueError message

section Migration

variable {definitions : Workflows} {t : TaskCheckpoint} {d : WorkflowDefinition}
  {checkpoint : Fields} {found : Except Error Fields}

lemma migration_eq_some_iff :
    migration definitions t = .ok (some (d, found)) ↔
      (∃ name, t.state.workflowName = some name ∧ definitions name = some d) ∧
        t.state.workflowVersion < d.version ∧
        d.migrateCheckpoint t.state.workflowCheckpoint t.state.workflowVersion = .ok found := by
  unfold migration
  constructor
  · intro h
    split at h
    · cases h
    · rename_i d' hd'
      split_ifs at h with hnewer hsame
      · cases h
      · cases h
      · split at h
        · rename_i checkpoint' hcheckpoint
          obtain ⟨rfl, rfl⟩ := Prod.mk.inj (Option.some.inj (Except.ok.inj h))
          obtain ⟨name, hname, hdef⟩ := Option.bind_eq_some_iff.mp hd'
          exact ⟨⟨name, hname, hdef⟩, by omega, hcheckpoint⟩
        · cases h
        · cases h
  · rintro ⟨⟨name, hname, hdef⟩, holder, hmigrated⟩
    rw [hname, Option.bind_some, hdef]
    simp only [hmigrated]
    rw [if_neg (by omega), if_neg (by omega)]

lemma migration_eq_some :
    migration definitions t = .ok (some (d, .ok checkpoint)) ↔ Due definitions t d checkpoint := by
  rw [migration_eq_some_iff]
  exact ⟨fun ⟨hdefined, holder, hmigrated⟩ => ⟨hdefined, holder, hmigrated⟩,
    fun h => ⟨h.defined, h.older, h.migrated⟩⟩

lemma encodable_iff : Encodable definitions t ↔
    ∀ d e, migration definitions t ≠ .ok (some (d, .error e)) := by
  constructor
  · intro h d e hfound
    obtain ⟨⟨name, hname, hdef⟩, holder, hmigrated⟩ := migration_eq_some_iff.mp hfound
    exact h name d e hname hdef holder hmigrated
  · intro h name d e hname hdef holder hmigrated
    exact h d e (migration_eq_some_iff.mpr ⟨⟨name, hname, hdef⟩, holder, hmigrated⟩)

/-- Mild migrations do not end the loop. -/
lemma exists_migration (hmild : Mild definitions) (t : TaskCheckpoint) :
    ∃ found, migration definitions t = .ok found := by
  unfold migration
  split
  · exact ⟨_, rfl⟩
  · rename_i d hd
    obtain ⟨name, -, hdef⟩ := Option.bind_eq_some_iff.mp hd
    split_ifs with hnewer hsame
    · exact ⟨_, rfl⟩
    · exact ⟨_, rfl⟩
    · split
      · exact ⟨_, rfl⟩
      · exact ⟨_, rfl⟩
      · rename_i e hother herror
        exfalso
        unfold WorkflowDefinition.migrateCheckpoint at herror
        rw [if_neg hnewer, if_neg hsame] at herror
        split at herror
        · exact hother _ (Except.error.inj herror).symm
        · rename_i migrate hmigrate
          rcases except_bind_eq_error.mp herror with herror | ⟨value, -, herror⟩
          · obtain ⟨message, rfl⟩ := hmild name d migrate hdef hmigrate _ _ herror
            exact hother message rfl
          · split at herror
            · cases herror
            · cases herror
            · exact hother _ (Except.error.inj herror).symm

end Migration

/-! ### Migrated checkpoints -/

def migratedKeys : List String :=
  ["workflow_version", "workflow_checkpoint", "workflow_replay_contract", "workflow_replay_digest",
    "workflow_blocked_reason"]

section Migrated

variable {c : Session} {d : WorkflowDefinition} {checkpoint state : Fields}
  {t next : TaskCheckpoint}

lemma get?_migratedState {key : String} (hkey : key ∉ migratedKeys) :
    (c.migratedState d checkpoint state).get? key = state.get? key := by
  simp only [migratedKeys, List.mem_cons, List.not_mem_nil, or_false, not_or] at hkey
  obtain ⟨h₁, h₂, h₃, h₄, h₅⟩ := hkey
  simp [Session.migratedState, Ne.symm h₁, Ne.symm h₂, Ne.symm h₃, Ne.symm h₄, Ne.symm h₅]

def migratedData (c : Session) (d : WorkflowDefinition) (checkpoint : Fields)
    (t : TaskCheckpoint) : CheckpointData :=
  { t.toCheckpointData with
    revision := t.revision + 1, state := c.migratedState d checkpoint t.state }

/-- The scheduler's keys of a task are not touched. -/
lemma migratedState_scheduler (c : Session) (d : WorkflowDefinition) (checkpoint state : Fields) :
    let state' := c.migratedState d checkpoint state
    state'.attemptToken = state.attemptToken ∧ state'.attemptOwner = state.attemptOwner ∧
    state'.attemptNumber = state.attemptNumber ∧
    state'.attemptProcessId = state.attemptProcessId ∧ state'.ownerTaskId = state.ownerTaskId ∧
    state'.waitingOn = state.waitingOn ∧ state'.pendingEffectIds = state.pendingEffectIds ∧
    state'.cancelRequested = state.cancelRequested ∧ state'.operation = state.operation := by
  have hget : ∀ key ∉ migratedKeys,
      (c.migratedState d checkpoint state).get? key = state.get? key := fun _ => get?_migratedState
  simp [Fields.attemptToken, Fields.attemptOwner, Fields.attemptNumber, Fields.attemptProcessId,
    Fields.ownerTaskId, Fields.waitingOn, Fields.pendingEffectIds, Fields.cancelRequested,
    Fields.operation, Fields.strD, Fields.strs, Fields.name?, Fields.truthy, Fields.obj?, hget,
    migratedKeys]

/-- What a migration writes is a checkpoint. -/
lemma postInit_migrated (hdigest : ∀ value, c.digest value ≠ "") (t : TaskCheckpoint) :
    (migratedData c d checkpoint t).postInit = .ok () := by
  have hvalid := t.valid
  simp only [CheckpointData.postInit, except_seq_eq_ok, require_eq_ok] at hvalid
  obtain ⟨hid, hname, hphase, hscheduler, hworkflow, hattempt, hpending⟩ := hvalid
  have hget : ∀ key ∉ migratedKeys,
      (c.migratedState d checkpoint t.state).get? key = t.state.get? key :=
    fun _ => get?_migratedState
  obtain ⟨htoken, howner, hnumber, hprocess, -, -, hids, -⟩ :=
    migratedState_scheduler c d checkpoint t.state
  have h₁ : validateTaskSchedulerState (c.migratedState d checkpoint t.state) = .ok () := by
    rw [← hscheduler]
    simp [validateTaskSchedulerState, hget, migratedKeys]
  have h₂ : validateWorkflowState (c.migratedState d checkpoint t.state) = .ok () := by
    simp only [validateWorkflowState, except_seq_eq_ok, require_eq_ok] at hworkflow ⊢
    obtain ⟨hname, -, hobjects, -⟩ := hworkflow
    refine ⟨?_, ?_, ?_, ?_⟩
    · rwa [hget _ (by simp [migratedKeys])]
    · simpa [Session.migratedState, optionalVersion] using d.valid.2.1
    · have hinput : optionalObject (t.state.get? "workflow_input") = true := by
        simpa using (checkAll_eq_ok.mp hobjects) "workflow_input" (by simp)
      rw [checkAll_eq_ok]
      intro key hkey
      rw [List.mem_cons, List.mem_singleton] at hkey
      rcases hkey with rfl | rfl
      · rw [hget _ (by simp [migratedKeys]), hinput, require_true]
      · simp [Session.migratedState, optionalObject]
    · simp [Session.migratedState, optionalName, Session.workflowDigest, hdigest]
  have h₃ : validateAttempt (c.migratedState d checkpoint t.state) = .ok () := by
    rw [← hattempt]
    unfold validateAttempt
    simp only [htoken, howner, hnumber, hprocess]
    simp [hget, migratedKeys]
  have h₄ : validatePendingEffects t.pendingEffectId (c.migratedState d checkpoint t.state) =
      .ok () := by
    rw [← hpending]
    unfold validatePendingEffects
    simp [hget, hids, migratedKeys]
  simp only [CheckpointData.postInit, migratedData, except_seq_eq_ok, require_eq_ok]
  exact ⟨hid, hname, hphase, h₁, h₂, h₃, h₄⟩

/-- The store accepts the migrated checkpoint of a task that fits, when it accepts its owner. -/
lemma validateTask_migrated {s : SqliteStore} (hs : s.Housed)
    (hnext : next.toCheckpointData = migratedData c d checkpoint t)
    (hrow : s.tasks.get? t.taskId = some t) (hfit : Fit d t)
    (howner : s.validateTaskOwner next = .ok ()) :
    s.validateTask next none (some t.state.attemptToken) = .ok () := by
  obtain ⟨-, row, hsubmission, hconv⟩ := hs t (Table.mem_of_get? hrow)
  have hget : ∀ key ∉ migratedKeys, next.state.get? key = t.state.get? key := by
    rw [hnext]
    exact fun _ => get?_migratedState
  obtain ⟨htoken, hattemptOwner, hnumber, -⟩ :=
    migratedState_scheduler c d checkpoint t.state
  have hfrozen : validFrozenTaskState t.state next.state = true := by
    unfold validFrozenTaskState
    rw [List.all_eq_true]
    intro key hkey
    cases hbefore : t.state.get? key with
    | none => rfl
    | some before =>
      by_cases hcontract : key = "workflow_replay_contract"
      · subst hcontract
        have hsame := hfit.contract
        rw [Fields.replayContract, hbefore, Option.getD_some] at hsame
        rw [hnext, hsame]
        simp [migratedData, Session.migratedState]
      · have hother : key ∉ migratedKeys := by
          simp only [frozenTaskStateKeys, List.mem_cons, List.not_mem_nil, or_false] at hkey
          rcases hkey with rfl | rfl | rfl | rfl | rfl | rfl | rfl | rfl | rfl | rfl | rfl
          all_goals simp [migratedKeys] at hcontract ⊢
        rw [hget key hother, hbefore]
        exact Json.pyEq_refl before
  have hattempt : validExecutionAttempt t.toCheckpointData next.toCheckpointData
      (some t.state.attemptToken) = true := by
    rw [hnext]
    simp [validExecutionAttempt, migratedData, htoken, hattemptOwner, hnumber]
  have hid : next.taskId = t.taskId := by rw [hnext]; rfl
  have hstatus : validTaskStatusTransition (some t.status) t.status = true := by
    cases t.status <;> rfl
  have hphase : validTaskTransition (some t.phase) t.phase = true := by simp [validTaskTransition]
  have hsame : next.submissionId = t.submissionId ∧ next.conversationId = t.conversationId ∧
      next.providerSnapshot = t.providerSnapshot ∧ next.phase = t.phase ∧
      next.status = t.status ∧ next.revision = t.revision + 1 := by
    rw [hnext]
    exact ⟨rfl, rfl, rfl, rfl, rfl, rfl⟩
  obtain ⟨hsub, hconversation, hsnapshot, hphaseEq, hstatusEq, hrevision⟩ := hsame
  have hexisting : SqliteStore.validateExistingTask t next (some t.state.attemptToken) =
      .ok () := by
    simp only [SqliteStore.validateExistingTask, except_seq_eq_ok, require_eq_ok, hattempt,
      hfrozen, hsub, hconversation, hsnapshot, hphaseEq, hstatusEq, hrevision, hstatus, hphase,
      hfit.uncancelled]
    simp
  unfold SqliteStore.validateTask SqliteStore.taskSubmission
  rw [hid, hrow, hsub, hsubmission]
  simp only [except_seq_eq_ok, require_eq_ok, decide_eq_true_eq]
  exact ⟨hconv.trans hconversation.symm, howner, hexisting⟩

end Migrated

/-! ### Runs -/

namespace Session

open Prog (run_bind_eq_ok run_readE_bind_eq_ok run_ofExcept_bind_eq_ok)

variable {c : Session} {d : WorkflowDefinition} {checkpoint : Fields} {t next : TaskCheckpoint}
  {w w' : World} {r : CommitResult} {definitions : Workflows}

lemma waitsOnKnown_iff (hnext : next.toCheckpointData = migratedData c d checkpoint t)
    {s : SqliteStore} : SqliteStore.WaitsOnKnown s.tasks next ↔ WaitsOnStored s t := by
  have hwaits : next.state.waitingOn = t.state.waitingOn := by
    rw [hnext]
    exact (migratedState_scheduler _ _ _ _).2.2.2.2.2.1
  have hid : next.taskId = t.taskId := by rw [hnext]; rfl
  unfold SqliteStore.WaitsOnKnown WaitsOnStored
  rw [hwaits, hid]
  refine forall₂_congr fun id _ => and_congr_right fun hne => ?_
  rw [Table.get?_put, if_neg (by rw [hid]; exact Ne.symm hne)]

/-- A task that fits is migrated, when the store accepts its owner and what it waits for. -/
lemma exists_run_migrateTask (hopen : w.sealed.contains c.ownerId = false)
    (hs : w.store.Housed) (hdigest : ∀ value, c.digest value ≠ "")
    (checkpoint : Fields) (hrow : w.store.tasks.get? t.taskId = some t) (hfit : Fit d t)
    (howner : w.store.validateTaskOwner t = .ok ()) (hwaits : WaitsOnStored w.store t) :
    ∃ r w', (c.migrateTask d checkpoint t).run w = (.ok r, w') := by
  obtain ⟨⟨row, hconv⟩, -⟩ := hs t (Table.mem_of_get? hrow)
  obtain ⟨next, hnext⟩ : ∃ next : TaskCheckpoint,
      next.toCheckpointData = migratedData c d checkpoint t :=
    ⟨⟨_, postInit_migrated hdigest t⟩, rfl⟩
  have hid : next.taskId = t.taskId ∧ next.conversationId = t.conversationId := by
    rw [hnext]
    exact ⟨rfl, rfl⟩
  have howner' : w.store.validateTaskOwner next = .ok () := by
    rw [← howner]
    refine (SqliteStore.SameOwners.refl w.store).validateTaskOwner hid.1 ?_
    rw [hnext]
    exact (migratedState_scheduler _ _ _ _).2.2.2.2.1
  have hcommit : ∃ r w', (c.commitData (checkpointMutation t.conversationId row.revision next none
      t.state.attemptToken)).run w = (.ok r, w') :=
    exists_run_commitData_checkpoint hopen hid.2 (fun _ h => by cases h) hconv rfl
      (validateTask_migrated hs hnext hrow hfit howner') ((waitsOnKnown_iff hnext).mpr hwaits)
      fun _ h => by cases h
  obtain ⟨r, w', hrun⟩ := hcommit
  refine ⟨r, w', ?_⟩
  have hhead : w.store.head t.conversationId = .ok (row.headEntryId, row.revision) := by
    rw [SqliteStore.head, SqliteStore.conversation, hconv]
    rfl
  refine run_readE_bind_eq_ok.mpr ⟨_, hhead, run_ofExcept_bind_eq_ok.mpr ⟨next, ?_, hrun⟩⟩
  exact TaskCheckpoint.make_eq_ok.mpr hnext

/-- What a migration leaves: the same store with the next checkpoint of the task. -/
structure Migrates (c : Session) (d : WorkflowDefinition) (checkpoint : Fields)
    (t next : TaskCheckpoint) (w w' : World) : Prop where
  data : next.toCheckpointData = migratedData c d checkpoint t
  written : w'.store.tasks = w.store.tasks.put next
  committed : ∃ (m : DurableMutation) (r : CommitResult), w.store.commit m = .ok (r, w'.store)
  sealed : w'.sealed = w.sealed
  owner : w.store.validateTaskOwner t = .ok ()
  waits : WaitsOnStored w.store t

lemma run_migrateTask_eq_ok (hopen : w.sealed.contains c.ownerId = false)
    (hrow : w.store.tasks.get? t.taskId = some t)
    (h : (c.migrateTask d checkpoint t).run w = (.ok r, w')) :
    ∃ next, Migrates c d checkpoint t next w w' := by
  obtain ⟨_, -, h⟩ := run_readE_bind_eq_ok.mp h
  obtain ⟨next, hmake, h⟩ := run_ofExcept_bind_eq_ok.mp h
  have hnext : next.toCheckpointData = migratedData c d checkpoint t :=
    TaskCheckpoint.make_eq_ok.mp hmake
  obtain ⟨m, hm, hcommit, hsealed⟩ := run_commitData_checkpoint_eq_ok hopen h
  obtain ⟨htask, hwaits, htasks⟩ := SqliteStore.accepted_of_checkpoint hm hcommit
  have hid : next.taskId = t.taskId := by rw [hnext]; rfl
  obtain ⟨-, howner⟩ := SqliteStore.checked_of_validateTask htask (hid ▸ hrow)
  refine ⟨next, hnext, htasks, ⟨m, r, hcommit⟩, hsealed, ?_,
    (waitsOnKnown_iff hnext).mp hwaits⟩
  rw [← howner]
  refine ((SqliteStore.SameOwners.refl w.store).validateTaskOwner hid ?_).symm
  rw [hnext]
  exact (migratedState_scheduler _ _ _ _).2.2.2.2.1

namespace Migrates

lemma taskId (h : Migrates c d checkpoint t next w w') : next.taskId = t.taskId := by
  rw [h.data]
  rfl

lemma sameOwners (h : Migrates c d checkpoint t next w w')
    (hrow : w.store.tasks.get? t.taskId = some t) : w.store.SameOwners w'.store := by
  refine .of_put h.written (h.taskId ▸ hrow) ?_
  rw [h.data]
  exact (migratedState_scheduler _ _ _ _).2.2.2.2.1

lemma get?_self (h : Migrates c d checkpoint t next w w') :
    w'.store.tasks.get? t.taskId = some next := by
  rw [h.written, ← h.taskId]
  exact Table.get?_put_self _ _

lemma get?_other (h : Migrates c d checkpoint t next w w') {id : String} (hid : id ≠ t.taskId) :
    w'.store.tasks.get? id = w.store.tasks.get? id := by
  rw [h.written]
  exact Table.get?_put_of_ne _ (by rw [h.taskId]; exact Ne.symm hid)

end Migrates

/-- What a loop that returns has done with a task: it has migrated the task when it was due, and
left it otherwise. -/
structure Reconciled (c : Session) (definitions : Workflows) (w w' : World) (t : TaskCheckpoint) :
    Prop where
  due : ∀ d checkpoint, Due definitions t d checkpoint →
    (∃ next : TaskCheckpoint, next.toCheckpointData = migratedData c d checkpoint t ∧
      w'.store.tasks.get? t.taskId = some next) ∧
    w.store.validateTaskOwner t = .ok () ∧ WaitsOnStored w.store t
  kept : (∀ d checkpoint, ¬ Due definitions t d checkpoint) →
    w'.store.tasks.get? t.taskId = some t

lemma run_reconcileEach_eq_ok {ts : List TaskCheckpoint} {changed : List String}
    (hopen : w.sealed.contains c.ownerId = false) (hnodup : (ts.map (·.taskId)).Nodup)
    (hrows : ∀ t ∈ ts, w.store.tasks.get? t.taskId = some t)
    (h : (c.reconcileEach definitions ts).run w = (.ok changed, w')) :
    (∀ id, id ∉ ts.map (·.taskId) → w'.store.tasks.get? id = w.store.tasks.get? id) ∧
      ∀ t ∈ ts, Encodable definitions t ∧ Reconciled c definitions w w' t := by
  induction ts generalizing w changed with
  | nil =>
    obtain ⟨-, rfl⟩ := Prod.mk.inj h
    exact ⟨fun _ _ => rfl, fun t ht => by cases ht⟩
  | cons t ts ih =>
    rw [List.map_cons, List.nodup_cons] at hnodup
    obtain ⟨found, hfound, h⟩ := run_ofExcept_bind_eq_ok.mp h
    cases found with
    | none =>
      obtain ⟨hframe, hrest⟩ := ih hopen hnodup.2 (fun u hu => hrows u (by simp [hu])) h
      refine ⟨fun id hid => hframe id fun hmem => hid (by simp [hmem]), fun u hu => ?_⟩
      rcases List.mem_cons.mp hu with rfl | hu
      · refine ⟨encodable_iff.mpr fun d e he => ?_, fun d checkpoint hdue => ?_, fun _ => ?_⟩
        · rw [he] at hfound
          cases hfound
        · rw [migration_eq_some.mpr hdue] at hfound
          cases hfound
        · rw [hframe _ hnodup.1, hrows u (by simp)]
      · exact hrest u hu
    | some found =>
      obtain ⟨d, found⟩ := found
      cases found with
      | error e => cases h
      | ok checkpoint =>
      simp only [Prog.ofExcept_ok, Prog.bind_eq, Prog.ret_bind] at h
      have hdue := migration_eq_some.mp hfound
      obtain ⟨r, w₁, hrun, h⟩ := run_bind_eq_ok.mp h
      obtain ⟨changed', w₂, hloop, h⟩ := run_bind_eq_ok.mp h
      obtain ⟨-, rfl⟩ := Prod.mk.inj h
      have hrow := hrows t (by simp)
      obtain ⟨next, hm⟩ := run_migrateTask_eq_ok hopen hrow hrun
      have hother : ∀ u ∈ ts, u.taskId ≠ t.taskId := fun u hu heq =>
        hnodup.1 (List.mem_map.mpr ⟨u, hu, heq⟩)
      have howners := hm.sameOwners hrow
      obtain ⟨hframe, hrest⟩ := ih (hm.sealed ▸ hopen) hnodup.2
        (fun u hu => (hm.get?_other (hother u hu)).trans (hrows u (by simp [hu]))) hloop
      refine ⟨fun id hid => ?_, fun u hu => ?_⟩
      · rw [List.map_cons, List.mem_cons, not_or] at hid
        rw [hframe id hid.2, hm.get?_other hid.1]
      · rcases List.mem_cons.mp hu with rfl | hu
        · refine ⟨encodable_iff.mpr fun d' e he => ?_, fun d' checkpoint' hdue' => ?_,
            fun hnone => absurd hdue (hnone d checkpoint)⟩
          · rw [he] at hfound
            cases hfound
          have hsame := hfound.symm.trans (migration_eq_some.mpr hdue')
          obtain ⟨rfl, hcheckpoint⟩ := Prod.mk.inj (Option.some.inj (Except.ok.inj hsame))
          obtain rfl := Except.ok.inj hcheckpoint
          exact ⟨⟨next, hm.data, (hframe _ hnodup.1).trans hm.get?_self⟩, hm.owner, hm.waits⟩
        · obtain ⟨hencodable, hdue', hkept⟩ := hrest u hu
          refine ⟨hencodable, fun d' checkpoint' hd => ?_, hkept⟩
          obtain ⟨hnext, howner, hwaits⟩ := hdue' d' checkpoint' hd
          exact ⟨hnext, (howners.validateTaskOwner rfl rfl).symm.trans howner,
            (WaitsOnStored.congr howners).mp hwaits⟩

lemma exists_run_reconcileEach {ts : List TaskCheckpoint}
    (hopen : w.sealed.contains c.ownerId = false) (hs : w.store.Housed)
    (hdigest : ∀ value, c.digest value ≠ "") (hmild : Mild definitions)
    (hnodup : (ts.map (·.taskId)).Nodup)
    (hrows : ∀ t ∈ ts, w.store.tasks.get? t.taskId = some t)
    (hfit : ∀ t ∈ ts, Encodable definitions t ∧ ∀ d checkpoint, Due definitions t d checkpoint →
      Fit d t ∧ w.store.validateTaskOwner t = .ok () ∧ WaitsOnStored w.store t) :
    ∃ changed w', (c.reconcileEach definitions ts).run w = (.ok changed, w') := by
  induction ts generalizing w with
  | nil => exact ⟨_, _, rfl⟩
  | cons t ts ih =>
    rw [List.map_cons, List.nodup_cons] at hnodup
    obtain ⟨found, hfound⟩ := exists_migration hmild t
    cases found with
    | none =>
      obtain ⟨changed, w', hrun⟩ := ih hopen hs hnodup.2 (fun u hu => hrows u (by simp [hu]))
        fun u hu => hfit u (by simp [hu])
      exact ⟨changed, w', run_ofExcept_bind_eq_ok.mpr ⟨none, hfound, hrun⟩⟩
    | some found =>
      obtain ⟨d, found⟩ := found
      have hrow := hrows t (by simp)
      obtain ⟨hencodable, hfit₀⟩ := hfit t (by simp)
      cases found with
      | error e => exact absurd hfound (encodable_iff.mp hencodable d e)
      | ok checkpoint =>
      obtain ⟨hfits, howner, hwaits⟩ := hfit₀ d checkpoint (migration_eq_some.mp hfound)
      obtain ⟨r, w₁, hrun⟩ := exists_run_migrateTask hopen hs hdigest checkpoint hrow hfits
        howner hwaits
      obtain ⟨next, hm⟩ := run_migrateTask_eq_ok hopen hrow hrun
      have hother : ∀ u ∈ ts, u.taskId ≠ t.taskId := fun u hu heq =>
        hnodup.1 (List.mem_map.mpr ⟨u, hu, heq⟩)
      have howners := hm.sameOwners hrow
      obtain ⟨m, r', hcommit⟩ := hm.committed
      obtain ⟨changed, w', hloop⟩ := ih (hm.sealed ▸ hopen) (hs.commit hcommit) hnodup.2
        (fun u hu => (hm.get?_other (hother u hu)).trans (hrows u (by simp [hu])))
        fun u hu => ⟨(hfit u (by simp [hu])).1, fun d' checkpoint' hdue => by
          obtain ⟨hfits', howner', hwaits'⟩ := (hfit u (by simp [hu])).2 d' checkpoint' hdue
          exact ⟨hfits', (howners.validateTaskOwner rfl rfl).trans howner',
            (WaitsOnStored.congr howners).mpr hwaits'⟩⟩
      refine ⟨t.taskId :: changed, w', run_ofExcept_bind_eq_ok.mpr ⟨_, hfound, ?_⟩⟩
      exact run_ofExcept_bind_eq_ok.mpr ⟨checkpoint, rfl, run_bind_eq_ok.mpr ⟨r, w₁, hrun,
        run_bind_eq_ok.mpr ⟨changed, w', hloop, rfl⟩⟩⟩

/-- `reconcile_workflows` returns, brings every live task that is due under its contract to the
version of its definition and leaves every other task as it was, exactly when every task that is
due is such a task and the store still has its owner and what it waits for, and no migration returns
a mapping that has no JSON text. -/
theorem reconcile_workflows_iff {ok : MutationData → Prop} (hreach : CommitRun ok {} w.store)
    (hopen : w.sealed.contains c.ownerId = false) (hdigest : ∀ value, c.digest value ≠ "")
    (hmild : Mild definitions) :
    (∃ changed w', (c.reconcileWorkflows definitions).run w = (.ok changed, w') ∧
      ∀ t ∈ w.store.tasks.rows,
        (∀ d checkpoint, Due definitions t d checkpoint → Fit d t →
          ∃ next, w'.store.tasks.get? t.taskId = some next ∧
            next.state.workflowVersion = d.version ∧
            next.state.workflowCheckpoint = checkpoint ∧
            next.state.get? "workflow_replay_digest" =
              some (.str (c.workflowDigest d.name d.version t.state.workflowInput checkpoint))) ∧
        ((∀ d checkpoint, Due definitions t d checkpoint → ¬ Fit d t) →
          w'.store.tasks.get? t.taskId = some t)) ↔
    ∀ t ∈ w.store.tasks.rows, Encodable definitions t ∧
      ∀ d checkpoint, Due definitions t d checkpoint →
        Fit d t ∧ w.store.validateTaskOwner t = .ok () ∧ WaitsOnStored w.store t := by
  have hrows : ∀ t ∈ w.store.tasks.rows, w.store.tasks.get? t.taskId = some t :=
    fun t ht => Table.mem_rows_iff.mp ht
  have hnodup : (w.store.tasks.rows.map (·.taskId)).Nodup := w.store.tasks.nodup
  have hstart : (c.reconcileWorkflows definitions).run w =
      (c.reconcileEach definitions w.store.tasks.rows).run w := by
    unfold reconcileWorkflows
    rw [Prog.bind_eq, Prog.run_bind_ok (run_ensureUsable hopen), Prog.bind_eq,
      Prog.run_bind_ok (run_look _ w)]
  constructor
  · rintro ⟨changed, w', hrun, hall⟩ t ht
    obtain ⟨-, hdone⟩ := run_reconcileEach_eq_ok hopen hnodup hrows (hstart ▸ hrun)
    refine ⟨(hdone t ht).1, fun d checkpoint hdue => ?_⟩
    obtain ⟨⟨next, hnext, hget⟩, howner, hwaits⟩ := (hdone t ht).2.due d checkpoint hdue
    refine ⟨?_, howner, hwaits⟩
    by_contra hfit
    have hsame := (hall t ht).2 fun d' checkpoint' hdue' => by
      have heq := (migration_eq_some.mpr hdue).symm.trans (migration_eq_some.mpr hdue')
      obtain ⟨rfl, -⟩ := Prod.mk.inj (Option.some.inj (Except.ok.inj heq))
      exact hfit
    -- a migrated checkpoint has another revision
    rw [hget] at hsame
    have hrevision := congrArg CheckpointData.revision hnext
    rw [Option.some.inj hsame, migratedData] at hrevision
    simp at hrevision
  · intro hfit
    obtain ⟨changed, w', hrun⟩ := exists_run_reconcileEach hopen hreach.housed hdigest hmild hnodup
      hrows hfit
    obtain ⟨-, hdone⟩ := run_reconcileEach_eq_ok hopen hnodup hrows hrun
    refine ⟨changed, w', hstart.trans hrun, fun t ht => ?_⟩
    refine ⟨fun d checkpoint hdue _ => ?_, fun hno => ?_⟩
    · obtain ⟨⟨next, hnext, hget⟩, -⟩ := (hdone t ht).2.due d checkpoint hdue
      refine ⟨next, hget, ?_, ?_, ?_⟩
      all_goals rw [hnext]
      · simp [migratedData, migratedState, Fields.workflowVersion, d.valid.2.1]
      · simp [migratedData, migratedState, Fields.workflowCheckpoint, Fields.obj?]
      · simp [migratedData, migratedState]
    · exact (hdone t ht).2.kept fun d checkpoint hdue =>
        hno d checkpoint hdue ((hfit t ht).2 d _ hdue).1

/-! ### Samples -/

lemma commitRun_admitInput {s₀ : SqliteStore} (a : Admission)
    (h : CommitRun (fun _ => True) s₀ w.store) :
    CommitRun (fun _ => True) s₀ ((c.admitInput a).run w).2.store := by
  have hguards : Prog.Guards Eq (Commits (Site (Terms.unnamed []))) (w = ·) (c.admitInput a)
      fun _ _ => True :=
    guards_admitInput (Terms.unnamed_aloneFrame []) fun _ hkey => by cases hkey
  refine hguards.preserves (I := fun w : World => CommitRun (fun _ => True) s₀ w.store)
    (fun _ => rfl) ?_ rfl h
  rintro w₁ w₂ hw₁ (heq | ⟨m, r, hcommit, -⟩)
  · rwa [heq]
  · exact hw₁.tail hcommit trivial

end Session

def counterTask : Admission :=
  { plainInput "run" none with
    workflow := some { name := "counter", checkpoint := [("count", .int 1)] } }

def counterWorld : World := ((firstSession.admitInput counterTask).run { store := {} }).2

lemma counter_valid {contract : String} (h : contract ≠ "") :
    "counter" ≠ "" ∧ (1 : Int) ≤ 2 ∧ contract ≠ "" := ⟨by decide, by decide, h⟩

/-- The second version of the workflow, under a replay contract. -/
def counterDefinition (contract : String) (h : contract ≠ "") : WorkflowDefinition where
  name := "counter"
  version := 2
  migrate := some fun checkpoint => .ok (.mapping (checkpoint.merge [("step", .int 1)]))
  replayContract := contract
  valid := counter_valid h

def counterDefinitions (contract : String) (h : contract ≠ "") : Workflows := fun name =>
  if name = "counter" then some (counterDefinition contract h) else none

lemma counterDefinitions_eq_some {contract name : String} {h : contract ≠ ""}
    {d : WorkflowDefinition} (hd : counterDefinitions contract h name = some d) :
    d = counterDefinition contract h := by
  unfold counterDefinitions at hd
  split_ifs at hd
  exact (Option.some.inj hd).symm

lemma counterDefinitions_mild {contract : String} (h : contract ≠ "") :
    Mild (counterDefinitions contract h) := by
  intro name d migrate hd hmigrate checkpoint e herror
  obtain rfl := counterDefinitions_eq_some hd
  obtain rfl := Option.some.inj hmigrate
  cases herror

lemma defaultContract_ne : "deterministic-v1" ≠ "" := by decide

lemma otherContract_ne : "deterministic-v2" ≠ "" := by decide

lemma counterWorld_reachable : CommitRun (fun _ => True) {} counterWorld.store :=
  Session.commitRun_admitInput counterTask .refl

theorem reconcile_workflows_iff_counter : ∃ changed w' next,
    (firstSession.reconcileWorkflows (counterDefinitions "deterministic-v1" defaultContract_ne)).run
      counterWorld = (.ok changed, w') ∧
    w'.store.tasks.get? "run" = some next ∧ next.state.workflowVersion = 2 := by
  have hrows : counterWorld.store.tasks.rows.map (·.taskId) = ["run"] ∧
      ∀ t ∈ counterWorld.store.tasks.rows, t.state.workflowName = some "counter" ∧
        t.state.workflowVersion = 1 ∧ t.state.replayContract = .str "deterministic-v1" ∧
        t.state.cancelRequested = false ∧ t.status.terminal = false ∧
        counterWorld.store.validateTaskOwner t = .ok () ∧ t.state.waitingOn = [] := by
    decide +kernel
  obtain ⟨hids, hfacts⟩ := hrows
  obtain ⟨t, rest, hstored, hid, -⟩ := List.map_eq_cons_iff.mp hids
  have ht : t ∈ counterWorld.store.tasks.rows := by simp [hstored]
  have hdigest : ∀ value, firstSession.digest value ≠ "" := fun _ => by
    change "digest" ≠ ""
    decide
  obtain ⟨changed, w', hrun, hall⟩ := (Session.reconcile_workflows_iff counterWorld_reachable rfl
    hdigest (counterDefinitions_mild defaultContract_ne)).mpr fun t ht => by
      obtain ⟨-, hversion, hcontract, hcancel, hlive, howner, hwaits⟩ := hfacts t ht
      refine ⟨fun name d e _ hd _ herror => ?_, fun d checkpoint hdue => ?_⟩
      · obtain rfl := counterDefinitions_eq_some hd
        rw [hversion] at herror
        cases herror
      obtain ⟨name, -, hd⟩ := hdue.defined
      obtain rfl := counterDefinitions_eq_some hd
      refine ⟨⟨hcontract, hcancel, hlive⟩, howner, fun id hmem => ?_⟩
      rw [hwaits] at hmem
      cases hmem
  obtain ⟨hname, hversion, hcontract, hcancel, hlive, -⟩ := hfacts t ht
  have hdue : Due (counterDefinitions "deterministic-v1" defaultContract_ne) t
      (counterDefinition "deterministic-v1" defaultContract_ne)
      (t.state.workflowCheckpoint.merge [("step", .int 1)]) := by
    refine ⟨⟨"counter", hname, rfl⟩, ?_, ?_⟩
    · rw [hversion]
      decide
    · rw [hversion]
      rfl
  obtain ⟨next, hnext, hnew, -⟩ := (hall t ht).1 _ _ hdue ⟨hcontract, hcancel, hlive⟩
  exact ⟨changed, w', next, hrun, hid ▸ hnext, hnew⟩

/-- A definition under another replay contract than the one that a task was admitted under stops
the loop. -/
theorem reconcile_workflows_raises : ¬ ∀ (c : Session) (w : World) (definitions : Workflows),
    CommitRun (fun _ => True) {} w.store → w.sealed.contains c.ownerId = false →
      Mild definitions →
      ∃ changed w', (c.reconcileWorkflows definitions).run w = (.ok changed, w') := by
  intro h
  have herror : ((firstSession.reconcileWorkflows (counterDefinitions "deterministic-v2"
      otherContract_ne)).run counterWorld).1 =
        .error (.commitConflict "admitted task state is immutable") := by
    decide +kernel
  obtain ⟨changed, w', hrun⟩ := h firstSession counterWorld _ counterWorld_reachable rfl
    (counterDefinitions_mild otherContract_ne)
  rw [hrun] at herror
  cases herror

end Codey
