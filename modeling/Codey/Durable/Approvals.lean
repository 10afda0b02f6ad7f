import Codey.Durable.EffectLedger

/-!
# Approvals

An approval is a record in the checkpoint of its task. A call on it commits the record's next
revision, and the claim of an approval commits the shell effect along with it.
-/

namespace Codey

open Prog (Stable Guards guards_bind guards_seq guards_ofExcept)

/-! ### Records -/

def approvalAt (s : SqliteStore) (taskId approvalId : String) : Option ApprovalRecord :=
  ((s.tasks.get? taskId).bind (SqliteStore.approvalPayload approvalId)).bind fun payload =>
    (ApprovalRecord.fromPayload payload).toOption

def ApprovalRecord.command (a : ApprovalRecord) : String × String × String × String × String :=
  (a.taskId, a.conversationId, a.commandDigest, a.commandRef, a.cwd)

/-- How a record may be replaced. -/
inductive ApprovalStep : Option ApprovalRecord → Option ApprovalRecord → Prop where
  | keep (a : Option ApprovalRecord) : ApprovalStep a a
  | create (a : ApprovalRecord) : a.status = .requested → a.revision = 0 →
      ApprovalStep none (some a)
  | move (a b : ApprovalRecord) :
      b.status = a.status ∨ validApprovalTransition (some a.status) b.status = true →
      b.revision = a.revision + 1 → b.command = a.command → ApprovalStep (some a) (some b)

variable {existing : Option ApprovalRecord}

/-- The compare-and-set of an approval admits the steps of a record. -/
lemma approvalStep_of_validate {approval : ApprovalRecord} {expected : Option ApprovalStatus}
    (h : validateApprovalStep existing approval expected = .ok ()) :
    ApprovalStep existing (some approval) := by
  cases existing with
  | none =>
    simp only [validateApprovalStep, except_seq_eq_ok, require_eq_ok, Bool.and_eq_true,
      decide_eq_true_eq] at h
    exact .create approval h.1.2 h.1.1
  | some before =>
    simp only [validateApprovalStep, except_seq_eq_ok, require_eq_ok, Bool.and_eq_true,
      Bool.or_eq_true, decide_eq_true_eq, and_assoc] at h
    obtain ⟨-, hrevision, hstatus, htask, hconversation, hdigest, href, hcwd⟩ := h
    refine .move before approval (hstatus.imp Eq.symm id) hrevision ?_
    simp only [ApprovalRecord.command, htask, hconversation, hdigest, href, hcwd]

/-- Only an approved command is claimed for execution. -/
lemma approved_of_validate {approval : ApprovalRecord} {expected : ApprovalStatus}
    (hclaimed : approval.status = .executionClaimed) (hexpected : expected ≠ .executionClaimed)
    (h : validateApprovalStep existing approval (some expected) = .ok ()) :
    ∃ before, existing = some before ∧ before.status = .approved := by
  cases existing with
  | none => simp [validateApprovalStep, except_seq_eq_ok, hclaimed] at h
  | some before =>
    simp only [validateApprovalStep, except_seq_eq_ok, require_eq_ok, Bool.or_eq_true,
      decide_eq_true_eq, Option.some.injEq] at h
    obtain ⟨hstatus, -, htransition, -⟩ := h
    refine ⟨before, rfl, ?_⟩
    rw [hclaimed, ← hstatus] at htransition
    have htransition := htransition.resolve_left hexpected
    cases expected <;> simp [validApprovalTransition, approvalStatusTransitions] at htransition
    exact hstatus.symm

/-! ### Calls -/

/-- A call on an approval, or the commit that another operation ends in. -/
inductive ApprovalCall where
  | create (c : Session) (approval : ApprovalRecord)
  | transition (c : Session) (approvalId : String) (approval : ApprovalRecord)
      (expectedStatus : ApprovalStatus) (task : Option TaskCheckpoint)
  | claim (c : Session) (approvalId : String) (effect : EffectRecord)
      (expectedStatus : ApprovalStatus)
  | settle (c : Session) (approvalId : String) (settlement : Fields) (resume : Bool)
      (entries : List EntryDraft)
  | commit (c : Session) (m : DurableMutation)

namespace ApprovalCall

/-- The program of a call. -/
def prog : ApprovalCall → Op Unit
  | create c approval => do let _ ← c.createApproval approval
  | transition c approvalId approval expectedStatus task => do
    let _ ← c.transitionApproval approvalId approval expectedStatus task
  | claim c approvalId effect expectedStatus => do
    let _ ← c.claimApprovalAndBeginEffect approvalId effect expectedStatus
  | settle c approvalId settlement resume entries => do
    let _ ← c.settleApproval approvalId settlement resume entries
  | commit c m => do let _ ← c.commit m

/-- What is asked of a call: a checkpoint that a transition brings along revises the task of the
approval as it was stored, and the commits of other operations leave the approvals of a task
alone. -/
def Proper (s : SqliteStore) : ApprovalCall → Prop
  | transition _ _ approval _ task => ∀ t, task = some t → t.taskId = approval.taskId ∧
      ∃ row, s.tasks.get? t.taskId = some row ∧ t.revision ≤ row.revision + 1
  | commit _ m => m.approval = none ∧ m.deleteConversation = false ∧ ∀ t ∈ m.allTasks,
      match s.tasks.get? t.taskId with
      | some row => t.revision = row.revision + 1 →
        t.state.get? "approvals" = row.state.get? "approvals"
      | none => t.state.get? "approvals" = none
  | _ => True

end ApprovalCall

/-! ### The commits of the calls -/

/-- A mutation that folds the next revision of an approval into the checkpoint of its task. -/
structure Folds (s : SqliteStore) (m : MutationData) (approval : ApprovalRecord)
    (expected : Option ApprovalStatus) : Prop where
  fold : ∃ s₀ current next approvals existing, Evolves s₀ s ∧
    s₀.tasks.get? approval.taskId = some current ∧ m.task = some next ∧
    next.taskId = approval.taskId ∧ next.revision ≤ current.revision + 1 ∧
    approvalsOf current.state = .ok approvals ∧
    existingApproval approvals approval.approvalId = .ok existing ∧
    validateApprovalStep existing approval expected = .ok () ∧
    next.state.get? "approvals" = some (.obj (approvals.set approval.approvalId
      (.obj (ApprovalRecord.toPayload approval.toApprovalData))))
  updates : m.taskUpdates = []
  kept : m.deleteConversation = false
  effect : m.effect = none

/-- The mutations that a call commits. -/
def ApprovalCall.Site (call : ApprovalCall) (s : SqliteStore) (m : MutationData) : Prop :=
  match call with
  | .claim _ _ effect expectedStatus => ∃ approval,
      Folds s m approval (some expectedStatus) ∧ m.effects = [effect] ∧
      approval.taskId = effect.taskId ∧ approval.status = .executionClaimed ∧
      expectedStatus ≠ .executionClaimed
  | .commit _ m' => SameRows m'.toMutationData m
  | _ => ∃ approval expected, Folds s m approval expected ∧ m.effects = []

lemma ApprovalCall.site_unfenced (call : ApprovalCall) : Unfenced call.Site := by
  intro s m token h
  have hfolds : ∀ {approval expected}, Folds s m approval expected →
      Folds s { m with expectedAttemptToken := some token } approval expected :=
    fun ⟨hfold, hupdates, hkept, heffect⟩ => ⟨hfold, hupdates, hkept, heffect⟩
  cases call with
  | claim c id effect expected =>
    obtain ⟨approval, h, rest⟩ := h
    exact ⟨approval, hfolds h, rest⟩
  | commit c m' => exact ⟨h.task, h.updates, h.effects, h.kept⟩
  | _ =>
    obtain ⟨approval, expected, h, rest⟩ := h
    exact ⟨approval, expected, hfolds h, rest⟩

/-! ### What a commit does to a record -/

lemma approvalPayload_congr {t t' : TaskCheckpoint} (id : String)
    (h : t'.state.get? "approvals" = t.state.get? "approvals") :
    SqliteStore.approvalPayload id t' = SqliteStore.approvalPayload id t := by
  simp only [SqliteStore.approvalPayload, Fields.obj?, h]

lemma approvalPayload_eq {t : TaskCheckpoint} {approvals : Fields} (id : String)
    (h : approvalsOf t.state = .ok approvals) :
    SqliteStore.approvalPayload id t = approvals.obj? id := by
  unfold approvalsOf at h
  split at h <;> rename_i hget
  · obtain rfl := Except.ok.inj h
    simp [SqliteStore.approvalPayload, Fields.obj?, hget]
  · obtain rfl := Except.ok.inj h
    simp [SqliteStore.approvalPayload, Fields.obj?, hget]
  · cases h

variable {taskId id : String}

/-- The record that the compare-and-set reads is the stored one. -/
lemma approvalAt_eq_existing {s : SqliteStore} {t : TaskCheckpoint} {approvals : Fields}
    (hrow : s.tasks.get? taskId = some t) (happrovals : approvalsOf t.state = .ok approvals)
    (hexisting : existingApproval approvals id = .ok existing) :
    approvalAt s taskId id = existing := by
  unfold approvalAt
  rw [hrow, Option.bind_some, approvalPayload_eq id happrovals]
  unfold existingApproval at hexisting
  split at hexisting <;> rename_i hget
  · obtain rfl := Except.ok.inj hexisting
    rw [hget, Option.bind_none]
  · obtain ⟨a, ha, rfl⟩ := except_last_eq_ok.mp hexisting
    rw [hget, Option.bind_some, ha]
    rfl

section Accepted

variable {s s' : SqliteStore} {m : DurableMutation}

/-- The commit of a folded approval writes that record, next to the others as they were. -/
lemma Folds.written {approval : ApprovalRecord} {expected : Option ApprovalStatus}
    (h : Folds s m.toMutationData approval expected) (haccepted : SqliteStore.Accepted s m s') :
    validateApprovalStep (approvalAt s approval.taskId approval.approvalId) approval expected =
      .ok () ∧
    ∀ taskId id, approvalAt s' taskId id =
      if approval.taskId = taskId ∧ approval.approvalId = id then some approval
      else approvalAt s taskId id := by
  obtain ⟨s₀, current, next, approvals, existing, hevolves, hcurrent, htask, hid, hbehind,
    happrovals, hexisting, hvalid, hget⟩ := h.fold
  have hmem : next ∈ m.allTasks := by simp [MutationData.allTasks, htask]
  have hrow : s.tasks.get? approval.taskId = some current := by
    obtain ⟨row, hrow, hle, heq⟩ := hevolves _ _ hcurrent
    have hchecked := (SqliteStore.checked_of_validateTask (haccepted.task next htask)
      (by rw [hid, hrow])).1
    have hrevision := hchecked.revision
    rw [heq (by omega)] at hrow
    exact hrow
  have hbefore := approvalAt_eq_existing hrow happrovals hexisting
  refine ⟨by rw [hbefore, hvalid], fun taskId id => ?_⟩
  rcases haccepted.get?_tasks taskId with ⟨t, ht, rfl, hafter⟩ | ⟨hne, hafter⟩
  · -- The only checkpoint of the mutation is that of the approval's task.
    have hnext : t = next := by
      simp only [MutationData.allTasks, htask, h.updates, List.append_nil,
        Option.mem_toList] at ht
      exact (Option.some.inj ht).symm
    subst hnext
    rw [hid] at hafter ⊢
    have hpayload : SqliteStore.approvalPayload id t =
        (approvals.set approval.approvalId
          (.obj (ApprovalRecord.toPayload approval.toApprovalData))).obj? id := by
      simp [SqliteStore.approvalPayload, Fields.obj?, hget]
    unfold approvalAt
    rw [hafter, Option.bind_some, hpayload]
    by_cases hsame : approval.approvalId = id
    · simp [Fields.obj?, hsame, ApprovalRecord.fromPayload_toPayload, Except.toOption]
    · rw [if_neg (fun h => hsame h.2), hrow, Option.bind_some, approvalPayload_eq id happrovals]
      simp [Fields.obj?, hsame]
  · have hother : approval.taskId ≠ taskId := fun heq => hne next hmem (hid.trans heq)
    rw [if_neg fun h => hother h.1]
    unfold approvalAt
    rw [hafter]

/-- The commit of another operation leaves every record as it was. -/
lemma approvalAt_otherCommit {m' : DurableMutation} {c : Session}
    (hproper : (ApprovalCall.commit c m').Proper s)
    (hrows : SameRows m'.toMutationData m.toMutationData)
    (haccepted : SqliteStore.Accepted s m s') (taskId id : String) :
    approvalAt s' taskId id = approvalAt s taskId id := by
  unfold approvalAt
  rcases haccepted.get?_tasks taskId with ⟨t, ht, rfl, hafter⟩ | ⟨-, hafter⟩
  · have hkeeps := hproper.2.2 t (by
      simpa only [MutationData.allTasks, hrows.task, hrows.updates] using ht)
    rw [hafter]
    cases hrow : s.tasks.get? t.taskId with
    | none =>
      rw [hrow] at hkeeps
      simp [SqliteStore.approvalPayload, Fields.obj?, hkeeps]
    | some row =>
      rw [hrow] at hkeeps
      have hrevision : t.revision = row.revision + 1 := by
        rcases haccepted.validated ht with ⟨-, h⟩ | ⟨-, h⟩ <;>
          exact (SqliteStore.checked_of_validateTask h hrow).1.revision
      rw [Option.bind_some, Option.bind_some, approvalPayload_congr id (hkeeps hrevision)]
  · rw [hafter]

end Accepted

/-! ### The calls commit at their sites -/

section Guards

variable {K : World → Prop} {c : Session} {S : SqliteStore → MutationData → Prop}

lemma approvalFrame : Frame Others (Terms.unnamed []) := (Terms.unnamed_shared []).frame

/-- A mutation with an approval is committed with the approval folded in. -/
lemma guards_commitFold (hK : Stable Others K) (hS : Unfenced S) {m : MutationData}
    {approval : ApprovalRecord} (happroval : m.approval = some approval)
    (hupdates : m.taskUpdates = []) (hkept : m.deleteConversation = false)
    (heffect : m.effect = none)
    (htask : ∀ t, m.task = some t → t.taskId = approval.taskId ∧ ∀ w, K w → ∃ row,
      w.store.tasks.get? t.taskId = some row ∧ t.revision ≤ row.revision + 1)
    (h : ∀ s m', Folds s m' approval m.expectedApprovalStatus → m'.effects = m.effects →
      S s m') : Guards Others (Commits S) K (c.commitData m) fun _ _ => True := by
  refine guards_bind (guards_ofExcept fun m₁ hm₁ => ?_)
  have hm₁ := DurableMutation.make_eq_ok.mp hm₁
  refine Session.guards_commit_approval approvalFrame hS hK (by rw [hm₁, happroval])
    fun w current m' hw hcurrent hseen hm' w' hw' => ?_
  obtain ⟨fold⟩ := materializeApproval_eq_ok hm'
  have hnext := fold.next_eq
  have hm'_eq := fold.m'_eq
  have hid : current.taskId = approval.taskId := Table.key_of_get? (t := w.store.tasks) hcurrent
  rw [hm₁] at hnext hm'_eq
  obtain ⟨s₀, hs₀, hrow⟩ := hseen w' hw'
  refine h _ _ ⟨⟨s₀, current, fold.next, fold.approvals, fold.existing, hs₀, hid ▸ hrow,
    by rw [hm'_eq], ?_, ?_, fold.approvals_eq, fold.existing_eq, by simpa [hm₁] using fold.valid,
    ?_⟩, by rw [hm'_eq, hupdates], by rw [hm'_eq, hkept], by rw [hm'_eq, heffect]⟩ (by rw [hm'_eq])
  · cases hmtask : m.task with
    | none => rw [hnext, hmtask]; exact hid
    | some t => rw [hnext, hmtask]; exact (htask t hmtask).1
  · cases hmtask : m.task with
    | none => simp [hnext, hmtask]
    | some t =>
      obtain ⟨htid, hbehind⟩ := htask t hmtask
      obtain ⟨row, hrow', hle⟩ := hbehind w hw
      rw [htid, hcurrent] at hrow'
      obtain rfl := Option.some.inj hrow'
      simpa [hnext, hmtask] using hle
  · cases hmtask : m.task <;> simp [hnext, hmtask, withApproval]

lemma SeenRow.behind {T : Terms} (hT : T.since = Evolves) {base : TaskCheckpoint}
    (h : SeenRow T K base) {w : World} (hw : K w) {next : TaskCheckpoint}
    (hid : next.taskId = base.taskId) (hnext : next.revision = base.revision + 1) :
    ∃ row, w.store.tasks.get? next.taskId = some row ∧ next.revision ≤ row.revision + 1 := by
  obtain ⟨s, hs, hbase⟩ := h w hw
  rw [hT] at hs
  obtain ⟨row, hrow, hle, -⟩ := hs _ _ hbase
  exact ⟨row, by rw [hid, hrow], by omega⟩

lemma guards_claim {approvalId : String} {effect : EffectRecord} {expected : ApprovalStatus} :
    Guards Others (Commits (ApprovalCall.claim c approvalId effect expected).Site) K
      (c.claimApprovalAndBeginEffect approvalId effect expected) fun _ _ => True := by
  refine guards_bind (Session.guards_ensureUsable fun w _ => ?_)
  refine guards_bind (Session.guards_view fun w₁ approval _ _ => ?_)
  refine guards_bind (Session.guards_task approvalFrame fun w₂ current _ _ hid hseen => ?_)
  refine guards_bind (Session.guards_ensure fun heffect => ?_)
  refine guards_bind (Session.guards_ensure fun _ => ?_)
  split
  · refine guards_bind (Session.guards_view fun w₃ existing _ _ => ?_)
    exact guards_bind (Session.guards_ensure fun _ => trivial)
  rename_i hunclaimed
  refine guards_bind (Session.guards_ensure fun hexpected => ?_)
  refine guards_bind (guards_ofExcept fun next hnext => ?_)
  refine guards_bind (guards_ofExcept fun claimed hclaimed => ?_)
  refine guards_bind (Session.guards_view fun w₃ _ hw₃ _ => ?_)
  refine guards_seq ?_ fun _ _ => trivial
  have hclaimed := ApprovalRecord.make_eq_ok.mp hclaimed
  have hframe := withEffectIntents_frame hnext
  simp only [decide_eq_true_eq] at heffect hexpected
  refine guards_commitFold (approvalFrame.stable w₃) (ApprovalCall.site_unfenced _) rfl rfl rfl rfl
    ?_ ?_
  · intro t ht
    obtain rfl := Option.some.inj ht
    refine ⟨by rw [hframe, hclaimed]; exact hid, fun w' hw' => ?_⟩
    exact hseen.behind rfl (approvalFrame.trans _ _ _ hw₃ hw') (by rw [hframe]) (by rw [hframe])
  · intro s m' hfolds heffects
    exact ⟨claimed, hfolds, heffects, by rw [hclaimed, heffect]; exact hid.symm,
      by rw [hclaimed], hexpected ▸ hunclaimed⟩

lemma guards_settle {approvalId : String} {settlement : Fields} {resume : Bool}
    {entries : List EntryDraft} :
    Guards Others
      (Commits (ApprovalCall.settle c approvalId settlement resume entries).Site) K
      (c.settleApproval approvalId settlement resume entries) fun _ _ => True := by
  refine guards_bind (Session.guards_ensureUsable fun w _ => ?_)
  refine guards_bind (Session.guards_view fun w₁ approval _ _ => ?_)
  refine guards_bind (Session.guards_task approvalFrame fun w₂ current _ _ hid hseen => ?_)
  split
  · exact trivial
  refine guards_bind (Session.guards_approvalOutcome (approvalFrame.stable w₂)
    (fun _ _ _ => trivial) ?_ approvalFrame)
  intro K' outcome hsub hstable houtcome
  refine guards_bind (guards_ofExcept fun next hnext => ?_)
  have hnext := TaskCheckpoint.make_eq_ok.mp hnext
  refine guards_bind (guards_ofExcept fun updated hupdated => ?_)
  have hupdated := ApprovalRecord.make_eq_ok.mp hupdated
  refine guards_bind (Session.guards_view fun w₃ _ hw₃ _ => ?_)
  refine guards_seq ?_ fun _ _ => trivial
  have hdata : next.taskId = current.taskId ∧ next.revision = current.revision + 1 := by
    have houtcome : outcome.next.taskId = current.taskId ∧
        outcome.next.revision = current.revision + 1 := by
      rcases houtcome with ⟨-, h⟩ | ⟨e, next', -, hnext', h⟩
      · simp [h]
      · rw [h, withEffectSettlement_frame hnext']
        exact ⟨rfl, rfl⟩
    rw [hnext]
    split
    · exact houtcome
    · exact houtcome
  refine guards_commitFold (approvalFrame.stable w₃) (ApprovalCall.site_unfenced _) rfl rfl rfl rfl
    ?_ fun s m' hfolds heffects => ⟨updated, _, hfolds, heffects⟩
  intro t ht
  obtain rfl := Option.some.inj ht
  refine ⟨by rw [hdata.1, hupdated]; exact hid, fun w' hw' => ?_⟩
  exact hseen.behind rfl (hsub _ (hstable _ _ hw₃ hw')) hdata.1 hdata.2

/-- Every call commits at its sites. -/
theorem ApprovalCall.guards (call : ApprovalCall) (w : World) (h : call.Proper w.store) :
    Guards Others (Commits call.Site) (Others w) call.prog fun _ _ => True := by
  cases call with
  | create c approval =>
    refine guards_seq ?_ fun _ _ => trivial
    refine guards_bind (Session.guards_ensureUsable fun w₁ _ => ?_)
    refine guards_bind (Session.guards_view fun w₂ _ _ _ => ?_)
    exact guards_commitFold (approvalFrame.stable w₂) (site_unfenced _) rfl rfl rfl rfl (by simp)
      fun s m' hfolds heffects => ⟨approval, _, hfolds, heffects⟩
  | transition c approvalId approval expected task =>
    refine guards_seq ?_ fun _ _ => trivial
    refine guards_bind (Session.guards_ensureUsable fun w₁ hw₁ => ?_)
    refine guards_bind (Session.guards_ensure fun _ => ?_)
    refine guards_bind (Session.guards_view fun w₂ _ hw₂ _ => ?_)
    refine guards_commitFold (approvalFrame.stable w₂) (site_unfenced _) rfl rfl rfl rfl ?_
      fun s m' hfolds heffects => ⟨approval, _, hfolds, heffects⟩
    intro t ht
    obtain ⟨hid, row, hrow, hle⟩ := h t ht
    refine ⟨hid, fun w' hw' => ?_⟩
    obtain ⟨row', hrow', hrevision, -⟩ :=
      approvalFrame.trans _ _ _ hw₁ (approvalFrame.trans _ _ _ hw₂ hw') _ _ hrow
    exact ⟨row', hrow', by omega⟩
  | claim => exact guards_seq guards_claim fun _ _ => trivial
  | settle => exact guards_seq guards_settle fun _ _ => trivial
  | commit c m =>
    exact (guards_otherCommit approvalFrame c h.1 w).guarantee
      fun _ _ h => h.mono fun _ _ hsite => hsite.2

end Guards

/-! ### What a step does -/

def approvalStatus (s : SqliteStore) (taskId id : String) : Option ApprovalStatus :=
  (approvalAt s taskId id).map (·.status)

def Claims (taskId id : String) (s s' : SqliteStore) : Bool :=
  approvalStatus s taskId id ≠ some .executionClaimed
    && approvalStatus s' taskId id = some .executionClaimed

lemma claims_eq_false {s s' : SqliteStore} (h : approvalAt s' taskId id = approvalAt s taskId id) :
    Claims taskId id s s' = false := by
  unfold Claims approvalStatus
  rw [h]
  by_cases hstatus : (approvalAt s taskId id).map (·.status) = some .executionClaimed <;>
    simp [hstatus]

def pastClaim (a : Option ApprovalRecord) : Bool :=
  a.any fun a => a.status = .executionClaimed || a.status = .executionSettled

/-- A command that is not executed. -/
def ApprovalStatus.refused : ApprovalStatus → Bool
  | .denied | .expired | .cancelled => true
  | _ => false

lemma ApprovalStep.pastClaim {a b : Option ApprovalRecord} (h : ApprovalStep a b)
    (ha : pastClaim a = true) : pastClaim b = true := by
  cases h with
  | keep => exact ha
  | create => cases ha
  | move a b hstatus _ _ =>
    simp only [Codey.pastClaim, Option.any_some, Bool.or_eq_true, decide_eq_true_eq] at ha ⊢
    rcases hstatus with hstatus | hstatus
    · rwa [hstatus]
    · rcases ha with ha | ha <;>
        simp [ha, validApprovalTransition, approvalStatusTransitions] at hstatus
      exact Or.inr hstatus

/-- A record is moved to its claim from the approval of the command. -/
lemma ApprovalStep.approved {a b : Option ApprovalRecord} (h : ApprovalStep a b)
    (ha : a.map (·.status) ≠ some .executionClaimed)
    (hb : b.map (·.status) = some .executionClaimed) : a.map (·.status) = some .approved := by
  cases h with
  | keep => exact absurd hb ha
  | create a hstatus _ => simp [hstatus] at hb
  | move a b hstatus _ _ =>
    simp only [Option.map_some, ne_eq, Option.some.injEq] at ha hb ⊢
    rcases hstatus with hstatus | hstatus
    · exact absurd (hstatus.symm.trans hb) ha
    · rw [hb] at hstatus
      cases hstatus' : a.status <;>
        simp [hstatus', validApprovalTransition, approvalStatusTransitions] at hstatus ⊢

lemma ApprovalStep.refused {a : ApprovalRecord} {b : Option ApprovalRecord}
    (h : ApprovalStep (some a) b) (ha : a.status.refused = true) :
    b.map (·.status) = some a.status := by
  cases h with
  | keep => rfl
  | move _ b hstatus _ _ =>
    rcases hstatus with hstatus | hstatus
    · rw [Option.map_some, hstatus]
    · cases hstatus' : a.status <;>
        simp [hstatus', ApprovalStatus.refused, validApprovalTransition,
          approvalStatusTransitions] at ha hstatus

/-- What one step of a call does to records and effects. -/
structure ApprovalCall.Outcome (call : ApprovalCall) (s s' : SqliteStore) : Prop where
  record : ∀ taskId id, ApprovalStep (approvalAt s taskId id) (approvalAt s' taskId id)
  claimed : ∀ taskId id, Claims taskId id s s' = true → ∀ c approvalId f expected,
    call = .claim c approvalId f expected → f.taskId = taskId ∧
      s.effects.get? f.effectId = none ∧ s'.effects.get? f.effectId = some f
  started : (∀ c m, call ≠ .commit c m) → ∀ f : EffectRecord,
    s.effects.get? f.effectId = none → s'.effects.get? f.effectId = some f →
    ∃ id, Claims f.taskId id s s' = true ∧ approvalStatus s f.taskId id = some .approved

lemma ApprovalCall.Outcome.refl (call : ApprovalCall) (s : SqliteStore) : call.Outcome s s where
  record taskId id := .keep _
  claimed taskId id h := by simp [claims_eq_false] at h
  started _ f hnone hsome := by simp [hnone] at hsome

section Accepted

variable {s s' : SqliteStore} {m : DurableMutation}

lemma Folds.record {approval : ApprovalRecord} {expected : Option ApprovalStatus}
    (h : Folds s m.toMutationData approval expected) (haccepted : SqliteStore.Accepted s m s')
    (taskId id : String) : ApprovalStep (approvalAt s taskId id) (approvalAt s' taskId id) := by
  obtain ⟨hvalid, hafter⟩ := h.written haccepted
  rw [hafter]
  split
  · rename_i heq
    obtain ⟨rfl, rfl⟩ := heq
    exact approvalStep_of_validate hvalid
  · exact .keep _

/-- The new effects of a mutation without a settled effect of its own are its intents. -/
lemma SqliteStore.Accepted.started (h : Accepted s m s') (heffect : m.effect = none)
    {f : EffectRecord} (hnone : s.effects.get? f.effectId = none)
    (hsome : s'.effects.get? f.effectId = some f) : f ∈ m.effects := by
  rcases h.get?_effects f.effectId with ⟨g, hg, -, hget⟩ | ⟨-, hget⟩
  · obtain rfl := Option.some.inj (hget.symm.trans hsome)
    by_contra hold
    have hsettled : g ∈ m.effect.toList ++ m.settlements := by
      simp only [MutationData.allEffects, List.mem_append] at hg ⊢
      tauto
    have hstored := h.settled_stored hsettled (by simp [heffect])
    simp [hnone] at hstored
  · rw [hget, hnone] at hsome
    cases hsome

lemma ApprovalCall.outcome_of_accepted {call : ApprovalCall} (hproper : call.Proper s)
    (hsite : call.Site s m.toMutationData) (haccepted : SqliteStore.Accepted s m s') :
    call.Outcome s s' := by
  cases call with
  | claim c approvalId effect expected =>
    obtain ⟨approval, hfolds, heffects, htask, hstatus, hexpected⟩ := hsite
    obtain ⟨hvalid, hafter⟩ := hfolds.written haccepted
    obtain ⟨before, hbefore, happroved⟩ := approved_of_validate hstatus hexpected hvalid
    have hmem : effect ∈ m.allEffects := by simp [MutationData.allEffects, heffects]
    have hnew : s.effects.get? effect.effectId = none := by
      cases hrow : s.effects.get? effect.effectId with
      | none => rfl
      | some row => exact absurd (by simp [heffects]) (haccepted.rewritten hmem hrow).2.2
    have hwritten : s'.effects.get? effect.effectId = some effect := by
      rw [haccepted.effects_eq]
      exact Table.get?_foldl_put_of_mem m.allEffects_nodup s.effects hmem
    refine ⟨hfolds.record haccepted, ?_, ?_⟩
    · intro taskId id hclaims c' approvalId' f expected' hcall
      obtain ⟨-, -, rfl, -⟩ := ApprovalCall.claim.inj hcall
      refine ⟨?_, hnew, hwritten⟩
      -- A record that the call did not write was not moved by it.
      by_contra hne
      rw [claims_eq_false (by rw [hafter, if_neg fun h => hne (htask ▸ h.1)])] at hclaims
      cases hclaims
    · intro _ f hnone hsome
      have hmem' := haccepted.started hfolds.effect hnone hsome
      rw [heffects] at hmem'
      obtain rfl := List.mem_singleton.mp hmem'
      have hold : approvalStatus s f.taskId approval.approvalId = some .approved := by
        rw [approvalStatus, ← htask, hbefore, Option.map_some, happroved]
      have hclaimed : approvalStatus s' f.taskId approval.approvalId = some .executionClaimed := by
        rw [approvalStatus, hafter, if_pos ⟨htask, rfl⟩, Option.map_some, hstatus]
      exact ⟨approval.approvalId, by simp [Claims, hold, hclaimed], hold⟩
  | commit c m' =>
    have hsame := approvalAt_otherCommit hproper hsite haccepted
    refine ⟨fun taskId id => ?_, fun taskId id hclaims => ?_, fun h => absurd rfl (h c m')⟩
    · rw [hsame]
      exact .keep _
    · rw [claims_eq_false (hsame taskId id)] at hclaims
      cases hclaims
  | _ =>
    obtain ⟨approval, expected, hfolds, heffects⟩ := hsite
    refine ⟨hfolds.record haccepted, ?_, ?_⟩
    · intro _ _ _ _ _ _ _ h
      cases h
    intro _ f hnone hsome
    have hmem := haccepted.started hfolds.effect hnone hsome
    simp [heffects] at hmem

end Accepted

/-! ### Runs -/

variable {tr : List (ApprovalCall × World × World)} {P : Pool World Error ApprovalCall}

/-- Every step of a system of calls on approvals leaves the store as it is, or is the accepted
commit of a call at its site. -/
lemma System.approvalCommits {w₀ : World} (hrun : Pool.Run ApprovalCall.prog ⟨w₀, []⟩ tr P)
    (hcalls : ∀ e ∈ tr, e.1.Proper e.2.1.store) :
    ∀ e ∈ tr, e.2.2.store = e.2.1.store ∨ ∃ m : DurableMutation,
      e.1.Site e.2.1.store m.toMutationData ∧ SqliteStore.Accepted e.2.1.store m e.2.2.store := by
  let G : ApprovalCall → World → World → Prop := fun call w w' =>
    (∀ c m, call = .commit c m → m.deleteConversation = false) ∧ Commits call.Site w w'
  have hkept : ∀ {call : ApprovalCall} {s : SqliteStore} {m : DurableMutation},
      (∀ c m', call = .commit c m' → m'.deleteConversation = false) →
      call.Site s m.toMutationData → m.deleteConversation = false := by
    intro call s m hcommit hsite
    cases call with
    | claim =>
      obtain ⟨approval, hfolds, -⟩ := hsite
      exact hfolds.kept
    | commit c m' => exact hsite.kept.trans (hcommit c m' rfl)
    | _ =>
      obtain ⟨approval, expected, hfolds, -⟩ := hsite
      exact hfolds.kept
  have hG : ∀ call w w', G call w w' → Others w w' := by
    rintro call w w' ⟨hcommit, heq | ⟨m, r, hm, hsite⟩⟩
    · rw [Others, heq]
      exact Evolves.refl w.store
    · exact evolves_of_commit hm (hkept hcommit hsite)
  have hstart : ∀ (call : ApprovalCall) (w : World), call.Proper w.store →
      Guards Others (G call) (Others w) call.prog fun _ _ => True := by
    intro call w hproper
    refine (call.guards w hproper).guarantee fun _ _ h => ⟨?_, h⟩
    rintro c m rfl
    exact hproper.2.1
  intro e he
  rcases System.steps hG hstart hrun hcalls e he with heq | ⟨hcommit, heq | ⟨m, r, hm, hsite⟩⟩
  · exact Or.inl (congrArg World.store heq)
  · exact Or.inl heq
  · rcases SqliteStore.commit_cases hm with ⟨heq, -⟩ | ⟨hdel, -⟩ | ⟨-, haccepted⟩
    · exact Or.inl heq
    · simp [hkept hcommit hsite] at hdel
    · exact Or.inr ⟨m, hsite, haccepted⟩

/-- Every step of a system of calls on approvals does to records and effects what it should. -/
lemma System.approvalOutcomes {w₀ : World} (hrun : Pool.Run ApprovalCall.prog ⟨w₀, []⟩ tr P)
    (hcalls : ∀ e ∈ tr, e.1.Proper e.2.1.store) :
    ∀ e ∈ tr, e.1.Outcome e.2.1.store e.2.2.store := by
  intro e he
  rcases System.approvalCommits hrun hcalls e he with heq | ⟨m, hsite, haccepted⟩
  · rw [heq]
    exact .refl _ _
  · exact ApprovalCall.outcome_of_accepted (hcalls e he) hsite haccepted

/-- A record is moved to its claim once at most. -/
lemma countP_claims_le {w₀ : World}
    (hrun : Pool.Run ApprovalCall.prog ⟨w₀, []⟩ tr P)
    (hsteps : ∀ e ∈ tr,
      ApprovalStep (approvalAt e.2.1.store taskId id) (approvalAt e.2.2.store taskId id)) :
    tr.countP (fun e => Claims taskId id e.2.1.store e.2.2.store) ≤ 1 := by
  refine (hrun.trace_induction (I := fun done w =>
    done.countP (fun e => Claims taskId id e.2.1.store e.2.2.store) ≤ 1 ∧
    (pastClaim (approvalAt w.store taskId id) = false →
      done.countP (fun e => Claims taskId id e.2.1.store e.2.2.store) = 0)) (by simp) ?_).1
  rintro done e he ⟨hle, hzero⟩
  have hstep := hsteps e he
  simp only [List.countP_append, List.countP_singleton]
  by_cases hclaims : Claims taskId id e.2.1.store e.2.2.store = true
  · -- The record was approved before, hence none of the steps before was a claim.
    simp only [Claims, Bool.and_eq_true, decide_eq_true_eq] at hclaims
    have happroved := hstep.approved hclaims.1 hclaims.2
    obtain ⟨a, ha, hstatus⟩ := Option.map_eq_some_iff.mp happroved
    obtain ⟨b, hb, hclaimed⟩ := Option.map_eq_some_iff.mp hclaims.2
    have hdone := hzero (by simp [pastClaim, ha, hstatus])
    refine ⟨by split <;> omega, fun hpast => ?_⟩
    simp [pastClaim, hb, hclaimed] at hpast
  · rw [if_neg hclaims, Nat.add_zero]
    refine ⟨hle, fun hpast => hzero ?_⟩
    by_contra hbefore
    rw [hstep.pastClaim (by simpa using hbefore)] at hpast
    cases hpast

/-- Whatever calls are made on approvals, and however their steps and those of other operations
interleave: a record moves along the transitions only, one revision at a time, and keeps its
command; it is moved to the claim of its execution once at most, from the approval, and by
`claim_approval_and_begin_effect` only together with a new effect of its task; the calls start no
other effect; and a command that was refused is refused for good. -/
theorem approval_execution {w₀ : World} {P P' : Pool World Error ApprovalCall}
    {tr tr' : List (ApprovalCall × World × World)}
    (hrun : Pool.Run ApprovalCall.prog ⟨w₀, []⟩ tr P)
    (hnext : Pool.Run ApprovalCall.prog P tr' P')
    (hcalls : ∀ e ∈ tr ++ tr', e.1.Proper e.2.1.store) (taskId id : String) :
    (∀ e ∈ tr ++ tr',
      ApprovalStep (approvalAt e.2.1.store taskId id) (approvalAt e.2.2.store taskId id)) ∧
    (tr ++ tr').countP (fun e => Claims taskId id e.2.1.store e.2.2.store) ≤ 1 ∧
    (∀ e ∈ tr ++ tr', Claims taskId id e.2.1.store e.2.2.store = true →
      approvalStatus e.2.1.store taskId id = some .approved ∧
      ∀ c approvalId f expected, e.1 = .claim c approvalId f expected → f.taskId = taskId ∧
        e.2.1.store.effects.get? f.effectId = none ∧
        e.2.2.store.effects.get? f.effectId = some f) ∧
    (∀ e ∈ tr ++ tr', (∀ c m, e.1 ≠ .commit c m) → ∀ f : EffectRecord,
      e.2.1.store.effects.get? f.effectId = none →
      e.2.2.store.effects.get? f.effectId = some f →
      ∃ id', Claims f.taskId id' e.2.1.store e.2.2.store = true ∧
        approvalStatus e.2.1.store f.taskId id' = some .approved) ∧
    ∀ status, approvalStatus P.state.store taskId id = some status → status.refused = true →
      ∀ e ∈ tr', approvalStatus e.2.2.store taskId id = some status := by
  have houtcomes := System.approvalOutcomes (hrun.append hnext) hcalls
  have hsteps := fun e he => (houtcomes e he).record taskId id
  refine ⟨hsteps, countP_claims_le (hrun.append hnext) hsteps, fun e he hclaims => ?_,
    fun e he => (houtcomes e he).started, fun status hstatus hrefused e he => ?_⟩
  · refine ⟨?_, (houtcomes e he).claimed taskId id hclaims⟩
    simp only [Claims, Bool.and_eq_true, decide_eq_true_eq] at hclaims
    exact (hsteps e he).approved hclaims.1 hclaims.2
  · obtain ⟨-, hall⟩ := hnext.invariant
      (I := fun w => approvalStatus w.store taskId id = some status) hstatus fun e he h => by
        obtain ⟨a, ha, rfl⟩ := Option.map_eq_some_iff.mp h
        have hstep := hsteps e (List.mem_append_right _ he)
        rw [ha] at hstep
        exact hstep.refused hrefused
    exact (hall e he).2

def sampleWorker (taskId : String) : List Call :=
  [.admitInput firstSession (plainInput taskId none),
    .claimTask firstSession taskId ("token-" ++ taskId), .startTask firstSession taskId []]

def workersWorld (taskIds : List String) : World :=
  Pool.execute Call.prog (taskIds.flatMap sampleWorker) { store := {} }

/-- An approval of the command of a task. -/
def sampleApproval (status : ApprovalStatus) (revision : Nat) : ApprovalRecord where
  approvalId := "approval"
  taskId := "task"
  conversationId := "conversation-task"
  status := status
  commandDigest := "digest"
  commandRef := "ref"
  cwd := "."
  revision := revision
  valid := rfl

/-- The user is asked, and allows the command. -/
def sampleAllow : List ApprovalCall :=
  [.create firstSession (sampleApproval .requested 0),
    .transition firstSession "approval" (sampleApproval .approved 1) .requested none]

theorem approval_execution_sample : ∃ tr tr' P P',
    Pool.Run ApprovalCall.prog ⟨workersWorld ["task"], []⟩ tr P ∧
    Pool.Run ApprovalCall.prog P tr' P' ∧
    approvalStatus P.state.store "task" "approval" = some .approved ∧
    approvalStatus P'.state.store "task" "approval" = some .executionClaimed ∧
    P'.state.store.effects.get? "effect" = some sampleEffect ∧
    (tr ++ tr').countP (fun e => Claims "task" "approval" e.2.1.store e.2.2.store) ≤ 1 := by
  obtain ⟨tr, P, hrun, hstate, hmem⟩ :=
    Pool.Run.execute ApprovalCall.prog sampleAllow ⟨workersWorld ["task"], []⟩
  obtain ⟨tr', P', hrun', hstate', hmem'⟩ := Pool.Run.execute ApprovalCall.prog
    [.claim firstSession "approval" sampleEffect .approved] P
  rw [hstate] at hstate'
  have hexecution := approval_execution hrun hrun' (fun e he => ?_) "task" "approval"
  · refine ⟨tr, tr', P, P', hrun, hrun', ?_, ?_, ?_, hexecution.2.1⟩
    · rw [hstate]
      decide +kernel
    · rw [hstate']
      decide +kernel
    · rw [hstate']
      decide +kernel
  · rcases List.mem_append.mp he with he | he
    · have := hmem e he
      simp only [sampleAllow, List.mem_cons, List.not_mem_nil, or_false] at this
      rcases this with h | h <;> simp [h, ApprovalCall.Proper]
    · have := List.mem_singleton.mp (hmem' e he)
      simp [this, ApprovalCall.Proper]

/-- An approval of the same name in another task. -/
def otherApproval (status : ApprovalStatus) (revision : Nat) : ApprovalRecord where
  approvalId := "approval"
  taskId := "task-2"
  conversationId := "conversation-task-2"
  status := status
  commandDigest := "digest-2"
  commandRef := "ref"
  cwd := "."
  revision := revision
  valid := rfl

/-- A transition may move an approval to its claim without an effect, and an approval of the same
name in another task is claimed once more. -/
theorem approval_execution_unconditional :
    (∃ tr P, Pool.Run ApprovalCall.prog ⟨workersWorld ["task"], []⟩ tr P ∧
      approvalStatus P.state.store "task" "approval" = some .executionClaimed ∧
      P.state.store.effects.rows = []) ∧
    ∃ tr P, Pool.Run ApprovalCall.prog ⟨workersWorld ["task", "task-2"], []⟩ tr P ∧
      approvalStatus P.state.store "task" "approval" = some .executionClaimed ∧
      approvalStatus P.state.store "task-2" "approval" = some .executionClaimed := by
  constructor
  · obtain ⟨tr, P, hrun, hstate, -⟩ := Pool.Run.execute ApprovalCall.prog
      (sampleAllow ++ [.transition firstSession "approval"
        (sampleApproval .executionClaimed 2) .approved none]) ⟨workersWorld ["task"], []⟩
    refine ⟨tr, P, hrun, ?_, ?_⟩
    · rw [hstate]
      decide +kernel
    · rw [hstate]
      decide +kernel
  · obtain ⟨tr, P, hrun, hstate, -⟩ := Pool.Run.execute ApprovalCall.prog
      (sampleAllow ++ [.claim firstSession "approval" sampleEffect .approved,
        .create firstSession (otherApproval .requested 0),
        .transition firstSession "approval" (otherApproval .approved 1) .requested none,
        .transition firstSession "approval" (otherApproval .executionClaimed 2) .approved none])
      ⟨workersWorld ["task", "task-2"], []⟩
    refine ⟨tr, P, hrun, ?_, ?_⟩
    · rw [hstate]
      decide +kernel
    · rw [hstate]
      decide +kernel

end Codey
