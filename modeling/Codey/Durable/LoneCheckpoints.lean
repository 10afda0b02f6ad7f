import Codey.Durable.Growth
import Codey.Durable.MessageMetadata
import Codey.Lib.Stops

/-!
# Commits of one checkpoint

What stands behind every stored task, its conversation and its submission, and when a commit
succeeds that writes the next checkpoint of one task.
-/

namespace Codey

lemma DurableMutation.allUpdates_nodup (m : DurableMutation) :
    (m.allUpdates.map (·.submissionId)).Nodup := by
  obtain ⟨-, -, -, -, -, -, h, -⟩ := m.checked
  simp only [MutationData.validateUpdates, except_seq_eq_ok, require_eq_ok, decide_eq_true_eq] at h
  exact h.1

def SubmissionUpdateData.Settles (id : String) (u : SubmissionUpdateData) : Prop :=
  u.conversationId = id ∧ u.content = none ∧ u.mode = none

namespace SqliteStore

variable {s s' s₀ : SqliteStore} {m : DurableMutation} {c : ConversationRow} {r : CommitResult}

/-! ### The rows that a commit writes -/

/-- The rows that updates of distinct submissions leave. -/
lemma get?_of_updates {us : List SubmissionUpdate} (h : foldE us writeSubmissionUpdate s = .ok s')
    (hnodup : (us.map (·.submissionId)).Nodup) (id : String) : s'.submissions.get? id =
      match us.find? (·.submissionId = id) with
      | some u => (s.submissions.get? id).map (updatedRow · u)
      | none => s.submissions.get? id := by
  induction us generalizing s with
  | nil =>
    obtain rfl := Except.ok.inj h
    rfl
  | cons u us ih =>
    obtain ⟨s₁, hs₁, h⟩ := foldE_cons_eq_ok.mp h
    rw [List.map_cons, List.nodup_cons] at hnodup
    rw [ih h hnodup.2]
    unfold writeSubmissionUpdate at hs₁
    split at hs₁
    · rename_i row hrow
      split_ifs at hs₁
      obtain rfl := Except.ok.inj hs₁
      have hrowId : row.id = u.submissionId := Table.key_of_get? (t := s.submissions) hrow
      have hkey : (updatedRow row u).id = u.submissionId := hrowId
      by_cases hid : u.submissionId = id
      · have hnone : us.find? (·.submissionId = id) = none := by
          rw [List.find?_eq_none]
          intro v hv heq
          refine hnodup.1 (List.mem_map.mpr ⟨v, hv, ?_⟩)
          rw [hid]
          simpa using heq
        rw [hnone, List.find?_cons_of_pos (by simpa using hid), ← hid, hrow]
        change (s.submissions.put (updatedRow row u)).get? _ = _
        rw [← hkey, Table.get?_put_self]
        rfl
      · have hsame : (s.submissions.put (updatedRow row u)).get? id = s.submissions.get? id :=
          Table.get?_put_of_ne _ (hkey ▸ hid)
        rw [List.find?_cons_of_neg (by simpa using hid), hsame]
    · cases hs₁

/-- The submission rows that a written mutation leaves. -/
lemma Written.get?_submissions (hw : Written s m s₀ c s') (id : String) :
    s'.submissions.get? id = match m.allUpdates.find? (·.submissionId = id) with
      | some u => (s.submissions.get? id).map (updatedRow · u)
      | none => (s.admittedRows m.toMutationData
        (nextConversation m.toMutationData c).revision).get? id := by
  obtain ⟨s₁, hs₁, hupdates⟩ := hw.submissions_eq
  rw [get?_of_updates hupdates m.allUpdates_nodup, hs₁]
  cases hfind : m.allUpdates.find? (·.submissionId = id) with
  | none => rfl
  | some u =>
    have hid : u.submissionId = id := by simpa using List.find?_some hfind
    -- the submission that is updated is not the one that is admitted
    have hvalid := hw.updates u (List.mem_of_find?_eq_some hfind)
    have hstored : s.submissions.get? id ≠ none := by
      rintro hnone
      rw [validateSubmissionUpdate, hid, hnone] at hvalid
      cases hvalid
    dsimp only
    congr 1
    unfold admittedRows
    cases hd : m.submission with
    | none => rfl
    | some d =>
      refine Table.get?_put_of_ne _ fun heq => hstored ?_
      rw [← heq]
      exact hw.newSubmission d hd

lemma exists_writeUpdates {us : List SubmissionUpdate}
    (hnodup : (us.map (·.submissionId)).Nodup) : ∀ {s : SqliteStore},
      (∀ u ∈ us, ∃ row, s.submissions.get? u.submissionId = some row ∧
        row.conversationId = u.conversationId ∧ row.status = u.expectedStatus) →
      ∃ s', foldE us writeSubmissionUpdate s = .ok s' := by
  induction us with
  | nil => exact fun _ => ⟨_, rfl⟩
  | cons u us ih =>
    intro s hrows
    rw [List.map_cons, List.nodup_cons] at hnodup
    obtain ⟨row, hrow, hconv, hstatus⟩ := hrows u (by simp)
    have hkey : row.id = u.submissionId := Table.key_of_get? (t := s.submissions) hrow
    obtain ⟨s', hs'⟩ := @ih hnodup.2 { s with submissions := s.submissions.put (updatedRow row u) }
      (by
        intro v hv
        have hne : (updatedRow row u).id ≠ v.submissionId := fun heq =>
          hnodup.1 (List.mem_map.mpr ⟨v, hv, heq.symm.trans hkey⟩)
        obtain ⟨row', hrow', hfacts⟩ := hrows v (by simp [hv])
        exact ⟨row', (Table.get?_put_of_ne _ hne).trans hrow', hfacts⟩)
    refine ⟨s', foldE_cons_eq_ok.mpr ⟨_, ?_, hs'⟩⟩
    simp [writeSubmissionUpdate, hrow, hconv, hstatus]

/-- A mutation that only writes rows of its conversation is committed when it passes its checks. -/
lemma commit_of_write (hsub : m.submission = none) (hnone : m.createConversation = none)
    (hkept : m.deleteConversation = false) (hrow : s.conversations.get? m.conversationId = some c)
    (hvalid : s.validateMutation m.toMutationData c = .ok ())
    (hwrite : s.write m.toMutationData c = .ok s') :
    s.commit m = .ok (⟨(nextConversation m.toMutationData c).revision, s'.sequence,
      reportedSubmission m.toMutationData⟩, s') := by
  have hfind : s.findSubmission m.submission = .ok none := by
    rw [hsub]
    rfl
  have hcreate : s.create m.toMutationData = .ok s := by
    unfold create
    rw [hnone]
  have hconversation : s.conversation m.conversationId = .ok c := by rw [conversation, hrow]
  have hnosubmission : (m.submission.all fun d => (s.submissions.get? d.submissionId).isNone) =
      true := by
    rw [hsub]
    rfl
  rw [commit, hfind]
  refine except_bind_eq_ok.mpr ⟨none, rfl, except_bind_eq_ok.mpr ⟨s, hcreate,
    except_bind_eq_ok.mpr ⟨c, hconversation, ?_⟩⟩⟩
  simp only [hkept, Bool.false_eq_true, if_false, except_seq_eq_ok, hnosubmission, require_true,
    hvalid]
  exact ⟨trivial, trivial, except_bind_eq_ok.mpr ⟨s', hwrite, rfl⟩⟩

/-! ### The rows behind a task -/

/-- The conversation of every task is stored, and its submission in that conversation. -/
def Housed (s : SqliteStore) : Prop := ∀ t ∈ s.tasks.rows,
  (∃ c, s.conversations.get? t.conversationId = some c) ∧
    ∃ row, s.submissions.get? t.submissionId = some row ∧ row.conversationId = t.conversationId

/-- A stored submission stays in its conversation. -/
lemma Written.submission_kept (hw : Written s m s₀ c s') {id : String} {row : SubmissionRow}
    (hrow : s.submissions.get? id = some row) :
    ∃ row', s'.submissions.get? id = some row' ∧ row'.conversationId = row.conversationId := by
  rw [hw.get?_submissions, hrow]
  cases m.allUpdates.find? (·.submissionId = id) with
  | some u => exact ⟨_, rfl, rfl⟩
  | none =>
    refine ⟨row, ?_, rfl⟩
    unfold admittedRows
    cases hd : m.submission with
    | none => exact hrow
    | some d =>
      refine (Table.get?_put_of_ne _ fun heq => ?_).trans hrow
      rw [← heq, show (submissionRow d _ _).id = d.submissionId from rfl,
        hw.newSubmission d hd] at hrow
      cases hrow

/-- An admitted submission is stored in its conversation. -/
lemma Written.submission_admitted (hw : Written s m s₀ c s') {d : SubmissionDraft}
    (hd : m.submission = some d) : ∃ row, s'.submissions.get? d.submissionId = some row ∧
      row.conversationId = d.conversationId := by
  have hnew := hw.newSubmission d hd
  rw [hw.get?_submissions]
  cases hfind : m.allUpdates.find? (·.submissionId = d.submissionId) with
  | some u =>
    have hvalid := hw.updates u (List.mem_of_find?_eq_some hfind)
    have hid : u.submissionId = d.submissionId := by simpa using List.find?_some hfind
    rw [validateSubmissionUpdate, hid, hnew] at hvalid
    cases hvalid
  | none =>
    refine ⟨submissionRow d (nextConversation m.toMutationData c).revision (s.sequence + 1), ?_,
      rfl⟩
    unfold admittedRows
    rw [hd]
    exact Table.get?_put_self _ _

/-- The submission of a written task is stored in the conversation of the mutation. -/
lemma Written.housed (hw : Written s m s₀ c s') {t : TaskCheckpoint}
    (h : s.taskSubmission t m.submission = true) : ∃ row,
      s'.submissions.get? t.submissionId = some row ∧ row.conversationId = t.conversationId := by
  unfold taskSubmission at h
  split at h
  · rename_i row hrow
    obtain ⟨row', hrow', hconv⟩ := hw.submission_kept hrow
    exact ⟨row', hrow', hconv.trans (of_decide_eq_true h)⟩
  · rw [Option.any_eq_true] at h
    obtain ⟨d, hd, h⟩ := h
    simp only [Bool.and_eq_true, decide_eq_true_eq] at h
    obtain ⟨row, hrow, hconv⟩ := hw.submission_admitted hd
    exact ⟨row, h.1 ▸ hrow, hconv.trans h.2⟩

lemma Accepted.submitted (h : Accepted s m s') {t : TaskCheckpoint} (ht : t ∈ m.allTasks) :
    s.taskSubmission t m.submission = true := by
  rcases h.validated ht with ⟨-, hv⟩ | ⟨-, hv⟩
  · exact require_eq_ok.mp (except_seq_eq_ok.mp hv).1
  · have hplain := require_eq_ok.mp (except_seq_eq_ok.mp hv).1
    unfold taskSubmission at hplain ⊢
    split at hplain
    · exact hplain
    · cases hplain

lemma Housed.commit (h : s.Housed) (hcommit : s.commit m = .ok (r, s')) : s'.Housed := by
  rcases commit_writes hcommit with ⟨-, rfl⟩ | ⟨hdel, -, hr⟩ | ⟨hkept, -, s₀, c, hw, -⟩
  · exact h
  · rcases commit_cases hcommit with ⟨rfl, -⟩ | ⟨-, hd⟩ | ⟨hkept, -⟩
    · exact h
    · intro t ht
      rw [hd.tasks_eq, Table.rows_filter, List.mem_filter, decide_eq_true_eq] at ht
      obtain ⟨⟨c, hc⟩, row, hrow, hconv⟩ := h t ht.1
      refine ⟨⟨c, ?_⟩, row, ?_, hconv⟩
      · have hid : c.id = t.conversationId := Table.key_of_get? hc
        rw [hr.conversations_eq, Table.get?_filter, hc]
        simp [hid, ht.2]
      · rw [hr.submissions_eq, Table.get?_filter, hrow]
        simp [hconv, ht.2]
    · rw [hdel] at hkept
      cases hkept
  · rcases commit_cases hcommit with ⟨rfl, -⟩ | ⟨hdel, -⟩ | ⟨-, ha⟩
    · exact h
    · rw [hdel] at hkept
      cases hkept
    · intro t ht
      rcases ha.get?_tasks t.taskId with ⟨t', ht', -, hget⟩ | ⟨-, hget⟩
      · obtain rfl := Option.some.inj ((Table.mem_rows_iff.mp ht).symm.trans hget)
        refine ⟨?_, hw.housed (ha.submitted ht')⟩
        rw [m.conversationId_of_mem ht', hw.get?_conversations, if_pos rfl]
        exact ⟨_, rfl⟩
      · have hold := Table.mem_of_get? (hget.symm.trans (Table.mem_rows_iff.mp ht))
        obtain ⟨⟨c', hc'⟩, row, hrow, hconv⟩ := h t hold
        obtain ⟨row', hrow', hsame⟩ := hw.submission_kept hrow
        obtain ⟨d', hd', -⟩ := hw.conversation_kept hc'
        exact ⟨⟨d', hd'⟩, row', hrow', hsame.trans hconv⟩

end SqliteStore

lemma CommitRun.housed {ok : MutationData → Prop} {s : SqliteStore} (h : CommitRun ok {} s) :
    s.Housed := by
  induction h with
  | refl => exact fun t ht => (by cases ht)
  | tail _ hcommit _ ih => exact ih.commit hcommit

def WaitsOnStored (s : SqliteStore) (t : TaskCheckpoint) : Prop :=
  ∀ id ∈ t.state.waitingOn, id ≠ t.taskId ∧ (s.tasks.get? id).isSome = true

/-! ### Commits of one checkpoint -/

/-- What a commit of one checkpoint consists of, with the submission that it settles. -/
def checkpointMutation (id : String) (revision : Nat) (t : TaskCheckpoint)
    (update : Option SubmissionUpdate) (token : String) : MutationData where
  conversationId := id
  expectedRevision := revision
  task := some t
  submissionUpdate := update
  expectedAttemptToken := some token

section Checkpoint

variable {id : String} {revision : Nat} {t : TaskCheckpoint} {update : Option SubmissionUpdate}
  {token : String}

lemma make_checkpoint (revision : Nat) (token : String) (hconv : t.conversationId = id)
    (hsettles : ∀ u, update = some u → u.Settles id) :
    ∃ m, DurableMutation.make (checkpointMutation id revision t update token) = .ok m := by
  refine ⟨⟨_, ?_⟩, DurableMutation.make_eq_ok.mpr rfl⟩
  have hupdates : (checkpointMutation id revision t update token).validateUpdates = .ok () := by
    simp only [MutationData.validateUpdates, except_seq_eq_ok, require_eq_ok, decide_eq_true_eq,
      checkAll_eq_ok, List.all_eq_true]
    refine ⟨?_, fun u hu => ?_, fun u hu => ?_⟩
    · cases update <;> simp [MutationData.allUpdates, checkpointMutation]
    · have hu : update = some u := by simpa [MutationData.allUpdates, checkpointMutation] using hu
      exact (hsettles u hu).1
    · have hu : update = some u := by simpa [MutationData.allUpdates, checkpointMutation] using hu
      obtain ⟨-, hcontent, hmode⟩ := hsettles u hu
      simp [MutationData.validateRevision, hcontent, hmode]
  have hid : id ≠ "" := hconv ▸ t.checked.1.2.1
  have htasks : (checkpointMutation id revision t update token).validateTasks = .ok () := by
    simp [MutationData.validateTasks, MutationData.allTasks, checkpointMutation, hconv,
      except_seq_eq_ok]
  simp only [MutationData.postInit, except_seq_eq_ok, require_eq_ok, decide_eq_true_eq]
  exact ⟨hid, rfl, rfl, rfl, htasks, rfl, hupdates, rfl⟩

namespace SqliteStore

variable {s s' : SqliteStore} {m : DurableMutation} {c : ConversationRow}

/-- A checkpoint that passes its checks is committed. -/
lemma exists_commit_checkpoint
    (hm : m.toMutationData = checkpointMutation id revision t update token)
    (hrow : s.conversations.get? id = some c) (hrevision : c.revision = revision)
    (htask : s.validateTask t none (some token) = .ok ()) (hwaits : WaitsOnKnown s.tasks t)
    (hupdate : ∀ u, update = some u → s.validateSubmissionUpdate m.toMutationData u = .ok ()) :
    ∃ r s', s.commit m = .ok (r, s') := by
  have hall : m.allUpdates = update.toList := by
    rw [hm]
    exact List.append_nil _
  have hvalid : s.validateMutation m.toMutationData c = .ok () := by
    have hparent : s.entryParent m.toMutationData c.headEntryId = .ok c.headEntryId := by
      rw [hm]
      rfl
    have hupdates : checkAll m.allUpdates (s.validateSubmissionUpdate m.toMutationData) =
        .ok () := by
      rw [checkAll_eq_ok, hall]
      exact fun u hu => hupdate u (Option.mem_toList.mp hu)
    rw [validateMutation, hparent]
    simp only [except_seq_eq_ok, require_eq_ok, decide_eq_true_eq]
    rw [hm] at hupdates ⊢
    refine ⟨hrevision, rfl, ?_⟩
    refine except_bind_eq_ok.mpr ⟨_, rfl, ?_⟩
    simp only [except_seq_eq_ok, checkAll_eq_ok]
    exact ⟨rfl, by simpa [checkpointMutation] using htask, by simp [checkpointMutation], rfl,
      by simp [checkpointMutation], fun u hu => checkAll_eq_ok.mp hupdates u hu⟩
  -- the store when the checkpoint is written
  let s₁ := { s with
    sequence := s.sequence + 1
    conversations := s.conversations.put
      (nextConversation (checkpointMutation id revision t update token) c) }
  obtain ⟨s', hs'⟩ := exists_writeUpdates m.allUpdates_nodup (s := recordTask s₁ t) (by
    intro u hu
    rw [hall] at hu
    have h := hupdate u (Option.mem_toList.mp hu)
    unfold validateSubmissionUpdate at h
    split at h
    · cases h
    · rename_i row hrow'
      simp only [except_seq_eq_ok, require_eq_ok, Bool.and_eq_true, decide_eq_true_eq] at h
      exact ⟨row, hrow', h.1, h.2.1.1⟩)
  have hwrite : s.write m.toMutationData c = .ok s' := by
    have htaskRow : writeTask s₁ t = .ok (recordTask s₁ t) := writeTask_eq_ok.mpr ⟨hwaits, rfl⟩
    rw [write]
    rw [hm] at hs' ⊢
    refine except_bind_eq_ok.mpr ⟨_, rfl, except_bind_eq_ok.mpr ⟨recordTask s₁ t, ?_, hs'⟩⟩
    exact foldE_cons_eq_ok.mpr ⟨_, htaskRow, rfl⟩
  have hdata : m.conversationId = id ∧ m.submission = none ∧ m.createConversation = none ∧
      m.deleteConversation = false := by
    rw [hm]
    exact ⟨rfl, rfl, rfl, rfl⟩
  obtain ⟨hid, hsub, hnone, hkept⟩ := hdata
  exact ⟨_, s', commit_of_write hsub hnone hkept (hid ▸ hrow) hvalid hwrite⟩

/-- A committed checkpoint has passed its checks, and its row is the only one that is written. -/
lemma accepted_of_checkpoint {r : CommitResult}
    (hm : m.toMutationData = checkpointMutation id revision t update token)
    (hcommit : s.commit m = .ok (r, s')) : s.validateTask t none (some token) = .ok () ∧
      WaitsOnKnown s.tasks t ∧ s'.tasks = s.tasks.put t := by
  rcases commit_cases hcommit with ⟨-, hsub⟩ | ⟨hdel, -⟩ | ⟨-, h⟩
  · rw [hm] at hsub
    cases hsub
  · rw [hm] at hdel
    cases hdel
  · have htasks : m.allTasks = [t] := by rw [hm]; rfl
    have htask := h.task t (by rw [hm]; rfl)
    have hwaits := h.waits
    have heq := h.tasks_eq
    rw [htasks] at hwaits heq
    refine ⟨?_, hwaits.1, heq⟩
    rw [hm] at htask
    exact htask

/-! ### Owners -/

structure SameOwners (s s' : SqliteStore) : Prop where
  count : s'.tasks.rows.length = s.tasks.rows.length
  owner : ∀ id, (s'.tasks.get? id).map (·.state.ownerTaskId) =
    (s.tasks.get? id).map (·.state.ownerTaskId)

namespace SameOwners

lemma refl (s : SqliteStore) : SameOwners s s := ⟨rfl, fun _ => rfl⟩

lemma of_put {row : TaskCheckpoint} (htasks : s'.tasks = s.tasks.put t)
    (hrow : s.tasks.get? t.taskId = some row)
    (howner : t.state.ownerTaskId = row.state.ownerTaskId) : SameOwners s s' := by
  refine ⟨?_, fun id => ?_⟩
  · have hkeys := Table.map_key_put_of_some (t := s.tasks) hrow
    rw [htasks]
    simpa using congrArg List.length hkeys
  · rw [htasks, Table.get?_put]
    split_ifs with hid
    · rw [← hid, hrow, Option.map_some, Option.map_some, howner]
    · rfl

lemma isSome (h : SameOwners s s') (id : String) :
    (s'.tasks.get? id).isSome = (s.tasks.get? id).isSome := by
  have := congrArg Option.isSome (h.owner id)
  simpa using this

lemma ownerCycle (h : SameOwners s s') (taskId : String) (fuel : Nat) (seen : List String)
    (cursor : String) :
    s'.ownerCycle taskId fuel seen cursor = s.ownerCycle taskId fuel seen cursor := by
  induction fuel generalizing seen cursor with
  | zero => rfl
  | succ fuel ih =>
    have howner := h.owner cursor
    unfold SqliteStore.ownerCycle
    cases hs : s.tasks.get? cursor with
    | none =>
      rw [hs, Option.map_none, Option.map_eq_none_iff] at howner
      rw [howner]
    | some parent =>
      rw [hs, Option.map_some, Option.map_eq_some_iff] at howner
      obtain ⟨parent', hs', howner⟩ := howner
      rw [hs']
      simp only [howner, ih]

lemma validateTaskOwner {t' : TaskCheckpoint} (h : SameOwners s s') (hid : t'.taskId = t.taskId)
    (howner : t'.state.ownerTaskId = t.state.ownerTaskId) :
    s'.validateTaskOwner t' = s.validateTaskOwner t := by
  unfold SqliteStore.validateTaskOwner
  simp only [howner, hid, h.isSome, h.ownerCycle, h.count]

end SameOwners

end SqliteStore

lemma WaitsOnStored.congr {s s' : SqliteStore} (h : s.SameOwners s') :
    WaitsOnStored s' t ↔ WaitsOnStored s t := by
  unfold WaitsOnStored
  simp only [h.isSome]

namespace Session

variable {c : Session} {w w' : World} {r : CommitResult}

lemma run_commit_checkpoint {m : DurableMutation} (hopen : w.sealed.contains c.ownerId = false)
    (hm : m.toMutationData = checkpointMutation id revision t update token) :
    (c.commit m).run w = (c.storeCommit m).run w := by
  have happroval : m.approval = none := by rw [hm]; rfl
  have hfence : c.fence m = .ret m := by
    rw [fence, hm]
    rfl
  unfold commit materialize
  rw [happroval, Prog.bind_eq, Prog.run_bind_ok (run_ensureUsable hopen)]
  change ((c.fence m).bind c.storeCommit).run w = _
  rw [hfence, Prog.ret_bind]

/-- A checkpoint that passes its checks is committed by an open session. -/
lemma exists_run_commitData_checkpoint {row : ConversationRow}
    (hopen : w.sealed.contains c.ownerId = false) (hconv : t.conversationId = id)
    (hsettles : ∀ u, update = some u → u.Settles id)
    (hrow : w.store.conversations.get? id = some row) (hrevision : row.revision = revision)
    (htask : w.store.validateTask t none (some token) = .ok ())
    (hwaits : SqliteStore.WaitsOnKnown w.store.tasks t)
    (hupdate : ∀ u, update = some u → w.store.validateSubmissionUpdate
      (checkpointMutation id revision t update token) u = .ok ()) :
    ∃ r w', (c.commitData (checkpointMutation id revision t update token)).run w = (.ok r, w') := by
  obtain ⟨m, hmake⟩ := make_checkpoint revision token hconv hsettles
  have hm := DurableMutation.make_eq_ok.mp hmake
  obtain ⟨r, s', hcommit⟩ := SqliteStore.exists_commit_checkpoint hm hrow hrevision htask hwaits
    (hm ▸ hupdate)
  refine ⟨r, { w with store := s' }, ?_⟩
  rw [commitData, hmake]
  refine (run_commit_checkpoint hopen hm).trans ?_
  rw [storeCommit, Prog.run_step, afterCommit, hcommit]
  rfl

/-- What the commit of a checkpoint has done when it returns. -/
lemma run_commitData_checkpoint_eq_ok (hopen : w.sealed.contains c.ownerId = false)
    (h : (c.commitData (checkpointMutation id revision t update token)).run w = (.ok r, w')) :
    ∃ m : DurableMutation, m.toMutationData = checkpointMutation id revision t update token ∧
      w.store.commit m = .ok (r, w'.store) ∧ w'.sealed = w.sealed := by
  obtain ⟨m, hmake, h⟩ := Prog.run_ofExcept_bind_eq_ok.mp h
  have hm := DurableMutation.make_eq_ok.mp hmake
  rw [run_commit_checkpoint hopen hm] at h
  exact ⟨m, hm, run_storeCommit_eq_ok h⟩

end Session

end Checkpoint

end Codey
