import Codey.Durable.Sqlite

/-!
# What a commit does

The inversion of `SqliteStore.commit`: a successful commit replays an admission, deletes a
conversation, or has validated a mutation and written its rows. Every invariant of the store is
derived from `commit_cases`.
-/

namespace Codey

namespace SqliteStore

/-! ### The writes of one mutation -/

/-- `task_waiters` after a checkpoint is written. -/
def putWaiters (waiters : List (String × String)) (t : TaskCheckpoint) : List (String × String) :=
  waiters.filter (·.2 ≠ t.taskId) ++ t.state.waitingOn.map fun waited => (waited, t.taskId)

/-- The store after a checkpoint is written: its row, and the rows derived from it. -/
def recordTask (s : SqliteStore) (t : TaskCheckpoint) : SqliteStore :=
  { s with
    tasks := s.tasks.put t
    waiters := putWaiters s.waiters t
    owners := putOwner s.owners t
    queue := putQueue s.queue t }

/-- A checkpoint can be written when it waits for other tasks, all of them present. -/
def WaitsOnKnown (tasks : TaskTable) (t : TaskCheckpoint) : Prop :=
  ∀ w ∈ t.state.waitingOn, w ≠ t.taskId ∧ ((tasks.put t).get? w).isSome = true

variable {s s' : SqliteStore}

lemma foldE_writeWaiter_eq_ok {waiter : String} {ws : List String} :
    foldE ws (writeWaiter waiter) s = .ok s' ↔
      (∀ w ∈ ws, w ≠ waiter ∧ (s.tasks.get? w).isSome = true) ∧
      s' = { s with waiters := s.waiters ++ ws.map fun w => (w, waiter) } := by
  induction ws generalizing s with
  | nil =>
    simp only [foldE_nil, Except.ok.injEq, List.map_nil, List.append_nil, List.not_mem_nil,
      false_implies, implies_true, true_and]
    exact eq_comm
  | cons w ws ih =>
    simp only [foldE_cons_eq_ok, writeWaiter, except_seq_eq_ok, require_eq_ok, decide_eq_true_eq,
      List.forall_mem_cons]
    constructor
    · rintro ⟨s₁, ⟨hne, hknown, hs₁⟩, h⟩
      obtain rfl := Except.ok.inj hs₁
      obtain ⟨hws, rfl⟩ := ih.mp h
      exact ⟨⟨⟨hne, hknown⟩, hws⟩, by simp⟩
    · rintro ⟨⟨⟨hne, hknown⟩, hws⟩, rfl⟩
      exact ⟨_, ⟨hne, hknown, rfl⟩, ih.mpr ⟨hws, by simp⟩⟩

lemma writeTask_eq_ok {t : TaskCheckpoint} :
    writeTask s t = .ok s' ↔ WaitsOnKnown s.tasks t ∧ s' = recordTask s t := by
  simp only [writeTask, except_bind_eq_ok, foldE_writeWaiter_eq_ok]
  constructor
  · rintro ⟨s₁, ⟨hws, rfl⟩, h⟩
    obtain rfl := Except.ok.inj h
    exact ⟨hws, rfl⟩
  · rintro ⟨hws, rfl⟩
    exact ⟨_, ⟨hws, rfl⟩, rfl⟩

lemma foldE_writeTask_eq_ok {ts : List TaskCheckpoint} :
    foldE ts writeTask s = .ok s' ↔
      FoldOk (fun s t => WaitsOnKnown s.tasks t) recordTask s ts ∧ s' = ts.foldl recordTask s :=
  foldE_eq_ok_iff fun _ _ _ => writeTask_eq_ok

/-- Writing checkpoints touches the task rows and the three derived tables, each on its own. -/
lemma foldl_recordTask (ts : List TaskCheckpoint) (s : SqliteStore) :
    ts.foldl recordTask s = { s with
      tasks := ts.foldl Table.put s.tasks
      waiters := ts.foldl putWaiters s.waiters
      owners := ts.foldl putOwner s.owners
      queue := ts.foldl putQueue s.queue } := by
  induction ts generalizing s with
  | nil => rfl
  | cons t ts ih => simpa [recordTask] using ih (recordTask s t)

/-- Settling a stored effect of the same identity writes the settled record. -/
lemma withOutcome_eq {row e : EffectRecord} (hid : row.effectId = e.effectId)
    (h : row.identity = e.identity) : withOutcome row e = e := by
  simp only [EffectRecord.identity, Prod.mk.injEq] at h
  obtain ⟨h₁, h₂, h₃, h₄, h₅⟩ := h
  have : (withOutcome row e).toEffectData = e.toEffectData := by
    simp only [withOutcome]
    rw [show e.toEffectData = ⟨e.effectId, e.taskId, e.category, e.replayClass, e.argsDigest,
      e.status, e.intent, e.settlement⟩ from rfl, ← hid, ← h₁, ← h₂, ← h₃, ← h₄, ← h₅]
  cases e
  simp only [withOutcome] at this ⊢
  congr

/-- Effects with distinct ids, of the identities stored under them, are written as they are. -/
lemma foldE_writeEffect {expected : Option String} {es : List EffectRecord}
    (hnodup : (es.map (·.effectId)).Nodup)
    (hid : ∀ e ∈ es, ∀ row, s.effects.get? e.effectId = some row → row.identity = e.identity)
    (h : foldE es (writeEffect expected) s = .ok s') :
    s' = { s with effects := es.foldl Table.put s.effects } := by
  induction es generalizing s with
  | nil => exact (Except.ok.inj h).symm
  | cons e es ih =>
    obtain ⟨s₁, hs₁, h⟩ := foldE_cons_eq_ok.mp h
    simp only [List.map_cons, List.nodup_cons] at hnodup
    have hput : s₁ = { s with effects := s.effects.put e } := by
      unfold writeEffect at hs₁
      split at hs₁
      · split_ifs at hs₁
        exact (Except.ok.inj hs₁).symm
      · split at hs₁
        · rename_i row hrow
          split_ifs at hs₁
          rw [withOutcome_eq (Table.key_of_get? (t := s.effects) hrow) (hid e (by simp) row hrow)]
            at hs₁
          exact (Except.ok.inj hs₁).symm
        · cases hs₁
    subst hput
    refine ih hnodup.2 (fun f hf row hrow => hid f (by simp [hf]) row ?_) h
    rwa [Table.get?_put_of_ne] at hrow
    exact fun heq => hnodup.1 (heq ▸ List.mem_map_of_mem hf)

/-- The three lists of effects of a mutation are written one after the other. -/
lemma writeEffects_eq (m : DurableMutation) {s s₁ s₂ s₃ : SqliteStore}
    (hid : ∀ e ∈ m.allEffects, ∀ row, s.effects.get? e.effectId = some row →
      row.identity = e.identity)
    (h₁ : foldE m.effect.toList (writeEffect m.expectedEffectStatus) s = .ok s₁)
    (h₂ : foldE m.effects (writeEffect none) s₁ = .ok s₂)
    (h₃ : foldE m.settlements (writeEffect (some "pending")) s₂ = .ok s₃) :
    s₃ = { s with effects := m.allEffects.foldl Table.put s.effects } := by
  have hnodup := m.allEffects_nodup
  simp only [MutationData.allEffects, List.map_append, List.nodup_append] at hnodup
  obtain ⟨⟨hn₁, hn₂, hd₁⟩, hn₃, hd₂⟩ := hnodup
  have hfirst := foldE_writeEffect hn₁
    (fun e he => hid e (by simp [MutationData.allEffects, Option.mem_toList.mp he])) h₁
  subst hfirst
  have hsecond := foldE_writeEffect hn₂ (fun e he row hrow => hid e
    (by simp [MutationData.allEffects, he]) row (by
      rwa [Table.get?_foldl_put_of_notMem hn₁] at hrow
      exact fun f hf => hd₁ _ (List.mem_map_of_mem hf) _ (List.mem_map_of_mem he))) h₂
  subst hsecond
  have hthird := foldE_writeEffect hn₃ (fun e he row hrow => hid e
    (by simp [MutationData.allEffects, he]) row (by
      rw [Table.get?_foldl_put_of_notMem hn₂] at hrow
      · rwa [Table.get?_foldl_put_of_notMem hn₁] at hrow
        exact fun f hf => hd₂ _ (List.mem_append_left _ (List.mem_map_of_mem hf)) _
          (List.mem_map_of_mem he)
      · exact fun f hf => hd₂ _ (List.mem_append_right _ (List.mem_map_of_mem hf)) _
          (List.mem_map_of_mem he))) h₃
  rw [hthird]
  simp only [MutationData.allEffects, List.foldl_append]

lemma foldE_writeEntry_frame {m : MutationData} {n : Nat} {es : List EntryDraft}
    (h : foldE es (writeEntry m n) s = .ok s') :
    s' = { s with entries := (es.map (entryRow m n)).foldl Table.put s.entries } := by
  induction es generalizing s with
  | nil => exact (Except.ok.inj h).symm
  | cons e es ih =>
    obtain ⟨s₁, hs₁, h⟩ := foldE_cons_eq_ok.mp h
    unfold writeEntry at hs₁
    split_ifs at hs₁
    obtain rfl := Except.ok.inj hs₁
    exact ih h

lemma foldE_writeSubmissionUpdate_frame {us : List SubmissionUpdate}
    (h : foldE us writeSubmissionUpdate s = .ok s') :
    s' = { s with submissions := s'.submissions } := by
  induction us generalizing s with
  | nil =>
    obtain rfl := Except.ok.inj h
    rfl
  | cons u us ih =>
    obtain ⟨s₁, hs₁, h⟩ := foldE_cons_eq_ok.mp h
    unfold writeSubmissionUpdate at hs₁
    split at hs₁
    · split_ifs at hs₁
      obtain rfl := Except.ok.inj hs₁
      have hrest := ih h
      exact hrest
    · cases hs₁

/-! ### Accepted mutations -/

/-- What a written mutation has passed, and the rows it leaves in the tables of tasks, effects and
ownership. -/
structure Accepted (s : SqliteStore) (m : DurableMutation) (s' : SqliteStore) : Prop where
  task : ∀ t ∈ m.task, s.validateTask t m.submission m.expectedAttemptToken = .ok ()
  taskUpdates : ∀ t ∈ m.taskUpdates, s.validateTask t none none = .ok ()
  effects : s.validateEffects m.toMutationData = .ok ()
  updates : ∀ u ∈ m.allUpdates, s.validateSubmissionUpdate m.toMutationData u = .ok ()
  newSubmission : ∀ d ∈ m.submission, s.submissions.get? d.submissionId = none
  waits : FoldOk (fun s t => WaitsOnKnown s.tasks t) recordTask s m.allTasks
  tasks_eq : s'.tasks = m.allTasks.foldl Table.put s.tasks
  effects_eq : s'.effects = m.allEffects.foldl Table.put s.effects
  owners_eq : s'.owners = m.allTasks.foldl putOwner s.owners
  waiters_eq : s'.waiters = m.allTasks.foldl putWaiters s.waiters
  queue_eq : s'.queue = m.allTasks.foldl putQueue s.queue
  sequence_eq : s'.sequence = s.sequence + 1

/-- Creating a conversation changes no other table. -/
lemma create_frame {s s₀ : SqliteStore} {m : MutationData} (h : s.create m = .ok s₀) :
    s₀ = { s with conversations := s₀.conversations } := by
  unfold create at h
  split at h
  · obtain rfl := Except.ok.inj h
    rfl
  · simp only [except_seq_eq_ok] at h
    obtain ⟨-, h⟩ := h
    split at h
    · obtain rfl := Except.ok.inj h
      rfl
    · simp only [except_bind_eq_ok] at h
      obtain ⟨-, -, h⟩ := h
      obtain rfl := Except.ok.inj h
      rfl

lemma ownerCycle_conversations (s : SqliteStore) (cs : ConversationTable) (taskId : String)
    (fuel : Nat) (seen : List String) (cursor : String) :
    ownerCycle { s with conversations := cs } taskId fuel seen cursor =
      s.ownerCycle taskId fuel seen cursor := by
  induction fuel generalizing seen cursor with
  | zero => rfl
  | succ fuel ih => simp only [ownerCycle, ih]

lemma validateTask_conversations (s : SqliteStore) (cs : ConversationTable) (t : TaskCheckpoint)
    (proposed : Option SubmissionDraft) (expected : Option String) :
    validateTask { s with conversations := cs } t proposed expected =
      s.validateTask t proposed expected := by
  simp only [validateTask, taskSubmission, validateTaskOwner, ownerCycle_conversations]

lemma foldOk_waits_congr {ts : List TaskCheckpoint} (h : s.tasks = s'.tasks) :
    FoldOk (fun s t => WaitsOnKnown s.tasks t) recordTask s ts ↔
      FoldOk (fun s t => WaitsOnKnown s.tasks t) recordTask s' ts := by
  induction ts generalizing s s' with
  | nil => rfl
  | cons t ts ih =>
    simp only [FoldOk, h]
    exact and_congr_right fun _ => ih (by simp only [recordTask, h])

/-- A validated mutation that is written leaves the rows it lists. -/
lemma accepted_of_write {s s₀ s' : SqliteStore} {m : DurableMutation} {c : ConversationRow}
    (hcreate : s.create m.toMutationData = .ok s₀)
    (hvalid : s₀.validateMutation m.toMutationData c = .ok ())
    (hnew : m.submission.all (fun d => (s₀.submissions.get? d.submissionId).isNone) = true)
    (hwrite : s₀.write m.toMutationData c = .ok s') : Accepted s m s' := by
  have hs₀ := create_frame hcreate
  generalize s₀.conversations = cs at hs₀
  subst hs₀
  simp only [validateMutation, except_seq_eq_ok] at hvalid
  obtain ⟨-, -, hvalid⟩ := hvalid
  obtain ⟨parent, -, hvalid⟩ := except_bind_eq_ok.mp hvalid
  simp only [except_seq_eq_ok, checkAll_eq_ok, Option.mem_toList, validateTask_conversations]
    at hvalid
  obtain ⟨-, htask, hupdates, heffects, -, hsubs⟩ := hvalid
  simp only [write, except_bind_eq_ok] at hwrite
  obtain ⟨s₁, h₁, s₂, h₂, s₃, h₃, s₄, h₄, s₅, h₅, h₆⟩ := hwrite
  have h₁ := foldE_writeEntry_frame h₁
  subst h₁
  obtain ⟨hwaits, h₂⟩ := foldE_writeTask_eq_ok.mp h₂
  have hids : ∀ e ∈ m.allEffects, ∀ row, s.effects.get? e.effectId = some row →
      row.identity = e.identity := by
    intro e he row hrow
    simp only [validateEffects, except_seq_eq_ok, checkAll_eq_ok] at heffects
    have := heffects.2 e he
    simp only [validateEffect, except_seq_eq_ok, hrow, require_eq_ok, decide_eq_true_eq] at this
    exact this.2.2.2
  have htwo := h₂.trans (foldl_recordTask _ _)
  have h₂₅ := writeEffects_eq m (by rw [htwo]; exact hids) h₃ h₄ h₅
  have hlast := foldE_writeSubmissionUpdate_frame h₆
  have hwaits : FoldOk (fun s t => WaitsOnKnown s.tasks t) recordTask s m.allTasks := by
    refine (foldOk_waits_congr ?_).mp hwaits
    rfl
  rw [hlast, h₂₅, htwo]
  exact {
    task := htask
    taskUpdates := hupdates
    effects := heffects
    updates := hsubs
    newSubmission := fun d hd => by simpa [Option.mem_def.mp hd] using hnew
    waits := hwaits
    tasks_eq := rfl
    effects_eq := rfl
    owners_eq := rfl
    waiters_eq := rfl
    queue_eq := rfl
    sequence_eq := rfl }

/-- What a deletion removes: the tasks of its conversation and the rows that belong to them. -/
structure Deleted (s : SqliteStore) (m : DurableMutation) (s' : SqliteStore) : Prop where
  childless : ∀ c ∈ s.conversations.rows, c.parentConversationId ≠ some m.conversationId
  tasks_eq : s'.tasks = s.tasks.filter (·.conversationId ≠ m.conversationId)
  effects_eq : s'.effects = s.effects.filter fun e =>
    !(s.tasks.get? e.taskId).any (·.conversationId = m.conversationId)
  sequence_eq : s'.sequence = s.sequence + 1

/-- The steps of a successful commit: it replays an admission, deletes a conversation, or creates
it where it has to, validates the mutation and writes it. -/
lemma commit_steps {m : DurableMutation} {r : CommitResult} (h : s.commit m = .ok (r, s')) :
    (s.findSubmission m.submission = .ok (some r) ∧ s' = s) ∨
    s.findSubmission m.submission = .ok none ∧
      ((m.deleteConversation = true ∧ ∃ c, s.delete m.toMutationData c = .ok s') ∨
      (m.deleteConversation = false ∧ ∃ s₀ c, s.create m.toMutationData = .ok s₀ ∧
        s₀.conversations.get? m.conversationId = some c ∧
        s₀.validateMutation m.toMutationData c = .ok () ∧
        m.submission.all (fun d => (s₀.submissions.get? d.submissionId).isNone) = true ∧
        s₀.write m.toMutationData c = .ok s' ∧
        r = ⟨(nextConversation m.toMutationData c).revision, s'.sequence,
          reportedSubmission m.toMutationData⟩)) := by
  obtain ⟨found, hfound, h⟩ := except_bind_eq_ok.mp h
  cases found with
  | some replayed =>
    obtain ⟨rfl, rfl⟩ := Prod.mk.inj (Except.ok.inj h)
    exact Or.inl ⟨hfound, rfl⟩
  | none =>
    refine Or.inr ⟨hfound, ?_⟩
    obtain ⟨s₀, hcreate, h⟩ := except_bind_eq_ok.mp h
    obtain ⟨c, hc, h⟩ := except_bind_eq_ok.mp h
    by_cases hdel : m.deleteConversation = true
    · simp only [hdel, if_true] at h
      obtain ⟨s₁, hs₁, h⟩ := except_last_eq_ok.mp h
      obtain ⟨-, rfl⟩ := Prod.mk.inj h
      have hnone : m.createConversation = none := by
        obtain ⟨-, -, hconv, -⟩ := m.checked
        simp only [MutationData.validateConversation, except_seq_eq_ok, require_eq_ok] at hconv
        simpa [hdel] using hconv.1
      obtain rfl : s = s₀ := by
        simp only [create, hnone] at hcreate
        exact Except.ok.inj hcreate
      exact Or.inl ⟨hdel, c, hs₁⟩
    · have hrow : s₀.conversations.get? m.conversationId = some c := by
        unfold conversation at hc
        split at hc
        · rename_i hget
          rw [hget, Except.ok.inj hc]
        · cases hc
      simp only [hdel, Bool.false_eq_true, if_false, except_seq_eq_ok, require_eq_ok] at h
      obtain ⟨hvalid, hnew, h⟩ := h
      obtain ⟨s₁, hs₁, h⟩ := except_last_eq_ok.mp h
      obtain ⟨rfl, rfl⟩ := Prod.mk.inj h
      exact Or.inr ⟨by simpa using hdel, s₀, c, hcreate, hrow, hvalid, hnew, hs₁, rfl⟩

/-- A successful commit replays an admission, deletes a conversation, or has validated its
mutation and written it. -/
theorem commit_cases {s s' : SqliteStore} {m : DurableMutation} {r : CommitResult}
    (h : s.commit m = .ok (r, s')) :
    (s' = s ∧ m.submission.isSome = true) ∨
    (m.deleteConversation = true ∧ Deleted s m s') ∨
    (m.deleteConversation = false ∧ Accepted s m s') := by
  rcases commit_steps h with ⟨hfound, rfl⟩ | ⟨-, ⟨hdel, c, hs'⟩ |
    ⟨hdel, s₀, c, hcreate, -, hvalid, hnew, hwrite, -⟩⟩
  · refine Or.inl ⟨rfl, ?_⟩
    cases hsub : m.submission with
    | none => simp [findSubmission, hsub] at hfound
    | some d => rfl
  · simp only [delete, except_seq_eq_ok, require_eq_ok] at hs'
    obtain ⟨hchild, -, hs'⟩ := hs'
    obtain rfl := Except.ok.inj hs'
    exact Or.inr (Or.inl ⟨hdel, by simpa using hchild, rfl, rfl, rfl⟩)
  · exact Or.inr (Or.inr ⟨hdel, accepted_of_write hcreate hvalid hnew hwrite⟩)

end SqliteStore

end Codey
