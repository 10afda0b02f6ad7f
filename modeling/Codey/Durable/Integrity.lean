import Codey.Durable.LoneCheckpoints
import Codey.Durable.Requests

/-!
# Integrity of the tables

After any commits, the tables that are derived from the task rows agree with them, and a row of a
task or of a submission stays what it is until its conversation is deleted.
-/

namespace Codey

variable {s s' : SqliteStore} {m : DurableMutation} {r : CommitResult} {id : String}

namespace SqliteStore

/-! ### Derived tables -/

/-- The edges join stored tasks, the second of which names the first. -/
def Linked (s : SqliteStore) (edges : List (String × String))
    (names : TaskCheckpoint → String → Prop) : Prop := ∀ a b, (a, b) ∈ edges →
  (s.tasks.get? a).isSome = true ∧ ∃ t, s.tasks.get? b = some t ∧ names t a

def Listed (s : SqliteStore) (edges : List (String × String))
    (names : TaskCheckpoint → String → Prop) : Prop :=
  ∀ a b t, s.tasks.get? b = some t → names t a → (a, b) ∈ edges

/-- Every edge that a task row names is listed. -/
def Named (s : SqliteStore) : Prop := (s.Listed s.owners fun t a => t.state.ownerTaskId = some a) ∧
  s.Listed s.waiters fun t a => a ∈ t.state.waitingOn

/-- The tables that are derived from the task rows agree with them. -/
structure Derived (s : SqliteStore) : Prop where
  queue : ∀ id, id ∈ s.queue ↔
    ∃ t, s.tasks.get? id = some t ∧ (t.status = .completing ∨ t.status = .waiting)
  owners : s.Linked s.owners fun t a => t.state.ownerTaskId = some a
  waiters : s.Linked s.waiters fun t a => a ∈ t.state.waitingOn

lemma Accepted.task_stored (h : Accepted s m s')
    (hid : (s.tasks.get? id).isSome = true ∨ ∃ t ∈ m.allTasks, t.taskId = id) :
    (s'.tasks.get? id).isSome = true := by
  rcases h.get?_tasks id with ⟨t, -, -, hget⟩ | ⟨hne, hget⟩
  · simp [hget]
  · rw [hget]
    refine hid.resolve_right ?_
    rintro ⟨t, ht, heq⟩
    exact hne t ht heq

section Edges

variable {names : TaskCheckpoint → String → Prop} {edges edges' : List (String × String)}

lemma Accepted.linked (h : Accepted s m s')
    {put : List (String × String) → TaskCheckpoint → List (String × String)}
    (hedges : edges' = m.allTasks.foldl put edges)
    (hput : ∀ edges t a b, (a, b) ∈ put edges t ↔
      if t.taskId = b then names t a else (a, b) ∈ edges)
    (hknown : ∀ t ∈ m.allTasks, ∀ a, names t a →
      (s.tasks.get? a).isSome = true ∨ ∃ t ∈ m.allTasks, t.taskId = a)
    (hs : s.Linked edges names) :
    s'.Linked edges' names ∧ (s.Listed edges names → s'.Listed edges' names) := by
  have hmem : ∀ a b, (a, b) ∈ edges' ↔
      (m.allTasks.find? (·.taskId = b)).elim ((a, b) ∈ edges) (names · a) := fun a b => by
    rw [hedges]
    exact Table.has_foldl (p := ((a, b) ∈ ·)) (hput · · a b) m.allTasks_nodup edges
  have hget : ∀ b, s'.tasks.get? b = _ := fun b => by
    rw [h.tasks_eq, Table.get?_foldl_put m.allTasks_nodup]
  refine ⟨fun a b hab => ?_, fun hl a b t ht hname => ?_⟩
  · rw [hmem] at hab
    rw [hget b]
    cases hfind : m.allTasks.find? (·.taskId = b) <;> rw [hfind] at hab
    · exact ⟨h.task_stored (Or.inl (hs a b hab).1), (hs a b hab).2⟩
    · exact ⟨h.task_stored (hknown _ (List.mem_of_find?_eq_some hfind) a hab), _, rfl, hab⟩
  · rw [hget b] at ht
    rw [hmem]
    cases hfind : m.allTasks.find? (·.taskId = b) <;> rw [hfind] at ht
    · exact hl a b t ht hname
    · obtain rfl := Option.some.inj ht
      exact hname

lemma Linked.filter (hs : s.Linked edges names) {p : TaskCheckpoint → Bool}
    (h : ∀ id t, s.tasks.get? id = some t → p t = false → s'.tasks.get? id = some t) :
    s'.Linked (edges.filter fun edge =>
      !(s.tasks.get? edge.1).any p && !(s.tasks.get? edge.2).any p) names := by
  intro a b hab
  obtain ⟨hab, hkept⟩ := List.mem_filter.mp hab
  obtain ⟨hstored, t, ht, hname⟩ := hs a b hab
  obtain ⟨t', ht'⟩ := Option.isSome_iff_exists.mp hstored
  simp only [ht, ht', Option.any_some, Bool.and_eq_true, Bool.not_eq_true'] at hkept
  exact ⟨by rw [h a t' ht' hkept.1]; rfl, t, h b t ht hkept.2, hname⟩

end Edges

/-- The tasks that written tasks wait for are stored, or written too. -/
lemma waited_known {ts : List TaskCheckpoint} {t : TaskCheckpoint}
    (h : FoldOk (fun s t => WaitsOnKnown s.tasks t) recordTask s ts) (ht : t ∈ ts)
    (hid : id ∈ t.state.waitingOn) :
    (s.tasks.get? id).isSome = true ∨ ∃ t ∈ ts, t.taskId = id := by
  induction ts generalizing s with
  | nil => cases ht
  | cons x ts ih =>
    have hknown : ((s.tasks.put x).get? id).isSome = true ∨ ∃ t ∈ ts, t.taskId = id := by
      rcases List.mem_cons.mp ht with rfl | ht
      · exact Or.inl (h.1 id hid).2
      · exact ih h.2 ht
    rcases hknown with hknown | ⟨t, ht, heq⟩
    · rw [Table.get?_put] at hknown
      split_ifs at hknown with heq
      · exact Or.inr ⟨x, List.mem_cons_self, heq⟩
      · exact Or.inl hknown
    · exact Or.inr ⟨t, List.mem_cons_of_mem x ht, heq⟩

lemma Accepted.owner_known (h : Accepted s m s') {t : TaskCheckpoint} (ht : t ∈ m.allTasks)
    (hid : t.state.ownerTaskId = some id) : (s.tasks.get? id).isSome = true := by
  have howner : s.validateTaskOwner t = .ok () := by
    rcases h.validated ht with ⟨-, hv⟩ | ⟨-, hv⟩ <;> cases hrow : s.tasks.get? t.taskId
    all_goals first
      | exact (revision_zero_of_validateTask hv hrow).2
      | exact (checked_of_validateTask hv hrow).2
  simp only [validateTaskOwner, hid, except_seq_eq_ok, require_eq_ok] at howner
  exact howner.2.1

lemma Accepted.derived (h : Accepted s m s') (hs : Derived s) :
    Derived s' ∧ (Named s → Named s') := by
  have howners := h.linked h.owners_eq
    (fun edges t a b => by by_cases hb : b = t.taskId <;> simp [putOwner, hb, eq_comm])
    (fun t ht a ha => Or.inl (h.owner_known ht ha)) hs.owners
  have hwaiters := h.linked h.waiters_eq
    (fun edges t a b => by by_cases hb : b = t.taskId <;> simp [putWaiters, hb, eq_comm])
    (fun t ht a ha => waited_known h.waits ht ha) hs.waiters
  have hqueue : ∀ id queue (t : TaskCheckpoint), id ∈ putQueue queue t ↔
      if t.taskId = id then t.status = .completing ∨ t.status = .waiting else id ∈ queue := by
    intro id queue t
    unfold putQueue
    by_cases hid : t.taskId = id
    · split_ifs <;> simp_all
    · split_ifs <;> simp_all [Ne.symm hid]
  refine ⟨⟨fun id => ?_, howners.1, hwaiters.1⟩, fun hl => ⟨howners.2 hl.1, hwaiters.2 hl.2⟩⟩
  rw [h.queue_eq, h.tasks_eq, Table.get?_foldl_put m.allTasks_nodup,
    Table.has_foldl (p := (id ∈ ·)) (hqueue id) m.allTasks_nodup]
  cases m.allTasks.find? (·.taskId = id) <;> simp [hs.queue]

lemma Derived.commit (hs : Derived s) (h : s.commit m = .ok (r, s')) : Derived s' ∧
    (m.deleteConversation = false → Named s → Named s') := by
  rcases commit_steps h with ⟨-, rfl⟩ | ⟨-, ⟨hdel, c, hdelete⟩ |
    ⟨-, s₀, c, hcreate, -, hvalid, hnew, hwrite, -⟩⟩
  · exact ⟨hs, fun _ h => h⟩
  · simp only [delete, except_seq_eq_ok] at hdelete
    obtain ⟨-, -, hdelete⟩ := hdelete
    obtain rfl := Except.ok.inj hdelete
    refine ⟨⟨fun id => ?_, hs.owners.filter fun id t ht hp => ?_,
      hs.waiters.filter fun id t ht hp => ?_⟩, fun h => ?_⟩
    · simp only [List.mem_filter, hs.queue, Table.get?_filter]
      cases hget : s.tasks.get? id with
      | none => simp
      | some t => by_cases hgone : t.conversationId = m.conversationId <;> simp [hgone]
    · simp_all
    · simp_all
    · rw [hdel] at h
      cases h
  · exact ((accepted_of_write hcreate hvalid hnew hwrite).derived hs).imp id fun h _ => h

end SqliteStore

/-! ### Runs -/

open SqliteStore

/-- The store after some commits, of which those that raise change nothing. -/
def SqliteStore.commits (s : SqliteStore) (ms : List DurableMutation) : SqliteStore :=
  ms.foldl (fun s m => match s.commit m with | .ok (_, s') => s' | .error _ => s) s

variable {ms : List DurableMutation}

lemma SqliteStore.commits_induction {P : SqliteStore → Prop} (hs : P s)
    (hstep : ∀ m ∈ ms, ∀ s r s', P s → s.commit m = .ok (r, s') → P s') : P (s.commits ms) := by
  induction ms generalizing s with
  | nil => exact hs
  | cons m ms ih =>
    refine ih ?_ fun m hm => hstep m (List.mem_cons_of_mem _ hm)
    cases h : s.commit m with
    | error => simpa [h] using hs
    | ok x => simpa [h] using hstep m List.mem_cons_self s x.1 x.2 hs h

/-- Whatever is committed, the derived tables agree with the task rows, and tasks have their
submission and conversation; as long as no conversation is deleted, the tables list every edge. -/
theorem derived_tables (ms : List DurableMutation) :
    (commits {} ms).Derived ∧ (commits {} ms).Housed ∧
      ((∀ m ∈ ms, m.deleteConversation = false) → (commits {} ms).Named) := by
  refine commits_induction
    (P := fun s => s.Derived ∧ s.Housed ∧ ((∀ m ∈ ms, m.deleteConversation = false) → s.Named))
    ⟨⟨by simp, by simp [Linked], by simp [Linked]⟩, fun t ht => (by cases ht),
      fun _ => by simp [Named, Listed]⟩ fun m hm s r s' hs h => ?_
  obtain ⟨hs', hl⟩ := hs.1.commit h
  exact ⟨hs', hs.2.1.commit h, fun hkept => hl (hkept m hm) (hs.2.2 hkept)⟩

/-- Every row of a table is gone, or has become another one as `R` says. -/
def Endures {ν : Type} {key : ν → String} (gone : ν → Prop) (R : ν → ν → Prop)
    (t t' : Table key) : Prop :=
  ∀ k v, t.get? k = some v → gone v ∨ ∃ v', t'.get? k = some v' ∧ R v v'

def Deletes (ms : List DurableMutation) (id : String) : Prop :=
  ∃ m ∈ ms, m.deleteConversation = true ∧ m.conversationId = id

/-- Rows endure when a commit that does not delete them with their conversation continues them. -/
lemma endures_commits {ν : Type} {key : ν → String} (f : SqliteStore → Table key)
    {R : ν → ν → Prop} (g : ν → String) (hrefl : ∀ v, R v v)
    (htrans : ∀ u v w, R u v → R v w → R u w) (hconv : ∀ v w, R v w → g w = g v)
    (hstep : ∀ m s r s', s.commit m = .ok (r, s') → (m.deleteConversation = true ∧
      f s' = (f s).filter (g · ≠ m.conversationId)) ∨
      ∀ k v, (f s).get? k = some v → ∃ v', (f s').get? k = some v' ∧ R v v') :
    Endures (Deletes ms <| g ·) R (f s) (f (s.commits ms)) := by
  refine commits_induction (P := fun s' => Endures (Deletes ms <| g ·) R (f s) (f s'))
    (fun k v hv => Or.inr ⟨v, hv, hrefl v⟩) fun m hm s₁ r s₂ hs₁ h k v hv => ?_
  rcases hs₁ k v hv with hgone | ⟨v₁, hv₁, h₁⟩
  · exact Or.inl hgone
  rcases hstep m s₁ r s₂ h with ⟨hdel, heq⟩ | hkept
  · by_cases hgone : m.conversationId = g v₁
    · exact Or.inl ⟨m, hm, hdel, hgone.trans (hconv v v₁ h₁)⟩
    · exact Or.inr ⟨v₁, by simp [heq, hv₁, Ne.symm hgone], h₁⟩
  · obtain ⟨v₂, hv₂, h₂⟩ := hkept k v₁ hv₁
    exact Or.inr ⟨v₂, hv₂, htrans v v₁ v₂ h₁ h₂⟩

/-- A row of no lower revision, which tells the versions of a row apart. -/
def Advances {ν : Type} (f : ν → Nat) (v w : ν) : Prop := f v ≤ f w ∧ (f w = f v → w = v)

section Advances

variable {ν : Type} {f : ν → Nat} {u v w : ν}

lemma Advances.refl (v : ν) : Advances f v v := ⟨le_rfl, fun _ => rfl⟩

lemma Advances.of_lt (h : f v < f w) : Advances f v w := ⟨h.le, fun heq => absurd heq h.ne'⟩

lemma Advances.trans (h : Advances f u v) (h' : Advances f v w) : Advances f u w := by
  refine ⟨h.1.trans h'.1, fun hrevision => ?_⟩
  have := h.1
  have := h'.1
  rw [h'.2 (by omega), h.2 (by omega)]

end Advances

/-- A task row that another one of the same task comes after. -/
structure TaskCheckpoint.Continues (t t' : TaskCheckpoint) : Prop where
  revision : Advances (·.revision) t t'
  conversation : t'.conversationId = t.conversationId
  submission : t'.submissionId = t.submissionId
  ended : t.status.terminal = true → t'.status = t.status

lemma TaskCheckpoint.Continues.refl (t : TaskCheckpoint) : t.Continues t :=
  ⟨.refl t, rfl, rfl, fun _ => rfl⟩

lemma TaskCheckpoint.Continues.trans {t u v : TaskCheckpoint} (h : t.Continues u)
    (h' : u.Continues v) : t.Continues v := by
  refine ⟨h.revision.trans h'.revision, h'.conversation.trans h.conversation,
    h'.submission.trans h.submission, fun hended => ?_⟩
  have hsame := h.ended hended
  exact (h'.ended (hsame ▸ hended)).trans hsame

lemma Checked.continues {t t' : TaskCheckpoint} {expected : Option String}
    (h : Checked t t' expected) : t.Continues t' := by
  have hlt : t.revision < t'.revision := by
    rw [h.revision]
    exact Nat.lt_succ_self _
  refine ⟨.of_lt hlt, h.conversation.symm, h.submission.symm, fun hended => ?_⟩
  rcases h.status with hconsumed | htransition
  · simp only [validInputConsumption, Bool.and_eq_true, decide_eq_true_eq] at hconsumed
    simp [hconsumed.1.1.1.1.1.1.1.1.1.2, TaskStatus.terminal] at hended
  · exact TaskStatus.terminal_of_transition htransition hended

/-- A task row stays until its conversation is deleted: its revision tells its versions apart and
only grows, and a task that has ended keeps its status. -/
theorem tasks_endure (s : SqliteStore) (ms : List DurableMutation) :
    Endures (Deletes ms ·.conversationId) TaskCheckpoint.Continues s.tasks (s.commits ms).tasks := by
  refine endures_commits (·.tasks) (·.conversationId) .refl
    (fun _ _ _ => .trans) (fun _ _ h => h.conversation) fun m s r s' hcommit => ?_
  rcases commit_cases hcommit with ⟨rfl, -⟩ | ⟨hdel, hd⟩ | ⟨-, ha⟩
  · exact Or.inr fun id t ht => ⟨t, ht, .refl t⟩
  · exact Or.inl ⟨hdel, hd.tasks_eq⟩
  refine Or.inr fun id t ht => ?_
  rcases ha.get?_tasks id with ⟨t', hmem, rfl, hget⟩ | ⟨-, hget⟩
  · rcases ha.validated hmem with ⟨-, hv⟩ | ⟨-, hv⟩ <;>
      exact ⟨t', hget, (checked_of_validateTask hv ht).1.continues⟩
  · exact ⟨t, hget.trans ht, .refl t⟩

/-- A submission row that another one of the same submission comes after. -/
structure SubmissionRow.Continues (row row' : SubmissionRow) : Prop where
  admitted : row'.admitted = row.admitted
  ended : submissionTransitions row.status = [] → row'.status = row.status
  placed : row.placement = .placed → row'.placement = .placed
  input : row.entryId.isSome = true → row'.entryId.isSome = true

lemma SubmissionRow.Continues.refl (row : SubmissionRow) : row.Continues row :=
  ⟨rfl, fun _ => rfl, fun h => h, fun h => h⟩

lemma SqliteStore.Written.submission_continues {s₀ : SqliteStore} {c : ConversationRow}
    (hw : Written s m s₀ c s') {row : SubmissionRow} (hrow : s.submissions.get? id = some row) :
    ∃ row', s'.submissions.get? id = some row' ∧ row.Continues row' := by
  rw [hw.get?_submissions]
  split
  · rename_i u hfind
    have hid : u.submissionId = id := by simpa using List.find?_some hfind
    have hvalid := hw.updates u (List.mem_of_find?_eq_some hfind)
    rw [validateSubmissionUpdate, hid, hrow] at hvalid
    simp only [except_seq_eq_ok, require_eq_ok, decide_eq_true_eq, Bool.and_eq_true,
      Bool.or_eq_true] at hvalid
    obtain ⟨-, ⟨-, hstatus⟩, -, -, -, hplaced, -⟩ := hvalid
    refine ⟨updatedRow row u, by rw [hrow, Option.map_some], rfl, fun hended => ?_, fun h => ?_,
      fun hinput => ?_⟩
    · rcases hstatus with hsame | htransition
      · exact hsame.symm
      · simp [validSubmissionTransition, hended] at htransition
    · cases hplacement : u.placement <;> simp_all [updatedRow]
    · cases hentry : u.inputEntryId <;> simp [updatedRow, hentry, hinput]
  · refine ⟨row, ?_, .refl row⟩
    unfold admittedRows
    cases hd : m.submission with
    | none => exact hrow
    | some d =>
      refine (Table.get?_put_of_ne _ fun heq => ?_).trans hrow
      rw [← heq] at hrow
      exact absurd hrow (by simp [submissionRow, hw.newSubmission d hd])

/-- A submission stays what it was admitted as until its conversation is deleted: once it is placed
or has its input it keeps them, and once it is settled it keeps its status. -/
theorem submissions_endure (s : SqliteStore) (ms : List DurableMutation) :
    Endures (Deletes ms ·.conversationId) SubmissionRow.Continues s.submissions
      (s.commits ms).submissions := by
  refine endures_commits (·.submissions) (·.conversationId) .refl
    (fun t u v h h' => ⟨h'.admitted.trans h.admitted, fun hended => ?_, h'.placed ∘ h.placed,
      h'.input ∘ h.input⟩) (fun _ _ h => congrArg Admitted.conversationId h.admitted)
    fun m s r s' hcommit => ?_
  · have hsame := h.ended hended
    exact (h'.ended (hsame ▸ hended)).trans hsame
  rcases commit_writes hcommit with ⟨-, rfl⟩ | ⟨hdel, -, hr⟩ | ⟨-, -, s₀, c, hw, -⟩
  · exact Or.inr fun id row hrow => ⟨row, hrow, .refl row⟩
  · exact Or.inl ⟨hdel, hr.submissions_eq⟩
  · exact Or.inr fun id row hrow => hw.submission_continues hrow

/-- Entries stay as they were written until their conversation is deleted. -/
theorem entries_endure (s : SqliteStore) (ms : List DurableMutation) :
    Endures (Deletes ms ·.conversationId) Eq s.entries (s.commits ms).entries := by
  refine endures_commits (·.entries) (·.conversationId) Eq.refl (fun _ _ _ => Eq.trans)
    (fun _ _ h => h ▸ rfl) fun m s r s' hcommit => ?_
  rcases commit_writes hcommit with ⟨-, rfl⟩ | ⟨hdel, -, hr⟩ | ⟨-, -, s₀, c, hw, -⟩
  · exact Or.inr fun id e he => ⟨e, he, rfl⟩
  · exact Or.inl ⟨hdel, hr.entries_eq⟩
  · refine Or.inr fun id e he => ⟨e, ?_, rfl⟩
    rw [Table.get?] at he ⊢
    rw [hw.entries_eq, List.find?_append, he, Option.some_or]

lemma advances_nextConversation (m : MutationData) (c : ConversationRow) :
    Advances (·.revision) c (nextConversation m c) := by
  unfold nextConversation
  split
  · exact .of_lt (Nat.lt_succ_self _)
  · split
    · rename_i hlast
      exact .of_lt (Nat.lt_add_of_pos_right
        (List.length_pos_of_mem (List.mem_of_getLast? hlast)))
    · exact .refl c

/-- A conversation stays until it is deleted: its head moves with its revision only, which never
falls, and it keeps the place that it was forked from. -/
theorem conversations_endure (s : SqliteStore) (ms : List DurableMutation) :
    Endures (Deletes ms ·.id) (fun c c' => Advances (·.revision) c c' ∧
        c' = { c with headEntryId := c'.headEntryId, revision := c'.revision })
      s.conversations (s.commits ms).conversations := by
  refine endures_commits (·.conversations) (·.id) (fun c => ⟨.refl c, rfl⟩)
    (fun u v w h h' => ⟨h.1.trans h'.1, ?_⟩) (fun _ _ h => congrArg (·.id) h.2)
    fun m s r s' hcommit => ?_
  · rw [h'.2, h.2]
  rcases commit_writes hcommit with ⟨-, rfl⟩ | ⟨hdel, -, hr⟩ | ⟨-, -, s₀, c, hw, -⟩
  · exact Or.inr fun id c hc => ⟨c, hc, .refl c, rfl⟩
  · exact Or.inl ⟨hdel, hr.conversations_eq⟩
  · refine Or.inr fun id c hc => ?_
    obtain ⟨c', hget, rfl | rfl⟩ := hw.conversation_kept hc
    · exact ⟨c', hget, .refl c', rfl⟩
    · exact ⟨_, hget, advances_nextConversation _ _, nextConversation_frame _ _⟩

end Codey
