import Codey.Codemode.Replay
import Codey.Lib.Lists

/-!
# Steps of a task

What a commit adds to the timeline of a task that is not deleted, and what the state operations of
an execution read and change.
-/

namespace Codey

open LoggedStore

/-! ### Timelines -/

variable {taskId : String} {l l' : LoggedStore} {m : DurableMutation} {r : CommitResult}
  {tr : List (SqliteStore × DurableMutation)}

namespace LoggedStore

lemma Run.commits_le (h : Run tr l) : ∀ row ∈ l.commits, row.1 ≤ l.store.sequence := by
  induction h with
  | nil => simp
  | @snoc tr l l' m r _ hcommit ih =>
    obtain ⟨hle, new, hrows, hnew⟩ := commits_of_commit hcommit
    rw [hrows]
    intro row hrow
    rcases List.mem_append.mp hrow with hrow | hrow
    · exact (ih row hrow).trans hle
    · exact (hnew row hrow).2

lemma taskHistory_none {commits : List (Nat × Option Fields)} {n : Nat}
    (h : ∀ row ∈ commits, row.1 ≤ n) :
    Codey.taskHistory taskId none commits = Codey.taskHistory taskId (some n) commits := by
  induction commits with
  | nil => rfl
  | cons row commits ih =>
    obtain ⟨sequence, envelope⟩ := row
    have hle : sequence ≤ n := h _ List.mem_cons_self
    rw [Codey.taskHistory, Codey.taskHistory, ih fun row hrow => h row (List.mem_cons_of_mem _ hrow)]
    simp [hle]

lemma Run.taskTimeline (h : Run tr l) :
    Codey.taskHistory taskId none l.commits = .ok (transitions taskId tr) :=
  (taskHistory_none h.commits_le).trans (h.taskHistory le_rfl)

def Keeps (taskId : String) (l : LoggedStore) (m : DurableMutation) : Prop :=
  m.deleteConversation = true →
    ∀ row, l.store.tasks.get? taskId = some row → row.conversationId ≠ m.conversationId

/-- A commit leaves a task and its timeline alone, or it adds the next checkpoint to both. -/
lemma timeline_cases (tr : List (SqliteStore × DurableMutation)) (h : l.commit m = .ok (r, l'))
    (hkeeps : Keeps taskId l m) :
    (transitions taskId ((l.store, m) :: tr) = transitions taskId tr ∧
      l'.store.tasks.get? taskId = l.store.tasks.get? taskId) ∨
    ∃ t, transitions taskId ((l.store, m) :: tr) = transitions taskId tr ++ [t] ∧
      l'.store.tasks.get? taskId = some t.task ∧
      ∀ row, l.store.tasks.get? taskId = some row → t.task.revision = row.revision + 1 := by
  rcases commit_cases h with ⟨hwrites, -, rfl⟩ | ⟨hdel, hdeleted, -⟩ | ⟨hwrites, haccepted, -⟩
  · exact Or.inl ⟨by simp [transitions, hwrites], rfl⟩
  · refine Or.inl ⟨by simp [transitions, writes, hdel], ?_⟩
    rw [hdeleted.tasks_eq, Table.get?_filter]
    cases hrow : l.store.tasks.get? taskId with
    | none => rfl
    | some row => simp [hkeeps hdel row hrow]
  · rw [transitions, if_pos hwrites]
    rcases haccepted.get?_tasks taskId with ⟨t, ht, rfl, hget⟩ | ⟨hne, hget⟩
    · have hmine : m.allTasks.find? (·.taskId = t.taskId) = some t :=
        Table.find?_eq_some_of_mem m.allTasks_nodup ht
      refine Or.inr ⟨⟨l.store.sequence + 1, t, _, _⟩, by rw [recorded, hmine]; rfl, hget, ?_⟩
      intro row hrow
      rcases haccepted.validated ht with ⟨-, hvalid⟩ | ⟨-, hvalid⟩ <;>
        exact (SqliteStore.checked_of_validateTask hvalid hrow).1.revision
    · have hmine : m.allTasks.find? (·.taskId = taskId) = none := by
        simpa only [List.find?_eq_none, decide_eq_true_eq] using hne
      exact Or.inl ⟨by simp [recorded, hmine], hget⟩

/-- The checkpoints of a timeline have increasing revisions up to the stored one. -/
structure Charted (taskId : String) (tr : List (SqliteStore × DurableMutation)) (l : LoggedStore) :
    Prop where
  increasing : (transitions taskId tr).Pairwise fun t u => t.task.revision < u.task.revision
  within : ∀ t ∈ transitions taskId tr, ∃ row, l.store.tasks.get? taskId = some row ∧
    t.task.revision ≤ row.revision

lemma Charted.commit (hcharted : Charted taskId tr l) (h : l.commit m = .ok (r, l'))
    (hkeeps : Keeps taskId l m) : Charted taskId ((l.store, m) :: tr) l' := by
  rcases timeline_cases tr h hkeeps with ⟨hsame, hrow⟩ | ⟨t, hnew, hrow, hnext⟩
  · exact ⟨hsame ▸ hcharted.increasing, by rw [hsame, hrow]; exact hcharted.within⟩
  · have hlt : ∀ u ∈ transitions taskId tr, u.task.revision < t.task.revision := by
      intro u hu
      obtain ⟨row, hstored, hle⟩ := hcharted.within u hu
      have := hnext row hstored
      omega
    constructor
    · rw [hnew]
      refine List.pairwise_append.mpr ⟨hcharted.increasing, List.pairwise_singleton _ _, ?_⟩
      simpa using hlt
    · rw [hnew, hrow]
      intro u hu
      rcases List.mem_append.mp hu with hu | hu
      · exact ⟨t.task, rfl, (hlt u hu).le⟩
      · rw [List.mem_singleton.mp hu]
        exact ⟨t.task, rfl, le_rfl⟩

lemma Run.charted (h : Run tr l) (hkeeps : ∀ step ∈ tr, step.2.deleteConversation = true →
    ∀ row, step.1.tasks.get? taskId = some row → row.conversationId ≠ step.2.conversationId) :
    Charted taskId tr l := by
  induction h with
  | nil => exact ⟨List.Pairwise.nil, by simp [transitions]⟩
  | snoc hrun hcommit ih =>
    exact (ih fun step hstep => hkeeps step (List.mem_cons_of_mem _ hstep)).commit hcommit
      (hkeeps _ List.mem_cons_self)

lemma Charted.unique (h : Charted taskId tr l) {t u : TaskTransition}
    (ht : t ∈ transitions taskId tr) (hu : u ∈ transitions taskId tr)
    (heq : t.task.revision = u.task.revision) : t = u := by
  by_contra hne
  rcases pair_sublist_total ht hu hne with hsub | hsub
  · have := List.pairwise_iff_forall_sublist.mp h.increasing hsub
    omega
  · have := List.pairwise_iff_forall_sublist.mp h.increasing hsub
    omega

end LoggedStore

namespace Codemode

/-! ### Transactions -/

lemma passing_eq_ok {α : Type} {x : Except Error α} {a : α} :
    passing x = .ok a ↔ x = .ok a := by
  cases x <;> simp [passing]

lemma task_eq_ok {s : SqliteStore} {row : TaskCheckpoint} :
    s.task taskId = .ok row ↔ s.tasks.get? taskId = some row := by
  unfold SqliteStore.task
  cases s.tasks.get? taskId <;> simp

/-- A transaction reads the checkpoint and commits what is derived from it, if anything. -/
lemma transformTaskState_eq_ok {α : Type} {a : α} {wrote : Bool}
    {transform : TaskCheckpoint → Except Failure (Option Fields × α)}
    (h : transformTaskState taskId transform l = .ok (a, wrote, l')) :
    ∃ current, l.store.tasks.get? taskId = some current ∧
      ((wrote = false ∧ l' = l ∧ transform current = .ok (none, a)) ∨
        wrote = true ∧ ∃ patch m r, transform current = .ok (some patch, a) ∧
          stateMutation l current patch = .ok m ∧ l.commit m = .ok (r, l')) := by
  obtain ⟨current, hcurrent, h⟩ := except_bind_eq_ok.mp h
  obtain ⟨⟨patch, b⟩, hpatch, h⟩ := except_bind_eq_ok.mp h
  refine ⟨current, task_eq_ok.mp (passing_eq_ok.mp hcurrent), ?_⟩
  cases patch with
  | none =>
    simp only [Except.ok.injEq, Prod.mk.injEq] at h
    obtain ⟨rfl, rfl, rfl⟩ := h
    exact Or.inl ⟨rfl, rfl, hpatch⟩
  | some patch =>
    obtain ⟨m, hm, h⟩ := except_bind_eq_ok.mp h
    obtain ⟨⟨r, l₁⟩, hcommit, h⟩ := except_bind_eq_ok.mp h
    simp only [Except.ok.injEq, Prod.mk.injEq] at h
    obtain ⟨rfl, rfl, rfl⟩ := h
    exact Or.inr ⟨rfl, patch, m, r, hpatch, passing_eq_ok.mp hm, passing_eq_ok.mp hcommit⟩

/-- A committed patch is merged into the state of the next checkpoint. -/
lemma commit_stateMutation {current : TaskCheckpoint} {patch : Fields}
    (hcurrent : l.store.tasks.get? taskId = some current)
    (hm : stateMutation l current patch = .ok m) (h : l.commit m = .ok (r, l')) :
    Keeps taskId l m ∧ ∃ next, l'.store.tasks.get? taskId = some next ∧
      next.revision = current.revision + 1 ∧ next.state = current.state.merge patch := by
  obtain ⟨⟨head, revision⟩, -, hm⟩ := except_bind_eq_ok.mp hm
  obtain ⟨next, hnext, hm⟩ := except_bind_eq_ok.mp hm
  have hnext := TaskCheckpoint.make_eq_ok.mp hnext
  have hdata := DurableMutation.make_eq_ok.mp hm
  have hdel : m.deleteConversation = false := by rw [hdata]
  have hkey := Table.key_of_get? hcurrent
  have hid : next.taskId = taskId := (congrArg CheckpointData.taskId hnext).trans hkey
  have hkeeps : Keeps taskId l m := by
    intro hdeletes
    rw [hdel] at hdeletes
    cases hdeletes
  refine ⟨hkeeps, next, ?_, by rw [hnext], by rw [hnext]⟩
  rcases LoggedStore.commit_cases h with ⟨hwrites, -, -⟩ | ⟨hdeletes, -⟩ | ⟨-, haccepted, -⟩
  · simp [writes, hdata, SqliteStore.findSubmission] at hwrites
  · rw [hdel] at hdeletes
    cases hdeletes
  · have htasks : m.allTasks = [next] := by simp [MutationData.allTasks, hdata]
    rcases haccepted.get?_tasks taskId with ⟨t, ht, -, hget⟩ | ⟨hne, -⟩
    · rw [htasks, List.mem_singleton] at ht
      rw [hget, ht]
    · exact absurd hid (hne next (by simp [htasks]))

/-! ### Records -/

def entryIn (id : Identity) (current : TaskCheckpoint) : Option Json :=
  (recordsOf current).toOption.bind (Fields.get? · id.executionId)

def entryOf (id : Identity) (l : LoggedStore) : Option Json :=
  (l.store.tasks.get? id.taskId).bind (entryIn id)

variable {id : Identity} {host : Host} {op : StateOp} {current next : TaskCheckpoint}
  {record : Fields} {steps : List Json}

lemma recordOf_eq_ok : recordOf id current = .ok (record, steps) ↔
    entryIn id current = some (.obj record) ∧ Fields.get? record "state" = some (.arr steps) ∧
      recordFits id record = true := by
  unfold recordOf entryIn
  constructor
  · intro h
    obtain ⟨records, hrecords, h⟩ := except_bind_eq_ok.mp h
    split at h
    · cases h
    · rename_i found hentry
      split at h
      · rename_i state hstate
        obtain ⟨hfits, h⟩ := except_seq_eq_ok.mp h
        simp only [Except.ok.injEq, Prod.mk.injEq] at h
        obtain ⟨rfl, rfl⟩ := h
        exact ⟨by simpa [hrecords, Except.toOption] using hentry, hstate, by simpa using hfits⟩
      · cases h
    · cases h
  · rintro ⟨hentry, hstate, hfits⟩
    cases hrecords : recordsOf current with
    | error e => simp [hrecords, Except.toOption] at hentry
    | ok records =>
      have hentry : Fields.get? records id.executionId = some (.obj record) := by
        simpa [hrecords, Except.toOption] using hentry
      simp only [bind, Except.bind, hentry, hstate, hfits, require_true]

def StateOp.apply : StateOp → Fields → Fields
  | .store key value, values => values.set key value
  | .load _, values => values

lemma values_eq_ok {stored : Option Fields} {values : Fields}
    (hvalues : valuesAt current = .ok values) (h : op.values host current = .ok stored) :
    stored.getD values = op.apply values := by
  cases op with
  | load key =>
    obtain rfl := Except.ok.inj h
    rfl
  | store key value =>
    simp only [StateOp.values] at h
    cases hprepared : prepareStore host current key value with
    | error e =>
      rw [hprepared] at h
      cases h
    | ok prepared =>
      rw [hprepared] at h
      obtain rfl := Except.ok.inj h
      obtain ⟨-, hprepared⟩ := except_seq_eq_ok.mp hprepared
      obtain ⟨-, hprepared⟩ := except_seq_eq_ok.mp hprepared
      obtain ⟨found, hfound, hprepared⟩ := except_bind_eq_ok.mp hprepared
      obtain rfl := Except.ok.inj (hvalues.symm.trans hfound)
      exact (Except.ok.inj (except_seq_eq_ok.mp hprepared).2).symm

lemma recordFits_set (state : Json) :
    recordFits id (record.set "state" state) = recordFits id record := by
  simp [recordFits]

lemma get?_set_of_ne (state : Json) {key : String} (h : key ≠ "state") :
    Fields.get? (record.set "state" state) key = Fields.get? record key := by
  simp [Ne.symm h]

/-! ### State operations -/

lemma StateOp.request_injective {op' : StateOp} (h : op.request = op'.request) : op = op' := by
  cases op <;> cases op' <;> simp_all [request]

/-- An operation that commits nothing repeats a step of the record. -/
lemma stateStep_replayed {index : Nat} {history : Except Error (List TaskTransition)} {v : Json}
    (h : stateStep id host op index history current = .ok (none, v)) :
    ∃ record steps step, recordOf id current = .ok (record, steps) ∧ steps[index]? = some step ∧
      replayStep host op history step = .ok v := by
  obtain ⟨⟨record, steps⟩, hrecord, h⟩ := except_bind_eq_ok.mp h
  refine ⟨record, steps, ?_⟩
  simp only at h
  cases hstep : steps[index]? with
  | some step =>
    rw [hstep] at h
    obtain ⟨result, hresult, h⟩ := except_bind_eq_ok.mp h
    simp only [Except.ok.injEq, Prod.mk.injEq, true_and] at h
    exact ⟨step, hrecord, rfl, h ▸ hresult⟩
  | none =>
    rw [hstep] at h
    obtain ⟨⟨patch, result⟩, -, h⟩ := except_bind_eq_ok.mp (except_seq_eq_ok.mp h).2
    simp at h

/-- An operation that commits something adds a step to the record, and it changes the values. -/
lemma stateStep_new {index : Nat} {history : Except Error (List TaskTransition)} {v : Json}
    {patch : Fields} (h : stateStep id host op index history current = .ok (some patch, v))
    (hnext : next.state = current.state.merge patch) :
    ∃ record steps values, recordOf id current = .ok (record, steps) ∧ index = steps.length ∧
      valuesAt current = .ok values ∧ v = op.result values ∧
      valuesAt next = .ok (op.apply values) ∧
      entryIn id next = some (.obj (record.set "state"
        (.arr (steps ++ [stepOf host op (current.revision + 1)])))) := by
  obtain ⟨⟨record, steps⟩, hrecord, h⟩ := except_bind_eq_ok.mp h
  simp only at h
  cases hstep : steps[index]? with
  | some step =>
    rw [hstep] at h
    obtain ⟨result, -, h⟩ := except_bind_eq_ok.mp h
    simp at h
  | none =>
    rw [hstep] at h
    obtain ⟨hlength, h⟩ := except_seq_eq_ok.mp h
    obtain ⟨⟨patch', result⟩, hnew, h⟩ := except_bind_eq_ok.mp h
    simp only [Except.ok.injEq, Prod.mk.injEq, Option.some.injEq] at h
    obtain ⟨rfl, rfl⟩ := h
    obtain ⟨records, hrecords, hnew⟩ := except_bind_eq_ok.mp hnew
    obtain ⟨values, hvalues, hnew⟩ := except_bind_eq_ok.mp hnew
    obtain ⟨stored, hstored, hnew⟩ := except_bind_eq_ok.mp hnew
    simp only [Except.ok.injEq, Prod.mk.injEq] at hnew
    obtain ⟨rfl, rfl⟩ := hnew
    simp only [require_eq_ok, Bool.and_eq_true, decide_eq_true_eq] at hlength
    refine ⟨record, steps, values, hrecord, hlength.1, hvalues, rfl, ?_, ?_⟩
    · have happly := values_eq_ok hvalues hstored
      cases stored with
      | some stored => simp [valuesAt, hnext, ← happly]
      | none =>
        have hsame : next.state.get? "codemode_state" = current.state.get? "codemode_state" := by
          simp [hnext]
        rw [← happly, valuesAt, hsame]
        exact hvalues
    · cases stored <;> simp [entryIn, recordsOf, hnext, Except.toOption]

/-- A repeated operation has the request of its step, and its result is that of the values which the
revision of the step left. -/
lemma replayStep_eq_ok {op' : StateOp} {revision : Nat} {history : List TaskTransition} {v : Json}
    (h : replayStep host op (.ok history) (stepOf host op' revision) = .ok v) :
    host.digest op.request = host.digest op'.request ∧
      ((∀ values, v = op.result values) ∨ ∃ past ∈ history, past.task.revision = revision ∧
        ∃ values, valuesAt past.task = .ok values ∧ v = op.result values) := by
  obtain ⟨request, hrequest, h⟩ := except_bind_eq_ok.mp h
  obtain rfl := Except.ok.inj hrequest
  obtain ⟨hsame, h⟩ := except_seq_eq_ok.mp h
  have hsame : host.digest op'.request = host.digest op.request := by simpa using hsame
  refine ⟨hsame.symm, ?_⟩
  cases op with
  | store key value =>
    obtain rfl := Except.ok.inj h
    exact Or.inl fun _ => rfl
  | load key =>
    obtain ⟨past, hpast, h⟩ := except_bind_eq_ok.mp h
    obtain rfl := Except.ok.inj hpast
    obtain ⟨found, hfound, h⟩ := except_bind_eq_ok.mp h
    obtain rfl := Except.ok.inj hfound
    split at h
    · cases h
    · rename_i past hfind
      obtain ⟨values, hvalues, h⟩ := except_bind_eq_ok.mp h
      refine Or.inr ⟨past, List.mem_of_find?_eq_some hfind, ?_, values, hvalues,
        (Except.ok.inj h).symm⟩
      have hrevision := List.find?_some hfind
      simp only [Json.pyEq, Json.number?, beq_iff_eq, Option.some.injEq] at hrevision
      exact_mod_cast hrevision.symm

end Codemode

end Codey
