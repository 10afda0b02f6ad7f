import Codey.Durable.EffectLedger
import Codey.Durable.SqliteWrites
import Codey.Durable.Timeline

/-!
# Time travel

`task_at` replays the envelopes that name a task. The replay gives the checkpoint that was stored at
the time, and its effects together with those of deleted tasks of the same id.
-/

namespace Codey

structure LoggedStore where
  store : SqliteStore := {}
  commits : List (Nat × Option Fields) := []

namespace LoggedStore

def newHead (s : SqliteStore) (m : MutationData) : Option String :=
  let head := match m.createConversation with
    | some _ => none
    | none => (s.conversations.get? m.conversationId).bind (·.headEntryId)
  m.branchEntryId.or ((m.entries.getLast?.map (·.entryId)).or head)

def envelope (s : SqliteStore) (m : MutationData) : Option Fields :=
  if m.deleteConversation then none else some (executionPayload m (newHead s m))

/-- `SQLiteDurableStore.commit` with the row that it adds to `commits`. -/
def commit (l : LoggedStore) (m : DurableMutation) : Except Error (CommitResult × LoggedStore) := do
  let found ← l.store.findSubmission m.submission
  let (r, s) ← l.store.commit m
  let commits := if found.isSome then l.commits
    else l.commits ++ [(s.sequence, envelope l.store m.toMutationData)]
  pure (r, ⟨s, commits⟩)

def taskAt (l : LoggedStore) (taskId : String) (commitSeq : Nat) : Except Error TaskSnapshot := do
  let history ← taskHistory taskId (some commitSeq) l.commits
  snapshotAt history

/-- A run from the empty store: the mutations that were committed, the last one first, each with
the store that it was committed to. -/
inductive Run : List (SqliteStore × DurableMutation) → LoggedStore → Prop where
  | nil : Run [] {}
  | snoc {tr : List (SqliteStore × DurableMutation)} {l l' : LoggedStore} {m : DurableMutation}
      {r : CommitResult} : Run tr l → l.commit m = .ok (r, l') → Run ((l.store, m) :: tr) l'

/-- A store at some later time. -/
def Continues (l l' : LoggedStore) : Prop :=
  Relation.ReflTransGen (fun l l' => ∃ m r, commit l m = .ok (r, l')) l l'

def writes (s : SqliteStore) (m : MutationData) : Bool :=
  !m.deleteConversation && match s.findSubmission m.submission with
    | .ok none => true
    | _ => false

def Deletes (taskId effectId : String) (s : SqliteStore) (m : MutationData) : Prop :=
  m.deleteConversation = true ∧
    (∃ t, s.tasks.get? taskId = some t ∧ t.conversationId = m.conversationId) ∧
    ∃ e, s.effects.get? effectId = some e ∧ e.taskId = taskId

def Records (taskId effectId : String) (s : SqliteStore) (m : MutationData) : Prop :=
  writes s m = true ∧ ∃ e ∈ m.allEffects, e.effectId = effectId ∧ e.taskId = taskId

/-- An effect of a deleted task that no later task of the same id has recorded again. -/
def LeftOver (taskId effectId : String) : List (SqliteStore × DurableMutation) → Prop
  | [] => False
  | (s, m) :: tr => Deletes taskId effectId s m.toMutationData ∨
      LeftOver taskId effectId tr ∧ ¬ Records taskId effectId s m.toMutationData

/-! ### Commits -/

variable {l l' : LoggedStore} {m : DurableMutation} {r : CommitResult} {taskId : String}
  {tr : List (SqliteStore × DurableMutation)}

/-- A commit replays an admission, deletes a conversation, or writes its rows and its envelope. -/
lemma commit_cases (h : l.commit m = .ok (r, l')) :
    (writes l.store m.toMutationData = false ∧ m.deleteConversation = false ∧ l' = l) ∨
    (m.deleteConversation = true ∧ SqliteStore.Deleted l.store m l'.store ∧
      l'.commits = l.commits ++ [(l.store.sequence + 1, none)]) ∨
    (writes l.store m.toMutationData = true ∧ SqliteStore.Accepted l.store m l'.store ∧
      l'.commits = l.commits ++ [(l.store.sequence + 1,
        some (executionPayload m.toMutationData (newHead l.store m.toMutationData)))]) := by
  obtain ⟨found, hfound, h⟩ := except_bind_eq_ok.mp h
  obtain ⟨⟨r', s'⟩, hcommit, h⟩ := except_last_eq_ok.mp h
  obtain ⟨rfl, rfl⟩ := Prod.mk.inj h
  rcases SqliteStore.commit_writes hcommit with ⟨hsome, rfl⟩ | ⟨hdel, hnone, hr⟩ | ⟨hdel, hnone, hw⟩
  · obtain rfl := Except.ok.inj (hfound.symm.trans hsome)
    refine Or.inl ⟨?_, ?_, rfl⟩
    · simp [writes, hsome]
    · by_contra hdel
      have honly := m.conversationOnly_of_delete (by simpa using hdel)
      simp only [MutationData.conversationOnly, Bool.and_eq_true, Option.isNone_iff_eq_none] at honly
      simp [honly.1.1.2, SqliteStore.findSubmission] at hsome
  · obtain rfl := Except.ok.inj (hfound.symm.trans hnone)
    refine Or.inr (Or.inl ⟨hdel, ?_, ?_⟩)
    · rcases SqliteStore.commit_cases hcommit with ⟨rfl, -⟩ | ⟨-, hdeleted⟩ | ⟨hkept, -⟩
      · have := hr.sequence_eq
        omega
      · exact hdeleted
      · rw [hdel] at hkept
        cases hkept
    · simp [envelope, hdel, hr.sequence_eq]
  · obtain rfl := Except.ok.inj (hfound.symm.trans hnone)
    obtain ⟨s₀, c, hw, -⟩ := hw
    refine Or.inr (Or.inr ⟨?_, ?_, ?_⟩)
    · simp [writes, hdel, hnone]
    · rcases SqliteStore.commit_cases hcommit with ⟨rfl, -⟩ | ⟨hdel', -⟩ | ⟨-, haccepted⟩
      · have := hw.sequence_eq
        omega
      · rw [hdel] at hdel'
        cases hdel'
      · exact haccepted
    · simp [envelope, hdel, hw.sequence_eq]

/-! ### Histories -/

lemma taskHistory_append {through : Option Nat} {a b : List (Nat × Option Fields)}
    {x y : List TaskTransition} (hx : taskHistory taskId through a = .ok x)
    (hy : taskHistory taskId through b = .ok y) :
    taskHistory taskId through (a ++ b) = .ok (x ++ y) := by
  induction a generalizing x with
  | nil =>
    obtain rfl := Except.ok.inj hx
    exact hy
  | cons row a ih =>
    obtain ⟨sequence, envelope⟩ := row
    rw [List.cons_append]
    unfold taskHistory at hx ⊢
    split at hx
    · obtain ⟨transition, htransition, hx⟩ := except_bind_eq_ok.mp hx
      obtain ⟨history, hhistory, rfl⟩ := except_last_eq_ok.mp hx
      refine except_bind_eq_ok.mpr ⟨transition, htransition, ?_⟩
      exact except_bind_eq_ok.mpr ⟨_, ih hhistory, rfl⟩
    · exact ih hx

/-- What the commits of a run record of a task. -/
def transitions (taskId : String) : List (SqliteStore × DurableMutation) → List TaskTransition
  | [] => []
  | (s, m) :: tr => transitions taskId tr ++
      (if writes s m.toMutationData then
        recorded m.toMutationData taskId (s.sequence + 1) (newHead s m.toMutationData)
      else none).toList

/-- The envelope of a written mutation is read back as what it records. -/
lemma taskHistory_executionPayload (m : MutationData) {n sequence : Nat} (hn : sequence ≤ n)
    (head : Option String) :
    taskHistory taskId (some n) [(sequence, some (executionPayload m head))] =
      .ok (recorded m taskId sequence head).toList := by
  unfold taskHistory
  have hnames := namesTask_executionPayload m head taskId
  cases hrecorded : recorded m taskId sequence head with
  | none =>
    have hnone : m.allTasks.any (·.taskId = taskId) = false := by
      unfold recorded at hrecorded
      rw [Option.map_eq_none_iff, List.find?_eq_none] at hrecorded
      simpa using hrecorded
    simp [Option.filter_some, hnames, hnone, taskHistory]
  | some transition =>
    have hany : m.allTasks.any (·.taskId = taskId) = true := by
      obtain ⟨t, ht, -⟩ := Option.map_eq_some_iff.mp hrecorded
      have hid := List.find?_some ht
      rw [List.any_eq_true]
      exact ⟨t, List.mem_of_find?_eq_some ht, hid⟩
    have hread := transitionFromPayload_executionPayload hrecorded
    simp [Option.filter_some, hnames, hany, hn, hread, taskHistory, bind, Except.bind, pure,
      Except.pure]

lemma commits_of_commit (h : l.commit m = .ok (r, l')) : l.store.sequence ≤ l'.store.sequence ∧
    ∃ new, l'.commits = l.commits ++ new ∧
      ∀ row ∈ new, l.store.sequence < row.1 ∧ row.1 ≤ l'.store.sequence := by
  rcases commit_cases h with ⟨-, -, rfl⟩ | ⟨-, hdeleted, hrows⟩ | ⟨-, haccepted, hrows⟩
  · exact ⟨le_rfl, [], by simp, by simp⟩
  · have := hdeleted.sequence_eq
    exact ⟨by omega, _, hrows, by simp [this]⟩
  · have := haccepted.sequence_eq
    exact ⟨by omega, _, hrows, by simp [this]⟩

/-- The envelopes of a run are read back as what its commits record. -/
lemma Run.taskHistory (h : Run tr l) {n : Nat} (hn : l.store.sequence ≤ n) :
    Codey.taskHistory taskId (some n) l.commits = .ok (transitions taskId tr) := by
  induction h with
  | nil => rfl
  | @snoc tr l l' m r _ hcommit ih =>
    have ih := ih ((commits_of_commit hcommit).1.trans hn)
    rcases commit_cases hcommit with ⟨hwrites, -, rfl⟩ | ⟨hdel, -, hrows⟩ |
      ⟨hwrites, haccepted, hrows⟩
    · simp [transitions, hwrites, ih]
    · have hnot : writes l.store m.toMutationData = false := by simp [writes, hdel]
      rw [hrows]
      refine taskHistory_append ih ?_
      simp [hnot, Codey.taskHistory]
    · rw [hrows]
      refine taskHistory_append ih ?_
      rw [hwrites, if_pos rfl]
      exact taskHistory_executionPayload _ (haccepted.sequence_eq ▸ hn) _

/-- Later commits do not change what is read through an earlier one. -/
lemma Continues.taskHistory (h : Continues l l') {history : List TaskTransition}
    (hhistory : Codey.taskHistory taskId (some l.store.sequence) l.commits = .ok history) :
    Codey.taskHistory taskId (some l.store.sequence) l'.commits = .ok history ∧
      l.store.sequence ≤ l'.store.sequence := by
  induction h with
  | refl => exact ⟨hhistory, le_rfl⟩
  | @tail l₁ l₂ _ hcommit ih =>
    obtain ⟨m, r, hcommit⟩ := hcommit
    obtain ⟨hle, new, hrows, hnew⟩ := commits_of_commit hcommit
    refine ⟨?_, ih.2.trans hle⟩
    rw [hrows, ← List.append_nil history]
    refine taskHistory_append ih.1 ?_
    clear hrows
    induction new with
    | nil => rfl
    | cons row new ihnew =>
      have hrow := hnew row (by simp)
      have hlate : ¬ row.1 ≤ l.store.sequence := by
        have := ih.2
        omega
      unfold Codey.taskHistory
      rw [Option.filter_eq_none_iff.mpr (by simp [hlate])]
      exact ihnew fun row hmem => hnew row (by simp [hmem])

/-! ### Replayed effects -/

lemma get?_replayedEffects_snoc (ts : List TaskTransition) {t : TaskTransition}
    (hnodup : (t.effectChanges.map (·.effectId)).Nodup) (x : String) :
    (replayedEffects (ts ++ [t])).get? x =
      (t.effectChanges.find? (·.effectId = x)).or ((replayedEffects ts).get? x) := by
  rw [replayedEffects, List.flatMap_append, List.foldl_append, List.flatMap_singleton,
    Table.get?_foldl_put hnodup]
  rfl

/-- What a written mutation adds to the replayed effects: its effects of the task. -/
lemma get?_replayedEffects_write (tr : List (SqliteStore × DurableMutation)) {s : SqliteStore}
    (hwrites : writes s m.toMutationData = true)
    (htask : ∀ e ∈ m.allEffects, e.taskId = taskId → m.allTasks.any (·.taskId = taskId) = true)
    (x : String) :
    (replayedEffects (transitions taskId ((s, m) :: tr))).get? x =
      (m.allEffects.find? fun e => e.taskId = taskId && e.effectId = x).or
        ((replayedEffects (transitions taskId tr)).get? x) := by
  rw [transitions, if_pos hwrites]
  unfold recorded
  cases hfind : m.allTasks.find? (·.taskId = taskId) with
  | none =>
    have hnone : (m.allEffects.find? fun e => e.taskId = taskId && e.effectId = x) = none := by
      rw [List.find?_eq_none]
      intro e he hboth
      simp only [Bool.and_eq_true, decide_eq_true_eq] at hboth
      obtain ⟨t, ht, htid⟩ := List.any_eq_true.mp (htask e he hboth.1)
      exact List.find?_eq_none.mp hfind t ht htid
    simp [hnone]
  | some t =>
    rw [Option.map_some, Option.toList_some, get?_replayedEffects_snoc, List.find?_filter]
    · congr 2
      funext e
      simp only [Bool.decide_and, Bool.decide_eq_true]
    · exact (List.filter_sublist.map _).nodup m.allEffects_nodup

/-- How the replay of a task compares with the rows that are stored for it. -/
structure Replays (taskId : String) (tr : List (SqliteStore × DurableMutation)) (l : LoggedStore) :
    Prop where
  /-- The checkpoint that was recorded last is the stored one. -/
  task : ∀ row, l.store.tasks.get? taskId = some row →
    (transitions taskId tr).getLast?.map (·.task) = some row
  /-- Stored effects are replayed. -/
  stored : ∀ e, l.store.effects.get? e.effectId = some e → e.taskId = taskId →
    (replayedEffects (transitions taskId tr)).get? e.effectId = some e
  /-- What is replayed besides is left over. -/
  replayed : ∀ x, LeftOver taskId x tr ↔
    (∃ e, (replayedEffects (transitions taskId tr)).get? x = some e) ∧
      ¬ ∃ e, l.store.effects.get? x = some e ∧ e.taskId = taskId

namespace Replays

/-- A deletion leaves the effects of the tasks that it removes in the replay. -/
lemma deleted (h : Replays taskId tr l) (hdel : m.deleteConversation = true)
    (hd : SqliteStore.Deleted l.store m l'.store) : Replays taskId ((l.store, m) :: tr) l' := by
  have hwrites : writes l.store m.toMutationData = false := by simp [writes, hdel]
  have hsame : transitions taskId ((l.store, m) :: tr) = transitions taskId tr := by
    simp [transitions, hwrites]
  have hrecords : ∀ x, ¬ Records taskId x l.store m.toMutationData := by
    rintro x ⟨hw, -⟩
    rw [hwrites] at hw
    cases hw
  have hkept : ∀ {x e}, l'.store.effects.get? x = some e → l.store.effects.get? x = some e := by
    intro x e he
    rw [hd.effects_eq, Table.get?_filter] at he
    exact (Option.filter_eq_some_iff.mp he).1
  refine ⟨fun row hrow => ?_, fun e he hid => ?_, fun x => ?_⟩
  · rw [hsame]
    rw [hd.tasks_eq, Table.get?_filter] at hrow
    exact h.task row (Option.filter_eq_some_iff.mp hrow).1
  · rw [hsame]
    exact h.stored e (hkept he) hid
  · rw [hsame]
    constructor
    · rintro (⟨-, ⟨t, ht, hconv⟩, e, he, hid⟩ | ⟨hleft, -⟩)
      · obtain rfl := Table.key_of_get? he
        refine ⟨⟨e, h.stored e he hid⟩, ?_⟩
        rintro ⟨e', he', -⟩
        rw [hd.effects_eq, Table.get?_filter] at he'
        obtain ⟨hstored, hlive⟩ := Option.filter_eq_some_iff.mp he'
        obtain rfl := Option.some.inj (he.symm.trans hstored)
        rw [hid, ht] at hlive
        simp [hconv] at hlive
      · obtain ⟨hreplayed, hnot⟩ := (h.replayed x).mp hleft
        exact ⟨hreplayed, fun ⟨e, he, hid⟩ => hnot ⟨e, hkept he, hid⟩⟩
    · rintro ⟨hreplayed, hnot⟩
      by_cases hbefore : ∃ e, l.store.effects.get? x = some e ∧ e.taskId = taskId
      · obtain ⟨e, he, hid⟩ := hbefore
        refine Or.inl ⟨hdel, ?_, e, he, hid⟩
        by_contra hno
        refine hnot ⟨e, ?_, hid⟩
        rw [hd.effects_eq, Table.get?_filter, he, Option.filter_some, hid]
        cases ht : l.store.tasks.get? taskId with
        | none => simp
        | some t =>
          have hconv : t.conversationId ≠ m.conversationId := fun hconv => hno ⟨t, ht, hconv⟩
          simp [hconv]
      · exact Or.inr ⟨(h.replayed x).mpr ⟨hreplayed, hbefore⟩, hrecords x⟩

/-- A written mutation replaces what it records. -/
lemma written (h : Replays taskId tr l) (hwrites : writes l.store m.toMutationData = true)
    (ha : SqliteStore.Accepted l.store m l'.store) : Replays taskId ((l.store, m) :: tr) l' := by
  have hkept : m.deleteConversation = false := by
    simp only [writes, Bool.and_eq_true, Bool.not_eq_true'] at hwrites
    exact hwrites.1
  have htask : ∀ e ∈ m.allEffects, e.taskId = taskId →
      m.allTasks.any (·.taskId = taskId) = true := by
    intro e he hid
    obtain ⟨t, ht, heq⟩ := ha.effect_task he
    rw [List.any_eq_true]
    exact ⟨t, by simp [MutationData.allTasks, ht], by simp [← heq, hid]⟩
  have hnew : ∀ x, _ := get?_replayedEffects_write tr hwrites htask
  -- an effect of the mutation is the only one of its id
  have hunique : ∀ e ∈ m.allEffects, ∀ f ∈ m.allEffects, f.effectId = e.effectId → f = e := by
    intro e he f hf heq
    have hfe := Table.find?_eq_some_of_mem m.allEffects_nodup he
    have hff := Table.find?_eq_some_of_mem m.allEffects_nodup hf
    rw [heq, hfe] at hff
    exact (Option.some.inj hff).symm
  have hfind : ∀ e ∈ m.allEffects, e.taskId = taskId →
      (m.allEffects.find? fun f => f.taskId = taskId && f.effectId = e.effectId) = some e := by
    intro e he hid
    cases hf : m.allEffects.find? fun f => f.taskId = taskId && f.effectId = e.effectId with
    | none => simpa [hid] using List.find?_eq_none.mp hf e he
    | some f =>
      have hboth := List.find?_some hf
      simp only [Bool.and_eq_true, decide_eq_true_eq] at hboth
      rw [hunique e he f (List.mem_of_find?_eq_some hf) hboth.2]
  have hnone : ∀ x, (∀ e ∈ m.allEffects, e.effectId = x → e.taskId ≠ taskId) →
      (m.allEffects.find? fun f => f.taskId = taskId && f.effectId = x) = none := by
    intro x hx
    rw [List.find?_eq_none]
    intro f hf hboth
    simp only [Bool.and_eq_true, decide_eq_true_eq] at hboth
    exact hx f hf hboth.2 hboth.1
  refine ⟨fun row hrow => ?_, fun e he hid => ?_, fun x => ?_⟩
  · rw [transitions, if_pos hwrites]
    rcases ha.get?_tasks taskId with ⟨t, ht, rfl, hget⟩ | ⟨hne, hget⟩
    · obtain rfl := Option.some.inj (hget.symm.trans hrow)
      have hmine : m.allTasks.find? (·.taskId = t.taskId) = some t :=
        Table.find?_eq_some_of_mem m.allTasks_nodup ht
      simp [recorded, hmine]
    · have hmine : m.allTasks.find? (·.taskId = taskId) = none := by
        simpa only [List.find?_eq_none, decide_eq_true_eq] using hne
      have hrow := h.task row (by rw [← hget, hrow])
      simpa [recorded, hmine] using hrow
  · rw [hnew]
    rcases ha.get?_effects e.effectId with ⟨f, hf, -, hget⟩ | ⟨hne, hget⟩
    · obtain rfl := Option.some.inj (hget.symm.trans he)
      rw [hfind f hf hid, Option.some_or]
    · rw [hnone _ fun f hf heq => absurd heq (hne f hf), Option.none_or]
      exact h.stored e (by rw [← hget, he]) hid
  · have hdeletes : ¬ Deletes taskId x l.store m.toMutationData := by
      rintro ⟨hdel, -⟩
      rw [hkept] at hdel
      cases hdel
    rw [LeftOver, or_iff_right hdeletes, hnew]
    by_cases hmine : ∃ e ∈ m.allEffects, e.effectId = x ∧ e.taskId = taskId
    · have hstored : ∃ e, l'.store.effects.get? x = some e ∧ e.taskId = taskId := by
        obtain ⟨e, he, rfl, hid⟩ := hmine
        rcases ha.get?_effects e.effectId with ⟨f, hf, heq, hget⟩ | ⟨hne, -⟩
        · exact ⟨f, hget, by rw [hunique e he f hf heq, hid]⟩
        · exact absurd rfl (hne e he)
      constructor
      · exact fun hleft => absurd ⟨hwrites, hmine⟩ hleft.2
      · exact fun hreplayed => absurd hstored hreplayed.2
    · have hother : ∀ e ∈ m.allEffects, e.effectId = x → e.taskId ≠ taskId :=
        fun e he hid htid => hmine ⟨e, he, hid, htid⟩
      have hrecords : ¬ Records taskId x l.store m.toMutationData := fun hr => hmine hr.2
      rw [hnone x hother, Option.none_or, and_iff_left hrecords, h.replayed x]
      refine and_congr_right fun _ => not_congr ?_
      rcases ha.get?_effects x with ⟨f, hf, heq, hget⟩ | ⟨-, hget⟩
      · -- an effect keeps its task, so another task's effect was no effect of this one
        have hf' := hother f hf heq
        subst heq
        constructor
        · rintro ⟨e, he, hid⟩
          have hsame := congrArg Prod.fst (ha.rewritten hf he).2.1
          exact absurd (hsame.symm.trans hid) hf'
        · rintro ⟨e, he, hid⟩
          obtain rfl := Option.some.inj (hget.symm.trans he)
          exact absurd hid hf'
      · rw [hget]

end Replays

lemma Run.replays (h : Run tr l) (taskId : String) : Replays taskId tr l := by
  induction h with
  | nil =>
    refine ⟨fun row hrow => ?_, fun e he => ?_, fun x => ?_⟩
    · cases hrow
    · cases he
    · simp [LeftOver, transitions, replayedEffects]
  | @snoc tr l l' m r _ hcommit ih =>
    rcases commit_cases hcommit with ⟨hwrites, hkept, rfl⟩ | ⟨hdel, hd, -⟩ | ⟨hwrites, ha, -⟩
    · have hsame : transitions taskId ((l'.store, m) :: tr) = transitions taskId tr := by
        simp [transitions, hwrites]
      refine ⟨?_, ?_, fun x => ?_⟩
      · rw [hsame]
        exact ih.task
      · rw [hsame]
        exact ih.stored
      · rw [hsame, ← ih.replayed x]
        simp [LeftOver, Deletes, Records, hwrites, hkept]
    · exact ih.deleted hdel hd
    · exact ih.written hwrites ha

end LoggedStore

open LoggedStore in
/-- At any later time, `task_at` returns the checkpoint and the effects that were stored right after
a commit exactly when no effect of a deleted task of the same id is left over at that commit. -/
theorem time_travel {tr : List (SqliteStore × DurableMutation)} {l l' : LoggedStore}
    (hrun : Run tr l) (hlater : Continues l l') {taskId : String} {row : TaskCheckpoint}
    (hrow : l.store.tasks.get? taskId = some row) :
    (∃ snapshot, l'.taskAt taskId l.store.sequence = .ok snapshot ∧ snapshot.task = row ∧
        ∀ e, e ∈ snapshot.effects ↔ e ∈ l.store.effectsForTask taskId) ↔
      ∀ effectId, ¬ LeftOver taskId effectId tr := by
  have hreplays := hrun.replays taskId
  have hthen : Codey.taskHistory taskId (some l.store.sequence) l.commits =
      .ok (transitions taskId tr) := hrun.taskHistory le_rfl
  have hhistory := (hlater.taskHistory hthen).1
  obtain ⟨latest, hlatest, htask⟩ := Option.map_eq_some_iff.mp (hreplays.task row hrow)
  have hat : l'.taskAt taskId l.store.sequence = .ok ⟨latest.commitSeq, latest.task,
      (replayedEffects (transitions taskId tr)).rows, latest.headEntryId⟩ := by
    refine except_bind_eq_ok.mpr ⟨_, hhistory, ?_⟩
    rw [snapshotAt, hlatest]
  have hmem : ∀ e, e ∈ l.store.effectsForTask taskId ↔
      l.store.effects.get? e.effectId = some e ∧ e.taskId = taskId := by
    intro e
    rw [SqliteStore.effectsForTask, List.mem_filter, decide_eq_true_eq, Table.mem_rows_iff]
  constructor
  · rintro ⟨snapshot, hsnapshot, -, heffects⟩ x hleft
    obtain rfl := Except.ok.inj (hat.symm.trans hsnapshot)
    obtain ⟨⟨e, he⟩, hnot⟩ := (hreplays.replayed x).mp hleft
    obtain rfl := Table.key_of_get? he
    exact hnot ⟨e, (hmem e).mp ((heffects e).mp (Table.mem_of_get? he))⟩
  · intro hclean
    refine ⟨_, hat, htask, fun e => ?_⟩
    rw [hmem, Table.mem_rows_iff]
    constructor
    · intro he
      obtain ⟨f, hf, hid⟩ := by_contra fun hnot =>
        hclean e.effectId ((hreplays.replayed e.effectId).mpr ⟨⟨e, he⟩, hnot⟩)
      obtain heq := Table.key_of_get? hf
      have hfe := hreplays.stored f (heq ▸ hf) hid
      rw [heq, he] at hfe
      obtain rfl := Option.some.inj hfe
      exact ⟨hf, hid⟩
    · rintro ⟨he, hid⟩
      exact hreplays.stored e he hid

/-- The first checkpoint of a task. -/
def sampleAccepted : TaskCheckpoint where
  taskId := "task"
  conversationId := "chat"
  submissionId := "submission"
  phase := .accepted
  revision := 0
  providerSnapshot := []
  state := []
  status := .pending
  valid := by decide +kernel

def sampleRecorded : TaskCheckpoint where
  toCheckpointData := { sampleAccepted.toCheckpointData with
    revision := 1, pendingEffectId := some "effect"
    state := [("pending_effect_ids", .arr [.str "effect"])] }
  valid := by decide +kernel

/-- The admission of the task in a new conversation. -/
def sampleAdmission : DurableMutation where
  conversationId := "chat"
  expectedRevision := 0
  createConversation := some .root
  submission := some {
    submissionId := "submission", requestId := "request", conversationId := "chat"
    entry := none, placement := .queued, content := some []
    valid := by decide +kernel }
  task := some sampleAccepted
  valid := by decide +kernel

/-- The commit that records the effect. -/
def sampleIntent : DurableMutation where
  conversationId := "chat"
  expectedRevision := 0
  task := some sampleRecorded
  effects := [sampleEffect]
  expectedAttemptToken := some ""
  valid := by decide +kernel

def sampleDeletion : DurableMutation where
  conversationId := "chat"
  expectedRevision := 0
  deleteConversation := true
  valid := by decide +kernel

namespace LoggedStore

def commitAll : List DurableMutation → LoggedStore → Except Error LoggedStore
  | [], l => .ok l
  | m :: ms, l => do
    let (_, l) ← l.commit m
    commitAll ms l

lemma Run.commitAll {ms : List DurableMutation} (h : Run tr l)
    (hms : commitAll ms l = .ok l') : ∃ tr', Run tr' l' ∧
      tr'.map Prod.snd = ms.reverse ++ tr.map Prod.snd := by
  induction ms generalizing l tr with
  | nil =>
    obtain rfl := Except.ok.inj hms
    exact ⟨tr, h, by simp⟩
  | cons m ms ih =>
    obtain ⟨⟨r, l₁⟩, hcommit, hms⟩ := except_bind_eq_ok.mp hms
    obtain ⟨tr', hrun, heq⟩ := ih (h.snoc hcommit) hms
    exact ⟨tr', hrun, by simp [heq]⟩

lemma not_leftOver {x : String} (h : ∀ m ∈ tr.map Prod.snd, m.deleteConversation = false) :
    ¬ LeftOver taskId x tr := by
  induction tr with
  | nil => exact id
  | cons e tr ih =>
    obtain ⟨s, m⟩ := e
    rintro (⟨hdel, -⟩ | ⟨hleft, -⟩)
    · have := h m (by simp)
      rw [hdel] at this
      cases this
    · exact ih (fun m hm => h m (by simp [hm])) hleft

def effectIds (r : Except Error TaskSnapshot) : Option (List String) :=
  r.toOption.map fun snapshot => snapshot.effects.map (·.effectId)

end LoggedStore

open LoggedStore in
/-- The second commit of a task is read when a third one has deleted it. -/
theorem time_travel_sample : ∃ l l' : LoggedStore, Continues l l' ∧
    l.store.sequence = 2 ∧ l'.store.tasks.get? "task" = none ∧
    ∃ snapshot, l'.taskAt "task" l.store.sequence = .ok snapshot ∧ snapshot.task = sampleRecorded ∧
      ∀ e, e ∈ snapshot.effects ↔ e ∈ l.store.effectsForTask "task" := by
  have hstored : ((commitAll [sampleAdmission, sampleIntent] {}).toOption.bind fun l =>
      (l.commit sampleDeletion).toOption.map fun deleted =>
        (l.store.sequence, l.store.tasks.get? "task", deleted.2.store.tasks.get? "task")) =
      some (2, some sampleRecorded, none) := by decide +kernel
  obtain ⟨l, hl, hstored⟩ := Option.bind_eq_some_iff.mp hstored
  obtain ⟨⟨r, l'⟩, hdeleted, hstored⟩ := Option.map_eq_some_iff.mp hstored
  simp only [Prod.mk.injEq] at hstored
  obtain ⟨hsequence, hrow, hgone⟩ := hstored
  have hcontinues : Continues l l' := .single ⟨_, _, toOption_eq_some.mp hdeleted⟩
  obtain ⟨tr, hrun, hms⟩ := Run.nil.commitAll (toOption_eq_some.mp hl)
  refine ⟨l, l', hcontinues, hsequence, hgone, (time_travel hrun hcontinues hrow).mpr fun x => ?_⟩
  apply not_leftOver
  rw [hms]
  simp [sampleAdmission, sampleIntent]

open LoggedStore in
/-- After its id is used again, a task shows an effect of the deleted task. -/
theorem time_travel_unconditional :
    ¬ ∀ (tr : List (SqliteStore × DurableMutation)) (l l' : LoggedStore), Run tr l →
      Continues l l' → ∀ taskId row, l.store.tasks.get? taskId = some row →
      ∃ snapshot, l'.taskAt taskId l.store.sequence = .ok snapshot ∧ snapshot.task = row ∧
        ∀ e, e ∈ snapshot.effects ↔ e ∈ l.store.effectsForTask taskId := by
  intro h
  let ms := [sampleAdmission, sampleIntent, sampleDeletion, sampleAdmission]
  have hstored : ((commitAll ms {}).toOption.map fun l =>
      (l.store.tasks.get? "task", effectIds (l.taskAt "task" l.store.sequence),
        l.store.effectsForTask "task")) =
      some (some sampleAccepted, some ["effect"], []) := by decide +kernel
  cases hl : commitAll ms {} with
  | error e =>
    rw [hl] at hstored
    cases hstored
  | ok l =>
    rw [hl] at hstored
    simp only [Except.toOption, Option.map_some, Option.some.injEq, Prod.mk.injEq] at hstored
    obtain ⟨hrow, hids, hnone⟩ := hstored
    obtain ⟨tr, hrun, -⟩ := Run.nil.commitAll hl
    obtain ⟨snapshot, hsnapshot, -, heffects⟩ := h tr l l hrun .refl "task" sampleAccepted hrow
    have hempty : snapshot.effects = [] := by
      apply List.eq_nil_iff_forall_not_mem.mpr
      intro e he
      have := (heffects e).mp he
      rw [hnone] at this
      cases this
    rw [hsnapshot] at hids
    simp [effectIds, hempty, Except.toOption] at hids

end Codey
