import Codey.Durable.Calls
import Codey.Lib.Acyclic
import Mathlib.Data.List.Perm.Subperm

/-!
# Waiting tasks

A parked task waits for the tasks it lists. The walk of `wait_task` follows the first entry of each
list, so it finds a cycle that leads through first entries; as long as every cycle that a call
would close is of this kind, no tasks wait for each other.
-/

namespace Codey

open Relation (TransGen ReflTransGen)

/-- The task lists the other one, and has not ended. -/
def Waits (s : SqliteStore) (a b : String) : Prop :=
  ∃ t, s.tasks.get? a = some t ∧ t.status.terminal = false ∧ b ∈ t.state.waitingOn

/-- Both tasks are parked, and the first one lists the second one. -/
def WaitsFor (s : SqliteStore) (a b : String) : Prop :=
  (∃ t, s.tasks.get? a = some t ∧ t.status = .waiting ∧ b ∈ t.state.waitingOn) ∧
    ∃ t, s.tasks.get? b = some t ∧ t.status = .waiting

variable {s : SqliteStore}

lemma WaitsFor.waits {a b : String} (h : WaitsFor s a b) : Waits s a b := by
  obtain ⟨⟨t, ht, hstatus, hb⟩, -⟩ := h
  exact ⟨t, ht, by rw [hstatus]; rfl, hb⟩

/-! ### The walk -/

/-- From the given task one comes, along first entries, to a task that lists `taskId`. -/
inductive FirstWaits (tasks : TaskTable) (taskId : String) : String → Prop where
  | here {id : String} {t : TaskCheckpoint} : tasks.get? id = some t →
      taskId ∈ t.state.waitingOn → FirstWaits tasks taskId id
  | next {id first : String} {rest : List String} {t : TaskCheckpoint} :
      tasks.get? id = some t → t.state.waitingOn = first :: rest →
      FirstWaits tasks taskId first → FirstWaits tasks taskId id

/-- Tasks that do not list `taskId`, and whose first entries are among them, or are no tasks. -/
def ClearOf (tasks : TaskTable) (taskId : String) (visited : String → Prop) : Prop :=
  ∀ id t, visited id → tasks.get? id = some t → taskId ∉ t.state.waitingOn ∧
    ∀ first rest, t.state.waitingOn = first :: rest →
      visited first ∨ tasks.get? first = none

variable {tasks : TaskTable}

lemma ClearOf.not_firstWaits {taskId id : String} {visited : String → Prop}
    (h : ClearOf tasks taskId visited) (hid : visited id) : ¬ FirstWaits tasks taskId id := by
  intro hwaits
  induction hwaits with
  | here hget hmem => exact (h _ _ hid hget).1 hmem
  | next hget hlist hfirst ih =>
    rcases (h _ _ hid hget).2 _ _ hlist with hvisited | hnone
    · exact ih hvisited
    · cases hfirst with
      | here hget' => simp [hnone] at hget'
      | next hget' => simp [hnone] at hget'

/-- What a walk knows of the tasks it has visited: none of them lists `taskId`, and their first
entries are the visited tasks and the one it stands on. -/
structure Walked (tasks : TaskTable) (taskId : String) (walked : List String) (cursor : String) :
    Prop where
  nodup : walked.Nodup
  known : ∀ id ∈ walked, (tasks.get? id).isSome = true
  clear : ∀ id t, id ∈ walked → tasks.get? id = some t → taskId ∉ t.state.waitingOn ∧
    ∀ first rest, t.state.waitingOn = first :: rest → first ∈ walked ∨ first = cursor

lemma Walked.length_le {taskId cursor : String} {walked : List String}
    (h : Walked tasks taskId walked cursor) : walked.length ≤ tasks.rows.length := by
  have hsub : walked ⊆ tasks.rows.map (·.taskId) := by
    intro id hid
    obtain ⟨t, ht⟩ := Option.isSome_iff_exists.mp (h.known id hid)
    exact List.mem_map.mpr ⟨t, Table.mem_of_get? ht, Table.key_of_get? (t := tasks) ht⟩
  simpa using (h.nodup.subperm hsub).length_le

variable {taskId : String}

/-- A walk that ends at its cursor has visited tasks that are clear of `taskId`. -/
lemma Walked.clearOf {walked : List String} {cursor : TaskCheckpoint}
    (h : Walked tasks taskId walked cursor.taskId)
    (hcursor : tasks.get? cursor.taskId = some cursor) (hnot : taskId ∉ cursor.state.waitingOn)
    (hend : ∀ first rest, cursor.state.waitingOn = first :: rest → tasks.get? first = none) :
    ClearOf tasks taskId fun id => id ∈ walked ∨ id = cursor.taskId := by
  rintro id t (hid | rfl) ht
  · exact ⟨(h.clear id t hid ht).1, fun first rest hlist =>
      Or.inl ((h.clear id t hid ht).2 first rest hlist)⟩
  · obtain rfl := Option.some.inj (hcursor.symm.trans ht)
    exact ⟨hnot, fun first rest hlist => Or.inr (hend first rest hlist)⟩

/-- The next step of a walk. -/
lemma Walked.push {taskId first : String} {rest walked : List String} {cursor : TaskCheckpoint}
    (h : Walked tasks taskId walked cursor.taskId)
    (hcursor : tasks.get? cursor.taskId = some cursor) (hnew : cursor.taskId ∉ walked)
    (hnot : taskId ∉ cursor.state.waitingOn) (hlist : cursor.state.waitingOn = first :: rest) :
    Walked tasks taskId (cursor.taskId :: walked) first := by
  refine ⟨List.nodup_cons.mpr ⟨hnew, h.nodup⟩, ?_, fun id t hid ht => ?_⟩
  · simpa [hcursor] using h.known
  rcases List.mem_cons.mp hid with rfl | hid
  · obtain rfl := Option.some.inj (hcursor.symm.trans ht)
    refine ⟨hnot, fun first' rest' hlist' => Or.inr ?_⟩
    exact (List.cons.inj (hlist'.symm.trans hlist)).1
  · refine ⟨(h.clear id t hid ht).1, fun first' rest' hlist' => Or.inl ?_⟩
    rcases (h.clear id t hid ht).2 first' rest' hlist' with hmem | rfl
    · exact List.mem_cons_of_mem _ hmem
    · exact List.mem_cons_self

/-- A walk that finds nothing stays among tasks that are clear of `taskId`. -/
lemma clearOf_waitWalk (fuel : Nat) :
    ∀ (walked : List String) (cursor : TaskCheckpoint),
      Session.waitWalk tasks.get? taskId fuel walked cursor = .ok () →
      tasks.get? cursor.taskId = some cursor → Walked tasks taskId walked cursor.taskId →
      walked.length + fuel = tasks.rows.length + 1 →
      ∃ visited, ClearOf tasks taskId visited ∧ visited cursor.taskId ∧
        ∀ id ∈ walked, visited id := by
  induction fuel with
  | zero =>
    intro walked cursor _ _ hwalked hlength
    have := hwalked.length_le
    omega
  | succ fuel ih =>
    intro walked cursor hwalk hcursor hwalked hlength
    have hstop := fun hnot hend => (⟨_, hwalked.clearOf hcursor hnot hend, Or.inr rfl,
      fun _ => Or.inl⟩ : ∃ visited, ClearOf tasks taskId visited ∧ visited cursor.taskId ∧
        ∀ id ∈ walked, visited id)
    unfold Session.waitWalk at hwalk
    split at hwalk
    · rename_i hlist
      exact hstop (by simp [hlist]) (by simp [hlist])
    rename_i first rest hlist
    split at hwalk
    · rename_i hseen
      rw [List.contains_iff_mem] at hseen
      refine ⟨(· ∈ walked), fun id t hid ht => ⟨(hwalked.clear id t hid ht).1, ?_⟩, hseen,
        fun _ => id⟩
      intro first' rest' hlist'
      rcases (hwalked.clear id t hid ht).2 first' rest' hlist' with hmem | rfl
      · exact Or.inl hmem
      · exact Or.inl hseen
    split at hwalk
    · cases hwalk
    rename_i hnew hnot
    simp only [List.contains_iff_mem] at hnew hnot
    split at hwalk
    · rename_i hnone
      refine hstop hnot fun first' rest' hlist' => ?_
      obtain ⟨rfl, -⟩ := List.cons.inj (hlist.symm.trans hlist')
      exact hnone
    · rename_i next hnext
      have hid : next.taskId = first := Table.key_of_get? (t := tasks) hnext
      obtain ⟨visited, hvisited, -, hall⟩ := ih (cursor.taskId :: walked) next hwalk
        (by rwa [hid]) (by rw [hid]; exact hwalked.push hcursor hnew hnot hlist)
        (by simp only [List.length_cons]; omega)
      exact ⟨visited, hvisited, hall _ (by simp), fun id hid => hall id (by simp [hid])⟩

/-- The checks of `wait_task` find every cycle that leads through first entries. -/
lemma not_firstWaits_of_validateWait {dependencies : List String}
    (h : Session.validateWait taskId dependencies tasks = .ok ()) :
    taskId ∉ dependencies ∧ ∀ d ∈ dependencies, ¬ FirstWaits tasks taskId d := by
  simp only [Session.validateWait, except_seq_eq_ok, require_eq_ok, checkAll_eq_ok,
    Bool.not_eq_true', List.contains_eq_mem, decide_eq_false_iff_not] at h
  refine ⟨h.1, fun d hd => ?_⟩
  have hwalk := h.2 d hd
  split at hwalk
  · cases hwalk
  rename_i cursor hcursor
  have hid : cursor.taskId = d := Table.key_of_get? (t := tasks) hcursor
  obtain ⟨visited, hvisited, hcur, -⟩ := clearOf_waitWalk _ [] cursor hwalk (by rwa [hid])
    ⟨List.nodup_nil, by simp, by simp⟩ (by simp)
  exact hvisited.not_firstWaits (hid ▸ hcur)

/-! ### What a written row does to the waits -/

/-- The keys that waits rest on: a held completion brings its state map back when it is finished. -/
def waitKeys : List String := ["waiting_on", "completion_state"]

def HeldFree (state : Fields) : Prop :=
  ∀ held, state.get? "completion_state" = some (.obj held) → Unnamed waitKeys held

/-- A map that a task step takes leaves the waits of its task as they are, or ends them. -/
def StepMap (state : Fields) : Prop :=
  (state.get? "waiting_on" = none ∨ state.get? "waiting_on" = some (.arr [])) ∧
    HeldFree state

/-- The walk of `wait_task` meets every cycle that the call would close: when one leads back to the
task, one leads back along first entries. -/
def CycleSeen (s : SqliteStore) (taskId : String) (dependencies : List String) : Prop :=
  (∃ d ∈ dependencies, TransGen (Waits s) d taskId) →
    ∃ d ∈ dependencies, FirstWaits s.tasks taskId d

/-- Terms under which waits are closed to cycles. -/
structure Terms.Waitful (T : Terms) : Prop where
  since : ∀ s s', T.since s s' → Evolves s s'
  caller : ∀ patch, T.caller patch → Unnamed waitKeys patch
  updates : ∀ patch, T.updates patch → Unnamed waitKeys patch
  step : ∀ base a, T.step base a → StepMap a.state
  parks : ∀ s base w, T.parks s base w → Unnamed waitKeys (w.state.getD [])
  seen : ∀ s now base w, T.since s now → T.parks s base w →
    s = now ∧ CycleSeen now base.taskId (Session.waitDependencies base.state w)
  admits : ∀ a, T.admits a → Unnamed waitKeys a.taskState

lemma StepMap.of_unnamed {patch : Fields} (h : Unnamed waitKeys patch) : StepMap patch :=
  ⟨Or.inl (h _ (by decide)), fun held hheld => by
    rw [h "completion_state" (by decide)] at hheld
    cases hheld⟩

variable {base : TaskCheckpoint} {T : Terms}

lemma Terms.Waitful.given (hT : T.Waitful) {patch : Fields} (h : Given T base patch) :
    StepMap patch := by
  cases h with
  | none => exact .of_unnamed fun _ _ => rfl
  | caller hpatch => exact .of_unnamed (hT.caller _ hpatch)
  | update hpatch => exact .of_unnamed (hT.updates _ hpatch)
  | step hstep => exact hT.step _ _ hstep
  | parks hparks => exact .of_unnamed (hT.parks _ _ _ hparks)

def KeepsWaits (s : SqliteStore) (t : TaskCheckpoint) : Prop :=
  t.status.terminal = false → ∀ b ∈ t.state.waitingOn, Waits s t.taskId b

def ParksClear (s : SqliteStore) (t : TaskCheckpoint) : Prop :=
  ∀ b ∈ t.state.waitingOn, ¬ ReflTransGen (Waits s) b t.taskId

/-- A change leaves the waits of a task alone, ends them, or parks it. -/
lemma Change.waitingOn (hT : T.Waitful) {now : SqliteStore} {phase : Phase} {state : Fields}
    {status : TaskStatus} {intents settled : List EffectRecord}
    (h : Change T now base phase state status intents settled) :
    state.waitingOn = base.state.waitingOn ∨ state.waitingOn = [] ∨
      ∀ b ∈ state.waitingOn, ¬ ReflTransGen (Waits now) b base.taskId := by
  rcases h.get?_cases (show "waiting_on" ∉ writtenKeys by decide) with ⟨patch, hgiven, hget⟩ |
      ⟨-, s, w, hsince, hparks, hvalid, rfl⟩
  · rcases (hT.given hgiven).1 with hnone | hempty
    · rw [hnone, Option.none_or] at hget
      exact Or.inl (Fields.strs_congr hget)
    · rw [hempty, Option.some_or] at hget
      exact Or.inr (Or.inl (Fields.strs_of_get? (show _ = some (Fields.ofStrs []) from hget)))
  · obtain ⟨rfl, hseen⟩ := hT.seen _ _ _ _ hsince hparks
    obtain ⟨hself, hclear⟩ := not_firstWaits_of_validateWait hvalid
    have hlist : (Session.parkedState base.state (Session.waitDependencies base.state w)
        w).waitingOn = Session.waitDependencies base.state w :=
      Fields.strs_of_get? (by simp [Session.parkedState])
    rw [hlist]
    refine Or.inr (Or.inr fun b hb hpath => ?_)
    rcases Relation.reflTransGen_iff_eq_or_transGen.mp hpath with heq | hpath
    · exact hself (heq ▸ hb)
    · obtain ⟨d, hd, hfirst⟩ := hseen ⟨b, hb, hpath⟩
      exact hclear d hd hfirst

/-- A change keeps the completion that a task holds, or replaces it by another that leaves waits
alone. -/
lemma Change.heldFree (hT : T.Waitful) {now : SqliteStore} {phase : Phase} {state : Fields}
    {status : TaskStatus} {intents settled : List EffectRecord}
    (h : Change T now base phase state status intents settled) (hbase : HeldFree base.state) :
    HeldFree state := by
  rcases h.get?_cases (show "completion_state" ∉ writtenKeys by decide) with
    ⟨patch, hgiven, hget⟩ | ⟨hmem, -⟩
  · intro held hheld
    rw [hget] at hheld
    cases hpatch : patch.get? "completion_state" with
    | none =>
      rw [hpatch, Option.none_or] at hheld
      exact hbase held hheld
    | some value =>
      rw [hpatch, Option.some_or] at hheld
      exact (hT.given hgiven).2 held (hpatch.trans hheld)
  · simp [parkedKeys] at hmem

variable {m : DurableMutation}

/-- What a written row does to the waits and to the completion that its task holds. -/
lemma Wrote.waits (hT : T.Waitful) {t : TaskCheckpoint}
    (hs : ∀ id row, s.tasks.get? id = some row → HeldFree row.state) (h : Wrote T s m t) :
    (KeepsWaits s t ∨ (m.task = some t ∧ ParksClear s t)) ∧ HeldFree t.state := by
  cases h with
  | @revised base phase state status intents settled folded pending row change folded_eq next_eq
      checked task effects settlements expected =>
    have hid : t.taskId = base.taskId := by rw [next_eq]
    have hget : ∀ key ∈ waitKeys, t.state.get? key = state.get? key := by
      intro key hkey
      have hne : ¬ "approvals" = key := fun heq => by simp [← heq, waitKeys] at hkey
      rw [next_eq]
      rcases folded_eq with rfl | ⟨approvals, rfl⟩ <;> simp [hne]
    have hlist : t.state.waitingOn = state.waitingOn :=
      Fields.strs_congr (hget "waiting_on" (by decide))
    refine ⟨?_, fun held hheld => ?_⟩
    · rcases change.waitingOn hT with hsame | hempty | hclear
      · exact Or.inl fun hlive b hb =>
          ⟨base, row, checked.live hlive, by rwa [← hsame, ← hlist]⟩
      · exact Or.inl fun _ b hb => by simp [hlist, hempty] at hb
      · exact Or.inr ⟨task, fun b hb => by
          rw [hid]
          exact hclear b (hlist ▸ hb)⟩
    · rw [hget "completion_state" (by decide)] at hheld
      exact change.heldFree hT (hs _ _ row) held hheld
  | @placed base entryId consumer consumed row next_eq checked unfenced =>
    have hget : ∀ key ∈ waitKeys, t.state.get? key = base.state.get? key := by
      intro key hkey
      rw [next_eq]
      simp only [waitKeys, List.mem_cons, List.not_mem_nil, or_false] at hkey
      simp only [Session.placedState]
      rcases hkey with rfl | rfl <;> split <;> simp
    refine ⟨Or.inl fun hlive b hb => ⟨base, row, checked.live hlive, ?_⟩, fun held hheld => ?_⟩
    · rwa [Fields.waitingOn, ← Fields.strs_congr (hget "waiting_on" (by decide))]
    · rw [hget "completion_state" (by decide)] at hheld
      exact hs _ _ row held hheld
  | @admitted c a entry row admits next_eq initial owner task effects =>
    have hget : ∀ key ∈ waitKeys, t.state.get? key = none := by
      intro key hkey
      have hnone := hT.admits a admits key hkey
      rw [next_eq]
      simp only [waitKeys, List.mem_cons, List.not_mem_nil, or_false] at hkey
      rcases hkey with rfl | rfl <;> cases entry <;> cases hworkflow : a.workflow <;>
        simp [Session.admittedState, Session.workflowState, hnone, hworkflow]
    refine ⟨Or.inl fun _ b hb => ?_, fun held hheld => ?_⟩
    · simp [Fields.waitingOn, Fields.strs, hget "waiting_on" (by decide)] at hb
    · rw [hget "completion_state" (by decide)] at hheld
      cases hheld

/-! ### Steps -/

/-- What is invariant: no live tasks wait for each other, and no held completion brings waits
back. -/
structure WaitsFree (s : SqliteStore) : Prop where
  acyclic : Acyclic (Waits s)
  held : ∀ id row, s.tasks.get? id = some row → HeldFree row.state

/-- A commit whose written rows add no wait that leads back keeps waits free of cycles. -/
lemma SqliteStore.Accepted.waitsFree {s s' : SqliteStore}
    (h : Accepted s m s') (hs : WaitsFree s)
    (hwrote : ∀ t ∈ m.allTasks,
      (KeepsWaits s t ∨ (m.task = some t ∧ ParksClear s t)) ∧ HeldFree t.state) :
    WaitsFree s' := by
  have hedge : ∀ {a b : String}, Waits s' a b → Waits s a b ∨
      ∃ t, m.task = some t ∧ t.taskId = a ∧ ParksClear s t ∧ b ∈ t.state.waitingOn := by
    rintro a b ⟨t, ht, hlive, hb⟩
    rcases h.get?_tasks a with ⟨t', hmem, rfl, hget⟩ | ⟨-, hget⟩
    · obtain rfl := Option.some.inj (hget.symm.trans ht)
      rcases (hwrote t' hmem).1 with hkeeps | ⟨htask, hclear⟩
      · exact Or.inl (hkeeps hlive b hb)
      · exact Or.inr ⟨t', htask, rfl, hclear, hb⟩
    · exact Or.inl ⟨t, by rw [← hget, ht], hlive, hb⟩
  constructor
  · by_cases hparks : ∃ t, m.task = some t ∧ ParksClear s t
    · obtain ⟨t, htask, hclear⟩ := hparks
      refine hs.acyclic.redirect (a := t.taskId) (fun x y hne hxy => ?_) fun y hy hpath => ?_
      · refine (hedge hxy).resolve_right fun ⟨t', htask', hid, _⟩ => hne ?_
        rw [← hid, Option.some.inj (htask'.symm.trans htask)]
      · rcases hedge hy with hold | ⟨t', htask', -, hclear', hmem⟩
        · exact hs.acyclic t.taskId (.head' hold hpath)
        · obtain rfl := Option.some.inj (htask'.symm.trans htask)
          exact hclear y hmem hpath
    · exact hs.acyclic.mono fun x y hxy => (hedge hxy).resolve_right
        fun ⟨t, htask, _, hclear, _⟩ => hparks ⟨t, htask, hclear⟩
  · intro id row hrow
    rcases h.get?_tasks id with ⟨t, hmem, -, hget⟩ | ⟨-, hget⟩
    · obtain rfl := Option.some.inj (hget.symm.trans hrow)
      exact (hwrote t hmem).2
    · exact hs.held id row (by rw [← hget, hrow])

lemma SqliteStore.Deleted.waitsFree {s s' : SqliteStore} (h : Deleted s m s') (hs : WaitsFree s) :
    WaitsFree s' := by
  have hrow : ∀ {id : String} {t : TaskCheckpoint}, s'.tasks.get? id = some t →
      s.tasks.get? id = some t := fun ht => by
    rw [h.tasks_eq, Table.get?_filter] at ht
    exact (Option.filter_eq_some_iff.mp ht).1
  refine ⟨hs.acyclic.mono ?_, fun id t ht => hs.held id t (hrow ht)⟩
  rintro a b ⟨t, ht, hlive, hb⟩
  exact ⟨t, hrow ht, hlive, hb⟩

lemma Commits.waitsFree (hT : T.Waitful) {w w' : World} (h : Commits (Site T) w w')
    (hs : WaitsFree w.store) : WaitsFree w'.store := by
  rcases h with heq | ⟨m, r, hcommit, hsite⟩
  · rwa [heq]
  rcases hsite.wrote hT.since hcommit with heq | ⟨haccepted, hwrote⟩
  · rwa [heq]
  · exact haccepted.waitsFree hs fun t ht => (hwrote t ht).waits hT hs.held

/-! ### Runs -/

/-- The rows that another operation writes leave waits and held completions as they are, or end
them. -/
def LeavesWaits (m : DurableMutation) (s : SqliteStore) : Prop :=
  ∀ t ∈ m.allTasks, KeepsWaits s t ∧ HeldFree t.state

/-- A step under which waits stay free of cycles: the maps of a call do not name the keys of waits,
and the walk of a `wait_task` meets every cycle that the call would close. -/
def Action.ClosesWaits (w : World) : Action → Prop
  | .call (.waitTask _ taskId wait) => Unnamed waitKeys (wait.state.getD []) ∧
    ∀ t, w.store.tasks.get? taskId = some t →
      CycleSeen w.store taskId (Session.waitDependencies t.state wait)
  | .call (.reconcileFinalization ..) => True
  | .call request => request.LeavesAlone waitKeys
  | .commit _ m => m.approval = none ∧ LeavesWaits m w.store

/-- The terms of calls other than `wait_task`. -/
def waitTerms : Terms :=
  { Terms.unnamed waitKeys with
    step := fun _ a => StepMap a.state
    parks := fun _ _ _ => False }

lemma waitTerms_waitful : waitTerms.Waitful where
  since _ _ h := h
  caller _ h := h
  updates _ h := h
  step _ _ h := h
  parks _ _ _ h := h.elim
  seen _ _ _ _ _ h := h.elim
  admits _ h := h

/-- The terms of a `wait_task` call that runs alone. -/
def parkTerms : Terms :=
  { waitTerms with
    since := Eq
    parks := fun s base w => Unnamed waitKeys (w.state.getD []) ∧
      CycleSeen s base.taskId (Session.waitDependencies base.state w) }

lemma parkTerms_waitful : parkTerms.Waitful where
  since _ _ h := h ▸ .refl _
  caller _ h := h
  updates _ h := h
  step _ _ h := h
  parks _ _ _ h := h.1
  seen _ _ _ _ hs h := ⟨hs, hs ▸ h.2⟩
  admits _ h := h

lemma stepMap_completion {answer : String} {state : Fields} {a : Session.Advance}
    (h : Unnamed waitKeys state) (ha : Session.CompletionStep answer state a) :
    StepMap a.state := by
  rcases ha.state_eq with heq | heq
  · rw [heq]
    exact .of_unnamed h
  · refine ⟨Or.inl (by simp [heq, h "waiting_on" (by decide)]), fun held hheld => ?_⟩
    rw [heq] at hheld
    simp only [Fields.get?_merge, Fields.get?_cons, Fields.get?_nil] at hheld
    simp at hheld
    exact hheld ▸ h

lemma joins_waitTerms : Session.Joins waitTerms := by
  have hunnamed : ∀ key v, key ∉ waitKeys → Unnamed waitKeys [(key, v)] := by
    intro key v hkey k hk
    have hne : ¬ key = k := fun heq => hkey (heq ▸ hk)
    simp [hne]
  refine ⟨fun _ => hunnamed _ _ (by decide), fun _ => hunnamed _ _ (by decide), fun base a ha => ?_⟩
  rcases ha.state_eq with heq | ⟨results, heq⟩ <;>
    exact ⟨Or.inr (by simp [heq]), fun held hheld => by simp [heq] at hheld⟩

lemma waitTerms_frame : Frame Eq waitTerms :=
  Terms.aloneFrame Evolves.refl fun _ _ _ => Evolves.trans

lemma waitTerms_keeps : waitTerms.Keeps := fun _ _ _ _ hcommit hsite =>
  evolves_of_commit hcommit hsite.kept

/-- A call other than `wait_task` keeps to the terms of waits. -/
lemma Call.meets_waitTerms {call : Call} (hwait : ∀ c taskId w, call ≠ .waitTask c taskId w)
    {w : World} (hs : WaitsFree w.store) (h : (Action.call call).ClosesWaits w) :
    call.Meets Eq waitTerms w := by
  have hnil : Unnamed waitKeys [] := fun _ _ => rfl
  cases call with
  | waitTask c taskId wait => exact absurd rfl (hwait c taskId wait)
  | claimTask => exact trivial
  | requestCancel => exact ⟨hnil, h⟩
  | cancelTask => exact hnil
  | recoverSchedulerState =>
    refine ⟨fun key hkey => ?_, fun _ _ _ _ _ _ _ _ _ => trivial⟩
    have hne : ¬ "abort_reason" = key := fun heq => by simp [← heq, waitKeys] at hkey
    simp [hne]
  | advanceTask => exact ⟨fun _ _ => .of_unnamed h, fun _ _ => trivial⟩
  | startTask => exact fun _ _ _ => stepMap_completion h
  | finishTask => exact fun _ _ => stepMap_completion h
  | completeTask => exact fun _ _ => stepMap_completion h
  | reconcileWaitingTasks => exact joins_waitTerms
  | reconcileFinalization =>
    refine ⟨joins_waitTerms, fun w => WaitsFree w.store, hs, fun _ _ h heq => heq ▸ h,
      fun _ _ h hcommit => hcommit.waitsFree waitTerms_waitful h, ?_⟩
    intro _ task answer state base a hw' hget hheld ha
    refine stepMap_completion ?_ ha
    rcases hheld with rfl | hheld
    · exact hnil
    · exact hw'.held _ _ hget state hheld
  | _ => exact h

/-- Every step keeps waits free of cycles. -/
lemma Action.waitsFree (action : Action) {w : World} (h : action.ClosesWaits w)
    (hs : WaitsFree w.store) : WaitsFree (action.prog.run w).2.store := by
  have hkeeps : ∀ {T : Terms}, T.Waitful →
      Prog.Guards Eq (Commits (Site T)) (Eq w) action.prog (fun _ _ => True) →
      WaitsFree (action.prog.run w).2.store := fun hT hguards =>
    hguards.preserves (I := fun w => WaitsFree w.store) (fun _ => rfl)
      (fun _ _ hw hcommit => hcommit.waitsFree hT hw) rfl hs
  cases action with
  | call request =>
    by_cases hwait : ∃ c taskId wait, request = .waitTask c taskId wait
    · obtain ⟨c, taskId, wait, rfl⟩ := hwait
      have F : Frame Eq parkTerms := Terms.aloneFrame (fun _ => rfl) fun _ _ _ => Eq.trans
      refine hkeeps parkTerms_waitful (Prog.guards_seq (Session.guards_waitTask F (F.stable w)
        (fun s s' base hs hs' hget => ?_) fun _ _ _ _ _ _ _ => trivial) fun _ _ => trivial)
      subst hs hs'
      have hid : base.taskId = taskId := Table.key_of_get? (t := w.store.tasks) hget
      exact ⟨h.1, hid ▸ h.2 base hget⟩
    · exact hkeeps waitTerms_waitful (Call.guards waitTerms_frame (fun _ _ _ => trivial)
        waitTerms_keeps (Call.meets_waitTerms (fun c taskId wait heq =>
          hwait ⟨c, taskId, wait, heq⟩) hs h))
  | commit c m =>
    have hguards := guards_otherCommit waitTerms_frame c h.1 w
    refine hguards.preserves (I := fun w' => w'.store = w.store ∨ WaitsFree w'.store)
      (fun _ => rfl) (fun w₁ w₂ hw₁ hcommit => ?_) rfl (Or.inl rfl) |>.elim (fun h => h ▸ hs) id
    rcases hcommit with heq | ⟨m', r, hcommit, ⟨w₃, hw₃, hstore⟩, hrows⟩
    · rwa [heq]
    subst hw₃
    rw [← hstore] at hcommit
    refine Or.inr ?_
    rcases SqliteStore.commit_cases hcommit with ⟨heq, -⟩ | ⟨-, hdeleted⟩ | ⟨-, haccepted⟩
    · rwa [heq]
    · exact hdeleted.waitsFree hs
    · refine haccepted.waitsFree hs fun t ht => ?_
      have hleaves := h.2 t (by simpa [MutationData.allTasks, hrows.task, hrows.updates] using ht)
      exact ⟨Or.inl hleaves.1, hleaves.2⟩

/-- After any calls in any order, made under the conditions of `ClosesWaits`, no parked tasks wait
for each other. -/
theorem waiting_acyclic {w₀ : World} (hempty : w₀.store = {}) {calls : List Action}
    (hcalls : Pool.Each Action.prog (fun action w => action.ClosesWaits w) calls w₀) :
    Acyclic (WaitsFor (Pool.execute Action.prog calls w₀).store) := by
  have hinit : WaitsFree w₀.store := by
    rw [hempty]
    refine ⟨fun x hx => ?_, fun id row hrow => by simp at hrow⟩
    obtain ⟨y, ⟨t, ht, -⟩, -⟩ := Relation.TransGen.head'_iff.mp hx
    simp at ht
  have hfinal := Pool.execute_invariant (I := fun w => WaitsFree w.store)
    (fun action _ h hs => action.waitsFree h hs) hcalls hinit
  exact hfinal.acyclic.mono fun _ _ => WaitsFor.waits

def parkedOn (s : SqliteStore) (id : String) : List String :=
  match s.tasks.get? id with
  | some t => if t.status = .waiting then t.state.waitingOn else []
  | none => []

lemma waitsFor_of_parkedOn {a b : String} (h : b ∈ parkedOn s a) (hb : parkedOn s b ≠ []) :
    WaitsFor s a b := by
  have hrow : ∀ {id : String}, parkedOn s id ≠ [] →
      ∃ t, s.tasks.get? id = some t ∧ t.status = .waiting ∧ parkedOn s id = t.state.waitingOn := by
    intro id hid
    unfold parkedOn at hid ⊢
    split at hid <;> rename_i t ht
    · split at hid <;> rename_i hstatus
      · exact ⟨t, ht, hstatus, by simp [hstatus]⟩
      · exact absurd rfl hid
    · exact absurd rfl hid
  obtain ⟨t, ht, hstatus, heq⟩ := @hrow a (List.ne_nil_of_mem h)
  obtain ⟨t', ht', hstatus', -⟩ := hrow hb
  exact ⟨⟨t, ht, hstatus, heq ▸ h⟩, t', ht', hstatus'⟩

/-- Three tasks of which each parks on the next one; the second one lists another task first. -/
def sampleCycle : List Action :=
  [.call (.admitInput firstSession (plainInput "a" none)),
    .call (.admitInput firstSession (plainInput "b" none)),
    .call (.admitInput firstSession (plainInput "c" none)),
    .call (.admitInput firstSession (plainInput "x" none)),
    .call (.waitTask firstSession "b" { on := some ["x", "c"] }),
    .call (.waitTask firstSession "c" { on := some ["a"] }),
    .call (.waitTask firstSession "a" { on := some ["b"] })]

def listed (s : SqliteStore) (id : String) : List String :=
  ((s.tasks.get? id).map (·.state.waitingOn)).getD []

lemma cycleSeen_of_idle {taskId d : String} (h : listed s d = []) : CycleSeen s taskId [d] := by
  rintro ⟨d', hd', hpath⟩
  obtain rfl := List.mem_singleton.mp hd'
  obtain ⟨y, ⟨t, ht, -, hy⟩, -⟩ := Relation.TransGen.head'_iff.mp hpath
  simp only [listed, ht, Option.map_some, Option.getD_some] at h
  simp [h] at hy

lemma cycleSeen_of_listed {taskId d : String} (h : taskId ∈ listed s d) :
    CycleSeen s taskId [d] := by
  unfold listed at h
  cases ht : s.tasks.get? d with
  | none => simp [ht] at h
  | some t => exact fun _ => ⟨d, by simp, .here ht (by simpa [ht] using h)⟩

/-- Two tasks of which the first one parks on the second one, and the call that would close the
cycle. -/
def sampleWaits : List Action :=
  [.call (.admitInput firstSession (plainInput "a" none)),
    .call (.admitInput firstSession (plainInput "b" none)),
    .call (.waitTask firstSession "a" { on := some ["b"] }),
    .call (.waitTask firstSession "b" { on := some ["a"] })]

theorem waiting_acyclic_sample :
    parkedOn (Pool.execute Action.prog sampleWaits { store := {} }).store "a" = ["b"] ∧
    Acyclic (WaitsFor (Pool.execute Action.prog sampleWaits { store := {} }).store) := by
  refine ⟨by decide +kernel, waiting_acyclic rfl ⟨fun _ _ => rfl, fun _ _ => rfl, ?_, ?_, trivial⟩⟩
  · exact ⟨fun _ _ => rfl, fun _ _ => cycleSeen_of_idle (by decide +kernel)⟩
  · exact ⟨fun _ _ => rfl, fun _ _ => cycleSeen_of_listed (by decide +kernel)⟩

/-- Without the condition on the walk, three tasks wait for each other. -/
theorem waiting_acyclic_unconditional :
    ¬ Acyclic (WaitsFor (Pool.execute Action.prog sampleCycle { store := {} }).store) := by
  have hlists : ["a", "b", "c"].map
      (parkedOn (Pool.execute Action.prog sampleCycle { store := {} }).store) =
        [["b"], ["x", "c"], ["a"]] := by decide +kernel
  generalize (Pool.execute Action.prog sampleCycle { store := {} }).store = s at hlists
  simp only [List.map_cons, List.map_nil, List.cons.injEq, and_true] at hlists
  obtain ⟨ha, hb, hc⟩ := hlists
  intro h
  refine h "a" (.head (waitsFor_of_parkedOn (b := "b") (by simp [ha]) (by simp [hb]))
    (.head (waitsFor_of_parkedOn (b := "c") (by simp [hb]) (by simp [hc]))
      (.single (waitsFor_of_parkedOn (by simp [hc]) (by simp [ha])))))

end Codey
