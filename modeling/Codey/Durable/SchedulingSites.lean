import Codey.Durable.Descend

/-!
# The sites of the scheduler operations

Each scheduler operation, alone or among others, commits at sites only.
-/

namespace Codey

open Prog (Stable Guards guards_bind guards_ofExcept guards_seq guards_throw guards_forEach)

namespace Session

variable {R : World → World → Prop} {T : Terms} {K : World → Prop} {c : Session}

/-! ### Ending a task -/

variable {state : Fields} {taskId reason : String}

lemma guards_failTask (F : Frame R T) {token : Option String} (hcaller : T.caller state) :
    Guards R (Commits (Site T)) K (c.failTask taskId reason state token) fun _ _ => True := by
  refine guards_bind (guards_ensureUsable fun w _ => ?_)
  refine guards_bind (guards_task F fun w₁ current _ _ _ hseen => ?_)
  refine guards_bind (guards_view fun w₂ _ hw₂ _ => ?_)
  refine guards_bind (guards_look fun w₃ hw₃ => ?_)
  refine guards_bind (guards_ofExcept fun _ hauth => ?_)
  refine guards_bind (guards_ofExcept fun pending hpending => ?_)
  refine guards_bind (guards_ofExcept fun next hnext => ?_)
  refine guards_bind (guards_view fun w₄ submission hw₄ _ => ?_)
  refine guards_bind (guards_ofExcept fun update _ => ?_)
  have hnext := TaskCheckpoint.make_eq_ok.mp hnext
  refine guards_commitData F (Site.unfenced T) (F.stable w₄) rfl fun w₅ hw₅ => ?_
  refine .plain (hseen w₅ (F.trans _ _ _ hw₂ (F.trans _ _ _ hw₃ (F.trans _ _ _ hw₄ hw₅))))
    (.fail state pending _ hcaller hpending fun key hkey => ?_)
    ⟨rfl, rfl, rfl, rfl, rfl, rfl, rfl⟩ hnext
  simp only [checkAll_eq_ok, require_eq_ok] at hauth
  exact hauth key hkey

variable {current : TaskCheckpoint}

lemma guards_cancelTerminal (F : Frame R T) (hK : Stable R K) {reason : String}
    (hseen : SeenRow T K current) (hstate : Cancelled T current state)
    (hdrained : ∀ w, K w → T.drained w.store current.taskId ∨ T.early current) :
    Guards R (Commits (Site T)) K (c.cancelTerminal current state reason) fun _ _ => True := by
  refine guards_bind (guards_view fun w _ hw _ => ?_)
  refine guards_bind (guards_look fun w₁ hw₁ => ?_)
  refine guards_bind (guards_ofExcept fun _ _ => ?_)
  refine guards_bind (guards_ofExcept fun next hnext => ?_)
  refine guards_bind (guards_view fun w₂ submission hw₂ _ => ?_)
  refine guards_bind (guards_ofExcept fun update _ => ?_)
  have hnext := TaskCheckpoint.make_eq_ok.mp hnext
  refine guards_commitData F (Site.unfenced T) (F.stable w₂) rfl fun w₃ hw₃ => ?_
  have hK₃ := hK w w₃ hw (F.trans _ _ _ hw₁ (F.trans _ _ _ hw₂ hw₃))
  exact .plain (hseen w₃ hK₃) (.cancel state hstate (hdrained w₃ hK₃))
    ⟨rfl, rfl, rfl, rfl, rfl, rfl, rfl⟩ hnext

/-! ### Attempts -/

lemma guards_claimTask (F : Frame R T) (hclaims : T.claims) {taskId token : String} :
    Guards R (Commits (Site T)) K (c.claimTask taskId token) fun _ _ => True := by
  refine guards_bind (guards_ensureUsable fun w _ => ?_)
  refine guards_bind (guards_task F fun w₁ current _ _ _ hseen => ?_)
  refine guards_bind (guards_ensure fun hpending => ?_)
  refine guards_bind (guards_ensure fun _ => ?_)
  exact guards_commitTask F (F.stable w₁) hseen fun _ _ =>
    .claim c token hclaims (by simpa using hpending)

lemma guards_unclaimTask (F : Frame R T) {taskId : String} :
    Guards R (Commits (Site T)) K (c.unclaimTask taskId) fun _ _ => True := by
  refine guards_bind (guards_ensureUsable fun w _ => ?_)
  refine guards_bind (guards_task F fun w₁ current _ _ _ hseen => ?_)
  refine guards_bind (guards_ensure fun hrunning => ?_)
  exact guards_commitTask F (F.stable w₁) hseen fun _ _ =>
    .release _ (by simpa using hrunning) (Or.inl rfl)

lemma guards_waitTask (F : Frame R T) (hK : Stable R K) {taskId : String} {w : Wait}
    (hparks : ∀ s s' base, K s → R s s' → s.store.tasks.get? taskId = some base →
      T.parks s'.store base w)
    (hearly : ∀ s base, K s → s.store.tasks.get? taskId = some base →
      base.status = .running ∨ base.status = .pending → base.state.cancelRequested = true →
      kernelCleanupRequired base.toCheckpointData = false → T.early base) :
    Guards R (Commits (Site T)) K (c.waitTask taskId w) fun _ _ => True := by
  refine guards_bind (guards_ensureUsable fun w₀ hw₀ => ?_)
  refine guards_bind (guards_task F fun w₁ current hw₁ hget hid hseen => ?_)
  refine guards_bind (guards_ensure fun hlive => ?_)
  split <;> rename_i hcancel
  · split <;> rename_i hcleanup
    · exact guards_unclaimTask F
    refine guards_cancelTerminal F (F.stable w₁) hseen (.parked w₁.store w ?_) fun _ _ =>
      Or.inr (hearly w₁ current (hK w₀ w₁ hw₀ hw₁) hget (by simpa using hlive) hcancel
        (by simpa using hcleanup))
    exact hparks w₁ w₁ current (hK w₀ w₁ hw₀ hw₁) (F.refl w₁) hget
  · refine guards_bind (guards_ensure fun _ => ?_)
    refine guards_bind (guards_look fun w₂ hw₂ => ?_)
    refine guards_bind (guards_ofExcept fun _ hvalid => ?_)
    refine guards_commitTask F (F.stable w₂)
      (hseen.mono fun w' hw' => F.trans _ _ _ hw₂ hw') fun w₃ hw₃ => ?_
    exact .park w (by simpa using hlive) (by simpa using hcancel) ⟨w₂.store, F.rely w₂ w₃ hw₃,
      hparks w₁ w₂ current (hK w₀ w₁ hw₀ hw₁) hw₂ hget, hid ▸ hvalid⟩

/-! ### Cancellation over the ownership tree -/

lemma guards_cancelChildren {request cancel : String → Op CommitResult}
    (hrequest : ∀ id K', Guards R (Commits (Site T)) K' (request id) fun _ _ => True)
    (hcancel : ∀ id K', Guards R (Commits (Site T)) K' (cancel id) fun _ _ => True)
    (children : List TaskCheckpoint) :
    Guards R (Commits (Site T)) K (cancelChildren request cancel children) fun _ _ => True := by
  induction children generalizing K with
  | nil => exact trivial
  | cons child children ih =>
    unfold cancelChildren
    split_ifs
    · exact ih
    · exact guards_seq (hrequest _ _) fun _ _ => ih
    · exact guards_seq (hcancel _ _) fun _ _ => ih

lemma guards_unchanged : Guards R (Commits (Site T)) K (unchanged current) fun _ _ => True :=
  guards_bind (guards_look fun _ _ => trivial)

lemma guards_holdCancel (F : Frame R T) (hK : Stable R K)
    (patch : Fields) {reason : String} {status : TaskStatus} (hseen : SeenRow T K current)
    (hpatch : T.caller patch) (hstatus : status = heldStatus current.status ∨
      status = (if current.status = .running then .running else .pending)) :
    Guards R (Commits (Site T)) K
      (c.holdCancel current (cancelState (current.state.merge patch) reason) status)
      fun _ _ => True :=
  guards_commitTask F hK hseen fun _ _ => .hold patch reason status hpatch hstatus

lemma guards_cancel (F : Frame R T) (hlooks : T.Looks R) (hnil : T.caller [])
    (depth : Nat) : ∀ (K : World → Prop) (taskId reason : String),
      (∀ patch revision, T.caller patch →
        Guards R (Commits (Site T)) K (c.requestCancel depth taskId reason patch revision)
          fun _ _ => True) ∧
      Guards R (Commits (Site T)) K (c.cancelTask depth taskId reason) fun _ _ => True := by
  induction depth with
  | zero =>
    intro K taskId reason
    exact ⟨fun _ _ _ => guards_throw, guards_throw⟩
  | succ depth ih =>
    intro K taskId reason
    have hchildren : ∀ (K' : World → Prop) children, Guards R (Commits (Site T)) K'
        (cancelChildren (fun id => c.requestCancel depth id reason [] none)
          (fun id => c.cancelTask depth id reason) children) fun _ _ => True :=
      fun K' => guards_cancelChildren (fun id K' => (ih K' id reason).1 [] none hnil)
        (fun id K' => (ih K' id reason).2)
    refine ⟨fun patch revision hpatch => ?_, ?_⟩
    · unfold requestCancel
      refine guards_bind (guards_ensureUsable fun w₀ _ => ?_)
      refine guards_bind (guards_task F fun w₁ _ _ _ _ _ => ?_)
      refine guards_bind (guards_ensure fun _ => ?_)
      split
      · exact guards_unchanged
      refine guards_bind (Guards.imp (guards_ownedDescendants F (F.stable w₁)) ?_)
      intro descendants K₂ _
      refine guards_bind (Guards.imp (hchildren K₂ descendants) ?_)
      intro _ K₃ _
      refine guards_bind (guards_task F fun w₄ current _ _ hid hseen => ?_)
      refine guards_bind (Guards.imp
        (guards_liveOwnedDescendants F depth taskId (F.stable w₄)) ?_)
      rintro live K₅ ⟨hstable, hsub, hlive⟩
      split
      · exact guards_holdCancel F hstable patch (hseen.mono hsub) hpatch (Or.inl rfl)
      rename_i hnone
      split
      · exact guards_holdCancel F hstable patch (hseen.mono hsub) hpatch (Or.inr rfl)
      · refine guards_cancelTerminal F hstable (hseen.mono hsub) (.patched patch reason hpatch)
          fun w hw => Or.inl ?_
        rw [hid]
        exact hlooks _ _ (hlive (by simpa using hnone) w hw)
    · unfold cancelTask
      refine guards_bind (guards_ensureUsable fun w₀ _ => ?_)
      refine guards_bind (guards_task F fun w₁ _ _ _ _ _ => ?_)
      split
      · exact guards_unchanged
      refine guards_bind (guards_ensure fun _ => ?_)
      refine guards_bind (Guards.imp (guards_ownedDescendants F (F.stable w₁)) ?_)
      intro descendants K₂ _
      refine guards_bind (Guards.imp (hchildren K₂ descendants) ?_)
      intro _ K₃ _
      refine guards_bind (guards_task F fun w₄ current _ _ hid hseen => ?_)
      refine guards_bind (Guards.imp
        (guards_liveOwnedDescendants F depth taskId (F.stable w₄)) ?_)
      rintro live K₅ ⟨hstable, hsub, hlive⟩
      split
      · exact guards_holdCancel F hstable [] (hseen.mono hsub) hnil (Or.inl rfl)
      · rename_i hnone
        refine guards_cancelTerminal F hstable (hseen.mono hsub) (.patched [] reason hnil)
          fun w hw => Or.inl ?_
        rw [hid]
        exact hlooks _ _ (hlive (by simpa using hnone) w hw)

lemma guards_requestCancel (F : Frame R T) (hlooks : T.Looks R) (hnil : T.caller []) {depth : Nat}
    {patch : Fields} {revision : Option Nat} (hpatch : T.caller patch) :
    Guards R (Commits (Site T)) K (c.requestCancel depth taskId reason patch revision)
      fun _ _ => True :=
  (guards_cancel F hlooks hnil depth K taskId reason).1 patch revision hpatch

lemma guards_cancelTask (F : Frame R T) (hlooks : T.Looks R) (hnil : T.caller []) {depth : Nat} :
    Guards R (Commits (Site T)) K (c.cancelTask depth taskId reason) fun _ _ => True :=
  (guards_cancel F hlooks hnil depth K taskId reason).2

/-! ### Recovery -/

def AllSeen (T : Terms) (tasks : List TaskCheckpoint) (w : World) : Prop :=
  ∀ task ∈ tasks, ∃ s, T.since s w.store ∧ s.tasks.get? task.taskId = some task

variable {tasks : List TaskCheckpoint}

lemma AllSeen.since (F : Frame R T) {w w' : World} (h : AllSeen T tasks w)
    (hw : T.since w.store w'.store) : AllSeen T tasks w' := by
  intro task htask
  obtain ⟨s, hs, hrow⟩ := h task htask
  exact ⟨s, F.since_trans _ _ _ hs hw, hrow⟩

lemma AllSeen.stable (F : Frame R T) (tasks : List TaskCheckpoint) :
    Stable R (AllSeen T tasks) := fun w w' hw hR => hw.since F (F.rely w w' hR)

variable {task : TaskCheckpoint}

lemma AllSeen.seenRow (h : task ∈ tasks) : SeenRow T (AllSeen T tasks) task := fun _ hw => hw task h

/-- Run a program on every task of a list that was read: the rows stay known throughout, since the
operation's own commits are steps along `since`, too. -/
lemma guards_forEach_seen (F : Frame R T) (hkeeps : T.Keeps)
    {f : TaskCheckpoint → Op Unit} (hK : ∀ w, K w → AllSeen T tasks w)
    (hf : ∀ task ∈ tasks,
      Guards R (Commits (Site T)) (AllSeen T tasks) (f task) fun _ _ => True) :
    Guards R (Commits (Site T)) K (Prog.forEach tasks f) fun _ _ => True := by
  refine Guards.imp (guards_forEach (I := fun K' => ∀ w, K' w → AllSeen T tasks w) hK
    fun task htask K' hK' => ?_) fun _ _ _ => trivial
  refine Guards.imp (Guards.carry
    ((hf task htask).mono hK' fun _ _ _ _ _ => trivial) (AllSeen.stable F tasks) ?_ hK')
    fun _ _ h => h.2
  rintro w w' hw (heq | ⟨m, r, hcommit, hsite⟩)
  · unfold AllSeen
    rw [heq]
    exact hw
  · exact hw.since F (hkeeps _ m r _ hcommit hsite)

lemma guards_handleSkip {p : Op Unit} (h : Guards R (Commits (Site T)) K p fun _ _ => True) :
    Guards R (Commits (Site T)) K (p.handle skipConflict) fun _ _ => True := by
  refine Prog.guards_handle h fun e K' => ?_
  unfold skipConflict
  split
  · exact trivial
  · exact guards_throw

lemma guards_recoverTask (F : Frame R T) (hK : Stable R K)
    (hseen : SeenRow T K task) (hrunning : task.status = .running)
    (habandon : T.caller [("abort_reason", .str "restart")])
    (hearly : task.state.get? "abandon_on_restart" ≠ some (.bool true) →
      task.state.cancelRequested = true → kernelCleanupRequired task.toCheckpointData = false →
      T.early task) :
    Guards R (Commits (Site T)) K (c.recoverTask task) fun _ _ => True := by
  unfold recoverTask
  split <;> rename_i habandoned
  · exact guards_failTask F habandon
  split <;> rename_i hcancel
  · simp only [Bool.and_eq_true, Bool.not_eq_true'] at hcancel
    exact guards_cancelTerminal F hK hseen .recovered fun _ _ =>
      Or.inr (hearly habandoned hcancel.1 hcancel.2)
  · exact guards_commitTask F hK hseen fun _ _ => .release task.phase hrunning (Or.inr rfl)

lemma guards_recoverSchedulerState (F : Frame R T) (hkeeps : T.Keeps) {force : Bool}
    (hK : Stable R K) (habandon : T.caller [("abort_reason", .str "restart")])
    (hearly : ∀ w base, K w → base ∈ w.store.pendingTasks → base.status = .running →
      force = true ∨ c.attemptAlive base = false →
      base.state.get? "abandon_on_restart" ≠ some (.bool true) →
      base.state.cancelRequested = true → kernelCleanupRequired base.toCheckpointData = false →
      T.early base) :
    Guards R (Commits (Site T)) K (c.recoverSchedulerState force) fun _ _ => True := by
  refine guards_bind (guards_ensureUsable fun w₀ hw₀ => ?_)
  refine guards_bind (guards_look fun w₁ hw₁ => ?_)
  refine guards_forEach_seen F hkeeps (fun w hw task htask => ⟨w₁.store, F.rely w₁ w hw,
    Table.mem_rows_iff.mp (List.mem_filter.mp htask).1⟩) ?_
  intro task htask
  split <;> rename_i hskip
  · exact trivial
  simp only [ne_eq, Bool.not_eq_true, Bool.or_eq_false_iff, decide_eq_false_iff_not, not_not]
    at hskip
  refine guards_handleSkip (guards_bind (Guards.imp (guards_recoverTask F
    (AllSeen.stable F _) (AllSeen.seenRow htask) hskip.1 habandon ?_) fun _ _ _ => trivial))
  refine hearly w₁ task (hK w₀ w₁ hw₀ hw₁) htask hskip.1 ?_
  cases force with
  | true => exact Or.inl rfl
  | false => exact Or.inr (by simpa using hskip.2)

/-! ### Completion -/

lemma guards_advanceTask (F : Frame R T) {taskId : String} {a : Advance}
    (hstep : ∀ base, base.taskId = taskId → T.step base a)
    (hdrained : a.phase = .completed → Stable R K ∧ ∀ w, K w → T.drained w.store taskId) :
    Guards R (Commits (Site T)) K (c.advanceTask taskId a) fun _ _ => True := by
  refine guards_bind (guards_ensureUsable fun w₀ hw₀ => ?_)
  refine guards_bind (guards_task F fun w₁ current hw₁ _ hid hseen => ?_)
  refine guards_bind (guards_ensure fun hbarrier => ?_)
  refine guards_bind (guards_view fun w₂ head hw₂ _ => ?_)
  refine guards_bind (guards_ofExcept fun entries _ => ?_)
  refine guards_bind (guards_ofExcept fun next hnext => ?_)
  have hnext := TaskCheckpoint.make_eq_ok.mp hnext
  have hsite : ∀ w₃, R w₂ w₃ → ∀ update, Site T w₃.store {
      conversationId := current.conversationId, expectedRevision := head.2, entries
      task := some next, submissionUpdate := update } := fun w₃ hw₃ update => by
    refine .plain (hseen w₃ (F.trans _ _ _ hw₂ hw₃))
      (.advance c a (hstep current hid) ?_ fun hphase => ?_)
      ⟨rfl, rfl, rfl, rfl, rfl, rfl, rfl⟩ hnext
    · simpa [or_assoc] using hbarrier
    · rw [hid]
      obtain ⟨hK, hdrained⟩ := hdrained hphase
      exact hdrained w₃ (hK _ _ (hK _ _ hw₀ hw₁) (F.trans _ _ _ hw₂ hw₃))
  refine guards_bind ?_
  unfold advanceUpdate
  split
  · exact guards_commitData F (Site.unfenced T) (F.stable w₂) rfl fun w₃ hw₃ => hsite w₃ hw₃ _
  · refine guards_bind (guards_view fun w₃ _ hw₃ _ => ?_)
    refine guards_bind (guards_ofExcept fun update _ => ?_)
    exact guards_commitData F (Site.unfenced T) (F.stable w₃) rfl fun w₄ hw₄ =>
      hsite w₄ (F.trans _ _ _ hw₃ hw₄) _

structure CompletionStep (answer : String) (state : Fields) (a : Advance) : Prop where
  phase : a.phase = .running ∨ a.phase = .completionPending ∨ a.phase = .completed
  state_eq : a.state = state ∨ a.state =
    state.merge [("completion_answer", .str answer), ("completion_state", .obj state)]
  status : a.taskStatus = none ∨ a.taskStatus = some .completing

lemma guards_startTask (F : Frame R T) {taskId answer : String}
    (hstep : ∀ base a, CompletionStep answer state a → T.step base a) :
    Guards R (Commits (Site T)) K (c.startTask taskId state) fun _ _ => True :=
  guards_advanceTask F (fun _ _ => hstep _ _ ⟨Or.inl rfl, Or.inl rfl, Or.inl rfl⟩)
    fun h => by cases h

lemma guards_holdCompletion (F : Frame R T) {taskId answer : String}
    (hstep : ∀ base a, CompletionStep answer state a → T.step base a) :
    Guards R (Commits (Site T)) K (c.holdCompletion taskId answer state) fun _ _ => True := by
  have hlast : ∀ K' : World → Prop, Guards R (Commits (Site T)) K' (c.advanceTask taskId {
      phase := .completionPending
      state := state.merge [("completion_answer", .str answer), ("completion_state", .obj state)]
      taskStatus := some .completing }) fun _ _ => True := fun K' =>
    guards_advanceTask F (fun _ _ => hstep _ _ ⟨Or.inr (Or.inl rfl), Or.inr rfl, Or.inr rfl⟩)
      fun h => by cases h
  have hrest : ∀ (K' : World → Prop) (current : TaskCheckpoint),
      Guards R (Commits (Site T)) K' (do
        if current.phase ≠ .completionPending then do
          let _ ← c.advanceTask taskId {
            phase := .completionPending, state, taskStatus := some .completing }
        c.advanceTask taskId {
          phase := .completionPending
          state := state.merge
            [("completion_answer", .str answer), ("completion_state", .obj state)]
          taskStatus := some .completing }) fun _ _ => True := fun K' current => by
    split
    · refine guards_bind (Guards.imp (guards_advanceTask F
        (fun _ _ => hstep _ _ ⟨Or.inr (Or.inl rfl), Or.inl rfl, Or.inr rfl⟩)
        fun h => by cases h) fun _ K'' _ => hlast K'')
    · exact hlast K'
  refine guards_bind (guards_task F fun w current _ _ _ _ => ?_)
  split
  · refine guards_bind (Guards.imp (guards_startTask F hstep) fun _ K' _ => ?_)
    exact guards_bind (guards_task F fun w' current' _ _ _ _ => hrest _ current')
  · exact hrest _ current

lemma guards_finishTask (F : Frame R T) (hlooks : T.Looks R)
    {taskId answer entryId : String}
    (hstep : ∀ base a, CompletionStep answer state a → T.step base a) :
    Guards R (Commits (Site T)) K (c.finishTask taskId answer entryId state) fun _ _ => True := by
  refine guards_bind (guards_ensureUsable fun w _ => ?_)
  refine guards_bind (Guards.imp
    (guards_liveOwnedDescendants F c.depth taskId (F.stable w)) ?_)
  rintro live K' ⟨hstable, -, hlive⟩
  split <;> rename_i hnone
  · exact guards_holdCompletion F hstep
  · exact guards_advanceTask F
      (fun _ _ => hstep _ _ ⟨Or.inr (Or.inr rfl), Or.inl rfl, Or.inl rfl⟩)
      fun _ => ⟨hstable, fun w' hw' => hlooks _ _ (hlive (by simpa using hnone) w' hw')⟩

lemma guards_reachCompletion (F : Frame R T) {answer : String}
    (hstep : ∀ base a, CompletionStep answer state a → T.step base a) :
    Guards R (Commits (Site T)) K (c.reachCompletion current state) fun _ _ => True := by
  have hrest : ∀ K' : World → Prop, Guards R (Commits (Site T)) K' (do
      let current ← view (·.task current.taskId)
      if current.phase ≠ .completionPending then do
        let _ ← c.advanceTask current.taskId { phase := .completionPending, state })
      fun _ _ => True := fun K' => by
    refine guards_bind (guards_task F fun w current' _ _ _ _ => ?_)
    split
    · exact guards_bind (Guards.imp (guards_advanceTask F
        (fun _ _ => hstep _ _ ⟨Or.inr (Or.inl rfl), Or.inl rfl, Or.inl rfl⟩)
        fun h => by cases h) fun _ _ _ => trivial)
    · exact trivial
  unfold reachCompletion
  split
  · exact guards_bind (Guards.imp (guards_startTask F hstep) fun _ K' _ => hrest K')
  · exact hrest K

lemma guards_completeTask (F : Frame R T) (hlooks : T.Looks R) {taskId answer entryId : String}
    (hstep : ∀ base a, CompletionStep answer state a → T.step base a) :
    Guards R (Commits (Site T)) K (c.completeTask taskId answer entryId state)
      fun _ _ => True := by
  refine guards_bind (guards_ensureUsable fun w₀ _ => ?_)
  refine guards_bind (guards_task F fun w₁ current _ _ _ _ => ?_)
  refine guards_bind (Guards.imp
    (guards_liveOwnedDescendants F c.depth taskId (F.stable w₁)) ?_)
  rintro live K' ⟨hstable, -, -⟩
  split
  · exact guards_holdCompletion F hstep
  split
  · exact guards_bind (Guards.imp (guards_reachCompletion F hstep)
      fun _ _ _ => guards_finishTask F hlooks hstep)
  · exact guards_finishTask F hlooks hstep

/-! ### Reconciliation -/

structure JoinStep (a : Advance) : Prop where
  phase : a.phase.terminal = false
  state_eq : a.state = [("waiting_on", .arr [])] ∨ ∃ results,
    a.state = [("waiting_on", .arr []), ("join_results", .obj results)]
  status : a.taskStatus = some .pending

def Joins (T : Terms) : Prop :=
  (∀ missing, T.caller [("join_error", Fields.ofStrs missing)]) ∧
  (∀ id, T.caller [("join_failed_task", .str id)]) ∧ ∀ base a, JoinStep a → T.step base a

lemma guards_readJoined (ids : List String) :
    Guards R (Commits (Site T)) K (readJoined ids) fun _ _ => True := by
  induction ids generalizing K with
  | nil => exact trivial
  | cons id ids ih =>
    refine guards_bind (guards_look fun w hw => ?_)
    refine guards_bind (Guards.imp ih fun _ _ _ => ?_)
    dsimp only
    split <;> exact trivial

lemma guards_reconcileWaiting (F : Frame R T) (hjoins : Joins T) :
    Guards R (Commits (Site T)) K (c.reconcileWaiting task) fun _ _ => True := by
  obtain ⟨hmissing, hfailed, hstep⟩ := hjoins
  unfold reconcileWaiting
  split <;> rename_i hskip
  · exact trivial
  simp only [ne_eq, Bool.not_eq_true, Bool.or_eq_false_iff, decide_eq_false_iff_not, not_not]
    at hskip
  have hphase : task.phase.terminal = false := by
    by_contra hterm
    have := task.status_terminal_iff.mpr (by simpa using hterm)
    simp [hskip.1.1, TaskStatus.terminal] at this
  have hwake : ∀ (K' : World → Prop) state, (state = [("waiting_on", Json.arr [])] ∨
      ∃ results, state = [("waiting_on", .arr []), ("join_results", .obj results)]) →
      Guards R (Commits (Site T)) K' (do
        let _ ← c.advanceTask task.taskId {
          phase := task.phase, state, taskStatus := some .pending }) fun _ _ => True :=
    fun K' state hstate => guards_bind (Guards.imp (guards_advanceTask F
      (fun base _ => hstep base _ ⟨hphase, hstate, rfl⟩) fun h => by
        simp [show task.phase = .completed from h, Phase.terminal] at hphase)
      fun _ _ _ => trivial)
  split
  · exact hwake K _ (Or.inl rfl)
  refine guards_bind (Guards.imp (guards_readJoined task.state.waitingOn) ?_)
  intro joined K' _
  obtain ⟨children, missing⟩ := joined
  dsimp only
  split
  · exact guards_bind (Guards.imp (guards_failTask F (hmissing missing))
      fun _ _ _ => trivial)
  split
  · refine guards_bind (guards_view fun w submission _ _ => ?_)
    exact guards_bind (Guards.imp (guards_failTask F (hfailed _))
      fun _ _ _ => trivial)
  · split
    · exact hwake K' _ (Or.inr ⟨_, rfl⟩)
    · exact trivial

lemma guards_reconcileWaitingTasks (F : Frame R T) (hjoins : Joins T) {taskId : Option String} :
    Guards R (Commits (Site T)) K (c.reconcileWaitingTasks taskId) fun _ _ => True := by
  have hall : ∀ (K' : World → Prop) tasks,
      Guards R (Commits (Site T)) K' (Prog.forEach tasks c.reconcileWaiting) fun _ _ => True :=
    fun K' tasks => guards_forEach (I := fun _ => True) trivial fun _ _ _ _ =>
      guards_reconcileWaiting F hjoins
  refine guards_bind (guards_ensureUsable fun w _ => ?_)
  cases taskId with
  | none => exact guards_bind (guards_look fun w' _ => hall _ _)
  | some taskId => exact guards_bind (guards_task F fun w' task _ _ _ _ => hall _ _)

/-- The tasks that are read one after the other stay known. -/
lemma guards_readHeld (F : Frame R T) (hK : Stable R K) (ids : List String) :
    Guards R (Commits (Site T)) K (readHeld ids) fun tasks K' =>
      Stable R K' ∧ (∀ w, K' w → K w) ∧ ∀ task ∈ tasks, SeenRow T K' task ∧
        ∃ w, K w ∧ w.store.tasks.get? task.taskId = some task := by
  induction ids generalizing K with
  | nil => exact ⟨hK, fun _ hw => hw, by simp⟩
  | cons id ids ih =>
    refine guards_bind (guards_look fun w hw => ?_)
    refine guards_bind (Guards.imp (ih (F.stable w)) ?_)
    rintro rest K' ⟨hstable, hsub, hrest⟩
    have hsub' : ∀ w', K' w' → K w' := fun w' hw' => hK _ _ hw (hsub w' hw')
    have hrest' : ∀ task ∈ rest, SeenRow T K' task ∧
        ∃ w, K w ∧ w.store.tasks.get? task.taskId = some task := by
      intro task htask
      obtain ⟨hseen, w', hw', hget⟩ := hrest task htask
      exact ⟨hseen, w', hK _ _ hw hw', hget⟩
    split
    · rename_i task hget
      split
      · refine ⟨hstable, hsub', fun row hrow => ?_⟩
        rcases List.mem_cons.mp hrow with rfl | hrow
        · have hid : row.taskId = id := Table.key_of_get? (t := w.store.tasks) hget
          rw [← hid] at hget
          exact ⟨fun w' hw' => ⟨w.store, F.rely w w' (hsub w' hw'), hget⟩, w, hw, hget⟩
        · exact hrest' row hrow
      · exact ⟨hstable, hsub', hrest'⟩
    · exact ⟨hstable, hsub', hrest'⟩

def HeldState (task : TaskCheckpoint) (state : Fields) : Prop :=
  state = [] ∨ task.state.get? "completion_state" = some (.obj state)

lemma guards_reconcileFinal (F : Frame R T) (hlooks : T.Looks R) (hK : Stable R K)
    {entryId : String → String} (hseen : SeenRow T K task)
    (hstep : ∀ answer state base a, HeldState task state → CompletionStep answer state a →
      T.step base a) :
    Guards R (Commits (Site T)) K (c.reconcileFinal entryId task) fun _ _ => True := by
  refine guards_bind (Guards.imp
    (guards_liveOwnedDescendants F c.depth task.taskId hK) ?_)
  rintro live K' ⟨hstable, hsub, hlive⟩
  split <;> rename_i hnone
  · exact trivial
  split
  · exact guards_bind (Guards.imp (guards_cancelTerminal F hstable (hseen.mono hsub)
      .held fun w hw => Or.inl (hlooks _ _ (hlive (by simpa using hnone) w hw)))
      fun _ _ _ => trivial)
  split
  · rename_i answer _ _
    split
    · exact guards_seq (guards_finishTask F hlooks fun base a =>
        hstep answer _ base a (Or.inl rfl)) fun _ _ => trivial
    · rename_i hstate
      exact guards_seq (guards_finishTask F hlooks fun base a =>
        hstep answer _ base a (Or.inr hstate)) fun _ _ => trivial
    · exact trivial
  · exact trivial

/-- Something that `reconcile_finalization` finds and keeps, and what it says of the completions
that were held. -/
structure Holds (R : World → World → Prop) (T : Terms) (J : World → Prop) : Prop where
  others : Stable R J
  own : ∀ w w', J w → Commits (Site T) w w' → J w'
  step : ∀ w task answer state base a, J w → w.store.tasks.get? task.taskId = some task →
    HeldState task state → CompletionStep answer state a → T.step base a

lemma guards_reconcileFinalization (F : Frame R T) (hlooks : T.Looks R) (hkeeps : T.Keeps)
    (hjoins : Joins T) {taskIds : Option (List String)} {entryId : String → String}
    {J : World → Prop} (hholds : Holds R T J) (hK : ∀ w, K w → J w) :
    Guards R (Commits (Site T)) K (c.reconcileFinalization taskIds entryId) fun _ _ => True := by
  have hrest : ∀ (K' : World → Prop) ids, (∀ w, K' w → J w) → Guards R (Commits (Site T)) K'
      (do
        Prog.forEach ids fun taskId => c.reconcileWaitingTasks (some taskId)
        let selected ← readHeld ids
        Prog.forEach selected (c.reconcileFinal entryId)) fun _ _ => True := fun K' ids hK' => by
    have hwaiting : Guards R (Commits (Site T)) K' (Prog.forEach ids fun taskId =>
        c.reconcileWaitingTasks (some taskId)) fun _ _ => True :=
      guards_forEach (I := fun _ => True) trivial fun _ _ _ _ =>
        guards_reconcileWaitingTasks F hjoins
    refine guards_bind
      ((hwaiting.carry hholds.others hholds.own hK').imp fun _ K₁ hK₁ => ?_)
    refine guards_bind (Guards.mono (guards_readHeld F hholds.others ids) hK₁.2 ?_)
    rintro selected K₂ ⟨-, -, hseen⟩ K₃ hK₃
    refine guards_forEach_seen F hkeeps
      (fun w hw task htask => (hseen task htask).1 w (hK₃ w hw)) fun task htask => ?_
    obtain ⟨-, w, hw, hget⟩ := hseen task htask
    exact guards_reconcileFinal F hlooks (AllSeen.stable F selected) (AllSeen.seenRow htask)
      fun answer state base a hheld => hholds.step w task answer state base a hw hget hheld
  refine guards_bind (guards_ensureUsable fun w hw => ?_)
  have hJ : ∀ w', R w w' → J w' := fun w' => hholds.others w w' (hK w hw)
  cases taskIds with
  | none => exact guards_bind (guards_look fun w' hw' => hrest _ _ fun w'' =>
      hholds.others w' w'' (hJ w' hw'))
  | some taskIds => exact hrest _ _ hJ

end Session

end Codey
