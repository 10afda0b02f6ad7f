import Codey.Durable.Approvals
import Codey.Lib.Stops

/-!
# The settlement of an approval

`settle_approval` takes a call for a repetition when the approval it finds is answered. Whether the
first call that succeeds answers it depends on how the call continues.
-/

namespace Codey

open Prog (run_bind_eq_ok run_readE_bind_eq_ok run_ofExcept_bind_eq_ok)

/-! ### Answered approvals -/

namespace SqliteStore

/-- A call returns `None` on such an approval: it was continued, or its shell effect is settled. -/
def answered (s : SqliteStore) (a : ApprovalRecord) : Bool :=
  a.continuationStatus = "started" || a.continuationStatus = "cancelled"
    || (a.status = .executionClaimed
      && (s.effects.get? ("shell-" ++ a.approvalId)).any (·.settlement.isSome))

lemma task_eq_ok {s : SqliteStore} {id : String} {t : TaskCheckpoint} :
    s.task id = .ok t ↔ s.tasks.get? id = some t := by
  unfold task
  cases s.tasks.get? id <;> simp

/-- A record is found under an id where it is written: it is named by the id, and no task that
holds the id precedes its own. -/
def inPlace (s : SqliteStore) (id : String) (a : ApprovalRecord) : Bool :=
  a.approvalId = id
    && (s.tasks.rows.find? fun t => t.taskId = a.taskId || (approvalPayload id t).isSome).any
      (·.taskId = a.taskId)

end SqliteStore

/-! ### Rows that are written in place -/

namespace Table

variable {κ ν β : Type} {key : ν → κ} [DecidableEq κ] {f : ν → Option β} {v : ν} {ws : List ν}

/-- A search finds the row that was written, when no row before it answers. -/
lemma findSome?_putRows_first {b : β} (hv : f v = some b)
    (h : (ws.find? fun w => key w = key v || (f w).isSome).any (key · = key v) = true) :
    (putRows key v ws).findSome? f = some b := by
  induction ws with
  | nil => simp at h
  | cons w ws ih =>
    by_cases hw : key w = key v
    · simp [putRows, hw, hv]
    · cases hf : f w with
      | none =>
        rw [putRows, if_neg hw, List.findSome?_cons, hf]
        exact ih (by simpa [hw, hf] using h)
      | some b' => simp [hw, hf] at h

/-- A search that ends before the row that was written finds what it found. -/
lemma findSome?_putRows_before (hmem : ∃ w ∈ ws, key w = key v)
    (h : (ws.find? fun w => key w = key v || (f w).isSome).any (key · = key v) = false) :
    (putRows key v ws).findSome? f = ws.findSome? f := by
  induction ws with
  | nil => obtain ⟨w, hw, -⟩ := hmem; cases hw
  | cons w ws ih =>
    by_cases hw : key w = key v
    · simp [hw] at h
    · rw [putRows, if_neg hw, List.findSome?_cons, List.findSome?_cons]
      cases hf : f w with
      | none =>
        obtain ⟨u, hu, hkey⟩ := hmem
        rcases List.mem_cons.mp hu with rfl | hu
        · exact absurd hkey hw
        · exact ih ⟨u, hu, hkey⟩ (by simpa [hw, hf] using h)
      | some b => rfl

/-- A search that does not tell a row from the one it replaces finds what it found. -/
lemma findSome?_putRows_same {w : ν} (hw : ws.find? (key · = key v) = some w) (h : f v = f w) :
    (putRows key v ws).findSome? f = ws.findSome? f := by
  induction ws with
  | nil => cases hw
  | cons u ws ih =>
    by_cases hu : key u = key v
    · obtain rfl : u = w := by simpa [hu] using hw
      rw [putRows, if_pos hu, List.findSome?_cons, List.findSome?_cons, h]
    · rw [putRows, if_neg hu, List.findSome?_cons, List.findSome?_cons,
        ih (by simpa [hu] using hw)]

end Table

/-! ### What a call does -/

/-- What a settlement writes: the answer of the approval, in the next checkpoint of its task, and
the outcome of its shell effect. -/
structure Answers (s s' : SqliteStore) (a : ApprovalRecord) (resume : Bool)
    (updated : ApprovalRecord) : Prop where
  open_ : a.continuationStatus ≠ "started" ∧ a.continuationStatus ≠ "cancelled"
  settles : a.status = .executionClaimed ∧ updated.status = .executionSettled ∧
      (s'.effects.get? ("shell-" ++ a.approvalId)).any (·.settlement.isSome) = true ∨
    a.status = .denied ∧ updated.status = .denied
  named : updated.approvalId = a.approvalId ∧ updated.taskId = a.taskId
  continued : updated.continuationStatus = if resume then "started" else "not_required"
  written : ∃ current next, s.tasks.get? a.taskId = some current ∧
    s'.tasks = s.tasks.put next ∧ next.taskId = a.taskId ∧
    ∀ id, SqliteStore.approvalPayload id next =
      if a.approvalId = id then some (ApprovalRecord.toPayload updated.toApprovalData)
      else SqliteStore.approvalPayload id current

namespace Session

variable {c : Session} {w w' : World}

/-- A fenced commit of an approval folds it into the stored checkpoint of its task. -/
lemma run_commitApproval {m : MutationData} {approval : ApprovalRecord} {token : String}
    {r : CommitResult} (happroval : m.approval = some approval)
    (htoken : m.expectedAttemptToken = some token)
    (h : (c.commitData m).run w = (.ok r, w')) :
    ∃ (m₁ m' : DurableMutation) (current : TaskCheckpoint), m₁.toMutationData = m ∧
      w.store.task approval.taskId = .ok current ∧
      materializeApproval m₁ approval current = .ok m' ∧
      w.store.commit m' = .ok (r, w'.store) ∧ w'.sealed = w.sealed := by
  obtain ⟨m₁, hm₁, h⟩ := run_ofExcept_bind_eq_ok.mp h
  have hdata := DurableMutation.make_eq_ok.mp hm₁
  obtain ⟨_, -, h⟩ := run_readE_bind_eq_ok.mp h
  have hmaterialize : materialize m₁ = (view (·.task approval.taskId)).bind fun current =>
      Prog.ofExcept (materializeApproval m₁ approval current) := by
    rw [materialize, hdata, happroval]
    rfl
  rw [hmaterialize, Prog.bind_eq, Prog.bind_assoc] at h
  obtain ⟨current, htask, h⟩ := run_readE_bind_eq_ok.mp h
  obtain ⟨m', hm', h⟩ := run_ofExcept_bind_eq_ok.mp h
  obtain ⟨fold⟩ := materializeApproval_eq_ok hm'
  have hfence : c.fence m' = .ret m' := by
    rw [fence, fold.m'_eq, hdata, htoken]
    rfl
  rw [hfence, Prog.bind_eq, Prog.ret_bind] at h
  exact ⟨m₁, m', current, hdata, htask, hm', run_storeCommit_eq_ok h⟩

/-- A call on an answered approval changes nothing. -/
lemma run_settleApproval_answered {approvalId : String} {settlement : Fields} {resume : Bool}
    {entries : List EntryDraft} {a : ApprovalRecord} {current : TaskCheckpoint}
    (husable : w.sealed.contains c.ownerId = false) (ha : w.store.approval approvalId = .ok a)
    (hcurrent : w.store.task a.taskId = .ok current) (h : w.store.answered a = true) :
    (c.settleApproval approvalId settlement resume entries).run w = (.ok none, w) := by
  unfold settleApproval
  rw [Prog.bind_eq, Prog.run_bind_ok (run_ensureUsable husable), Prog.bind_eq,
    Prog.run_bind_ok (by rw [run_view, ha]), Prog.bind_eq,
    Prog.run_bind_ok (by rw [run_view, hcurrent])]
  split
  · rfl
  · rename_i hopen
    simp only [SqliteStore.answered, Bool.or_eq_true] at h
    rcases h with h | h
    · exact absurd (by simpa using h) hopen
    · simp only [Bool.and_eq_true, decide_eq_true_eq, Option.any_eq_true] at h
      obtain ⟨hstatus, effect, heffect, hsettled⟩ := h
      have heffect : w.store.effect ("shell-" ++ a.approvalId) = .ok effect := by
        rw [SqliteStore.effect, heffect]
      have houtcome : (approvalOutcome a current settlement).run w = (.ok none, w) := by
        rw [approvalOutcome, hstatus]
        simp only [Prog.bind_eq]
        rw [Prog.run_bind_ok (by rw [run_view, heffect]), if_pos hsettled]
        rfl
      rw [Prog.bind_eq, Prog.run_bind_ok houtcome]
      rfl

/-- The outcome of an approval that can be settled. -/
lemma run_approvalOutcome_eq_ok {a : ApprovalRecord} {current : TaskCheckpoint}
    {settlement : Fields} {o : Option ApprovalOutcome}
    (h : (approvalOutcome a current settlement).run w = (.ok o, w')) : w' = w ∧
      ((o = none ∧ a.status = .executionClaimed ∧
          (w.store.effects.get? ("shell-" ++ a.approvalId)).any (·.settlement.isSome) = true) ∨
        ∃ outcome, o = some outcome ∧ outcome.next.taskId = current.taskId ∧
          ((a.status = .executionClaimed ∧ outcome.status = .executionSettled ∧
              (w.store.effects.get? ("shell-" ++ a.approvalId)).any (·.settlement.isSome) = false ∧
              ∃ settled, outcome.settled = [settled] ∧
                settled.effectId = "shell-" ++ a.approvalId ∧ settled.settlement.isSome = true) ∨
            (a.status = .denied ∧ outcome.status = .denied))) := by
  unfold approvalOutcome at h
  split at h
  · rename_i hstatus
    obtain ⟨effect, heffect, h⟩ := run_readE_bind_eq_ok.mp h
    have hget : w.store.effects.get? ("shell-" ++ a.approvalId) = some effect := by
      dsimp only [SqliteStore.effect] at heffect
      split at heffect
      · rename_i hrow
        rw [hrow, Except.ok.inj heffect]
      · cases heffect
    split_ifs at h with hsettled
    · obtain ⟨ho, rfl⟩ := Prod.mk.inj h
      exact ⟨rfl, Or.inl ⟨(Except.ok.inj ho).symm, hstatus, by rw [hget]; exact hsettled⟩⟩
    · obtain ⟨_, -, h⟩ := run_ofExcept_bind_eq_ok.mp h
      obtain ⟨settled, hmake, h⟩ := run_ofExcept_bind_eq_ok.mp h
      obtain ⟨next, hnext, h⟩ := run_ofExcept_bind_eq_ok.mp h
      obtain ⟨ho, rfl⟩ := Prod.mk.inj h
      have hdata := EffectRecord.make_eq_ok.mp hmake
      have hid := Table.key_of_get? hget
      refine ⟨rfl, Or.inr ⟨_, (Except.ok.inj ho).symm, ?_, Or.inl ⟨hstatus, rfl, ?_, settled, rfl,
        ?_, ?_⟩⟩⟩
      · rw [withEffectSettlement_frame hnext]
      · rw [hget]
        simpa using hsettled
      · rw [hdata, hid]
      · rw [hdata]
        rfl
  · rename_i hstatus
    obtain ⟨ho, rfl⟩ := Prod.mk.inj h
    exact ⟨rfl, Or.inr ⟨_, (Except.ok.inj ho).symm, rfl, Or.inr ⟨hstatus, rfl⟩⟩⟩
  · cases h

/-- A call that succeeds finds the approval answered, or answers it. -/
lemma run_settleApproval_eq_ok {approvalId : String} {settlement : Fields} {resume : Bool}
    {entries : List EntryDraft} {outcome : Option CommitResult}
    (h : (c.settleApproval approvalId settlement resume entries).run w = (.ok outcome, w')) :
    w.sealed.contains c.ownerId = false ∧ ∃ a, w.store.approval approvalId = .ok a ∧
      (∃ current, w.store.task a.taskId = .ok current) ∧
      (w.store.answered a = true ∧ outcome = none ∧ w' = w ∨
        w.store.answered a = false ∧ outcome.isSome = true ∧ w'.sealed = w.sealed ∧
          ∃ updated, Answers w.store w'.store a resume updated) := by
  obtain ⟨_, husable, h⟩ := run_readE_bind_eq_ok.mp h
  obtain ⟨a, ha, h⟩ := run_readE_bind_eq_ok.mp h
  obtain ⟨current, hcurrent, h⟩ := run_readE_bind_eq_ok.mp h
  refine ⟨by simpa using husable, a, ha, ⟨current, hcurrent⟩, ?_⟩
  split at h <;> rename_i hcontinued
  · obtain ⟨ho, rfl⟩ := Prod.mk.inj h
    refine Or.inl ⟨?_, (Except.ok.inj ho).symm, rfl⟩
    rw [SqliteStore.answered, hcontinued, Bool.true_or]
  obtain ⟨o, t, ho, h⟩ := run_bind_eq_ok.mp h
  obtain ⟨ht, ⟨rfl, hclaimed, hsettled⟩ | ⟨outcome', rfl, htaskId, houtcome⟩⟩ :=
    run_approvalOutcome_eq_ok ho
  all_goals subst t
  · obtain ⟨ho, rfl⟩ := Prod.mk.inj h
    refine Or.inl ⟨?_, (Except.ok.inj ho).symm, rfl⟩
    simp [SqliteStore.answered, hclaimed, hsettled]
  obtain ⟨next, hnext, h⟩ := run_ofExcept_bind_eq_ok.mp h
  obtain ⟨updated, hupdated, h⟩ := run_ofExcept_bind_eq_ok.mp h
  obtain ⟨⟨_, revision⟩, -, h⟩ := run_readE_bind_eq_ok.mp h
  obtain ⟨r, t, hcommit, h⟩ := run_bind_eq_ok.mp h
  obtain ⟨ho', ht⟩ := Prod.mk.inj h
  subst t
  obtain rfl := Except.ok.inj ho'
  have hdata := TaskCheckpoint.make_eq_ok.mp hnext
  have hanswer := ApprovalRecord.make_eq_ok.mp hupdated
  obtain ⟨m₁, m', _, hm₁, hread, hm', hstore, hsealed⟩ := run_commitApproval rfl rfl hcommit
  have hsame : updated.taskId = a.taskId := by rw [hanswer]
  obtain rfl := Except.ok.inj (hcurrent.symm.trans (hsame ▸ hread))
  simp only [Bool.or_eq_true, decide_eq_true_eq, not_or] at hcontinued
  have hrow := SqliteStore.task_eq_ok.mp hcurrent
  have hnextId : next.taskId = a.taskId := by
    rw [hdata, ← Table.key_of_get? hrow, ← htaskId]
    split <;> rfl
  obtain ⟨fold⟩ := materializeApproval_eq_ok hm'
  have hfields := fold.m'_eq
  have hfolded := fold.next_eq
  rw [hm₁] at hfields hfolded
  dsimp only at hfields hfolded
  have haccepted : SqliteStore.Accepted w.store m' w'.store := by
    rcases SqliteStore.commit_cases hstore with ⟨-, h⟩ | ⟨h, -⟩ | ⟨-, h⟩
    · simp [hfields] at h
    · simp [hfields] at h
    · exact h
  have heffects : w'.store.effects = outcome'.settled.foldl Table.put w.store.effects := by
    rw [haccepted.effects_eq]
    simp [MutationData.allEffects, hfields]
  refine Or.inr ⟨?_, rfl, hsealed, updated, hcontinued, ?_, ?_, by rw [hanswer], ?_⟩
  · rcases houtcome with ⟨hstatus, -, hunsettled, -⟩ | ⟨hstatus, -⟩
    · simp [SqliteStore.answered, hcontinued, hunsettled]
    · simp [SqliteStore.answered, hcontinued, hstatus]
  · rcases houtcome with ⟨hstatus, hclaimed, -, settled, hlist, hid, hsettled⟩ | ⟨hstatus, hdenied⟩
    · refine Or.inl ⟨hstatus, by rw [hanswer, hclaimed], ?_⟩
      rw [heffects, hlist, List.foldl_cons, List.foldl_nil, ← hid, Table.get?_put_self]
      exact hsettled
    · exact Or.inr ⟨hstatus, by rw [hanswer, hdenied]⟩
  · rw [hanswer]
    exact ⟨rfl, rfl⟩
  · refine ⟨current, fold.next, hrow, ?_, by rw [hfolded, hnextId], fun id => ?_⟩
    · rw [haccepted.tasks_eq]
      simp [MutationData.allTasks, hfields]
    · have hget : fold.next.state.get? "approvals" = some (.obj (fold.approvals.set
          updated.approvalId (.obj (ApprovalRecord.toPayload updated.toApprovalData)))) := by
        rw [hfolded]
        simp [withApproval]
      have hid : updated.approvalId = a.approvalId := by rw [hanswer]
      rw [approvalPayload_eq id fold.approvals_eq]
      by_cases hsame : a.approvalId = id <;>
        simp [SqliteStore.approvalPayload, Fields.obj?, hget, hid, hsame]

end Session

/-! ### Calls that raise -/

def Reads {α : Type} (p : Op α) : Prop := ∀ w, (p.run w).2 = w

/-- A program that raises leaves the store as it was. -/
def Cautious {α : Type} (p : Op α) : Prop :=
  ∀ w e w', p.run w = (.error e, w') → w'.store = w.store

section Raises

variable {α β : Type} {p : Op α} {f : α → Op β}

lemma reads_ret (a : α) : Reads (.ret a : Op α) := fun _ => rfl

lemma reads_view (g : SqliteStore → Except Error α) : Reads (Session.view g) := fun w => by
  rw [Session.run_view]

lemma reads_ofExcept (x : Except Error α) : Reads (Prog.ofExcept x : Op α) := fun w => by
  rw [Prog.run_ofExcept]

lemma Reads.bind (hp : Reads p) (hf : ∀ a, Reads (f a)) : Reads (p.bind f) := by
  intro w
  have hw := hp w
  rw [Prog.run_bind]
  rcases hrun : p.run w with ⟨e | a, t⟩ <;> rw [hrun] at hw
  · exact hw
  · exact (hf a t).trans hw

lemma Reads.cautious (hp : Reads p) : Cautious p := by
  intro w e w' h
  rw [← hp w, h]

lemma Reads.bind_cautious (hp : Reads p) (hf : ∀ a, Cautious (f a)) : Cautious (p.bind f) := by
  intro w e w' h
  have hw := hp w
  rw [Prog.run_bind] at h
  rcases hrun : p.run w with ⟨e' | a, t⟩ <;> rw [hrun] at hw h
  · obtain ⟨-, rfl⟩ := Prod.mk.inj h
    rw [← hw]
  · rw [← hw]
    exact hf a t e w' h

lemma Cautious.bind_ret (hp : Cautious p) (g : α → β) : Cautious (p.bind fun a => .ret (g a)) := by
  intro w e w' h
  rw [Prog.run_bind] at h
  rcases hrun : p.run w with ⟨e' | a, t⟩ <;> rw [hrun] at h
  · obtain ⟨-, rfl⟩ := Prod.mk.inj h
    exact hp w e' t hrun
  · cases h

namespace Session

variable {c : Session}

lemma cautious_commitData (m : MutationData) : Cautious (c.commitData m) := by
  refine (reads_ofExcept _).bind_cautious fun m => ?_
  refine Reads.bind_cautious (fun w => by rw [ensureUsable, Prog.run_readE]) fun _ => ?_
  refine Reads.bind_cautious ?_ fun m => Reads.bind_cautious ?_ fun m => ?_
  · unfold materialize
    split
    · exact reads_ret _
    · exact (reads_view _).bind fun _ => reads_ofExcept _
  · unfold fence
    split
    · refine (reads_view _).bind fun current => ?_
      cases current <;> exact reads_ret _
    · exact reads_ret _
  · intro w e w' h
    rw [storeCommit, Prog.run_step] at h
    unfold afterCommit at h
    cases hcommit : w.store.commit m with
    | ok x => simp [hcommit] at h
    | error e' =>
      simp only [hcommit, Prog.run_throw] at h
      obtain ⟨-, rfl⟩ := Prod.mk.inj h
      split <;> rfl

/-- A call that raises leaves the store as it was. -/
lemma cautious_settleApproval {approvalId : String} {settlement : Fields} {resume : Bool}
    {entries : List EntryDraft} :
    Cautious (c.settleApproval approvalId settlement resume entries) := by
  refine Reads.bind_cautious (fun w => by rw [ensureUsable, Prog.run_readE]) fun _ => ?_
  refine (reads_view _).bind_cautious fun a => (reads_view _).bind_cautious fun current => ?_
  split
  · exact (reads_ret _).cautious
  refine Reads.bind_cautious ?_ fun outcome => ?_
  · unfold approvalOutcome
    split
    · refine (reads_view _).bind fun effect => ?_
      split
      · exact reads_ret _
      · exact (reads_ofExcept _).bind fun _ => (reads_ofExcept _).bind fun _ =>
          (reads_ofExcept _).bind fun _ => reads_ret _
    · exact reads_ret _
    · exact reads_ofExcept _
  cases outcome with
  | none => exact (reads_ret _).cautious
  | some outcome =>
    refine (reads_ofExcept _).bind_cautious fun _ => (reads_ofExcept _).bind_cautious fun _ => ?_
    exact (reads_view _).bind_cautious fun _ => (cautious_commitData _).bind_ret some

end Session

end Raises

/-! ### What a later call finds -/

section Answers

variable {s s' : SqliteStore} {a updated : ApprovalRecord} {resume : Bool} {id : String}

/-- A later call finds the record that was written, when that is in place. -/
lemma Answers.approval (h : Answers s s' a resume updated) (ha : s.approval id = .ok a) :
    s'.approval id = .ok (if s.inPlace id a then updated else a) := by
  obtain ⟨current, next, hrow, htasks, hnext, hpayload⟩ := h.written
  have hrows : s'.tasks.rows = Table.putRows (·.taskId) next s.tasks.rows := by
    rw [htasks]
    rfl
  unfold SqliteStore.approval at ha ⊢
  rw [hrows]
  by_cases hnamed : a.approvalId = id
  · by_cases hplace : s.inPlace id a = true
    · have hfirst := hplace
      simp only [SqliteStore.inPlace, hnamed, decide_true, Bool.true_and, ← hnext] at hfirst
      rw [Table.findSome?_putRows_first (by rw [hpayload, if_pos hnamed]) hfirst, if_pos hplace]
      exact ApprovalRecord.fromPayload_toPayload updated
    · have hbefore := hplace
      simp only [SqliteStore.inPlace, hnamed, decide_true, Bool.true_and, Bool.not_eq_true,
        ← hnext] at hbefore
      rw [Table.findSome?_putRows_before ⟨current, Table.mem_of_get? hrow, ?_⟩ hbefore,
        if_neg hplace]
      · exact ha
      · have hkey := Table.key_of_get? hrow
        rw [hnext, hkey]
  · rw [Table.findSome?_putRows_same (w := current) (by rw [hnext]; exact hrow)
      (by rw [hpayload, if_neg hnamed]), if_neg (by simp [SqliteStore.inPlace, hnamed])]
    exact ha

/-- What a later call finds is answered, or it is not, as the first call continued. -/
lemma Answers.answered (h : Answers s s' a resume updated) :
    s'.answered (if s.inPlace id a then updated else a) =
      if s.inPlace id a then resume else decide (a.status = .executionClaimed) := by
  obtain ⟨hstarted, hcancelled⟩ := h.open_
  split
  · have hstatus : updated.status ≠ .executionClaimed := by
      rcases h.settles with ⟨-, hstatus, -⟩ | ⟨-, hstatus⟩ <;> simp [hstatus]
    cases resume <;> simp [SqliteStore.answered, h.continued, hstatus]
  · rcases h.settles with ⟨hstatus, -, hsettled⟩ | ⟨hstatus, -⟩
    · simp [SqliteStore.answered, hstatus, hsettled]
    · simp [SqliteStore.answered, hstatus, hstarted, hcancelled]

end Answers

/-! ### Calls one after the other -/

/-- A call of `settle_approval`, but for the approval. -/
structure SettleCall where
  session : Session
  settlement : Fields
  resume : Bool
  entries : List EntryDraft := []

def SettleCall.prog (approvalId : String) (call : SettleCall) : Op (Option CommitResult) :=
  call.session.settleApproval approvalId call.settlement call.resume call.entries

/-- Calls on an approval, one after the other: what they return or raise, and what they leave. -/
def settleAll (approvalId : String) : List SettleCall → World →
    List (Except Error (Option CommitResult)) × World
  | [], w => ([], w)
  | call :: calls, w =>
    let (result, w) := (call.prog approvalId).run w
    let (results, w) := settleAll approvalId calls w
    (result :: results, w)

/-- The condition on a call and the store it is made in: it finds the approval answered, or it
resumes the task and its record is in place. A record that is not is found again as it was, claimed
or denied. -/
def SqliteStore.settlesForGood (s : SqliteStore) (approvalId : String) (resume : Bool) : Bool :=
  match s.approval approvalId with
  | .ok a => s.answered a ||
    if s.inPlace approvalId a then resume else decide (a.status = .executionClaimed)
  | .error _ => false

lemma settleAll_none {id : String} {w : World} {later : List SettleCall}
    (h : ∀ call ∈ later, (call.prog id).run w = (.ok none, w)) :
    settleAll id later w = (later.map fun _ => .ok none, w) := by
  induction later with
  | nil => rfl
  | cons call later ih =>
    rw [settleAll, h call List.mem_cons_self]
    dsimp only
    rw [ih fun call' hcall => h call' (List.mem_cons_of_mem _ hcall)]
    rfl

/-- A call that succeeds commits unless the approval is answered already. All later calls of usable
sessions, with whatever they bring along, return `None` and leave the store as it is exactly when
the call found the approval answered or resumed the task. A call that raises has left the store as
it was. -/
theorem settle_approval_once (id : String) (call : SettleCall) (w : World) :
    match (call.prog id).run w with
    | (.ok outcome, w') =>
      (∃ a, w.store.approval id = .ok a ∧ outcome.isSome = !w.store.answered a) ∧
        ((∀ later : List SettleCall,
          (∀ l ∈ later, w'.sealed.contains l.session.ownerId = false) →
          settleAll id later w' = (later.map fun _ => .ok none, w')) ↔
        w.store.settlesForGood id call.resume = true)
    | (.error _, w') => w'.store = w.store := by
  rcases hrun : (call.prog id).run w with ⟨e | outcome, w'⟩
  · exact Session.cautious_settleApproval w e w' hrun
  dsimp only
  obtain ⟨husable, a, ha, ⟨current, hcurrent⟩, ⟨hanswered, rfl, rfl⟩ |
    ⟨hopen, hcommit, hsealed, updated, h⟩⟩ := Session.run_settleApproval_eq_ok hrun
  · refine ⟨⟨a, ha, by simp [hanswered]⟩, ?_⟩
    refine iff_of_true (fun later hlater => settleAll_none fun l hl => ?_) ?_
    · exact Session.run_settleApproval_answered (hlater l hl) ha hcurrent hanswered
    · rw [SqliteStore.settlesForGood, ha]
      simp [hanswered]
  · refine ⟨⟨a, ha, by simp [hopen, hcommit]⟩, ?_⟩
    -- The record that a later call finds, and whether that call takes it for answered.
    have hfound := h.approval ha
    have hgood : w.store.settlesForGood id call.resume =
        w'.store.answered (if w.store.inPlace id a then updated else a) := by
      rw [SqliteStore.settlesForGood, ha, h.answered]
      simp [hopen]
    rw [hgood]
    constructor
    · intro hnone
      have hagain := hnone [call] (by simpa [hsealed] using husable)
      have hrun' : (call.prog id).run w' = (.ok none, w') := by
        rcases hr : (call.prog id).run w' with ⟨r, t⟩
        simp only [settleAll, hr, List.map_cons, List.map_nil, Prod.mk.injEq, List.cons.injEq,
          and_true] at hagain
        rw [hagain.1, hagain.2]
      obtain ⟨-, a', ha', -, ⟨hanswered, -, -⟩ | ⟨-, hsome, -⟩⟩ :=
        Session.run_settleApproval_eq_ok hrun'
      · rw [hfound] at ha'
        rw [Except.ok.inj ha']
        exact hanswered
      · cases hsome
    · intro hanswered later hlater
      obtain ⟨_, next, -, htasks, hnext, -⟩ := h.written
      have htaskId : (if w.store.inPlace id a then updated else a).taskId = a.taskId := by
        split
        · exact h.named.2
        · rfl
      have hread : w'.store.task (if w.store.inPlace id a then updated else a).taskId = .ok next := by
        rw [SqliteStore.task_eq_ok, htasks, htaskId, ← hnext, Table.get?_put_self]
      exact settleAll_none fun l hl =>
        Session.run_settleApproval_answered (hlater l hl) hfound hread hanswered

def deniedWorld : World :=
  Pool.execute ApprovalCall.prog [.create firstSession (sampleApproval .requested 0),
    .transition firstSession "approval" (sampleApproval .denied 1) .requested none]
    (workersWorld ["task"])

/-- The shell effect of the command. -/
def shellEffect : EffectRecord where
  effectId := "shell-approval"
  taskId := "task"
  category := "shell"
  replayClass := "external"
  argsDigest := "digest"
  status := "pending"
  intent := []

def claimedWorld : World :=
  Pool.execute ApprovalCall.prog (sampleAllow ++
    [.claim firstSession "approval" shellEffect .approved]) (workersWorld ["task"])

def settleQuietly : SettleCall := ⟨firstSession, [("result_ref", .str "ref")], false, []⟩

/-- Whether each of the results is a commit, and `none` for an exception. -/
def committed (results : List (Except Error (Option CommitResult))) : List (Option Bool) :=
  results.map fun r => r.toOption.map (·.isSome)

/-- Without a resumption a denied approval is settled twice, and the second settlement of a claimed
one raises. -/
theorem settle_approval_repeated :
    (committed (settleAll "approval" [settleQuietly, settleQuietly] deniedWorld).1 =
        [some true, some true] ∧
      (settleAll "approval" [settleQuietly, settleQuietly] deniedWorld).2.store.sequence =
        deniedWorld.store.sequence + 2) ∧
    committed (settleAll "approval" [settleQuietly, settleQuietly] claimedWorld).1 =
      [some true, none] := by
  decide +kernel

end Codey
