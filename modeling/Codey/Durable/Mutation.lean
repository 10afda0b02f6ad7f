import Codey.Durable.Records

/-!
# Durable mutations

A mutation is everything that one commit changes in one conversation. `DurableMutation` carries
the proof that its construction raised nothing.
-/

namespace Codey

structure CreateConversation where
  parentConversationId : Option String := none
  parentEntryId : Option String := none
  paired : (parentConversationId.any (· ≠ "") = parentEntryId.any (· ≠ "")) := by decide

def CreateConversation.root : CreateConversation := {}

instance : DecidableEq CreateConversation := fun a b =>
  decidable_of_iff (a.parentConversationId = b.parentConversationId ∧
    a.parentEntryId = b.parentEntryId) (by cases a; cases b; simp)

/-- The fields a mutation is built from. -/
structure MutationData where
  conversationId : String
  expectedRevision : Nat
  entries : List EntryDraft := []
  submission : Option SubmissionDraft := none
  task : Option TaskCheckpoint := none
  taskUpdates : List TaskCheckpoint := []
  effect : Option EffectRecord := none
  effects : List EffectRecord := []
  expectedEffectStatus : Option String := none
  submissionUpdate : Option SubmissionUpdate := none
  submissionUpdates : List SubmissionUpdate := []
  settlements : List EffectRecord := []
  artifacts : List ArtifactRecord := []
  expectedAttemptToken : Option String := none
  approval : Option ApprovalRecord := none
  expectedApprovalStatus : Option ApprovalStatus := none
  createConversation : Option CreateConversation := none
  deleteConversation : Bool := false
  branchEntryId : Option String := none
  editedEntryId : Option String := none
  replacedRunIds : List String := []
  deriving DecidableEq

namespace MutationData

variable (m : MutationData)

/-- The checkpoints a mutation writes, the fenced one first. -/
def allTasks : List TaskCheckpoint := m.task.toList ++ m.taskUpdates

/-- The effect rows a mutation writes. -/
def allEffects : List EffectRecord := m.effect.toList ++ m.effects ++ m.settlements

def allUpdates : List SubmissionUpdate := m.submissionUpdate.toList ++ m.submissionUpdates

/-- No task, effect, submission update, artifact or approval besides the fenced task. -/
def noDerived : Bool :=
  m.taskUpdates.isEmpty && m.effect.isNone && m.effects.isEmpty && m.submissionUpdate.isNone
    && m.submissionUpdates.isEmpty && m.settlements.isEmpty && m.artifacts.isEmpty
    && m.approval.isNone

/-- Nothing besides the conversation itself. -/
def conversationOnly : Bool :=
  m.entries.isEmpty && m.submission.isNone && m.task.isNone && m.noDerived

def validateEdit : Except Error Unit :=
  match m.editedEntryId with
  | some edited =>
    require (edited ≠ "" && m.branchEntryId.isNone && m.createConversation.isNone
        && !m.deleteConversation && m.entries.length = 1
        && m.entries.all (·.kind = "user_message") && m.submission.isSome && m.task.isSome
        && m.noDerived)
      (.valueError "an edit requires one replacement input, submission and task")
  | none => require m.replacedRunIds.isEmpty (.valueError "replaced runs require an edit")

def validateConversation : Except Error Unit := do
  require (m.createConversation.isNone || !m.deleteConversation)
    (.valueError "a mutation cannot create and delete a conversation")
  require (!m.deleteConversation || m.conversationOnly)
    (.valueError "conversation deletion cannot include other durable changes")
  match m.branchEntryId with
  | none => pure ()
  | some branch => do
    require (branch ≠ "") (.valueError "branch_entry_id must be a non-empty string")
    require (m.createConversation.isNone && !m.deleteConversation && m.conversationOnly)
      (.valueError "branch cannot include other durable changes")

def validateSubmission : Except Error Unit := do
  require (m.entries.all (·.conversationId = m.conversationId))
    (.valueError "all mutation entries must belong to its conversation")
  match m.submission with
  | none => pure ()
  | some s => do
    require (s.conversationId = m.conversationId)
      (.valueError "submission belongs to another conversation")
    require (s.entry.all fun e => m.entries.any fun f => f.pyEq e)
      (.valueError "submission entry must be part of the same mutation")

def validateTasks : Except Error Unit := do
  require (decide (m.allTasks.map (·.taskId)).Nodup)
    (.valueError "task IDs must be unique within a mutation")
  require (m.allTasks.all (·.conversationId = m.conversationId))
    (.valueError "task belongs to another conversation")

def effectsOfOneTask : Bool :=
  m.allEffects.all fun e => m.allEffects.all (·.taskId = e.taskId)
    && m.task.all (·.taskId = e.taskId)

def validateEffects : Except Error Unit := do
  require (m.effect.all fun e => m.task.all (·.taskId = e.taskId))
    (.valueError "effect must belong to the task in this mutation")
  require (decide ((m.effects ++ m.settlements).map (·.effectId)).Nodup)
    (.valueError "effect IDs must be unique within a mutation")
  require m.effectsOfOneTask (.valueError "effects must belong to one task in this mutation")
  require (m.effect.all fun e => (m.effects ++ m.settlements).all (·.effectId ≠ e.effectId))
    (.valueError "effect cannot be listed twice in a mutation")
  require (decide (m.artifacts.map (·.handle)).Nodup)
    (.valueError "artifact handles must be unique within a mutation")
  require (m.expectedEffectStatus.isNone || m.effect.isSome)
    (.valueError "expected_effect_status requires an effect update")
  require (m.settlements.all fun e => e.settlement.isSome && e.status ≠ "pending")
    (.valueError "effect settlements require a terminal outcome")

def queuedTask (u : SubmissionUpdate) : Option TaskCheckpoint :=
  (m.allTasks.find? (·.submissionId = u.submissionId)).filter fun t =>
    t.phase = .accepted && t.status = .pending
      && t.state.get? "input_state" = some (.str "queued") && t.state.attemptToken = ""

def validateRevision (u : SubmissionUpdate) : Except Error Unit :=
  if u.content.isNone && u.mode.isNone then .ok () else
  match m.queuedTask u with
  | none =>
    .error (.valueError "queued input revision requires its pending task in the same commit")
  | some t => do
    require (u.content.all fun c =>
        ((c.get? "text").getD .null).pyEq ((t.state.get? "input_text").getD .null))
      (.valueError "queued input text must match its task")
    require (u.mode.all fun mode => t.state.get? "input_mode" = some (.str mode.name))
      (.valueError "queued input mode must match its task")

def validateUpdates : Except Error Unit := do
  require (decide (m.allUpdates.map (·.submissionId)).Nodup)
    (.valueError "submission IDs must be unique within a mutation")
  require (m.allUpdates.all (·.conversationId = m.conversationId))
    (.valueError "submission update belongs to another conversation")
  checkAll m.allUpdates m.validateRevision

def validateApproval : Except Error Unit :=
  match m.approval with
  | some a => do
    require (a.conversationId = m.conversationId)
      (.valueError "approval belongs to another conversation")
    require (m.task.all (·.taskId = a.taskId))
      (.valueError "approval must belong to the task in this mutation")
  | none => require m.expectedApprovalStatus.isNone
      (.valueError "expected_approval_status requires an approval update")

def postInit : Except Error Unit := do
  require (m.conversationId ≠ "")
    (.valueError "conversation identity and non-negative revision are required")
  m.validateEdit
  m.validateConversation
  m.validateSubmission
  m.validateTasks
  m.validateEffects
  m.validateUpdates
  m.validateApproval

end MutationData

/-- A mutation whose construction raised nothing. -/
structure DurableMutation extends MutationData where
  valid : toMutationData.postInit = .ok ()

instance : DecidableEq DurableMutation := fun s t =>
  decidable_of_iff (s.toMutationData = t.toMutationData) (by cases s; cases t; simp)

namespace DurableMutation

/-- The constructor, also behind every `replace`. -/
def make (d : MutationData) : Except Error DurableMutation :=
  match h : d.postInit with
  | .ok () => .ok ⟨d, h⟩
  | .error e => .error e

@[simp] lemma make_eq_ok {d : MutationData} {m : DurableMutation} :
    make d = .ok m ↔ m.toMutationData = d := by
  unfold make
  split <;> rename_i h
  · constructor
    · intro heq
      obtain rfl := Except.ok.inj heq
      rfl
    · rintro rfl
      rfl
  · simp only [reduceCtorEq, false_iff]
    rintro rfl
    simp [m.valid] at h

lemma checked (m : DurableMutation) :
    m.conversationId ≠ "" ∧ m.validateEdit = .ok () ∧ m.validateConversation = .ok () ∧
    m.validateSubmission = .ok () ∧ m.validateTasks = .ok () ∧ m.validateEffects = .ok () ∧
    m.validateUpdates = .ok () ∧ m.validateApproval = .ok () := by
  have h := m.valid
  simp only [MutationData.postInit, except_seq_eq_ok, require_eq_ok, decide_eq_true_eq] at h
  exact h

lemma allTasks_nodup (m : DurableMutation) : (m.allTasks.map (·.taskId)).Nodup := by
  obtain ⟨-, -, -, -, h, -⟩ := m.checked
  simp only [MutationData.validateTasks, except_seq_eq_ok, require_eq_ok, decide_eq_true_eq] at h
  exact h.1

lemma conversationId_of_mem (m : DurableMutation) {t : TaskCheckpoint} (ht : t ∈ m.allTasks) :
    t.conversationId = m.conversationId := by
  obtain ⟨-, -, -, -, h, -⟩ := m.checked
  simp only [MutationData.validateTasks, except_seq_eq_ok, require_eq_ok, List.all_eq_true,
    decide_eq_true_eq] at h
  exact h.2 t ht

lemma taskId_of_effect (m : DurableMutation) {e : EffectRecord} {t : TaskCheckpoint}
    (he : e ∈ m.allEffects) (ht : m.task = some t) : e.taskId = t.taskId := by
  obtain ⟨-, -, -, -, -, h, -⟩ := m.checked
  simp only [MutationData.validateEffects, except_seq_eq_ok, require_eq_ok] at h
  have h := h.2.2.1
  simp only [MutationData.effectsOfOneTask, List.all_eq_true, Bool.and_eq_true] at h
  simpa [ht, eq_comm] using (h e he).2

/-- An effect id occurs once in a mutation. -/
lemma allEffects_nodup (m : DurableMutation) : (m.allEffects.map (·.effectId)).Nodup := by
  obtain ⟨-, -, -, -, -, h, -⟩ := m.checked
  simp only [MutationData.validateEffects, except_seq_eq_ok, require_eq_ok, decide_eq_true_eq] at h
  obtain ⟨-, hnodup, -, hnew, -⟩ := h
  rw [MutationData.allEffects, List.append_assoc, List.map_append]
  refine List.nodup_append.mpr ⟨?_, hnodup, ?_⟩
  · cases m.effect <;> simp
  · intro a ha b hb
    rintro rfl
    obtain ⟨e, he, rfl⟩ := List.mem_map.mp ha
    obtain ⟨f, hf, hfe⟩ := List.mem_map.mp hb
    rw [Option.mem_toList] at he
    simp only [he, Option.all_some, List.all_eq_true, decide_eq_true_eq] at hnew
    exact hnew f hf hfe

lemma conversationOnly_of_delete (m : DurableMutation) (h : m.deleteConversation = true) :
    m.conversationOnly = true := by
  obtain ⟨-, -, hc, -⟩ := m.checked
  simp only [MutationData.validateConversation, except_seq_eq_ok, require_eq_ok] at hc
  simpa [h] using hc.2.1

end DurableMutation

end Codey
