import Codey.Lib.Forest
import Codey.Durable.SqliteCommit

/-!
# What a commit does to conversations, entries and submissions

The other half of the inversion of `SqliteStore.commit`: the rows of conversations, entries,
submissions and artifacts that a mutation leaves.
-/

namespace Codey

namespace SqliteStore

def admittedRows (s : SqliteStore) (m : MutationData) (revision : Nat) : SubmissionTable :=
  match m.submission with
  | some d => s.submissions.put (submissionRow d revision (s.sequence + 1))
  | none => s.submissions

/-- What a written mutation has passed, and the rows it leaves. `s₀` is the store with the
conversation that the mutation creates, and `c` the row of its conversation. -/
structure Written (s : SqliteStore) (m : DurableMutation) (s₀ : SqliteStore) (c : ConversationRow)
    (s' : SqliteStore) : Prop where
  created : s.create m.toMutationData = .ok s₀
  row : s₀.conversations.get? m.conversationId = some c
  revision : c.revision = m.expectedRevision
  branch : ∀ id, m.branchEntryId = some id →
    ∃ e, s.entries.get? id = some e ∧ e.conversationId = m.conversationId
  chained : ∃ parent, s₀.entryParent m.toMutationData c.headEntryId = .ok parent ∧
    s₀.validateEntries parent m.entries = .ok ()
  updates : ∀ u ∈ m.allUpdates, s.validateSubmissionUpdate m.toMutationData u = .ok ()
  newSubmission : ∀ d, m.submission = some d → s.submissions.get? d.submissionId = none
  newArtifacts : ∀ a ∈ m.artifacts, s.artifacts.get? a.handle = none
  entries_eq : s'.entries.rows =
    s.entries.rows ++ m.entries.map (entryRow m.toMutationData (s.sequence + 1))
  conversations_eq : s'.conversations = s₀.conversations.put (nextConversation m.toMutationData c)
  artifacts_eq : s'.artifacts = m.artifacts.foldl Table.put s.artifacts
  submissions_eq : ∃ s₁, s₁.submissions =
      s.admittedRows m.toMutationData (nextConversation m.toMutationData c).revision ∧
    foldE m.allUpdates writeSubmissionUpdate s₁ = .ok s'
  sequence_eq : s'.sequence = s.sequence + 1

/-- The rows that a deletion leaves. -/
structure Removed (s : SqliteStore) (m : DurableMutation) (s' : SqliteStore) : Prop where
  childless : ∀ c ∈ s.conversations.rows, c.parentConversationId ≠ some m.conversationId
  conversations_eq : s'.conversations = s.conversations.filter (·.id ≠ m.conversationId)
  entries_eq : s'.entries = s.entries.filter (·.conversationId ≠ m.conversationId)
  submissions_eq : s'.submissions = s.submissions.filter (·.conversationId ≠ m.conversationId)
  sequence_eq : s'.sequence = s.sequence + 1

/-- New entries come last. -/
lemma foldE_writeEntry_rows {m : MutationData} {n : Nat} {es : List EntryDraft}
    {s s' : SqliteStore} (h : foldE es (writeEntry m n) s = .ok s') :
    s'.entries.rows = s.entries.rows ++ es.map (entryRow m n) := by
  induction es generalizing s with
  | nil =>
    obtain rfl := Except.ok.inj h
    simp
  | cons e es ih =>
    obtain ⟨s₁, hs₁, h⟩ := foldE_cons_eq_ok.mp h
    unfold writeEntry at hs₁
    split at hs₁ <;> rename_i hnew
    · cases hs₁
    obtain rfl := Except.ok.inj hs₁
    have hnone : s.entries.get? e.entryId = none := by
      simpa [Option.isSome_iff_ne_none] using hnew
    rw [ih h, Table.rows_put_of_none (v := entryRow m n e) hnone]
    simp

lemma foldE_writeEffect_frame {expected : Option String} {es : List EffectRecord}
    {s s' : SqliteStore} (h : foldE es (writeEffect expected) s = .ok s') :
    s' = { s with effects := s'.effects } := by
  refine foldE_induction (P := fun s' => s' = { s with effects := s'.effects }) h rfl ?_
  intro e _ s₁ s₂ hs₁ hs₂
  unfold writeEffect at hs₂
  split at hs₂
  · split_ifs at hs₂
    obtain rfl := Except.ok.inj hs₂
    rw [hs₁]
  · split at hs₂
    · split_ifs at hs₂
      obtain rfl := Except.ok.inj hs₂
      rw [hs₁]
    · cases hs₂

/-- The tables that the writes of a mutation leave. -/
lemma write_tables {s s' : SqliteStore} {m : DurableMutation} {c : ConversationRow}
    (h : s.write m.toMutationData c = .ok s') :
    s'.entries.rows =
      s.entries.rows ++ m.entries.map (entryRow m.toMutationData (s.sequence + 1)) ∧
    s'.conversations = s.conversations.put (nextConversation m.toMutationData c) ∧
    s'.artifacts = m.artifacts.foldl Table.put s.artifacts ∧
    s'.sequence = s.sequence + 1 ∧
    ∃ s₁, s₁.submissions =
        s.admittedRows m.toMutationData (nextConversation m.toMutationData c).revision ∧
      foldE m.allUpdates writeSubmissionUpdate s₁ = .ok s' := by
  simp only [write, except_bind_eq_ok] at h
  obtain ⟨s₁, h₁, s₂, h₂, s₃, h₃, s₄, h₄, s₅, h₅, h₆⟩ := h
  have hrows := foldE_writeEntry_rows h₁
  have h₁ := foldE_writeEntry_frame h₁
  have h₂ := (foldE_writeTask_eq_ok.mp h₂).2.trans (foldl_recordTask _ _)
  have h₃ := foldE_writeEffect_frame h₃
  have h₄ := foldE_writeEffect_frame h₄
  have h₅ := foldE_writeEffect_frame h₅
  have hlast := foldE_writeSubmissionUpdate_frame h₆
  -- the effect rows change nothing else
  have hsame : ∀ {β : Type} (f : SqliteStore → β),
      (∀ (s : SqliteStore) effects, f { s with effects } = f s) → f s₅ = f s₂ := by
    intro β f hf
    rw [h₅, hf, h₄, hf, h₃, hf]
  refine ⟨?_, ?_, ?_, ?_, _, ?_, h₆⟩
  · rw [hlast]
    change s₅.entries.rows = _
    rw [hsame (·.entries) fun _ _ => rfl, h₂]
    exact hrows
  · rw [hlast]
    change s₅.conversations = _
    rw [hsame (·.conversations) fun _ _ => rfl, h₂]
    change s₁.conversations.put _ = _
    rw [h₁]
  · rw [hlast]
    change m.artifacts.foldl Table.put s₅.artifacts = _
    rw [hsame (·.artifacts) fun _ _ => rfl, h₂]
    change m.artifacts.foldl Table.put s₁.artifacts = _
    rw [h₁]
  · rw [hlast]
    change s₅.sequence = _
    rw [hsame (·.sequence) fun _ _ => rfl, h₂]
    change s₁.sequence = _
    rw [h₁]
  · change s₅.submissions = _
    rw [hsame (·.submissions) fun _ _ => rfl, h₂]
    have hs₁ : s₁.submissions = s.submissions := by rw [h₁]
    unfold admittedRows
    cases m.submission <;> simp only [hs₁]

lemma written_of_write {s s₀ s' : SqliteStore} {m : DurableMutation} {c : ConversationRow}
    (hcreate : s.create m.toMutationData = .ok s₀)
    (hrow : s₀.conversations.get? m.conversationId = some c)
    (hvalid : s₀.validateMutation m.toMutationData c = .ok ())
    (hnew : m.submission.all (fun d => (s₀.submissions.get? d.submissionId).isNone) = true)
    (hwrite : s₀.write m.toMutationData c = .ok s') : Written s m s₀ c s' := by
  have hs₀ := create_frame hcreate
  have hentries : s₀.entries = s.entries := by rw [hs₀]
  have hsubmissions : s₀.submissions = s.submissions := by rw [hs₀]
  have hartifacts : s₀.artifacts = s.artifacts := by rw [hs₀]
  have hsequence : s₀.sequence = s.sequence := by rw [hs₀]
  simp only [validateMutation, except_seq_eq_ok, require_eq_ok, decide_eq_true_eq] at hvalid
  obtain ⟨hrevision, hbranch, hvalid⟩ := hvalid
  obtain ⟨parent, hparent, hvalid⟩ := except_bind_eq_ok.mp hvalid
  simp only [except_seq_eq_ok, checkAll_eq_ok] at hvalid
  obtain ⟨hchain, -, -, -, hartifact, hsubs⟩ := hvalid
  obtain ⟨hw₁, hw₂, hw₃, hw₄, s₁, hs₁, hw₅⟩ := write_tables hwrite
  exact {
    created := hcreate
    row := hrow
    revision := hrevision
    branch := fun id hid => by
      rw [hid, Option.all_some, hentries, Option.any_eq_true] at hbranch
      obtain ⟨e, he, hconv⟩ := hbranch
      exact ⟨e, he, by simpa using hconv⟩
    chained := ⟨parent, hparent, hchain⟩
    updates := fun u hu => by
      simpa only [validateSubmissionUpdate, hsubmissions] using hsubs u hu
    newSubmission := fun d hd => by simpa [hd, hsubmissions] using hnew
    newArtifacts := fun a ha => by
      have := hartifact a ha
      simp only [validateArtifact, except_seq_eq_ok, require_eq_ok] at this
      simpa [hartifacts] using this.1
    entries_eq := by rw [hw₁, hentries, hsequence]
    conversations_eq := hw₂
    artifacts_eq := by rw [hw₃, hartifacts]
    submissions_eq := ⟨s₁, by
      rw [hs₁]
      simp only [admittedRows, hsubmissions, hsequence], hw₅⟩
    sequence_eq := by rw [hw₄, hsequence] }

/-- A successful commit returns the result of an earlier admission, deletes a conversation, or
writes its rows; with what it returns. -/
theorem commit_writes {s s' : SqliteStore} {m : DurableMutation} {r : CommitResult}
    (h : s.commit m = .ok (r, s')) :
    (s.findSubmission m.submission = .ok (some r) ∧ s' = s) ∨
    (m.deleteConversation = true ∧ s.findSubmission m.submission = .ok none ∧ Removed s m s') ∨
    (m.deleteConversation = false ∧ s.findSubmission m.submission = .ok none ∧
      ∃ s₀ c, Written s m s₀ c s' ∧ r = ⟨(nextConversation m.toMutationData c).revision,
        s.sequence + 1, reportedSubmission m.toMutationData⟩) := by
  rcases commit_steps h with hfound | ⟨hfound, ⟨hdel, c, hs'⟩ |
    ⟨hdel, s₀, c, hcreate, hrow, hvalid, hnew, hwrite, rfl⟩⟩
  · exact Or.inl hfound
  · simp only [delete, except_seq_eq_ok, require_eq_ok] at hs'
    obtain ⟨hchild, -, hs'⟩ := hs'
    obtain rfl := Except.ok.inj hs'
    exact Or.inr (Or.inl ⟨hdel, hfound, by simpa using hchild, rfl, rfl, rfl, rfl⟩)
  · have hwritten := written_of_write hcreate hrow hvalid hnew hwrite
    exact Or.inr (Or.inr ⟨hdel, hfound, s₀, c, hwritten, by rw [hwritten.sequence_eq]⟩)

end SqliteStore

end Codey
