import Codey.Durable.HistoricalContext

/-!
# Requests

Which submission was admitted under a request id, and what commits leave of it. A commit never
admits a request twice, and the columns of a submission that an admission reports never change.
-/

namespace Codey

/-- The columns of a submission that no update writes. -/
structure Admitted where
  id : String
  conversationId : String
  requestId : String
  revision : Nat
  fingerprint : String
  commitSeq : Nat
  deriving DecidableEq

def SubmissionRow.admitted (row : SubmissionRow) : Admitted :=
  ⟨row.id, row.conversationId, row.requestId, row.revision, row.fingerprint, row.commitSeq⟩

/-- What an admission returns, and what it returns again. -/
def Admitted.result (x : Admitted) : CommitResult := ⟨x.revision, x.commitSeq, some x.id⟩

/-- A request: where it is made and under which id, with the digest of its arguments. -/
structure Request where
  conversationId : String
  requestId : String
  fingerprint : String

namespace Request

variable (q : Request)

def names (x : Admitted) : Bool :=
  x.conversationId = q.conversationId && x.requestId = q.requestId

def admitted (s : SqliteStore) : List Admitted :=
  (s.submissions.rows.map (·.admitted)).filter q.names

/-- At most one submission was admitted for the request, under an id and with its digest. -/
def Unique (s : SqliteStore) : Prop := q.admitted s = [] ∨ ∃ x, q.admitted s = [x] ∧ x.id ≠ "" ∧
  x.fingerprint = q.fingerprint

end Request

namespace SqliteStore

variable {s s' s₀ : SqliteStore} {m : DurableMutation} {c : ConversationRow} {r : CommitResult}

lemma admitted_of_updates {us : List SubmissionUpdate}
    (h : foldE us writeSubmissionUpdate s = .ok s') :
    s'.submissions.rows.map (·.admitted) = s.submissions.rows.map (·.admitted) := by
  refine foldE_induction
    (P := fun s' => s'.submissions.rows.map (·.admitted) = s.submissions.rows.map (·.admitted))
    h rfl ?_
  intro u _ s₁ s₂ hs₁ hs₂
  unfold writeSubmissionUpdate at hs₂
  split at hs₂
  · rename_i row hrow
    split_ifs at hs₂
    obtain rfl := Except.ok.inj hs₂
    have hid : row.id = u.submissionId := Table.key_of_get? (t := s₁.submissions) hrow
    rw [← hs₁]
    refine Table.map_rows_put (w := row) ?_ rfl
    show s₁.submissions.get? row.id = some row
    rw [hid, hrow]
  · cases hs₂

/-- A written mutation admits its submission and no other. -/
lemma Written.admitted (hw : Written s m s₀ c s') : s'.submissions.rows.map (·.admitted) =
    s.submissions.rows.map (·.admitted) ++ (m.submission.map fun d =>
      (submissionRow d (nextConversation m.toMutationData c).revision (s.sequence + 1)).admitted
      ).toList := by
  obtain ⟨s₁, hs₁, hupdates⟩ := hw.submissions_eq
  rw [admitted_of_updates hupdates, hs₁, admittedRows]
  cases hd : m.submission with
  | none => simp
  | some d =>
    have hnew : s.submissions.get? (submissionRow d
        (nextConversation m.toMutationData c).revision (s.sequence + 1)).id = none :=
      hw.newSubmission d hd
    simp only [Table.rows_put_of_none hnew, List.map_append, Option.map_some,
      Option.toList_some, List.map_cons, List.map_nil]

lemma find?_request (s : SqliteStore) (q : Request) :
    (s.submissions.rows.find? fun row =>
      row.conversationId = q.conversationId && row.requestId = q.requestId).map (·.admitted) =
      (q.admitted s).head? := by
  rw [Request.admitted, List.head?_filter, List.find?_map]
  rfl

/-- What a commit does to the admissions of a request: nothing, unless it deletes them with their
conversation, or is the first to admit the request. -/
theorem admitted_of_commit (q : Request) (h : s.commit m = .ok (r, s')) :
    q.admitted s' = q.admitted s ∨
    (m.deleteConversation = true ∧ m.conversationId = q.conversationId ∧ q.admitted s' = []) ∨
    (q.admitted s = [] ∧ ∃ d, m.submission = some d ∧ d.conversationId = q.conversationId ∧
      d.requestId = q.requestId ∧ ∃ x, q.admitted s' = [x] ∧ x.id = d.submissionId ∧
      x.fingerprint = d.fingerprint ∧ x.result = r) := by
  rcases commit_writes h with ⟨-, rfl⟩ | ⟨hdel, -, hr⟩ | ⟨-, hnone, s₀, c, hw, hresult⟩
  · exact Or.inl rfl
  · have hrows : q.admitted s' = ((s.submissions.rows.filter
        (·.conversationId ≠ m.conversationId)).map (·.admitted)).filter q.names := by
      rw [Request.admitted, hr.submissions_eq, Table.rows_filter]
    rw [List.filter_map, List.filter_filter] at hrows
    by_cases hid : m.conversationId = q.conversationId
    · refine Or.inr (Or.inl ⟨hdel, hid, ?_⟩)
      rw [hrows, List.map_eq_nil_iff, List.filter_eq_nil_iff]
      intro row _
      simp only [Request.names, Function.comp_apply, Bool.and_eq_true, decide_eq_true_eq, not_and]
      rw [hid]
      exact fun hnames hne => hne hnames.1
    · refine Or.inl ?_
      rw [hrows, Request.admitted, List.filter_map]
      congr 1
      refine List.filter_congr fun row _ => ?_
      by_cases hconv : row.conversationId = q.conversationId
      · simp [hconv, Ne.symm hid]
      · simp [Request.names, SubmissionRow.admitted, hconv]
  · have hrows : q.admitted s' = _ := congrArg (List.filter q.names) hw.admitted
    rw [List.filter_append] at hrows
    cases hd : m.submission with
    | none => exact Or.inl (by simpa [hd, Request.admitted] using hrows)
    | some d =>
      by_cases hnames : d.conversationId = q.conversationId ∧ d.requestId = q.requestId
      · have hempty : q.admitted s = [] := by
          rw [← List.head?_eq_none_iff, ← find?_request]
          rw [hd, findSubmission, hnames.1, hnames.2] at hnone
          split at hnone
          · rename_i hfind
            rw [hfind]
            rfl
          · obtain ⟨stored, -, hnone⟩ := except_bind_eq_ok.mp hnone
            simp only [except_seq_eq_ok] at hnone
            cases hnone.2
        refine Or.inr (Or.inr ⟨hempty, d, rfl, hnames.1, hnames.2, (submissionRow d
          (nextConversation m.toMutationData c).revision (s.sequence + 1)).admitted, ?_, rfl, rfl,
          ?_⟩)
        · change q.admitted s' = q.admitted s ++ _ at hrows
          rw [hrows, hempty, hd, List.nil_append, Option.map_some, Option.toList_some,
            List.filter_singleton]
          simp [Request.names, SubmissionRow.admitted, submissionRow, hnames]
        · simp [hresult, Admitted.result, SubmissionRow.admitted, submissionRow, reportedSubmission,
            hd]
      · refine Or.inl ?_
        rw [hrows, hd, Option.map_some, Option.toList_some, List.filter_singleton]
        have hother : q.names (submissionRow d (nextConversation m.toMutationData c).revision
            (s.sequence + 1)).admitted = false := by
          rw [Request.names, Bool.and_eq_false_iff, decide_eq_false_iff_not,
            decide_eq_false_iff_not]
          exact not_and_or.mp hnames
        rw [hother]
        simp [Request.admitted]

end SqliteStore

/-! ### Steps of others -/

namespace Request

/-- A mutation of others: it does not delete the conversation of the request, and what it admits
under the id of the request has the digest of its arguments. -/
def Other (q : Request) (m : MutationData) : Prop :=
  (m.deleteConversation = true → m.conversationId ≠ q.conversationId) ∧
  ∀ d, m.submission = some d → d.conversationId = q.conversationId → d.requestId = q.requestId →
    d.fingerprint = q.fingerprint

/-- What others do between two steps of a session: they commit, and do not seal the session. -/
def Step (q : Request) (ownerId : String) (w w' : World) : Prop :=
  w'.sealed.contains ownerId = w.sealed.contains ownerId ∧
  (w'.store = w.store ∨ ∃ m r, q.Other m.toMutationData ∧ w.store.commit m = .ok (r, w'.store))

abbrev Others (q : Request) (ownerId : String) : World → World → Prop :=
  Relation.ReflTransGen (q.Step ownerId)

variable {q : Request} {s s' : SqliteStore} {m : DurableMutation} {r : CommitResult} {o : String}
  {w w' : World}

lemma Other.kept (hm : q.Other m.toMutationData) (h : s.commit m = .ok (r, s')) {x : Admitted}
    (hx : q.admitted s = [x]) : q.admitted s' = [x] := by
  rcases SqliteStore.admitted_of_commit q h with heq | ⟨hdel, hid, -⟩ | ⟨hnone, -⟩
  · rw [heq, hx]
  · exact absurd hid (hm.1 hdel)
  · rw [hnone] at hx
    cases hx

lemma Other.unique (hm : q.Other m.toMutationData) (h : s.commit m = .ok (r, s'))
    (hs : q.Unique s) : q.Unique s' := by
  rcases SqliteStore.admitted_of_commit q h with heq | ⟨hdel, hid, -⟩ |
    ⟨-, d, hd, hconv, hrequest, x, hx, hxid, hprint, -⟩
  · rw [Unique, heq]
    exact hs
  · exact absurd hid (hm.1 hdel)
  · refine Or.inr ⟨x, hx, ?_, hprint.trans (hm.2 d hd hconv hrequest)⟩
    rw [hxid]
    exact d.submissionId_ne

lemma Step.unique (h : q.Step o w w') (hs : q.Unique w.store) : q.Unique w'.store := by
  rcases h.2 with heq | ⟨m, r, hm, hcommit⟩
  · rwa [heq]
  · exact hm.unique hcommit hs

lemma Others.unique (h : q.Others o w w') (hs : q.Unique w.store) : q.Unique w'.store := by
  induction h with
  | refl => exact hs
  | tail _ hstep ih => exact hstep.unique ih

lemma Others.kept (h : q.Others o w w') {x : Admitted} (hx : q.admitted w.store = [x]) :
    q.admitted w'.store = [x] := by
  induction h with
  | refl => exact hx
  | tail _ hstep ih =>
    rcases hstep.2 with heq | ⟨m, r, hm, hcommit⟩
    · rwa [heq]
    · exact hm.kept hcommit ih

lemma Others.absent (h : q.Others o w w') (hs : q.Unique w.store)
    (hw' : q.admitted w'.store = []) : q.admitted w.store = [] := by
  rcases hs with hnone | ⟨x, hx, -⟩
  · exact hnone
  · rw [h.kept hx] at hw'
    cases hw'

lemma Others.open (h : q.Others o w w') (hw : w.sealed.contains o = false) :
    w'.sealed.contains o = false := by
  induction h with
  | refl => exact hw
  | tail _ hstep ih => exact hstep.1.trans ih

lemma Others.conversation (h : q.Others o w w')
    (hw : w.store.hasConversation q.conversationId = true) :
    w'.store.hasConversation q.conversationId = true := by
  induction h with
  | refl => exact hw
  | tail _ hstep ih =>
    rcases hstep.2 with heq | ⟨m, r, hm, hcommit⟩
    · rwa [heq]
    · obtain ⟨c, hc⟩ := SqliteStore.hasConversation_iff.mp ih
      rw [SqliteStore.hasConversation_iff]
      rcases SqliteStore.commit_writes hcommit with ⟨-, heq⟩ | ⟨hdel, -, hr⟩ | ⟨-, -, s₀, d, hw, -⟩
      · exact ⟨c, by rw [heq, hc]⟩
      · refine ⟨c, ?_⟩
        have hother := (hm.1 hdel).symm
        rw [hr.get?_conversations, hc, Option.filter_some, Table.key_of_get? hc]
        simp [hother]
      · obtain ⟨c', hc', -⟩ := hw.later.conversations _ c hc
        exact ⟨c', hc'⟩

/-- Whatever was committed before, a request is admitted once. -/
lemma once_of_run {ok : MutationData → Prop} (h : CommitRun ok {} s) :
    (q.admitted s).length ≤ 1 ∧ ∀ x ∈ q.admitted s, x.id ≠ "" := by
  induction h with
  | refl => exact ⟨Nat.zero_le _, by simp [admitted]⟩
  | tail _ hcommit _ ih =>
    rcases SqliteStore.admitted_of_commit q hcommit with heq | ⟨-, -, heq⟩ |
      ⟨-, d, -, -, -, x, heq, hxid, -⟩
    · rwa [heq]
    · simp [heq]
    · refine ⟨by simp [heq], fun y hy => ?_⟩
      rw [heq, List.mem_singleton] at hy
      rw [hy, hxid]
      exact d.submissionId_ne

lemma unique_of_run {ok : MutationData → Prop} (h : CommitRun ok {} s)
    (hsame : ∀ x ∈ q.admitted s, x.fingerprint = q.fingerprint) : q.Unique s := by
  obtain ⟨hone, hid⟩ := once_of_run (q := q) h
  match hadmitted : q.admitted s, hone with
  | [], _ => exact Or.inl hadmitted
  | [x], _ =>
    have hx : x ∈ q.admitted s := by simp [hadmitted]
    exact Or.inr ⟨x, hadmitted, hid x hx, hsame x hx⟩

/-! ### What the conversation of a request shows -/

/-- Others change nothing of what a path shows. -/
lemma Others.shown (h : q.Others o w w') {leaf : Option String} {path : List EntryDraft}
    (hpath : Shown w.store.entriesOf w.store.conversationParent q.conversationId leaf path) :
    Shown w'.store.entriesOf w'.store.conversationParent q.conversationId leaf path := by
  induction h with
  | refl => exact hpath
  | tail _ hstep ih =>
    rcases hstep.2 with heq | ⟨m, r, hm, hcommit⟩
    · rwa [heq]
    · rcases SqliteStore.commit_writes hcommit with ⟨-, heq⟩ | ⟨hdel, -, hr⟩ | ⟨-, -, s₀, c, hw, -⟩
      · rwa [heq]
      · exact ih.extends hr.extension (hm.1 hdel).symm
      · exact (ih.extends (SqliteStore.extends_of_create hw.created) trivial).extends hw.extension
          trivial

/-- While the head of a conversation stays, so do the entries that its context shows. -/
lemma Others.context_ids {io : Responses} (h : q.Others o w w') {path path' : List EntryDraft}
    (hrow : w'.store.conversations.get? q.conversationId =
      w.store.conversations.get? q.conversationId)
    (hpath : w.store.context io q.conversationId = .ok path)
    (hpath' : w'.store.context io q.conversationId = .ok path') :
    path'.map (·.entryId) = path.map (·.entryId) := by
  cases hc : w.store.conversations.get? q.conversationId with
  | none =>
    rw [SqliteStore.context, SqliteStore.head, SqliteStore.conversation, hc] at hpath
    cases hpath
  | some c =>
    rw [SqliteStore.context_eq hc] at hpath
    rw [SqliteStore.context_eq (hrow.trans hc)] at hpath'
    obtain ⟨shown, hshown, hresolve⟩ := except_bind_eq_ok.mp hpath
    obtain ⟨shown', hshown', hresolve'⟩ := except_bind_eq_ok.mp hpath'
    have hsame := h.shown (shown_of_contextPath hshown)
    obtain rfl := hsame.unique (shown_of_contextPath hshown')
    rw [SqliteStore.entryIds_of_resolve hresolve, SqliteStore.entryIds_of_resolve hresolve']

end Request

end Codey
