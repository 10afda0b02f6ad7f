import Codey.Durable.PassiveWrites
import Codey.Durable.Requests

/-!
# Calls for a request

`admit_input` and `admit_write` among the steps of others: what they read, the mutation that they
build, and its commit. The session finds an admitted request by its fingerprint; the store compares
the stored submission, as it is by then, with a draft that has just been made.
-/

namespace Codey

/-! ### Looking up a request -/

namespace SqliteStore

variable {s s' : SqliteStore} {q : Request} {m : DurableMutation} {r : CommitResult}

lemma admitted_eq (row : SubmissionRow) (x : Admitted) (h : row.admitted = x) :
    row.id = x.id ∧ row.conversationId = x.conversationId ∧ row.requestId = x.requestId ∧
      row.revision = x.revision ∧ row.fingerprint = x.fingerprint ∧ row.commitSeq = x.commitSeq := by
  subst h
  exact ⟨rfl, rfl, rfl, rfl, rfl, rfl⟩

/-- What the session learns of a request by its fingerprint. -/
lemma submissionResultForRequest_eq (h : q.Unique s) :
    s.submissionResultForRequest q.conversationId q.requestId q.fingerprint =
      .ok ((q.admitted s).head?.map (·.result)) := by
  have hfind := find?_request s q
  unfold submissionResultForRequest
  rcases h with hnone | ⟨x, hx, -, hprint⟩
  · rw [hnone, List.head?_nil, Option.map_eq_none_iff] at hfind
    rw [hfind, hnone]
    rfl
  · rw [hx, List.head?_cons] at hfind
    obtain ⟨row, hrow, hadmitted⟩ := Option.map_eq_some_iff.mp hfind
    obtain ⟨hid, -, -, hrevision, hfingerprint, hseq⟩ := admitted_eq row x hadmitted
    rw [hrow, hx]
    simp [hfingerprint, hprint, hrevision, hseq, hid, Admitted.result]

variable {d : SubmissionDraft}

lemma findSubmission_of_absent (hconv : d.conversationId = q.conversationId)
    (hrequest : d.requestId = q.requestId) (h : q.admitted s = []) :
    s.findSubmission (some d) = .ok none := by
  have hfind := find?_request s q
  rw [h, List.head?_nil, Option.map_eq_none_iff] at hfind
  rw [findSubmission, hconv, hrequest, hfind]

/-- An admitted request is replayed. -/
lemma replayed_of_commit (hd : m.submission = some d)
    (hconv : d.conversationId = q.conversationId) (hrequest : d.requestId = q.requestId)
    {x : Admitted} (hx : q.admitted s = [x]) (h : s.commit m = .ok (r, s')) :
    s' = s ∧ r = x.result := by
  have hfind := find?_request s q
  rw [hx, List.head?_cons] at hfind
  obtain ⟨row, hrow, hadmitted⟩ := Option.map_eq_some_iff.mp hfind
  obtain ⟨hid, -, -, hrevision, -, hseq⟩ := admitted_eq row x hadmitted
  have hsome : ∀ found, s.findSubmission m.submission = .ok found → found = some x.result := by
    intro found hfound
    rw [hd, findSubmission, hconv, hrequest, hrow] at hfound
    obtain ⟨stored, -, hfound⟩ := except_bind_eq_ok.mp hfound
    rw [except_seq_eq_ok] at hfound
    rw [← Except.ok.inj hfound.2, hrevision, hseq, hid]
    rfl
  rcases commit_writes h with ⟨hfound, rfl⟩ | ⟨-, hfound, -⟩ | ⟨-, hfound, -⟩
  · exact ⟨rfl, Option.some.inj (hsome _ hfound)⟩
  · cases hsome _ hfound
  · cases hsome _ hfound

/-- A commit that admits the request returns what the stored submission reports. -/
lemma result_of_commit (hd : m.submission = some d) (hconv : d.conversationId = q.conversationId)
    (hrequest : d.requestId = q.requestId) (hs : q.Unique s) (h : s.commit m = .ok (r, s'))
    (hkept : m.deleteConversation = false) : ∃ x, q.admitted s' = [x] ∧ r = x.result := by
  rcases hs with hnone | ⟨x, hx, -, -⟩
  · rcases admitted_of_commit q h with heq | ⟨hdel, -⟩ | ⟨-, -, -, -, -, x, hx, -, -, hr⟩
    · -- an absent request cannot be replayed, so the commit has admitted it
      rcases commit_writes h with ⟨hfound, -⟩ | ⟨hdel, -⟩ | ⟨-, -, s₀, c, hw, -⟩
      · rw [hd, findSubmission_of_absent hconv hrequest hnone] at hfound
        cases hfound
      · rw [hkept] at hdel
        cases hdel
      · have hrows := congrArg (List.filter q.names) hw.admitted
        change q.admitted s' = _ at hrows
        rw [heq, hnone, List.filter_append, hd, Option.map_some, Option.toList_some,
          List.filter_singleton] at hrows
        simp [Request.names, SubmissionRow.admitted, submissionRow, hconv, hrequest] at hrows
    · rw [hkept] at hdel
      cases hdel
    · exact ⟨x, hx, hr.symm⟩
  · obtain ⟨rfl, hr⟩ := replayed_of_commit hd hconv hrequest hx h
    exact ⟨x, hx, hr⟩

/-! ### The attempt fence of an admission -/

/-- The attempt fence says nothing about a task that is not stored. -/
lemma commit_withToken {t : TaskCheckpoint} (ht : m.task = some t)
    (hnew : s.tasks.get? t.taskId = none) (token : String) :
    s.commit (Session.withToken m token) = s.commit m := by
  have hvalidate : ∀ s₀ c, s.create m.toMutationData = .ok s₀ →
      s₀.validateMutation (Session.withToken m token).toMutationData c =
        s₀.validateMutation m.toMutationData c := by
    intro s₀ c hcreate
    have hnone : s₀.tasks.get? t.taskId = none := by
      rw [create_frame hcreate]
      exact hnew
    have htask : ∀ expected, s₀.validateTask t m.submission expected =
        s₀.validateTask t m.submission none := by
      intro expected
      simp only [validateTask, hnone]
    have hfenced : checkAll m.task.toList (fun t => s₀.validateTask t m.submission (some token)) =
        checkAll m.task.toList fun t => s₀.validateTask t m.submission m.expectedAttemptToken := by
      simp only [ht, Option.toList_some, checkAll, htask]
    unfold validateMutation
    change (_ >>= fun _ => _ >>= fun _ => _ >>= fun _ => _ >>= fun _ =>
      checkAll m.task.toList (fun t => s₀.validateTask t m.submission (some token)) >>= _) = _
    rw [hfenced]
    rfl
  unfold commit
  change (s.findSubmission m.submission >>= _) = (s.findSubmission m.submission >>= _)
  congr 1
  funext found
  cases found with
  | some replayed => rfl
  | none =>
    change (s.create m.toMutationData >>= _) = (s.create m.toMutationData >>= _)
    cases hcreate : s.create m.toMutationData with
    | error e => rfl
    | ok s₀ =>
      change (s₀.conversation m.conversationId >>= _) = (s₀.conversation m.conversationId >>= _)
      congr 1
      funext c
      simp only [hvalidate s₀ c hcreate]
      rfl

/-- A task cannot be admitted under the id of a stored one. -/
lemma new_of_admission {t : TaskCheckpoint} (hd : m.submission = some d) (ht : m.task = some t)
    (hrevision : t.revision = 0) (hkept : m.deleteConversation = false)
    (hnone : s.findSubmission (some d) = .ok none) (h : s.commit m = .ok (r, s')) :
    s.tasks.get? t.taskId = none := by
  cases hrow : s.tasks.get? t.taskId with
  | none => rfl
  | some row =>
    rcases commit_cases h with ⟨rfl, -⟩ | ⟨hdel, -⟩ | ⟨-, haccepted⟩
    · rcases commit_writes h with ⟨hfound, -⟩ | ⟨hdel, -⟩ | ⟨-, -, s₀, c, hw, -⟩
      · rw [hd, hnone] at hfound
        cases hfound
      · rw [hkept] at hdel
        cases hdel
      · have := hw.sequence_eq
        omega
    · rw [hkept] at hdel
      cases hdel
    · obtain ⟨hchecked, -⟩ := checked_of_validateTask (haccepted.task t ht) hrow
      have := hchecked.revision
      omega

end SqliteStore

/-! ### Calls for a request -/

/-- A call that asks to admit a submission. -/
inductive Ask where
  | input (a : Admission)
  | write (w : PassiveWrite)

namespace Ask

def request : Ask → Request
  | .input a => ⟨a.conversationId, a.requestId, a.fingerprint⟩
  | .write w => ⟨w.conversationId, w.requestId, w.fingerprint⟩

/-- The operation. -/
def prog (c : Session) (host : Host) (io : Responses) : Ask → Op CommitResult
  | .input a => c.admitInput a
  | .write w => c.admitWrite host io w

/-- The arguments pass the checks that read no store, and the ids are not empty. -/
def Valid (host : Host) : Ask → Prop
  | .input a => Session.validateAdmission a = .ok () ∧
      (∀ w ∈ a.workflow, Session.validateWorkflow w = .ok ()) ∧ a.conversationId ≠ "" ∧
      a.requestId ≠ "" ∧ a.submissionId ≠ "" ∧ a.entryId ≠ ""
  | .write w => w.validateFields host = .ok () ∧ w.validateFence = .ok () ∧
      w.conversationId ≠ "" ∧ w.requestId ≠ "" ∧ w.submissionId ≠ "" ∧ w.entryId ≠ ""

def owner : Ask → Option String
  | .input a => a.ownerTaskId
  | .write _ => none

/-- The steps of a call before it reads the conversation. -/
def before : Ask → Nat
  | .input a => 1 + a.ownerTaskId.toList.length
  | .write _ => 2

def placement : Ask → SubmissionPlacement
  | .input a => a.placement
  | .write w => w.placement

def mode : Ask → SubmissionMode
  | .input a => a.mode
  | .write _ => .write

def content : Ask → Fields
  | .input a => [("message_metadata", .obj a.metadata), ("text", .str a.text)]
  | .write w => w.content

/-- Kind and payload of the entry. -/
def entry : Ask → Option (String × Fields)
  | .input a =>
    if a.placement = .placed then some ("user_message",
      (Fields.merge [("text", .str a.text)] a.metadata).merge
        ((a.edit.map fun edit => [("edited_entry_id", Json.str edit.entryId),
          ("edit_parent_entry_id", Session.optionalStr edit.parent)]).toList.flatten))
    else none
  | .write w => if w.placement = .placed then some (w.kind, w.payload) else none

/-- The entries that come before that of the submission. -/
def toolEntries : Ask → List EntryDraft
  | .input a => a.toolEntries
  | .write _ => []

/-- The mutation admits one submission for the call, with at most one entry of its own and at most
one task. -/
def Admits (ask : Ask) (m : MutationData) : Prop := ∃ d, m.submission = some d ∧
  d.conversationId = ask.request.conversationId ∧ d.requestId = ask.request.requestId ∧
  d.fingerprint = ask.request.fingerprint ∧ m.deleteConversation = false ∧
  m.entries = ask.toolEntries ++ d.entry.toList ∧ m.taskUpdates = []

/-! ### When the store recognises a request -/

/-- The stored submission still is what the call asks for. -/
def untouched (ask : Ask) (s : SqliteStore) (row : SubmissionRow) : Bool :=
  row.placement = ask.placement && row.mode = ask.mode && row.content.pyEq ask.content
    && match row.entryId.bind s.entries.get?, ask.entry with
      | none, none => true
      | some e, some (kind, payload) => e.kind = kind && e.payload.pyEq payload
      | _, _ => false

end Ask

/-! ### The mutations of the calls -/

namespace Session

/-- The mutation of an input, from what was read of its conversation. -/
def inputMutation (c : Session) (a : Admission)
    (seen : Option String × Nat × Option CreateConversation) : Except Error DurableMutation := do
  let (head, revision, creation) := seen
  let head := match a.edit with
    | some edit => edit.localParent
    | none => head
  require (creation.isNone || a.toolEntries.isEmpty)
    (.commitConflict "a new conversation has no unanswered tool calls")
  let head := (a.toolEntries.getLast?.map (·.entryId)).or head
  let entry ← inputEntry a head
  let submission ← SubmissionDraft.make {
    submissionId := a.submissionId, requestId := a.requestId
    conversationId := a.conversationId, entry, fingerprint := a.fingerprint
    placement := a.placement, mode := a.mode
    content := some [("message_metadata", .obj a.metadata), ("text", .str a.text)] }
  let task ← TaskCheckpoint.make {
    taskId := a.taskId, conversationId := a.conversationId, submissionId := a.submissionId
    phase := a.initialPhase, revision := 0, providerSnapshot := a.providerSnapshot
    state := c.admittedState a entry, status := taskStatusForPhase a.initialPhase }
  DurableMutation.make {
    conversationId := a.conversationId, expectedRevision := revision
    entries := a.toolEntries ++ entry.toList, submission := some submission, task := some task
    createConversation := creation, editedEntryId := a.edit.map (·.entryId)
    replacedRunIds := (a.edit.map (·.replacedRunIds)).getD [] }

/-- The mutation of a passive write, from what was read of its conversation. -/
def writeMutation (w : PassiveWrite) (seen : Option String × Nat × Option CreateConversation)
    (stale : Bool) : Except Error DurableMutation := do
  let (head, revision, creation) := seen
  require (!stale || w.expectedRevision.isNone)
    (.commitConflict "a revision-fenced write cannot be queued for a stale head")
  let entry ← w.entry stale head
  let submission ← SubmissionDraft.make (w.draft stale entry)
  DurableMutation.make {
    conversationId := w.conversationId, expectedRevision := revision
    entries := entry.toList, submission := some submission, createConversation := creation }

/-- The fence of a passive write, against what was read of its conversation. -/
def checkFence (w : PassiveWrite) (seen : Option String × Nat × Option CreateConversation) :
    Except Error Unit := do
  require (w.expectedRevision.all (· = (seen.2.1 : Int)))
    (.commitConflict "conversation revision changed")
  require (w.expectedHead.all fun id => seen.1 = some id)
    (.commitConflict "conversation head changed")

lemma admitInput_eq (c : Session) (a : Admission) : c.admitInput a =
    c.ensureUsable.bind fun _ => (Prog.ofExcept (validateAdmission a)).bind fun _ =>
    (ensureOwner a.ownerTaskId).bind fun _ =>
    (Prog.ofExcept (checkAll a.workflow.toList validateWorkflow)).bind fun _ =>
    (readHead a.conversationId).bind fun seen =>
    (view (·.submissionResultForRequest a.conversationId a.requestId a.fingerprint)).bind fun
      | some result => .ret result
      | none => (Prog.ofExcept (c.inputMutation a seen)).bind c.commit := by
  have htail : ∀ md : MutationData, c.commitData md =
      (Prog.ofExcept (DurableMutation.make md)).bind c.commit := fun _ => rfl
  unfold admitInput
  simp only [Prog.bind_eq, ensure, htail, Prog.ofExcept_bind, Prog.pure_eq]
  rfl

lemma admitWrite_eq (c : Session) (host : Host) (io : Responses) (w : PassiveWrite) :
    c.admitWrite host io w =
    c.ensureUsable.bind fun _ => (Prog.ofExcept (w.validateFields host)).bind fun _ =>
    (Prog.ofExcept w.validateFence).bind fun _ =>
    (view (·.submissionResultForRequest w.conversationId w.requestId w.fingerprint)).bind fun
      | some result => .ret result
      | none => (readHead w.conversationId).bind fun seen =>
        (Prog.ofExcept (checkFence w seen)).bind fun _ => (isStale io w seen.2.2).bind fun stale =>
        (Prog.ofExcept (writeMutation w seen stale)).bind c.commit := by
  have htail : ∀ md : MutationData, c.commitData md =
      (Prog.ofExcept (DurableMutation.make md)).bind c.commit := fun _ => rfl
  unfold admitWrite
  simp only [Prog.bind_eq, ensure, htail, Prog.ofExcept_bind, Prog.pure_eq]
  rfl

end Session

namespace Ask

/-- The draft is what the call asks for, and it starts queued. -/
structure Drafts (ask : Ask) (d : SubmissionDraft) : Prop where
  placement : d.placement = ask.placement
  mode : d.mode = ask.mode
  status : d.status = .queued
  reason : d.reason = none
  content : d.content = some ask.content
  entry : d.entry.map (fun e => (e.kind, e.payload)) = ask.entry

structure Built (ask : Ask) (m : DurableMutation) : Prop where
  admits : ask.Admits m.toMutationData
  approval : m.approval = none
  revision : ∀ t, m.task = some t → t.revision = 0

lemma of_inputMutation {c : Session} {a : Admission} {m : DurableMutation}
    {seen : Option String × Nat × Option CreateConversation}
    (h : c.inputMutation a seen = .ok m) :
    (Ask.input a).Built m ∧ ∀ d, m.submission = some d → (Ask.input a).Drafts d := by
  obtain ⟨head, revision, creation⟩ := seen
  simp only [Session.inputMutation, except_bind_eq_ok] at h
  obtain ⟨-, -, entry, hentry, d, hd, t, ht, hm⟩ := h
  rw [DurableMutation.make_eq_ok] at hm
  rw [SubmissionDraft.make_eq_ok] at hd
  rw [TaskCheckpoint.make_eq_ok] at ht
  refine ⟨⟨⟨d, ?_⟩, by rw [hm], fun t' ht' => ?_⟩, fun d' hd' => ?_⟩
  · simp [hm, hd, request, toolEntries]
  · rw [hm] at ht'
    obtain rfl := Option.some.inj ht'
    simp [ht]
  · rw [hm] at hd'
    obtain rfl := Option.some.inj hd'
    refine ⟨by simp [hd, placement], by simp [hd, mode], by simp [hd], by simp [hd],
      by simp [hd, content], ?_⟩
    unfold Session.inputEntry at hentry
    simp only [hd, Ask.entry]
    split_ifs at hentry ⊢ with hplaced
    · obtain ⟨e, he, rfl⟩ := except_last_eq_ok.mp hentry
      unfold EntryDraft.make at he
      split_ifs at he
      obtain rfl := Except.ok.inj he
      rfl
    · obtain rfl := Except.ok.inj hentry
      rfl

lemma of_writeMutation {w : PassiveWrite} {m : DurableMutation} {stale : Bool}
    {seen : Option String × Nat × Option CreateConversation}
    (h : Session.writeMutation w seen stale = .ok m) :
    (Ask.write w).Built m ∧ (w.placement = .queued → stale = false →
      ∀ d, m.submission = some d → (Ask.write w).Drafts d) := by
  obtain ⟨head, revision, creation⟩ := seen
  simp only [Session.writeMutation, except_bind_eq_ok] at h
  obtain ⟨-, -, entry, hentry, d, hd, hm⟩ := h
  rw [DurableMutation.make_eq_ok] at hm
  rw [SubmissionDraft.make_eq_ok] at hd
  refine ⟨⟨⟨d, ?_⟩, by rw [hm], by simp [hm]⟩, fun hqueued hfresh d' hd' => ?_⟩
  · simp [hm, hd, PassiveWrite.draft, request, toolEntries]
  · rw [hm] at hd'
    obtain rfl := Option.some.inj hd'
    have hnone : w.entry stale head = .ok none := by simp [PassiveWrite.entry, hqueued]
    obtain rfl := Except.ok.inj (hnone.symm.trans hentry)
    constructor <;> simp [hd, PassiveWrite.draft, hfresh, hqueued, placement, mode, content,
      Ask.entry]

lemma entry_isSome (ask : Ask) : ask.entry.isSome = decide (ask.placement = .placed) := by
  cases ask <;> simp only [entry, placement] <;> split_ifs with h <;> simp [h]

/-- The store recognises an admitted request that still is what the call asks for. -/
lemma findSubmission_untouched {ask : Ask} {s : SqliteStore} {d : SubmissionDraft} {x : Admitted}
    (hd : ask.Drafts d) (hconv : d.conversationId = ask.request.conversationId)
    (hrequest : d.requestId = ask.request.requestId)
    (hprint : d.fingerprint = ask.request.fingerprint) (hs : ask.request.Unique s)
    (hx : ask.request.admitted s = [x])
    (huntouched : ∀ row ∈ s.submissions.rows, ask.request.names row.admitted = true →
      ask.untouched s row = true) : s.findSubmission (some d) = .ok (some x.result) := by
  have hfind := SqliteStore.find?_request s ask.request
  rw [hx, List.head?_cons] at hfind
  obtain ⟨row, hrow, hadmitted⟩ := Option.map_eq_some_iff.mp hfind
  obtain ⟨hid, hrowconv, hrowrequest, hrevision, hfingerprint, hseq⟩ :=
    SqliteStore.admitted_eq row x hadmitted
  obtain ⟨hne, hxprint⟩ : x.id ≠ "" ∧ x.fingerprint = ask.request.fingerprint := by
    rcases hs with hnone | ⟨y, hy, hne, hprint⟩
    · rw [hnone] at hx
      cases hx
    · obtain rfl : y = x := by simpa [hx] using hy.symm
      exact ⟨hne, hprint⟩
  have hnames : ask.request.names row.admitted = true := by
    have hfound := List.find?_some hrow
    exact hfound
  have hsame := huntouched row (List.mem_of_find?_eq_some hrow) hnames
  simp only [untouched, Bool.and_eq_true, decide_eq_true_eq] at hsame
  obtain ⟨⟨⟨hplacement, hmode⟩, hcontent⟩, hentry⟩ := hsame
  have hvalid := d.valid
  simp only [SubmissionDraftData.postInit, except_seq_eq_ok, require_eq_ok, Bool.and_eq_true,
    decide_eq_true_eq] at hvalid
  obtain ⟨⟨⟨-, hrequestNe⟩, hconvNe⟩, hown, -⟩ := hvalid
  have hsome := ask.entry_isSome
  have hdraft := hd.entry
  -- the stored entry and that of the draft are there together
  have hboth : ∃ stored : SubmissionDraft, s.storedDraft d row = .ok stored ∧
      sameSubmission stored.toSubmissionDraftData d.toSubmissionDraftData = true := by
    cases he : row.entryId.bind s.entries.get? with
    | none =>
      cases hask : ask.entry with
      | some asked => simp [he, hask] at hentry
      | none =>
        have hqueued : row.placement = .queued := by
          rw [hask] at hsome
          cases hp : row.placement with
          | queued => rfl
          | placed => simp [← hplacement, hp] at hsome
        have hnone : d.entry = none := by simpa [hask] using hdraft
        refine ⟨⟨_, ?_⟩, SubmissionDraft.make_eq_ok.mpr rfl, ?_⟩
        · simp [SubmissionDraftData.postInit, except_seq_eq_ok, he, hid, hne, hrequestNe, hconvNe,
            hqueued]
        · simp [sameSubmission, he, hnone, hplacement, hmode, hd.placement, hd.mode, hd.status,
            hd.reason, hd.content, hcontent, hfingerprint, hxprint, hprint]
    | some e =>
      cases hask : ask.entry with
      | none => simp [he, hask] at hentry
      | some asked =>
        obtain ⟨kind, payload⟩ := asked
        have hplaced : row.placement = .placed := by
          rw [hask] at hsome
          simpa [hplacement] using hsome
        obtain ⟨f, hf, hpair⟩ := Option.map_eq_some_iff.mp (hdraft.trans hask)
        obtain ⟨rfl, rfl⟩ := Prod.mk.inj hpair
        simp only [he, hask, Bool.and_eq_true, decide_eq_true_eq] at hentry
        have hfconv : f.conversationId = d.conversationId := by simpa [hf] using hown
        refine ⟨⟨_, ?_⟩, SubmissionDraft.make_eq_ok.mpr rfl, ?_⟩
        · simp [SubmissionDraftData.postInit, except_seq_eq_ok, he, hid, hne, hrequestNe, hconvNe,
            hplaced]
        · simp [sameSubmission, he, hf, hfconv, hplacement, hmode, hd.placement, hd.mode,
            hd.status, hd.reason, hd.content, hcontent, hfingerprint, hxprint, hprint, hentry]
  obtain ⟨stored, hstored, hsubmission⟩ := hboth
  rw [SqliteStore.findSubmission, hconv, hrequest, hrow]
  refine except_bind_eq_ok.mpr ⟨stored, hstored, ?_⟩
  rw [hsubmission, hrevision, hseq, hid]
  rfl

end Ask

/-! ### A commit among others -/

namespace Session

variable {c : Session} {q : Request} {w w' : World} {moves : List (World × World)}
  {r : Except Error CommitResult}

lemma others_trans : ∀ w w' w'' : World, q.Others c.ownerId w w' → q.Others c.ownerId w' w'' →
    q.Others c.ownerId w w'' := fun _ _ _ h h' => h.trans h'

lemma among_ensureUsable {r : Except Error Unit} (hopen : w.sealed.contains c.ownerId = false)
    (h : Prog.Among (q.Others c.ownerId) c.ensureUsable w moves r w') :
    ∃ t, moves = [(t, t)] ∧ r = .ok () ∧ Prog.Silent (q.Others c.ownerId) w moves w' := by
  obtain ⟨t, hmoves, hr, hsilent⟩ := Prog.among_readE_silent h
  refine ⟨t, hmoves, ?_, hsilent⟩
  subst hmoves
  have hw : q.Others c.ownerId w t := (hsilent.mem others_trans (List.mem_singleton_self _)).2.1
  rw [hr, hw.open hopen]
  rfl

lemma among_view {α : Type} {f : SqliteStore → Except Error α} {r : Except Error α}
    (h : Prog.Among (q.Others c.ownerId) (view f) w moves r w') :
    ∃ t, moves = [(t, t)] ∧ r = f t.store ∧ Prog.Silent (q.Others c.ownerId) w moves w' :=
  Prog.among_readE_silent h

variable {m : DurableMutation}

lemma among_fence {r : Except Error DurableMutation}
    (h : Prog.Among (q.Others c.ownerId) (c.fence m) w moves r w') :
    Prog.Silent (q.Others c.ownerId) w moves w' ∧ ∃ m', r = .ok m' ∧
      (m' = m ∨ ∃ t token, m.task = some t ∧ m' = withToken m token) := by
  unfold fence at h
  split at h
  · rename_i t ht _
    rcases Prog.among_bind (fun _ => .refl) h with ⟨e, rfl, hread⟩ |
      ⟨current, w₁, m₁, m₂, rfl, hread, h⟩
    · obtain ⟨_, _, hr, _⟩ := among_view hread
      cases hr
    · obtain ⟨_, _, _, hsilent⟩ := among_view hread
      cases current with
      | none =>
        obtain ⟨rfl, rfl, hR⟩ := Prog.among_ret h
        exact ⟨hsilent.append others_trans (.nil hR), m, rfl, Or.inl rfl⟩
      | some current =>
        obtain ⟨rfl, rfl, hR⟩ := Prog.among_ret h
        exact ⟨hsilent.append others_trans (.nil hR), _, rfl, Or.inr ⟨t, _, ht, rfl⟩⟩
  · obtain ⟨rfl, rfl, hR⟩ := Prog.among_ret h
    exact ⟨.nil hR, m, rfl, Or.inl rfl⟩

/-- A commit among others: it reads, and then writes in one step. -/
lemma among_commit (happroval : m.approval = none) (hopen : w.sealed.contains c.ownerId = false)
    (h : Prog.Among (q.Others c.ownerId) (c.commit m) w moves r w') :
    ∃ m' reads t, (m' = m ∨ ∃ task token, m.task = some task ∧ m' = withToken m token) ∧
      moves = reads ++ [(t, c.afterCommit m' t)] ∧ Prog.Silent (q.Others c.ownerId) w reads t ∧
      r = (t.store.commit m').map Prod.fst ∧ q.Others c.ownerId (c.afterCommit m' t) w' := by
  unfold commit materialize at h
  rw [happroval] at h
  change Prog.Among _ (c.ensureUsable.bind fun _ => (c.fence m).bind c.storeCommit) _ _ _ _ at h
  rcases Prog.among_bind (fun _ => .refl) h with ⟨e, rfl, hread⟩ | ⟨_, w₁, m₁, rest, rfl, hread, h⟩
  · obtain ⟨_, _, hr, _⟩ := among_ensureUsable hopen hread
    cases hr
  obtain ⟨_, _, _, hfirst⟩ := among_ensureUsable hopen hread
  rcases Prog.among_bind (fun _ => .refl) h with ⟨e, rfl, hfence⟩ | ⟨m', w₂, m₂, last, rfl, hfence, h⟩
  · obtain ⟨_, _, hr, _⟩ := among_fence hfence
    cases hr
  obtain ⟨hsecond, m'', hm'', hfenced⟩ := among_fence hfence
  obtain rfl := Except.ok.inj hm''
  obtain ⟨t, end_, hR, rfl, hnext⟩ := Prog.among_step h
  refine ⟨m', m₁ ++ m₂, t, hfenced, ?_, ?_, ?_⟩
  · cases hcommit : t.store.commit m' with
    | ok x =>
      simp only [hcommit] at hnext
      obtain ⟨rfl, -, -⟩ := Prog.among_ret hnext
      rw [List.append_assoc]
    | error e =>
      simp only [hcommit] at hnext
      obtain ⟨rfl, -, -⟩ := Prog.among_ofExcept (x := .error e) hnext
      rw [List.append_assoc]
  · exact hfirst.append others_trans (hsecond.to_rel others_trans hR)
  · cases hcommit : t.store.commit m' with
    | ok x =>
      simp only [hcommit] at hnext
      obtain ⟨-, rfl, hend⟩ := Prog.among_ret hnext
      exact ⟨rfl, hend⟩
    | error e =>
      simp only [hcommit] at hnext
      obtain ⟨-, rfl, hend⟩ := Prog.among_ofExcept (x := .error e) hnext
      exact ⟨rfl, hend⟩

/-! ### The reads of the calls -/

lemma run_readHead (id : String) (v : World) : (readHead id).run v =
    (.ok (match v.store.conversations.get? id with
      | some row => (row.headEntryId, row.revision, none)
      | none => (none, 0, some .root)), v) := by
  unfold readHead look view
  rw [Prog.bind_eq, Prog.run_bind, Prog.run_readE]
  cases hv : v.store.conversations.get? id <;>
    simp [SqliteStore.hasConversation, SqliteStore.head, SqliteStore.conversation, hv,
      Prog.run_bind, bind, Except.bind, pure, Except.pure]

/-- What the reads of the conversation see, while it is not deleted, is what they would see later
if its row does not change. -/
lemma among_readHead {r : Except Error (Option String × Nat × Option CreateConversation)}
    (h : Prog.Among (q.Others c.ownerId) (readHead q.conversationId) w moves r w') :
    Prog.Silent (q.Others c.ownerId) w moves w' ∧ ∃ seen, r = .ok seen ∧
    (∀ v : World, (∀ move ∈ moves, move.1.store.conversations.get? q.conversationId =
      v.store.conversations.get? q.conversationId) →
      (readHead q.conversationId).run v = (.ok seen, v)) ∧
    ((∃ t, moves = [(t, t)] ∧ t.store.hasConversation q.conversationId = false) ∨
      ∃ t t', moves = [(t, t), (t', t')] ∧ t.store.hasConversation q.conversationId = true ∧
        seen.2.2 = none) := by
  unfold readHead at h
  rcases Prog.among_bind (fun _ => .refl) h with ⟨e, rfl, hread⟩ | ⟨found, w₁, m₁, m₂, rfl, hread, h⟩
  · obtain ⟨_, _, hr, _⟩ := among_view hread
    cases hr
  obtain ⟨t, rfl, hfound, hsilent⟩ := among_view hread
  obtain rfl := Except.ok.inj hfound
  by_cases hhas : t.store.hasConversation q.conversationId = true
  · simp only [hhas, if_true] at h
    rcases Prog.among_bind (fun _ => .refl) h with ⟨e, rfl, hread'⟩ |
      ⟨⟨head, revision⟩, w₂, m₃, m₄, rfl, hread', hend⟩
    · -- the conversation is still there
      obtain ⟨t', rfl, he, hsilent'⟩ := among_view hread'
      have hlater := (hsilent.mem others_trans (List.mem_singleton_self _)).2.2.trans
        (hsilent'.mem others_trans (List.mem_singleton_self _)).2.1
      obtain ⟨row, hrow⟩ := SqliteStore.hasConversation_iff.mp
        (Request.Others.conversation hlater hhas)
      simp [SqliteStore.head, SqliteStore.conversation, hrow, bind, Except.bind, pure,
        Except.pure] at he
    · obtain ⟨t', rfl, he, hsilent'⟩ := among_view hread'
      obtain ⟨rfl, rfl, hR⟩ := Prog.among_ret hend
      refine ⟨hsilent.append others_trans (hsilent'.append others_trans (.nil hR)), _, rfl, ?_,
        Or.inr ⟨t, t', rfl, hhas, rfl⟩⟩
      intro v hv
      have hrow := hv (t', t') (by simp)
      rw [run_readHead, ← hrow]
      cases hget : t'.store.conversations.get? q.conversationId with
      | none =>
        simp [SqliteStore.head, SqliteStore.conversation, hget, bind, Except.bind] at he
      | some row =>
        simp only [SqliteStore.head, SqliteStore.conversation, hget, bind, Except.bind, pure,
          Except.pure, Except.ok.injEq, Prod.mk.injEq] at he
        rw [he.1, he.2]
  · simp only [hhas] at h
    obtain ⟨rfl, rfl, hend⟩ := Prog.among_ret h
    refine ⟨hsilent.append others_trans (.nil hend), _, rfl, fun v hv => ?_,
      Or.inl ⟨t, rfl, by simpa using hhas⟩⟩
    have hrow := hv (t, t) (by simp)
    have hnone : t.store.conversations.get? q.conversationId = none := by
      simpa [SqliteStore.hasConversation] using hhas
    rw [run_readHead, ← hrow, hnone]

lemma among_ensureOwner {owner : Option String} {r : Except Error Unit}
    (h : Prog.Among (q.Others c.ownerId) (ensureOwner owner) w moves r w') :
    Prog.Silent (q.Others c.ownerId) w moves w' ∧
    ((owner = none ∧ moves = [] ∧ r = .ok ()) ∨ ∃ id t, owner = some id ∧ moves = [(t, t)] ∧
      r = require (t.store.tasks.get? id).isSome
        (.valueError ("owner task does not exist: " ++ id))) := by
  cases owner with
  | none =>
    obtain ⟨rfl, rfl, hR⟩ := Prog.among_ret h
    exact ⟨.nil hR, Or.inl ⟨rfl, rfl, rfl⟩⟩
  | some id =>
    unfold ensureOwner at h
    rcases Prog.among_bind (fun _ => .refl) h with ⟨e, rfl, hread⟩ |
      ⟨found, w₁, m₁, m₂, rfl, hread, hend⟩
    · obtain ⟨_, _, hr, _⟩ := among_view hread
      cases hr
    · obtain ⟨t, rfl, hfound, hsilent⟩ := among_view hread
      obtain rfl := Except.ok.inj hfound
      obtain ⟨rfl, rfl, hR⟩ := Prog.among_ofExcept hend
      exact ⟨hsilent.append others_trans (.nil hR), Or.inr ⟨id, t, rfl, rfl, rfl⟩⟩

lemma run_ensureOwner (owner : Option String) (v : World) :
    (ensureOwner owner).run v = (.ok (), v) ∨ ∃ e, (ensureOwner owner).run v = (.error e, v) := by
  cases owner with
  | none => exact Or.inl rfl
  | some id =>
    simp only [ensureOwner, look, view, ensure, Prog.bind_eq, Prog.run_bind, Prog.run_readE,
      Prog.run_ofExcept]
    cases (v.store.tasks.get? id).isSome
    · exact Or.inr ⟨_, rfl⟩
    · exact Or.inl rfl

/-- Whether a write is stale does not change while the row of its conversation stays. -/
lemma among_isStale {io : Responses} {pw : PassiveWrite} {creation : Option CreateConversation}
    {r : Except Error Bool} (hconv : pw.conversationId = q.conversationId)
    (h : Prog.Among (q.Others c.ownerId) (isStale io pw creation) w moves r w') :
    Prog.Silent (q.Others c.ownerId) w moves w' ∧
    (∀ stale, r = .ok stale → ∀ v : World, (∀ move ∈ moves, q.Others c.ownerId move.1 v ∧
        v.store.conversations.get? q.conversationId =
          move.1.store.conversations.get? q.conversationId) →
      (isStale io pw creation).run v = (.ok stale, v) ∨
        ∃ e, (isStale io pw creation).run v = (.error e, v)) ∧
    ((moves = [] ∧ ∃ stale, r = .ok stale ∧ ((∀ target, pw.head = some target →
        target ≠ "self" → creation = none) → stale = false)) ∨
      ∃ t target, moves = [(t, t)] ∧ pw.head = some target ∧ target ≠ "self" ∧ creation = none ∧
        (isStale io pw creation).run t = (r, t) ∧
        r = (t.store.context io pw.conversationId).map fun path =>
          !(path.map (·.entryId)).contains target) := by
  by_cases hnamed : ∃ target, pw.head = some target ∧ target ≠ "self" ∧ creation = none
  · obtain ⟨target, hhead, hself, rfl⟩ := hnamed
    have hview : isStale io pw none = view fun s => (s.context io pw.conversationId).map fun path =>
        !(path.map (·.entryId)).contains target := by
      have hcontains : ∀ path : List EntryDraft, path.any (·.entryId = target) =
          (path.map (·.entryId)).contains target := by
        intro path
        rw [Bool.eq_iff_iff]
        simp only [List.any_eq_true, decide_eq_true_eq, List.contains_iff_mem, List.mem_map]
      simp only [isStale, hhead, if_neg hself, Option.isSome_none, Bool.false_eq_true, if_false,
        Prog.bind_eq, Prog.pure_eq, hcontains]
      exact Prog.readE_bind_ret _ _
    rw [hview] at h ⊢
    obtain ⟨t, rfl, hr, hsilent⟩ := among_view h
    refine ⟨hsilent, fun stale hstale v hv => ?_, Or.inr ⟨t, target, rfl, hhead, hself, rfl, ?_, hr⟩⟩
    · obtain ⟨hlater, hrow⟩ := hv (t, t) (by simp)
      rw [view, Prog.run_readE]
      rw [hstale] at hr
      cases hv' : v.store.context io pw.conversationId with
      | error e => exact Or.inr ⟨e, rfl⟩
      | ok path' =>
        cases ht : t.store.context io pw.conversationId with
        | error e =>
          rw [ht] at hr
          cases hr
        | ok path =>
          rw [hconv] at hv' ht
          rw [hconv, ht] at hr
          refine Or.inl ?_
          rw [hr]
          simp only [Except.map, Request.Others.context_ids hlater hrow ht hv']
    · rw [view, Prog.run_readE, hr]
  · have hret : ∃ stale, isStale io pw creation = .ret stale ∧ ((∀ target, pw.head = some target →
        target ≠ "self" → creation = none) → stale = false) := by
      unfold isStale
      split
      · exact ⟨false, rfl, fun _ => rfl⟩
      · rename_i target hhead
        split_ifs with hself hnew
        · exact ⟨false, rfl, fun _ => rfl⟩
        · exact ⟨true, rfl, fun hnone => absurd ⟨target, hhead, hself, hnone target hhead hself⟩
            hnamed⟩
        · exact absurd ⟨target, hhead, hself, by simpa using hnew⟩ hnamed
    obtain ⟨stale, hstale, hfresh⟩ := hret
    rw [hstale] at h ⊢
    obtain ⟨rfl, rfl, hR⟩ := Prog.among_ret h
    refine ⟨.nil hR, fun stale' hr v _ => Or.inl ?_, Or.inl ⟨rfl, stale, rfl, hfresh⟩⟩
    rw [← Except.ok.inj hr]
    rfl

/-! ### A commit alone -/

lemma run_fence (c : Session) (m : DurableMutation) (w : World) : ∃ m',
    (c.fence m).run w = (.ok m', w) ∧
      (m' = m ∨ ∃ t token, m.task = some t ∧ m' = withToken m token) := by
  unfold fence
  split
  · rename_i t ht _
    rw [Prog.bind_eq, Prog.run_bind]
    simp only [look, view, Prog.run_readE]
    cases w.store.tasks.get? t.taskId with
    | none => exact ⟨m, rfl, Or.inl rfl⟩
    | some current => exact ⟨_, rfl, Or.inr ⟨t, _, ht, rfl⟩⟩
  · exact ⟨m, rfl, Or.inl rfl⟩

lemma run_commit (happroval : m.approval = none) (hopen : w.sealed.contains c.ownerId = false) :
    ∃ m',
    ((c.commit m).run w).1 = (w.store.commit m').map Prod.fst ∧
      (m' = m ∨ ∃ t token, m.task = some t ∧ m' = withToken m token) := by
  obtain ⟨m', hfence, hfenced⟩ := run_fence c m w
  refine ⟨m', ?_, hfenced⟩
  unfold commit materialize
  rw [happroval, Prog.bind_eq, Prog.run_bind_ok (run_ensureUsable hopen)]
  change (((c.fence m).bind c.storeCommit).run w).1 = _
  rw [Prog.run_bind_ok hfence, storeCommit, Prog.run_step]
  cases w.store.commit m' <;> rfl

/-- An admission that the store has refused is refused again when it is tried alone. -/
lemma commit_alone {m m' : DurableMutation} {d : SubmissionDraft} {e : Error}
    (happroval : m.approval = none) (hopen : w.sealed.contains c.ownerId = false)
    (hd : m.submission = some d) (hnew : ∀ t, m.task = some t → t.revision = 0)
    (hkept : m.deleteConversation = false) (habsent : w.store.findSubmission (some d) = .ok none)
    (hfenced : m' = m ∨ ∃ t token, m.task = some t ∧ m' = withToken m token)
    (herror : w.store.commit m' = .error e) : ∃ e', ((c.commit m).run w).1 = .error e' := by
  obtain ⟨m'', hrun, hfenced'⟩ := run_commit (c := c) (w := w) happroval hopen
  cases hcommit : w.store.commit m'' with
  | error e' => exact ⟨e', by rw [hrun, hcommit]; rfl⟩
  | ok x =>
    exfalso
    -- the task is new, so that the fence makes no difference
    have hplain : ∀ t, m.task = some t → w.store.tasks.get? t.taskId = none := by
      intro t ht
      rcases hfenced' with rfl | ⟨t', token, ht', rfl⟩
      · exact SqliteStore.new_of_admission hd ht (hnew t ht) hkept habsent hcommit
      · exact SqliteStore.new_of_admission (m := withToken m token) hd ht (hnew t ht) hkept habsent
          hcommit
    have hsame : ∀ {n : DurableMutation}, (n = m ∨ ∃ t token, m.task = some t ∧
        n = withToken m token) → w.store.commit n = w.store.commit m := by
      rintro n (rfl | ⟨t, token, ht, rfl⟩)
      · rfl
      · exact SqliteStore.commit_withToken ht (hplain t ht) token
    rw [hsame hfenced, ← hsame hfenced', hcommit] at herror
    cases herror

end Session

end Codey
