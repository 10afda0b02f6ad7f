import Codey.Durable.Asks
import Codey.Durable.History
import Codey.Durable.MessageMetadata

/-!
# History edits

An input that edits a message replaces the path of its conversation from that message on. The
replaced entries stay in the store and are read from their own leaves.
-/

namespace Codey

/-! ### The operation -/

namespace Session

def editOf (taskState : Fields) : Option Fields :=
  match taskState.get? "input" with
  | some (.obj input) =>
    if Fields.get? input "kind" = some (.str "edit_user_message") then some input else none
  | _ => none

/-- The entry that an edit replaces. The store refuses an edit that names it by another value than
a text, so such a value counts as none. -/
def editedId (edit : Fields) : String := ((edit.get? "entry_id").bind Json.str?).getD ""

def prepareEdit (io : Responses) (a : Admission) (edit : Fields) (revision : Nat) :
    Op InputEdit := do
  ensure ((Json.int revision).pyEq ((edit.get? "expected_revision").getD .null))
    (.commitConflict "Conversation changed. Cancel the edit and try again.")
  let found ← look (·.hasConversation a.conversationId)
  ensure found (.commitConflict "Conversation changed. Cancel the edit and try again.")
  ensure (a.toolEntries.isEmpty && a.placement = .placed)
    (.valueError "an edit must place one new user input")
  let path ← view (·.context io a.conversationId)
  let pending ← look (·.pendingTasks)
  let (parent, replaced) ← Prog.ofExcept (editParent (some (editedId edit)) path
    (pending.any (·.conversationId = a.conversationId)))
  let own ← view (·.entriesOf a.conversationId)
  pure {
    entryId := editedId edit, parent, replacedRunIds := replaced
    localParent := parent.filter fun id => own.any (·.entryId = id) }

/-- The checks of `admit_input` that read no store, with the metadata of the message. -/
def checkInput (a : Admission) : Except Error Admission := do
  require (!a.text.toList.all blank) (.valueError "input text is required")
  let metadata ← messageMetadata a.taskState
  validateAdmission a
  pure { a with metadata }

/-- `admit_input` for an input that edits a message. -/
def admitEdit (c : Session) (io : Responses) (a : Admission) (edit : Fields) :
    Op CommitResult := do
  c.ensureUsable
  let a ← Prog.ofExcept (checkInput a)
  ensureOwner a.ownerTaskId
  Prog.ofExcept (checkAll a.workflow.toList validateWorkflow)
  let seen ← readHead a.conversationId
  let existing ← view (·.submissionResultForRequest a.conversationId a.requestId a.fingerprint)
  match existing with
  | some result => pure result
  | none => do
    let prepared ← prepareEdit io a edit seen.2.1
    let m ← Prog.ofExcept (c.inputMutation { a with edit := some prepared } seen)
    c.commit m

/-- `admit_input`, whether or not the input edits a message. -/
def admitMessage (c : Session) (io : Responses) (a : Admission) : Op CommitResult :=
  match editOf a.taskState with
  | some edit => c.admitEdit io a edit
  | none => do
    c.ensureUsable
    let a ← Prog.ofExcept (checkInput a)
    c.admitInput { a with edit := none }

/-- `record_display_message`, under the id that it derives from the run and what is observed. -/
def recordDisplayMessage (c : Session) (io : Responses) (conversationId runId entryId : String)
    (payload : Fields) : Op Unit := do
  c.ensureUsable
  let own ← view (·.entriesOf conversationId)
  if own.any (·.entryId = entryId) then pure () else do
    let owner ← look (·.tasks.get? runId)
    let source := ((owner.map (·.state.get? "input_entry_id")).join).filter Json.truthy
    let shown ← match source with
      | some source => do
        let path ← view (·.context io conversationId)
        pure (path.any fun e => source = .str e.entryId)
      | none => pure true
    if !shown then pure () else do
      let (head, revision) ← view (·.head conversationId)
      let entry ← Prog.ofExcept (EntryDraft.make entryId conversationId head "display_message"
        (payload.merge [("display_only", .bool true)]) (some runId))
      let _ ← c.commitData { conversationId, expectedRevision := revision, entries := [entry] }
      pure ()

end Session

/-- The replacement input of an edit belongs to the task that the edit admits. -/
def MutationData.EditsOwn (m : MutationData) : Prop := m.editedEntryId.isSome = true →
  ∀ e ∈ m.entries, ∃ t, m.task = some t ∧ t.revision = 0 ∧ e.writer = some t.taskId

/-! ### Paths through a replacement -/

section Replaced

variable {entries entries' : EntryReads} {parent parent' : ParentReads} {c : String}
  {x own : List EntryDraft} {n : EntryDraft}

lemma Inherits.unique {above above' : List EntryDraft} (h : Inherits entries parent c above)
    (h' : Inherits entries parent c above') : above = above' := by
  cases h with
  | root hroot =>
    cases h' with
    | root _ => rfl
    | fork hfork _ =>
      rw [hroot] at hfork
      cases hfork
  | fork hfork habove =>
    cases h' with
    | root hroot =>
      rw [hfork] at hroot
      cases hroot
    | fork hfork' habove' =>
      rw [hfork] at hfork'
      cases hfork'
      exact habove.unique habove'

/-- A replacement whose parent is not local rewinds what the conversation inherits to the prefix
that it replaces the rest of. -/
lemma inheritedPrefix_replaced {above : List EntryDraft}
    (hedited : n.payload.truthy "edited_entry_id" = true)
    (hbridge : optionalTextIs n.payload "edit_parent_entry_id" (x.getLast?.map (·.entryId)) = true)
    (hx : ∀ q, x.getLast?.map (·.entryId) = some q → pathThrough above q = some x) :
    inheritedPrefix above n = .ok x := by
  rw [inheritedPrefix, if_pos hedited]
  have hbridge := of_decide_eq_true hbridge
  cases hlast : x.getLast? with
  | none =>
    obtain rfl := List.getLast?_eq_none_iff.mp hlast
    rw [hlast] at hbridge
    cases hget : n.payload.get? "edit_parent_entry_id" with
    | none => rfl
    | some bridge =>
      obtain rfl : bridge = .null := by simpa [hget] using hbridge
      rfl
  | some q =>
    rw [hlast] at hbridge
    cases hget : n.payload.get? "edit_parent_entry_id" with
    | none => simp [hget] at hbridge
    | some bridge =>
      obtain rfl : bridge = .str q.entryId := by simpa [hget] using hbridge
      simp [hx q.entryId (by simp [hlast])]

/-- A replacement extends the prefix that it replaces the rest of, whether the prefix ends in the
conversation, is inherited, or is empty. -/
theorem shown_replaced (hinherits : ∃ above, Inherits entries parent c above)
    (hx : ∀ q, x.getLast?.map (·.entryId) = some q → Shown entries parent c (some q) x)
    (hext : Extends (fun _ => True) entries parent entries' parent')
    (hown : entries c = .ok own) (hown' : entries' c = .ok (own ++ [n]))
    (hfresh : ∀ f ∈ own, f.entryId ≠ n.entryId)
    (hparent : n.parentId =
      (x.getLast?.map (·.entryId)).filter fun id => own.any (·.entryId = id))
    (hedited : n.payload.truthy "edited_entry_id" = true)
    (hbridge : optionalTextIs n.payload "edit_parent_entry_id"
      (x.getLast?.map (·.entryId)) = true) :
    Shown entries' parent' c (some n.entryId) (x ++ [n]) := by
  cases hlocal : n.parentId with
  | some q =>
    -- the prefix ends in the conversation, and the replacement continues its local path
    rw [hparent, Option.filter_eq_some_iff] at hlocal
    have hchain : Chained (some q) [n] := by
      refine ⟨?_, trivial⟩
      rw [hparent, hlocal.1, Option.filter_some, hlocal.2]
      rfl
    refine (hx q hlocal.1).chain hext hown hown' (fun id hid => ?_) (by simp) hchain
      (by simpa using hfresh) (by simp)
    obtain rfl := Option.some.inj hid
    exact hlocal.2
  | none =>
    obtain ⟨above, habove⟩ := hinherits
    refine shown_iff.mpr ⟨above, habove.extends hext trivial, ?_⟩
    refine except_bind_eq_ok.mpr ⟨_, hown', ?_⟩
    dsimp only
    rw [if_pos (List.any_eq_true.mpr ⟨n, by simp, by simp⟩)]
    refine except_bind_eq_ok.mpr ⟨[n], localPath_root hlocal hfresh, ?_⟩
    refine except_bind_eq_ok.mpr ⟨x, inheritedPrefix_replaced hedited hbridge fun q hq => ?_, rfl⟩
    -- the prefix ends with an entry that is not local, so it is inherited
    obtain ⟨above', habove', hpath⟩ := shown_iff.mp (hx q hq)
    obtain rfl := habove'.unique habove
    obtain ⟨own', hown'', ⟨hin, -⟩ | ⟨-, hthrough⟩⟩ := extendPath_cases hpath
    · obtain rfl := Except.ok.inj (hown.symm.trans hown'')
      rw [hparent, hq, Option.filter_some, hin] at hlocal
      cases hlocal
    · exact hthrough

end Replaced

/-! ### Contexts and paths -/

namespace SqliteStore

variable {s s' : SqliteStore} {io : Responses} {id : String}

lemma resolveEntry_eq_ok {e e' : EntryDraft} (h : s.resolveEntry io e = .ok e') :
    e'.entryId = e.entryId ∧ e'.kind = e.kind ∧ e'.writer = e.writer := by
  unfold resolveEntry at h
  split at h
  · rw [Except.ok.inj h]
    exact ⟨rfl, rfl, rfl⟩
  · obtain ⟨payload, -, rfl⟩ := except_last_eq_ok.mp h
    exact ⟨rfl, rfl, rfl⟩

lemma resolve_cons_eq_ok {e : EntryDraft} {path shown : List EntryDraft} :
    s.resolveResponseEntries io (e :: path) = .ok shown ↔ ∃ e' rest,
      s.resolveEntry io e = .ok e' ∧ s.resolveResponseEntries io path = .ok rest ∧
        shown = e' :: rest := by
  rw [resolveResponseEntries, except_bind_eq_ok]
  constructor
  · rintro ⟨e', he, h⟩
    obtain ⟨rest, hrest, h⟩ := except_last_eq_ok.mp h
    exact ⟨e', rest, he, hrest, h.symm⟩
  · rintro ⟨e', rest, he, hrest, rfl⟩
    exact ⟨e', he, except_bind_eq_ok.mpr ⟨rest, hrest, rfl⟩⟩

/-- A part of what is shown stands for a part of the path. -/
lemma resolve_append_eq_ok {path before after : List EntryDraft}
    (h : s.resolveResponseEntries io path = .ok (before ++ after)) : ∃ x y, path = x ++ y ∧
      s.resolveResponseEntries io x = .ok before ∧ s.resolveResponseEntries io y = .ok after := by
  induction before generalizing path with
  | nil => exact ⟨[], path, rfl, rfl, h⟩
  | cons f before ih =>
    cases path with
    | nil => cases h
    | cons e path =>
      obtain ⟨e', rest, he, hrest, heq⟩ := resolve_cons_eq_ok.mp h
      obtain ⟨rfl, rfl⟩ := List.cons.inj heq
      obtain ⟨x, y, rfl, hx, hy⟩ := ih hrest
      exact ⟨e :: x, y, rfl, resolve_cons_eq_ok.mpr ⟨f, before, he, hx, rfl⟩, hy⟩

lemma writers_of_resolve {path shown : List EntryDraft}
    (h : s.resolveResponseEntries io path = .ok shown) : writers shown = writers path := by
  have hwriters : shown.filterMap EntryDraft.writer = path.filterMap EntryDraft.writer := by
    induction path generalizing shown with
    | nil =>
      obtain rfl := Except.ok.inj h
      rfl
    | cons e path ih =>
      obtain ⟨e', rest, he, hrest, rfl⟩ := resolve_cons_eq_ok.mp h
      rw [List.filterMap_cons, List.filterMap_cons, ih hrest, (resolveEntry_eq_ok he).2.2]
  rw [writers, writers, hwriters]

/-- An entry of a context: the path behind the head cut, split at the entry. -/
lemma context_split {before after : List EntryDraft} {e : EntryDraft}
    (h : s.context io id = .ok (before ++ e :: after)) : ∃ c raw above x f y,
      s.conversations.get? id = some c ∧ s.path id c.headEntryId = .ok raw ∧
      raw = above ++ (x ++ f :: y) ∧ applyHeadCut raw = x ++ f :: y ∧
      s.resolveResponseEntries io x = .ok before ∧ s.resolveEntry io f = .ok e ∧
      s.resolveResponseEntries io y = .ok after := by
  cases hc : s.conversations.get? id with
  | none => simp [context, head, conversation, hc, bind, Except.bind, Except.map] at h
  | some c =>
    rw [context_eq hc] at h
    obtain ⟨raw, hraw, h⟩ := except_bind_eq_ok.mp h
    obtain ⟨x, tail, hcut, hx, htail⟩ := resolve_append_eq_ok h
    cases tail with
    | nil => cases htail
    | cons f y =>
      obtain ⟨e', rest, he, hrest, heq⟩ := resolve_cons_eq_ok.mp htail
      obtain ⟨rfl, rfl⟩ := List.cons.inj heq
      obtain ⟨above, habove⟩ := applyHeadCut_suffix raw
      exact ⟨c, raw, above, x, f, y, rfl, hraw, by rw [← hcut, habove], hcut, hx, he, hrest⟩

/-- From its own leaf, an entry of a context is shown behind what stands before it. -/
theorem context_leaf (ht : Trees s) {before after : List EntryDraft} {e : EntryDraft}
    (h : s.context io id = .ok (before ++ e :: after)) :
    s.context io id (some e.entryId) = .ok (before ++ [e]) := by
  obtain ⟨c, raw, above, x, f, y, hc, hraw, -, hcut, hx, hf, -⟩ := context_split h
  have hid : s.hasConversation id = true := hasConversation_iff.mpr ⟨c, hc⟩
  obtain ⟨kept, hshown, hkept⟩ := shown_displayed (shown_of_contextPath hraw) hid hcut
  rw [(resolveEntry_eq_ok hf).1]
  refine except_bind_eq_ok.mpr ⟨_, rfl, ?_⟩
  refine except_bind_eq_ok.mpr ⟨kept, (ht.path_eq_ok hid).mpr hshown, ?_⟩
  rw [hkept]
  exact resolve_append hx (resolve_cons_eq_ok.mpr ⟨e, [], hf, rfl, rfl⟩)

variable {path : List EntryDraft}

lemma hasConversation_of_shown {leaf : Option String}
    (h : Shown s.entriesOf s.conversationParent id leaf path) : s.hasConversation id = true := by
  have hparent : ∃ r, s.conversationParent id = .ok r := by
    cases h with
    | root hroot _ => exact ⟨_, hroot⟩
    | fork hfork _ _ => exact ⟨_, hfork⟩
  obtain ⟨r, hr⟩ := hparent
  obtain ⟨c, hc, -⟩ := conversationParent_eq_ok.mp hr
  exact hasConversation_iff.mpr ⟨c, hc⟩

theorem context_leaf_commit (ht' : Trees s') {m : DurableMutation} {r : CommitResult}
    (hcommit : s.commit m = .ok (r, s')) (hkept : m.deleteConversation = false)
    {leaf : String} {shown : List EntryDraft}
    (h : s.context io id (some leaf) = .ok shown) : s'.context io id (some leaf) = .ok shown := by
  have hlater := later_of_commit hcommit hkept
  obtain ⟨_, hleaf, h⟩ := except_bind_eq_ok.mp h
  obtain rfl := Except.ok.inj hleaf
  obtain ⟨raw, hraw, h⟩ := except_bind_eq_ok.mp h
  have hid := hasConversation_of_shown (shown_of_contextPath hraw)
  have hshown := shown_commit (shown_of_contextPath hraw) hcommit (by simp [hkept])
  refine except_bind_eq_ok.mpr ⟨_, rfl, except_bind_eq_ok.mpr ⟨raw, ?_, hlater.resolve h⟩⟩
  exact (ht'.path_eq_ok (hlater.hasConversation hid)).mpr hshown

/-! ### Committed edits -/

/-- What the check of an edit finds of an entry that is on the path once. -/
lemma editParent_eq_ok {before after : List EntryDraft} {e : EntryDraft} {busy : Bool}
    {parent : Option String} {replaced : List String}
    (hnodup : ((before ++ e :: after).map (·.entryId)).Nodup)
    (h : editParent (some e.entryId) (before ++ e :: after) busy = .ok (parent, replaced)) :
    e.kind = "user_message" ∧ parent = before.getLast?.map (·.entryId) ∧
      replaced = writers (e :: after) := by
  have hindex : (before ++ e :: after).findIdx
      (fun f => decide (some f.entryId = some e.entryId)) = before.length := by
    have hbefore : ∀ f ∈ before, f.entryId ≠ e.entryId := by
      intro f hf
      rw [List.map_append, List.nodup_append] at hnodup
      exact hnodup.2.2 _ (List.mem_map_of_mem hf) _ (by simp)
    rw [List.findIdx_append, if_neg, List.findIdx_cons]
    · simp
    · rw [List.findIdx_lt_length]
      simpa using hbefore
  unfold editParent at h
  simp only [except_seq_eq_ok, hindex] at h
  obtain ⟨-, h⟩ := h
  rw [List.getElem?_append_right le_rfl, Nat.sub_self, List.getElem?_cons_zero] at h
  simp only [except_seq_eq_ok, require_eq_ok, decide_eq_true_eq] at h
  obtain ⟨hkind, h⟩ := h
  obtain ⟨rfl, rfl⟩ := Prod.mk.inj (Except.ok.inj h)
  exact ⟨hkind, by simp, by simp⟩

variable {m : DurableMutation}

lemma entries_of_edit {edited : String} (h : m.editedEntryId = some edited) :
    edited ≠ "" ∧ m.createConversation = none ∧ m.branchEntryId = none ∧
      m.deleteConversation = false ∧ (∃ d, m.submission = some d) ∧
      ∃ n, m.entries = [n] ∧ n.kind = "user_message" := by
  obtain ⟨-, hedit, -⟩ := m.checked
  simp only [MutationData.validateEdit, h, require_eq_ok, Bool.and_eq_true, decide_eq_true_eq,
    Option.isNone_iff_eq_none, Bool.not_eq_true', List.all_eq_true] at hedit
  obtain ⟨⟨⟨⟨⟨⟨⟨⟨hne, hbranch⟩, hcreate⟩, hdelete⟩, hone⟩, hkind⟩, hsubmission⟩, -⟩, -⟩ := hedit
  obtain ⟨n, hn⟩ := List.length_eq_one_iff.mp hone
  exact ⟨hne, hcreate, hbranch, hdelete, Option.isSome_iff_exists.mp hsubmission, n, hn,
    hkind n (by simp [hn])⟩

/-- An entry of a path is local when an entry of the conversation has its id. -/
lemma local_on_path {leaf : Option String} {q : EntryDraft}
    (h : Shown s.entriesOf s.conversationParent id leaf path) (hq : q ∈ path) :
    (path.any fun e => e.conversationId = id && e.entryId = q.entryId) =
      (s.entries.rows.filter (·.conversationId = id)).any (·.entryId = q.entryId) := by
  rw [Bool.eq_iff_iff]
  simp only [List.any_eq_true, List.mem_filter, Bool.and_eq_true, decide_eq_true_eq]
  constructor
  · rintro ⟨e, he, hconv, hsame⟩
    exact ⟨e, ⟨stored_of_shown h e he, hconv⟩, hsame⟩
  · rintro ⟨e, ⟨he, hconv⟩, hsame⟩
    have hget := Table.mem_rows_iff.mp he
    rw [hsame, Table.mem_rows_iff.mp (stored_of_shown h q hq)] at hget
    obtain rfl := Option.some.inj hget
    exact ⟨q, hq, hconv, rfl⟩

/-- What an edit leaves: the replacement input behind the prefix that is kept. -/
structure Edited (s : SqliteStore) (m : DurableMutation) (x y : List EntryDraft) (f : EntryDraft)
    (s' : SqliteStore) (n : EntryDraft) : Prop where
  entries : m.entries = [n]
  input : n.kind = "user_message"
  kept : m.deleteConversation = false
  kind : f.kind = "user_message"
  replaced : m.replacedRunIds = writers (f :: y)
  bridge : optionalTextIs n.payload "edit_parent_entry_id" (x.getLast?.map (·.entryId)) = true
  fresh : ∀ e ∈ s.entries.rows, e.entryId ≠ n.entryId
  head : ∃ c, s'.conversations.get? m.conversationId = some c ∧ c.headEntryId = some n.entryId
  shown : Shown s'.entriesOf s'.conversationParent m.conversationId (some n.entryId)
    (x ++ [entryRow m.toMutationData (s.sequence + 1) n])

lemma edited_of_commit (ht : Trees s) {r : CommitResult} {c : ConversationRow}
    {x y : List EntryDraft} {f : EntryDraft} (hc : s.conversations.get? m.conversationId = some c)
    (hraw : s.path m.conversationId c.headEntryId = .ok (x ++ f :: y))
    (hedit : m.editedEntryId = some f.entryId) (hcommit : s.commit m = .ok (r, s')) (hne : s' ≠ s) :
    ∃ n, Edited s m x y f s' n := by
  obtain ⟨hnamed, hcreate, hbranch, hkept, -, n, hn, hnkind⟩ := entries_of_edit hedit
  rcases commit_writes hcommit with ⟨-, rfl⟩ | ⟨hdelete, -⟩ | ⟨-, -, s₀, c₀, hw, -⟩
  · exact absurd rfl hne
  · rw [hkept] at hdelete
    cases hdelete
  obtain rfl : s = s₀ := by
    rcases create_cases hw.created with ⟨-, heq⟩ | ⟨creation, hsome, -⟩
    · exact heq.symm
    · rw [hcreate] at hsome
      cases hsome
  obtain rfl := Option.some.inj (hc.symm.trans hw.row)
  have hshown := shown_of_contextPath hraw
  obtain ⟨parent, hparent, hchain⟩ := hw.chained
  obtain ⟨hnone, -⟩ | ⟨-, path, busy, hpath, hvalid⟩ := entryParent_eq_ok hparent
  · rw [hedit] at hnone
    cases hnone
  obtain rfl := Except.ok.inj (hraw.symm.trans hpath)
  obtain ⟨⟨edited, replaced⟩, hfound, hvalid⟩ := except_bind_eq_ok.mp hvalid
  rw [hedit] at hfound
  obtain ⟨hkind, rfl, rfl⟩ := editParent_eq_ok (nodup_of_shown hshown) hfound
  simp only [except_seq_eq_ok, require_eq_ok, hn, List.head?_cons, Option.all_some, hedit,
    decide_eq_true_eq] at hvalid
  obtain ⟨hreplaced, hsource, hbridge, hlocal⟩ := hvalid
  obtain rfl := Except.ok.inj hlocal
  simp only [hn, validateEntries, except_seq_eq_ok, require_eq_ok, decide_eq_true_eq] at hchain
  have hfresh : ∀ e ∈ s.entries.rows, e.entryId ≠ n.entryId := fun e he =>
    hw.fresh (e := n) (by simp [hn]) he
  have hid : s.hasConversation m.conversationId = true := hasConversation_iff.mpr ⟨c, hc⟩
  have hhead : s'.conversations.get? m.conversationId =
      some (nextConversation m.toMutationData c) := by
    rw [hw.get?_conversations, if_pos rfl]
  refine ⟨n, hn, hnkind, hkept, hkind, hreplaced, hbridge, hfresh, ⟨_, hhead, ?_⟩, ?_⟩
  · simp [nextConversation, hbranch, hn]
  · have hx : ∀ q, x.getLast?.map (·.entryId) = some q →
        Shown s.entriesOf s.conversationParent m.conversationId (some q) x := by
      intro q hq
      obtain ⟨e, he, rfl⟩ := Option.map_eq_some_iff.mp hq
      obtain ⟨before, rfl⟩ := List.getLast?_eq_some_iff.mp he
      have hsplit : before ++ [e] ++ f :: y = before ++ e :: (f :: y) := by simp
      rw [hsplit] at hshown
      exact shown_through hshown hid (pathThrough_of_nodup (nodup_of_shown hshown))
    have hown : s.entriesOf m.conversationId =
        .ok (s.entries.rows.filter (·.conversationId = m.conversationId)) :=
      entriesOf_eq_ok.mpr ⟨hid, rfl⟩
    change Shown _ _ _ (some (entryRow m.toMutationData (s.sequence + 1) n).entryId) _
    refine shown_replaced ?_ hx hw.extension hown ?_ ?_ ?_ ?_ hbridge
    · obtain ⟨above, habove, -⟩ := shown_iff.mp hshown
      exact ⟨above, habove⟩
    · refine entriesOf_eq_ok.mpr ⟨hasConversation_iff.mpr ⟨_, hhead⟩, ?_⟩
      have hconv : n.conversationId = m.conversationId := conversationId_of_entry m (by simp [hn])
      rw [hw.rows, List.filter_append, hn]
      simp [entryRow, hconv]
    · intro e he
      exact hfresh e (List.mem_filter.mp he).1
    · change n.parentId = _
      rw [hchain.1]
      cases hlast : x.getLast? with
      | none => rfl
      | some q =>
        have hq := List.mem_append_left (f :: y) (List.mem_of_getLast? hlast)
        rw [Option.map_some, Option.filter_some, Option.filter_some, local_on_path hshown hq]
    · change n.payload.truthy "edited_entry_id" = true
      have hget : n.payload.get? "edited_entry_id" = some (.str f.entryId) := by
        have hsource := of_decide_eq_true hsource
        cases hget : n.payload.get? "edited_entry_id" with
        | none => simp [hget] at hsource
        | some source => simpa [hget] using hsource
      simp [Fields.truthy, hget, Json.truthy, hnamed]

/-- The context after an edit. -/
lemma Edited.context (ht' : Trees s') {above x y before : List EntryDraft} {f n : EntryDraft}
    (h : Edited s m (above ++ x) y f s' n)
    (hcut : applyHeadCut (above ++ x ++ f :: y) = x ++ f :: y)
    (hbefore : s'.resolveResponseEntries io x = .ok before) (hplain : marker n = false)
    (hfirst : x = [] → above = []) : s'.context io m.conversationId =
      .ok (before ++ [entryRow m.toMutationData (s.sequence + 1) n]) := by
  obtain ⟨c, hc, hhead⟩ := h.head
  have hpath := (ht'.path_eq_ok (hasConversation_iff.mpr ⟨c, hc⟩)).mpr h.shown
  have hplain' : marker (entryRow m.toMutationData (s.sequence + 1) n) = false := hplain
  have hkept : applyHeadCut (above ++ x) = x := by
    by_cases hnil : x = []
    · rw [hfirst hnil, hnil]
      rfl
    · exact applyHeadCut_front hnil hcut
  have hplainRef : responseRef (entryRow m.toMutationData (s.sequence + 1) n) = none := by
    have hkind : (entryRow m.toMutationData (s.sequence + 1) n).kind = "user_message" := h.input
    simp [responseRef, hkind]
  rw [context_eq hc, hhead]
  refine except_bind_eq_ok.mpr ⟨_, hpath, ?_⟩
  rw [applyHeadCut_snoc, hkept, grow, hplain']
  refine resolve_append hbefore (resolve_cons_eq_ok.mpr ⟨_, [], ?_, rfl, rfl⟩)
  rw [resolveEntry, hplainRef]

/-! ### Later commits -/

/-- The path of a conversation from its head, with what a head marker cuts off. -/
def branch (s : SqliteStore) (id : String) : Except Error (List EntryDraft) := do
  let (leaf, _) ← s.head id
  s.path id leaf

lemma branch_eq_ok : s.branch id = .ok path ↔
    ∃ c, s.conversations.get? id = some c ∧ s.path id c.headEntryId = .ok path := by
  unfold branch head conversation
  cases s.conversations.get? id with
  | none => simp [bind, Except.bind]
  | some c => simp [bind, Except.bind, pure, Except.pure]

/-- No path through the replacement input leads through an entry that it has replaced. -/
theorem Edited.apart {r : CommitResult} {x y : List EntryDraft}
    {f n : EntryDraft} (h : Edited s m x y f s' n) {leaf leaf₁ : Option String}
    (hold : Shown s.entriesOf s.conversationParent m.conversationId leaf (x ++ f :: y))
    (hcommit : s.commit m = .ok (r, s')) {s₁ : SqliteStore}
    (hrun : CommitRun (Spared m.conversationId) s' s₁) {path : List EntryDraft}
    (hpath : Shown s₁.entriesOf s₁.conversationParent m.conversationId leaf₁ path)
    (hnew : ∃ e ∈ path, e.entryId = n.entryId) {g : EntryDraft} (hg : g ∈ f :: y) :
    ∀ e ∈ path, e.entryId ≠ g.entryId := by
  intro e he hsame
  obtain ⟨b, a, hsplit⟩ := List.append_of_mem hg
  have hid := hasConversation_of_shown hpath
  have hfull := hold
  rw [hsplit, ← List.append_assoc] at hold
  have hleaf := shown_through hold (hasConversation_of_shown hold)
    (pathThrough_of_nodup (nodup_of_shown hold))
  have hleaf := shown_run hrun (shown_commit hleaf hcommit (by simp [h.kept]))
  have hinput := shown_run hrun h.shown
  obtain ⟨k, hk⟩ := exists_pathThrough hnew
  obtain ⟨k', hk'⟩ := exists_pathThrough ⟨e, he, hsame⟩
  obtain rfl := (shown_through hpath hid hk).unique hinput
  obtain rfl := (shown_through hpath hid hk').unique hleaf
  -- the replacement input and a replaced entry would stand in the same place
  have hmem : entryRow m.toMutationData (s.sequence + 1) n ∈ f :: y := by
    have hfirst : ∀ z, x ++ [z] <+: x ++ (b ++ [g]) → z ∈ f :: y := by
      intro z hz
      obtain ⟨rest, hrest⟩ := (List.prefix_append_right_inj x).mp hz
      have hz' : z ∈ b ++ [g] := by
        rw [← hrest]
        simp
      rw [hsplit]
      rcases List.mem_append.mp hz' with hz' | hz'
      · exact List.mem_append_left _ hz'
      · obtain rfl := List.mem_singleton.mp hz'
        simp
    rw [List.append_assoc] at hk'
    rcases List.prefix_or_prefix_of_prefix (pathThrough_eq_some hk).1
      (pathThrough_eq_some hk').1 with hpre | hpre
    · exact hfirst _ hpre
    · have hb : b ++ [g] <+: [entryRow m.toMutationData (s.sequence + 1) n] :=
        (List.prefix_append_right_inj x).mp hpre
      obtain ⟨rest, hrest⟩ := hb
      cases b with
      | nil =>
        obtain ⟨rfl, -⟩ := List.cons.inj hrest
        exact hg
      | cons d b =>
        have hlength := congrArg List.length hrest
        simp at hlength
  exact h.fresh _ (stored_of_shown hfull _ (List.mem_append_right x hmem)) rfl

/-- A stored task whose input is off the path of a conversation appends nothing to it. -/
theorem late_writer_refused {r : CommitResult} {path : List EntryDraft}
    (hbranch : s.branch m.conversationId = .ok path) {t : TaskCheckpoint} {source : String}
    (ht : s.tasks.get? t.taskId = some t)
    (hsource : t.state.get? "input_entry_id" = some (.str source)) (hnamed : source ≠ "")
    (hoff : ∀ e ∈ path, e.entryId ≠ source) (hown : m.EditsOwn) {e : EntryDraft}
    (he : e ∈ m.entries) (hwriter : e.writer = some t.taskId)
    (hcommit : s.commit m = .ok (r, s')) : s' = s := by
  obtain ⟨c, hc, hpath⟩ := branch_eq_ok.mp hbranch
  rcases commit_writes hcommit with ⟨-, heq⟩ | ⟨hdelete, -⟩ | ⟨hkept, hfound, s₀, c₀, hw, -⟩
  · exact heq
  · obtain ⟨-, -, hvalid, -⟩ := m.checked
    simp only [MutationData.validateConversation, except_seq_eq_ok, require_eq_ok, hdelete] at hvalid
    simp [MutationData.conversationOnly] at hvalid
    simp [hvalid.2.1.1.1] at he
  exfalso
  obtain ⟨hcreate, rfl⟩ : m.createConversation = none ∧ s = s₀ := by
    rcases create_cases hw.created with ⟨hcreate, heq⟩ | ⟨_, -, hnone, -⟩
    · exact ⟨hcreate, heq.symm⟩
    · rw [hnone] at hc
      cases hc
  obtain rfl := Option.some.inj (hc.symm.trans hw.row)
  cases hedit : m.editedEntryId with
  | some edited =>
    obtain ⟨task, htask, hrevision, hwriter'⟩ := hown (by simp [hedit]) e he
    have hsame : t.taskId = task.taskId := Option.some.inj (hwriter.symm.trans hwriter')
    obtain ⟨-, -, -, -, ⟨d, hd⟩, -⟩ := entries_of_edit hedit
    have hnew := new_of_admission hd htask hrevision hkept (hd ▸ hfound) hcommit
    rw [← hsame, ht] at hnew
    cases hnew
  | none =>
    obtain ⟨parent, hparent, -⟩ := hw.chained
    have howner : t ∈ s.entryOwners m.toMutationData := by
      refine List.mem_filter.mpr ⟨Table.mem_of_get? ht, ?_⟩
      exact List.any_eq_true.mpr ⟨e, he, by simp [hwriter]⟩
    have howners : (s.entryOwners m.toMutationData).isEmpty = false :=
      List.isEmpty_eq_false_iff.mpr (List.ne_nil_of_mem howner)
    have hentries : m.entries.isEmpty = false :=
      List.isEmpty_eq_false_iff.mpr (List.ne_nil_of_mem he)
    unfold entryParent at hparent
    simp only [hentries, hedit, hcreate, howners, Bool.not_false, Option.isNone_none,
      Bool.and_true, if_true] at hparent
    obtain ⟨path', hpath', hparent⟩ := except_bind_eq_ok.mp hparent
    obtain rfl := Except.ok.inj (hpath.symm.trans hpath')
    obtain ⟨hvalid, -⟩ := except_seq_eq_ok.mp hparent
    have hchecked := checkAll_eq_ok.mp hvalid t howner
    have hwrites : m.entries.any (·.writer = some t.taskId) = true :=
      List.any_eq_true.mpr ⟨e, he, by simp [hwriter]⟩
    simp [hwrites, Fields.truthy, hsource, Json.truthy, hnamed, Json.str?] at hchecked
    obtain ⟨g, hg, hid⟩ := hchecked
    exact hoff g hg hid

end SqliteStore

end Codey
