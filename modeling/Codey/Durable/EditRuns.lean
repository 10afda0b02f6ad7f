import Mathlib.Data.List.Dedup
import Codey.Durable.Edits
import Codey.Lib.Stops

/-!
# Runs that edit a message

What a call of `admit_input` that edits a message has done when its commit succeeds, and what the
runs that it has replaced can still append.
-/

namespace Codey

/-! ### Writers -/

lemma mem_writers {entries : List EntryDraft} {run : String} :
    run ∈ writers entries ↔ ∃ e ∈ entries, e.writer = some run := by
  rw [writers, List.mem_insertionSort, List.mem_dedup, List.mem_filterMap]

/-! ### Runs of the operation -/

/-- The metadata of a message does not mark a head. -/
lemma messageMetadata_eq_ok {content metadata : Fields}
    (h : messageMetadata content = .ok metadata) : metadata.get? "head_marker" = none := by
  unfold messageMetadata at h
  split at h
  · obtain ⟨-, h⟩ := except_seq_eq_ok.mp h
    have hkeys : ∃ (attachments : Option (List Json)) (reply : Option String)
        (source : Option Fields), metadata =
          (attachments.map fun items => ("attachments", Json.arr items)).toList
            ++ (reply.map fun reply => ("in_reply_to_run_id", Json.str reply)).toList
            ++ (source.map fun source => ("source", Json.obj source)).toList := by
      dsimp only at h
      split at h
      all_goals obtain ⟨attachments, -, h⟩ := except_bind_eq_ok.mp h
      all_goals split at h
      all_goals obtain ⟨source, -, h⟩ := except_bind_eq_ok.mp h
      all_goals split at h
      all_goals try obtain ⟨-, h⟩ := except_seq_eq_ok.mp h
      all_goals obtain ⟨reply, -, h⟩ := except_last_eq_ok.mp h
      all_goals exact ⟨attachments, reply, source, h.symm⟩
    obtain ⟨attachments, reply, source, rfl⟩ := hkeys
    cases attachments <;> cases source <;> cases reply <;> simp
  · cases h

namespace Session

open Prog

variable {c : Session} {io : Responses} {a : Admission} {edit : Fields} {w w' : World}
  {r : CommitResult}

variable {m : DurableMutation}

/-- A commit that succeeds is a commit of the store, fenced or not. -/
lemma run_commit_eq_ok (happroval : m.approval = none) (h : (c.commit m).run w = (.ok r, w')) :
    ∃ m',
      (m' = m ∨ ∃ t token, m.task = some t ∧ m' = withToken m token) ∧
      w.store.commit m' = .ok (r, w'.store) := by
  unfold commit materialize at h
  rw [happroval] at h
  obtain ⟨_, -, h⟩ := run_readE_bind_eq_ok.mp h
  obtain ⟨m', hfence, hfenced⟩ := run_fence c m w
  change ((c.fence m).bind c.storeCommit).run w = _ at h
  rw [Prog.run_bind_ok hfence] at h
  exact ⟨m', hfenced, (run_storeCommit_eq_ok h).1⟩

variable {prepared : InputEdit}

/-- What `prepare_edit` has found. -/
lemma run_prepareEdit_eq_ok {revision : Nat}
    (h : (prepareEdit io a edit revision).run w = (.ok prepared, w')) :
    w' = w ∧ a.toolEntries = [] ∧ a.placement = .placed ∧ prepared.entryId = editedId edit ∧
      ∃ path busy, w.store.context io a.conversationId = .ok path ∧
        editParent (some (editedId edit)) path busy =
          .ok (prepared.parent, prepared.replacedRunIds) := by
  obtain ⟨_, -, h⟩ := run_ofExcept_bind_eq_ok.mp h
  obtain ⟨_, t, hread, h⟩ := run_bind_eq_ok.mp h
  rw [run_look] at hread
  obtain ⟨-, rfl⟩ := Prod.mk.inj hread
  obtain ⟨_, -, h⟩ := run_ofExcept_bind_eq_ok.mp h
  obtain ⟨_, hplaced, h⟩ := run_ofExcept_bind_eq_ok.mp h
  obtain ⟨path, hpath, h⟩ := run_readE_bind_eq_ok.mp h
  obtain ⟨pending, t, hread, h⟩ := run_bind_eq_ok.mp h
  rw [run_look] at hread
  obtain ⟨-, rfl⟩ := Prod.mk.inj hread
  obtain ⟨⟨parent, replaced⟩, hparent, h⟩ := run_ofExcept_bind_eq_ok.mp h
  obtain ⟨own, -, h⟩ := run_readE_bind_eq_ok.mp h
  obtain ⟨hprepared, rfl⟩ := Prod.mk.inj h
  obtain rfl := Except.ok.inj hprepared
  simp only [require_eq_ok, Bool.and_eq_true, List.isEmpty_iff, decide_eq_true_eq] at hplaced
  exact ⟨rfl, hplaced.1, hplaced.2, rfl, path, _, hpath, hparent⟩

/-- What the mutation of a replacement input consists of. -/
structure Replacement (a : Admission) (prepared : InputEdit) (m : DurableMutation)
    (n : EntryDraft) : Prop where
  conversation : m.conversationId = a.conversationId
  edited : m.editedEntryId = some prepared.entryId
  replaced : m.replacedRunIds = prepared.replacedRunIds
  approval : m.approval = none
  entries : m.entries = [n]
  id : n.entryId = a.entryId
  writer : n.byTaskId = some a.taskId
  payload : n.payload = (Fields.merge [("text", .str a.text)] a.metadata).merge
    [("edited_entry_id", .str prepared.entryId),
      ("edit_parent_entry_id", optionalStr prepared.parent)]
  own : m.EditsOwn

lemma replacement_of_inputMutation {seen : Option String × Nat × Option CreateConversation}
    (htools : a.toolEntries = []) (hplaced : a.placement = .placed)
    (h : c.inputMutation { a with edit := some prepared } seen = .ok m) :
    ∃ n, Replacement a prepared m n := by
  obtain ⟨head, revision, creation⟩ := seen
  simp only [inputMutation, except_bind_eq_ok, htools, List.nil_append] at h
  obtain ⟨-, -, entry, hentry, d, -, t, ht, hm⟩ := h
  rw [DurableMutation.make_eq_ok] at hm
  rw [TaskCheckpoint.make_eq_ok] at ht
  unfold inputEntry at hentry
  rw [if_pos hplaced] at hentry
  obtain ⟨n, hn, rfl⟩ := except_last_eq_ok.mp hentry
  unfold EntryDraft.make at hn
  split_ifs at hn
  obtain rfl := Except.ok.inj hn
  refine ⟨_, ⟨by rw [hm], by rw [hm]; rfl, by rw [hm]; rfl, by rw [hm], by rw [hm]; rfl, rfl, rfl,
    by simp, fun _ e he => ?_⟩⟩
  rw [hm] at he ⊢
  obtain rfl := List.mem_singleton.mp he
  have hnamed : a.taskId ≠ "" := by
    have htask := t.checked.1.1
    rwa [ht] at htask
  exact ⟨t, rfl, by rw [ht], by simp [EntryDraft.writer, hnamed, ht]⟩

/-- What a call that edits has committed. -/
lemma run_admitEdit_eq_ok (h : (c.admitEdit io a edit).run w = (.ok r, w'))
    (hne : w'.store ≠ w.store) : ∃ path busy prepared m n,
      w.store.context io a.conversationId = .ok path ∧
      editParent (some (editedId edit)) path busy =
        .ok (prepared.parent, prepared.replacedRunIds) ∧ prepared.entryId = editedId edit ∧
      w.store.commit m = .ok (r, w'.store) ∧ ∃ metadata,
        messageMetadata a.taskState = .ok metadata ∧
        Replacement { a with metadata } prepared m n := by
  obtain ⟨_, -, h⟩ := run_readE_bind_eq_ok.mp h
  obtain ⟨a', ha', h⟩ := run_ofExcept_bind_eq_ok.mp h
  obtain ⟨-, ha'⟩ := except_seq_eq_ok.mp ha'
  obtain ⟨metadata, hmetadata, ha'⟩ := except_bind_eq_ok.mp ha'
  obtain ⟨-, ha'⟩ := except_seq_eq_ok.mp ha'
  obtain rfl := Except.ok.inj ha'
  obtain ⟨_, t, howner, h⟩ := run_bind_eq_ok.mp h
  rcases run_ensureOwner a.ownerTaskId w with hrun | ⟨e, hrun⟩
  swap
  · rw [hrun] at howner
    cases howner
  rw [hrun] at howner
  obtain ⟨-, rfl⟩ := Prod.mk.inj howner
  obtain ⟨_, -, h⟩ := run_ofExcept_bind_eq_ok.mp h
  obtain ⟨seen, t, hseen, h⟩ := run_bind_eq_ok.mp h
  rw [run_readHead] at hseen
  obtain ⟨-, rfl⟩ := Prod.mk.inj hseen
  obtain ⟨existing, t, hexisting, h⟩ := run_bind_eq_ok.mp h
  obtain ⟨-, rfl⟩ := run_readE_eq_ok.mp hexisting
  cases existing with
  | some result =>
    obtain ⟨-, rfl⟩ := Prod.mk.inj h
    exact absurd rfl hne
  | none =>
    dsimp only at h
    obtain ⟨prepared, t, hprepared, hrest⟩ := run_bind_eq_ok.mp h
    obtain ⟨rfl, htools, hplaced, hid, path, busy, hpath, hparent⟩ :=
      run_prepareEdit_eq_ok hprepared
    obtain ⟨m, hm, hrest⟩ := run_ofExcept_bind_eq_ok.mp hrest
    obtain ⟨n, hn⟩ := replacement_of_inputMutation htools hplaced hm
    obtain ⟨m', hfenced, hcommit⟩ := run_commit_eq_ok hn.approval hrest
    refine ⟨path, busy, prepared, m', n, hpath, hparent, hid, hcommit, metadata, hmetadata, ?_⟩
    rcases hfenced with rfl | ⟨_, token, -, rfl⟩
    · exact hn
    · exact ⟨hn.conversation, hn.edited, hn.replaced, hn.approval, hn.entries, hn.id, hn.writer,
        hn.payload, hn.own⟩

lemma Replacement.plain {n : EntryDraft} (h : Replacement a prepared m n)
    (hmetadata : a.metadata.get? "head_marker" = none) : marker n = false := by
  have hget : n.payload.get? "head_marker" = none := by
    rw [h.payload]
    simp [hmetadata]
  rw [marker, hget]
  rfl

lemma Replacement.first {n : EntryDraft} (h : Replacement a prepared m n)
    (hnone : prepared.parent = none) {last : Option String}
    (hbridge : optionalTextIs n.payload "edit_parent_entry_id" last = true) : last = none := by
  have hget : n.payload.get? "edit_parent_entry_id" = some .null := by
    rw [h.payload, hnone]
    simp [optionalStr]
  have hbridge := of_decide_eq_true hbridge
  rw [hget] at hbridge
  cases last with
  | none => rfl
  | some q => cases hbridge

/-- The context that an edit has found, and what it has written. -/
structure Edits (a : Admission) (io : Responses) (w w' : World) (p rest : List EntryDraft)
    (e : EntryDraft) (r : CommitResult) (m : DurableMutation) (n : EntryDraft) : Prop where
  conversation : m.conversationId = a.conversationId
  trees : w.store.Trees
  trees' : w'.store.Trees
  committed : w.store.commit m = .ok (r, w'.store)
  id : n.entryId = a.entryId
  writer : n.writer = some a.taskId
  own : m.EditsOwn
  found : ∃ c above x f y, w.store.path m.conversationId c = .ok ((above ++ x) ++ f :: y) ∧
    w.store.resolveResponseEntries io (f :: y) = .ok (e :: rest) ∧
    SqliteStore.Edited w.store m (above ++ x) y f w'.store n
  context : w'.store.context io a.conversationId =
    .ok (p ++ [SqliteStore.entryRow m.toMutationData (w.store.sequence + 1) n])

/-- What a call has done that edits an entry of the context. -/
lemma edits_of_run {p rest : List EntryDraft} {e : EntryDraft}
    (hreach : CommitRun SqliteStore.Rooted {} w.store)
    (hshown : w.store.context io a.conversationId = .ok (p ++ e :: rest))
    (hedited : editedId edit = e.entryId)
    (hrun : (c.admitEdit io a edit).run w = (.ok r, w')) (hne : w'.store ≠ w.store) :
    ∃ m n, Edits a io w w' p rest e r m n := by
  obtain ⟨path, busy, prepared, m, n, hpath, hparent, hid, hcommit, metadata, hmetadata, hn⟩ :=
    run_admitEdit_eq_ok hrun hne
  obtain rfl := Except.ok.inj (hshown.symm.trans hpath)
  have hconv : m.conversationId = a.conversationId := hn.conversation
  have ht : w.store.Trees := hreach.trees fun _ h => h
  obtain ⟨c₀, raw, above, x, f, y, hc, hraw, hsplit, hcut, hx, hf, hy⟩ :=
    SqliteStore.context_split hshown
  obtain ⟨hfid, -, -⟩ := SqliteStore.resolveEntry_eq_ok hf
  have hedit : m.editedEntryId = some f.entryId := by rw [hn.edited, hid, hedited, hfid]
  rw [hsplit, ← List.append_assoc] at hraw hcut
  rw [← hconv] at hc hraw
  obtain ⟨n', h⟩ := SqliteStore.edited_of_commit ht hc hraw hedit hcommit hne
  obtain rfl : n' = n := by
    have hentries := h.entries
    rw [hn.entries] at hentries
    exact (List.cons.inj hentries).1.symm
  have ht' : w'.store.Trees := by
    refine ht.commit hcommit fun creation hcreation => ?_
    rw [(SqliteStore.entries_of_edit hedit).2.1] at hcreation
    cases hcreation
  have hids : (p ++ e :: rest).map (·.entryId) = (x ++ f :: y).map (·.entryId) := by
    simp only [List.map_append, List.map_cons, SqliteStore.entryIds_of_resolve hx,
      SqliteStore.entryIds_of_resolve hy, hfid]
  have hnodup : ((p ++ e :: rest).map (·.entryId)).Nodup := by
    have hraw := SqliteStore.nodup_of_shown (shown_of_contextPath hraw)
    rw [List.append_assoc, List.map_append] at hraw
    rw [hids]
    exact hraw.of_append_right
  rw [hedited] at hparent
  obtain ⟨-, hprefix, -⟩ := SqliteStore.editParent_eq_ok hnodup hparent
  -- An entry that is first behind the head cut has to be first on the path.
  have hfirst : x = [] → above = [] := by
    rintro rfl
    obtain rfl := Except.ok.inj hx
    have hlast := hn.first hprefix h.bridge
    rw [List.append_nil] at hlast
    exact List.getLast?_eq_none_iff.mp (Option.map_eq_none_iff.mp hlast)
  have hlater := SqliteStore.later_of_commit hcommit h.kept
  have hcontext := h.context ht' hcut (hlater.resolve hx)
    (hn.plain (messageMetadata_eq_ok hmetadata)) hfirst
  rw [hconv] at hcontext
  have hwriter : n'.writer = some a.taskId := by
    obtain ⟨task, -, -, hwriter⟩ := hn.own (by simp [hedit]) n' (by simp [hn.entries])
    obtain ⟨hby, -⟩ := Option.filter_eq_some_iff.mp hwriter
    rw [hn.writer] at hby
    rw [hwriter, ← hby]
  have htail : w.store.resolveResponseEntries io (f :: y) = .ok (e :: rest) :=
    SqliteStore.resolve_cons_eq_ok.mpr ⟨e, rest, hf, hy, rfl⟩
  exact ⟨m, n', hconv, ht, ht', hcommit, hn.id, hwriter, hn.own,
    ⟨c₀.headEntryId, above, x, f, y, hraw, htail, h⟩, hcontext⟩

section Edits

variable {p rest : List EntryDraft} {e : EntryDraft} {m : DurableMutation} {n : EntryDraft}

lemma Edits.replaced (h : Edits a io w w' p rest e r m n) (run : String) :
    run ∈ m.replacedRunIds ↔ ∃ x ∈ e :: rest, x.writer = some run := by
  obtain ⟨_, above, x, f, y, -, htail, hedited⟩ := h.found
  rw [hedited.replaced, ← SqliteStore.writers_of_resolve htail, mem_writers]

/-- As long as the branch of the new input is the active one, no run whose own input was replaced
appends to it. -/
lemma Edits.late (h : Edits a io w w' p rest e r m n) {s s' : SqliteStore}
    {path : List EntryDraft} {t : TaskCheckpoint} {x y : EntryDraft} {late : DurableMutation}
    {r' : CommitResult} (hrun : CommitRun (Spared a.conversationId) w'.store s)
    (hbranch : s.branch a.conversationId = .ok path) (hnew : ∃ z ∈ path, z.entryId = n.entryId)
    (hx : x ∈ e :: rest) (ht : s.tasks.get? t.taskId = some t)
    (hsource : t.state.get? "input_entry_id" = some (.str x.entryId))
    (hconv : late.conversationId = a.conversationId) (hown : late.EditsOwn)
    (hy : y ∈ late.entries) (hwriter : y.writer = some t.taskId)
    (hcommit : s.commit late = .ok (r', s')) : s' = s := by
  obtain ⟨_, above, x', f, tail, hraw, htail, hedited⟩ := h.found
  obtain ⟨c, -, hpath⟩ := SqliteStore.branch_eq_ok.mp hbranch
  obtain ⟨g, hg, hid⟩ : ∃ g ∈ f :: tail, g.entryId = x.entryId := by
    have hmem := List.mem_map_of_mem (f := EntryDraft.entryId) hx
    rw [SqliteStore.entryIds_of_resolve htail] at hmem
    exact List.mem_map.mp hmem
  rw [← h.conversation] at hrun hpath
  have hoff := hedited.apart (shown_of_contextPath hraw) h.committed hrun
    (shown_of_contextPath hpath) hnew hg
  rw [← hid] at hsource
  exact SqliteStore.late_writer_refused (hconv ▸ hbranch) ht hsource g.named.1 hoff hown hy hwriter
    hcommit

/-- When an input that edits an entry of the context commits, the context is the prefix before the
entry and the new input. The replaced runs are those that wrote the entry or what came after it.
Every leaf shows what it showed, each entry of the old context behind what stood before it. As long
as the branch of the new input is the active one, no run whose own input was replaced appends to
it. -/
theorem edit_replaces_tail (hreach : CommitRun SqliteStore.Rooted {} w.store)
    (hshown : w.store.context io a.conversationId = .ok (p ++ e :: rest))
    (hedited : editedId edit = e.entryId)
    (hrun : (c.admitEdit io a edit).run w = (.ok r, w')) (hne : w'.store ≠ w.store) :
    ∃ (n : EntryDraft) (m : DurableMutation), n.entryId = a.entryId ∧ n.kind = "user_message" ∧
      n.byTaskId = some a.taskId ∧ w'.store.context io a.conversationId = .ok (p ++ [n]) ∧
      w.store.commit m = .ok (r, w'.store) ∧
      (∀ run, run ∈ m.replacedRunIds ↔ ∃ x ∈ e :: rest, x.writer = some run) ∧
      (∀ before x after, p ++ e :: rest = before ++ x :: after →
        w'.store.context io a.conversationId (some x.entryId) = .ok (before ++ [x])) ∧
      (∀ id leaf shown, w.store.context io id (some leaf) = .ok shown →
        w'.store.context io id (some leaf) = .ok shown) ∧
      ∀ (s s' : SqliteStore) (path : List EntryDraft) (t : TaskCheckpoint) (x y : EntryDraft)
        (late : DurableMutation) (r' : CommitResult),
        CommitRun (Spared a.conversationId) w'.store s → s.branch a.conversationId = .ok path →
        (∃ z ∈ path, z.entryId = n.entryId) → x ∈ e :: rest → s.tasks.get? t.taskId = some t →
        t.state.get? "input_entry_id" = some (.str x.entryId) →
        late.conversationId = a.conversationId → late.EditsOwn → y ∈ late.entries →
        y.writer = some t.taskId → s.commit late = .ok (r', s') → s' = s := by
  obtain ⟨m, n, h⟩ := edits_of_run hreach hshown hedited hrun hne
  obtain ⟨_, above, x, f, y, -, -, hreplaced⟩ := h.found
  refine ⟨SqliteStore.entryRow m.toMutationData (w.store.sequence + 1) n, m, h.id, hreplaced.input,
    ?_, h.context, h.committed, h.replaced, ?_, ?_, ?_⟩
  · rw [SqliteStore.entryRow, h.writer, Option.some_or]
  · intro before z after heq
    rw [heq] at hshown
    exact SqliteStore.context_leaf_commit h.trees' h.committed hreplaced.kept
      (SqliteStore.context_leaf h.trees hshown)
  · intro id leaf shown
    exact SqliteStore.context_leaf_commit h.trees' h.committed hreplaced.kept
  · intro s s' path t x y late r' hrun hbranch hnew hx ht hsource hconv hown hy hwriter hcommit
    exact h.late hrun hbranch hnew hx ht hsource hconv hown hy hwriter hcommit

end Edits

end Session

/-! ### Samples -/

/-- A message of a run of its own. -/
def chatMessage (run text entryId : String) (taskState : Fields) : Admission where
  conversationId := "root"
  requestId := run
  taskId := run
  text := text
  taskState := taskState
  entryId := entryId
  submissionId := "submission-" ++ run
  fingerprint := run

def chatEdit (entryId : String) (revision : Int) : Fields :=
  [("kind", .str "edit_user_message"), ("entry_id", .str entryId),
    ("expected_revision", .int revision)]

def contextIds (w : World) : Option (List String) :=
  (w.store.context noResponses "root").toOption.map fun shown => shown.map (·.entryId)

lemma contextIds_eq_some {w : World} {ids : List String} (h : contextIds w = some ids) :
    ∃ shown, w.store.context noResponses "root" = .ok shown ∧ shown.map (·.entryId) = ids := by
  unfold contextIds at h
  cases hshown : w.store.context noResponses "root" with
  | error e => simp [hshown, Except.toOption] at h
  | ok shown =>
    rw [hshown] at h
    exact ⟨shown, rfl, Option.some.inj h⟩

/-- The world after three messages. -/
def sampleHistoryWorld : World := Pool.execute ConversationCall.prog sampleHistory { store := {} }

def sampleEdit : Op CommitResult :=
  firstSession.admitEdit noResponses (chatMessage "edit" "four" "entry-4" []) (chatEdit "entry-3" 3)

theorem edit_replaces_tail_sample : ∃ (x y z n : EntryDraft),
    sampleHistoryWorld.store.context noResponses "root" = .ok [x, y, z] ∧
    z.entryId = "entry-3" ∧ n.entryId = "entry-4" ∧
    (sampleEdit.run sampleHistoryWorld).2.store.context noResponses "root" = .ok [x, y, n] ∧
    (sampleEdit.run sampleHistoryWorld).2.store.context noResponses "root" (some "entry-3") =
      .ok [x, y, z] := by
  have hbefore : contextIds sampleHistoryWorld = some ["entry-1", "entry-2", "entry-3"] ∧
      (sampleEdit.run sampleHistoryWorld).1.toOption.isSome = true ∧
      (sampleEdit.run sampleHistoryWorld).2.store.sequence = 5 ∧
      sampleHistoryWorld.store.sequence = 4 := by
    decide +kernel
  obtain ⟨hids, hsome, hafter, hsequence⟩ := hbefore
  generalize hrun : sampleEdit.run sampleHistoryWorld = out at hsome hafter ⊢
  obtain ⟨result, w'⟩ := out
  obtain ⟨r, rfl⟩ := ok_of_isSome hsome
  unfold sampleEdit at hrun
  obtain ⟨shown, hcontext, hids⟩ := contextIds_eq_some hids
  obtain ⟨x, rest, rfl, -, hids⟩ := List.map_eq_cons_iff.mp hids
  obtain ⟨y, rest, rfl, -, hids⟩ := List.map_eq_cons_iff.mp hids
  obtain ⟨z, rest, rfl, hz, hids⟩ := List.map_eq_cons_iff.mp hids
  obtain rfl := List.map_eq_nil_iff.mp hids
  have hreach : CommitRun SqliteStore.Rooted {} sampleHistoryWorld.store :=
    ConversationCall.commitRun (fun _ _ _ hm => hm.1) .refl
  have hedited : Session.editedId (chatEdit "entry-3" 3) = z.entryId := hz.symm
  have hne : w'.store ≠ sampleHistoryWorld.store := by
    intro hsame
    rw [hsame, hsequence] at hafter
    cases hafter
  have hsplit : sampleHistoryWorld.store.context noResponses "root" = .ok ([x, y] ++ z :: []) :=
    hcontext
  obtain ⟨n, m, hn, -, -, hedited, -, -, hleaves, -⟩ :=
    Session.edit_replaces_tail hreach hsplit hedited hrun hne
  refine ⟨x, y, z, n, hcontext, hz, hn, hedited, ?_⟩
  rw [← hz]
  exact hleaves [x, y] z [] rfl

def overlapping : World :=
  (((firstSession.admitMessage noResponses (chatMessage "first" "one" "entry-1" [])).bind fun _ =>
    (firstSession.admitMessage noResponses (chatMessage "second" "two" "entry-2" [])).bind fun _ =>
    (firstSession.completeTask "first" "done" "answer-1" []).bind fun _ =>
    firstSession.completeTask "second" "done" "answer-2" []).run { store := {} }).2

def overlappingEdit : Op CommitResult :=
  firstSession.admitMessage noResponses
    (chatMessage "edit" "three" "entry-3" [("input", .obj (chatEdit "entry-2" 4))])

def overlappingLate : Op Unit :=
  firstSession.recordDisplayMessage noResponses "root" "first" "late" []

/-- The answer of the first run is replaced, but its input is not: the run is among the replaced
ones, and yet it appends to the new branch. -/
theorem edit_replaces_tail_overlapping :
    contextIds overlapping = some ["entry-1", "entry-2", "answer-1", "answer-2"] ∧
    ((Session.prepareEdit noResponses (chatMessage "edit" "three" "entry-3" [])
      (chatEdit "entry-2" 4) 4).run overlapping).1.toOption.map (·.replacedRunIds) =
        some ["first", "second"] ∧
    contextIds (overlappingEdit.run overlapping).2 = some ["entry-1", "entry-3"] ∧
    contextIds ((overlappingEdit.bind fun _ => overlappingLate).run overlapping).2 =
      some ["entry-1", "entry-3", "late"] ∧
    (((overlappingEdit.bind fun _ => overlappingLate).run overlapping).2.store.entries.get?
      "late").bind (·.byTaskId) = some "first" := by
  decide +kernel

end Codey
