import Codey.Durable.Calls
import Codey.Durable.Trees

/-!
# What forks show

Whatever commits are made, every conversation shows a path of distinct entries, and what a fork
shows does not depend on what is committed to the conversations that it was forked from.
-/

namespace Codey

namespace SqliteStore

variable {s s' : SqliteStore} {m : DurableMutation} {r : CommitResult} {c : ConversationRow}
  {id : String} {io : Responses}

/-! ### Commits -/

lemma Trees.commit (h : Trees s) (hcommit : s.commit m = .ok (r, s'))
    (hrooted : Rooted m.toMutationData) : Trees s' := by
  rcases commit_writes hcommit with ⟨-, rfl⟩ | ⟨-, -, hr⟩ | ⟨-, -, s₀, c, hw, -⟩
  · exact h
  · exact hr.trees h
  · exact hw.trees (h.create hw.created hrooted)

/-- A mutation that is not an edit names no replaced input in a new root. -/
def Unforged (m : MutationData) : Prop := m.editedEntryId = none →
  ∀ e ∈ m.entries, e.parentId = none → e.payload.truthy "edited_entry_id" = false

lemma Bridged.commit (hb : Bridged s) (h : Trees s) (hcommit : s.commit m = .ok (r, s'))
    (hrooted : Rooted m.toMutationData) (hplain : Unforged m.toMutationData) : Bridged s' := by
  rcases commit_writes hcommit with ⟨-, rfl⟩ | ⟨-, -, hr⟩ | ⟨-, -, s₀, c, hw, -⟩
  · exact hb
  · exact hr.bridged hb
  · refine hw.bridged (h.create hw.created hrooted) (fun e he hroot => ?_) hplain
    rw [create_frame hw.created] at he
    obtain ⟨above, kept, habove, hkept⟩ := hb e he hroot
    exact ⟨above, kept, habove.extends (extends_of_create hw.created) trivial, hkept⟩

lemma trees_empty : Trees {} where
  conversations := trivial
  entries := trivial
  owned e he := by cases he
  within e he := by cases he
  heads c hc := by cases hc
  started c hc := by cases hc
  inherits c hc := by cases hc

lemma bridged_empty : Bridged {} := fun e he => by cases he

/-! ### Stored references -/

def Resolves (io : Responses) (s : SqliteStore) : Prop :=
  ∀ e ∈ s.entries.rows, ∃ e', s.resolveEntry io e = .ok e'

lemma entryId_of_resolveEntry {e e' : EntryDraft} (h : s.resolveEntry io e = .ok e') :
    e'.entryId = e.entryId := by
  unfold resolveEntry at h
  split at h
  · rw [Except.ok.inj h]
  · obtain ⟨payload, -, h⟩ := except_bind_eq_ok.mp h
    rw [← Except.ok.inj h]

/-- Artifacts that are added do not change what an entry resolves to. -/
lemma resolveEntry_mono {e e' : EntryDraft} (h : s.resolveEntry io e = .ok e')
    (hkept : ∀ handle a, s.artifacts.get? handle = some a → s'.artifacts.get? handle = some a) :
    s'.resolveEntry io e = .ok e' := by
  unfold resolveEntry responseMessage at h ⊢
  split at h
  · exact h
  obtain ⟨payload, hpayload, h⟩ := except_bind_eq_ok.mp h
  refine except_bind_eq_ok.mpr ⟨payload, ?_, h⟩
  rw [except_seq_eq_ok] at hpayload ⊢
  refine ⟨hpayload.1, ?_⟩
  obtain ⟨a, ha, hrest⟩ := except_bind_eq_ok.mp hpayload.2
  refine except_bind_eq_ok.mpr ⟨a, ?_, hrest⟩
  unfold artifact at ha ⊢
  split at ha
  · rename_i row hrow
    rw [hkept _ _ hrow]
    exact ha
  · cases ha

/-- Artifacts are never replaced. -/
lemma Written.artifact_kept {s₀ : SqliteStore} (hw : Written s m s₀ c s') (handle : String)
    (a : ArtifactRecord) (ha : s.artifacts.get? handle = some a) :
    s'.artifacts.get? handle = some a := by
  have hhandles : (m.artifacts.map (·.handle)).Nodup := by
    obtain ⟨-, -, -, -, -, hvalid, -⟩ := m.checked
    simp only [MutationData.validateEffects, except_seq_eq_ok, require_eq_ok,
      decide_eq_true_eq] at hvalid
    exact hvalid.2.2.2.2.1
  rw [hw.artifacts_eq, Table.get?_foldl_put_of_notMem hhandles]
  · exact ha
  · rintro a' ha' rfl
    rw [hw.newArtifacts a' ha'] at ha
    cases ha

variable {path : List EntryDraft}

lemma resolveResponseEntries_eq_ok (s' : SqliteStore)
    (h : ∀ e ∈ path, ∃ e', s.resolveEntry io e = .ok e')
    (hsame : ∀ e ∈ path, ∀ e', s.resolveEntry io e = .ok e' → s'.resolveEntry io e = .ok e') :
    ∃ path', s.resolveResponseEntries io path = .ok path' ∧
      s'.resolveResponseEntries io path = .ok path' ∧
      path'.map (·.entryId) = path.map (·.entryId) := by
  induction path with
  | nil => exact ⟨[], rfl, rfl, rfl⟩
  | cons e path ih =>
    obtain ⟨e', he⟩ := h e (by simp)
    obtain ⟨path', h₁, h₂, hids⟩ := ih (fun f hf => h f (by simp [hf]))
      fun f hf => hsame f (by simp [hf])
    refine ⟨e' :: path', ?_, ?_, ?_⟩
    · exact except_bind_eq_ok.mpr ⟨e', he, except_bind_eq_ok.mpr ⟨path', h₁, rfl⟩⟩
    · have he' := hsame e (by simp) e' he
      exact except_bind_eq_ok.mpr ⟨e', he', except_bind_eq_ok.mpr ⟨path', h₂, rfl⟩⟩
    · rw [List.map_cons, List.map_cons, hids, entryId_of_resolveEntry he]

/-! ### Contexts -/

lemma context_eq (hc : s.conversations.get? id = some c) : s.context io id =
    (s.path id c.headEntryId >>= fun path => s.resolveResponseEntries io (applyHeadCut path)) := by
  have hhead : s.head id = .ok (c.headEntryId, c.revision) := by
    rw [head, conversation, hc]
    rfl
  rw [context, hhead]
  rfl

lemma stored_of_shown {leaf : Option String}
    (h : Shown s.entriesOf s.conversationParent id leaf path) : ∀ e ∈ path, e ∈ s.entries.rows := by
  intro e he
  obtain ⟨ids, -, hmem⟩ := h.mem
  obtain ⟨d, -, own, hown, he⟩ := hmem e he
  exact ((mem_entriesOf hown).mp he).1

lemma nodup_of_shown {leaf : Option String}
    (h : Shown s.entriesOf s.conversationParent id leaf path) : (path.map (·.entryId)).Nodup := by
  refine h.nodup (fun d own hown e he => ((mem_entriesOf hown).mp he).2) ?_
  intro d own d' own' hown hown' e he f hf heq
  have he := Table.mem_rows_iff.mp ((mem_entriesOf hown).mp he).1
  have hf := Table.mem_rows_iff.mp ((mem_entriesOf hown').mp hf).1
  rw [heq, hf] at he
  exact (Option.some.inj he).symm

/-- What `context` returns, in a store whose references can be read. -/
lemma context_shown (s' : SqliteStore) (h : Trees s) (hrefs : Resolves io s)
    (hc : s.conversations.get? id = some c)
    (hpath : Shown s.entriesOf s.conversationParent id c.headEntryId path)
    (hsame : ∀ e ∈ s.entries.rows, ∀ e', s.resolveEntry io e = .ok e' →
      s'.resolveEntry io e = .ok e') : ∃ shown, s.context io id = .ok shown ∧
      s'.resolveResponseEntries io (applyHeadCut path) = .ok shown ∧
      (shown.map (·.entryId)).Nodup := by
  have hsub : ∀ e ∈ applyHeadCut path, e ∈ s.entries.rows := fun e he =>
    stored_of_shown hpath e ((applyHeadCut_suffix path).subset he)
  obtain ⟨shown, hshown, hshown', hids⟩ := resolveResponseEntries_eq_ok s'
    (fun e he => hrefs e (hsub e he)) fun e he => hsame e (hsub e he)
  refine ⟨shown, ?_, hshown', ?_⟩
  · rw [context_eq hc]
    exact except_bind_eq_ok.mpr
      ⟨path, (h.path_eq_ok (hasConversation_iff.mpr ⟨c, hc⟩)).mpr hpath, hshown⟩
  · rw [hids]
    exact ((applyHeadCut_suffix path).map _).sublist.nodup (nodup_of_shown hpath)

/-- `context` returns distinct entries for every conversation. -/
theorem Trees.context_ok (h : Trees s) (hb : Bridged s) (hrefs : Resolves io s)
    (hid : s.hasConversation id = true) :
    ∃ path, s.context io id = .ok path ∧ (path.map (·.entryId)).Nodup := by
  obtain ⟨c, hc⟩ := hasConversation_iff.mp hid
  obtain ⟨path, hpath⟩ := h.shown_head hb (Table.mem_of_get? hc)
  rw [Table.key_of_get? hc] at hpath
  obtain ⟨shown, hshown, -, hnodup⟩ := context_shown s h hrefs hc hpath fun _ _ _ he => he
  exact ⟨shown, hshown, hnodup⟩

/-! ### Forks -/

def ForkedFrom (s : SqliteStore) (p id : String) : Prop :=
  Relation.TransGen (fun a b => s.conversations.up (·.parentConversationId) b = some a) p id

/-- A conversation was not forked from itself. -/
lemma ForkedFrom.ne {p : String} (h : ForkedFrom s p id) (ht : Trees s) : id ≠ p := by
  have hrest : ∀ l, Climb (s.conversations.up (·.parentConversationId)) id l →
      ∃ l', l = id :: l' ∧ p ∈ l' := by
    induction h with
    | single hstep =>
      intro l hl
      cases hl with
      | root hroot => rw [hroot] at hstep; cases hstep
      | step hstep' hl =>
        obtain rfl := Option.some.inj (hstep.symm.trans hstep')
        exact ⟨_, rfl, hl.mem⟩
    | tail _ hstep ih =>
      intro l hl
      cases hl with
      | root hroot => rw [hroot] at hstep; cases hstep
      | step hstep' hl =>
        obtain rfl := Option.some.inj (hstep.symm.trans hstep')
        obtain ⟨l', rfl, hp⟩ := ih _ hl
        exact ⟨_, rfl, List.mem_cons_of_mem _ hp⟩
  have hstored : s.hasConversation id = true := by
    obtain ⟨b, -, hstep⟩ := Relation.TransGen.tail'_iff.mp h
    obtain ⟨d, hd, -⟩ := Option.bind_eq_some_iff.mp hstep
    exact hasConversation_iff.mpr ⟨d, hd⟩
  obtain ⟨ids, hids, -⟩ := ht.climb hstored
  rw [forkUp_conversationParent] at hids
  obtain ⟨l', rfl, hp⟩ := hrest ids hids
  rintro rfl
  exact (List.nodup_cons.mp hids.nodup).1 hp

/-- What a fork shows does not change when something is committed to a conversation that it was
forked from. -/
theorem Trees.context_commit (h : Trees s) (hb : Bridged s) (hrefs : Resolves io s)
    (hcommit : s.commit m = .ok (r, s')) (hfork : ForkedFrom s m.conversationId id) :
    s'.context io id = s.context io id := by
  obtain ⟨child, hchild, -⟩ := Relation.TransGen.head'_iff.mp hfork
  obtain ⟨b, hb', hstep⟩ := Relation.TransGen.tail'_iff.mp hfork
  obtain ⟨d, hd, -⟩ := Option.bind_eq_some_iff.mp hstep
  rcases commit_writes hcommit with ⟨-, rfl⟩ | ⟨-, -, hr⟩ | ⟨-, -, s₀, c, hw, -⟩
  · rfl
  · obtain ⟨row, hrow, hparent⟩ := Option.bind_eq_some_iff.mp hchild
    exact absurd hparent (hr.childless row (Table.mem_of_get? hrow))
  have hexists := Table.isSome_of_up h.conversations _ _ hchild
  rcases create_cases hw.created with ⟨-, rfl⟩ | ⟨creation, -, hnone, -⟩
  swap
  · rw [hnone] at hexists
    cases hexists
  have hrow : s'.conversations.get? id = some d := by
    rw [hw.get?_conversations, if_neg (hfork.ne h).symm]
    exact hd
  obtain ⟨path, hpath⟩ := h.shown_head hb (Table.mem_of_get? hd)
  rw [Table.key_of_get? hd] at hpath
  obtain ⟨shown, hshown, hshown', -⟩ := context_shown s' h hrefs hd hpath
    fun e _ e' he => resolveEntry_mono he hw.artifact_kept
  rw [hshown, context_eq hrow]
  refine except_bind_eq_ok.mpr ⟨path, ?_, hshown'⟩
  exact ((hw.trees h).path_eq_ok (hasConversation_iff.mpr ⟨d, hrow⟩)).mpr
    (hpath.extends hw.extension trivial)

end SqliteStore

/-! ### Runs -/

inductive CommitRun (ok : MutationData → Prop) (s₀ : SqliteStore) : SqliteStore → Prop where
  | refl : CommitRun ok s₀ s₀
  | tail {s s' : SqliteStore} {m : DurableMutation} {r : CommitResult} : CommitRun ok s₀ s →
      s.commit m = .ok (r, s') → ok m.toMutationData → CommitRun ok s₀ s'

lemma CommitRun.trees {ok : MutationData → Prop} (hok : ∀ m, ok m → SqliteStore.Rooted m)
    {s : SqliteStore} (h : CommitRun ok {} s) : s.Trees := by
  induction h with
  | refl => exact SqliteStore.trees_empty
  | tail _ hcommit hm ih => exact ih.commit hcommit (hok _ hm)

lemma CommitRun.bridged {ok : MutationData → Prop}
    (hok : ∀ m, ok m → SqliteStore.Rooted m ∧ SqliteStore.Unforged m) {s : SqliteStore}
    (h : CommitRun ok {} s) : s.Bridged := by
  induction h with
  | refl => exact SqliteStore.bridged_empty
  | tail hrun hcommit hm ih =>
    exact ih.commit (hrun.trees fun m hm => (hok m hm).1) hcommit (hok _ hm).1 (hok _ hm).2

/-- An operation on conversations, with the session that makes it. -/
inductive ConversationCall where
  | create (c : Session) (conversationId : String)
  | append (c : Session) (conversationId kind : String) (payload : Fields) (entryId : String)
  | branch (c : Session) (conversationId entryId : String) (expectedRevision : Option Nat)
  | fork (c : Session) (conversationId entryId childId : String)
  | delete (c : Session) (conversationId : String)

namespace ConversationCall

/-- The program of a call. -/
def prog : ConversationCall → Op Unit
  | create c conversationId => do let _ ← c.createConversation conversationId
  | append c conversationId kind payload entryId => do
    let _ ← c.appendMessage conversationId kind payload entryId
  | branch c conversationId entryId expectedRevision => do
    let _ ← c.branch conversationId entryId expectedRevision
  | fork c conversationId entryId childId => do let _ ← c.fork conversationId entryId childId
  | delete c conversationId => do let _ ← c.deleteConversation conversationId

def Plain : ConversationCall → Prop
  | append _ _ _ payload _ => payload.truthy "edited_entry_id" = false
  | _ => True

def deletes : ConversationCall → Bool
  | delete .. => true
  | _ => false

def Commit (call : ConversationCall) (m : MutationData) : Prop :=
  SqliteStore.Rooted m ∧ (call.Plain → SqliteStore.Unforged m) ∧
    m.deleteConversation = call.deletes

lemma guards {R : World → World → Prop} {T : Terms} (F : Frame R T) (call : ConversationCall)
    (w : World) : Prog.Guards R (Commits fun _ => call.Commit) (R w) call.prog
      fun _ _ => True := by
  have hS : Unfenced fun _ => call.Commit := fun _ _ _ h => h
  have hnone : ∀ {m : MutationData}, m.createConversation = none → SqliteStore.Rooted m := by
    intro m hm creation h
    rw [hm] at h
    cases h
  have hnil : ∀ {m : MutationData}, m.entries = [] → SqliteStore.Unforged m := by
    intro m hm _ e he
    simp [hm] at he
  cases call with
  | create c conversationId =>
    refine Prog.guards_seq ?_ fun _ _ => trivial
    refine Prog.guards_bind (Session.guards_ensureUsable fun w₁ _ => ?_)
    refine Prog.guards_bind (Session.guards_look fun w₂ _ => ?_)
    split
    · refine Prog.guards_bind (Session.guards_view fun w₃ r _ _ => ?_)
      exact Prog.guards_bind (Session.guards_look fun w₄ _ => trivial)
    · refine Session.guards_commitData F hS (F.stable w₂) rfl fun _ _ =>
        ⟨fun creation h _ => ?_, fun _ => hnil rfl, rfl⟩
      obtain rfl := Option.some.inj h
      rfl
  | append c conversationId kind payload entryId =>
    refine Prog.guards_seq ?_ fun _ _ => trivial
    refine Prog.guards_bind (Session.guards_ensureUsable fun w₁ _ => ?_)
    refine Prog.guards_bind (Session.guards_view fun w₂ r _ _ => ?_)
    refine Prog.guards_bind (Prog.guards_ofExcept fun e he => ?_)
    refine Prog.guards_seq (Session.guards_commitData F hS (F.stable w₂) rfl fun _ _ =>
      ⟨hnone rfl, fun hplain _ f hf _ => ?_, rfl⟩) fun _ _ => trivial
    obtain rfl := List.mem_singleton.mp hf
    unfold EntryDraft.make at he
    split at he
    · obtain rfl := Except.ok.inj he
      exact hplain
    · cases he
  | fork c conversationId entryId childId =>
    refine Prog.guards_seq ?_ fun _ _ => trivial
    refine Prog.guards_bind (Session.guards_ensureUsable fun w₁ _ => ?_)
    refine Prog.guards_bind (Prog.guards_ofExcept fun creation hcreation => ?_)
    refine Prog.guards_seq (Session.guards_commitData F hS (F.stable w₁) rfl fun _ _ =>
      ⟨fun _ h hroot => ?_, fun _ => hnil rfl, rfl⟩) fun _ _ => trivial
    obtain rfl := Option.some.inj h
    unfold CreateConversation.make at hcreation
    split at hcreation
    · obtain rfl := Except.ok.inj hcreation
      cases hroot
    · cases hcreation
  | branch | delete =>
    refine Prog.guards_seq ?_ fun _ _ => trivial
    refine Prog.guards_bind (Session.guards_ensureUsable fun w₁ _ => ?_)
    refine Prog.guards_bind (Session.guards_view fun w₂ r _ _ => ?_)
    exact Session.guards_commitData F hS (F.stable w₂) rfl fun _ _ =>
      ⟨hnone rfl, fun _ => hnil rfl, rfl⟩

/-- Operations on conversations make a run of commits. -/
lemma commitRun {ok : MutationData → Prop} {calls : List ConversationCall}
    (hok : ∀ call ∈ calls, ∀ m, call.Commit m → ok m) {s₀ : SqliteStore} {w : World}
    (h : CommitRun ok s₀ w.store) : CommitRun ok s₀ (Pool.execute prog calls w).store := by
  induction calls generalizing w with
  | nil => exact h
  | cons call calls ih =>
    refine ih (fun call hcall => hok call (by simp [hcall])) ?_
    refine (guards (Terms.unnamed_aloneFrame []) call w).preserves
      (I := fun w : World => CommitRun ok s₀ w.store) (fun _ => rfl) ?_ rfl h
    rintro w₁ w₂ hw₁ (heq | ⟨m, r, hcommit, hm⟩)
    · rwa [heq]
    · exact hw₁.tail hcommit (hok call (by simp) _ hm)

end ConversationCall

/-! ### Well-formed conversations -/

open SqliteStore in
/-- In every store that commits reach, parents stand before their children and heads are local.
When no entry besides those of edits claims to replace an input, and the stored references can be
read, every context is a path of distinct entries that commits to the conversations above do not
change. -/
theorem conversation_trees {s : SqliteStore} (hrun : CommitRun Rooted {} s) :
    (∀ before e after p, s.entries.rows = before ++ e :: after → e.parentId = some p →
      ∃ q ∈ before, q.entryId = p ∧ q.conversationId = e.conversationId) ∧
    (∀ c ∈ s.conversations.rows, ∀ id, c.headEntryId = some id →
      ∃ e ∈ s.entries.rows, e.entryId = id ∧ e.conversationId = c.id) ∧
    ∀ io, CommitRun (fun m => Rooted m ∧ Unforged m) {} s → Resolves io s →
      (∀ id, s.hasConversation id = true →
        ∃ path, s.context io id = .ok path ∧ (path.map (·.entryId)).Nodup) ∧
      ∀ m r s' id, s.commit m = .ok (r, s') → ForkedFrom s m.conversationId id →
        s'.context io id = s.context io id := by
  have h : s.Trees := hrun.trees fun _ hm => hm
  refine ⟨fun before e after p hrows hp => ?_, fun c hc id hid => ?_, fun io hplain hrefs => ?_⟩
  · have he : e ∈ s.entries.rows := by simp [hrows]
    obtain ⟨q, hq, hconv⟩ := h.within e he p hp
    have hlinks : s.entries.links (·.parentId) = (before.map fun e => (e.entryId, e.parentId)) ++
        (e.entryId, some p) :: after.map fun e => (e.entryId, e.parentId) := by
      simp [Table.links, hrows, hp]
    have hmem := (h.entries.behind hlinks).resolve_right List.not_mem_nil
    obtain ⟨link, hlink, hid⟩ := List.mem_map.mp hmem
    obtain ⟨q', hq', rfl⟩ := List.mem_map.mp hlink
    dsimp only at hid
    have hstored : s.entries.get? q'.entryId = some q' :=
      Table.mem_rows_iff.mp (by simp [hrows, hq'])
    obtain rfl : q = q' := by
      rw [hid, hq] at hstored
      exact Option.some.inj hstored
    exact ⟨q, hq', hid, hconv⟩
  · obtain ⟨e, he, hconv⟩ := h.heads c hc id hid
    exact ⟨e, Table.mem_of_get? he, Table.key_of_get? he, hconv⟩
  · have hb : s.Bridged := hplain.bridged fun _ hm => hm
    exact ⟨fun id hid => h.context_ok hb hrefs hid,
      fun m r s' id hcommit hfork => h.context_commit hb hrefs hcommit hfork⟩

def noResponses : Responses where
  readResponseArtifact _ := .error (.keyError "no such file")
  toolCallMessage _ := .error (.valueError "provider response protocol is invalid")

/-- A conversation and a fork of it. -/
def sampleFork : List ConversationCall :=
  [.create firstSession "root",
    .append firstSession "root" "user_message" [("text", .str "one")] "entry-1",
    .append firstSession "root" "assistant_message" [("text", .str "two")] "entry-2",
    .fork firstSession "root" "entry-1" "child",
    .append firstSession "child" "user_message" [("text", .str "three")] "entry-3"]

def storeAfter (calls : List ConversationCall) : SqliteStore :=
  (Pool.execute ConversationCall.prog calls { store := {} }).store

theorem conversation_trees_sample :
    ∃ path, (storeAfter sampleFork).context noResponses "child" = .ok path ∧
      (path.map (·.entryId)).Nodup := by
  have hplain : CommitRun (fun m => SqliteStore.Rooted m ∧ SqliteStore.Unforged m) {}
      (storeAfter sampleFork) := by
    have hcalls : ∀ call ∈ sampleFork, call.Plain := by
      simp [sampleFork, ConversationCall.Plain, Fields.truthy]
    exact ConversationCall.commitRun (fun call hcall _ hm => ⟨hm.1, hm.2.1 (hcalls call hcall)⟩) .refl
  have hrefs : SqliteStore.Resolves noResponses (storeAfter sampleFork) := by
    have hnone : (storeAfter sampleFork).entries.rows.all
        (fun e => responseRef e = none) = true := by
      decide +kernel
    intro e he
    have := List.all_eq_true.mp hnone e he
    exact ⟨e, by simp [SqliteStore.resolveEntry, of_decide_eq_true this]⟩
  have hrun : CommitRun SqliteStore.Rooted {} (storeAfter sampleFork) :=
    ConversationCall.commitRun (fun _ _ _ hm => hm.1) .refl
  exact ((conversation_trees hrun).2.2 noResponses hplain hrefs).1 "child" (by decide +kernel)

/-- A first message that claims to replace an input makes its conversation unreadable. -/
def sampleForged : List ConversationCall :=
  [.create firstSession "root",
    .append firstSession "root" "user_message"
      [("edited_entry_id", .str "x"), ("edit_parent_entry_id", .str "y")] "entry-1"]

/-- A call whose response nobody has. -/
def sampleUnread : List ConversationCall :=
  [.create firstSession "root",
    .append firstSession "root" "tool_call" [("response_ref", .str "lost")] "entry-1"]

lemma not_readable {P : MutationData → Prop} (calls : List ConversationCall)
    (hrun : CommitRun P {} (storeAfter calls)) (hroot : (storeAfter calls).hasConversation "root")
    (hfails : ((storeAfter calls).context noResponses "root").isOk = false) :
    ¬ ∀ s : SqliteStore, CommitRun P {} s → ∀ id, s.hasConversation id = true →
      ∃ path, s.context noResponses id = .ok path := by
  intro h
  obtain ⟨path, hpath⟩ := h _ hrun "root" hroot
  rw [hpath] at hfails
  cases hfails

/-- A forged payload makes a context fail, and without one a response that cannot be read does. -/
theorem conversation_trees_unconditional :
    (¬ ∀ s : SqliteStore, CommitRun SqliteStore.Rooted {} s → ∀ id, s.hasConversation id = true →
      ∃ path, s.context noResponses id = .ok path) ∧
    ¬ ∀ s : SqliteStore, CommitRun (fun m => SqliteStore.Rooted m ∧ SqliteStore.Unforged m) {} s →
      ∀ id, s.hasConversation id = true → ∃ path, s.context noResponses id = .ok path := by
  have hcalls : ∀ call ∈ sampleUnread, call.Plain := by
    simp [sampleUnread, ConversationCall.Plain, Fields.truthy]
  refine ⟨not_readable sampleForged (ConversationCall.commitRun (fun _ _ _ hm => hm.1) .refl)
      (by decide +kernel) (by decide +kernel),
    not_readable sampleUnread (ConversationCall.commitRun (fun call hcall _ hm =>
      ⟨hm.1, hm.2.1 (hcalls call hcall)⟩) .refl) (by decide +kernel) (by decide +kernel)⟩

end Codey
