import Codey.Durable.Forks

/-!
# Contexts of the past

`context_at` reads a conversation as of an earlier commit. Its entries are those of that time, but
the leaf it starts from is the newest of them, while `context` starts from the stored head.
-/

namespace Codey

/-! ### Ends of paths -/

lemma getLast?_applyHeadCut (path : List EntryDraft) :
    (applyHeadCut path).getLast? = path.getLast? := by
  induction path with
  | nil => rfl
  | cons e path ih =>
    unfold applyHeadCut
    split <;> rename_i hmarked
    · rw [ih, List.getLast?_cons_of_ne_nil]
      rintro rfl
      simp at hmarked
    · rfl

namespace SqliteStore

variable {s s' : SqliteStore} {m : DurableMutation} {r : CommitResult} {c : ConversationRow}
  {id : String} {io : Responses}

lemma entryIds_of_resolve {path path' : List EntryDraft}
    (h : s.resolveResponseEntries io path = .ok path') :
    path'.map (·.entryId) = path.map (·.entryId) := by
  induction path generalizing path' with
  | nil =>
    obtain rfl := Except.ok.inj h
    rfl
  | cons e path ih =>
    obtain ⟨e', he, h⟩ := except_bind_eq_ok.mp h
    obtain ⟨rest, hrest, rfl⟩ := except_last_eq_ok.mp h
    rw [List.map_cons, List.map_cons, ih hrest, entryId_of_resolveEntry he]

lemma last_of_resolve {path path' : List EntryDraft}
    (h : s.resolveResponseEntries io (applyHeadCut path) = .ok path') :
    path'.getLast?.map (·.entryId) = path.getLast?.map (·.entryId) := by
  rw [← List.getLast?_map, entryIds_of_resolve h, List.getLast?_map, getLast?_applyHeadCut]

/-! ### What later commits leave -/

/-- A later store: entries are added under later commits, and nothing is taken away. -/
structure Later (s s' : SqliteStore) : Prop where
  rows : ∃ new, s'.entries.rows = s.entries.rows ++ new ∧ ∀ e ∈ new, s.sequence < e.commitSeq
  conversations : ∀ id c, s.conversations.get? id = some c → ∃ c',
    s'.conversations.get? id = some c' ∧ c'.parentConversationId = c.parentConversationId ∧
    c'.parentEntryId = c.parentEntryId
  artifacts : ∀ handle a, s.artifacts.get? handle = some a → s'.artifacts.get? handle = some a
  sequence : s.sequence ≤ s'.sequence

namespace Later

lemma refl (s : SqliteStore) : Later s s :=
  ⟨⟨[], by simp, by simp⟩, fun _ c hc => ⟨c, hc, rfl, rfl⟩, fun _ _ ha => ha, le_rfl⟩

lemma trans {s₁ s₂ s₃ : SqliteStore} (h : Later s₁ s₂) (h' : Later s₂ s₃) : Later s₁ s₃ := by
  obtain ⟨new, hrows, hlate⟩ := h.rows
  obtain ⟨new', hrows', hlate'⟩ := h'.rows
  refine ⟨⟨new ++ new', by rw [hrows', hrows, List.append_assoc], fun e he => ?_⟩,
    fun id c hc => ?_, fun handle a ha => h'.artifacts _ _ (h.artifacts _ _ ha),
    h.sequence.trans h'.sequence⟩
  · rcases List.mem_append.mp he with he | he
    · exact hlate e he
    · exact h.sequence.trans_lt (hlate' e he)
  · obtain ⟨c', hc', hparent, hcap⟩ := h.conversations id c hc
    obtain ⟨c'', hc'', hparent', hcap'⟩ := h'.conversations id c' hc'
    exact ⟨c'', hc'', hparent'.trans hparent, hcap'.trans hcap⟩

end Later

lemma Written.later {s₀ : SqliteStore} (hw : Written s m s₀ c s') : Later s s' := by
  refine ⟨⟨_, hw.entries_eq, fun e he => ?_⟩, fun id d hd => ?_, hw.artifact_kept, ?_⟩
  · obtain ⟨f, -, rfl⟩ := List.mem_map.mp he
    exact Nat.lt_succ_self _
  · obtain ⟨d', hget, rfl | rfl⟩ := hw.conversation_kept hd
    · exact ⟨d', hget, rfl, rfl⟩
    · exact ⟨_, hget, nextConversation_parent _ _, nextConversation_cap _ _⟩
  · rw [hw.sequence_eq]
    exact Nat.le_succ _

lemma later_of_commit (hcommit : s.commit m = .ok (r, s'))
    (hkept : m.deleteConversation = false) : Later s s' := by
  rcases commit_writes hcommit with ⟨-, rfl⟩ | ⟨hdel, -⟩ | ⟨-, -, s₀, c, hw, -⟩
  · exact .refl _
  · rw [hkept] at hdel
    cases hdel
  · exact hw.later

def Dated (s : SqliteStore) : Prop := ∀ e ∈ s.entries.rows, e.commitSeq ≤ s.sequence

lemma Dated.commit (h : Dated s) (hcommit : s.commit m = .ok (r, s')) : Dated s' := by
  rcases commit_writes hcommit with ⟨-, rfl⟩ | ⟨-, -, hr⟩ | ⟨-, -, s₀, c, hw, -⟩
  · exact h
  · intro e he
    rw [hr.sequence_eq]
    exact (h e (hr.mem_entries.mp he).1).trans (Nat.le_succ _)
  · intro e he
    rw [hw.entries_eq, List.mem_append] at he
    rw [hw.sequence_eq]
    rcases he with he | he
    · exact (h e he).trans (Nat.le_succ _)
    · obtain ⟨f, -, rfl⟩ := List.mem_map.mp he
      exact le_rfl

end SqliteStore

lemma CommitRun.dated {ok : MutationData → Prop} {s : SqliteStore} (h : CommitRun ok {} s) :
    s.Dated := by
  induction h with
  | refl => exact fun e he => by cases he
  | tail _ hcommit _ ih => exact ih.commit hcommit

lemma CommitRun.later {ok : MutationData → Prop} (hok : ∀ m, ok m → m.deleteConversation = false)
    {s s' : SqliteStore} (h : CommitRun ok s s') : SqliteStore.Later s s' := by
  induction h with
  | refl => exact .refl s
  | tail _ hcommit hm ih => exact ih.trans (SqliteStore.later_of_commit hcommit (hok _ hm))

lemma CommitRun.trees_from {ok : MutationData → Prop} (hok : ∀ m, ok m → SqliteStore.Rooted m)
    {s s' : SqliteStore} (h : CommitRun ok s s') (hs : s.Trees) : s'.Trees := by
  induction h with
  | refl => exact hs
  | tail _ hcommit hm ih => exact ih.commit hcommit (hok _ hm)

namespace SqliteStore

variable {s s' : SqliteStore} {c : ConversationRow} {id : String} {io : Responses}

/-! ### Reads as of a commit -/

/-- The entries that were committed by the time of an earlier store are its entries. -/
lemma Later.visible_eq (h : Later s s') (hdated : Dated s) (id : String) :
    (s'.entries.rows.filter (·.conversationId = id)).filter (·.commitSeq ≤ s.sequence) =
      s.entries.rows.filter (·.conversationId = id) := by
  obtain ⟨new, hrows, hlate⟩ := h.rows
  rw [hrows, List.filter_append, List.filter_append]
  have hold : (s.entries.rows.filter (·.conversationId = id)).filter
      (·.commitSeq ≤ s.sequence) = s.entries.rows.filter (·.conversationId = id) := by
    rw [List.filter_eq_self]
    intro e he
    exact decide_eq_true (hdated e (List.mem_filter.mp he).1)
  have hnew : (new.filter (·.conversationId = id)).filter (·.commitSeq ≤ s.sequence) = [] := by
    rw [List.filter_eq_nil_iff]
    intro e he
    have := hlate e (List.mem_filter.mp he).1
    simpa using this
  rw [hold, hnew, List.append_nil]

lemma Later.hasConversation (h : Later s s') (hid : s.hasConversation id = true) :
    s'.hasConversation id = true := by
  obtain ⟨c, hc⟩ := hasConversation_iff.mp hid
  obtain ⟨c', hc', -⟩ := h.conversations id c hc
  exact hasConversation_iff.mpr ⟨c', hc'⟩

lemma Later.visible (h : Later s s') (hdated : Dated s) {own : List EntryDraft}
    (hown : s.entriesOf id = .ok own) : s'.visible s.sequence id = .ok own := by
  obtain ⟨hid, rfl⟩ := entriesOf_eq_ok.mp hown
  rw [SqliteStore.visible, entriesOf_eq_ok.mpr ⟨h.hasConversation hid, rfl⟩]
  exact congrArg Except.ok (h.visible_eq hdated id)

lemma Later.extension (h : Later s s') (hdated : Dated s) : Extends (fun _ => True) s.entriesOf
    s.conversationParent (s'.visible s.sequence) s'.conversationParent where
  up _ _ _ _ _ := trivial
  parent id r _ hr := by
    obtain ⟨c, hc, rfl⟩ := conversationParent_eq_ok.mp hr
    obtain ⟨c', hc', hparent, hcap⟩ := h.conversations id c hc
    exact conversationParent_eq_ok.mpr ⟨c', hc', by rw [hparent, hcap]⟩
  entries id own _ hown := ⟨[], by rw [List.append_nil, h.visible hdated hown], by simp⟩

lemma path_at_eq_ok (ht : Trees s') (hid : s'.hasConversation id = true) {n : Nat}
    {leaf : Option String} {path : List EntryDraft} :
    contextPath (s'.visible n) s'.conversationParent (s'.conversations.rows.length + 1) id leaf =
      .ok path ↔ Shown (s'.visible n) s'.conversationParent id leaf path := by
  obtain ⟨ids, hids, hlength⟩ := ht.climb hid
  exact contextPath_eq_ok hids (hlength.trans (Nat.le_succ _))

/-- A conversation without entries of its own shows what it inherits, from its cap as well as from
no entry at all. -/
lemma shown_cap (hc : s.conversations.get? id = some c) {path : List EntryDraft}
    (hnone : ∀ e ∈ s.entries.rows, e.conversationId ≠ id)
    (h : Shown s.entriesOf s.conversationParent id none path) :
    Shown s.entriesOf s.conversationParent id c.parentEntryId path := by
  obtain ⟨above, habove, hpath⟩ := shown_iff.mp h
  obtain rfl : path = above := (Except.ok.inj hpath).symm
  refine shown_iff.mpr ⟨path, habove, ?_⟩
  cases hcap : c.parentEntryId with
  | none => rfl
  | some cap =>
    have hread : s.conversationParent id = .ok (c.parentConversationId, some cap) :=
      conversationParent_eq_ok.mpr ⟨c, hc, by rw [hcap]⟩
    cases habove with
    | root hroot =>
      simp [hroot] at hread
    | @fork p cap' _ hfork habove =>
      rw [hfork] at hread
      obtain ⟨-, rfl⟩ := Prod.mk.inj (Except.ok.inj hread)
      have hown : s.entriesOf id = .ok [] := by
        refine entriesOf_eq_ok.mpr ⟨hasConversation_iff.mpr ⟨c, hc⟩, ?_⟩
        rw [eq_comm, List.filter_eq_nil_iff]
        simpa using hnone
      unfold extendPath
      refine except_bind_eq_ok.mpr ⟨[], hown, ?_⟩
      simp [pathThrough_last (nodup_of_shown habove) habove.last]
      rfl

def newest (s : SqliteStore) (id : String) : Option String :=
  (s.entries.rows.filter (·.conversationId = id)).getLast?.map (·.entryId)

/-- The read as of a commit starts from the newest entry of that time, or from the cap. -/
lemma contextAt_eq (h : Later s s') (hdated : Dated s) (hc : s.conversations.get? id = some c) :
    s'.contextAt io id s.sequence = (contextPath (s'.visible s.sequence) s'.conversationParent
      (s'.conversations.rows.length + 1) id ((s.newest id).or c.parentEntryId) >>= fun path =>
        s'.resolveResponseEntries io (applyHeadCut path)) := by
  obtain ⟨c', hc', -, hcap⟩ := h.conversations id c hc
  have hown := h.visible hdated (entriesOf_eq_ok.mpr ⟨hasConversation_iff.mpr ⟨c, hc⟩, rfl⟩)
  have hparent := conversationParent_eq_ok.mpr ⟨c', hc', rfl⟩
  unfold contextAt newest
  rw [hown]
  cases hlast : (s.entries.rows.filter (·.conversationId = id)).getLast? with
  | none =>
    rw [hparent]
    simp only [bind, Except.bind, hlast, Except.map, Option.map_none, Option.none_or, hcap]
  | some e =>
    simp only [bind, Except.bind, hlast, pure, Except.pure, Option.map_some, Option.some_or]

lemma Later.resolve (h : Later s s') {path path' : List EntryDraft}
    (hpath : s.resolveResponseEntries io path = .ok path') :
    s'.resolveResponseEntries io path = .ok path' := by
  induction path generalizing path' with
  | nil => exact hpath
  | cons e path ih =>
    obtain ⟨e', he, hpath⟩ := except_bind_eq_ok.mp hpath
    obtain ⟨rest, hrest, hpath⟩ := except_bind_eq_ok.mp hpath
    exact except_bind_eq_ok.mpr ⟨e', resolveEntry_mono he h.artifacts,
      except_bind_eq_ok.mpr ⟨rest, ih hrest, hpath⟩⟩

/-- The past reads as it was when the head stood on the newest entry, and only then. -/
lemma Later.contextAt_eq_ok (h : Later s s') (ht : Trees s) (ht' : Trees s') (hdated : Dated s)
    (hc : s.conversations.get? id = some c) {shown : List EntryDraft}
    (hshown : s.context io id = .ok shown) :
    s'.contextAt io id s.sequence = .ok shown ↔ c.headEntryId = s.newest id := by
  have hid := hasConversation_iff.mpr ⟨c, hc⟩
  have hcid : c.id = id := Table.key_of_get? hc
  rw [context_eq hc] at hshown
  obtain ⟨path, hpath, hresolve⟩ := except_bind_eq_ok.mp hshown
  have hpath := (ht.path_eq_ok hid).mp hpath
  rw [contextAt_eq h hdated hc]
  constructor
  · intro hat
    obtain ⟨path', hpath', hresolve'⟩ := except_bind_eq_ok.mp hat
    have hpath' := (path_at_eq_ok ht' (h.hasConversation hid)).mp hpath'
    have hlast := (last_of_resolve hresolve).symm.trans (last_of_resolve hresolve')
    cases hhead : c.headEntryId with
    | none =>
      have hempty : s.entries.rows.filter (·.conversationId = id) = [] := by
        rw [List.filter_eq_nil_iff]
        intro e he
        simpa [hcid] using ht.started c (Table.mem_of_get? hc) hhead e he
      rw [newest, hempty]
      rfl
    | some head =>
      rw [hhead] at hpath
      rw [hpath.last] at hlast
      cases hnewest : s.newest id with
      | some last =>
        rw [hnewest, Option.some_or] at hpath'
        rw [hlast, hpath'.last]
      | none =>
        obtain ⟨e, he, hconv⟩ := ht.heads c (Table.mem_of_get? hc) head hhead
        unfold newest at hnewest
        rw [Option.map_eq_none_iff, List.getLast?_eq_none_iff, List.filter_eq_nil_iff] at hnewest
        have := hnewest e (Table.mem_of_get? he)
        simp [hconv, hcid] at this
  · intro hnewest
    refine except_bind_eq_ok.mpr ⟨path, ?_, h.resolve hresolve⟩
    rw [path_at_eq_ok ht' (h.hasConversation hid)]
    refine Shown.extends ?_ (h.extension hdated) trivial
    cases hhead : c.headEntryId with
    | some head =>
      rw [← hnewest, hhead, Option.some_or]
      rwa [hhead] at hpath
    | none =>
      rw [← hnewest, hhead, Option.none_or]
      rw [hhead] at hpath
      refine shown_cap hc (fun e he => ?_) hpath
      rw [← hcid]
      exact ht.started c (Table.mem_of_get? hc) hhead e he

end SqliteStore

/-! ### Historical contexts -/

open SqliteStore in
/-- What `context` returned after a commit is what `context_at` returns for that commit at any later
time exactly when the head then stood on the newest entry of the conversation. -/
theorem historical_context {io : Responses} {s s' : SqliteStore} (hrun : CommitRun Rooted {} s)
    (hlater : CommitRun (fun m => Rooted m ∧ m.deleteConversation = false) s s') {id : String}
    {c : ConversationRow} (hc : s.conversations.get? id = some c) {shown : List EntryDraft}
    (hshown : s.context io id = .ok shown) :
    s'.contextAt io id s.sequence = .ok shown ↔ c.headEntryId = s.newest id := by
  have ht := hrun.trees fun _ hm => hm
  exact (hlater.later fun _ hm => hm.2).contextAt_eq_ok ht
    (hlater.trees_from (fun _ hm => hm.1) ht) hrun.dated hc hshown

def shownIds (r : Except Error (List EntryDraft)) : Option (List String) :=
  r.toOption.map fun path => path.map (·.entryId)

def sampleMessage : List ConversationCall :=
  [.create firstSession "root",
    .append firstSession "root" "user_message" [("text", .str "one")] "entry-1"]

def sampleAnswer : List ConversationCall :=
  [.append firstSession "root" "assistant_message" [("text", .str "two")] "entry-2"]

theorem historical_context_sample : ∃ shown,
    (Pool.execute ConversationCall.prog sampleAnswer
      (Pool.execute ConversationCall.prog sampleMessage { store := {} })).store.contextAt noResponses
      "root" 2 = .ok shown ∧ shown.map (·.entryId) = ["entry-1"] := by
  let w := Pool.execute ConversationCall.prog sampleMessage { store := {} }
  have hids : shownIds (w.store.context noResponses "root") = some ["entry-1"] ∧
      (w.store.conversations.get? "root").map (·.headEntryId) = some (w.store.newest "root") ∧
      w.store.sequence = 2 := by decide +kernel
  obtain ⟨hshown, hhead, hsequence⟩ := hids
  obtain ⟨c, hc, hnewest⟩ := Option.map_eq_some_iff.mp hhead
  cases hcontext : w.store.context noResponses "root" with
  | error e =>
    rw [hcontext] at hshown
    cases hshown
  | ok shown =>
    rw [hcontext] at hshown
    rw [← hsequence]
    refine ⟨shown, (historical_context (s := w.store) ?_ ?_ hc hcontext).mpr hnewest,
      Option.some.inj hshown⟩
    · exact ConversationCall.commitRun (fun _ _ _ hm => hm.1) .refl
    · refine ConversationCall.commitRun (fun call hcall _ hm => ⟨hm.1, ?_⟩) .refl
      obtain rfl := List.mem_singleton.mp hcall
      exact hm.2.2

def sampleBranch : List ConversationCall :=
  [.create firstSession "root",
    .append firstSession "root" "user_message" [("text", .str "one")] "entry-1",
    .append firstSession "root" "assistant_message" [("text", .str "two")] "entry-2",
    .branch firstSession "root" "entry-1" none]

/-- After a branch, the past shows an entry that `context` did not show. -/
theorem historical_context_unconditional :
    ¬ ∀ (s s' : SqliteStore), CommitRun SqliteStore.Rooted {} s →
      CommitRun (fun m => SqliteStore.Rooted m ∧ m.deleteConversation = false) s s' →
      ∀ id c shown, s.conversations.get? id = some c → s.context noResponses id = .ok shown →
        s'.contextAt noResponses id s.sequence = .ok shown := by
  intro h
  let s := (Pool.execute ConversationCall.prog sampleBranch { store := {} }).store
  have hids : shownIds (s.context noResponses "root") = some ["entry-1"] ∧
      shownIds (s.contextAt noResponses "root" s.sequence) = some ["entry-1", "entry-2"] ∧
      (s.conversations.get? "root").isSome = true := by decide +kernel
  obtain ⟨hnow, hthen, hsome⟩ := hids
  obtain ⟨c, hc⟩ := Option.isSome_iff_exists.mp hsome
  cases hshown : s.context noResponses "root" with
  | error e =>
    rw [hshown] at hnow
    cases hnow
  | ok shown =>
    have hat := h s s (ConversationCall.commitRun (fun _ _ _ hm => hm.1) .refl) .refl "root" c shown
      hc hshown
    rw [hshown] at hnow
    rw [hat, hnow] at hthen
    cases hthen

end Codey
