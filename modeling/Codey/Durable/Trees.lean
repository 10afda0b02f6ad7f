import Codey.Durable.Conversations
import Codey.Durable.SqliteWrites

/-!
# Conversation trees

The entries of a conversation form a tree, and conversations form a tree under their forks. Both
grow at their leaves only, so what a conversation inherits never changes.
-/

namespace Codey

namespace SqliteStore

variable {s s₀ s' : SqliteStore} {m : DurableMutation} {c : ConversationRow} {id : String}

/-! ### Reads -/

lemma hasConversation_iff : s.hasConversation id = true ↔ ∃ c, s.conversations.get? id = some c := by
  rw [hasConversation, Option.isSome_iff_exists]

lemma entriesOf_eq_ok {own : List EntryDraft} : s.entriesOf id = .ok own ↔
    s.hasConversation id = true ∧ own = s.entries.rows.filter (·.conversationId = id) := by
  unfold entriesOf conversation hasConversation
  cases s.conversations.get? id with
  | none => simp [bind, Except.bind]
  | some c => simp [bind, Except.bind, pure, Except.pure, eq_comm]

lemma conversationParent_eq_ok {r : Option String × Option String} :
    s.conversationParent id = .ok r ↔
      ∃ c, s.conversations.get? id = some c ∧ r = (c.parentConversationId, c.parentEntryId) := by
  unfold conversationParent conversation
  cases s.conversations.get? id with
  | none => simp [bind, Except.bind]
  | some c => simp [bind, Except.bind, pure, Except.pure, eq_comm]

lemma forkUp_conversationParent (s : SqliteStore) :
    forkUp s.conversationParent = s.conversations.up (·.parentConversationId) := by
  funext id
  unfold forkUp conversationParent conversation Table.up
  cases s.conversations.get? id <;> rfl

lemma mem_entriesOf {own : List EntryDraft} {e : EntryDraft} (h : s.entriesOf id = .ok own) :
    e ∈ own ↔ e ∈ s.entries.rows ∧ e.conversationId = id := by
  rw [(entriesOf_eq_ok.mp h).2, List.mem_filter, decide_eq_true_eq]

lemma find?_entriesOf (s : SqliteStore) (c id : String) :
    (s.entries.rows.filter (·.conversationId = c)).find? (·.entryId = id) =
      (s.entries.get? id).filter (·.conversationId = c) :=
  Table.get?_filter s.entries _ id

/-! ### The invariant -/

/-- Entries and conversations form trees. -/
structure Trees (s : SqliteStore) : Prop where
  /-- A conversation comes after the one it was forked from. -/
  conversations : Grown [] (s.conversations.links (·.parentConversationId))
  /-- An entry comes after its parent. -/
  entries : Grown [] (s.entries.links (·.parentId))
  owned : ∀ e ∈ s.entries.rows, s.hasConversation e.conversationId = true
  within : ∀ e ∈ s.entries.rows, ∀ p, e.parentId = some p →
    ∃ q, s.entries.get? p = some q ∧ q.conversationId = e.conversationId
  heads : ∀ c ∈ s.conversations.rows, ∀ id, c.headEntryId = some id →
    ∃ e, s.entries.get? id = some e ∧ e.conversationId = c.id
  started : ∀ c ∈ s.conversations.rows, c.headEntryId = none →
    ∀ e ∈ s.entries.rows, e.conversationId ≠ c.id
  inherits : ∀ c ∈ s.conversations.rows,
    ∃ above, Inherits s.entriesOf s.conversationParent c.id above

def Bridged (s : SqliteStore) : Prop :=
  ∀ e ∈ s.entries.rows, e.parentId = none → ∃ above kept,
    Inherits s.entriesOf s.conversationParent e.conversationId above ∧
      inheritedPrefix above e = .ok kept

namespace Trees

lemma climb (h : Trees s) (hid : s.hasConversation id = true) :
    ∃ ids, Climb (forkUp s.conversationParent) id ids ∧
      ids.length ≤ s.conversations.rows.length := by
  obtain ⟨c, hc⟩ := hasConversation_iff.mp hid
  obtain ⟨ids, hids⟩ := Table.exists_climb h.conversations hc
  refine ⟨ids, ?_, ?_⟩
  · rwa [forkUp_conversationParent]
  · refine Table.length_climb_le (Table.isSome_of_up h.conversations) (k := id) ?_ hids
    rw [hc, Option.isSome_some]

/-- `context_path` computes what is shown. -/
lemma path_eq_ok (h : Trees s) (hid : s.hasConversation id = true) {leaf : Option String}
    {path : List EntryDraft} :
    s.path id leaf = .ok path ↔ Shown s.entriesOf s.conversationParent id leaf path := by
  obtain ⟨ids, hids, hlength⟩ := h.climb hid
  exact contextPath_eq_ok hids (hlength.trans (Nat.le_succ _))

/-- The parents of a stored entry are stored in its conversation. -/
lemma within_climb (h : Trees s) {ids : List String}
    (hclimb : Climb (s.entries.up (·.parentId)) id ids) : ∀ {e : EntryDraft},
      s.entries.get? id = some e → ∀ x ∈ ids, ∃ f, s.entries.get? x = some f ∧
        f.conversationId = e.conversationId ∧ f.parentId = s.entries.up (·.parentId) x := by
  induction hclimb with
  | root hroot =>
    intro e he x hx
    obtain rfl := List.mem_singleton.mp hx
    exact ⟨e, he, rfl, by simp [Table.up, he]⟩
  | @step a b l hstep _ ih =>
    intro e he x hx
    have hup : e.parentId = some b := by simpa [Table.up, he] using hstep
    rcases List.mem_cons.mp hx with rfl | hx
    · exact ⟨e, he, rfl, by simp [Table.up, he]⟩
    · obtain ⟨q, hq, hsame⟩ := h.within e (Table.mem_of_get? he) b hup
      obtain ⟨f, hf, hconv, hparent⟩ := ih hq x hx
      exact ⟨f, hf, hconv.trans hsame, hparent⟩

/-- The parents of a stored entry lead to a root of its conversation. -/
lemma localPath (h : Trees s) {e : EntryDraft} (he : s.entries.get? id = some e) :
    ∃ root tail, Codey.localPath (s.entries.rows.filter (·.conversationId = e.conversationId)) id =
      .ok (root :: tail) ∧ root ∈ s.entries.rows ∧ root.conversationId = e.conversationId ∧
      root.parentId = none := by
  obtain ⟨ids, hids⟩ := Table.exists_climb h.entries he
  obtain ⟨root, tail, hpath, hroot, hnone⟩ := exists_localPath
    (s.entries.rows.filter (·.conversationId = e.conversationId)) hids fun x hx => by
      obtain ⟨f, hf, hconv, hparent⟩ := h.within_climb hids he x hx
      refine ⟨f, ?_, hparent⟩
      rw [find?_entriesOf, hf]
      simp [hconv]
  obtain ⟨hmem, hconv⟩ := List.mem_filter.mp hroot
  exact ⟨root, tail, hpath, hmem, by simpa using hconv, hnone⟩

/-- Every entry of a conversation is shown by it, when local roots are bridged. -/
lemma shown (h : Trees s) (hb : Bridged s) {e : EntryDraft} (he : s.entries.get? id = some e) :
    ∃ path, Shown s.entriesOf s.conversationParent e.conversationId (some id) path := by
  obtain ⟨root, tail, hpath, hroot, hconv, hnone⟩ := h.localPath he
  obtain ⟨above, kept, habove, hkept⟩ := hb root hroot hnone
  rw [hconv] at habove
  refine ⟨kept ++ root :: tail, shown_iff.mpr ⟨above, habove, ?_⟩⟩
  have hown := entriesOf_eq_ok.mpr ⟨h.owned e (Table.mem_of_get? he), rfl⟩
  refine except_bind_eq_ok.mpr ⟨_, hown, ?_⟩
  have hlocal : (s.entries.rows.filter (·.conversationId = e.conversationId)).any
      (·.entryId = id) = true := by
    rw [List.any_eq_true]
    exact ⟨e, by simp [Table.mem_of_get? he], by simp [Table.key_of_get? he]⟩
  dsimp only
  rw [if_pos hlocal, hpath]
  exact except_bind_eq_ok.mpr ⟨_, rfl, except_bind_eq_ok.mpr ⟨kept, hkept, rfl⟩⟩

lemma shown_head (h : Trees s) (hb : Bridged s) (hc : c ∈ s.conversations.rows) :
    ∃ path, Shown s.entriesOf s.conversationParent c.id c.headEntryId path := by
  cases hhead : c.headEntryId with
  | none =>
    obtain ⟨above, habove⟩ := h.inherits c hc
    exact ⟨above, shown_iff.mpr ⟨above, habove, rfl⟩⟩
  | some id =>
    obtain ⟨e, he, hconv⟩ := h.heads c hc id hhead
    rw [← hconv]
    exact h.shown hb he

end Trees

/-! ### Reads that are extended -/

/-- A store extends the reads of another one: its conversations keep their parent and cap, and its
new entries have new ids. -/
lemma extends_of_rows {kept : String → Prop}
    (hup : ∀ id c p, kept id → s.conversations.get? id = some c →
      c.parentConversationId = some p → kept p)
    (hconv : ∀ id c, kept id → s.conversations.get? id = some c → ∃ c',
      s'.conversations.get? id = some c' ∧ c'.parentConversationId = c.parentConversationId ∧
      c'.parentEntryId = c.parentEntryId)
    (hrows : ∀ id, kept id → ∃ new, s'.entries.rows.filter (·.conversationId = id) =
      s.entries.rows.filter (·.conversationId = id) ++ new ∧
      ∀ e ∈ new, ∀ f ∈ s.entries.rows, f.entryId ≠ e.entryId) :
    Extends kept s.entriesOf s.conversationParent s'.entriesOf s'.conversationParent where
  up id p cap hid hp := by
    obtain ⟨c, hc, heq⟩ := conversationParent_eq_ok.mp hp
    exact hup id c p hid hc (Prod.mk.inj heq).1.symm
  parent id r hid hr := by
    obtain ⟨c, hc, rfl⟩ := conversationParent_eq_ok.mp hr
    obtain ⟨c', hc', hparent, hcap⟩ := hconv id c hid hc
    exact conversationParent_eq_ok.mpr ⟨c', hc', by rw [hparent, hcap]⟩
  entries id own hid hown := by
    obtain ⟨hhas, rfl⟩ := entriesOf_eq_ok.mp hown
    obtain ⟨c, hc⟩ := hasConversation_iff.mp hhas
    obtain ⟨c', hc', -, -⟩ := hconv id c hid hc
    obtain ⟨new, hnew, hfresh⟩ := hrows id hid
    refine ⟨new, ?_, fun e he d other hother f hf => ?_⟩
    · exact entriesOf_eq_ok.mpr ⟨hasConversation_iff.mpr ⟨c', hc'⟩, hnew.symm⟩
    · exact hfresh e he f ((mem_entriesOf hother).mp hf).1

/-! ### Creation -/

/-- A created conversation is new, and what a fork inherits is shown by its parent. -/
lemma create_cases {m : MutationData} (h : s.create m = .ok s₀) :
    (m.createConversation = none ∧ s₀ = s) ∨
    ∃ creation, m.createConversation = some creation ∧
      s.conversations.get? m.conversationId = none ∧
      (∀ p, creation.parentConversationId = some p →
        ∃ path, s.path p creation.parentEntryId = .ok path) ∧
      s₀ = { s with conversations := s.conversations.put {
        id := m.conversationId
        parentConversationId := creation.parentConversationId
        parentEntryId := creation.parentEntryId } } := by
  unfold create at h
  split at h <;> rename_i hcreate
  · exact Or.inl ⟨hcreate, (Except.ok.inj h).symm⟩
  rename_i creation
  refine Or.inr ⟨creation, hcreate, ?_⟩
  simp only [except_seq_eq_ok, require_eq_ok] at h
  obtain ⟨hnew, h⟩ := h
  have hnone : s.conversations.get? m.conversationId = none := by
    simpa [hasConversation] using hnew
  split at h <;> rename_i hparent
  · obtain rfl := Except.ok.inj h
    exact ⟨hnone, by simp [hparent], rfl⟩
  · obtain ⟨path, hpath, rfl⟩ := except_last_eq_ok.mp h
    refine ⟨hnone, fun p hp => ⟨path, ?_⟩, rfl⟩
    obtain rfl := Option.some.inj (hparent.symm.trans hp)
    exact hpath

/-- Creating a conversation changes nothing that is shown. -/
lemma extends_of_create {m : MutationData} (h : s.create m = .ok s₀) :
    Extends (fun _ => True) s.entriesOf s.conversationParent s₀.entriesOf
      s₀.conversationParent := by
  refine extends_of_rows (fun _ _ _ _ _ _ => trivial) (fun id c _ hc => ?_) fun id _ => ?_
  · rcases create_cases h with ⟨-, rfl⟩ | ⟨creation, -, hnone, -, rfl⟩
    · exact ⟨c, hc, rfl, rfl⟩
    · refine ⟨c, ?_, rfl, rfl⟩
      rw [Table.get?_put_of_ne]
      · exact hc
      · rintro rfl
        simp [hnone] at hc
  · have hentries : s₀.entries = s.entries := by rw [create_frame h]
    exact ⟨[], by rw [hentries, List.append_nil], by simp⟩

def Rooted (m : MutationData) : Prop := ∀ creation, m.createConversation = some creation →
  creation.parentConversationId = none → creation.parentEntryId = none

/-- What the rows of a store say of the conversations that are there before. -/
lemma Trees.create {m : MutationData} (h : Trees s) (hcreate : s.create m = .ok s₀)
    (hrooted : Rooted m) : Trees s₀ := by
  have hext := extends_of_create hcreate
  rcases create_cases hcreate with ⟨-, rfl⟩ | ⟨creation, hsome, hnone, hpath, rfl⟩
  · exact h
  let row : ConversationRow := {
    id := m.conversationId
    parentConversationId := creation.parentConversationId
    parentEntryId := creation.parentEntryId }
  have hrows : (s.conversations.put row).rows = s.conversations.rows ++ [row] :=
    Table.rows_put_of_none hnone
  have hshown : ∀ p, creation.parentConversationId = some p → ∃ path,
      Shown s.entriesOf s.conversationParent p creation.parentEntryId path := fun p hp => by
    obtain ⟨path, hpath⟩ := hpath p hp
    exact ⟨path, shown_of_contextPath hpath⟩
  have hself : (s.conversations.put row).get? m.conversationId = some row :=
    Table.get?_put_self s.conversations row
  refine ⟨?_, h.entries, fun e he => ?_, h.within, fun c hc => ?_, fun c hc => ?_, fun c hc => ?_⟩
  · unfold Table.links
    rw [hrows, List.map_append, grown_append]
    refine ⟨h.conversations, fun p hp => ?_, trivial⟩
    obtain ⟨path, hpath⟩ := hshown p hp
    obtain ⟨above, habove, -⟩ := shown_iff.mp hpath
    have hread : ∃ r, s.conversationParent p = .ok r := by
      cases habove with
      | root hroot => exact ⟨_, hroot⟩
      | fork hfork _ => exact ⟨_, hfork⟩
    obtain ⟨r, hr⟩ := hread
    obtain ⟨c, hc, -⟩ := conversationParent_eq_ok.mp hr
    simp only [List.append_nil, List.mem_reverse, List.map_map, List.mem_map]
    exact ⟨c, Table.mem_of_get? hc, Table.key_of_get? hc⟩
  · obtain ⟨c, hc⟩ := hasConversation_iff.mp (h.owned e he)
    refine hasConversation_iff.mpr ⟨c, ?_⟩
    change (s.conversations.put row).get? _ = _
    rw [Table.get?_put_of_ne]
    · exact hc
    · intro heq
      rw [← heq, hnone] at hc
      cases hc
  all_goals
    change c ∈ (s.conversations.put row).rows at hc
    rw [hrows, List.mem_append, List.mem_singleton] at hc
  · rcases hc with hc | rfl
    · exact h.heads c hc
    · intro id hid
      cases hid
  · rcases hc with hc | rfl
    · exact h.started c hc
    · intro _ e he hconv
      obtain ⟨c, hc⟩ := hasConversation_iff.mp (h.owned e he)
      rw [hconv, hnone] at hc
      cases hc
  · rcases hc with hc | rfl
    · obtain ⟨above, habove⟩ := h.inherits c hc
      exact ⟨above, habove.extends hext trivial⟩
    · rcases Option.eq_none_or_eq_some creation.parentConversationId with hparent | ⟨p, hparent⟩
      · refine ⟨[], .root (conversationParent_eq_ok.mpr ⟨row, hself, ?_⟩)⟩
        simp [row, hparent, hrooted creation hsome hparent]
      · obtain ⟨path, hpath⟩ := hshown p hparent
        refine ⟨path, .fork (conversationParent_eq_ok.mpr ⟨row, hself, ?_⟩)
          (hpath.extends hext trivial)⟩
        simp [row, hparent]

/-! ### New entries -/

section Chain

variable {parent : Option String} {es : List EntryDraft}

lemma grown_of_chain (known : List String) (h : s.validateEntries parent es = .ok ())
    (hparent : ∀ p, parent = some p → p ∈ known) :
    Grown known (es.map fun e => (e.entryId, e.parentId)) := by
  induction es generalizing parent known with
  | nil => trivial
  | cons e es ih =>
    simp only [validateEntries, except_seq_eq_ok, require_eq_ok, decide_eq_true_eq] at h
    refine ⟨fun p hp => hparent p (h.1 ▸ hp), ih _ h.2.2 fun p hp => ?_⟩
    obtain rfl := Option.some.inj hp
    exact List.mem_cons_self

/-- The parent of a new entry is the parent that is continued, or a new entry. -/
lemma parent_of_chain (h : s.validateEntries parent es = .ok ()) {e : EntryDraft} (he : e ∈ es)
    {p : String} (hp : e.parentId = some p) : parent = some p ∨ ∃ q ∈ es, q.entryId = p := by
  induction es generalizing parent with
  | nil => simp at he
  | cons f es ih =>
    simp only [validateEntries, except_seq_eq_ok, require_eq_ok, decide_eq_true_eq] at h
    rcases List.mem_cons.mp he with rfl | he
    · exact Or.inl (h.1 ▸ hp)
    · rcases ih h.2.2 he with hf | ⟨q, hq, hid⟩
      · exact Or.inr ⟨f, by simp, Option.some.inj hf⟩
      · exact Or.inr ⟨q, by simp [hq], hid⟩

lemma root_of_chain (h : s.validateEntries parent es = .ok ()) {e : EntryDraft} (he : e ∈ es)
    (hp : e.parentId = none) : parent = none ∧ es.head? = some e := by
  induction es generalizing parent with
  | nil => simp at he
  | cons f es ih =>
    simp only [validateEntries, except_seq_eq_ok, require_eq_ok, decide_eq_true_eq] at h
    rcases List.mem_cons.mp he with rfl | he
    · exact ⟨h.1 ▸ hp, rfl⟩
    · have hnone := (ih h.2.2 he).1
      cases hnone

end Chain

/-! ### Edits -/

/-- What a successful edit has checked. -/
lemma validateEdit_eq_ok {m : MutationData} {path : List EntryDraft} {busy : Bool}
    {parent : Option String} (h : Codey.validateEdit m path busy = .ok parent) :
    ∃ edited, (∀ id, edited = some id → ∃ e ∈ path, e.entryId = id) ∧
      parent = edited.filter (fun id => path.any fun e =>
        e.conversationId = m.conversationId && e.entryId = id) ∧
      ∀ e, m.entries.head? = some e →
        optionalTextIs e.payload "edit_parent_entry_id" edited = true := by
  unfold Codey.validateEdit at h
  obtain ⟨⟨edited, replaced⟩, hedit, h⟩ := except_bind_eq_ok.mp h
  simp only [except_seq_eq_ok, require_eq_ok] at h
  obtain ⟨-, -, hbridge, h⟩ := h
  refine ⟨edited, fun id hid => ?_, (Except.ok.inj h).symm, fun e he => ?_⟩
  · unfold editParent at hedit
    simp only [except_seq_eq_ok] at hedit
    obtain ⟨-, hedit⟩ := hedit
    split at hedit
    · simp only [except_seq_eq_ok] at hedit
      have hlast := (Prod.mk.inj (Except.ok.inj hedit.2)).1
      rw [hid] at hlast
      obtain ⟨e, he, hid⟩ := Option.map_eq_some_iff.mp hlast
      exact ⟨e, List.mem_of_mem_take (List.mem_of_getLast? he), hid⟩
    · cases hedit
  · simpa [he] using hbridge

/-- The parent of the first new entry is the head, or was found by the check of an edit. -/
lemma entryParent_eq_ok {m : MutationData} {head parent : Option String}
    (h : s.entryParent m head = .ok parent) :
    (m.editedEntryId = none ∧ parent = head) ∨
    (m.editedEntryId.isSome = true ∧ ∃ path busy, s.path m.conversationId head = .ok path ∧
      Codey.validateEdit m path busy = .ok parent) := by
  unfold entryParent at h
  cases hedit : m.editedEntryId with
  | none =>
    simp only [hedit, Option.isSome_none, Bool.false_eq_true, if_false] at h
    refine Or.inl ⟨rfl, ?_⟩
    split at h
    · obtain ⟨path, -, h⟩ := except_bind_eq_ok.mp h
      exact (Except.ok.inj (except_seq_eq_ok.mp h).2).symm
    · exact (Except.ok.inj h).symm
  | some edited =>
    simp only [hedit, Option.isNone_some, Option.isSome_some, Bool.and_false, Bool.false_and,
      Bool.false_eq_true, if_false, if_true] at h
    obtain ⟨path, hpath, hvalid⟩ := except_bind_eq_ok.mp h
    exact Or.inr ⟨rfl, path, _, hpath, hvalid⟩

/-! ### Written rows -/

/-- A mutation moves the head and the revision of its conversation only. -/
lemma nextConversation_frame (m : MutationData) (c : ConversationRow) : nextConversation m c =
    { c with
      headEntryId := (nextConversation m c).headEntryId
      revision := (nextConversation m c).revision } := by
  unfold nextConversation
  split
  · rfl
  · split <;> rfl

@[simp] lemma nextConversation_id (m : MutationData) (c : ConversationRow) :
    (nextConversation m c).id = c.id := by rw [nextConversation_frame]

@[simp] lemma nextConversation_parent (m : MutationData) (c : ConversationRow) :
    (nextConversation m c).parentConversationId = c.parentConversationId := by
  rw [nextConversation_frame]

@[simp] lemma nextConversation_cap (m : MutationData) (c : ConversationRow) :
    (nextConversation m c).parentEntryId = c.parentEntryId := by rw [nextConversation_frame]

/-- The head that a mutation leaves. -/
lemma nextConversation_head {m : MutationData} {c : ConversationRow} {head : Option String}
    (h : (nextConversation m c).headEntryId = head) :
    (∃ id, m.branchEntryId = some id ∧ head = some id) ∨
    (∃ e ∈ m.entries, head = some e.entryId) ∨ (m.entries = [] ∧ head = c.headEntryId) := by
  unfold nextConversation at h
  split at h
  · rename_i id hbranch
    exact Or.inl ⟨id, hbranch, h.symm⟩
  · split at h
    · rename_i e hlast
      exact Or.inr (Or.inl ⟨e, List.mem_of_getLast? hlast, h.symm⟩)
    · rename_i hlast
      exact Or.inr (Or.inr ⟨List.getLast?_eq_none_iff.mp hlast, h.symm⟩)

lemma conversationId_of_entry (m : DurableMutation) {e : EntryDraft} (he : e ∈ m.entries) :
    e.conversationId = m.conversationId := by
  obtain ⟨-, -, -, h, -⟩ := m.checked
  simp only [MutationData.validateSubmission, except_seq_eq_ok, require_eq_ok, List.all_eq_true,
    decide_eq_true_eq] at h
  exact h.1 e he

namespace Written

lemma rows (hw : Written s m s₀ c s') : s'.entries.rows =
    s₀.entries.rows ++ m.entries.map (entryRow m.toMutationData (s.sequence + 1)) := by
  have hentries : s₀.entries = s.entries := by rw [create_frame hw.created]
  rw [hw.entries_eq, hentries]

lemma get?_conversations (hw : Written s m s₀ c s') (id : String) : s'.conversations.get? id =
    if m.conversationId = id then some (nextConversation m.toMutationData c)
    else s₀.conversations.get? id := by
  have hid : c.id = m.conversationId := Table.key_of_get? hw.row
  rw [hw.conversations_eq, Table.get?_put, nextConversation_id, hid]

/-- A conversation row stays, or it is the one that the mutation moves on. -/
lemma conversation_kept (hw : Written s m s₀ c s') {id : String} {d : ConversationRow}
    (hd : s.conversations.get? id = some d) : ∃ d', s'.conversations.get? id = some d' ∧
      (d' = d ∨ d' = nextConversation m.toMutationData d) := by
  have hd₀ : s₀.conversations.get? id = some d := by
    rcases create_cases hw.created with ⟨-, rfl⟩ | ⟨creation, -, hnone, -, rfl⟩
    · exact hd
    · rw [Table.get?_put_of_ne]
      · exact hd
      · rintro rfl
        rw [hnone] at hd
        cases hd
  rw [hw.get?_conversations]
  split_ifs with heq
  · obtain rfl : c = d := Option.some.inj ((heq ▸ hw.row).symm.trans hd₀)
    exact ⟨_, rfl, Or.inr rfl⟩
  · exact ⟨d, hd₀, Or.inl rfl⟩

lemma fresh (hw : Written s m s₀ c s') {e f : EntryDraft} (he : e ∈ m.entries)
    (hf : f ∈ s₀.entries.rows) : f.entryId ≠ e.entryId := by
  have hnodup := s'.entries.nodup
  rw [hw.rows, List.map_append, List.nodup_append] at hnodup
  refine hnodup.2.2 _ (List.mem_map_of_mem hf) _ ?_
  rw [List.map_map, List.mem_map]
  exact ⟨e, he, rfl⟩

lemma conversation_cases (hw : Written s m s₀ c s') {d : ConversationRow}
    (hd : d ∈ s'.conversations.rows) : d ∈ s₀.conversations.rows ∧ d.id ≠ m.conversationId ∨
      d = nextConversation m.toMutationData c := by
  have hget := Table.mem_rows_iff.mp hd
  rw [hw.get?_conversations] at hget
  split_ifs at hget with hid
  · exact Or.inr (Option.some.inj hget).symm
  · exact Or.inl ⟨Table.mem_of_get? hget, fun h => hid h.symm⟩

lemma extension (hw : Written s m s₀ c s') : Extends (fun _ => True) s₀.entriesOf
    s₀.conversationParent s'.entriesOf s'.conversationParent := by
  refine extends_of_rows (fun _ _ _ _ _ _ => trivial) (fun id d _ hd => ?_) fun id _ => ?_
  · rw [hw.get?_conversations]
    split_ifs with hid
    · obtain rfl : c = d := Option.some.inj ((hid ▸ hw.row).symm.trans hd)
      exact ⟨_, rfl, nextConversation_parent _ _, nextConversation_cap _ _⟩
    · exact ⟨d, hd, rfl, rfl⟩
  · refine ⟨_, by rw [hw.rows, List.filter_append], fun e he f hf => ?_⟩
    obtain ⟨g, hg, rfl⟩ := List.mem_map.mp (List.mem_filter.mp he).1
    exact hw.fresh (e := g) hg hf

/-- The parent that the first new entry continues is stored in the conversation. -/
lemma parent_stored (hw : Written s m s₀ c s') (h : Trees s₀) {p : String}
    (hp : s₀.entryParent m.toMutationData c.headEntryId = .ok (some p)) :
    ∃ q, s₀.entries.get? p = some q ∧ q.conversationId = m.conversationId := by
  have hid : c.id = m.conversationId := Table.key_of_get? hw.row
  rcases entryParent_eq_ok hp with ⟨-, hhead⟩ | ⟨-, path, busy, hpath, hvalid⟩
  · rw [← hid]
    exact h.heads c (Table.mem_of_get? hw.row) p hhead.symm
  · obtain ⟨edited, -, hfilter, -⟩ := validateEdit_eq_ok hvalid
    obtain ⟨-, hlocal⟩ := Option.filter_eq_some_iff.mp hfilter.symm
    obtain ⟨q, hq, hboth⟩ := List.any_eq_true.mp hlocal
    simp only [Bool.and_eq_true, decide_eq_true_eq] at hboth
    obtain ⟨ids, -, hmem⟩ := (shown_of_contextPath hpath).mem
    obtain ⟨d, -, own, hown, hq⟩ := hmem q hq
    refine ⟨q, ?_, hboth.1⟩
    rw [← hboth.2]
    exact Table.mem_rows_iff.mp ((mem_entriesOf hown).mp hq).1

lemma trees (hw : Written s m s₀ c s') (h : Trees s₀) : Trees s' := by
  obtain ⟨parent, hparent, hchain⟩ := hw.chained
  have hid : c.id = m.conversationId := Table.key_of_get? hw.row
  have hold : ∀ {id e}, s₀.entries.get? id = some e → s'.entries.get? id = some e := by
    intro id e he
    obtain rfl := Table.key_of_get? he
    refine Table.mem_rows_iff.mp ?_
    rw [hw.rows]
    exact List.mem_append_left _ (Table.mem_of_get? he)
  have hnew : ∀ {e}, e ∈ m.entries →
      s'.entries.get? e.entryId = some (entryRow m.toMutationData (s.sequence + 1) e) := by
    intro e he
    have hrow : entryRow m.toMutationData (s.sequence + 1) e ∈ s'.entries.rows := by
      rw [hw.rows]
      exact List.mem_append_right _ (List.mem_map_of_mem he)
    exact Table.mem_rows_iff.mp hrow
  have hhas : ∀ {id}, s₀.hasConversation id = true → s'.hasConversation id = true := by
    intro id hid
    obtain ⟨d, hd⟩ := hasConversation_iff.mp hid
    rw [hasConversation_iff, hw.get?_conversations]
    split_ifs
    · exact ⟨_, rfl⟩
    · exact ⟨d, hd⟩
  have hmine : s'.hasConversation m.conversationId = true :=
    hhas (hasConversation_iff.mpr ⟨c, hw.row⟩)
  refine ⟨?_, ?_, fun e he => ?_, fun e he p hp => ?_, fun d hd id hhead => ?_,
    fun d hd hhead e he => ?_, fun d hd => ?_⟩
  · have hlinks : s'.conversations.links (·.parentConversationId) =
        s₀.conversations.links (·.parentConversationId) := by
      rw [hw.conversations_eq]
      refine Table.map_rows_put (w := c) ?_ (by simp)
      rw [nextConversation_id, hid]
      exact hw.row
    rw [hlinks]
    exact h.conversations
  · unfold Table.links
    rw [hw.rows, List.map_append, grown_append]
    refine ⟨h.entries, ?_⟩
    have hgrown := grown_of_chain (s₀.entries.rows.map (·.entryId)) hchain fun p hp => by
      subst hp
      obtain ⟨q, hq, -⟩ := hw.parent_stored h hparent
      exact List.mem_map.mpr ⟨q, Table.mem_of_get? hq, Table.key_of_get? hq⟩
    have hlinks : (m.entries.map (entryRow m.toMutationData (s.sequence + 1))).map
        (fun e => (e.entryId, e.parentId)) = m.entries.map fun e => (e.entryId, e.parentId) := by
      rw [List.map_map]
      rfl
    rw [hlinks]
    refine hgrown.mono fun x hx => ?_
    simpa using hx
  · rw [hw.rows, List.mem_append] at he
    rcases he with he | he
    · exact hhas (h.owned e he)
    · obtain ⟨f, hf, rfl⟩ := List.mem_map.mp he
      change s'.hasConversation f.conversationId = true
      rw [conversationId_of_entry m hf]
      exact hmine
  · rw [hw.rows, List.mem_append] at he
    rcases he with he | he
    · obtain ⟨q, hq, hconv⟩ := h.within e he p hp
      exact ⟨q, hold hq, hconv⟩
    · obtain ⟨f, hf, rfl⟩ := List.mem_map.mp he
      change ∃ q, s'.entries.get? p = some q ∧ q.conversationId = f.conversationId
      rw [conversationId_of_entry m hf]
      rcases parent_of_chain hchain hf hp with rfl | ⟨g, hg, rfl⟩
      · obtain ⟨q, hq, hconv⟩ := hw.parent_stored h hparent
        exact ⟨q, hold hq, hconv⟩
      · exact ⟨_, hnew hg, conversationId_of_entry m (e := g) hg⟩
  · rcases hw.conversation_cases hd with ⟨hd, -⟩ | rfl
    · obtain ⟨e, he, hconv⟩ := h.heads d hd id hhead
      exact ⟨e, hold he, hconv⟩
    · rw [nextConversation_id, hid]
      rcases nextConversation_head hhead with ⟨id', hbranch, heq⟩ | ⟨e, he, heq⟩ | ⟨-, heq⟩
      · obtain rfl := Option.some.inj heq
        obtain ⟨e, he, hconv⟩ := hw.branch id hbranch
        have hentries : s₀.entries = s.entries := by rw [create_frame hw.created]
        exact ⟨e, hold (hentries ▸ he), hconv⟩
      · obtain rfl := Option.some.inj heq
        exact ⟨_, hnew he, conversationId_of_entry m (e := e) he⟩
      · obtain ⟨e, he, hconv⟩ := h.heads c (Table.mem_of_get? hw.row) id heq.symm
        exact ⟨e, hold he, hid ▸ hconv⟩
  · rw [hw.rows, List.mem_append] at he
    rcases hw.conversation_cases hd with ⟨hd, hne⟩ | rfl
    · rcases he with he | he
      · exact h.started d hd hhead e he
      · obtain ⟨f, hf, rfl⟩ := List.mem_map.mp he
        change f.conversationId ≠ d.id
        rw [conversationId_of_entry m hf]
        exact fun heq => hne heq.symm
    · rcases nextConversation_head hhead with ⟨id', -, heq⟩ | ⟨e, -, heq⟩ | ⟨hnil, heq⟩
      · cases heq
      · cases heq
      · rcases he with he | he
        · rw [nextConversation_id]
          exact h.started c (Table.mem_of_get? hw.row) heq.symm e he
        · simp [hnil] at he
  · have hrow : ∃ d' ∈ s₀.conversations.rows, d'.id = d.id := by
      rcases hw.conversation_cases hd with ⟨hd, -⟩ | rfl
      · exact ⟨d, hd, rfl⟩
      · exact ⟨c, Table.mem_of_get? hw.row, by simp⟩
    obtain ⟨d', hd', heq⟩ := hrow
    obtain ⟨above, habove⟩ := h.inherits d' hd'
    exact ⟨above, heq ▸ habove.extends hw.extension trivial⟩

/-- New entries that do not name a replaced input, and edits, continue what is inherited. -/
lemma bridged (hw : Written s m s₀ c s') (h : Trees s₀) (hb : Bridged s₀)
    (hplain : m.editedEntryId = none → ∀ e ∈ m.entries, e.parentId = none →
      e.payload.truthy "edited_entry_id" = false) : Bridged s' := by
  obtain ⟨parent, hparent, hchain⟩ := hw.chained
  have hid : c.id = m.conversationId := Table.key_of_get? hw.row
  intro e he hroot
  rw [hw.rows, List.mem_append] at he
  rcases he with he | he
  · obtain ⟨above, kept, habove, hkept⟩ := hb e he hroot
    exact ⟨above, kept, habove.extends hw.extension trivial, hkept⟩
  obtain ⟨f, hf, rfl⟩ := List.mem_map.mp he
  change ∃ above kept, Inherits s'.entriesOf s'.conversationParent f.conversationId above ∧
    inheritedPrefix above f = .ok kept
  rw [conversationId_of_entry m hf]
  obtain ⟨rfl, hhead⟩ := root_of_chain hchain hf hroot
  rcases entryParent_eq_ok hparent with ⟨hedit, -⟩ | ⟨-, path, busy, hpath, hvalid⟩
  · obtain ⟨above, habove⟩ := h.inherits c (Table.mem_of_get? hw.row)
    rw [hid] at habove
    refine ⟨above, above, habove.extends hw.extension trivial, ?_⟩
    unfold inheritedPrefix
    rw [hplain hedit f hf hroot]
    rfl
  · obtain ⟨above, habove, hmem⟩ := (shown_of_contextPath hpath).split
    obtain ⟨edited, hedited, hlocal, hbridge⟩ := validateEdit_eq_ok hvalid
    have hbridge := of_decide_eq_true (hbridge f hhead)
    -- the prefix ends with an entry that is shown and not local, so it is inherited
    have hkept : ∃ kept, inheritedPrefix above f = .ok kept := by
      unfold inheritedPrefix
      split
      · cases hget : f.payload.get? "edit_parent_entry_id" with
        | none => exact ⟨[], rfl⟩
        | some bridge =>
          rw [hget, Option.getD_some] at hbridge
          cases edited with
          | none =>
            obtain rfl : bridge = .null := hbridge
            exact ⟨[], rfl⟩
          | some id =>
            obtain rfl : bridge = .str id := hbridge
            obtain ⟨q, hq, rfl⟩ := hedited id rfl
            have hinherited : q ∈ above := by
              refine (hmem q hq).resolve_right ?_
              rintro ⟨own, hown, hqown⟩
              have hconv := ((mem_entriesOf hown).mp hqown).2
              have hany : path.any (fun e => e.conversationId = m.conversationId &&
                  e.entryId = q.entryId) = true :=
                List.any_eq_true.mpr ⟨q, hq, by simp [hconv]⟩
              rw [Option.filter_some, hany] at hlocal
              cases hlocal
            obtain ⟨kept, hkept⟩ := exists_pathThrough ⟨q, hinherited, rfl⟩
            refine ⟨kept, ?_⟩
            simp [hkept]
      · exact ⟨above, rfl⟩
    obtain ⟨kept, hkept⟩ := hkept
    exact ⟨above, kept, habove.extends hw.extension trivial, hkept⟩

end Written

/-! ### Removed rows -/

namespace Removed

lemma get?_conversations (hr : Removed s m s') (id : String) : s'.conversations.get? id =
    (s.conversations.get? id).filter (·.id ≠ m.conversationId) := by
  rw [hr.conversations_eq, Table.get?_filter]

lemma mem_conversations (hr : Removed s m s') {d : ConversationRow} :
    d ∈ s'.conversations.rows ↔ d ∈ s.conversations.rows ∧ d.id ≠ m.conversationId := by
  rw [hr.conversations_eq, Table.rows_filter, List.mem_filter, decide_eq_true_eq]

lemma mem_entries (hr : Removed s m s') {e : EntryDraft} :
    e ∈ s'.entries.rows ↔ e ∈ s.entries.rows ∧ e.conversationId ≠ m.conversationId := by
  rw [hr.entries_eq, Table.rows_filter, List.mem_filter, decide_eq_true_eq]

lemma extension (hr : Removed s m s') : Extends (· ≠ m.conversationId) s.entriesOf
    s.conversationParent s'.entriesOf s'.conversationParent := by
  refine extends_of_rows (fun id d p hid hd hp => ?_) (fun id d hid hd => ?_) fun id hid => ?_
  · rintro rfl
    exact hr.childless d (Table.mem_of_get? hd) hp
  · refine ⟨d, ?_, rfl, rfl⟩
    rw [hr.get?_conversations, hd, Option.filter_some, Table.key_of_get? hd]
    simp [hid]
  · refine ⟨[], ?_, by simp⟩
    rw [hr.entries_eq, Table.rows_filter, List.filter_filter, List.append_nil]
    refine List.filter_congr fun e _ => ?_
    by_cases he : e.conversationId = id
    · simp [he, hid]
    · simp [he]

lemma trees (hr : Removed s m s') (h : Trees s) : Trees s' := by
  have hentry : ∀ {id e}, s.entries.get? id = some e → e.conversationId ≠ m.conversationId →
      s'.entries.get? id = some e := by
    intro id e he hne
    rw [hr.entries_eq, Table.get?_filter, he, Option.filter_some]
    simp [hne]
  refine ⟨?_, ?_, fun e he => ?_, fun e he p hp => ?_, fun d hd id hhead => ?_,
    fun d hd hhead e he => ?_, fun d hd => ?_⟩
  · rw [hr.conversations_eq]
    refine Table.grown_filter h.conversations fun d hd _ p w hp hw => ?_
    have hne : p ≠ m.conversationId := fun heq => hr.childless d hd (heq ▸ hp)
    simpa [Table.key_of_get? hw] using hne
  · rw [hr.entries_eq]
    refine Table.grown_filter h.entries fun e he hkeep p w hp hw => ?_
    obtain ⟨q, hq, hconv⟩ := h.within e he p hp
    obtain rfl := Option.some.inj (hq.symm.trans hw)
    rwa [hconv]
  · obtain ⟨he, hne⟩ := hr.mem_entries.mp he
    obtain ⟨d, hd⟩ := hasConversation_iff.mp (h.owned e he)
    rw [hasConversation_iff, hr.get?_conversations, hd, Option.filter_some, Table.key_of_get? hd]
    simp [hne]
  · obtain ⟨he, hne⟩ := hr.mem_entries.mp he
    obtain ⟨q, hq, hconv⟩ := h.within e he p hp
    exact ⟨q, hentry hq (hconv ▸ hne), hconv⟩
  · obtain ⟨hd, hne⟩ := hr.mem_conversations.mp hd
    obtain ⟨e, he, hconv⟩ := h.heads d hd id hhead
    exact ⟨e, hentry he (hconv ▸ hne), hconv⟩
  · exact h.started d (hr.mem_conversations.mp hd).1 hhead e (hr.mem_entries.mp he).1
  · obtain ⟨hd, hne⟩ := hr.mem_conversations.mp hd
    obtain ⟨above, habove⟩ := h.inherits d hd
    exact ⟨above, habove.extends hr.extension hne⟩

lemma bridged (hr : Removed s m s') (hb : Bridged s) : Bridged s' := by
  intro e he hroot
  obtain ⟨he, hne⟩ := hr.mem_entries.mp he
  obtain ⟨above, kept, habove, hkept⟩ := hb e he hroot
  exact ⟨above, kept, habove.extends hr.extension hne, hkept⟩

end Removed

end SqliteStore

end Codey
