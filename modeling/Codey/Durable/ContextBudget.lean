import Codey.Durable.ProviderContext

/-!
# The budget of a context

What `build_context` returns fits its budget and follows the path from the newest compaction on, for
any entries and any counter; with ids that are all different it returns.
-/

namespace Codey

namespace Context

/-! ### Places on the path -/

/-- The id is that of an entry of the path, of a replacement of it, or of a missing result. -/
inductive StandsFor (root : String) : String → Prop where
  | self : StandsFor root root
  | replacement {id : String} (index : Nat) :
      StandsFor root id → StandsFor root (id ++ (":replacement:" ++ toString index))
  | missing {id : String} (call : String) :
      StandsFor root id → StandsFor root (id ++ (":missing-result:" ++ call))

/-- The ids stand for entries of the path, in its order, at or after its newest compaction. -/
def FollowsPath (entries : List EntryDraft) (ids : List String) : Prop :=
  ∃ places : List Nat, places.Pairwise (· ≤ ·) ∧
    List.Forall₂ (fun place id => ∃ e, entries[place]? = some e ∧ StandsFor e.entryId id ∧
      ∀ i c, entries[i]? = some c → c.kind = "compaction" → i ≤ place) places ids

section Assign

variable {β : Type} {key id : String} {value : β} {l : List (String × β)}

lemma lookup_assign :
    (assign key value l).lookup id = if id = key then some value else l.lookup id := by
  induction l with
  | nil =>
    rw [assign, List.lookup_cons]
    by_cases h : id = key
    · rw [if_pos h, beq_iff_eq.mpr h]
    · rw [if_neg h, beq_eq_false_iff_ne.mpr h]
  | cons p l ih =>
    obtain ⟨k, v⟩ := p
    rw [assign]
    split_ifs with hk h h
    · rw [List.lookup_cons, beq_iff_eq.mpr (h.trans hk.symm)]
    · rw [List.lookup_cons, List.lookup_cons, beq_eq_false_iff_ne.mpr (hk ▸ h)]
    · rw [List.lookup_cons, beq_eq_false_iff_ne.mpr fun he => hk (he.symm.trans h), ih, if_pos h]
    · rw [List.lookup_cons, List.lookup_cons, ih, if_neg h]

lemma assign_of_notMem (h : key ∉ l.map Prod.fst) : assign key value l = l ++ [(key, value)] := by
  induction l with
  | nil => rfl
  | cons p l ih =>
    obtain ⟨k, v⟩ := p
    simp only [List.map_cons, List.mem_cons, not_or] at h
    rw [assign, if_neg (Ne.symm h.1), ih h.2, List.cons_append]

/-- What holds of a member with any value that may be assigned to it holds after the assignment. -/
lemma forall₂_assign {γ : Type} {R : γ → String × β → Prop} {places : List γ}
    (h : List.Forall₂ R places l) (hkey : key ∈ l.map Prod.fst)
    (hset : ∀ place v, R place (key, v) → R place (key, value)) :
    List.Forall₂ R places (assign key value l) := by
  induction h with
  | nil => cases hkey
  | @cons place p places l hp hrest ih =>
    obtain ⟨k, v⟩ := p
    rw [assign]
    split_ifs with hk
    · subst hk
      exact .cons (hset place v hp) hrest
    · refine .cons hp (ih ?_)
      simpa [Ne.symm hk] using hkey

lemma map_fst_assign (hkey : key ∈ l.map Prod.fst) :
    (assign key value l).map Prod.fst = l.map Prod.fst := by
  induction l with
  | nil => cases hkey
  | cons p l ih =>
    obtain ⟨k, v⟩ := p
    rw [assign]
    split_ifs with hk
    · rw [hk, List.map_cons, List.map_cons]
    · rw [List.map_cons, List.map_cons, ih (by simpa [Ne.symm hk] using hkey)]

end Assign

/-! ### Views -/

def At (done : List EntryDraft) (place : Nat) (view : String × List EntryDraft) : Prop :=
  (∃ e, done[place]? = some e ∧ e.entryId = view.1) ∧
    ∀ item ∈ view.2, StandsFor view.1 item.entryId

/-- The views follow the path, and every id that may be edited stands for the view it is in. -/
structure Views.Follow (done : List EntryDraft) (st : Views) : Prop where
  views : ∃ places : List Nat, places.Pairwise (· < ·) ∧ (∀ place ∈ places, place < done.length) ∧
    List.Forall₂ (At done) places st.views
  originals : ∀ id source, st.originals.lookup id = some source → source.entryId = id
  roots : ∀ id root, st.roots.lookup id = some root →
    StandsFor root id ∧ root ∈ st.views.map Prod.fst

variable {io : Host} {done : List EntryDraft} {st st' : Views}

lemma At.snoc {place : Nat} {view : String × List EntryDraft} (h : At done place view)
    (e : EntryDraft) : At (done ++ [e]) place view := by
  obtain ⟨⟨f, hf, hid⟩, hitems⟩ := h
  exact ⟨⟨f, (List.getElem?_append_left (List.getElem?_eq_some_iff.mp hf).1).trans hf, hid⟩, hitems⟩

/-- The ids of what replaces a source. -/
lemma replacementEntries_spec {source : EntryDraft} {index : Nat} {messages : List Json}
    {entries : List EntryDraft} (h : replacementEntries io source index messages = .ok entries) :
    ∀ item ∈ entries, ∃ n : Nat, item.entryId = source.entryId ++ (":replacement:" ++ toString n) := by
  induction messages generalizing index entries with
  | nil =>
    rw [replacementEntries] at h
    obtain rfl := Except.ok.inj h
    simp
  | cons message messages ih =>
    cases message with
    | obj message =>
      rw [replacementEntries] at h
      obtain ⟨entry, hentry, h⟩ := except_bind_eq_ok.mp h
      obtain ⟨rest, hrest, rfl⟩ := except_last_eq_ok.mp h
      obtain ⟨payload, -, rfl⟩ := except_last_eq_ok.mp hentry
      intro item hitem
      rcases List.mem_cons.mp hitem with rfl | hitem
      · exact ⟨index, rfl⟩
      · exact ih hrest item hitem
    | _ => cases h

lemma contextReplacement_spec {source : EntryDraft} {edit : Fields} {entries : List EntryDraft}
    (h : contextReplacement io source edit = .ok entries) :
    ∀ item ∈ entries, ∃ n : Nat, item.entryId = source.entryId ++ (":replacement:" ++ toString n) := by
  unfold contextReplacement at h
  split at h
  · exact replacementEntries_spec h
  · cases h

lemma roots_assigned {root : String} (replacement : List EntryDraft) :
    ∀ (roots : List (String × String)) (id : String) (r : String),
      (replacement.foldl (fun roots item => assign item.entryId root roots) roots).lookup id
        = some r →
      (r = root ∧ ∃ item ∈ replacement, item.entryId = id) ∨ roots.lookup id = some r := by
  induction replacement with
  | nil => exact fun _ _ _ h => Or.inr h
  | cons item replacement ih =>
    intro roots id r h
    rcases ih _ id r h with ⟨hr, other, hother, hid⟩ | h
    · exact Or.inl ⟨hr, other, List.mem_cons_of_mem _ hother, hid⟩
    · rw [lookup_assign] at h
      split_ifs at h with hid
      · exact Or.inl ⟨(Option.some.inj h).symm, item, List.mem_cons_self, hid.symm⟩
      · exact Or.inr h

lemma mem_keys_assign {β : Type} {key id : String} {value : β} {l : List (String × β)}
    (h : id ∈ l.map Prod.fst) : id ∈ (assign key value l).map Prod.fst := by
  by_cases hkey : key ∈ l.map Prod.fst
  · rwa [map_fst_assign hkey]
  · rw [assign_of_notMem hkey, List.map_append]
    exact List.mem_append_left _ h

lemma mem_keys_assign_self {β : Type} {key : String} {value : β} {l : List (String × β)} :
    key ∈ (assign key value l).map Prod.fst := by
  by_cases hkey : key ∈ l.map Prod.fst
  · rwa [map_fst_assign hkey]
  · rw [assign_of_notMem hkey, List.map_append]
    exact List.mem_append_right _ (List.mem_singleton_self key)

namespace Views.Follow

lemma nil : Follow [] {} where
  views := ⟨[], .nil, by simp, .nil⟩
  originals := by simp
  roots := by simp

/-- What a view shows stands for the entry that it is named after. -/
lemma current (h : st.Follow done) {root : String} :
    ∀ item ∈ (st.views.lookup root).getD [], StandsFor root item.entryId := by
  intro item hitem
  cases hlookup : st.views.lookup root with
  | none => simp [hlookup] at hitem
  | some shown =>
    rw [hlookup, Option.getD_some] at hitem
    obtain ⟨places, -, -, hplaces⟩ := h.views
    obtain ⟨before, after, hviews, -⟩ := List.lookup_eq_some_iff.mp hlookup
    rw [hviews] at hplaces
    obtain ⟨place, -, hat, -, -⟩ := List.forall₂_cons_right_iff.mp
      (List.forall₂_drop_append _ _ _ hplaces)
    exact hat.2 item hitem

/-- The source of an edit has the id that the edit names. -/
lemma editPlace_spec (h : st.Follow done) {target root : String} {source : EntryDraft}
    {start stop : Nat} (hplace : editPlace st target root = some (source, start, stop)) :
    source.entryId = target := by
  unfold editPlace at hplace
  cases horiginal : st.originals.lookup target with
  | some original =>
    simp only [horiginal, Option.some.injEq, Prod.mk.injEq] at hplace
    rw [← hplace.1]
    exact h.originals target original horiginal
  | none =>
    simp only [horiginal] at hplace
    obtain ⟨first, hfirst, hplace⟩ := Option.bind_eq_some_iff.mp hplace
    obtain ⟨item, hitem, hplace⟩ := Option.bind_eq_some_iff.mp hplace
    obtain ⟨rfl, -⟩ := Prod.mk.inj (Option.some.inj hplace)
    obtain ⟨hlt, hid, -⟩ := List.findIdx?_eq_some_iff_getElem.mp hfirst
    rw [List.getElem?_eq_getElem hlt] at hitem
    obtain rfl := Option.some.inj hitem
    simpa using hid

lemma edit (h : st.Follow done) {raw : Json} (hedit : applyEdit io st raw = .ok st') :
    st'.Follow done := by
  cases raw with
  | obj edit =>
    rw [applyEdit] at hedit
    dsimp only at hedit
    obtain ⟨-, hedit⟩ := except_seq_eq_ok.mp hedit
    obtain ⟨-, -, hedit⟩ := except_bind_eq_ok.mp hedit
    obtain ⟨-, hedit⟩ := except_seq_eq_ok.mp hedit
    split at hedit
    · exact Except.ok.inj hedit ▸ h
    rename_i root hroot
    split at hedit
    · exact Except.ok.inj hedit ▸ h
    rename_i source start stop hplace
    obtain ⟨hstands, hkey⟩ := h.roots _ root hroot
    obtain ⟨replacement, hitems, rfl⟩ : ∃ replacement : List EntryDraft,
        (∀ item ∈ replacement, StandsFor root item.entryId) ∧
        { st with
          views := assign root ((((st.views.lookup root).getD []).take start) ++ replacement
            ++ ((st.views.lookup root).getD []).drop stop) st.views
          roots := replacement.foldl (fun roots item => assign item.entryId root roots) st.roots }
          = st' := by
      split at hedit
      · obtain ⟨replacement, hreplacement, hedit⟩ := except_bind_eq_ok.mp hedit
        refine ⟨replacement, fun item hitem => ?_, Except.ok.inj hedit⟩
        obtain ⟨n, hn⟩ := contextReplacement_spec hreplacement item hitem
        rw [hn, h.editPlace_spec hplace]
        exact hstands.replacement n
      · exact ⟨[], by simp, Except.ok.inj hedit⟩
    constructor
    case views =>
      obtain ⟨places, hsorted, hbound, hplaces⟩ := h.views
      refine ⟨places, hsorted, hbound, forall₂_assign hplaces hkey fun place shown hat => ⟨hat.1, ?_⟩⟩
      intro item hitem
      rw [List.append_assoc, List.mem_append, List.mem_append] at hitem
      rcases hitem with hitem | hitem | hitem
      · exact h.current item (List.mem_of_mem_take hitem)
      · exact hitems item hitem
      · exact h.current item (List.mem_of_mem_drop hitem)
    case originals => exact h.originals
    case roots =>
      intro id other hlookup
      rw [map_fst_assign hkey]
      rcases roots_assigned replacement _ id other hlookup with ⟨rfl, item, hitem, rfl⟩ | hlookup
      · exact ⟨hitems item hitem, hkey⟩
      · exact h.roots id other hlookup
  | _ => cases hedit

lemma snoc (h : st.Follow done) (e : EntryDraft) : st.Follow (done ++ [e]) := by
  obtain ⟨places, hsorted, hbound, hplaces⟩ := h.views
  refine ⟨⟨places, hsorted, fun place hplace => ?_, hplaces.imp fun _ _ hat => hat.snoc e⟩,
    h.originals, h.roots⟩
  rw [List.length_append]
  exact Nat.lt_add_right _ (hbound place hplace)

/-- An entry that is no edit shows itself, in the place of an entry with its id if there is one. -/
lemma show_entry (h : st.Follow done) (e : EntryDraft) :
    Views.Follow (done ++ [e])
      { originals := assign e.entryId e st.originals, views := assign e.entryId [e] st.views
        roots := assign e.entryId e.entryId st.roots } := by
  have hself : ∀ item ∈ [e], StandsFor e.entryId item.entryId := by
    intro item hitem
    obtain rfl := List.mem_singleton.mp hitem
    exact .self
  constructor
  case views =>
    obtain ⟨places, hsorted, hbound, hplaces⟩ := (h.snoc e).views
    by_cases hkey : e.entryId ∈ st.views.map Prod.fst
    · exact ⟨places, hsorted, hbound,
        forall₂_assign hplaces hkey fun place shown hat => ⟨hat.1, hself⟩⟩
    · obtain ⟨places, hsorted, hbound, hplaces⟩ := h.views
      refine ⟨places ++ [done.length], ?_, ?_, ?_⟩
      · refine List.pairwise_append.mpr ⟨hsorted, List.pairwise_singleton _ _, ?_⟩
        intro place hplace last hlast
        obtain rfl := List.mem_singleton.mp hlast
        exact hbound place hplace
      · intro place hplace
        rw [List.length_append, List.length_singleton]
        rcases List.mem_append.mp hplace with hplace | hplace
        · exact Nat.lt_succ_of_lt (hbound place hplace)
        · exact (List.mem_singleton.mp hplace) ▸ Nat.lt_succ_self _
      · rw [assign_of_notMem hkey]
        refine List.rel_append (hplaces.imp fun _ _ hat => hat.snoc e)
          (.cons ⟨⟨e, ?_, rfl⟩, hself⟩ .nil)
        rw [List.getElem?_append_right le_rfl, Nat.sub_self, List.getElem?_cons_zero]
  case originals =>
    intro id source hlookup
    rw [lookup_assign] at hlookup
    split_ifs at hlookup with hid
    · exact hid ▸ (Option.some.inj hlookup) ▸ rfl
    · exact h.originals id source hlookup
  case roots =>
    intro id root hlookup
    rw [lookup_assign] at hlookup
    split_ifs at hlookup with hid
    · obtain rfl := Option.some.inj hlookup
      exact ⟨hid ▸ .self, mem_keys_assign_self⟩
    · obtain ⟨hstands, hkey⟩ := h.roots id root hlookup
      exact ⟨hstands, mem_keys_assign hkey⟩

lemma entry (h : st.Follow done) {e : EntryDraft} (hentry : foldEntry io st e = .ok st') :
    st'.Follow (done ++ [e]) := by
  unfold foldEntry at hentry
  have hshown : Views.Follow (done ++ [e]) (if e.kind = "context_edit" then st else
      { originals := assign e.entryId e st.originals, views := assign e.entryId [e] st.views
        roots := assign e.entryId e.entryId st.roots }) := by
    split_ifs
    · exact h.snoc e
    · exact h.show_entry e
  dsimp only at hentry
  split at hentry
  · exact Except.ok.inj hentry ▸ hshown
  · split at hentry
    · exact foldE_induction (Views.Follow (done ++ [e])) hentry hshown fun _ _ _ _ hst hedit =>
        hst.edit hedit
    · cases hentry

end Views.Follow

/-! ### Candidates -/

def Stands (window : List EntryDraft) (place : Nat) (e : EntryDraft) : Prop :=
  ∃ source, window[place]? = some source ∧ StandsFor source.entryId e.entryId

def Placed (window entries : List EntryDraft) : Prop :=
  ∃ places : List Nat, places.Pairwise (· ≤ ·) ∧ List.Forall₂ (Stands window) places entries

variable {window cs entries : List EntryDraft}

lemma placed_flatMap {places : List Nat} {views : List (String × List EntryDraft)}
    (hsorted : places.Pairwise (· < ·)) (h : List.Forall₂ (At window) places views) :
    ∃ places' : List Nat, (∀ place ∈ places', place ∈ places) ∧ places'.Pairwise (· ≤ ·) ∧
      List.Forall₂ (Stands window) places' (views.flatMap Prod.snd) := by
  induction h with
  | nil => exact ⟨[], by simp, .nil, .nil⟩
  | @cons place view places views hat _ ih =>
    obtain ⟨hfirst, hsorted⟩ := List.pairwise_cons.mp hsorted
    obtain ⟨places', hmem, hsorted', hplaces⟩ := ih hsorted
    obtain ⟨⟨source, hsource, hid⟩, hitems⟩ := hat
    refine ⟨List.replicate view.2.length place ++ places', ?_, ?_, ?_⟩
    · intro other hother
      rcases List.mem_append.mp hother with hother | hother
      · exact (List.eq_of_mem_replicate hother) ▸ List.mem_cons_self
      · exact List.mem_cons_of_mem _ (hmem other hother)
    · refine List.pairwise_append.mpr ⟨List.pairwise_replicate.mpr (Or.inr le_rfl), hsorted', ?_⟩
      intro other hother later hlater
      rw [List.eq_of_mem_replicate hother]
      exact (hfirst later (hmem later hlater)).le
    · refine List.rel_append ?_ hplaces
      refine List.forall₂_iff_get.mpr ⟨by simp, fun i _ hi => ?_⟩
      rw [List.get_eq_getElem, List.getElem_replicate]
      exact ⟨source, hsource, hid ▸ hitems _ (List.get_mem _ _)⟩

lemma Placed.filter (h : Placed window entries) (p : EntryDraft → Bool) :
    Placed window (entries.filter p) := by
  obtain ⟨places, hsorted, hplaces⟩ := h
  suffices hsub : ∃ places' : List Nat, places'.Sublist places ∧
      List.Forall₂ (Stands window) places' (entries.filter p) by
    obtain ⟨places', hsub, hplaces⟩ := hsub
    exact ⟨places', hsorted.sublist hsub, hplaces⟩
  clear hsorted
  induction hplaces with
  | nil => exact ⟨[], .slnil, .nil⟩
  | @cons place e places entries hat _ ih =>
    obtain ⟨places', hsub, hplaces⟩ := ih
    rw [List.filter_cons]
    split_ifs
    · exact ⟨place :: places', hsub.cons_cons place, .cons hat hplaces⟩
    · exact ⟨places', hsub.cons place, hplaces⟩

/-- The candidates follow the path from its newest compaction on. -/
lemma contextCandidates_placed (h : contextCandidates io entries = .ok cs) :
    Placed (fromCompaction entries) cs := by
  obtain ⟨shown, hshown, rfl⟩ := except_last_eq_ok.mp h
  obtain ⟨st, hst, rfl⟩ := except_last_eq_ok.mp hshown
  have hfollow : st.Follow (fromCompaction entries) :=
    foldE_prefix (fun done st => Views.Follow done st) hst .nil
      fun _ _ _ _ _ _ hst hentry => hst.entry hentry
  obtain ⟨places, hsorted, -, hplaces⟩ := hfollow.views
  obtain ⟨places', -, hsorted', hplaces'⟩ := placed_flatMap hsorted hplaces
  exact Placed.filter ⟨places', hsorted', hplaces'⟩ _

lemma fromCompaction_spec (entries : List EntryDraft) :
    ∃ older, entries = older ++ fromCompaction entries ∧
      ∀ e ∈ (fromCompaction entries).tail, e.kind ≠ "compaction" := by
  induction entries with
  | nil => exact ⟨[], rfl, by simp [fromCompaction]⟩
  | cons e rest ih =>
    rw [fromCompaction]
    split_ifs with h
    · obtain ⟨older, hsplit, hnone⟩ := ih
      exact ⟨e :: older, by rw [List.cons_append, ← hsplit], hnone⟩
    · exact ⟨[], rfl, by simpa using h⟩

/-- What stands in the window stands on the path, at or after its newest compaction. -/
lemma Placed.followsPath (h : Placed (fromCompaction entries) cs) :
    FollowsPath entries (cs.map (·.entryId)) := by
  obtain ⟨older, hsplit, hnone⟩ := fromCompaction_spec entries
  obtain ⟨places, hsorted, hplaces⟩ := h
  refine ⟨places.map (older.length + ·), ?_, ?_⟩
  · exact List.pairwise_map.mpr (hsorted.imp fun hle => Nat.add_le_add_left hle _)
  · rw [List.forall₂_map_left_iff, List.forall₂_map_right_iff]
    refine hplaces.imp fun place e ⟨source, hsource, hstands⟩ => ⟨source, ?_, hstands, ?_⟩
    · rw [hsplit, List.getElem?_append_right (Nat.le_add_right _ _), Nat.add_sub_cancel_left, hsource]
    · intro i c hc hkind
      by_contra hlt
      -- a compaction behind the first place of the window
      obtain ⟨j, rfl⟩ : ∃ j, i = older.length + (j + 1) :=
        ⟨i - older.length - 1, by omega⟩
      rw [hsplit, List.getElem?_append_right (Nat.le_add_right _ _), Nat.add_sub_cancel_left,
        ← List.getElem?_tail] at hc
      exact hnone c (List.mem_of_getElem? hc) hkind

/-! ### Restored pairs -/

/-- The id is that of a candidate, or the one of a missing result of its parent. -/
def Known (cs : List EntryDraft) (e : EntryDraft) : Prop :=
  e.entryId ∈ cs.map (·.entryId) ∨
    ∃ parent call, e.parentId = some parent ∧ e.entryId = parent ++ (":missing-result:" ++ call)

variable {selected restored : List EntryDraft}

variable {e : EntryDraft}

lemma Known.of_mem (h : e ∈ cs) : Known cs e := Or.inl (List.mem_map_of_mem h)

lemma known_missingResult (e : EntryDraft) (id : String) : Known cs (missingResult io e id) :=
  Or.inr ⟨e.entryId, id, rfl, rfl⟩

lemma Pairing.known_add {st : Pairing} (h : ∀ a ∈ st.additions, Known cs a) (he : Known cs e) :
    ∀ a ∈ (st.add selected e).additions, Known cs a := by
  unfold Pairing.add
  split
  · exact h
  · intro a ha
    rcases List.mem_append.mp ha with ha | ha
    · exact h a ha
    · exact (List.mem_singleton.mp ha) ▸ he

lemma answerCalls_known {st st' : Pairing} (h : answerCalls io selected cs st e = .ok st')
    (hst : ∀ a ∈ st.additions, Known cs a) : ∀ a ∈ st'.additions, Known cs a := by
  unfold answerCalls at h
  split at h
  · obtain ⟨place, -, rfl⟩ := except_last_eq_ok.mp h
    refine List.foldlRecOn (motive := fun st : Pairing => ∀ a ∈ st.additions, Known cs a) _ _ hst
      fun st hst id _ => ?_
    refine Pairing.known_add hst ?_
    cases hfind : findToolResult io cs place id with
    | none => exact known_missingResult e id
    | some result => exact .of_mem (List.mem_of_mem_drop (List.mem_of_find?_eq_some hfind))
  · exact Except.ok.inj h ▸ hst

lemma pairResult_known {st st' : Pairing} (h : pairResult io selected cs st e = .ok st')
    (hst : ∀ a ∈ st.additions, Known cs a) : ∀ a ∈ st'.additions, Known cs a := by
  unfold pairResult at h
  split at h
  · split at h
    · obtain rfl := Except.ok.inj h
      split <;> exact hst
    · obtain ⟨found, hfound, h⟩ := except_bind_eq_ok.mp h
      cases found with
      | none =>
        obtain rfl := Except.ok.inj h
        exact hst
      | some call =>
        obtain rfl := Except.ok.inj h
        exact Pairing.known_add hst
          (.of_mem (List.mem_of_mem_take (List.mem_reverse.mp (findCall_mem hfound).1)))
  · exact Except.ok.inj h ▸ hst

def Sorted (cs entries : List EntryDraft) : Prop :=
  ∃ keys, keys.Pairwise (· ≤ ·) ∧ List.Forall₂ (fun key e => sortKey cs e = .ok key) keys entries

lemma sortEntries_sorted (h : sortEntries cs entries = .ok restored) :
    Sorted cs restored ∧ ∀ e ∈ restored, e ∈ entries := by
  obtain ⟨keyed, hkeyed, rfl⟩ := except_last_eq_ok.mp h
  have hpair : ∀ p ∈ keyed, sortKey cs p.2 = .ok p.1 ∧ p.2 ∈ entries := by
    intro p hp
    obtain ⟨e, he, hpair⟩ := exists_of_forall₂_right (forall₂_of_mapM hkeyed) hp
    obtain ⟨key, hkey, rfl⟩ := except_last_eq_ok.mp hpair
    exact ⟨hkey, he⟩
  have hperm := List.perm_insertionSort (fun a b : (Nat ×ₗ Bool) × EntryDraft => a.1 ≤ b.1) keyed
  refine ⟨⟨(keyed.insertionSort fun a b => a.1 ≤ b.1).map Prod.fst, ?_, ?_⟩, ?_⟩
  · have : Std.Total fun a b : (Nat ×ₗ Bool) × EntryDraft => a.1 ≤ b.1 := ⟨fun a b => le_total _ _⟩
    have : IsTrans ((Nat ×ₗ Bool) × EntryDraft) fun a b => a.1 ≤ b.1 := ⟨fun a b c => le_trans⟩
    exact List.pairwise_map.mpr (List.pairwise_insertionSort _ keyed)
  · rw [List.forall₂_map_left_iff, List.forall₂_map_right_iff, List.forall₂_same]
    exact fun p hp => (hpair p (hperm.subset hp)).1
  · intro e he
    obtain ⟨p, hp, rfl⟩ := List.mem_map.mp he
    exact (hpair p (hperm.subset hp)).2

/-- Restored entries are known and in the order of the candidates. -/
lemma restoreToolPairs_sorted (h : restoreToolPairs io selected cs = .ok restored)
    (hselected : ∀ e ∈ selected, Known cs e) :
    Sorted cs restored ∧ ∀ e ∈ restored, Known cs e := by
  obtain ⟨st, hcalls, h⟩ := except_bind_eq_ok.mp h
  obtain ⟨st', hresults, h⟩ := except_bind_eq_ok.mp h
  have hst : ∀ a ∈ st.additions, Known cs a :=
    foldE_induction (fun st : Pairing => ∀ a ∈ st.additions, Known cs a) hcalls (by simp)
      fun _ _ _ _ hst h => answerCalls_known h hst
  have hst' : ∀ a ∈ st'.additions, Known cs a :=
    foldE_induction (fun st : Pairing => ∀ a ∈ st.additions, Known cs a) hresults hst
      fun _ _ _ _ hst h => pairResult_known h hst
  obtain ⟨hsorted, hmem⟩ := sortEntries_sorted h
  refine ⟨hsorted, fun e he => ?_⟩
  rcases List.mem_append.mp (List.mem_of_mem_filter (hmem e he)) with he | he
  · exact hselected e he
  · exact hst' e he

/-- The key of a known entry is the place of a candidate that it stands for. -/
lemma sortKey_spec {key : Nat ×ₗ Bool} (h : sortKey cs e = .ok key) (he : Known cs e) :
    ∃ c, cs[(ofLex key).1]? = some c ∧ ∀ root, StandsFor root c.entryId →
      StandsFor root e.entryId := by
  unfold sortKey at h
  cases hplace : position? cs e.entryId with
  | some n =>
    rw [hplace] at h
    obtain rfl := Except.ok.inj h
    obtain ⟨c, hc, hid⟩ := position?_spec hplace
    exact ⟨c, hc, fun root hstands => hid ▸ hstands⟩
  | none =>
    rw [hplace] at h
    obtain ⟨n, hn, rfl⟩ := except_last_eq_ok.mp h
    rcases he with he | ⟨parent, call, hparent, hid⟩
    · exact absurd he (position?_eq_none.mp hplace)
    · rw [hparent, Option.getD_some, position] at hn
      cases hplace' : position? cs parent with
      | none =>
        rw [hplace'] at hn
        cases hn
      | some m =>
        rw [hplace'] at hn
        obtain rfl := Except.ok.inj hn
        obtain ⟨c, hc, rfl⟩ := position?_spec hplace'
        exact ⟨c, hc, fun root hstands => hid ▸ hstands.missing call⟩

/-- Entries in the order of candidates that follow the window follow the window. -/
lemma Sorted.placed (h : Sorted cs entries) (hknown : ∀ e ∈ entries, Known cs e)
    (hcs : Placed window cs) : Placed window entries := by
  obtain ⟨places, hsorted, hplaces⟩ := hcs
  obtain ⟨keys, hkeys, hentries⟩ := h
  have hspec : (∀ key ∈ keys, (ofLex key).1 < places.length) ∧ List.Forall₂
      (fun (key : Nat ×ₗ Bool) e => Stands window (places[(ofLex key).1]?.getD 0) e) keys
        entries := by
    clear hkeys
    induction hentries with
    | nil => exact ⟨by simp, .nil⟩
    | @cons key e keys entries hkey _ ih =>
      obtain ⟨hin, hrest⟩ := ih fun e he => hknown e (List.mem_cons_of_mem _ he)
      obtain ⟨c, hc, hstands⟩ := sortKey_spec hkey (hknown e List.mem_cons_self)
      obtain ⟨hlt, rfl⟩ := List.getElem?_eq_some_iff.mp hc
      have hlt' : (ofLex key).1 < places.length := hplaces.length_eq ▸ hlt
      refine ⟨List.forall_mem_cons.mpr ⟨hlt', hin⟩, .cons ?_ hrest⟩
      obtain ⟨source, hsource, hroot⟩ := hplaces.get hlt' hlt
      rw [List.getElem?_eq_getElem hlt', Option.getD_some]
      exact ⟨source, hsource, hstands _ hroot⟩
  obtain ⟨hin, hspec⟩ := hspec
  refine ⟨keys.map fun key => places[(ofLex key).1]?.getD 0, ?_, ?_⟩
  · refine List.pairwise_map.mpr ((List.Pairwise.and_mem.mp hkeys).imp ?_)
    rintro key key' ⟨hkey, hkey', hle⟩
    rw [List.getElem?_eq_getElem (hin key hkey), List.getElem?_eq_getElem (hin key' hkey')]
    rcases (Prod.Lex.monotone_fst key key' hle).lt_or_eq with hlt | heq
    · exact List.pairwise_iff_getElem.mp hsorted _ _ _ _ hlt
    · exact le_of_eq (by congr)
  · exact List.forall₂_map_left_iff.mpr hspec

/-! ### Shrinking -/

variable {counter : List Fields → Nat} {tokenBudget : Int}

lemma dropOldestContextUnit_sublist (io : Host) (selected : List EntryDraft) :
    (dropOldestContextUnit io selected).Sublist selected := by
  cases selected with
  | nil => exact List.Sublist.refl []
  | cons first selected =>
    unfold dropOldestContextUnit
    dsimp only
    split_ifs
    · exact List.filter_sublist.cons first
    · exact List.eraseP_sublist.cons first
    · exact List.sublist_cons_self first selected

/-- What a restored window satisfies, the shrunk one satisfies, and it fits. -/
lemma shrink_spec {rounds : Nat} {shrunk : List EntryDraft}
    (h : shrink io counter tokenBudget cs rounds selected = .ok (some shrunk))
    (hsorted : Sorted cs selected) (hknown : ∀ e ∈ selected, Known cs e) :
    Sorted cs shrunk ∧ (∀ e ∈ shrunk, Known cs e) ∧
      (shrunk = [] ∨ (tokenCount counter (shrunk.map (messageFor io)) : Int) ≤ tokenBudget) := by
  induction rounds generalizing selected with
  | zero =>
    unfold shrink at h
    split_ifs at h with hfits
    · obtain rfl := Option.some.inj (Except.ok.inj h)
      exact ⟨hsorted, hknown, hfits⟩
    · cases h
  | succ rounds ih =>
    unfold shrink at h
    split_ifs at h with hfits
    · obtain rfl := Option.some.inj (Except.ok.inj h)
      exact ⟨hsorted, hknown, hfits⟩
    · obtain ⟨restored, hrestored, h⟩ := except_bind_eq_ok.mp h
      obtain ⟨hsorted', hknown'⟩ := restoreToolPairs_sorted hrestored fun e he =>
        hknown e ((dropOldestContextUnit_sublist io selected).subset he)
      exact ih h hsorted' hknown'

lemma selectNewest_known {newest rest : List EntryDraft}
    (h : selectNewest io counter tokenBudget cs rest selected = .ok newest)
    (hrest : ∀ e ∈ rest, Known cs e) (hselected : ∀ e ∈ selected, Known cs e) :
    ∀ e ∈ newest, Known cs e := by
  induction rest generalizing selected with
  | nil => exact Except.ok.inj h ▸ hselected
  | cons e rest ih =>
    obtain ⟨cost, -, h⟩ := except_bind_eq_ok.mp h
    have he := hrest e List.mem_cons_self
    split at h
    · split at h
      · obtain rfl := Except.ok.inj h
        intro t ht
        obtain ⟨-, s, rfl⟩ := fitText_eq_some (by simp) (Option.mem_toList.mp ht)
        exact he
      · exact Except.ok.inj h ▸ hselected
    · refine ih h (fun e he => hrest e (List.mem_cons_of_mem _ he)) fun f hf => ?_
      rcases List.mem_append.mp hf with hf | hf
      · exact hselected f hf
      · exact (List.mem_singleton.mp hf) ▸ he

/-- Where restoring gives back what was dropped the loop never ends. -/
lemma shrink_stuck (hover : selected ≠ [] ∧
      tokenBudget < (tokenCount counter (selected.map (messageFor io)) : Int))
    (hback : restoreToolPairs io (dropOldestContextUnit io selected) cs = .ok selected)
    (rounds : Nat) : shrink io counter tokenBudget cs rounds selected = .ok none := by
  have hnot : ¬ (selected = [] ∨
      (tokenCount counter (selected.map (messageFor io)) : Int) ≤ tokenBudget) :=
    not_or.mpr ⟨hover.1, not_le.mpr hover.2⟩
  induction rounds with
  | zero =>
    unfold shrink
    rw [if_neg hnot]
  | succ rounds ih =>
    unfold shrink
    rw [if_neg hnot, hback]
    exact ih

/-- What a returned context looks like, for any entries. -/
lemma buildContext_spec {rounds : Nat} {snapshot : ContextSnapshot}
    (h : buildContext io counter tokenBudget rounds entries = .ok (some snapshot)) :
    snapshot.tokenCount = tokenCount counter snapshot.messages ∧
      (snapshot.tokenCount : Int) ≤ tokenBudget ∧ FollowsPath entries snapshot.entryIds := by
  obtain ⟨hbudget, h⟩ := except_seq_eq_ok.mp h
  obtain ⟨cs, hcs, h⟩ := except_bind_eq_ok.mp h
  obtain ⟨newest, hnewest, h⟩ := except_bind_eq_ok.mp h
  obtain ⟨selected, hselected, h⟩ := except_bind_eq_ok.mp h
  obtain ⟨shrunk?, hshrunk, h⟩ := except_bind_eq_ok.mp h
  cases shrunk? with
  | none => cases Except.ok.inj h
  | some shrunk =>
    obtain rfl := Option.some.inj (Except.ok.inj h)
    have hknown := selectNewest_known hnewest (fun e he => .of_mem (List.mem_reverse.mp he)) (by simp)
    obtain ⟨hsorted, hknown⟩ := restoreToolPairs_sorted hselected fun e he =>
      hknown e (List.mem_reverse.mp he)
    obtain ⟨hsorted, hknown, hfits⟩ := shrink_spec hshrunk hsorted hknown
    refine ⟨rfl, ?_, (hsorted.placed hknown (contextCandidates_placed hcs)).followsPath⟩
    rcases hfits with rfl | hfits
    · exact (by simpa using hbudget : 0 < tokenBudget).le
    · exact hfits

end Context

open Context in
/-- Every context that is returned is within its budget and follows the path from its newest
compaction on, and with ids that are all different one is returned or an error raised. -/
theorem context_budget (io : Host) (counter : List Fields → Nat) (tokenBudget : Int)
    (entries : List EntryDraft) :
    (∀ rounds snapshot, buildContext io counter tokenBudget rounds entries = .ok (some snapshot) →
      snapshot.tokenCount = (if snapshot.messages = [] then 0 else counter snapshot.messages) ∧
      (snapshot.tokenCount : Int) ≤ tokenBudget ∧ FollowsPath entries snapshot.entryIds) ∧
    ((∀ candidates, contextCandidates io entries = .ok candidates → FreshIds candidates) →
      ∀ rounds, buildContext io counter tokenBudget rounds entries ≠ .ok none) := by
  refine ⟨fun rounds snapshot h => buildContext_spec h, fun hfresh rounds h => ?_⟩
  have hbuild := h
  obtain ⟨-, h⟩ := except_seq_eq_ok.mp h
  obtain ⟨candidates, hcandidates, -⟩ := except_bind_eq_ok.mp h
  obtain ⟨snapshot, -, hsome, -⟩ :=
    buildContext_messages hcandidates (hfresh candidates hcandidates) hbuild
  cases hsome

open Context in
/-- Three messages for a budget of three. -/
theorem context_budget_sample : (∃ snapshot,
    buildContext silentHost List.length 3 0 sampleCalls = .ok (some snapshot) ∧
      snapshot.tokenCount = 3 ∧ FollowsPath sampleCalls snapshot.entryIds) ∧
    ∀ rounds, buildContext silentHost List.length 3 rounds sampleCalls ≠ .ok none := by
  obtain ⟨hreturned, hends⟩ := context_budget silentHost List.length 3 sampleCalls
  have hcount : (buildContext silentHost List.length 3 0 sampleCalls).toOption.join.map
      (·.tokenCount) = some 3 := by decide +kernel
  have hcandidates : contextCandidates silentHost sampleCalls = .ok sampleCalls := by decide +kernel
  refine ⟨?_, hends fun candidates h => ?_⟩
  · cases hbuild : buildContext silentHost List.length 3 0 sampleCalls with
    | error e =>
      rw [hbuild] at hcount
      cases hcount
    | ok snapshot? =>
      rw [hbuild] at hcount
      obtain ⟨snapshot, rfl, hthree⟩ := Option.map_eq_some_iff.mp hcount
      exact ⟨snapshot, rfl, hthree, (hreturned 0 snapshot hbuild).2.2⟩
  · obtain rfl := Except.ok.inj (hcandidates.symm.trans h)
    exact sampleCalls_fresh

/-- A printer of integers. -/
def decimalHost : Host where
  str
    | .int n => toString n
    | _ => ""
  repr := fun _ => ""
  dumps := fun _ => ""
  digest := fun _ => ""

/-- A call and its result with an integer as the id, and a message that an edit replaces under the
id of another message. -/
def sampleClash : List EntryDraft :=
  [{ entryId := "c", conversationId := "chat", parentId := none, kind := "tool_call"
     payload := [("tool_calls", .arr [.obj [("id", .int 7)]])] },
    { entryId := "r", conversationId := "chat", parentId := some "c", kind := "tool_result"
      payload := [("call_id", .int 7)] },
    { entryId := "a", conversationId := "chat", parentId := some "r", kind := "user_message"
      payload := [("text", .str "w")] },
    { entryId := "a:replacement:0", conversationId := "chat", parentId := some "a"
      kind := "user_message", payload := [("text", .str "y")] },
    { entryId := "e", conversationId := "chat", parentId := some "a:replacement:0"
      kind := "context_edit"
      payload := [("edits", .arr [.obj [("target", .str "a"), ("action", .str "replace"),
        ("messages", .arr [.obj [("role", .str "user"), ("content", .str "x")]])]])] }]

def clashShown : List EntryDraft :=
  (sampleClash.take 4).set 2
    { entryId := "a:replacement:0", conversationId := "chat", parentId := some "r"
      kind := "user_message", payload := [("text", .str "x")] }

/-- A counter that finds four messages too many when the last one is `y`. -/
def clashCounter (messages : List Fields) : Nat :=
  if messages.length = 4 ∧ (messages.getLast?.bind (·.get? "content")) = some (.str "y") then 100
  else 1

open Context in
/-- The count of no messages is zero whatever the counter says of them, and with an id that stands
twice the shrinking loop can run for ever. -/
theorem context_budget_unmet :
    (∃ snapshot, buildContext silentHost (fun _ => 3) 10 0 [] = .ok (some snapshot) ∧
      snapshot.messages = [] ∧ snapshot.tokenCount = 0) ∧
    ∀ rounds, buildContext decimalHost clashCounter 10 rounds sampleClash = .ok none := by
  refine ⟨⟨_, rfl, rfl, rfl⟩, fun rounds => ?_⟩
  have hcandidates : contextCandidates decimalHost sampleClash = .ok clashShown := by decide +kernel
  have hnewest : selectNewest decimalHost clashCounter 10 clashShown clashShown.reverse []
      = .ok clashShown.reverse := by decide +kernel
  have hselected : restoreToolPairs decimalHost clashShown clashShown = .ok clashShown := by
    decide +kernel
  have hstuck : shrink decimalHost clashCounter 10 clashShown rounds clashShown = .ok none :=
    shrink_stuck (by decide +kernel) (by decide +kernel) rounds
  have hbudget : decide ((0 : Int) < 10) = true := rfl
  unfold buildContext
  simp only [hbudget, require_true, bind, Except.bind, hcandidates, hnewest, List.reverse_reverse,
    hselected, hstuck]
  rfl

end Codey
