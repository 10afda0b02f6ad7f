import Codey.Durable.Forks

/-!
# What appended entries show

A chain of entries behind the head of a conversation extends its path by that chain, and its
context as the head markers in the chain say.
-/

namespace Codey

/-! ### Local paths -/

def Chained : Option String → List EntryDraft → Prop
  | _, [] => True
  | leaf, e :: es => e.parentId = leaf ∧ Chained (some e.entryId) es

/-- A walk does not see ids that are not on its way. -/
lemma localPathUp_seen {own : List EntryDraft} {id : String} (fuel : Nat) :
    ∀ {seen seen' : List String} {leaf : String} {up : List EntryDraft},
      localPathUp own fuel seen leaf = .ok up → (∀ e ∈ up, e.entryId ≠ id) →
      (∀ x ∈ seen', x ∈ seen ∨ x = id) → localPathUp own fuel seen' leaf = .ok up := by
  induction fuel with
  | zero =>
    intro seen seen' leaf up h
    cases h
  | succ fuel ih =>
    intro seen seen' leaf up h hne hseen'
    have hup := localUp_of_localPathUp _ h
    have hhead : leaf ≠ id := by
      rintro rfl
      obtain ⟨e, he, hid⟩ := Option.map_eq_some_iff.mp hup.leaf
      exact hne e (List.mem_of_head? he) hid
    simp only [localPathUp, except_seq_eq_ok, require_eq_ok, Bool.not_eq_true',
      List.contains_eq_mem, decide_eq_false_iff_not] at h ⊢
    refine ⟨fun hin => ?_, ?_⟩
    · rcases hseen' leaf hin with hin | heq
      · exact h.1 hin
      · exact hhead heq
    · have h := h.2
      split at h
      · cases h
      rename_i e he
      split at h
      · exact h
      · obtain ⟨rest, hrest, rfl⟩ := except_last_eq_ok.mp h
        refine except_bind_eq_ok.mpr ⟨rest, ih hrest (fun f hf => hne f (by simp [hf])) ?_, rfl⟩
        intro x hx
        rcases List.mem_cons.mp hx with rfl | hx
        · exact Or.inl (by simp)
        · exact (hseen' x hx).imp (List.mem_cons_of_mem _) fun heq => heq

/-- An entry under a new id extends the local path to its parent. -/
lemma localPath_snoc {own tail : List EntryDraft} {leaf : String} {e : EntryDraft}
    (h : localPath own leaf = .ok tail) (hparent : e.parentId = some leaf)
    (hfresh : ∀ f ∈ own, f.entryId ≠ e.entryId) :
    localPath (own ++ [e]) e.entryId = .ok (tail ++ [e]) := by
  obtain ⟨up, hup, rfl⟩ := except_last_eq_ok.mp h
  have hmem := (localUp_of_localPathUp _ hup).sub
  have hlonger : localPathUp (own ++ [e]) (own.length + 1) [] leaf = .ok up :=
    localPathUp_append (Nat.le_refl _) hup
  have hfind : (own ++ [e]).find? (·.entryId = e.entryId) = some e := by
    rw [List.find?_append, List.find?_eq_none.mpr fun f hf => by simpa using hfresh f hf]
    simp
  refine except_bind_eq_ok.mpr ⟨e :: up, ?_, by rw [List.reverse_cons]; rfl⟩
  rw [List.length_append, List.length_singleton]
  simp only [localPathUp, except_seq_eq_ok, require_eq_ok, hfind, hparent]
  refine ⟨by simp, except_bind_eq_ok.mpr ⟨up, ?_, rfl⟩⟩
  exact localPathUp_seen _ hlonger (fun f hf => hfresh f (hmem f hf)) (by simp)

lemma localPath_root {own : List EntryDraft} {e : EntryDraft} (hparent : e.parentId = none)
    (hfresh : ∀ f ∈ own, f.entryId ≠ e.entryId) :
    localPath (own ++ [e]) e.entryId = .ok [e] := by
  have hfind : (own ++ [e]).find? (·.entryId = e.entryId) = some e := by
    rw [List.find?_append, List.find?_eq_none.mpr fun f hf => by simpa using hfresh f hf]
    simp
  refine except_bind_eq_ok.mpr ⟨[e], ?_, rfl⟩
  simp only [localPathUp, except_seq_eq_ok, require_eq_ok, hfind, hparent]
  exact ⟨by simp, rfl⟩

lemma localPath_chain {own tail : List EntryDraft} {leaf : String} {es : List EntryDraft}
    (h : localPath own leaf = .ok tail) (hchain : Chained (some leaf) es)
    (hfresh : ∀ f ∈ own, ∀ e ∈ es, f.entryId ≠ e.entryId) (hnodup : (es.map (·.entryId)).Nodup) :
    localPath (own ++ es) ((es.getLast?.map (·.entryId)).getD leaf) = .ok (tail ++ es) := by
  induction es generalizing own tail leaf with
  | nil => simpa using h
  | cons e es ih =>
    rw [List.map_cons, List.nodup_cons] at hnodup
    have hfirst := localPath_snoc h hchain.1 fun f hf => hfresh f hf e (by simp)
    have hrest := ih hfirst hchain.2 (fun f hf g hg => ?_) hnodup.2
    · simp only [List.append_assoc, List.singleton_append] at hrest
      rw [← hrest]
      congr 1
      cases es with
      | nil => rfl
      | cons f es => rw [List.getLast?_cons_cons]; cases hlast : (f :: es).getLast? <;> simp_all
    · rcases List.mem_append.mp hf with hf | hf
      · exact hfresh f hf g (by simp [hg])
      · obtain rfl := List.mem_singleton.mp hf
        exact fun heq => hnodup.1 (heq ▸ List.mem_map_of_mem hg)

/-- The whole local path of a conversation whose first entries are given. -/
lemma localPath_chain_root {own : List EntryDraft} {e : EntryDraft} {es : List EntryDraft}
    (hchain : Chained none (e :: es)) (hfresh : ∀ f ∈ own, ∀ g ∈ e :: es, f.entryId ≠ g.entryId)
    (hnodup : ((e :: es).map (·.entryId)).Nodup) :
    localPath (own ++ e :: es) ((es.getLast?.map (·.entryId)).getD e.entryId) = .ok (e :: es) := by
  have hroot := localPath_root hchain.1 fun f hf => hfresh f hf e (by simp)
  rw [List.map_cons, List.nodup_cons] at hnodup
  have hrest := localPath_chain hroot hchain.2 (fun f hf g hg => ?_) hnodup.2
  · rwa [List.append_assoc] at hrest
  · rcases List.mem_append.mp hf with hf | hf
    · exact hfresh f hf g (by simp [hg])
    · obtain rfl := List.mem_singleton.mp hf
      exact fun heq => hnodup.1 (heq ▸ List.mem_map_of_mem hg)

/-! ### Shown paths -/

variable {entries entries' : EntryReads} {parent parent' : ParentReads} {c : String}
  {leaf : Option String} {path above own es : List EntryDraft}

def leafAfter (leaf : Option String) (es : List EntryDraft) : Option String :=
  (es.getLast?.map (·.entryId)).or leaf

/-- A chain that continues a local leaf, or starts a conversation without naming a replaced input,
extends the path. -/
lemma extendPath_chain (hpath : extendPath entries above (c, leaf) = .ok path)
    (hown : entries c = .ok own) (hown' : entries' c = .ok (own ++ es))
    (hlocal : ∀ id, leaf = some id → own.any (·.entryId = id) = true)
    (hplain : leaf = none → ∀ e ∈ es, e.payload.truthy "edited_entry_id" = false)
    (hchain : Chained leaf es) (hfresh : ∀ f ∈ own, ∀ e ∈ es, f.entryId ≠ e.entryId)
    (hnodup : (es.map (·.entryId)).Nodup) :
    extendPath entries' above (c, leafAfter leaf es) = .ok (path ++ es) := by
  have hmem : ∀ (e : EntryDraft) (es : List EntryDraft),
      ∃ f ∈ e :: es, f.entryId = (es.getLast?.map (·.entryId)).getD e.entryId := by
    intro e es
    cases hlast : es.getLast? with
    | none => exact ⟨e, by simp, rfl⟩
    | some f => exact ⟨f, by simp [List.mem_of_getLast? hlast], rfl⟩
  cases leaf with
  | none =>
    obtain rfl := Except.ok.inj hpath
    cases es with
    | nil => simp [leafAfter, extendPath]
    | cons e es =>
      have hend : leafAfter none (e :: es) =
          some ((es.getLast?.map (·.entryId)).getD e.entryId) := by
        cases es with
        | nil => rfl
        | cons f es =>
          rw [leafAfter, List.getLast?_cons_cons]
          cases hlast : (f :: es).getLast? with
          | none => simp at hlast
          | some g => rfl
      have htail := localPath_chain_root hchain hfresh hnodup
      obtain ⟨g, hg, hgid⟩ := hmem e es
      rw [hend]
      refine except_bind_eq_ok.mpr ⟨_, hown', ?_⟩
      dsimp only
      rw [if_pos (List.any_eq_true.mpr ⟨g, List.mem_append_right _ hg, by simpa using hgid⟩), htail]
      refine except_bind_eq_ok.mpr ⟨_, rfl, except_bind_eq_ok.mpr ⟨above, ?_, rfl⟩⟩
      rw [inheritedPrefix, hplain rfl e (by simp)]
      rfl
  | some id =>
    have hin := hlocal id rfl
    obtain ⟨own', hown'', hpath⟩ := except_bind_eq_ok.mp hpath
    obtain rfl := Except.ok.inj (hown.symm.trans hown'')
    dsimp only at hpath
    rw [if_pos hin] at hpath
    obtain ⟨tail, htail, hpath⟩ := except_bind_eq_ok.mp hpath
    have hlonger := localPath_chain htail hchain hfresh hnodup
    have hend : leafAfter (some id) es = some ((es.getLast?.map (·.entryId)).getD id) := by
      cases hlast : es.getLast? <;> simp [leafAfter, hlast]
    rw [hend]
    refine except_bind_eq_ok.mpr ⟨_, hown', ?_⟩
    dsimp only
    rw [if_pos, hlonger]
    · refine except_bind_eq_ok.mpr ⟨_, rfl, ?_⟩
      cases tail with
      | nil =>
        obtain ⟨up, hup, hrev⟩ := except_bind_eq_ok.mp htail
        have hleaf := (localUp_of_localPathUp _ hup).leaf
        have hnil : up = [] := by simpa using Except.ok.inj hrev
        rw [hnil] at hleaf
        cases hleaf
      | cons root tail =>
        obtain ⟨kept, hkept, rfl⟩ := except_last_eq_ok.mp hpath
        exact except_bind_eq_ok.mpr ⟨kept, hkept, by rw [List.append_assoc]; rfl⟩
    · cases hlast : es.getLast? with
      | none => simpa [List.any_append] using Or.inl (by simpa using hin)
      | some f =>
        refine List.any_eq_true.mpr ⟨f, List.mem_append_right _ (List.mem_of_getLast? hlast), ?_⟩
        simp

theorem Shown.chain (h : Shown entries parent c leaf path)
    (hx : Extends (fun _ => True) entries parent entries' parent') (hown : entries c = .ok own)
    (hown' : entries' c = .ok (own ++ es))
    (hlocal : ∀ id, leaf = some id → own.any (·.entryId = id) = true)
    (hplain : leaf = none → ∀ e ∈ es, e.payload.truthy "edited_entry_id" = false)
    (hchain : Chained leaf es) (hfresh : ∀ f ∈ own, ∀ e ∈ es, f.entryId ≠ e.entryId)
    (hnodup : (es.map (·.entryId)).Nodup) :
    Shown entries' parent' c (leafAfter leaf es) (path ++ es) := by
  obtain ⟨above, habove, hpath⟩ := shown_iff.mp h
  refine shown_iff.mpr ⟨above, habove.extends hx trivial, ?_⟩
  exact extendPath_chain hpath hown hown' hlocal hplain hchain hfresh hnodup

/-! ### Contexts -/

def marker (e : EntryDraft) : Bool := e.payload.get? "head_marker" = some (.bool true)

/-- The context after one more entry. -/
def grow (shown : List EntryDraft) (e : EntryDraft) : List EntryDraft :=
  if marker e then [e] else shown ++ [e]

lemma applyHeadCut_snoc (path : List EntryDraft) (e : EntryDraft) :
    applyHeadCut (path ++ [e]) = grow (applyHeadCut path) e := by
  induction path with
  | nil => simp [applyHeadCut, grow]
  | cons f path ih =>
    rw [List.cons_append, applyHeadCut, applyHeadCut, List.any_append, List.any_cons, List.any_nil,
      Bool.or_false]
    change (if (_ || marker e) = true then _ else _) = _
    cases hpath : path.any fun f => f.payload.get? "head_marker" = some (.bool true) with
    | true => simp [ih]
    | false =>
      cases he : marker e with
      | true => simp [ih, grow, he]
      | false => simp [grow, he]

namespace SqliteStore

variable {s : SqliteStore} {io : Responses}

lemma resolve_append {path path' tail tail' : List EntryDraft}
    (h : s.resolveResponseEntries io path = .ok path')
    (htail : s.resolveResponseEntries io tail = .ok tail') :
    s.resolveResponseEntries io (path ++ tail) = .ok (path' ++ tail') := by
  induction path generalizing path' with
  | nil =>
    obtain rfl := Except.ok.inj h
    exact htail
  | cons e path ih =>
    obtain ⟨e', he, h⟩ := except_bind_eq_ok.mp h
    obtain ⟨rest, hrest, rfl⟩ := except_last_eq_ok.mp h
    exact except_bind_eq_ok.mpr ⟨e', he, except_bind_eq_ok.mpr ⟨_, ih hrest, rfl⟩⟩

end SqliteStore

end Codey
