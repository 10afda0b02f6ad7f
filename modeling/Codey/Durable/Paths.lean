import Codey.Lib.Forest
import Codey.Durable.Ancestry

/-!
# What a conversation shows

`Shown` says which entries `context_path` shows, by recursion along the forks: a conversation
continues what is inherited through its cap. The walk with its visited set computes it, and rows
that are added later do not change it.
-/

namespace Codey

/-- The reads that a path is resolved with: the entries of a conversation, and its parent and
cap. -/
abbrev EntryReads := String → Except Error (List EntryDraft)

abbrev ParentReads := String → Except Error (Option String × Option String)

/-! ### Local paths -/

/-- What a walk up the entries of one conversation has found. -/
structure LocalUp (own : List EntryDraft) (seen : List String) (leaf : String)
    (up : List EntryDraft) : Prop where
  sub : ∀ e ∈ up, e ∈ own
  nodup : (up.map (·.entryId)).Nodup
  fresh : ∀ e ∈ up, e.entryId ∉ seen
  leaf : up.head?.map (·.entryId) = some leaf
  root : ∀ e, up.getLast? = some e → e.parentId = none

lemma localUp_of_localPathUp {own : List EntryDraft} (fuel : Nat) :
    ∀ {seen : List String} {leaf : String} {up : List EntryDraft},
      localPathUp own fuel seen leaf = .ok up → LocalUp own seen leaf up := by
  induction fuel with
  | zero =>
    intro seen leaf up h
    cases h
  | succ fuel ih =>
    intro seen leaf up h
    simp only [localPathUp, except_seq_eq_ok, require_eq_ok, Bool.not_eq_true',
      List.contains_eq_mem, decide_eq_false_iff_not] at h
    obtain ⟨hseen, h⟩ := h
    split at h
    · cases h
    rename_i e he
    have hid : e.entryId = leaf := by simpa using List.find?_some he
    have hmem := List.mem_of_find?_eq_some he
    split at h
    · rename_i hroot
      obtain rfl := Except.ok.inj h
      refine ⟨by simpa using hmem, by simp, ?_, by simp [hid], ?_⟩
      · simpa [hid] using hseen
      · simp [hroot]
    · obtain ⟨rest, hrest, rfl⟩ := except_last_eq_ok.mp h
      have hup := ih hrest
      refine ⟨?_, ?_, ?_, by simp [hid], ?_⟩
      · simpa [hmem] using hup.sub
      · refine List.nodup_cons.mpr ⟨fun hin => ?_, hup.nodup⟩
        obtain ⟨f, hf, hfe⟩ := List.mem_map.mp hin
        exact hup.fresh f hf (by simp [hfe, hid])
      · intro f hf
        rcases List.mem_cons.mp hf with rfl | hf
        · rwa [hid]
        · exact fun hin => hup.fresh f hf (List.mem_cons_of_mem _ hin)
      · intro f hf
        have hne : rest ≠ [] := by
          intro hnil
          have := hup.leaf
          simp [hnil] at this
        rw [List.getLast?_cons_of_ne_nil hne] at hf
        exact hup.root f hf

/-- New entries under new ids do not change a walk. -/
lemma localPathUp_append {own new : List EntryDraft} {fuel fuel' : Nat} (hfuel : fuel ≤ fuel') :
    ∀ {seen : List String} {leaf : String} {up : List EntryDraft},
      localPathUp own fuel seen leaf = .ok up →
      localPathUp (own ++ new) fuel' seen leaf = .ok up := by
  induction fuel generalizing fuel' with
  | zero =>
    intro seen leaf up h
    cases h
  | succ fuel ih =>
    obtain ⟨fuel', rfl⟩ := Nat.exists_eq_add_of_lt hfuel
    intro seen leaf up h
    simp only [localPathUp, except_seq_eq_ok] at h ⊢
    refine ⟨h.1, ?_⟩
    have h := h.2
    split at h
    · cases h
    rename_i e he
    rw [List.find?_append, he]
    simp only [Option.some_or]
    split at h
    · exact h
    · obtain ⟨rest, hrest, h⟩ := except_bind_eq_ok.mp h
      exact except_bind_eq_ok.mpr ⟨rest, ih (by omega) hrest, h⟩

lemma mem_of_localPath {own tail : List EntryDraft} {leaf : String} {e : EntryDraft}
    (h : localPath own leaf = .ok tail) (he : e ∈ tail) : e ∈ own := by
  obtain ⟨up, hup, rfl⟩ := except_last_eq_ok.mp h
  exact (localUp_of_localPathUp _ hup).sub e (List.mem_reverse.mp he)

lemma localPath_append {own new : List EntryDraft} {leaf : String} {tail : List EntryDraft}
    (h : localPath own leaf = .ok tail) : localPath (own ++ new) leaf = .ok tail := by
  obtain ⟨up, hup, h⟩ := except_bind_eq_ok.mp h
  exact except_bind_eq_ok.mpr ⟨up, localPathUp_append (by simp) hup, h⟩

/-- A walk along stored parents ends at a root. -/
lemma exists_localPathUp {own : List EntryDraft} {up : String → Option String} {leaf : String}
    {ids : List String} (h : Climb up leaf ids)
    (hown : ∀ id ∈ ids, ∃ e, own.find? (·.entryId = id) = some e ∧ e.parentId = up id)
    (extra : Nat) : ∀ {seen : List String}, (∀ id ∈ ids, id ∉ seen) →
      ∃ path, localPathUp own (extra + ids.length) seen leaf = .ok path := by
  induction h with
  | @root a hroot =>
    intro seen hseen
    obtain ⟨e, he, hparent⟩ := hown a (by simp)
    rw [hroot] at hparent
    refine ⟨[e], ?_⟩
    simp only [List.length_singleton, localPathUp, except_seq_eq_ok, require_eq_ok, he, hparent]
    exact ⟨by simpa using hseen a (by simp), rfl⟩
  | @step a b l hstep hclimb ih =>
    intro seen hseen
    obtain ⟨e, he, hparent⟩ := hown a (by simp)
    rw [hstep] at hparent
    obtain ⟨path, hpath⟩ := @ih (fun id hid => hown id (by simp [hid])) (a :: seen)
      fun id hid hmem => by
        rcases List.mem_cons.mp hmem with rfl | hmem
        · exact hclimb.notMem_rest hstep hid
        · exact hseen id (by simp [hid]) hmem
    refine ⟨e :: path, ?_⟩
    simp only [List.length_cons, ← Nat.add_assoc, localPathUp, except_seq_eq_ok, require_eq_ok,
      he, hparent, hpath]
    exact ⟨by simpa using hseen a (by simp), rfl⟩

/-- From a stored entry whose parents are stored, the local path leads from a root. -/
lemma exists_localPath (own : List EntryDraft) {up : String → Option String} {leaf : String}
    {ids : List String} (h : Climb up leaf ids)
    (hown : ∀ id ∈ ids, ∃ e, own.find? (·.entryId = id) = some e ∧ e.parentId = up id) :
    ∃ root tail, localPath own leaf = .ok (root :: tail) ∧ root ∈ own ∧ root.parentId = none := by
  have hsub : ids ⊆ own.map (·.entryId) := by
    intro id hid
    obtain ⟨e, he, -⟩ := hown id hid
    have hentry : e.entryId = id := by simpa using List.find?_some he
    exact hentry ▸ List.mem_map_of_mem (List.mem_of_find?_eq_some he)
  have hlength : ids.length ≤ own.length := by
    simpa using (h.nodup.subperm hsub).length_le
  have hfuel : ids.length ≤ own.length + 1 := hlength.trans (Nat.le_succ _)
  obtain ⟨extra, hextra⟩ := Nat.exists_eq_add_of_le' hfuel
  obtain ⟨up', hup⟩ := exists_localPathUp h hown extra fun id _ => List.not_mem_nil (a := id)
  have hlocal := localUp_of_localPathUp _ hup
  have hne : up' ≠ [] := fun hnil => by
    have := hlocal.leaf
    simp [hnil] at this
  have hpath : localPath own leaf = .ok up'.reverse := by
    rw [localPath, hextra, hup]
    rfl
  cases hrev : up'.reverse with
  | nil => exact absurd (List.reverse_eq_nil_iff.mp hrev) hne
  | cons root tail =>
    have hlast : up'.getLast? = some root := by
      rw [← List.head?_reverse, hrev]
      rfl
    exact ⟨root, tail, by rw [hpath, hrev], hlocal.sub root (List.mem_of_getLast? hlast),
      hlocal.root root hlast⟩

/-! ### Prefixes -/

variable {id : String}

lemma pathThrough_eq_some {path kept : List EntryDraft} (h : pathThrough path id = some kept) :
    kept <+: path ∧ kept.getLast?.map (·.entryId) = some id := by
  induction path generalizing kept with
  | nil => cases h
  | cons e path ih =>
    unfold pathThrough at h
    split at h
    · rename_i hid
      obtain rfl := Option.some.inj h
      exact ⟨by simp, by simp [hid]⟩
    · obtain ⟨rest, hrest, rfl⟩ := Option.map_eq_some_iff.mp h
      obtain ⟨hpre, hlast⟩ := ih hrest
      refine ⟨List.cons_prefix_cons.mpr ⟨rfl, hpre⟩, ?_⟩
      have hne : rest ≠ [] := fun hnil => by simp [hnil] at hlast
      rwa [List.getLast?_cons_of_ne_nil hne]

lemma exists_pathThrough {path : List EntryDraft} (h : ∃ e ∈ path, e.entryId = id) :
    ∃ kept, pathThrough path id = some kept := by
  induction path with
  | nil => simp at h
  | cons e path ih =>
    unfold pathThrough
    split
    · exact ⟨_, rfl⟩
    · rename_i hne
      obtain ⟨f, hf, hfe⟩ := h
      have hf : f ∈ path := (List.mem_cons.mp hf).resolve_left fun heq => hne (heq ▸ hfe)
      obtain ⟨kept, hkept⟩ := ih ⟨f, hf, hfe⟩
      exact ⟨_, by rw [hkept]; rfl⟩

/-- The prefix that ends with the last entry is the whole path. -/
lemma pathThrough_last {path : List EntryDraft} (hnodup : (path.map (·.entryId)).Nodup)
    (hlast : path.getLast?.map (·.entryId) = some id) : pathThrough path id = some path := by
  induction path with
  | nil => cases hlast
  | cons e path ih =>
    rw [List.map_cons, List.nodup_cons] at hnodup
    unfold pathThrough
    cases path with
    | nil => simp at hlast; simp [hlast]
    | cons f path =>
      rw [List.getLast?_cons_cons] at hlast
      have hne : e.entryId ≠ id := by
        rintro rfl
        obtain ⟨g, hg, hge⟩ := Option.map_eq_some_iff.mp hlast
        exact hnodup.1 (hge ▸ List.mem_map_of_mem (List.mem_of_getLast? hg))
      rw [if_neg hne, ih hnodup.2 hlast]
      rfl

lemma inheritedPrefix_eq_ok {path kept : List EntryDraft} {root : EntryDraft}
    (h : inheritedPrefix path root = .ok kept) : kept <+: path := by
  unfold inheritedPrefix at h
  split at h
  · split at h
    · obtain rfl := Except.ok.inj h
      exact List.nil_prefix
    · obtain rfl := Except.ok.inj h
      exact List.nil_prefix
    · split at h
      · rename_i hbridge
        obtain rfl := Except.ok.inj h
        obtain ⟨id, -, hid⟩ := Option.bind_eq_some_iff.mp hbridge
        exact (pathThrough_eq_some hid).1
      · cases h
  · obtain rfl := Except.ok.inj h
    exact List.prefix_rfl

/-- A conversation extends what it inherits by the local path to its leaf, or the leaf is an
inherited entry. -/
lemma extendPath_cases {entries : EntryReads} {above path : List EntryDraft} {c id : String}
    (h : extendPath entries above (c, some id) = .ok path) : ∃ own, entries c = .ok own ∧
      ((own.any (·.entryId = id) = true ∧ ∃ tail kept, localPath own id = .ok tail ∧
          kept <+: above ∧ path = kept ++ tail) ∨
        (own.any (·.entryId = id) = false ∧ pathThrough above id = some path)) := by
  unfold extendPath at h
  obtain ⟨own, hown, h⟩ := except_bind_eq_ok.mp h
  refine ⟨own, hown, ?_⟩
  dsimp only at h
  split at h <;> rename_i hlocal
  · obtain ⟨tail, htail, h⟩ := except_bind_eq_ok.mp h
    refine Or.inl ⟨hlocal, tail, ?_⟩
    cases tail with
    | nil =>
      obtain rfl := Except.ok.inj h
      exact ⟨above, htail, List.prefix_rfl, rfl⟩
    | cons root tail =>
      obtain ⟨kept, hkept, rfl⟩ := except_last_eq_ok.mp h
      exact ⟨kept, htail, inheritedPrefix_eq_ok hkept, rfl⟩
  · split at h
    · rename_i kept hkept
      obtain rfl := Except.ok.inj h
      exact Or.inr ⟨by simpa using hlocal, hkept⟩
    · cases h

/-! ### Shown paths -/

/-- What a conversation shows up to a leaf, when it inherits a path from the conversation that it
was forked from. -/
inductive Shown (entries : EntryReads) (parent : ParentReads) :
    String → Option String → List EntryDraft → Prop where
  | root {c : String} {leaf : Option String} {path : List EntryDraft} :
      parent c = .ok (none, none) → extendPath entries [] (c, leaf) = .ok path →
      Shown entries parent c leaf path
  | fork {c p : String} {leaf cap : Option String} {above path : List EntryDraft} :
      parent c = .ok (some p, cap) → Shown entries parent p cap above →
      extendPath entries above (c, leaf) = .ok path → Shown entries parent c leaf path

/-- What a conversation inherits. -/
inductive Inherits (entries : EntryReads) (parent : ParentReads) (c : String) :
    List EntryDraft → Prop where
  | root : parent c = .ok (none, none) → Inherits entries parent c []
  | fork {p : String} {cap : Option String} {above : List EntryDraft} :
      parent c = .ok (some p, cap) → Shown entries parent p cap above →
      Inherits entries parent c above

variable {entries entries' : EntryReads} {parent parent' : ParentReads} {c : String}
  {leaf : Option String} {path above : List EntryDraft}

lemma shown_iff : Shown entries parent c leaf path ↔
    ∃ above, Inherits entries parent c above ∧ extendPath entries above (c, leaf) = .ok path := by
  constructor
  · rintro (⟨hroot, h⟩ | ⟨hfork, habove, h⟩)
    · exact ⟨[], .root hroot, h⟩
    · exact ⟨_, .fork hfork habove, h⟩
  · rintro ⟨above, hroot | ⟨hfork, habove⟩, h⟩
    · exact .root hroot h
    · exact .fork hfork habove h

def forkUp (parent : ParentReads) (c : String) : Option String :=
  match parent c with
  | .ok (p, _) => p
  | .error _ => none

/-- The conversations that a path leads through, each with its leaf. -/
inductive Scopes (parent : ParentReads) :
    String → Option String → List (String × Option String) → Prop where
  | root {c : String} {leaf : Option String} : parent c = .ok (none, none) →
      Scopes parent c leaf [(c, leaf)]
  | fork {c p : String} {leaf cap : Option String} {scopes : List (String × Option String)} :
      parent c = .ok (some p, cap) → Scopes parent p cap scopes →
      Scopes parent c leaf ((c, leaf) :: scopes)

lemma Scopes.climb {scopes : List (String × Option String)} (h : Scopes parent c leaf scopes) :
    Climb (forkUp parent) c (scopes.map Prod.fst) := by
  induction h with
  | root hroot => exact .root (by simp [forkUp, hroot])
  | fork hfork _ ih => exact .step (by simp [forkUp, hfork]) ih

lemma scopes_of_ancestry (fuel : Nat) : ∀ {seen : List String} {c : String}
    {leaf : Option String} {scopes : List (String × Option String)},
    ancestry parent fuel seen c leaf = .ok scopes → Scopes parent c leaf scopes := by
  induction fuel with
  | zero =>
    intro seen c leaf scopes h
    cases h
  | succ fuel ih =>
    intro seen c leaf scopes h
    simp only [ancestry, except_seq_eq_ok] at h
    obtain ⟨-, h⟩ := h
    obtain ⟨r, hr, h⟩ := except_bind_eq_ok.mp h
    split at h
    · obtain rfl := Except.ok.inj h
      exact .root hr
    · cases h
    · obtain ⟨rest, hrest, rfl⟩ := except_last_eq_ok.mp h
      exact .fork hr (ih hrest)

lemma Scopes.ancestry {scopes : List (String × Option String)}
    (h : Scopes parent c leaf scopes) (extra : Nat) : ∀ {seen : List String},
      (∀ id ∈ scopes.map Prod.fst, id ∉ seen) →
      ancestry parent (extra + scopes.length) seen c leaf = .ok scopes := by
  induction h with
  | @root c leaf hroot =>
    intro seen hseen
    simp only [List.length_singleton, Codey.ancestry, except_seq_eq_ok, require_eq_ok]
    refine ⟨by simpa using hseen c (by simp), ?_⟩
    rw [hroot]
    rfl
  | @fork c p leaf cap scopes hfork hscopes ih =>
    intro seen hseen
    have hrest := @ih (c :: seen) fun id hid hmem => by
      rcases List.mem_cons.mp hmem with rfl | hmem
      · exact hscopes.climb.notMem_rest (by simp [forkUp, hfork]) hid
      · exact hseen id (by simp only [List.map_cons, List.mem_cons]; exact Or.inr hid) hmem
    simp only [List.length_cons, ← Nat.add_assoc, Codey.ancestry, except_seq_eq_ok, require_eq_ok]
    refine ⟨by simpa using hseen c (by simp), ?_⟩
    rw [hfork]
    exact except_bind_eq_ok.mpr ⟨_, rfl, except_bind_eq_ok.mpr ⟨scopes, hrest, rfl⟩⟩

/-- Folding the conversations from the root down shows what the recursion along the forks shows. -/
lemma shown_iff_scopes : Shown entries parent c leaf path ↔ ∃ scopes,
    Scopes parent c leaf scopes ∧ foldE scopes.reverse (extendPath entries) [] = .ok path := by
  constructor
  · intro h
    induction h with
    | root hroot hpath => exact ⟨_, .root hroot, foldE_cons_eq_ok.mpr ⟨_, hpath, rfl⟩⟩
    | fork hfork _ hpath ih =>
      obtain ⟨scopes, hscopes, hfold⟩ := ih
      refine ⟨_, .fork hfork hscopes, ?_⟩
      rw [List.reverse_cons, foldE_append, hfold]
      exact foldE_cons_eq_ok.mpr ⟨_, hpath, rfl⟩
  · rintro ⟨scopes, hscopes, hfold⟩
    induction hscopes generalizing path with
    | root hroot =>
      obtain ⟨path', hpath, heq⟩ := foldE_cons_eq_ok.mp hfold
      obtain rfl := Except.ok.inj heq
      exact .root hroot hpath
    | fork hfork _ ih =>
      rw [List.reverse_cons, foldE_append] at hfold
      obtain ⟨above, habove, hlast⟩ := except_bind_eq_ok.mp hfold
      obtain ⟨path', hpath, heq⟩ := foldE_cons_eq_ok.mp hlast
      obtain rfl := Except.ok.inj heq
      exact .fork hfork (ih habove) hpath

lemma shown_of_contextPath {fuel : Nat} (h : contextPath entries parent fuel c leaf = .ok path) :
    Shown entries parent c leaf path := by
  obtain ⟨scopes, hscopes, hfold⟩ := except_bind_eq_ok.mp h
  exact shown_iff_scopes.mpr ⟨scopes, scopes_of_ancestry _ hscopes, hfold⟩

/-- The walk over the ancestry computes what is shown, when it is given enough fuel. -/
theorem contextPath_eq_ok {fuel : Nat} {ids : List String} (hclimb : Climb (forkUp parent) c ids)
    (hfuel : ids.length ≤ fuel) :
    contextPath entries parent fuel c leaf = .ok path ↔ Shown entries parent c leaf path := by
  constructor
  · exact shown_of_contextPath
  · intro h
    obtain ⟨scopes, hscopes, hfold⟩ := shown_iff_scopes.mp h
    rw [contextPath, except_bind_eq_ok]
    have hlength : scopes.length = ids.length := by
      rw [← hscopes.climb.unique hclimb, List.length_map]
    obtain ⟨extra, rfl⟩ := Nat.exists_eq_add_of_le' hfuel
    rw [← hlength]
    exact ⟨scopes, hscopes.ancestry extra (by simp), hfold⟩

/-- A conversation shows one path up to a leaf. -/
lemma Shown.unique (h : Shown entries parent c leaf path) {path' : List EntryDraft}
    (h' : Shown entries parent c leaf path') : path = path' := by
  induction h generalizing path' with
  | root hroot hpath =>
    cases h' with
    | root _ hpath' => exact Except.ok.inj (hpath.symm.trans hpath')
    | fork hfork' _ _ =>
      rw [hroot] at hfork'
      cases hfork'
  | fork hfork _ hpath ih =>
    cases h' with
    | root hroot' _ =>
      rw [hfork] at hroot'
      cases hroot'
    | fork hfork' habove' hpath' =>
      rw [hfork] at hfork'
      cases hfork'
      rw [ih habove'] at hpath
      exact Except.ok.inj (hpath.symm.trans hpath')

/-! ### Rows that are added -/

/-- The second reads show every conversation of `kept` as the first ones do, with new entries under
new ids. The parents of kept conversations are kept. -/
structure Extends (kept : String → Prop) (entries : EntryReads) (parent : ParentReads)
    (entries' : EntryReads) (parent' : ParentReads) : Prop where
  up : ∀ c p cap, kept c → parent c = .ok (some p, cap) → kept p
  parent : ∀ c r, kept c → parent c = .ok r → parent' c = .ok r
  entries : ∀ c own, kept c → entries c = .ok own → ∃ new, entries' c = .ok (own ++ new) ∧
    ∀ e ∈ new, ∀ d other, entries d = .ok other → ∀ f ∈ other, f.entryId ≠ e.entryId

/-- What is shown comes from the conversations on the way up. -/
lemma Shown.mem (h : Shown entries parent c leaf path) : ∃ ids, Climb (forkUp parent) c ids ∧
    ∀ e ∈ path, ∃ d ∈ ids, ∃ own, entries d = .ok own ∧ e ∈ own := by
  have hextend : ∀ {c : String} {leaf : Option String} {above path : List EntryDraft}
      {ids : List String}, extendPath entries above (c, leaf) = .ok path → c ∈ ids →
      (∀ e ∈ above, ∃ d ∈ ids, ∃ own, entries d = .ok own ∧ e ∈ own) →
      ∀ e ∈ path, ∃ d ∈ ids, ∃ own, entries d = .ok own ∧ e ∈ own := by
    intro c leaf above path ids hpath hc habove e he
    cases leaf with
    | none =>
      obtain rfl := Except.ok.inj hpath
      exact habove e he
    | some id =>
      obtain ⟨own, hown, ⟨-, tail, kept, htail, hkept, rfl⟩ | ⟨-, hthrough⟩⟩ :=
        extendPath_cases hpath
      · rcases List.mem_append.mp he with he | he
        · exact habove e (hkept.subset he)
        · exact ⟨c, hc, own, hown, mem_of_localPath htail he⟩
      · exact habove e ((pathThrough_eq_some hthrough).1.subset he)
  induction h with
  | @root c leaf path hroot hpath =>
    exact ⟨[c], .root (by simp [forkUp, hroot]), hextend hpath (by simp) (by simp)⟩
  | @fork c p leaf cap above path hfork _ hpath ih =>
    obtain ⟨ids, hids, habove⟩ := ih
    refine ⟨c :: ids, .step (by simp [forkUp, hfork]) hids, hextend hpath (by simp) fun e he => ?_⟩
    obtain ⟨d, hd, hown⟩ := habove e he
    exact ⟨d, by simp [hd], hown⟩

lemma extendPath_extends {kept : String → Prop}
    (hx : Extends kept entries parent entries' parent') (hc : kept c)
    (habove : ∀ e ∈ above, ∃ d own, entries d = .ok own ∧ e ∈ own)
    (h : extendPath entries above (c, leaf) = .ok path) :
    extendPath entries' above (c, leaf) = .ok path := by
  unfold extendPath at h ⊢
  cases leaf with
  | none => exact h
  | some id =>
    obtain ⟨own, hown, h⟩ := except_bind_eq_ok.mp h
    obtain ⟨new, hnew, hfresh⟩ := hx.entries c own hc hown
    refine except_bind_eq_ok.mpr ⟨own ++ new, hnew, ?_⟩
    dsimp only at h ⊢
    split at h <;> rename_i hlocal
    · rw [if_pos (by rw [List.any_append, hlocal, Bool.true_or])]
      obtain ⟨tail, htail, h⟩ := except_bind_eq_ok.mp h
      exact except_bind_eq_ok.mpr ⟨tail, localPath_append htail, h⟩
    · split at h
      · rename_i kept hkept
        obtain ⟨hpre, hlast⟩ := pathThrough_eq_some hkept
        obtain ⟨f, hf, hfid⟩ := Option.map_eq_some_iff.mp hlast
        obtain ⟨d, other, hother, hmem⟩ := habove f (hpre.subset (List.mem_of_getLast? hf))
        rw [if_neg]
        · exact h
        simp only [List.any_append, List.any_eq_true, Bool.or_eq_true, decide_eq_true_eq, not_or]
          at hlocal ⊢
        refine ⟨hlocal, ?_⟩
        rintro ⟨e, he, rfl⟩
        exact hfresh e he d other hother f hmem hfid
      · cases h

/-- What is shown stays shown when rows are added. -/
theorem Shown.extends {kept : String → Prop} (h : Shown entries parent c leaf path)
    (hx : Extends kept entries parent entries' parent') (hc : kept c) :
    Shown entries' parent' c leaf path := by
  induction h with
  | root hroot hpath =>
    exact .root (hx.parent _ _ hc hroot) (extendPath_extends hx hc (by simp) hpath)
  | fork hfork habove hpath ih =>
    refine .fork (hx.parent _ _ hc hfork) (ih (hx.up _ _ _ hc hfork)) ?_
    refine extendPath_extends hx hc (fun e he => ?_) hpath
    obtain ⟨ids, -, hmem⟩ := habove.mem
    obtain ⟨d, -, own, hown, heown⟩ := hmem e he
    exact ⟨d, own, hown, heown⟩

/-- What is shown is inherited, or stored in the conversation itself. -/
lemma Shown.split (h : Shown entries parent c leaf path) : ∃ above, Inherits entries parent c above ∧
    ∀ e ∈ path, e ∈ above ∨ ∃ own, entries c = .ok own ∧ e ∈ own := by
  obtain ⟨above, habove, hpath⟩ := shown_iff.mp h
  refine ⟨above, habove, fun e he => ?_⟩
  cases leaf with
  | none =>
    obtain rfl := Except.ok.inj hpath
    exact Or.inl he
  | some id =>
    obtain ⟨own, hown, ⟨-, tail, kept, htail, hkept, rfl⟩ | ⟨-, hthrough⟩⟩ := extendPath_cases hpath
    · rcases List.mem_append.mp he with he | he
      · exact Or.inl (hkept.subset he)
      · exact Or.inr ⟨own, hown, mem_of_localPath htail he⟩
    · exact Or.inl ((pathThrough_eq_some hthrough).1.subset he)

lemma Inherits.extends {kept : String → Prop} (h : Inherits entries parent c above)
    (hx : Extends kept entries parent entries' parent') (hc : kept c) :
    Inherits entries' parent' c above := by
  cases h with
  | root hroot => exact .root (hx.parent _ _ hc hroot)
  | fork hfork habove =>
    exact .fork (hx.parent _ _ hc hfork) (habove.extends hx (hx.up _ _ _ hc hfork))

/-! ### Ids and leaves -/

lemma Shown.last (h : Shown entries parent c (some id) path) :
    path.getLast?.map (·.entryId) = some id := by
  obtain ⟨above, -, hpath⟩ := shown_iff.mp h
  obtain ⟨own, -, ⟨-, tail, kept, htail, -, rfl⟩ | ⟨-, hthrough⟩⟩ := extendPath_cases hpath
  · obtain ⟨up, hup, rfl⟩ := except_last_eq_ok.mp htail
    have hleaf := (localUp_of_localPathUp _ hup).leaf
    cases up with
    | nil => cases hleaf
    | cons e up => simpa using hleaf
  · exact (pathThrough_eq_some hthrough).2

/-- What a conversation inherits is stored in other conversations. -/
lemma Inherits.foreign (h : Inherits entries parent c above)
    (hown : ∀ d own, entries d = .ok own → ∀ e ∈ own, e.conversationId = d) :
    ∀ e ∈ above, e.conversationId ≠ c ∧ ∃ d own, entries d = .ok own ∧ e ∈ own := by
  cases h with
  | root _ => simp
  | fork hfork habove =>
    intro e he
    obtain ⟨ids, hclimb, hmem⟩ := habove.mem
    obtain ⟨d, hd, own, hdown, heown⟩ := hmem e he
    refine ⟨?_, d, own, hdown, heown⟩
    rintro rfl
    rw [hown d own hdown e heown] at hfork
    exact hclimb.notMem_rest (by simp [forkUp, hfork]) hd

/-- No entry is shown twice, when entry ids are unique and each conversation reads its own
entries. -/
theorem Shown.nodup (h : Shown entries parent c leaf path)
    (hown : ∀ d own, entries d = .ok own → ∀ e ∈ own, e.conversationId = d)
    (hid : ∀ d own d' own', entries d = .ok own → entries d' = .ok own' → ∀ e ∈ own, ∀ f ∈ own',
      e.entryId = f.entryId → e = f) : (path.map (·.entryId)).Nodup := by
  have hextend : ∀ {c : String} {leaf : Option String} {above path : List EntryDraft},
      extendPath entries above (c, leaf) = .ok path → (above.map (·.entryId)).Nodup →
      (∀ e ∈ above, e.conversationId ≠ c ∧ ∃ d own, entries d = .ok own ∧ e ∈ own) →
      (path.map (·.entryId)).Nodup := by
    intro c leaf above path hpath hnodup habove
    cases leaf with
    | none =>
      obtain rfl := Except.ok.inj hpath
      exact hnodup
    | some id =>
      obtain ⟨own, hc, ⟨-, tail, kept, htail, hpre, rfl⟩ | ⟨-, hthrough⟩⟩ :=
        extendPath_cases hpath
      · obtain ⟨up, hup, rfl⟩ := except_last_eq_ok.mp htail
        have hlocal := localUp_of_localPathUp _ hup
        rw [List.map_append, List.nodup_append]
        refine ⟨(hpre.map _).sublist.nodup hnodup, ?_, ?_⟩
        · rw [List.map_reverse]
          exact List.nodup_reverse.mpr hlocal.nodup
        · intro a ha b hb
          rintro rfl
          obtain ⟨e, he, rfl⟩ := List.mem_map.mp ha
          obtain ⟨f, hf, hfe⟩ := List.mem_map.mp hb
          have hf := hlocal.sub f (List.mem_reverse.mp hf)
          obtain ⟨hne, d, other, hother, heother⟩ := habove e (hpre.subset he)
          rw [hid _ _ _ _ hother hc e heother f hf hfe.symm] at hne
          exact hne (hown c own hc f hf)
      · exact ((pathThrough_eq_some hthrough).1.map _).sublist.nodup hnodup
  induction h with
  | root _ hpath => exact hextend hpath (by simp) (by simp)
  | fork hfork habove hpath ih => exact hextend hpath ih ((Inherits.fork hfork habove).foreign hown)

/-! ### Earlier leaves -/

lemma pathThrough_append (path tail : List EntryDraft) (id : String) :
    pathThrough (path ++ tail) id =
      (pathThrough path id).or ((pathThrough tail id).map (path ++ ·)) := by
  induction path with
  | nil => simp [pathThrough]
  | cons e path ih =>
    rw [List.cons_append, pathThrough, pathThrough, ih]
    split_ifs with hid
    · rfl
    · cases pathThrough path id with
      | some kept => rfl
      | none => cases pathThrough tail id <;> rfl

lemma pathThrough_continued {path path' kept : List EntryDraft} (hpre : path <+: path')
    (h : pathThrough path id = some kept) : pathThrough path' id = some kept := by
  obtain ⟨tail, rfl⟩ := hpre
  rw [pathThrough_append, h, Option.some_or]

lemma pathThrough_split {path kept : List EntryDraft} (h : pathThrough path id = some kept) :
    ∃ before e after, path = before ++ e :: after ∧
      kept = before ++ [e] ∧ e.entryId = id := by
  induction path generalizing kept with
  | nil => cases h
  | cons f path ih =>
    rw [pathThrough] at h
    split_ifs at h with hid
    · exact ⟨[], f, path, rfl, (Option.some.inj h).symm, hid⟩
    · obtain ⟨rest, hrest, rfl⟩ := Option.map_eq_some_iff.mp h
      obtain ⟨before, e, after, rfl, rfl, he⟩ := ih hrest
      exact ⟨f :: before, e, after, rfl, rfl, he⟩

/-- A walk up passes the walks that start on its way. -/
lemma localPathUp_suffix {own before after : List EntryDraft} {e : EntryDraft} {fuel : Nat}
    {seen : List String} {leaf : String}
    (h : localPathUp own fuel seen leaf = .ok (before ++ e :: after)) : ∃ fuel' ≤ fuel, ∃ seen',
      localPathUp own fuel' seen' e.entryId = .ok (e :: after) := by
  induction before generalizing fuel seen leaf with
  | nil =>
    have hleaf := (localUp_of_localPathUp _ h).leaf
    rw [List.nil_append, List.head?_cons, Option.map_some, Option.some.injEq] at hleaf
    exact ⟨fuel, le_rfl, seen, by rw [hleaf]; exact h⟩
  | cons f before ih =>
    cases fuel with
    | zero => cases h
    | succ fuel =>
      simp only [localPathUp, except_seq_eq_ok] at h
      have h := h.2
      split at h
      · cases h
      split at h
      · have h := Except.ok.inj h
        simp at h
      · obtain ⟨rest, hrest, h⟩ := except_last_eq_ok.mp h
        obtain ⟨-, rfl⟩ := List.cons.inj h
        obtain ⟨fuel', hle, found⟩ := ih hrest
        exact ⟨fuel', hle.trans (Nat.le_succ fuel), found⟩

/-- A walk does not depend on what was seen before it. -/
lemma localPathUp_unseen {own up : List EntryDraft} {fuel : Nat} {seen : List String}
    {leaf : String} (h : localPathUp own fuel seen leaf = .ok up) {seen' : List String}
    (hsub : seen' ⊆ seen) : localPathUp own fuel seen' leaf = .ok up := by
  induction fuel generalizing seen seen' leaf up with
  | zero => cases h
  | succ fuel ih =>
    simp only [localPathUp, except_seq_eq_ok, require_eq_ok, Bool.not_eq_true',
      List.contains_eq_mem, decide_eq_false_iff_not] at h ⊢
    refine ⟨fun hin => h.1 (hsub hin), ?_⟩
    have h := h.2
    split at h
    · cases h
    split at h
    · exact h
    · obtain ⟨rest, hrest, hout⟩ := except_bind_eq_ok.mp h
      exact except_bind_eq_ok.mpr ⟨rest, ih hrest (List.cons_subset_cons _ hsub), hout⟩

/-- The local path to an entry on a local path is the prefix that ends with it. -/
lemma localPath_through {own tail kept : List EntryDraft} {leaf id : String}
    (h : localPath own leaf = .ok tail) (hkept : pathThrough tail id = some kept) :
    localPath own id = .ok kept := by
  obtain ⟨up, hup, rfl⟩ := except_last_eq_ok.mp h
  obtain ⟨before, e, after, hsplit, rfl, rfl⟩ := pathThrough_split hkept
  have hsplit : up = after.reverse ++ e :: before.reverse := by
    rw [← List.reverse_reverse up, hsplit]
    simp
  rw [hsplit] at hup
  obtain ⟨fuel', hle, seen', hwalk⟩ := localPathUp_suffix hup
  have hwalk := @localPathUp_append own [] fuel' (own.length + 1) hle _ _ _
    (localPathUp_unseen hwalk (List.nil_subset seen'))
  rw [List.append_nil] at hwalk
  refine except_bind_eq_ok.mpr ⟨_, hwalk, ?_⟩
  simp [pure, Except.pure]

/-- Up to an entry that a conversation shows, it shows the prefix that ends with the entry. -/
theorem Shown.through (h : Shown entries parent c leaf path) {own kept : List EntryDraft}
    (hown : entries c = .ok own) {id : String}
    (hforeign : ∀ above, Inherits entries parent c above → ∀ e ∈ above, ∀ f ∈ own,
      f.entryId ≠ e.entryId) (hkept : pathThrough path id = some kept) :
    Shown entries parent c (some id) kept := by
  obtain ⟨above, habove, hpath⟩ := shown_iff.mp h
  refine shown_iff.mpr ⟨above, habove, ?_⟩
  have hinherited : pathThrough above id = some kept →
      extendPath entries above (c, some id) = .ok kept := by
    intro hkept
    obtain ⟨before, e, after, rfl, -, rfl⟩ := pathThrough_split hkept
    refine except_bind_eq_ok.mpr ⟨own, hown, ?_⟩
    have hlocal : own.any (·.entryId = e.entryId) = false := by
      simpa using hforeign _ habove e (by simp)
    dsimp only
    rw [hlocal, if_neg Bool.false_ne_true, hkept]
    rfl
  cases leaf with
  | none =>
    obtain rfl := Except.ok.inj hpath
    exact hinherited hkept
  | some leaf =>
    unfold extendPath at hpath
    obtain ⟨own', hown', hpath⟩ := except_bind_eq_ok.mp hpath
    obtain rfl := Except.ok.inj (hown.symm.trans hown')
    dsimp only at hpath
    split at hpath
    · obtain ⟨tail, htail, hpath⟩ := except_bind_eq_ok.mp hpath
      cases tail with
      | nil =>
        obtain rfl := Except.ok.inj hpath
        rw [List.append_nil] at hkept
        exact hinherited hkept
      | cons root tail =>
        obtain ⟨kept', hroot, rfl⟩ := except_last_eq_ok.mp hpath
        rw [pathThrough_append] at hkept
        cases hbefore : pathThrough kept' id with
        | some k =>
          rw [hbefore, Option.some_or] at hkept
          rw [Option.some.inj hkept] at hbefore
          exact hinherited (pathThrough_continued (inheritedPrefix_eq_ok hroot) hbefore)
        | none =>
          -- The local path to the entry has the same root, hence the same inherited prefix.
          rw [hbefore, Option.none_or] at hkept
          obtain ⟨k, hk, rfl⟩ := Option.map_eq_some_iff.mp hkept
          have hlocal := localPath_through htail hk
          obtain ⟨before, e, after, hsplit, rfl, rfl⟩ := pathThrough_split hk
          have hmem : e ∈ own := mem_of_localPath htail (by simp [hsplit])
          refine except_bind_eq_ok.mpr ⟨own, hown, ?_⟩
          dsimp only
          rw [if_pos (List.any_eq_true.mpr ⟨e, hmem, by simp⟩)]
          refine except_bind_eq_ok.mpr ⟨_, hlocal, ?_⟩
          cases before with
          | nil =>
            obtain ⟨rfl, -⟩ := List.cons.inj hsplit
            exact except_bind_eq_ok.mpr ⟨kept', hroot, rfl⟩
          | cons f before =>
            obtain ⟨rfl, -⟩ := List.cons.inj hsplit
            exact except_bind_eq_ok.mpr ⟨kept', hroot, rfl⟩
    · split at hpath
      · rename_i k hk
        obtain rfl := Except.ok.inj hpath
        exact hinherited (pathThrough_continued (pathThrough_eq_some hk).1 hkept)
      · cases hpath

end Codey
