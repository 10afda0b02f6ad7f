import Codey.Knowledge.WellFormed

/-!
# Commits

A commit makes the next versions of some identities and takes stored versions of others, and a
well-formed repository stays so.
-/

namespace Codey

namespace Knowledge

open Relation (TransGen ReflTransGen)

variable {host : Host} {s s' : State}

/-! ### Revisions -/

structure Next (s : State) (entry : KnowledgeObject × Nat) : Prop where
  revision : entry.2 = ((s.heads.get? entry.1.id).map (·.revision)).getD 0 + 1
  sameSort : ∀ v ∈ s.versions.rows, v.payload.id = entry.1.id → SameSort v.payload entry.1

def Taken (s : State) (entry : KnowledgeObject × Nat) : Prop :=
  ∃ v, s.versions.get? (entry.1.id, entry.2) = some v ∧ v.payload.pyEq entry.1 = true

lemma Consistent.head_of_mem (h : Consistent s) {v : VersionRow} (hv : v ∈ s.versions.rows) :
    ∃ head, s.heads.get? v.payload.id = some head ∧ 1 ≤ v.revision ∧
      v.revision ≤ head.revision := by
  have hstored : (s.versions.get? (v.payload.id, v.revision)).isSome = true := by
    rw [show (v.payload.id, v.revision) = v.key from rfl, Table.mem_rows_iff.mp hv]
    rfl
  exact (h.version_iff _ _).mp hstored

variable {entry : KnowledgeObject × Nat}

lemma Next.get?_eq_none (h : Next s entry) (hs : Consistent s) :
    s.versions.get? (entry.1.id, entry.2) = none := by
  by_contra hne
  obtain ⟨head, hhead, -, hle⟩ := (hs.version_iff _ _).mp (Option.isSome_iff_ne_none.mpr hne)
  have hrevision := h.revision
  rw [hhead, Option.map_some, Option.getD_some] at hrevision
  omega

variable {sharedStaged : Bool}

lemma checkRevision_ok (hs : Consistent s) {mutation : KnowledgeMutation}
    (h : checkRevision s sharedStaged mutation = .ok entry) :
    entry.1 = mutation.value ∧ (Next s entry ∨ Taken s entry) := by
  simp only [checkRevision, read] at h
  cases hhead : s.heads.get? mutation.value.id with
  | none =>
    simp only [readRow_none hhead, Option.map_none, Option.any_none, Option.all_none,
      Option.getD_none, Bool.and_false, Bool.false_eq_true, if_false, except_seq_eq_ok,
      require_eq_ok, decide_eq_true_eq, true_and] at h
    obtain ⟨hexpected, hentry⟩ := h
    obtain rfl := Except.ok.inj hentry
    refine ⟨rfl, Or.inl ⟨?_, ?_⟩⟩
    · rw [hhead, ← hexpected]
      rfl
    · intro v hv hid
      obtain ⟨head, hsome, -⟩ := hs.head_of_mem hv
      rw [hid, hhead] at hsome
      cases hsome
  | some head =>
    obtain ⟨v, hread, hstored, hrevision⟩ := hs.readRow_head hhead
    have hid : v.payload.id = mutation.value.id := congrArg Prod.fst (Table.key_of_get? hstored)
    simp only [hread, Option.map_some, Option.any_some, Option.all_some, Option.getD_some] at h
    split_ifs at h with htake
    · -- a shared object is stored as its first version
      obtain rfl := Except.ok.inj h
      simp only [Bool.and_eq_true, decide_eq_true_eq] at htake
      obtain ⟨-, ⟨hone, -⟩, heq⟩ := htake
      refine ⟨rfl, Or.inr ⟨v, ?_, heq⟩⟩
      rw [← hone, hrevision]
      exact hstored
    · simp only [except_seq_eq_ok, require_eq_ok, Bool.and_eq_true, decide_eq_true_eq] at h
      obtain ⟨hexpected, ⟨⟨hkind, hscope⟩, hscopeId⟩, hentry⟩ := h
      obtain rfl := Except.ok.inj hentry
      refine ⟨rfl, Or.inl ⟨?_, ?_⟩⟩
      · rw [hhead, ← hexpected, hrevision]
        rfl
      · intro w hw hwid
        obtain ⟨h₁, h₂, h₃⟩ := hs.sameSort w hw v (Table.mem_of_get? hstored) (hwid.trans hid.symm)
        exact ⟨h₁.trans hkind, h₂.trans hscope, h₃.trans hscopeId⟩

variable {mutations : List KnowledgeMutation} {versions : Pending}

lemma checkRevisions_ok (hs : Consistent s)
    (h : checkRevisions s sharedStaged mutations = .ok versions) :
    versions.map (·.1) = mutations.map (·.value) ∧
      ∀ entry ∈ versions, Next s entry ∨ Taken s entry := by
  induction mutations generalizing versions with
  | nil =>
    obtain rfl := Except.ok.inj h
    exact ⟨rfl, by simp⟩
  | cons mutation mutations ih =>
    simp only [checkRevisions, except_bind_eq_ok] at h
    obtain ⟨entry, hentry, rest, hrest, heq⟩ := h
    obtain rfl := Except.ok.inj heq
    obtain ⟨hvalue, hnext⟩ := checkRevision_ok hs hentry
    obtain ⟨hvalues, hnexts⟩ := ih hrest
    refine ⟨?_, ?_⟩
    · rw [List.map_cons, List.map_cons, hvalue, hvalues]
    · exact List.forall_mem_cons.mpr ⟨hnext, hnexts⟩

/-! ### Writes -/

lemma mem_of_foldE_insertRef {rows : List RefRow} {refs refs' : Table (id : RefRow → RefRow)}
    (h : foldE rows insertRef refs = .ok refs') (row : RefRow) :
    row ∈ refs'.rows ↔ row ∈ refs.rows ∨ row ∈ rows := by
  induction rows generalizing refs with
  | nil =>
    obtain rfl := Except.ok.inj h
    simp
  | cons first rows ih =>
    obtain ⟨mid, hmid, hrest⟩ := foldE_cons_eq_ok.mp h
    simp only [insertRef, except_seq_eq_ok] at hmid
    obtain ⟨-, hmid⟩ := hmid
    obtain rfl := Except.ok.inj hmid
    rw [ih hrest, Table.mem_put_iff, List.mem_cons]
    by_cases hrow : row = first
    · simp [hrow]
    · have hne : first ≠ row := fun heq => hrow heq.symm
      simp [hrow, hne]

/-- What a write does to the tables. -/
structure Written (host : Host) (s : State) (row : VersionRow) (s' : State) : Prop where
  fresh : s.versions.get? row.key = none
  versions : s'.versions = s.versions.put row
  heads : s'.heads = s.heads.put ⟨row.payload.id, row.revision⟩
  refs : ∀ ref, ref ∈ s'.refs.rows ↔ ref ∈ s.refs.rows ∨
    ∃ r ∈ row.payload.references, ref = refRow row.payload row.revision r
  aliases : s'.aliases = (aliasRows host row.payload).foldl Table.put
    (s.aliases.filter fun name => name.id ≠ row.payload.id)
  fts : host.ftsEnabled = true → s'.fts =
    s.fts.filter (fun text => text.id ≠ row.payload.id) ++ [ftsRow row.payload]
  commits : s'.commits = s.commits
  purgedCommits : s'.purgedCommits = s.purgedCommits

variable {stamp commitId : String}

lemma write_ok {value : KnowledgeObject} {revision : Nat}
    (h : write host s value revision stamp commitId = .ok s') :
    Written host s ⟨value, revision, stamp, commitId⟩ s' := by
  simp only [write, except_bind_eq_ok, require_eq_ok, Option.isNone_iff_eq_none] at h
  obtain ⟨-, hfresh, refs, hrefs, heq⟩ := h
  obtain rfl := Except.ok.inj heq
  refine ⟨hfresh, rfl, rfl, fun ref => ?_, rfl, fun hfts => if_pos hfts, rfl, rfl⟩
  rw [mem_of_foldE_insertRef hrefs, List.mem_map]
  simp only [eq_comm]

variable {row : VersionRow}

lemma Written.mem_iff (h : Written host s row s') (v : VersionRow) :
    v ∈ s'.versions.rows ↔ v ∈ s.versions.rows ∨ v = row := by
  rw [h.versions, Table.rows_put_of_none h.fresh, List.mem_append, List.mem_singleton]

lemma Written.get?_of_ne (h : Written host s row s') {identity : String}
    (hne : identity ≠ row.payload.id) :
    s'.heads.get? identity = s.heads.get? identity ∧
      ∀ revision, s'.versions.get? (identity, revision) = s.versions.get? (identity, revision) := by
  refine ⟨?_, fun revision => ?_⟩
  · rw [h.heads, Table.get?_put_of_ne]
    exact fun heq => hne heq.symm
  · rw [h.versions, Table.get?_put_of_ne]
    exact fun heq => hne (congrArg Prod.fst heq).symm

/-- Writing the next version of an identity keeps the tables consistent. -/
lemma Written.consistent (h : Written host s row s') (hs : Consistent s)
    (hnext : Next s (row.payload, row.revision)) : Consistent s' := by
  have hhead : s'.heads.get? row.payload.id = some ⟨row.payload.id, row.revision⟩ := by
    rw [h.heads]
    exact Table.get?_put_self _ _
  have hrevision : row.revision =
      ((s.heads.get? row.payload.id).map (·.revision)).getD 0 + 1 := hnext.revision
  have hpos : 1 ≤ row.revision := by omega
  refine ⟨?_, ?_, ?_, ?_⟩
  · intro identity revision
    by_cases hid : identity = row.payload.id
    · subst hid
      rw [hhead, h.versions, Table.get?_put]
      split_ifs with hkey
      · obtain rfl : row.revision = revision := congrArg Prod.snd hkey
        simp [hpos]
      · have hne : revision ≠ row.revision := fun heq => hkey (by rw [heq]; rfl)
        rw [hs.version_iff]
        cases hold : s.heads.get? row.payload.id with
        | none =>
          rw [hold, Option.map_none, Option.getD_none] at hrevision
          simp only [reduceCtorEq, false_and, exists_false, Option.some.injEq, false_iff]
          rintro ⟨_, rfl, hpos, hle⟩
          change revision ≤ row.revision at hle
          omega
        | some head =>
          rw [hold, Option.map_some, Option.getD_some] at hrevision
          simp only [Option.some.injEq, exists_eq_left']
          omega
    · obtain ⟨hheads, hversions⟩ := h.get?_of_ne hid
      rw [hheads, hversions]
      exact hs.version_iff _ _
  · intro identity head hget
    by_cases hid : identity = row.payload.id
    · subst hid
      rw [hhead] at hget
      obtain rfl := Option.some.inj hget
      exact hpos
    · rw [(h.get?_of_ne hid).1] at hget
      exact hs.head_pos _ _ hget
  · intro v hv w hw hid
    rw [h.mem_iff] at hv hw
    rcases hv with hv | rfl <;> rcases hw with hw | rfl
    · exact hs.sameSort v hv w hw hid
    · exact hnext.sameSort v hv hid
    · obtain ⟨h₁, h₂, h₃⟩ := hnext.sameSort w hw hid.symm
      exact ⟨h₁.symm, h₂.symm, h₃.symm⟩
    · exact ⟨rfl, rfl, rfl⟩
  · intro ref
    rw [h.refs, hs.ref_iff]
    simp only [h.mem_iff, or_and_right, exists_or, exists_eq_left]

lemma Next.of_written (h : Written host s row s') (hne : entry.1.id ≠ row.payload.id) :
    Next s' entry ↔ Next s entry := by
  have hrows : ∀ v, v.payload.id = entry.1.id → (v ∈ s'.versions.rows ↔ v ∈ s.versions.rows) := by
    intro v hid
    rw [h.mem_iff]
    refine or_iff_left ?_
    rintro rfl
    exact hne hid.symm
  constructor
  · rintro ⟨hrevision, hsort⟩
    rw [(h.get?_of_ne hne).1] at hrevision
    exact ⟨hrevision, fun v hv hid => hsort v ((hrows v hid).mpr hv) hid⟩
  · rintro ⟨hrevision, hsort⟩
    rw [← (h.get?_of_ne hne).1] at hrevision
    exact ⟨hrevision, fun v hv hid => hsort v ((hrows v hid).mp hv) hid⟩

def WriteStep (host : Host) (s s' : State) : Prop :=
  Consistent s ∧ ∃ row, Next s (row.payload, row.revision) ∧ Written host s row s'

/-- The writes of a batch make exactly those of its versions that are the next ones. -/
lemma foldE_writeNew (hnodup : (versions.map (·.1.id)).Nodup) (hs : Consistent s)
    (hentries : ∀ entry ∈ versions, Next s entry ∨ Taken s entry)
    (h : foldE versions (writeNew host stamp commitId) s = .ok s') :
    Consistent s' ∧ ReflTransGen (WriteStep host) s s' ∧ s'.commits = s.commits ∧
      s'.purgedCommits = s.purgedCommits ∧ ∀ v, v ∈ s'.versions.rows ↔ v ∈ s.versions.rows ∨
        ∃ entry ∈ versions, Next s entry ∧ v = ⟨entry.1, entry.2, stamp, commitId⟩ := by
  induction versions generalizing s with
  | nil =>
    obtain rfl := Except.ok.inj h
    exact ⟨hs, .refl, rfl, rfl, by simp⟩
  | cons entry versions ih =>
    obtain ⟨mid, hmid, hrest⟩ := foldE_cons_eq_ok.mp h
    rw [List.map_cons, List.nodup_cons] at hnodup
    obtain ⟨hfresh, hnodup⟩ := hnodup
    have hne : ∀ other ∈ versions, other.1.id ≠ entry.1.id := fun other hother heq =>
      hfresh (List.mem_map.mpr ⟨other, hother, heq⟩)
    obtain ⟨hentry, hothers⟩ := List.forall_mem_cons.mp hentries
    rw [writeNew] at hmid
    obtain hnext | ⟨v, hv, heq⟩ := hentry
    · rw [if_pos (Option.isNone_iff_eq_none.mpr (hnext.get?_eq_none hs))] at hmid
      have hwritten := write_ok hmid
      have hothers' : ∀ other ∈ versions, Next mid other ∨ Taken mid other := by
        intro other hother
        refine (hothers other hother).imp (Next.of_written hwritten (hne other hother)).mpr ?_
        rintro ⟨w, hw, hweq⟩
        refine ⟨w, ?_, hweq⟩
        rw [(hwritten.get?_of_ne (hne other hother)).2]
        exact hw
      obtain ⟨hs', hsteps, hcommits, hpurged, hrows⟩ :=
        ih hnodup (hwritten.consistent hs hnext) hothers' hrest
      refine ⟨hs', .head ⟨hs, _, hnext, hwritten⟩ hsteps, hcommits.trans hwritten.commits,
        hpurged.trans hwritten.purgedCommits, fun w => ?_⟩
      have hrest : (∃ other ∈ versions, Next mid other ∧
            w = ⟨other.1, other.2, stamp, commitId⟩) ↔
          ∃ other ∈ versions, Next s other ∧ w = ⟨other.1, other.2, stamp, commitId⟩ :=
        exists_congr fun other => and_congr_right fun hother =>
          and_congr_left' (Next.of_written hwritten (hne other hother))
      rw [hrows, hwritten.mem_iff, hrest, List.exists_mem_cons_iff, or_assoc]
      simp only [hnext, true_and]
    · rw [if_neg (by simp [hv])] at hmid
      obtain rfl := Except.ok.inj hmid
      obtain ⟨hs', hsteps, hcommits, hpurged, hrows⟩ := ih hnodup hs hothers hrest
      refine ⟨hs', hsteps, hcommits, hpurged, fun w => ?_⟩
      have hnot : ¬ Next s entry := by
        intro hnext
        rw [hnext.get?_eq_none hs] at hv
        cases hv
      rw [hrows, List.exists_mem_cons_iff]
      simp only [hnot, false_and, false_or]

/-! ### References of a batch -/

lemma Pending.get?_of_mem (hnodup : (versions.map (·.1.id)).Nodup) (h : entry ∈ versions) :
    versions.get? entry.1.id = some entry :=
  @Table.find?_eq_some_of_mem _ _ (fun entry : KnowledgeObject × Nat => entry.1.id) _ _ hnodup _ h

lemma Pending.mem_of_get? {identity : String} (h : versions.get? identity = some entry) :
    entry ∈ versions ∧ entry.1.id = identity :=
  ⟨List.mem_of_find?_eq_some h, by simpa using List.find?_some h⟩

lemma mem_pendingTargets {x y : String} :
    y ∈ pendingTargets versions x ↔ ∃ entry, versions.get? x = some entry ∧
      ∃ ref ∈ entry.1.references, ref.target = y ∧
        ∃ target, versions.get? y = some target ∧ target.2 = ref.revision := by
  rw [pendingTargets, List.mem_filterMap]
  cases versions.get? x with
  | none => simp
  | some entry =>
    simp only [Option.map_some, Option.getD_some, Option.some.injEq, exists_eq_left',
      Option.ite_none_right_eq_some, Option.any_eq_true, decide_eq_true_eq]
    refine exists_congr fun ref => and_congr_right fun _ => ?_
    constructor
    · rintro ⟨htarget, rfl⟩
      exact ⟨rfl, htarget⟩
    · rintro ⟨rfl, htarget⟩
      exact ⟨htarget, rfl⟩

lemma acyclic_of_checkCycles (h : checkCycles versions = .ok ()) :
    Acyclic fun x y => x ∈ versions.map (·.1.id) ∧ y ∈ pendingTargets versions x := by
  rw [checkCycles] at h
  split at h
  case h_1 hvisit => exact Reachable.acyclic_of_visit hvisit
  all_goals cases h

/-! ### The commit as a whole -/

/-- What a first commit under an id does. -/
structure Made (host : Host) (s : State) (row : CommitRow) (s' : State) : Prop where
  writes : ∃ written, ReflTransGen (WriteStep host) s written ∧
    s' = { written with commits := s'.commits }
  commits : s'.commits = s.commits.put row
  purgedCommits : s'.purgedCommits = s.purgedCommits
  kept : ∀ v ∈ s.versions.rows, v ∈ s'.versions.rows
  made : ∀ v ∈ s'.versions.rows, v ∈ s.versions.rows ∨ v.commitId = row.id ∧ v.key ∈ row.result

/-- New versions are linked as the old ones: old references stay among old versions, and the
batch has no cycle of its own. -/
lemma linked_of_batch (hs : WellFormed s)
    (hs' : Consistent s') (hnodup : (versions.map (·.1.id)).Nodup)
    (hentries : ∀ entry ∈ versions, Next s entry ∨ Taken s entry)
    (hcycles : checkCycles versions = .ok ())
    (hrefs : ∀ entry ∈ versions, validateReferences s versions entry.1 = .ok ())
    (hrows : ∀ v, v ∈ s'.versions.rows ↔ v ∈ s.versions.rows ∨
      ∃ entry ∈ versions, Next s entry ∧ v = ⟨entry.1, entry.2, stamp, commitId⟩) :
    Linked s' := by
  have hkept : ∀ key v, s.versions.get? key = some v → s'.versions.get? key = some v := by
    intro key v hget
    obtain rfl := Table.key_of_get? hget
    exact Table.mem_rows_iff.mp ((hrows v).mpr (Or.inl (Table.mem_of_get? hget)))
  -- what an entry of the batch stands for is stored afterwards
  have hentry : ∀ entry ∈ versions, ∃ v, s'.versions.get? (entry.1.id, entry.2) = some v ∧
      v.payload.pyEq entry.1 = true := by
    intro entry hmem
    obtain hnext | ⟨v, hv, heq⟩ := hentries entry hmem
    · refine ⟨⟨entry.1, entry.2, stamp, commitId⟩, ?_, ?_⟩
      · exact Table.mem_rows_iff.mp ((hrows _).mpr (Or.inr ⟨entry, hmem, hnext, rfl⟩))
      · simp [KnowledgeObject.pyEq]
    · exact ⟨v, hkept _ _ hv, heq⟩
  have hpermits : ∀ v ∈ s'.versions.rows, ∀ ref ∈ v.payload.references,
      ∃ w, s'.versions.get? (ref.target, ref.revision) = some w ∧
        Permits v.payload ref w.payload := by
    intro v hv ref href
    obtain hv | ⟨entry, hmem, hnext, rfl⟩ := (hrows v).mp hv
    · obtain ⟨w, hw, hpermits⟩ := hs.permits v hv ref href
      exact ⟨w, hkept _ _ hw, hpermits⟩
    · have hvalid := (founded_of_validateReferences (hrefs entry hmem)).1 ref href
      obtain ⟨target, hpermits, htarget⟩ := permits_of_validateReference hvalid
      obtain ⟨pending, hpending, hrevision, rfl⟩ | ⟨row, hrow, rfl⟩ := htarget
      · obtain ⟨hpmem, hpid⟩ := Pending.mem_of_get? hpending
        obtain ⟨w, hw, heq⟩ := hentry pending hpmem
        rw [hpid, hrevision] at hw
        exact ⟨w, hw, hpermits.congr heq⟩
      · exact ⟨row, hkept _ _ hrow, hpermits⟩
  refine ⟨hpermits, ?_, ?_⟩
  · intro v hv
    obtain hv | ⟨entry, hmem, -, rfl⟩ := (hrows v).mp hv
    · exact hs.founded v hv
    · exact (founded_of_validateReferences (hrefs entry hmem)).2
  · have hnew : ∀ key v, s'.versions.get? key = some v → s.versions.get? key = none →
        ∃ entry ∈ versions, v.payload = entry.1 ∧ key = (entry.1.id, entry.2) := by
      intro key v hv hnone
      obtain rfl := Table.key_of_get? hv
      obtain hold | ⟨entry, hmem, -, rfl⟩ := (hrows v).mp (Table.mem_of_get? hv)
      · rw [Table.mem_rows_iff.mp hold] at hnone
        cases hnone
      · exact ⟨entry, hmem, rfl, rfl⟩
    refine @Acyclic.extend _ _ _ hs.acyclic (fun key => (s.versions.get? key).isSome = true) ?_ ?_
    · intro x y hx hxy
      obtain ⟨v, hv⟩ := Option.isSome_iff_exists.mp hx
      obtain ⟨v', hv', ref, href, rfl⟩ := hs'.references_iff.mp hxy
      obtain rfl : v = v' := Option.some.inj ((hkept _ _ hv).symm.trans hv')
      obtain ⟨w, hw, -⟩ := hs.permits v (Table.mem_of_get? hv) ref href
      exact ⟨hs.references_iff.mpr ⟨v, hv, ref, href, rfl⟩, Option.isSome_iff_exists.mpr ⟨w, hw⟩⟩
    · intro x hx
      refine acyclic_of_checkCycles hcycles x.1 (TransGen.lift Prod.fst ?_ _ _ hx)
      rintro x y ⟨hxnew, hynew, hxy⟩
      obtain ⟨v, hv, ref, href, rfl⟩ := hs'.references_iff.mp hxy
      rw [Option.not_isSome_iff_eq_none] at hxnew hynew
      obtain ⟨entry, hmem, hvalue, rfl⟩ := hnew x v hv hxnew
      obtain ⟨w, hw, -⟩ := hpermits v (Table.mem_of_get? hv) ref href
      obtain ⟨target, htmem, -, hkey⟩ := hnew _ w hw hynew
      refine ⟨List.mem_map.mpr ⟨entry, hmem, rfl⟩, mem_pendingTargets.mpr ?_⟩
      rw [hvalue] at href
      refine ⟨entry, Pending.get?_of_mem hnodup hmem, ref, href, rfl, target, ?_, ?_⟩
      · rw [congrArg Prod.fst hkey]
        exact Pending.get?_of_mem hnodup htmem
      · exact (congrArg Prod.snd hkey).symm

lemma nodup_of_checkBatch {commitId : String} (h : checkBatch commitId mutations = .ok ()) :
    (mutations.map (·.value.id)).Nodup := by
  simp only [checkBatch, except_seq_eq_ok, require_eq_ok, decide_eq_true_eq] at h
  exact h.2

/-- A first commit under an id keeps a repository well formed. -/
lemma commitNew_ok {commitId stamp : String} {result : CommitResult} (hs : WellFormed s)
    (hbatch : checkBatch commitId mutations = .ok ())
    (h : commitNew host s commitId mutations sharedStaged stamp = .ok (s', result)) :
    WellFormed s' ∧ Made host s ⟨commitId, host.batchDigest mutations, result, stamp⟩ s' := by
  simp only [commitNew, except_bind_eq_ok, checkAll_eq_ok] at h
  obtain ⟨versions, hversions, _, hcycles, _, hrefs, written, hwritten, heq⟩ := h
  obtain ⟨rfl, rfl⟩ := Prod.mk.inj (Except.ok.inj heq)
  obtain ⟨hvalues, hentries⟩ := checkRevisions_ok hs.toConsistent hversions
  have hids : versions.map (·.1.id) = mutations.map (·.value.id) := by
    have hids := congrArg (List.map (·.id)) hvalues
    rwa [List.map_map, List.map_map] at hids
  have hnodup : (versions.map (·.1.id)).Nodup := hids ▸ nodup_of_checkBatch hbatch
  have hrefs' : ∀ entry ∈ versions, validateReferences s versions entry.1 = .ok () := by
    intro entry hmem
    have hvalue : entry.1 ∈ mutations.map (·.value) :=
      hvalues ▸ List.mem_map.mpr ⟨entry, hmem, rfl⟩
    obtain ⟨mutation, hmutation, heq⟩ := List.mem_map.mp hvalue
    rw [← heq]
    exact hrefs mutation hmutation
  obtain ⟨hcons, hsteps, hcommits, hpurged, hrows⟩ :=
    foldE_writeNew hnodup hs.toConsistent hentries hwritten
  have hlinked := linked_of_batch hs hcons hnodup hentries hcycles hrefs' hrows
  refine ⟨⟨⟨hcons.version_iff, hcons.head_pos, hcons.sameSort, hcons.ref_iff⟩,
    ⟨hlinked.permits, hlinked.founded, hlinked.acyclic⟩⟩, ?_⟩
  refine ⟨⟨written, hsteps, rfl⟩, by rw [← hcommits], hpurged,
    fun v hv => (hrows v).mpr (Or.inl hv), fun v hv => ?_⟩
  obtain hold | ⟨entry, hmem, -, rfl⟩ := (hrows v).mp hv
  · exact Or.inl hold
  · exact Or.inr ⟨rfl, List.mem_map.mpr ⟨entry, hmem, rfl⟩⟩

/-- A commit that does not raise is a retry, or the first one under its id. -/
lemma commit_ok {commitId stamp : String} {result : CommitResult}
    (h : commit host s commitId mutations sharedStaged stamp = .ok (s', result)) :
    checkBatch commitId mutations = .ok () ∧ commitId ∉ s.purgedCommits ∧
      ((∃ old, s.commits.get? commitId = some old ∧ old.digest = host.batchDigest mutations ∧
          s' = s ∧ result = old.result) ∨
        s.commits.get? commitId = none ∧
          commitNew host s commitId mutations sharedStaged stamp = .ok (s', result)) := by
  simp only [commit, checkNotPurged, except_seq_eq_ok, require_eq_ok, decide_eq_true_eq] at h
  obtain ⟨hbatch, hpurged, h⟩ := h
  refine ⟨hbatch, hpurged, ?_⟩
  split at h
  case h_1 old hold =>
    simp only [except_seq_eq_ok, require_eq_ok, decide_eq_true_eq] at h
    obtain ⟨hdigest, heq⟩ := h
    obtain ⟨rfl, rfl⟩ := Prod.mk.inj (Except.ok.inj heq)
    exact Or.inl ⟨old, hold, hdigest, rfl, rfl⟩
  case h_2 hnone => exact Or.inr ⟨hnone, h⟩

lemma commit_retry {commitId : String} {row : CommitRow}
    (hbatch : checkBatch commitId mutations = .ok ()) (hrow : s.commits.get? commitId = some row)
    (hdigest : row.digest = host.batchDigest mutations) (hpurged : commitId ∉ s.purgedCommits)
    (sharedStaged : Bool) (stamp : String) :
    commit host s commitId mutations sharedStaged stamp = .ok (s, row.result) ∧
      committed host s commitId mutations = .ok (some row.result) := by
  simp [commit, committed, hbatch, hrow, hdigest, hpurged, checkNotPurged, except_bind_eq_ok]

lemma commit_purged {commitId : String} (h : commitId ∈ s.purgedCommits)
    (mutations : List KnowledgeMutation) (sharedStaged : Bool) (stamp : String) :
    ∃ e, commit host s commitId mutations sharedStaged stamp = .error e := by
  cases hcommit : commit host s commitId mutations sharedStaged stamp with
  | error e => exact ⟨e, rfl⟩
  | ok out => exact absurd h (commit_ok hcommit).2.1

end Knowledge

end Codey
