import Codey.Knowledge.Commits

/-!
# Purges

A purge removes whole identities with all that refers to them, and a well-formed repository stays
so.
-/

namespace Codey

namespace Knowledge

variable {s : State}

/-! ### What is removed -/

variable {identities : List String}

/-- What refers to something removed is removed. -/
lemma removed_closed {ref : RefRow} (href : ref ∈ s.refs.rows)
    (htarget : ref.target ∈ removed s identities) : ref.id ∈ removed s identities := by
  have hids : ∀ x, ∀ y ∈ referrers s x, y ∈ s.refs.rows.map (·.id) := by
    intro x y hy
    obtain ⟨r, hr, rfl⟩ := List.mem_map.mp hy
    exact List.mem_map.mpr ⟨r, (List.mem_filter.mp hr).1, rfl⟩
  have hlt : ((s.refs.rows.map (·.id)).filter (· ∉ identities.dedup)).length <
      s.refs.rows.length + 1 := by
    have hle := List.length_filter_le (· ∉ identities.dedup) (s.refs.rows.map (·.id))
    rw [List.length_map] at hle
    omega
  refine Reachable.closed_saturate hids hlt ref.target htarget ref.id ?_
  exact List.mem_map.mpr ⟨ref, List.mem_filter.mpr ⟨href, by simp⟩, rfl⟩

/-! ### What is left -/

lemma foldl_purgeOne_tables (rest : List String) :
    (rest.foldl purgeOne s).versions = (s.versions.filter fun row => row.payload.id ∉ rest) ∧
      (rest.foldl purgeOne s).heads = s.heads.filter fun head => head.id ∉ rest := by
  induction rest generalizing s with
  | nil => exact ⟨Table.ext (by simp), Table.ext (by simp)⟩
  | cons x rest ih =>
    rw [List.foldl_cons, ih.1, ih.2]
    constructor
    all_goals
      apply Table.ext
      simp only [purgeOne, Table.rows_filter, List.filter_filter]
      exact List.filter_congr fun row _ => by simp [not_or, Bool.and_comm]

lemma mem_foldl_purgeOne_refs (rest : List String) (ref : RefRow) :
    ref ∈ (rest.foldl purgeOne s).refs.rows ↔
      ref ∈ s.refs.rows ∧ ref.id ∉ rest ∧ ref.target ∉ rest := by
  induction rest generalizing s with
  | nil => simp
  | cons x rest ih =>
    rw [List.foldl_cons, ih]
    simp only [purgeOne, Table.rows_filter, List.mem_filter, Bool.and_eq_true, decide_eq_true_eq,
      List.mem_cons, not_or]
    tauto

lemma foldl_purgeOne_commits (rest : List String) :
    (rest.foldl purgeOne s).commits = s.commits := by
  induction rest generalizing s with
  | nil => rfl
  | cons x rest ih => exact ih

lemma mem_foldl_purgeOne_purgedCommits (rest : List String) (commitId : String) :
    commitId ∈ (rest.foldl purgeOne s).purgedCommits ↔ commitId ∈ s.purgedCommits ∨
      ∃ v ∈ s.versions.rows, v.payload.id ∈ rest ∧ v.commitId = commitId := by
  induction rest generalizing s with
  | nil => simp
  | cons x rest ih =>
    rw [List.foldl_cons, ih]
    have hone : commitId ∈ (purgeOne s x).purgedCommits ↔ commitId ∈ s.purgedCommits ∨
        ∃ v ∈ s.versions.rows, v.payload.id = x ∧ v.commitId = commitId := by
      simp only [purgeOne, List.mem_append, List.mem_filter, List.mem_dedup, List.mem_map,
        decide_eq_true_eq]
      tauto
    rw [hone, or_assoc]
    refine or_congr_right ?_
    simp only [purgeOne, Table.rows_filter, List.mem_filter, decide_eq_true_eq, List.mem_cons]
    constructor
    · rintro (⟨v, hv, hid, hcommit⟩ | ⟨v, ⟨hv, -⟩, hid, hcommit⟩)
      · exact ⟨v, hv, Or.inl hid, hcommit⟩
      · exact ⟨v, hv, Or.inr hid, hcommit⟩
    · rintro ⟨v, hv, hid, hcommit⟩
      by_cases hx : v.payload.id = x
      · exact Or.inl ⟨v, hv, hx, hcommit⟩
      · exact Or.inr ⟨v, ⟨hv, hx⟩, hid.resolve_left hx, hcommit⟩

/-- The commits that a purge marks are those with a version among the removed ones. -/
lemma mem_purge_purgedCommits {commitId : String} :
    commitId ∈ (purge s identities).purgedCommits ↔ commitId ∈ s.purgedCommits ∨
      ∃ v ∈ s.versions.rows, v.payload.id ∈ removed s identities ∧ v.commitId = commitId :=
  mem_foldl_purgeOne_purgedCommits _ _

lemma mem_purge_versions {v : VersionRow} :
    v ∈ (purge s identities).versions.rows ↔
      v ∈ s.versions.rows ∧ v.payload.id ∉ removed s identities := by
  rw [purge, (foldl_purgeOne_tables _).1, Table.rows_filter, List.mem_filter, decide_eq_true_eq]

lemma purge_get?_of_mem {identity : String} (h : identity ∈ removed s identities) :
    (purge s identities).heads.get? identity = none ∧
      ∀ revision, (purge s identities).versions.get? (identity, revision) = none := by
  refine ⟨?_, fun revision => ?_⟩
  · rw [purge, (foldl_purgeOne_tables _).2, Table.get?_filter, Option.filter_eq_none_iff]
    intro head hhead
    rw [show head.id = identity from Table.key_of_get? hhead]
    simpa using h
  · rw [purge, (foldl_purgeOne_tables _).1, Table.get?_filter, Option.filter_eq_none_iff]
    intro v hv
    rw [show v.payload.id = identity from congrArg Prod.fst (Table.key_of_get? hv)]
    simpa using h

lemma purge_get?_of_notMem {identity : String} (h : identity ∉ removed s identities) :
    (purge s identities).heads.get? identity = s.heads.get? identity ∧
      ∀ revision, (purge s identities).versions.get? (identity, revision) =
        s.versions.get? (identity, revision) := by
  refine ⟨?_, fun revision => ?_⟩
  · rw [purge, (foldl_purgeOne_tables _).2]
    apply Table.get?_filter_of_kept
    intro head hhead
    rw [show head.id = identity from Table.key_of_get? hhead]
    simpa using h
  · rw [purge, (foldl_purgeOne_tables _).1]
    apply Table.get?_filter_of_kept
    intro v hv
    rw [show v.payload.id = identity from congrArg Prod.fst (Table.key_of_get? hv)]
    simpa using h

lemma consistent_purge (hs : Consistent s) (identities : List String) :
    Consistent (purge s identities) := by
  refine ⟨?_, ?_, ?_, ?_⟩
  · intro identity revision
    by_cases hid : identity ∈ removed s identities
    · obtain ⟨hheads, hversions⟩ := purge_get?_of_mem hid
      rw [hheads, hversions]
      simp
    · obtain ⟨hheads, hversions⟩ := purge_get?_of_notMem hid
      rw [hheads, hversions]
      exact hs.version_iff _ _
  · intro identity head hget
    by_cases hid : identity ∈ removed s identities
    · rw [(purge_get?_of_mem hid).1] at hget
      cases hget
    · rw [(purge_get?_of_notMem hid).1] at hget
      exact hs.head_pos _ _ hget
  · intro v hv w hw hid
    exact hs.sameSort v (mem_purge_versions.mp hv).1 w (mem_purge_versions.mp hw).1 hid
  · intro ref
    rw [purge, mem_foldl_purgeOne_refs, hs.ref_iff]
    constructor
    · rintro ⟨⟨v, hv, r, hr, rfl⟩, hid, -⟩
      exact ⟨v, mem_purge_versions.mpr ⟨hv, hid⟩, r, hr, rfl⟩
    · rintro ⟨v, hv, r, hr, rfl⟩
      obtain ⟨hv, hid⟩ := mem_purge_versions.mp hv
      have href : refRow v.payload v.revision r ∈ s.refs.rows :=
        (hs.ref_iff _).mpr ⟨v, hv, r, hr, rfl⟩
      exact ⟨⟨v, hv, r, hr, rfl⟩, hid, fun htarget => hid (removed_closed href htarget)⟩

/-- A purge keeps a repository well formed. -/
lemma wellFormed_purge (hs : WellFormed s) (identities : List String) :
    WellFormed (purge s identities) := by
  have hcons := consistent_purge hs.toConsistent identities
  refine ⟨hcons, ?_, ?_, ?_⟩
  · intro v hv ref href
    obtain ⟨hv, hid⟩ := mem_purge_versions.mp hv
    obtain ⟨w, hw, hpermits⟩ := hs.permits v hv ref href
    have hrow : refRow v.payload v.revision ref ∈ s.refs.rows :=
      (hs.ref_iff _).mpr ⟨v, hv, ref, href, rfl⟩
    have htarget : ref.target ∉ removed s identities :=
      fun htarget => hid (removed_closed hrow htarget)
    exact ⟨w, ((purge_get?_of_notMem htarget).2 _).trans hw, hpermits⟩
  · exact fun v hv => hs.founded v (mem_purge_versions.mp hv).1
  · refine hs.acyclic.mono fun x y hxy => ?_
    obtain ⟨v, hv, href⟩ := hcons.references_iff.mp hxy
    obtain rfl := Table.key_of_get? hv
    refine hs.references_iff.mpr ⟨v, ?_, href⟩
    exact Table.mem_rows_iff.mp (mem_purge_versions.mp (Table.mem_of_get? hv)).1

end Knowledge

end Codey
