import Codey.Knowledge.Purges
import Codey.Lib.Steps

/-!
# Retries of commits

The runs of a repository. A retry of a commit returns its first result for as long as nothing that
the commit names is purged; afterwards it raises, provided that the commit wrote something of what
the purge removes.
-/

namespace Codey

namespace Knowledge

open Relation (ReflTransGen)

variable {host : Host} {s s' : State}

/-! ### Runs -/

inductive Event where
  | commit (commitId : String) (mutations : List KnowledgeMutation) (sharedStaged : Bool)
      (stamp : String)
  | purge (identities : List String)

/-- A commit that raises is rolled back. -/
def step (host : Host) (s : State) : Event → State
  | .commit commitId mutations sharedStaged stamp =>
    match commit host s commitId mutations sharedStaged stamp with
    | .ok (s', _) => s'
    | .error _ => s
  | .purge identities => purge s identities

/-- The states reached by events that `ok` admits. -/
def ReachBy (host : Host) (ok : State → Event → Prop) (s s' : State) : Prop :=
  Steps.Reach (fun s event => some (step host s event)) ok s s'

def Reach (host : Host) (s s' : State) : Prop := ReachBy host (fun _ _ => True) s s'

lemma reach_foldl (events : List Event) (s : State) :
    Reach host s (events.foldl (step host) s) := by
  induction events generalizing s with
  | nil => exact .init
  | cons event events ih => exact Steps.Reach.trans (.step .init trivial rfl) (ih _)

/-! ### Commit records -/

/-- The record of its commit names each version, and each record is of a batch. -/
structure Recorded (host : Host) (s : State) : Prop where
  named : ∀ v ∈ s.versions.rows, ∃ row, s.commits.get? v.commitId = some row ∧ v.key ∈ row.result
  batch : ∀ commitId row, s.commits.get? commitId = some row →
    ∃ mutations, checkBatch commitId mutations = .ok () ∧ row.digest = host.batchDigest mutations

lemma Made.recorded {row : CommitRow} (h : Made host s row s') (hs : Recorded host s)
    (hfresh : s.commits.get? row.id = none) (hbatch : ∃ mutations,
      checkBatch row.id mutations = .ok () ∧ row.digest = host.batchDigest mutations) :
    Recorded host s' := by
  refine ⟨fun v hv => ?_, fun commitId old hold => ?_⟩
  · rw [h.commits]
    obtain hv | ⟨hcommit, hkey⟩ := h.made v hv
    · obtain ⟨old, hold, hkey⟩ := hs.named v hv
      have hne : row.id ≠ v.commitId := by
        intro heq
        rw [heq, hold] at hfresh
        cases hfresh
      exact ⟨old, (Table.get?_put_of_ne _ hne).trans hold, hkey⟩
    · exact ⟨row, hcommit ▸ Table.get?_put_self _ _, hkey⟩
  · rw [h.commits, Table.get?_put] at hold
    split_ifs at hold with hid
    · obtain rfl := Option.some.inj hold
      exact hid ▸ hbatch
    · exact hs.batch _ _ hold

lemma recorded_purge (hs : Recorded host s) (identities : List String) :
    Recorded host (purge s identities) := by
  have hcommits : (purge s identities).commits = s.commits := foldl_purgeOne_commits _
  refine ⟨fun v hv => ?_, fun commitId row hrow => ?_⟩
  · rw [hcommits]
    exact hs.named v (mem_purge_versions.mp hv).1
  · rw [hcommits] at hrow
    exact hs.batch _ _ hrow

/-! ### Steps -/

/-- What every event keeps. -/
structure Sound (host : Host) (s : State) : Prop where
  wellFormed : WellFormed s
  recorded : Recorded host s

lemma wellFormed_empty : WellFormed State.empty where
  version_iff := by simp [State.empty]
  head_pos := by simp [State.empty]
  sameSort := by simp [State.empty]
  ref_iff := by simp [State.empty]
  permits := by simp [State.empty]
  founded := by simp [State.empty]
  acyclic := by
    intro x hx
    obtain ⟨y, hxy, -⟩ := Relation.TransGen.head'_iff.mp hx
    cases hxy

lemma sound_empty : Sound host State.empty :=
  ⟨wellFormed_empty, ⟨by simp [State.empty], by simp [State.empty]⟩⟩

/-- A commit leaves the tables of commits as they are or adds its own record. -/
lemma commit_sound {commitId stamp : String} {mutations : List KnowledgeMutation}
    {sharedStaged : Bool} {result : CommitResult} (hs : Sound host s)
    (h : commit host s commitId mutations sharedStaged stamp = .ok (s', result)) :
    Sound host s' ∧ s'.purgedCommits = s.purgedCommits ∧
      (∀ id row, s.commits.get? id = some row → s'.commits.get? id = some row) ∧
      ∃ row, s'.commits.get? commitId = some row ∧ row.digest = host.batchDigest mutations ∧
        row.result = result := by
  obtain ⟨hbatch, -, ⟨old, hold, hdigest, rfl, rfl⟩ | ⟨hnone, hnew⟩⟩ := commit_ok h
  · exact ⟨hs, rfl, fun _ _ hrow => hrow, old, hold, hdigest, rfl⟩
  · obtain ⟨hwf, hmade⟩ := commitNew_ok hs.wellFormed hbatch hnew
    refine ⟨⟨hwf, hmade.recorded hs.recorded hnone ⟨mutations, hbatch, rfl⟩⟩,
      hmade.purgedCommits, fun id row hrow => ?_,
      ⟨commitId, host.batchDigest mutations, result, stamp⟩, ?_, rfl, rfl⟩
    · rw [hmade.commits, Table.get?_put_of_ne]
      · exact hrow
      · intro heq
        rw [← heq] at hrow
        rw [show s.commits.get? commitId = some row from hrow] at hnone
        cases hnone
    · rw [hmade.commits]
      exact Table.get?_put_self _ _

lemma sound_step (hs : Sound host s) (event : Event) : Sound host (step host s event) := by
  cases event with
  | commit commitId mutations sharedStaged stamp =>
    rw [step]
    split
    case h_1 hcommit => exact (commit_sound hs hcommit).1
    case h_2 => exact hs
  | purge identities =>
    exact ⟨wellFormed_purge hs.wellFormed _, recorded_purge hs.recorded _⟩

lemma sound_of_reachBy {ok : State → Event → Prop} (h : ReachBy host ok s s')
    (hs : Sound host s) : Sound host s' := by
  refine Steps.Reach.invariant h hs fun s event s' hs _ hstep => ?_
  obtain rfl := Option.some.inj hstep
  exact sound_step hs event

lemma commits_step (hs : Sound host s) (event : Event) {id : String} {row : CommitRow}
    (h : s.commits.get? id = some row) : (step host s event).commits.get? id = some row := by
  cases event with
  | commit commitId mutations sharedStaged stamp =>
    rw [step]
    split
    case h_1 hcommit => exact (commit_sound hs hcommit).2.2.1 _ _ h
    case h_2 => exact h
  | purge identities =>
    rw [step, purge, foldl_purgeOne_commits]
    exact h

lemma purgedCommits_step (hs : Sound host s) (event : Event) {id : String}
    (h : id ∈ s.purgedCommits) : id ∈ (step host s event).purgedCommits := by
  cases event with
  | commit commitId mutations sharedStaged stamp =>
    rw [step]
    split
    case h_1 hcommit => exact (commit_sound hs hcommit).2.1 ▸ h
    case h_2 => exact h
  | purge identities => exact mem_purge_purgedCommits.mpr (Or.inl h)

/-! ### Retries -/

def Spares (result : CommitResult) (s : State) : Event → Prop
  | .commit .. => True
  | .purge identities => ∀ entry ∈ result, entry.1 ∉ removed s identities

/-- Until something that it names is purged, a commit is not marked as purged. -/
lemma notMem_purgedCommits {id : String} {row : CommitRow} (hs : Sound host s)
    (hrow : s.commits.get? id = some row) (hid : id ∉ s.purgedCommits)
    (h : ReachBy host (Spares row.result) s s') :
    Sound host s' ∧ s'.commits.get? id = some row ∧ id ∉ s'.purgedCommits := by
  refine @Steps.Reach.invariant _ _ _ _ _ _
    (fun s' => Sound host s' ∧ s'.commits.get? id = some row ∧ id ∉ s'.purgedCommits) h
    ⟨hs, hrow, hid⟩ fun s event s' hkept hspares hstep => ?_
  obtain ⟨hs, hrow, hid⟩ := hkept
  obtain rfl := Option.some.inj hstep
  refine ⟨sound_step hs event, commits_step hs event hrow, ?_⟩
  cases event with
  | commit commitId mutations sharedStaged stamp =>
    rw [step]
    split
    case h_1 hcommit => exact (commit_sound hs hcommit).2.1 ▸ hid
    case h_2 => exact hid
  | purge identities =>
    intro hpurged
    obtain hpurged | ⟨v, hv, hremoved, rfl⟩ := mem_purge_purgedCommits.mp hpurged
    · exact hid hpurged
    · obtain ⟨old, hold, hkey⟩ := hs.recorded.named v hv
      obtain rfl : old = row := Option.some.inj (hold.symm.trans hrow)
      exact hspares v.key hkey hremoved

/-- The retries of the commits that name an identity to be purged raise, whatever comes between. -/
def RetriesRaise (host : Host) (s : State) (identities : List String) : Prop :=
  ∀ id row, s.commits.get? id = some row →
    (∃ entry ∈ row.result, entry.1 ∈ removed s identities) →
    ∀ mutations, host.batchDigest mutations = row.digest →
    ∀ s', Reach host (purge s identities) s' → ∀ sharedStaged stamp,
      ∃ e, commit host s' id mutations sharedStaged stamp = .error e

/-- Each commit that names an identity to be purged is marked already, or wrote a version that the
purge removes: it did not merely take shared versions that other commits wrote. -/
def PurgeCovers (s : State) (identities : List String) : Prop :=
  ∀ id row, s.commits.get? id = some row →
    (∃ entry ∈ row.result, entry.1 ∈ removed s identities) →
    id ∈ s.purgedCommits ∨
      ∃ v ∈ s.versions.rows, v.payload.id ∈ removed s identities ∧ v.commitId = id

lemma retriesRaise_iff (hs : Sound host s) (identities : List String) :
    RetriesRaise host s identities ↔ PurgeCovers s identities := by
  constructor
  · intro h id row hrow hnamed
    by_contra hnot
    have hunmarked : id ∉ (purge s identities).purgedCommits := fun hid =>
      hnot (mem_purge_purgedCommits.mp hid)
    obtain ⟨mutations, hbatch, hdigest⟩ := hs.recorded.batch id row hrow
    have hrow' : (purge s identities).commits.get? id = some row :=
      commits_step hs (.purge identities) hrow
    obtain ⟨e, he⟩ := h id row hrow hnamed mutations hdigest.symm _ .init false ""
    rw [(commit_retry hbatch hrow' hdigest hunmarked false "").1] at he
    cases he
  · intro h id row hrow hnamed mutations _ s' hreach sharedStaged stamp
    refine commit_purged ?_ mutations sharedStaged stamp
    have hmarked : Sound host (purge s identities) ∧ id ∈ (purge s identities).purgedCommits :=
      ⟨sound_step hs (.purge identities), mem_purge_purgedCommits.mpr (h id row hrow hnamed)⟩
    refine (@Steps.Reach.invariant _ _ _ _ _ _
      (fun s' => Sound host s' ∧ id ∈ s'.purgedCommits) hreach hmarked ?_).2
    intro s event s' hboth _ hstep
    obtain ⟨hs, hid⟩ := hboth
    obtain rfl := Option.some.inj hstep
    exact ⟨sound_step hs event, purgedCommits_step hs event hid⟩

/-! ### Dependencies -/

/-- A version from which one is reached by references that is no longer good: it is not the head of
its identity, or the head has been taken back. -/
def Outdated (s : State) (key : VersionKey) : Prop :=
  ∃ v, s.versions.get? key = some v ∧
    ((∃ head, s.heads.get? key.1 = some head ∧ head.revision ≠ key.2) ∨
      ∃ w, readRow s key.1 none = some w ∧
        w.payload.status ∈ [Status.withdrawn, .stale, .contradicted, .superseded])

lemma isStaleDependency_iff (hs : Consistent s) {key : VersionKey} {v : VersionRow}
    (hv : s.versions.get? key = some v) : isStaleDependency s key = true ↔ Outdated s key := by
  obtain rfl := Table.key_of_get? hv
  obtain ⟨head, hhead, -, -⟩ := hs.head_of_mem (Table.mem_of_get? hv)
  have hhead' : s.heads.get? v.key.1 = some head := hhead
  rw [isStaleDependency, Outdated, readRow, hhead']
  simp only [Bool.or_eq_true, decide_eq_true_eq, Option.any_eq_true, Option.bind_some,
    Option.some.injEq, exists_eq_left']
  constructor
  · exact fun h => ⟨v, hv, h⟩
  · rintro ⟨_, -, h⟩
    exact h

lemma stored_of_references (hs : WellFormed s) {x y : VersionKey}
    (hx : (s.versions.get? x).isSome = true) (h : ReflTransGen (References s) x y) :
    (s.versions.get? y).isSome = true := by
  induction h with
  | refl => exact hx
  | tail _ hedge _ =>
    obtain ⟨v, hv, ref, href, rfl⟩ := hs.references_iff.mp hedge
    obtain ⟨w, hw, -⟩ := hs.permits v (Table.mem_of_get? hv) ref href
    exact Option.isSome_iff_exists.mpr ⟨w, hw⟩

/-- What `dependencies_changed` says of a stored version. -/
lemma dependenciesChanged_iff (hs : WellFormed s) {key : VersionKey}
    (hkey : (s.versions.get? key).isSome = true) :
    dependenciesChanged s key = true ↔
      (∃ y, ReflTransGen (References s) key y ∧ Outdated s y) ∨
        ∃ l : List VersionKey, l.Nodup ∧ l.length = 257 ∧
          ∀ y ∈ l, ReflTransGen (References s) key y := by
  have hsplit : dependenciesChanged s key = true ↔
      (∃ y ∈ Reachable.explore (targets s) 257 [] [key], isStaleDependency s y = true) ∨
        257 ≤ (Reachable.explore (targets s) 257 [] [key]).length := by
    simp only [dependenciesChanged, List.any_eq_true, Bool.or_eq_true, decide_eq_true_eq]
    constructor
    · rintro ⟨y, hy, hstale | hlong⟩
      · exact Or.inl ⟨y, hy, hstale⟩
      · exact Or.inr hlong
    · rintro (⟨y, hy, hstale⟩ | hlong)
      · exact ⟨y, hy, Or.inl hstale⟩
      · obtain ⟨y, hy⟩ := List.exists_mem_of_length_pos (Nat.lt_of_lt_of_le (by omega) hlong)
        exact ⟨y, hy, Or.inr hlong⟩
  rw [hsplit, Reachable.exists_explore_iff]
  refine or_congr_left (exists_congr fun y => and_congr_right fun hy => ?_)
  obtain ⟨v, hv⟩ := Option.isSome_iff_exists.mp (stored_of_references hs hkey hy)
  exact isStaleDependency_iff hs.toConsistent hv

/-! ### The repository -/

/-- In every state reached the repository is well formed, a commit that raises changes nothing, a
read tells whether what the version rests on has changed, a retry returns the first result and
writes nothing, and after a purge the retries of the commits that name what it removed raise
exactly when the purge covers these commits. -/
theorem repository_runs (h : Reach host .empty s) :
    WellFormed s ∧
    (∀ commitId mutations sharedStaged stamp e,
      commit host s commitId mutations sharedStaged stamp = .error e →
        step host s (.commit commitId mutations sharedStaged stamp) = s) ∧
    (∀ identity revision version, read s identity revision = some version →
      (version.dependenciesChanged = true ↔
        (∃ y, ReflTransGen (References s) (identity, version.revision) y ∧ Outdated s y) ∨
          ∃ l : List VersionKey, l.Nodup ∧ l.length = 257 ∧
            ∀ y ∈ l, ReflTransGen (References s) (identity, version.revision) y)) ∧
    (∀ commitId mutations sharedStaged stamp s₁ result,
      commit host s commitId mutations sharedStaged stamp = .ok (s₁, result) →
        ∀ s₂, ReachBy host (Spares result) s₁ s₂ → ∀ sharedStaged' stamp',
          commit host s₂ commitId mutations sharedStaged' stamp' = .ok (s₂, result) ∧
            committed host s₂ commitId mutations = .ok (some result)) ∧
    ∀ identities, RetriesRaise host s identities ↔ PurgeCovers s identities := by
  have hs : Sound host s := sound_of_reachBy h sound_empty
  refine ⟨hs.wellFormed, ?_, ?_, ?_, fun identities => retriesRaise_iff hs identities⟩
  · intro commitId mutations sharedStaged stamp e hcommit
    rw [step, hcommit]
  · intro identity revision version hread
    obtain ⟨row, hrow, rfl⟩ := Option.map_eq_some_iff.mp hread
    refine dependenciesChanged_iff hs.wellFormed ?_
    rw [get?_of_readRow hrow]
    rfl
  · intro commitId mutations sharedStaged stamp s₁ result hcommit s₂ hreach sharedStaged' stamp'
    obtain ⟨hs₁, hpurged, -, row, hrow, hdigest, rfl⟩ := commit_sound hs hcommit
    obtain ⟨hbatch, hid, -⟩ := commit_ok hcommit
    obtain ⟨-, hrow₂, hid₂⟩ := notMem_purgedCommits hs₁ hrow (hpurged ▸ hid) hreach
    exact commit_retry hbatch hrow₂ hdigest hid₂ sharedStaged' stamp'

/-- A source. -/
def page : KnowledgeObject where
  id := "s1"
  kind := .source
  content := "text"
  origin := .source
  provenance := [("url", .str "u")]
  checked := by decide

def pageHost : Host := ⟨fun _ => "d", fun text => text, false⟩

/-- Two runs stage the page; the second one finds it stored. -/
def stagedTwice : List Event :=
  [.commit "a" [⟨page, 0⟩] false "t", .commit "b" [⟨page, 0⟩] true "t"]

def stagedState : State := stagedTwice.foldl (step pageHost) .empty

/-- After the page is purged, the second commit can still be replayed. -/
theorem shared_replay_succeeds :
    Reach pageHost .empty stagedState ∧ ¬ RetriesRaise pageHost stagedState ["s1"] := by
  refine ⟨reach_foldl _ _, fun h => ?_⟩
  have hnamed : ∃ entry ∈ [("s1", 1)], entry.1 ∈ removed stagedState ["s1"] :=
    ⟨("s1", 1), by decide, by decide⟩
  obtain ⟨e, he⟩ := h "b" ⟨"b", "d", [("s1", 1)], "t"⟩ (by decide) hnamed [⟨page, 0⟩] rfl _
    .init true "t"
  have hok : (commit pageHost (purge stagedState ["s1"]) "b" [⟨page, 0⟩] true "t").isOk = true := by
    decide
  rw [he] at hok
  cases hok

/-- What the first version of the page says. -/
def excerpt : KnowledgeObject where
  id := "e1"
  kind := .evidence
  content := "text"
  origin := .source
  references := [⟨"s1", 1, "from_source", by decide⟩]
  checked := by decide

/-- The page, an excerpt from it, and a second version of the page. -/
def quoted : List Event :=
  [.commit "a" [⟨page, 0⟩] false "t", .commit "b" [⟨excerpt, 0⟩] false "t",
    .commit "c" [⟨{ page with content := "news", checked := by decide }, 1⟩] false "t"]

def quotedState : State := quoted.foldl (step pageHost) .empty

/-- The excerpt rests on an outdated version, and no commit is replayed when a purge of the page has
removed both. -/
theorem repository_runs_quotedState : WellFormed quotedState ∧
    (∃ version, read quotedState "e1" none = some version ∧ version.dependenciesChanged = true ∧
      References quotedState ("e1", version.revision) ("s1", 1) ∧ Outdated quotedState ("s1", 1)) ∧
    "e1" ∈ removed quotedState ["s1"] ∧ PurgeCovers quotedState ["s1"] ∧
    RetriesRaise pageHost quotedState ["s1"] := by
  obtain ⟨hformed, -, hread, -, hpurge⟩ :=
    repository_runs (reach_foldl quoted .empty : Reach pageHost .empty quotedState)
  have hcovers : PurgeCovers quotedState ["s1"] := by
    intro id row hrow _
    have hwrote : ∀ row ∈ quotedState.commits.rows, ∃ v ∈ quotedState.versions.rows,
        v.payload.id ∈ removed quotedState ["s1"] ∧ v.commitId = row.id := by decide
    obtain rfl := Table.key_of_get? hrow
    exact Or.inr (hwrote row (Table.mem_of_get? hrow))
  have houtdated : Outdated quotedState ("s1", 1) :=
    ⟨_, rfl, Or.inl ⟨_, rfl, by decide⟩⟩
  have hfound : (read quotedState "e1" none).map (·.revision) = some 1 := by decide
  obtain ⟨version, hversion, hrevision⟩ := Option.map_eq_some_iff.mp hfound
  have hrefers : References quotedState ("e1", version.revision) ("s1", 1) := by
    rw [hrevision, References]
    decide
  exact ⟨hformed, ⟨version, hversion, (hread "e1" none version hversion).mpr
    (Or.inl ⟨_, .single hrefers, houtdated⟩), hrefers, houtdated⟩, by decide, hcovers,
    (hpurge ["s1"]).mpr hcovers⟩

end Knowledge

end Codey
