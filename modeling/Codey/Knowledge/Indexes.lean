import Codey.Knowledge.Recall
import Codey.Knowledge.Replays

/-!
# The search tables

The names and texts by which objects are found are those of the heads, in every state.
-/

namespace Codey

namespace Knowledge

open Relation (ReflTransGen)

variable {host : Host} {s s' : State}

structure Indexed (host : Host) (s : State) : Prop where
  alias_iff : ∀ name, name ∈ s.aliases.rows ↔
    ∃ v ∈ s.versions.rows, isHead s v = true ∧ name ∈ aliasRows host v.payload
  fts_iff : host.ftsEnabled = true → ∀ text, text ∈ s.fts ↔
    ∃ v ∈ s.versions.rows, isHead s v = true ∧ text = ftsRow v.payload

lemma id_of_mem_aliasRows {value : KnowledgeObject} {name : AliasRow}
    (h : name ∈ aliasRows host value) : name.id = value.id := by
  obtain ⟨_, -, rfl⟩ := List.mem_map.mp h
  rfl

lemma mem_foldl_put_self {α : Type} [DecidableEq α] {rows : List α} {t : Table (id : α → α)}
    {x : α} : x ∈ (rows.foldl Table.put t).rows ↔ x ∈ t.rows ∨ x ∈ rows := by
  induction rows generalizing t with
  | nil => simp
  | cons row rows ih =>
    rw [List.foldl_cons, ih, Table.mem_put_iff, List.mem_cons]
    by_cases hx : x = row
    · simp [hx]
    · have hne : row ≠ x := fun heq => hx heq.symm
      simp [hx, hne]

lemma isHead_iff {v : VersionRow} : isHead s v = true ↔
    ∃ head, s.heads.get? v.payload.id = some head ∧ head.revision = v.revision := by
  rw [isHead, Option.any_eq_true]
  simp only [decide_eq_true_eq]

/-- After a write the head of the identity is the new row, and other heads are as before. -/
lemma Written.isHead_iff {row : VersionRow} (h : Written host s row s') {v : VersionRow}
    (hv : v ∈ s'.versions.rows) :
    isHead s' v = true ↔ v = row ∨ (v.payload.id ≠ row.payload.id ∧ v ∈ s.versions.rows ∧
      isHead s v = true) := by
  have hhead : s'.heads.get? row.payload.id = some ⟨row.payload.id, row.revision⟩ := by
    rw [h.heads]
    exact Table.get?_put_self _ _
  rw [Knowledge.isHead_iff]
  by_cases hid : v.payload.id = row.payload.id
  · rw [hid, hhead]
    simp only [Option.some.injEq, exists_eq_left', ne_eq, not_true, false_and, or_false]
    constructor
    · intro hrevision
      -- rows of one key are equal
      have hrow : row ∈ s'.versions.rows := (h.mem_iff row).mpr (Or.inr rfl)
      have hkey : v.key = row.key := Prod.ext hid hrevision.symm
      have hget := Table.mem_rows_iff.mp hv
      rw [hkey, Table.mem_rows_iff.mp hrow] at hget
      exact (Option.some.inj hget).symm
    · rintro rfl
      rfl
  · have hne : v ≠ row := fun heq => hid (congrArg (·.payload.id) heq)
    rw [(h.get?_of_ne hid).1, ← Knowledge.isHead_iff]
    have hold : v ∈ s.versions.rows := ((h.mem_iff v).mp hv).resolve_right hne
    simp [hid, hne, hold]

lemma Written.indexed {row : VersionRow} (h : Written host s row s') (hs : Indexed host s) :
    Indexed host s' := by
  have hrow : row ∈ s'.versions.rows := (h.mem_iff row).mpr (Or.inr rfl)
  have hrowHead : isHead s' row = true := (h.isHead_iff hrow).mpr (Or.inl rfl)
  have hkept : ∀ v ∈ s.versions.rows, v ∈ s'.versions.rows := fun v hv =>
    (h.mem_iff v).mpr (Or.inl hv)
  refine ⟨fun name => ?_, fun hfts text => ?_⟩
  · rw [h.aliases, mem_foldl_put_self, Table.rows_filter, List.mem_filter, hs.alias_iff,
      decide_eq_true_eq]
    constructor
    · rintro (⟨⟨v, hv, hhead, hname⟩, hne⟩ | hname)
      · rw [id_of_mem_aliasRows hname] at hne
        exact ⟨v, hkept v hv, (h.isHead_iff (hkept v hv)).mpr (Or.inr ⟨hne, hv, hhead⟩), hname⟩
      · exact ⟨row, hrow, hrowHead, hname⟩
    · rintro ⟨v, hv, hhead, hname⟩
      obtain rfl | ⟨hne, hold, hhead⟩ := (h.isHead_iff hv).mp hhead
      · exact Or.inr hname
      · refine Or.inl ⟨⟨v, hold, hhead, hname⟩, ?_⟩
        rw [id_of_mem_aliasRows hname]
        exact hne
  · rw [h.fts hfts, List.mem_append, List.mem_filter, hs.fts_iff hfts, decide_eq_true_eq,
      List.mem_singleton]
    constructor
    · rintro (⟨⟨v, hv, hhead, rfl⟩, hne⟩ | rfl)
      · exact ⟨v, hkept v hv, (h.isHead_iff (hkept v hv)).mpr (Or.inr ⟨hne, hv, hhead⟩), rfl⟩
      · exact ⟨row, hrow, hrowHead, rfl⟩
    · rintro ⟨v, hv, hhead, rfl⟩
      obtain rfl | ⟨hne, hold, hhead⟩ := (h.isHead_iff hv).mp hhead
      · exact Or.inr rfl
      · exact Or.inl ⟨⟨v, hold, hhead, rfl⟩, hne⟩

lemma Indexed.of_tables (hs : Indexed host s) (hversions : s'.versions = s.versions)
    (hheads : s'.heads = s.heads) (haliases : s'.aliases = s.aliases) (hfts : s'.fts = s.fts) :
    Indexed host s' := by
  refine ⟨fun name => ?_, fun henabled text => ?_⟩
  · simp only [isHead, hversions, hheads, haliases]
    exact hs.alias_iff name
  · simp only [isHead, hversions, hheads, hfts]
    exact hs.fts_iff henabled text

lemma indexed_of_writes (h : ReflTransGen (WriteStep host) s s') (hs : Indexed host s) :
    Indexed host s' := by
  induction h with
  | refl => exact hs
  | tail _ hstep ih =>
    obtain ⟨-, row, -, hwritten⟩ := hstep
    exact hwritten.indexed ih

lemma Made.indexed {row : CommitRow} (h : Made host s row s') (hs : Indexed host s) :
    Indexed host s' := by
  obtain ⟨written, hsteps, heq⟩ := h.writes
  rw [heq]
  exact (indexed_of_writes hsteps hs).of_tables rfl rfl rfl rfl

/-! ### Purges -/

lemma mem_foldl_purgeOne_aliases (rest : List String) (name : AliasRow) :
    name ∈ (rest.foldl purgeOne s).aliases.rows ↔ name ∈ s.aliases.rows ∧ name.id ∉ rest := by
  induction rest generalizing s with
  | nil => simp
  | cons x rest ih =>
    rw [List.foldl_cons, ih]
    simp only [purgeOne, Table.rows_filter, List.mem_filter, decide_eq_true_eq, List.mem_cons,
      not_or, and_assoc]

lemma mem_foldl_purgeOne_fts (rest : List String) (text : FtsRow) :
    text ∈ (rest.foldl purgeOne s).fts ↔ text ∈ s.fts ∧ text.id ∉ rest := by
  induction rest generalizing s with
  | nil => simp
  | cons x rest ih =>
    rw [List.foldl_cons, ih]
    simp only [purgeOne, List.mem_filter, decide_eq_true_eq, List.mem_cons, not_or, and_assoc]

lemma isHead_purge {identities : List String} {v : VersionRow}
    (h : v.payload.id ∉ removed s identities) : isHead (purge s identities) v = isHead s v := by
  rw [isHead, isHead, (purge_get?_of_notMem h).1]

lemma indexed_purge (hs : Indexed host s) (identities : List String) :
    Indexed host (purge s identities) := by
  have hheads : ∀ v, v ∈ (purge s identities).versions.rows ∧
      isHead (purge s identities) v = true ↔
      (v ∈ s.versions.rows ∧ isHead s v = true) ∧ v.payload.id ∉ removed s identities := by
    intro v
    rw [mem_purge_versions]
    constructor
    · rintro ⟨⟨hv, hid⟩, hhead⟩
      exact ⟨⟨hv, isHead_purge hid ▸ hhead⟩, hid⟩
    · rintro ⟨⟨hv, hhead⟩, hid⟩
      exact ⟨⟨hv, hid⟩, (isHead_purge hid).symm ▸ hhead⟩
  refine ⟨fun name => ?_, fun hfts text => ?_⟩
  · rw [purge, mem_foldl_purgeOne_aliases, ← purge, hs.alias_iff]
    simp only [← and_assoc, hheads]
    constructor
    · rintro ⟨⟨v, ⟨hv, hname⟩⟩, hid⟩
      rw [id_of_mem_aliasRows hname] at hid
      exact ⟨v, ⟨hv, hid⟩, hname⟩
    · rintro ⟨v, ⟨hv, hid⟩, hname⟩
      refine ⟨⟨v, hv, hname⟩, ?_⟩
      rw [id_of_mem_aliasRows hname]
      exact hid
  · rw [purge, mem_foldl_purgeOne_fts, ← purge, hs.fts_iff hfts]
    simp only [← and_assoc, hheads]
    constructor
    · rintro ⟨⟨v, hv, rfl⟩, hid⟩
      exact ⟨v, ⟨hv, hid⟩, rfl⟩
    · rintro ⟨v, ⟨hv, hid⟩, rfl⟩
      exact ⟨⟨v, hv, rfl⟩, hid⟩

/-! ### Runs -/

lemma indexed_step (hs : Sound host s) (hi : Indexed host s) (event : Event) :
    Indexed host (step host s event) := by
  cases event with
  | commit commitId mutations sharedStaged stamp =>
    rw [step]
    split
    case h_1 hcommit =>
      obtain ⟨hbatch, -, ⟨_, -, -, rfl, -⟩ | ⟨-, hnew⟩⟩ := commit_ok hcommit
      · exact hi
      · exact (commitNew_ok hs.wellFormed hbatch hnew).2.indexed hi
    case h_2 => exact hi
  | purge identities => exact indexed_purge hi identities

lemma indexed_of_reach (h : Reach host .empty s) : Sound host s ∧ Indexed host s := by
  have hempty : Sound host State.empty ∧ Indexed host State.empty :=
    ⟨sound_empty, ⟨by simp [State.empty], fun _ => by simp [State.empty]⟩⟩
  refine @Steps.Reach.invariant _ _ _ _ _ _ (fun s => Sound host s ∧ Indexed host s) h hempty
    fun s event s' hboth _ hstep => ?_
  obtain rfl := Option.some.inj hstep
  exact ⟨sound_step hboth.1 event, indexed_step hboth.1 hboth.2 event⟩

end Knowledge

end Codey
