import Codey.Knowledge.Repository

/-!
# Well-formed repositories

What holds of the tables in every state: the versions of an identity are numbered without gaps, and
each of their references names a stored version that it may name. A commit and a purge keep this.
-/

namespace Codey

namespace Knowledge

variable {s : State}

def References (s : State) (x y : VersionKey) : Prop := y ∈ targets s x

/-- What a reference asks of the object that it is read from and of its target. -/
structure Permits (value : KnowledgeObject) (ref : KnowledgeReference)
    (target : KnowledgeObject) : Prop where
  other : ref.target ≠ value.id
  sourceKind : value.kind ∈ sourceKinds ref.relation
  targetKind : target.kind ∈ targetKinds ref.relation
  visible : target.scope = .global ∨
    (target.scope = value.scope ∧ target.scopeId = value.scopeId)
  excerpt : value.kind = .evidence → ref.relation = "from_source" →
    value.content.toList <:+: target.content.toList

/-- What an object of a kind rests on. -/
structure Founded (value : KnowledgeObject) : Prop where
  evidence : value.kind = .evidence → ∃ ref ∈ value.references, ref.relation = "from_source"
  source : value.kind = .source →
    ∃ url, Fields.get? value.provenance "url" = some url ∧ url.truthy = true
  claim : value.kind = .claim → value.status = .active →
    value.origin ≠ .modelExtraction ∧ ∃ ref ∈ value.references, ref.relation = "supported_by"
  inference : value.kind = .inference → ∃ ref ∈ value.references, ref.relation = "depends_on"

/-- Objects that versions of one identity may be. -/
def SameSort (a b : KnowledgeObject) : Prop :=
  a.kind = b.kind ∧ a.scope = b.scope ∧ a.scopeId = b.scopeId

/-- The tables agree with each other. -/
structure Consistent (s : State) : Prop where
  /-- The versions of an identity are those from the first to its head. -/
  version_iff : ∀ identity revision, (s.versions.get? (identity, revision)).isSome ↔
    ∃ head, s.heads.get? identity = some head ∧ 1 ≤ revision ∧ revision ≤ head.revision
  head_pos : ∀ identity head, s.heads.get? identity = some head → 1 ≤ head.revision
  sameSort : ∀ v ∈ s.versions.rows, ∀ w ∈ s.versions.rows, v.payload.id = w.payload.id →
    SameSort v.payload w.payload
  ref_iff : ∀ row, row ∈ s.refs.rows ↔ ∃ v ∈ s.versions.rows, ∃ ref ∈ v.payload.references,
    row = refRow v.payload v.revision ref

structure Linked (s : State) : Prop where
  permits : ∀ v ∈ s.versions.rows, ∀ ref ∈ v.payload.references,
    ∃ w, s.versions.get? (ref.target, ref.revision) = some w ∧ Permits v.payload ref w.payload
  founded : ∀ v ∈ s.versions.rows, Founded v.payload
  acyclic : Acyclic (References s)

structure WellFormed (s : State) : Prop extends Consistent s, Linked s

/-! ### Reading -/

lemma Consistent.references_iff (h : Consistent s) {x y : VersionKey} :
    References s x y ↔ ∃ v, s.versions.get? x = some v ∧
      ∃ ref ∈ v.payload.references, (ref.target, ref.revision) = y := by
  simp only [References, targets, List.mem_map, List.mem_filter, h.ref_iff, decide_eq_true_eq]
  constructor
  · rintro ⟨_, ⟨⟨v, hv, ref, href, rfl⟩, hx⟩, hy⟩
    refine ⟨v, ?_, ref, href, hy⟩
    rw [← hx]
    exact Table.mem_rows_iff.mp hv
  · rintro ⟨v, hv, ref, href, hy⟩
    have hx : v.key = x := Table.key_of_get? hv
    exact ⟨_, ⟨⟨v, Table.mem_of_get? hv, ref, href, rfl⟩, hx⟩, hy⟩

variable {identity : String}

lemma Consistent.readRow_head (h : Consistent s) {head : HeadRow}
    (hhead : s.heads.get? identity = some head) :
    ∃ v, readRow s identity none = some v ∧ s.versions.get? (identity, head.revision) = some v ∧
      v.revision = head.revision := by
  have hstored : (s.versions.get? (identity, head.revision)).isSome = true :=
    (h.version_iff _ _).mpr ⟨head, hhead, h.head_pos _ _ hhead, Nat.le_refl _⟩
  obtain ⟨v, hv⟩ := Option.isSome_iff_exists.mp hstored
  refine ⟨v, ?_, hv, ?_⟩
  · rw [readRow, hhead, Option.bind_some, hv]
  · exact congrArg Prod.snd (Table.key_of_get? hv)

lemma readRow_none (h : s.heads.get? identity = none) : readRow s identity none = none := by
  rw [readRow, h, Option.bind_none]

/-- A row is read under the identity that was asked for. -/
lemma get?_of_readRow {revision : Option Nat} {row : VersionRow}
    (h : readRow s identity revision = some row) :
    s.versions.get? (identity, row.revision) = some row := by
  have hget : ∃ r, s.versions.get? (identity, r) = some row := by
    cases revision with
    | none =>
      obtain ⟨head, -, hrow⟩ := Option.bind_eq_some_iff.mp h
      exact ⟨head.revision, hrow⟩
    | some revision => exact ⟨revision, h⟩
  obtain ⟨r, hrow⟩ := hget
  have hr : row.revision = r := congrArg Prod.snd (Table.key_of_get? hrow)
  rw [hr]
  exact hrow

/-! ### What the checks of a commit say -/

variable {value : KnowledgeObject}

lemma Permits.congr {ref : KnowledgeReference} {a b : KnowledgeObject} (h : Permits value ref a)
    (hab : b.pyEq a = true) : Permits value ref b := by
  obtain ⟨-, hkind, hcontent, hscope, hscopeId, -⟩ := KnowledgeObject.pyEq_fields hab
  refine ⟨h.other, h.sourceKind, ?_, ?_, ?_⟩
  · rw [hkind]
    exact h.targetKind
  · rw [hscope, hscopeId]
    exact h.visible
  · rw [hcontent]
    exact h.excerpt

/-- The version a reference is checked against is pending or stored. -/
lemma permits_of_validateReference {versions : Pending} {ref : KnowledgeReference}
    (h : validateReference s versions value ref = .ok ()) :
    ∃ target, Permits value ref target ∧
      ((∃ entry, versions.get? ref.target = some entry ∧ entry.2 = ref.revision ∧
          entry.1 = target) ∨
        ∃ row, s.versions.get? (ref.target, ref.revision) = some row ∧ row.payload = target) := by
  simp only [validateReference] at h
  split at h
  case h_1 => cases h
  case h_2 target htarget =>
    refine ⟨target, ?_, ?_⟩
    · simp only [except_seq_eq_ok, require_eq_ok, Bool.and_eq_true, Bool.or_eq_true,
        Bool.not_eq_true', Bool.and_eq_false_iff, decide_eq_true_eq, decide_eq_false_iff_not,
        Bool.not_eq_false'] at h
      obtain ⟨hother, ⟨hsource, htargetKind⟩, hvisible, hexcerpt⟩ := h
      refine ⟨hother, hsource, htargetKind, hvisible, fun hkind hrelation => ?_⟩
      obtain (hne | hne) | hinfix := hexcerpt
      · exact absurd hkind hne
      · exact absurd hrelation hne
      · exact occursIn_iff.mp hinfix
    · have hpersisted : (read s ref.target (some ref.revision)).map (·.value) = some target →
          ∃ row, s.versions.get? (ref.target, ref.revision) = some row ∧ row.payload = target := by
        simp only [read, readRow, Option.map_map, Option.map_eq_some_iff, Function.comp_apply]
        exact id
      split at htarget
      case h_1 pending hpending =>
        by_cases hrevision : pending.2 = ref.revision
        · rw [if_pos hrevision] at htarget
          exact Or.inl ⟨pending, hpending, hrevision, Option.some.inj htarget⟩
        · rw [if_neg hrevision] at htarget
          exact Or.inr (hpersisted htarget)
      case h_2 => exact Or.inr (hpersisted htarget)

lemma founded_of_validateReferences {versions : Pending}
    (h : validateReferences s versions value = .ok ()) :
    (∀ ref ∈ value.references, validateReference s versions value ref = .ok ()) ∧
      Founded value := by
  simp only [validateReferences, except_seq_eq_ok, require_eq_ok, checkAll_eq_ok,
    Bool.not_eq_true', Bool.and_eq_false_iff, decide_eq_false_iff_not, Bool.not_eq_false',
    List.mem_map, not_not] at h
  obtain ⟨hrefs, hevidence, hsource, hclaim, horigin, hinference⟩ := h
  refine ⟨hrefs, ?_, ?_, ?_, ?_⟩
  · exact fun hkind => hevidence.resolve_left (not_not.mpr hkind)
  · exact fun hkind => Option.any_eq_true _ _ |>.mp (hsource.resolve_left (not_not.mpr hkind))
  · intro hkind hstatus
    refine ⟨?_, ?_⟩
    · obtain (hne | hne) | hne := horigin
      · exact absurd hkind hne
      · exact hne
      · exact absurd hstatus hne
    · obtain (hne | hne) | hsome := hclaim
      · exact absurd hkind hne
      · exact absurd hstatus hne
      · exact hsome
  · exact fun hkind => hinference.resolve_left (not_not.mpr hkind)

end Knowledge

end Codey
