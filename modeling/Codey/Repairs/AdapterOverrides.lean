import Codey.Lib.Lists
import Codey.Lib.Table
import Mathlib.Data.Finset.Erase
import Mathlib.Data.Finset.Insert
import Mathlib.Data.Finset.SDiff

/-!
# Adapter overrides

The generations of repaired adapters of one provider: an index of records with a pointer to the
current and to the previous generation, and the directories of the generations beside it.
-/

namespace Codey

namespace AdapterOverrides

def maxIndexBytes : Nat := 128 * 1024
def maxGenerations : Nat := 6
def successPromotionCount : Nat := 2
def failureRollbackCount : Nat := 2

def structuralFailures : List String := ["control_missing", "readiness_stale", "response_missing"]

inductive Status where
  | candidate
  | provisional
  | active
  | rolledBack
  deriving DecidableEq

/-- `ENABLED_STATUSES` -/
def Status.enabled : Status → Bool
  | .provisional | .active => true
  | .candidate | .rolledBack => false

/-- A record of the index. The directory of a generation is named by its number. -/
structure Record where
  generation : Nat
  generation_pos : 0 < generation
  status : Status
  successCount : Nat
  failureCount : Nat
  baseVersion : String
  baseHash : String
  basePackage : String
  tests : List String
  deriving DecidableEq

structure Index where
  current : Nat := 0
  previous : Nat := 0
  generations : Table Record.generation := .empty

/-- The index on disk and the generations whose directory is there. -/
structure Store where
  index : Index := {}
  dirs : Finset Nat := ∅

/-- The running installation, and the length of an encoded index. -/
structure Host where
  version : String
  package : String
  baseHash : String
  indexBytes : Index → Nat

structure Override where
  generation : Nat
  status : Status
  successCount : Nat
  failureCount : Nat
  deriving DecidableEq

/-- What a candidate is installed from. -/
structure Candidate where
  hasPackage : Bool := true
  hasSurface : Bool := true
  baseVersion : String := ""
  baseHash : String := ""
  sourceHash : String := ""
  tests : List String := []

def Record.override (record : Record) : Override :=
  ⟨record.generation, record.status, record.successCount, record.failureCount⟩

/-- `_record`: no record has the number zero or a negative one. -/
def Index.record (index : Index) (generation : Nat) : Option Record :=
  index.generations.get? generation

def Index.write (index : Index) (record : Record) : Index :=
  { index with generations := index.generations.put record }

/-- `_next_generation` -/
def Index.next (index : Index) : Nat :=
  (index.generations.rows.map (·.generation)).foldr max 0 + 1

/-- `_save_index` -/
def save (h : Host) (s : Store) (index : Index) : Except String Store :=
  if maxIndexBytes < h.indexBytes index then .error "local state is too large"
  else .ok { s with index }

/-- The generations that a trimming drops: the oldest ones, never one that is pointed to. -/
def Index.surplus (index : Index) : List Nat :=
  let ordered := sortByKey id (index.generations.rows.map (·.generation))
  (ordered.take (ordered.length - maxGenerations)).filter fun g =>
    g ≠ index.current ∧ g ≠ index.previous

/-- `_trim_generations`, for the index. -/
def Index.trim (index : Index) : Index :=
  { index with generations := index.generations.filter (!index.surplus.contains ·.generation) }

/-- The index with a candidate, before it is trimmed. -/
def Index.install (h : Host) (index : Index) (c : Candidate) : Index where
  current := index.current
  previous := index.current
  generations := index.generations.put {
    generation := index.next
    generation_pos := Nat.succ_pos _
    status := .candidate
    successCount := 0
    failureCount := 0
    baseVersion := if c.baseVersion = "" then h.version else c.baseVersion
    baseHash := if c.baseHash = "" then c.sourceHash else c.baseHash
    basePackage := h.package
    tests := c.tests.take 20 }

/-- What an operation leaves, and what it returns or raises. -/
abbrev Outcome := Store × Except String (Option Override)

/-- The directories with that of the next generation, without those that a trimming drops. -/
def Store.installDirs (s : Store) (index : Index) : Finset Nat :=
  insert s.index.next (s.dirs.erase s.index.next) \ index.surplus.toFinset

/-- `install_candidate`: the directories are trimmed before the index is saved. -/
def installCandidate (h : Host) (s : Store) (c : Candidate) : Outcome :=
  if !c.hasPackage then (s, .error "candidate source does not contain codey package")
  else
    let index := s.index.install h c
    if !c.hasSurface then
      ({ s with dirs := s.dirs.erase s.index.next },
        .error "candidate source is missing adapter surface file")
    else
      let trimmed : Store := { s with dirs := s.installDirs index }
      match save h trimmed index.trim with
      | .ok s' => (s', .ok ((index.record s.index.next).map Record.override))
      | .error e => (trimmed, .error e)

def baseMatches (h : Host) (record : Record) : Bool :=
  record.baseVersion ≠ "" && record.baseHash ≠ "" && record.baseVersion = h.version &&
    record.basePackage ≠ "" && record.basePackage = h.package && record.baseHash = h.baseHash

def loadEnabledOverride (h : Host) (s : Store) : Option Override :=
  if s.index.current = 0 then none
  else match s.index.record s.index.current with
    | none => none
    | some record =>
      if record.status.enabled && baseMatches h record && decide (record.generation ∈ s.dirs)
      then some record.override else none

def saving (h : Host) (s : Store) (index : Index) (result : Store → Option Override) : Outcome :=
  match save h s index with
  | .ok s' => (s', .ok (result s'))
  | .error e => (s, .error e)

def Record.mark (record : Record) : Record := { record with
  status := .provisional
  successCount := max 1 record.successCount
  failureCount := 0 }

def Index.mark (index : Index) (record : Record) : Index := { index.write record.mark with
  current := record.generation
  previous := if index.current ≠ record.generation then index.current else index.previous }

def markProvisional (h : Host) (s : Store) (generation : Nat) : Outcome :=
  match s.index.record generation with
  | none => (s, .ok none)
  | some record =>
    if record.status = .rolledBack then (s, .ok none)
    else saving h s (s.index.mark record) fun _ => some record.mark.override

def Record.succeed (record : Record) : Record := { record with
  successCount := record.successCount + 1
  failureCount := 0
  status := if record.status = .provisional ∧ successPromotionCount ≤ record.successCount + 1
    then .active else record.status }

def recordSuccess (h : Host) (s : Store) (generation : Nat) : Outcome :=
  match s.index.record generation with
  | none => (s, .ok none)
  | some record =>
    if record.status.enabled then
      saving h s (s.index.write record.succeed) (loadEnabledOverride h)
    else (s, .ok none)

def Record.fail (record : Record) : Record :=
  { record with failureCount := record.failureCount + 1 }

def Record.rollBack (record : Record) : Record := { record.fail with status := .rolledBack }

def Record.restore (record : Record) : Record :=
  { record with status := .active, failureCount := 0 }

/-- The index with one more failure of a generation. -/
def Store.fail (s : Store) (record : Record) : Index :=
  if record.fail.failureCount < failureRollbackCount then s.index.write record.fail
  else
    let index := s.index.write record.rollBack
    match index.record index.previous with
    | some previous =>
      if index.previous ≠ 0 ∧ index.previous ∈ s.dirs then
        { index.write previous.restore with current := index.previous }
      else { index with current := 0 }
    | none => { index with current := 0 }

def recordFailure (h : Host) (s : Store) (generation : Nat) (kind : String) : Outcome :=
  if kind ∉ structuralFailures then (s, .ok (loadEnabledOverride h s))
  else match s.index.record generation with
    | none => (s, .ok none)
    | some record =>
      if record.status.enabled then saving h s (s.fail record) (loadEnabledOverride h)
      else (s, .ok none)

inductive Call where
  | installCandidate (c : Candidate)
  | markProvisional (generation : Nat)
  | recordSuccess (generation : Nat)
  | recordFailure (generation : Nat) (kind : String)

/-! ### What the operations leave -/

section Laws

variable {h : Host} {s : Store} {index : Index} {record : Record} {g : Nat}

@[simp] lemma Index.record_write (index : Index) (record : Record) (g : Nat) :
    (index.write record).record g =
      if record.generation = g then some record else index.record g :=
  Table.get?_put index.generations record g

lemma Index.generation_of_record (hrecord : index.record g = some record) :
    record.generation = g :=
  Table.key_of_get? hrecord

lemma saving_cases (h : Host) (s : Store) (index : Index) (result : Store → Option Override) :
    (h.indexBytes index ≤ maxIndexBytes ∧
      saving h s index result = ({ s with index }, .ok (result { s with index }))) ∨
    (maxIndexBytes < h.indexBytes index ∧
      saving h s index result = (s, .error "local state is too large")) := by
  unfold saving save
  split_ifs with hlarge
  · exact .inr ⟨hlarge, rfl⟩
  · exact .inl ⟨Nat.not_lt.mp hlarge, rfl⟩

lemma foldr_max_le_iff {l : List Nat} {n : Nat} : l.foldr max 0 ≤ n ↔ ∀ m ∈ l, m ≤ n := by
  induction l with
  | nil => simp
  | cons m l ih => simp [ih]

lemma Index.lt_next (hrecord : index.record g = some record) : g < index.next := by
  apply Nat.lt_succ_of_le
  apply foldr_max_le_iff.mp le_rfl
  rw [← Index.generation_of_record hrecord]
  exact List.mem_map_of_mem (Table.mem_of_get? hrecord)

lemma Index.next_le {index' : Index}
    (hkept : ∀ g, (index.record g).isSome → (index'.record g).isSome) :
    index.next ≤ index'.next := by
  apply Nat.succ_le_succ
  rw [foldr_max_le_iff]
  intro n hn
  obtain ⟨r, hr, rfl⟩ := List.mem_map.mp hn
  have hsome : index.record r.generation = some r := Table.mem_rows_iff.mp hr
  obtain ⟨r', hr'⟩ := Option.isSome_iff_exists.mp (hkept r.generation (by rw [hsome]; rfl))
  exact Nat.le_of_lt_succ (Index.lt_next hr')

lemma Index.record_trim (index : Index) (g : Nat) : index.trim.record g =
    if g ∈ index.surplus then none else index.record g := by
  change (index.generations.filter _).get? g = _
  rw [Table.get?_filter]
  cases hrecord : index.generations.get? g with
  | none => simp [Index.record, hrecord]
  | some record =>
    obtain rfl := Table.key_of_get? hrecord
    by_cases hsurplus : record.generation ∈ index.surplus
    · simp [Option.filter, hsurplus]
    · simp [Option.filter, hsurplus, Index.record, hrecord]

lemma Index.kept_of_surplus (hg : g ∈ index.surplus) :
    g ≠ index.current ∧ g ≠ index.previous := by
  simpa using (List.mem_filter.mp hg).2

/-- The newest generation is never trimmed. -/
lemma Index.newest_notMem_surplus
    (hnewest : ∀ r ∈ index.generations.rows, r.generation ≤ g) : g ∉ index.surplus := by
  intro hg
  set numbers := index.generations.rows.map (·.generation) with hnumbers
  set ordered := sortByKey id numbers with hordered
  have hperm : ordered.Perm numbers := sortByKey_perm id numbers
  have htake : g ∈ ordered.take (ordered.length - maxGenerations) := (List.mem_filter.mp hg).1
  have hlt : ordered.length - maxGenerations < ordered.length := by
    have hpos : 0 < ordered.length := List.length_pos_of_mem (List.mem_of_mem_take htake)
    exact Nat.sub_lt hpos (by decide)
  have hsplit := List.take_append_drop (ordered.length - maxGenerations) ordered
  obtain ⟨newer, rest, hrest⟩ : ∃ newer rest,
      ordered.drop (ordered.length - maxGenerations) = newer :: rest :=
    List.exists_cons_of_ne_nil (by simpa using hlt)
  have hsorted := pairwise_sortByKey id numbers
  have hnodup : ordered.Nodup := hperm.nodup_iff.mpr index.generations.nodup
  rw [← hordered, ← hsplit, List.pairwise_append] at hsorted
  rw [← hsplit, List.nodup_append] at hnodup
  have hnewer : newer ∈ ordered.drop (ordered.length - maxGenerations) := by
    rw [hrest]
    exact List.mem_cons_self
  have hle : newer ≤ g := by
    obtain ⟨r, hr, rfl⟩ := List.mem_map.mp (hperm.subset (List.mem_of_mem_drop hnewer))
    exact hnewest r hr
  exact hnodup.2.2 g htake newer hnewer (le_antisymm (hsorted.2.2 g htake newer hnewer) hle)

end Laws

end AdapterOverrides

end Codey
