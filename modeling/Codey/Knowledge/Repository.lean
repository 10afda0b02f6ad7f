import Codey.Knowledge.Model
import Codey.Lib.Reachable
import Codey.Lib.Table

/-!
# The knowledge repository

The tables of the repository and what `commit`, `read` and `purge` do to them. A commit runs in a
transaction, so it is a computation that ends in a new state or raises.
-/

namespace Codey

namespace Knowledge

/-! ### Search text -/

/-- `_CJK` -/
def isCjk (ch : Char) : Bool :=
  (0x3400 ≤ ch.toNat && ch.toNat ≤ 0x4dbf) || (0x4e00 ≤ ch.toNat && ch.toNat ≤ 0x9fff) ||
    (0x3040 ≤ ch.toNat && ch.toNat ≤ 0x30ff) || (0xac00 ≤ ch.toNat && ch.toNat ≤ 0xd7af)

def cjkTerms (text : String) : List String :=
  ((text.toList.splitOnP (!isCjk ·)).flatMap fun chars =>
    (chars.zip chars.tail).map fun pair => String.ofList [pair.1, pair.2]).eraseDups

def indexedText (text : String) : String := text ++ "\n" ++ " ".intercalate (cjkTerms text)

/-! ### Tables -/

/-- What the repository takes from its host: a digest of the canonical text of a batch, the case
folding of strings and whether the database has full text search. -/
structure Host where
  batchDigest : List KnowledgeMutation → String
  casefold : String → String
  ftsEnabled : Bool

/-- A row of `knowledge_versions`. Its columns `id`, `kind`, `scope`, `scope_id` and `status` repeat
fields of the payload. -/
structure VersionRow where
  payload : KnowledgeObject
  revision : Nat
  recordedAt : String
  commitId : String
  deriving DecidableEq

abbrev VersionKey := String × Nat

def VersionRow.key (row : VersionRow) : VersionKey := (row.payload.id, row.revision)

structure HeadRow where
  id : String
  revision : Nat
  deriving DecidableEq

structure RefRow where
  id : String
  revision : Nat
  target : String
  targetRevision : Nat
  relation : String
  deriving DecidableEq

structure AliasRow where
  id : String
  name : String
  deriving DecidableEq

structure FtsRow where
  id : String
  title : String
  content : String
  aliases : String
  deriving DecidableEq

/-- The result of a commit, `dict[str, int]`. The order of its entries does not count. -/
abbrev CommitResult := List VersionKey

structure CommitRow where
  id : String
  digest : String
  result : CommitResult
  recordedAt : String
  deriving DecidableEq

structure State where
  versions : Table VersionRow.key
  heads : Table HeadRow.id
  refs : Table (id : RefRow → RefRow)
  aliases : Table (id : AliasRow → AliasRow)
  fts : List FtsRow
  commits : Table CommitRow.id
  purgedCommits : List String

def State.empty : State :=
  ⟨.empty, .empty, .empty, .empty, [], .empty, []⟩

inductive KnowledgeError where
  | valueError (message : String)
  | integrityError
  | recursionError
  deriving DecidableEq

/-! ### Reading -/

def readRow (s : State) (identity : String) : Option Nat → Option VersionRow
  | none => (s.heads.get? identity).bind fun head => s.versions.get? (identity, head.revision)
  | some revision => s.versions.get? (identity, revision)

def targets (s : State) (key : VersionKey) : List VersionKey :=
  (s.refs.rows.filter fun ref => (ref.id, ref.revision) = key).map
    fun ref => (ref.target, ref.targetRevision)

/-- A version that is not the head of its identity, or whose head is no longer good. -/
def isStaleDependency (s : State) (key : VersionKey) : Bool :=
  match s.heads.get? key.1 with
  | none => true
  | some head =>
    head.revision ≠ key.2 ||
      (s.versions.get? (key.1, head.revision)).any fun row =>
        row.payload.status ∈ [Status.withdrawn, .stale, .contradicted, .superseded]

/-- The recursive query of `read`, which stops at 257 rows. -/
def dependenciesChanged (s : State) (key : VersionKey) : Bool :=
  let dependencies := Reachable.explore (targets s) 257 [] [key]
  dependencies.any fun d => isStaleDependency s d || 257 ≤ dependencies.length

def read (s : State) (identity : String) (revision : Option Nat) : Option KnowledgeVersion :=
  (readRow s identity revision).map fun row =>
    { value := row.payload
      revision := row.revision
      recordedAt := row.recordedAt
      commitId := row.commitId
      dependenciesChanged := dependenciesChanged s (identity, row.revision) }

/-! ### Checks of a commit -/

def sourceKinds : String → List Kind
  | "from_source" => [.evidence]
  | "about" => [.claim, .inference, .question, .observation, .evidence]
  | "supported_by" => [.claim]
  | "refuted_by" => [.claim]
  | "limited_by" => [.claim]
  | "depends_on" => [.inference]
  | "uses" => [.answer]
  | "motivated_by" => [.question]
  | "supersedes" => [.claim, .inference, .source]
  | "same_study" => [.source]
  | _ => []

def targetKinds : String → List Kind
  | "from_source" => [.source]
  | "about" => [.entity]
  | "supported_by" => [.evidence, .observation]
  | "refuted_by" => [.evidence, .observation]
  | "limited_by" => [.evidence, .observation]
  | "depends_on" => [.claim, .inference, .evidence, .observation]
  | "uses" => [.claim, .inference, .evidence, .source, .observation, .question, .entity]
  | "motivated_by" => [.claim, .inference, .evidence, .observation, .question]
  | "supersedes" => [.claim, .inference, .source]
  | "same_study" => [.source]
  | _ => []

/-- The versions that a commit makes or takes, with the revisions they have. -/
abbrev Pending := List (KnowledgeObject × Nat)

def Pending.get? (versions : Pending) (identity : String) : Option (KnowledgeObject × Nat) :=
  versions.find? fun entry => entry.1.id = identity

/-- One round of `_check_revisions`. -/
def checkRevision (s : State) (sharedStaged : Bool) (mutation : KnowledgeMutation) :
    Except KnowledgeError (KnowledgeObject × Nat) :=
  let value := mutation.value
  let old := read s value.id none
  if sharedStaged && mutation.expectedRevision = 0 && old.any fun old =>
      old.revision = 1 && value.kind ∈ [Kind.source, .evidence, .entity] &&
        old.value.pyEq value then
    .ok (value, 1)
  else do
    require ((old.map (·.revision)).getD 0 = mutation.expectedRevision)
      (.valueError ("knowledge revision conflict: " ++ value.id))
    require (old.all fun old => old.value.kind = value.kind && old.value.scope = value.scope &&
        old.value.scopeId = value.scopeId)
      (.valueError "knowledge kind and scope are immutable; create a new identity")
    .ok (value, mutation.expectedRevision + 1)

def checkRevisions (s : State) (sharedStaged : Bool) :
    List KnowledgeMutation → Except KnowledgeError Pending
  | [] => .ok []
  | mutation :: mutations => do
    let entry ← checkRevision s sharedStaged mutation
    let versions ← checkRevisions s sharedStaged mutations
    .ok (entry :: versions)

def pendingTargets (versions : Pending) (identity : String) : List String :=
  ((versions.get? identity).map (·.1.references)).getD [] |>.filterMap fun ref =>
    if (versions.get? ref.target).any fun entry => entry.2 = ref.revision then some ref.target
    else none

def checkCycles (versions : Pending) : Except KnowledgeError Unit :=
  match foldE (versions.map (·.1.id))
      (Reachable.visit (pendingTargets versions) (versions.length + 1) []) [] with
  | .ok _ => .ok ()
  | .error .cyclic => .error (.valueError "cyclic knowledge premises")
  | .error .tooDeep => .error .recursionError

/-- One round of the loop of `_validate_references`. -/
def validateReference (s : State) (versions : Pending) (value : KnowledgeObject)
    (ref : KnowledgeReference) : Except KnowledgeError Unit :=
  let persisted := (read s ref.target (some ref.revision)).map (·.value)
  let target :=
    match versions.get? ref.target with
    | some pending => if pending.2 = ref.revision then some pending.1 else persisted
    | none => persisted
  match target with
  | none => .error (.valueError "missing or self-referential knowledge version")
  | some target => do
    require (ref.target ≠ value.id)
      (.valueError "missing or self-referential knowledge version")
    require (value.kind ∈ sourceKinds ref.relation && target.kind ∈ targetKinds ref.relation)
      (.valueError ("invalid evidence relation: " ++ value.kind.name ++ " " ++ ref.relation ++ " " ++
        target.kind.name))
    require (target.scope = .global ||
        (target.scope = value.scope && target.scopeId = value.scopeId))
      (.valueError "knowledge relation would expose a restricted scope")
    require (!(value.kind = .evidence && ref.relation = "from_source" &&
        !occursIn value.content.toList target.content.toList))
      (.valueError "evidence excerpt does not occur in the pinned source version")

def validateReferences (s : State) (versions : Pending) (value : KnowledgeObject) :
    Except KnowledgeError Unit := do
  checkAll value.references (validateReference s versions value)
  let relations := value.references.map (·.relation)
  require (!(value.kind = .evidence && "from_source" ∉ relations))
    (.valueError "evidence requires an exact source version")
  require (!(value.kind = .source && !((Fields.get? value.provenance "url").any Json.truthy)))
    (.valueError "source requires a provenance URL")
  require (!(value.kind = .claim && value.status = .active && "supported_by" ∉ relations))
    (.valueError
      "active claim requires supporting evidence; keep unsupported claims as candidates")
  require (!(value.kind = .claim && value.origin = .modelExtraction && value.status = .active))
    (.valueError "model-extracted claims are unreviewed; keep them as candidates")
  require (!(value.kind = .inference && "depends_on" ∉ relations))
    (.valueError "inference requires pinned premises")

/-! ### Commits -/

/-- An `INSERT` into `knowledge_refs`. -/
def insertRef (refs : Table (id : RefRow → RefRow)) (row : RefRow) :
    Except KnowledgeError (Table (id : RefRow → RefRow)) := do
  require (refs.get? row).isNone .integrityError
  .ok (refs.put row)

def refRow (value : KnowledgeObject) (revision : Nat) (ref : KnowledgeReference) : RefRow :=
  ⟨value.id, revision, ref.target, ref.revision, ref.relation⟩

/-- The rows of `knowledge_aliases` that an object is found by. -/
def aliasRows (host : Host) (value : KnowledgeObject) : List AliasRow :=
  ((value.aliases ++ [value.title]).filter (· ≠ "")).map fun name =>
    ⟨value.id, host.casefold name⟩

/-- The row of `knowledge_fts` that an object is found by. -/
def ftsRow (value : KnowledgeObject) : FtsRow :=
  ⟨value.id, indexedText value.title, indexedText value.content,
    indexedText (" ".intercalate value.aliases)⟩

def write (host : Host) (s : State) (value : KnowledgeObject) (revision : Nat)
    (stamp commitId : String) : Except KnowledgeError State := do
  let row : VersionRow := ⟨value, revision, stamp, commitId⟩
  require (s.versions.get? row.key).isNone .integrityError
  let refs ← foldE (value.references.map (refRow value revision)) insertRef s.refs
  .ok
    { s with
      versions := s.versions.put row
      heads := s.heads.put ⟨value.id, revision⟩
      refs := refs
      aliases := (aliasRows host value).foldl Table.put
        (s.aliases.filter fun row => row.id ≠ value.id)
      fts := if host.ftsEnabled then
          s.fts.filter (fun row => row.id ≠ value.id) ++ [ftsRow value]
        else s.fts }

def checkNotPurged (s : State) (commitId : String) : Except KnowledgeError Unit :=
  require (commitId ∉ s.purgedCommits)
    (.valueError "knowledge commit contains purged content and cannot be replayed")

def writeNew (host : Host) (stamp commitId : String) (s : State) (entry : KnowledgeObject × Nat) :
    Except KnowledgeError State :=
  if (s.versions.get? (entry.1.id, entry.2)).isNone then
    write host s entry.1 entry.2 stamp commitId
  else .ok s

/-- The first commit under an id. -/
def commitNew (host : Host) (s : State) (commitId : String) (mutations : List KnowledgeMutation)
    (sharedStaged : Bool) (stamp : String) : Except KnowledgeError (State × CommitResult) := do
  let versions ← checkRevisions s sharedStaged mutations
  checkCycles versions
  checkAll mutations fun mutation => validateReferences s versions mutation.value
  let written ← foldE versions (writeNew host stamp commitId) s
  let result := versions.map fun entry => (entry.1.id, entry.2)
  .ok ({ written with
      commits := written.commits.put ⟨commitId, host.batchDigest mutations, result, stamp⟩ }, result)

/-- What `commit` requires of its arguments. -/
def checkBatch (commitId : String) (mutations : List KnowledgeMutation) :
    Except KnowledgeError Unit := do
  require (!(isBlank commitId || 512 < commitId.length || mutations.isEmpty ||
      128 < mutations.length))
    (.valueError "a bounded nonempty commit and stable commit_id are required")
  require (decide (mutations.map (·.value.id)).Nodup)
    (.valueError "duplicate identity in knowledge commit")

def commit (host : Host) (s : State) (commitId : String) (mutations : List KnowledgeMutation)
    (sharedStaged : Bool) (stamp : String) : Except KnowledgeError (State × CommitResult) := do
  checkBatch commitId mutations
  checkNotPurged s commitId
  match s.commits.get? commitId with
  | some old => do
    require (old.digest = host.batchDigest mutations)
      (.valueError "knowledge commit identity reused with different content")
    .ok (s, old.result)
  | none => commitNew host s commitId mutations sharedStaged stamp

def committed (host : Host) (s : State) (commitId : String) (mutations : List KnowledgeMutation) :
    Except KnowledgeError (Option CommitResult) := do
  checkNotPurged s commitId
  match s.commits.get? commitId with
  | none => .ok none
  | some old => do
    require (old.digest = host.batchDigest mutations)
      (.valueError "knowledge commit identity reused with different content")
    .ok (some old.result)

/-! ### Purges -/

def referrers (s : State) (target : String) : List String :=
  (s.refs.rows.filter fun ref => ref.target = target).map (·.id)

/-- What `purge` removes: its loop takes in referring identities until there are no more. Each round
but the last takes in one that has a reference. -/
def removed (s : State) (identities : List String) : List String :=
  Reachable.saturate (referrers s) (s.refs.rows.length + 1) identities.dedup

/-- Remove an identity with all its versions. -/
def purgeOne (s : State) (identity : String) : State :=
  { s with
    purgedCommits := s.purgedCommits ++
      (((s.versions.rows.filter fun row => row.payload.id = identity).map (·.commitId)).dedup.filter
        (· ∉ s.purgedCommits))
    refs := s.refs.filter fun ref => ref.id ≠ identity && ref.target ≠ identity
    versions := s.versions.filter fun row => row.payload.id ≠ identity
    heads := s.heads.filter fun head => head.id ≠ identity
    aliases := s.aliases.filter fun row => row.id ≠ identity
    fts := s.fts.filter fun row => row.id ≠ identity }

def purge (s : State) (identities : List String) : State :=
  (removed s identities).foldl purgeOne s

end Knowledge

end Codey
