import Codey.Knowledge.Repository
import Mathlib.Data.List.Perm.Basic

/-!
# Recall

The search of the repository for one who may see some scopes only: first the versions that a text
finds, then those that are related to them by a reference in one direction or the other.
-/

namespace Codey

namespace Knowledge

/-! ### Access -/

structure KnowledgeAccess where
  project : String := ""
  sessionId : String := ""
  ownerId : String := ""
  deriving DecidableEq

def KnowledgeAccess.allows (access : KnowledgeAccess) (value : KnowledgeObject) : Bool :=
  value.scope = .global ||
    value.scope = .project && access.project ≠ "" && value.scopeId = access.project ||
    (value.scope = .session || value.scope = .personal) && access.sessionId ≠ "" &&
      value.scopeId = access.sessionId ||
    value.scope = .personal && access.ownerId ≠ "" && value.scopeId = access.ownerId

/-- The fragment `sql` on the columns of a row. -/
def KnowledgeAccess.sql (access : KnowledgeAccess) (row : VersionRow) : Bool :=
  row.payload.scope = .global ||
    row.payload.scope = .project && row.payload.scopeId = access.project &&
      row.payload.scopeId ≠ "" ||
    row.payload.scope ∈ [Scope.session, .personal] && row.payload.scopeId = access.sessionId &&
      row.payload.scopeId ≠ "" ||
    row.payload.scope = .personal && row.payload.scopeId = access.ownerId &&
      row.payload.scopeId ≠ ""

structure KnowledgeHit where
  version : KnowledgeVersion
  reason : String
  path : List String := []
  deriving DecidableEq

def KnowledgeHit.key (hit : KnowledgeHit) : VersionKey := (hit.version.value.id, hit.version.revision)

/-- What a search is restricted to. -/
structure Wanted where
  access : KnowledgeAccess := {}
  excludeKinds : List String := []
  excludeIds : List String := []
  deriving DecidableEq

/-! ### Queries -/

/-- The queries whose rows come in an order that is left to the database. -/
inductive Listing where
  | idPrefix (query : String)
  | byName (query : String)
  | byText (expression : String)
  | byContent (query : String)
  deriving DecidableEq

/-- The host of a search: the word characters of `\w`, the rows of text that a match expression
finds, the canonical text of a payload, and the orders in which the rows of a query are listed. -/
structure RecallHost extends Host where
  isWord : Char → Bool
  ftsMatch : String → FtsRow → Bool
  payloadText : KnowledgeObject → String
  listVersions : State → Listing → Wanted → List VersionRow → List VersionRow
  listRefs : State → VersionKey → Wanted → List RefRow → List RefRow
  listVersions_perm : ∀ s listing wanted rows, (listVersions s listing wanted rows).Perm rows
  listRefs_perm : ∀ s key wanted rows, (listRefs s key wanted rows).Perm rows

/-- `_STOP` -/
def stopWords : List String :=
  ["the", "a", "an", "and", "or", "of", "to", "is", "in", "how", "what", "with", "can", "for",
    "not", "on", "at", "from", "by", "as", "be", "we"]

def queryTerms (host : RecallHost) (text : String) : List String :=
  let found := ((host.casefold text).toList.splitOnP fun ch => !host.isWord ch || ch = '_').filter
    (· ≠ [])
  let words := (found.map String.ofList).filter fun term =>
    term ∉ stopWords && !term.toList.any isCjk
  (words.take 12 ++ (cjkTerms text).take 64).eraseDups

def matchExpression (terms : List String) : String :=
  let quote (term : String) :=
    String.ofList (term.toList.flatMap fun ch => if ch = '"' then ['"', '"'] else [ch])
  " OR ".intercalate (terms.map fun term => "\"" ++ quote term ++ "\"")

/-- `re.fullmatch(r"[a-z][a-z0-9_-]{15,127}", query)` -/
def looksLikeId (query : String) : Bool :=
  match query.toList with
  | [] => false
  | ch :: rest =>
    ch.isLower && 15 ≤ rest.length && rest.length ≤ 127 &&
      rest.all fun ch => ch.isLower || ch.isDigit || ch = '_' || ch = '-'

def isHead (s : State) (row : VersionRow) : Bool :=
  (s.heads.get? row.payload.id).any fun head => head.revision = row.revision

/-- The condition that every query ends with. -/
def isListed (wanted : Wanted) (row : VersionRow) : Bool :=
  wanted.access.sql row && row.payload.status ∉ [Status.withdrawn, .superseded] &&
    row.payload.kind.name ∉ wanted.excludeKinds && row.payload.id ∉ wanted.excludeIds

/-- The condition of one query. In a pattern of `GLOB` nothing that a query may hold is special. An
identity has one row of text. -/
def isFound (host : RecallHost) (s : State) (row : VersionRow) : Listing → Bool
  | .idPrefix query => query.toList.isPrefixOf row.payload.id.toList
  | .byName query => s.aliases.rows.any fun name => name.id = row.payload.id &&
      2 ≤ name.name.length && occursIn name.name.toList (host.casefold query).toList
  | .byText expression => s.fts.any fun text => text.id = row.payload.id &&
      host.ftsMatch expression text
  | .byContent query => occursIn query.toList (host.payloadText row.payload).toList

def found (host : RecallHost) (s : State) (wanted : Wanted) (listing : Listing) : List VersionRow :=
  s.versions.rows.filter fun row =>
    isHead s row && isFound host s row listing && isListed wanted row

/-- The rows of a query as they are listed. -/
def listed (host : RecallHost) (s : State) (wanted : Wanted) (limit : Nat) (listing : Listing) :
    List VersionRow :=
  let rows := host.listVersions s listing wanted (found host s wanted listing)
  match listing with
  | .idPrefix _ => (rows.mergeSort fun a b => a.payload.id ≤ b.payload.id).take limit
  | _ => rows.take limit

/-- The versions that a text finds, each with the reason. -/
def seeds (host : RecallHost) (s : State) (query : String) (wanted : Wanted) (limit : Nat) :
    List (VersionKey × String) :=
  let seed (reason : String) (listing : Listing) : List (VersionKey × String) :=
    (listed host s wanted limit listing).map fun row => (row.key, reason)
  let byId :=
    if looksLikeId query then seed "literal id prefix; confirm the exact identity" (.idPrefix query)
    else []
  let byName := seed "explicit name or alias in question" (.byName query)
  let terms := queryTerms host query
  let byText :=
    if host.ftsEnabled && !terms.isEmpty then
      seed "text match; relevance is not evidence strength" (.byText (matchExpression terms))
    else []
  let direct := byId ++ byName ++ byText
  if direct.isEmpty then seed "literal content match" (.byContent query) else direct

/-! ### Neighbours -/

/-- The place of a relation in the order of the incoming references. -/
def relationRank (relation : String) : Nat :=
  if relation = "refuted_by" then 0 else if relation = "limited_by" then 1 else 2

def incoming (s : State) (key : VersionKey) (wanted : Wanted) : List RefRow :=
  s.refs.rows.filter fun ref => (ref.target, ref.targetRevision) = key &&
    (s.heads.get? ref.id).any (fun head => head.revision = ref.revision) &&
    (s.versions.get? (ref.id, ref.revision)).any (isListed wanted)

def neighbors (host : RecallHost) (s : State) (version : KnowledgeVersion) (wanted : Wanted)
    (limit : Nat) : List (VersionKey × String) :=
  let key := (version.value.id, version.revision)
  let rows := ((host.listRefs s key wanted (incoming s key wanted)).mergeSort fun a b =>
    relationRank a.relation ≤ relationRank b.relation).take limit
  let outgoing := (version.value.references.filter fun ref => ref.target ∉ wanted.excludeIds).map
    fun ref => ((ref.target, ref.revision), ref.relation)
  (outgoing ++ rows.map fun ref => ((ref.id, ref.revision), ref.relation)).eraseDups.take limit

/-! ### The search -/

/-- A step of a path, `f"{identity}@{revision}"`. -/
def pathStep (key : VersionKey) : String := key.1 ++ "@" ++ toString key.2

def setDefault (hits : List KnowledgeHit) (key : VersionKey) (hit : KnowledgeHit) :
    List KnowledgeHit :=
  if hits.any fun known => known.key = key then hits else hits ++ [hit]

/-- Turn a seed into a hit. -/
def addSeed (s : State) (wanted : Wanted) (hits : List KnowledgeHit) (seed : VersionKey × String) :
    List KnowledgeHit :=
  match read s seed.1.1 (some seed.1.2) with
  | none => hits
  | some version =>
    if wanted.access.allows version.value then
      setDefault hits seed.1 ⟨version, seed.2, [pathStep seed.1]⟩
    else hits

/-- The hits so far and those of the next frontier. -/
abbrev Expansion := List KnowledgeHit × List KnowledgeHit

/-- Look at a neighbour of a hit. When there are enough hits they are returned at once. -/
def addNeighbor (s : State) (wanted : Wanted) (limit : Nat) (hit : KnowledgeHit) (acc : Expansion)
    (neighbor : VersionKey × String) : Except (List KnowledgeHit) Expansion :=
  if acc.1.any fun known => known.key = neighbor.1 then .ok acc
  else
    match read s neighbor.1.1 (some neighbor.1.2) with
    | none => .ok acc
    | some version =>
      if !wanted.access.allows version.value || version.value.kind.name ∈ wanted.excludeKinds ||
          version.value.id ∈ wanted.excludeIds ||
          version.value.status ∈ [Status.withdrawn, .superseded] then .ok acc
      else
        let item : KnowledgeHit := ⟨version,
          "related via " ++ neighbor.2 ++ "; investigate applicability",
          hit.path ++ [pathStep neighbor.1]⟩
        let hits := acc.1 ++ [item]
        if limit ≤ hits.length then .error hits else .ok (hits, acc.2 ++ [item])

def addNeighbors (host : RecallHost) (s : State) (wanted : Wanted) (limit : Nat) (acc : Expansion)
    (hit : KnowledgeHit) : Except (List KnowledgeHit) Expansion :=
  foldE (neighbors host s hit.version wanted 8) (addNeighbor s wanted limit hit) acc

/-- The rounds of the search. -/
def expand (host : RecallHost) (s : State) (wanted : Wanted) (limit : Nat) :
    Nat → List KnowledgeHit → List KnowledgeHit → Except (List KnowledgeHit) (List KnowledgeHit)
  | 0, hits, _ => .ok hits
  | n + 1, hits, frontier => do
    let acc ← foldE frontier (addNeighbors host s wanted limit) (hits, [])
    expand host s wanted limit n acc.1 acc.2

def directHits (host : RecallHost) (s : State) (query : String) (wanted : Wanted)
    (limit depth : Nat) : List KnowledgeHit :=
  (((seeds host s query wanted limit).take (limit * 2)).foldl (addSeed s wanted) []).take
    (if depth ≠ 0 then max 1 (limit / 2) else limit)

def search (host : RecallHost) (s : State) (query : String) (wanted : Wanted) (limit depth : Int) :
    List KnowledgeHit :=
  let query := String.ofList (strip query.toList)
  let limit := (max 1 (min 24 limit)).toNat
  let depth := (max 0 (min 2 depth)).toNat
  if query = "" then []
  else
    let hits := directHits host s query wanted limit depth
    match expand host s wanted limit depth hits hits with
    | .ok hits => hits.take limit
    | .error hits => hits

end Knowledge

end Codey
