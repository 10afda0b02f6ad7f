import Codey.Ghost.GraphPrimitives
import Codey.Ghost.Scopes
import Codey.Lib.Lists
import Codey.Lib.Numbered
import Codey.Lib.Table
import Mathlib.Data.Prod.Lex

/-!
# The Hebbian graph

Nodes for accepted memory candidates and edges between those of one run. Every change is an event
in a log and is applied to the stored rows, which are kept within bounds; the rows can be rebuilt
from the log.
-/

namespace Codey

namespace Ghost

namespace Hebbian

def maxGhostNodes : Nat := 500

def maxGhostEdges : Nat := 2000

def maxHebbianEvents : Nat := 5000

def maxHebbianEventsBytes : Nat := 4 * 1024 * 1024

def maxNodeEvidenceRefs : Nat := 32

def maxEdgeEvidenceRefs : Nat := 32

def nodeLearningRate : ℚ := 25 / 100

def edgeLearningRate : ℚ := 15 / 100

def nodeHalfLifeDays : ℚ := 90

def edgeHalfLifeDays : ℚ := 180

def minNodeWeight : ℚ := 5 / 100

def minEdgeWeight : ℚ := 1 / 100

def maxEdgeOutDegree : Nat := 8

/-! ### Candidates -/

/-- `SIGNAL_KINDS` -/
inductive SignalKind where
  | stylePreference | correction | researchInterest | longTermGoal | actionTendency
deriving DecidableEq, Repr

def SignalKind.name : SignalKind → String
  | .stylePreference => "style_preference"
  | .correction => "correction"
  | .researchInterest => "research_interest"
  | .longTermGoal => "long_term_goal"
  | .actionTendency => "action_tendency"

/-- `CANDIDATE_STATUSES` -/
inductive CandidateStatus where
  | candidate | accepted | rejected | expired | superseded
deriving DecidableEq, Repr

/-- What the graph reads of a memory candidate. -/
structure Candidate where
  id : String
  signalKind : SignalKind
  status : CandidateStatus
  scope : Scope
  summary : String
  confidence : ℚ
  conflictKey : String
  valueKey : String
  sessionId : String
  runId : String
  project : String
  gateReason : String
  evidenceRefs : List String
  reviewedAt : String

def Candidate.scopeRef (c : Candidate) : String :=
  match c.scope with
  | .project => c.project
  | .session => c.sessionId
  | .user => ""

/-- `_candidate_has_provenance` -/
def Candidate.hasProvenance (c : Candidate) : Bool :=
  (c.sessionId ≠ "" || c.runId ≠ "") && !(c.scope = .project && c.project = "") &&
    !(c.scope = .session && c.sessionId = "")

/-- `_candidate_is_manual_accept` -/
def Candidate.isManualAccept (c : Candidate) : Bool :=
  c.reviewedAt ≠ "" && c.gateReason = "manual_accept"

def canCoactivate (candidate related : Candidate) : Bool :=
  related.status = .accepted && candidate.runId ≠ "" && candidate.runId = related.runId &&
    related.hasProvenance

/-! ### Rows -/

/-- `coerce_unit_float` -/
def coerceUnit (digits : Nat) (value : ℚ) : Option ℚ :=
  if value < 0 ∨ 1 < value then none else some (roundTo digits value)

def clamp01 (value : ℚ) : ℚ := roundTo 6 (max 0 (min 1 value))

def coerceReward (reward : ℚ) : ℚ := max 0 (min 1 reward)

def mergeRefs (current incoming : List String) (limit : Nat) : List String :=
  let out := (current ++ incoming).foldl (fun out value =>
    let ref := clipSignalText value 160
    if ref ≠ "" && !out.contains ref then out ++ [ref] else out) []
  keepLast (max 1 limit) out

inductive NodeStatus where
  | active | superseded | expired
deriving DecidableEq, Repr

structure GhostNode where
  id : String
  kind : SignalKind
  label : String
  conflictKey : String
  valueKey : String
  status : NodeStatus
  scope : Scope
  scopeRef : String
  weight : ℚ
  confidence : ℚ
  candidateIds : List String
  evidenceRefs : List String
  createdAt : String
  updatedAt : String
  lastReinforcedAt : String
  lastDecayedAt : String := ""
  supersededBy : String := ""
deriving DecidableEq

/-- An edge of the only relation, `coactivated_with`. -/
structure GhostEdge where
  source : String
  target : String
  weight : ℚ
  candidateIds : List String
  evidenceRefs : List String
  createdAt : String
  updatedAt : String
  lastReinforcedAt : String
  lastDecayedAt : String := ""
deriving DecidableEq

instance : NodeRow GhostNode where
  active node := node.status = .active
  weight := GhostNode.weight
  updatedAt := GhostNode.updatedAt

instance : EdgeRow GhostEdge where
  source := GhostEdge.source
  target := GhostEdge.target
  active _ := false
  weight := GhostEdge.weight
  updatedAt := GhostEdge.updatedAt

/-- `from_payload` on the payload of a node. -/
def GhostNode.reload (node : GhostNode) : Option GhostNode :=
  let id := clipSignalText node.id 120
  let label := clipSignalText node.label
  let conflictKey := clipSignalText node.conflictKey 180
  let valueKey := clipSignalText node.valueKey 180
  if id = "" ∨ label = "" ∨ conflictKey = "" ∨ valueKey = "" then none
  else
    (coerceUnit 6 node.weight).bind fun weight =>
      (coerceUnit 4 node.confidence).map fun confidence =>
        { node with
          id, label, conflictKey, valueKey, weight, confidence
          scopeRef := clipSignalText node.scopeRef 240
          candidateIds := mergeRefs [] node.candidateIds maxNodeEvidenceRefs
          evidenceRefs := mergeRefs [] node.evidenceRefs maxNodeEvidenceRefs
          createdAt := clipSignalText node.createdAt 80
          updatedAt := clipSignalText node.updatedAt 80
          lastReinforcedAt := clipSignalText node.lastReinforcedAt 80
          lastDecayedAt := clipSignalText node.lastDecayedAt 80
          supersededBy := clipSignalText node.supersededBy 120 }

/-- `from_payload` on the payload of an edge. -/
def GhostEdge.reload (edge : GhostEdge) : Option GhostEdge :=
  let source := clipSignalText edge.source 120
  let target := clipSignalText edge.target 120
  if source = "" ∨ target = "" ∨ source = target then none
  else
    (coerceUnit 6 edge.weight).map fun weight =>
      { edge with
        source, target, weight
        candidateIds := mergeRefs [] edge.candidateIds maxEdgeEvidenceRefs
        evidenceRefs := mergeRefs [] edge.evidenceRefs maxEdgeEvidenceRefs
        createdAt := clipSignalText edge.createdAt 80
        updatedAt := clipSignalText edge.updatedAt 80
        lastReinforcedAt := clipSignalText edge.lastReinforcedAt 80
        lastDecayedAt := clipSignalText edge.lastDecayedAt 80 }

def canonicalEdgeKey (source target : String) : String ×ₗ String :=
  toLex (min source target, max source target)

/-- `_edge_key` -/
def GhostEdge.key (edge : GhostEdge) : String ×ₗ String := canonicalEdgeKey edge.source edge.target

abbrev Nodes := Table GhostNode.id

abbrev Edges := Table GhostEdge.key

/-! ### Events -/

inductive Action where
  | reinforced | superseded | compacted
deriving DecidableEq, Repr

/-- The events that tell why the log was written anew. -/
inductive Control where
  | candidateRemoved (candidateId : String) (removedNodes removedEdges : Nat)
  | scopeDeleted (scope : Scope) (scopeRef : String) (removedNodes removedEdges : Nat)
  | stateDecayed (removedNodes removedEdges decayedNodes decayedEdges : Nat)
deriving DecidableEq

/-- An event without its time stamp; the type of the event of a node follows from its status. -/
inductive Body where
  | node (action : Action) (node : GhostNode)
  | edge (action : Action) (edge : GhostEdge)
  | control (control : Control)
deriving DecidableEq

structure Event where
  ts : String
  body : Body
deriving DecidableEq

def stamped (ts : Nat → String) (bodies : List Body) : List Event :=
  bodies.mapIdx fun i body => ⟨ts i, body⟩

/-- `GhostGraph.append`: an event that is there already is skipped. -/
def appendEvents (events added : List Event) : List Event :=
  added.foldl (fun events event => if events.contains event then events else events ++ [event])
    events

/-! ### The store -/

/-- The time of an operation as `now_iso_z` gives it, and the time stamps of its events. -/
structure Clock where
  now : String
  clip_now : clipSignalText now 80 = now
  ts : Nat → String

/-- What the store uses: the decay, the digits of a hash, the bytes of an event. -/
structure Host extends Ghost.Host where
  decay : Decay
  digest : String → String
  clip_digest : ∀ raw, clipSignalText ("ghn_" ++ digest raw) 120 = "ghn_" ++ digest raw
  bytes : Event → Nat

/-- The rows in the order of their keys, and the events. -/
structure Graph where
  nodes : List GhostNode
  edges : List GhostEdge
  events : List Event

def boundedNodes (rows : List GhostNode) : List GhostNode :=
  boundGraphNodes minNodeWeight maxGhostNodes rows

def boundedEdges (nodeIds : List String) (rows : List GhostEdge) : List GhostEdge :=
  boundGraphEdges nodeIds minEdgeWeight maxGhostEdges maxEdgeOutDegree false rows

/-- `_load_state_unlocked` -/
def load (g : Graph) : Option (List GhostNode × List GhostEdge) :=
  (g.nodes.mapM GhostNode.reload).bind fun nodes =>
    (g.edges.mapM GhostEdge.reload).map fun edges => (nodes, edges)

/-- `_write_state`, whose rows have distinct keys. -/
def writeState (events : List Event) (nodes : List GhostNode) (edges : List GhostEdge) : Graph :=
  let nodeRows := boundedNodes nodes
  let edgeRows := boundedEdges (nodeRows.map GhostNode.id) edges
  { nodes := sortByKey GhostNode.id nodeRows
    edges := sortByKey (fun edge => toLex (edge.source, edge.target)) edgeRows, events }

/-- `_rewrite_events_from_state`: the log afterwards. -/
def rewriteEvents (ts : Nat → String) (nodes : List GhostNode) (edges : List GhostEdge)
    (control : Option Control) : List Event :=
  let nodeRows := boundedNodes nodes
  let edgeRows := boundedEdges (nodeRows.map GhostNode.id) edges
  appendEvents [] (stamped ts (nodeRows.map (Body.node .compacted) ++
    edgeRows.map (Body.edge .compacted) ++ (control.map Body.control).toList))

def compactIfNeeded (h : Host) (ts : Nat → String) (g : Graph) : Option Graph :=
  if maxHebbianEvents < g.events.length ∨ maxHebbianEventsBytes < (g.events.map h.bytes).sum then
    (load g).map fun (nodes, edges) => writeState (rewriteEvents ts nodes edges none) nodes edges
  else some g

/-! ### Reinforcement -/

def nodeIdForCandidate (h : Host) (c : Candidate) : String :=
  "ghn_" ++ h.digest (String.intercalate "|"
    [c.scope.name, c.scopeRef, c.signalKind.name, c.conflictKey, c.valueKey])

def GhostNode.decayBasis (node : GhostNode) : String :=
  decayBasisOf node.lastDecayedAt node.lastReinforcedAt node.updatedAt

def GhostEdge.decayBasis (edge : GhostEdge) : String :=
  decayBasisOf edge.lastDecayedAt edge.lastReinforcedAt edge.updatedAt

def Host.decayedWeight (h : Host) (weight : ℚ) (basis now : String) (halfLifeDays : ℚ) : ℚ :=
  clamp01 (h.decay.decayedByHalfLife weight basis now halfLifeDays)

/-- `_coerce_confidence(value) or 0.0` -/
def confidenceOr (value : ℚ) : ℚ := (coerceUnit 4 value).getD 0

def reinforcedNode (h : Host) (current : Option GhostNode) (candidate : Candidate)
    (newEvidenceRefs : List String) (reward : ℚ) (now : String) : GhostNode :=
  let confidence := confidenceOr candidate.confidence
  let oldWeight := match current with
    | some node => h.decayedWeight node.weight node.decayBasis now nodeHalfLifeDays
    | none => 0
  let increment :=
    nodeLearningRate * coerceReward reward * confidence * (max 1 newEvidenceRefs.length : Nat)
  { id := nodeIdForCandidate h candidate
    kind := candidate.signalKind
    label := clipSignalText candidate.summary
    conflictKey := clipSignalText candidate.conflictKey 180
    valueKey := clipSignalText candidate.valueKey 180
    status := .active
    scope := candidate.scope
    scopeRef := candidate.scopeRef
    weight := clamp01 (oldWeight + increment)
    confidence := max confidence ((current.map GhostNode.confidence).getD 0)
    candidateIds := mergeRefs ((current.map GhostNode.candidateIds).getD []) [candidate.id]
      maxNodeEvidenceRefs
    evidenceRefs := mergeRefs ((current.map GhostNode.evidenceRefs).getD []) newEvidenceRefs
      maxNodeEvidenceRefs
    createdAt := (current.map GhostNode.createdAt).getD now
    updatedAt := now
    lastReinforcedAt := now
    lastDecayedAt := now }

/-- `_supersede_conflicting_nodes`: the nodes that it changes. -/
def supersedeConflictingNodes (nodes : Nodes) (accepted : GhostNode) (now : String) :
    List GhostNode :=
  (nodes.rows.filter fun node => node.id ≠ accepted.id && node.status = .active &&
      node.scope = accepted.scope && node.scopeRef = accepted.scopeRef &&
      node.conflictKey = accepted.conflictKey && node.valueKey ≠ accepted.valueKey).map fun node =>
    { node with status := .superseded, updatedAt := now, supersededBy := accepted.id }

def coactivationEvidenceRef (candidate related : Candidate) : String :=
  clipSignalText ("co:" ++ clipSignalText candidate.runId 80 ++ ":" ++
    min candidate.id related.id ++ ":" ++ max candidate.id related.id) 160

def reinforcedEdge (h : Host) (current : Option GhostEdge) (source target : String)
    (candidate related : Candidate) (reward : ℚ) (now : String) : Option GhostEdge :=
  let ref := coactivationEvidenceRef candidate related
  if source = target then none
  else if (current.map GhostEdge.evidenceRefs).any (·.contains ref) then none
  else
    let confidence := min (confidenceOr candidate.confidence) (confidenceOr related.confidence)
    let oldWeight := match current with
      | some edge => h.decayedWeight edge.weight edge.decayBasis now edgeHalfLifeDays
      | none => 0
    let increment := edgeLearningRate * coerceReward reward * confidence
    some
      { source := min source target
        target := max source target
        weight := clamp01 (oldWeight + increment)
        candidateIds := mergeRefs ((current.map GhostEdge.candidateIds).getD [])
          [candidate.id, related.id] maxEdgeEvidenceRefs
        evidenceRefs := mergeRefs ((current.map GhostEdge.evidenceRefs).getD []) [ref]
          maxEdgeEvidenceRefs
        createdAt := (current.map GhostEdge.createdAt).getD now
        updatedAt := now
        lastReinforcedAt := now
        lastDecayedAt := now }

/-- `_reinforce_coactivation_edges` over the candidates that are left. -/
def reinforceCoactivationEdges (h : Host) (nodes : Nodes) (nodeId : String) (candidate : Candidate)
    (reward : ℚ) (now : String) :
    List Candidate → Edges → List GhostEdge → Edges × List GhostEdge
  | [], edges, changed => (edges, changed)
  | related :: rest, edges, changed =>
    let relatedId := nodeIdForCandidate h related
    let edge :=
      if canCoactivate candidate related && (nodes.get? relatedId).isSome then
        reinforcedEdge h (edges.get? (canonicalEdgeKey nodeId relatedId)) nodeId relatedId candidate
          related reward now
      else none
    match edge with
    | some edge =>
      reinforceCoactivationEdges h nodes nodeId candidate reward now rest (edges.put edge)
        (changed ++ [edge])
    | none => reinforceCoactivationEdges h nodes nodeId candidate reward now rest edges changed

/-- What a reinforcement changes: the dictionaries afterwards, and the rows that it wrote. -/
structure Change where
  nodes : Nodes
  edges : Edges
  changedNodes : List GhostNode
  changedEdges : List GhostEdge
  node : GhostNode
  reason : String

def Change.bodies (c : Change) : List Body :=
  (c.changedNodes.map fun node =>
    Body.node (if node.status = .superseded then .superseded else .reinforced) node) ++
    c.changedEdges.map (Body.edge .reinforced)

/-- The change that writes some nodes, supersedes those in conflict with a node and reinforces its
edges. -/
def changeOf (h : Host) (nodes : Nodes) (edges : Edges) (candidate : Candidate) (reward : ℚ)
    (related : List Candidate) (now : String) (node : GhostNode) (written : List GhostNode) :
    Change :=
  let nodes := written.foldl Table.put nodes
  let superseded :=
    if candidate.isManualAccept then supersedeConflictingNodes nodes node now else []
  let nodes := superseded.foldl Table.put nodes
  let edges := reinforceCoactivationEdges h nodes node.id candidate reward now related edges []
  ⟨nodes, edges.1, written ++ superseded, edges.2, node, "reinforced"⟩

/-- The part of `reinforce_candidate` between loading and writing: nothing for known evidence. -/
def reinforcement (h : Host) (nodes : Nodes) (edges : Edges) (candidate : Candidate) (reward : ℚ)
    (related : List Candidate) (now : String) : Option Change :=
  let current := nodes.get? (nodeIdForCandidate h candidate)
  let knownEvidence := (current.map GhostNode.evidenceRefs).getD []
  let newEvidenceRefs := candidate.evidenceRefs.filter fun ref => !knownEvidence.contains ref
  if newEvidenceRefs = [] then
    -- no new evidence: conflicts and edges of the node may still be written
    current.bind fun node =>
      let c := changeOf h nodes edges candidate reward related now node []
      if c.changedNodes = [] ∧ c.changedEdges = [] then none
      else
        some { c with
          reason := if c.changedEdges = [] then "superseded_conflicts" else "backfilled_edges" }
  else
    let node := reinforcedNode h current candidate newEvidenceRefs reward now
    some (changeOf h nodes edges candidate reward related now node [node])

structure Result where
  applied : Bool
  reason : String
  node : Option GhostNode := none
  edges : List GhostEdge := []

/-- The end of `reinforce_candidate`: the graph with the change, bounded and logged. -/
def commit (h : Host) (clock : Clock) (g : Graph) (c : Change) : Option Graph :=
  let nodes := boundedNodes c.nodes.rows
  let edges := boundedEdges (nodes.map GhostNode.id) c.edges.rows
  let events := appendEvents g.events (stamped clock.ts c.bodies)
  compactIfNeeded h (fun i => clock.ts (c.bodies.length + i)) (writeState events nodes edges)

/-- `reinforce_candidate`; what raises is rolled back. -/
def reinforceCandidate (h : Host) (clock : Clock) (g : Graph) (candidate : Candidate) (reward : ℚ)
    (related : List Candidate) : Graph × Result :=
  if candidate.status ≠ .accepted then (g, ⟨false, "candidate_not_accepted", none, []⟩)
  else if candidate.hasProvenance = false then (g, ⟨false, "missing_provenance", none, []⟩)
  else if candidate.evidenceRefs = [] then (g, ⟨false, "missing_evidence_ref", none, []⟩)
  else
    match load g with
    | none => (g, ⟨false, "store_error", none, []⟩)
    | some (nodes, edges) =>
      match reinforcement h (.ofRows nodes) (.ofRows edges) candidate reward related clock.now with
      | none => (g, ⟨false, "duplicate_evidence", none, []⟩)
      | some c =>
        match commit h clock g c with
        | none => (g, ⟨false, "store_error", none, []⟩)
        | some g' => (g', ⟨true, c.reason, some c.node, c.changedEdges⟩)

/-! ### Removal and decay -/

/-- The part that `remove_candidate` and `delete_scope` share: some nodes go, with their edges. -/
def dropNodes (ts : Nat → String) (g : Graph) (gone : GhostNode → Bool)
    (control : Nat → Nat → Control) : Option Graph :=
  (load g).map fun (nodes, edges) =>
    let removedIds := (nodes.filter gone).map GhostNode.id
    if removedIds = [] then g
    else
      let touches (edge : GhostEdge) :=
        removedIds.contains edge.source || removedIds.contains edge.target
      let remainingNodes := nodes.filter fun node => !removedIds.contains node.id
      let remainingEdges := edges.filter fun edge => !touches edge
      let event := control removedIds.length (edges.filter touches).length
      writeState (rewriteEvents ts remainingNodes remainingEdges (some event)) remainingNodes
        remainingEdges

def removeCandidate (h : Host) (clock : Clock) (g : Graph) (candidate : Candidate) :
    Option Graph :=
  dropNodes clock.ts g
    (fun node => node.id = nodeIdForCandidate h candidate ||
      node.candidateIds.contains candidate.id)
    (.candidateRemoved candidate.id)

def scopeRefForFilter (h : Host) (scope : Scope) (project sessionId : String) : String :=
  match scope with
  | .project => normalizeProject h.toHost project
  | .session => clipSignalText sessionId 120
  | .user => ""

/-- `delete_scope`, which raises when a reference is missing. -/
def deleteScope (h : Host) (clock : Clock) (g : Graph) (scope : Scope)
    (project sessionId : String) : Option Graph :=
  let scopeRef := scopeRefForFilter h scope project sessionId
  if scope ≠ .user ∧ scopeRef = "" then none
  else
    dropNodes clock.ts g
      (fun node => node.scope = scope && (scope = .user || node.scopeRef = scopeRef))
      (.scopeDeleted scope scopeRef)

def decayNode (h : Host) (now : String) (node : GhostNode) : GhostNode :=
  let decayed := h.decayedWeight node.weight node.decayBasis now nodeHalfLifeDays
  let expires := decayed < minNodeWeight ∧ node.status = .active
  { node with
    weight := decayed, status := if expires then .expired else node.status, updatedAt := now
    lastDecayedAt := now }

def decayEdge (h : Host) (now : String) (edge : GhostEdge) : GhostEdge :=
  { edge with
    weight := h.decayedWeight edge.weight edge.decayBasis now edgeHalfLifeDays, updatedAt := now
    lastDecayedAt := now }

def decay (h : Host) (clock : Clock) (g : Graph) (minIntervalSeconds : ℤ) : Option Graph :=
  (load g).map fun (nodes, edges) =>
    let interval := max 0 minIntervalSeconds
    let bases := nodes.map GhostNode.decayBasis ++ edges.map GhostEdge.decayBasis
    if interval ≠ 0 ∧ h.decay.anyDecayDue bases clock.now interval = false then g
    else
      let decayedNodes := nodes.map (decayNode h clock.now)
      let decayedEdges := edges.map (decayEdge h clock.now)
      let nodeRows := boundedNodes decayedNodes
      let edgeRows := boundedEdges (nodeRows.map GhostNode.id) decayedEdges
      let removedNodes := nodes.length - nodeRows.length
      let removedEdges := edges.length - edgeRows.length
      let nodeCount := (nodes.zip decayedNodes).countP fun (before, after) =>
        before.weight ≠ after.weight || before.status ≠ after.status
      let edgeCount := (edges.zip decayedEdges).countP fun (before, after) =>
        before.weight ≠ after.weight
      if removedNodes = 0 ∧ removedEdges = 0 ∧ nodeCount = 0 ∧ edgeCount = 0 then g
      else
        let event := Control.stateDecayed removedNodes removedEdges nodeCount edgeCount
        writeState (rewriteEvents clock.ts nodeRows edgeRows (some event)) nodeRows edgeRows

/-! ### Replay -/

/-- What an event writes. -/
def replayBody (rows : Nodes × Edges) : Body → Nodes × Edges
  | .node _ node => ((node.reload.map rows.1.put).getD rows.1, rows.2)
  | .edge _ edge => (rows.1, (edge.reload.map rows.2.put).getD rows.2)
  | .control _ => rows

def replay (events : List Event) : Nodes × Edges :=
  (events.map Event.body).foldl replayBody (Table.empty, Table.empty)

def rebuildFromEvents (g : Graph) : Graph :=
  let rows := replay g.events
  let nodes := boundedNodes rows.1.rows
  let edges := boundedEdges (nodes.map GhostNode.id) rows.2.rows
  writeState g.events nodes edges

end Hebbian

end Ghost

end Codey
