import Codey.Ghost.Hebbian
import Codey.Lib.Since

/-!
# Replay of the Hebbian graph

As long as every reinforcement stays within the bounds, logs what it writes and writes rows that
can be read back, the rows that are rebuilt from the log are the stored ones.
-/

namespace Codey

namespace Ghost

namespace Hebbian

variable {h : Host} {clock : Clock} {g g' : Graph} {node : GhostNode} {edge : GhostEdge}
  {candidate related : Candidate} {reward : ℚ} {now : String} {ts : Nat → String}

/-! ### Numbers and references -/

/-- A number of the unit interval that has been rounded. -/
structure Rounded (digits : Nat) (value : ℚ) : Prop where
  nonneg : 0 ≤ value
  le_one : value ≤ 1
  rounded : roundTo digits value = value

lemma Rounded.coerceUnit {digits : Nat} {value : ℚ} (hr : Rounded digits value) :
    coerceUnit digits value = some value := by
  rw [Hebbian.coerceUnit, if_neg, hr.rounded]
  rintro (hneg | hbig)
  · exact absurd hr.nonneg (not_le.mpr hneg)
  · exact absurd hr.le_one (not_le.mpr hbig)

lemma rounded_roundTo {digits : Nat} {value : ℚ} (hnonneg : 0 ≤ value) (hle : value ≤ 1) :
    Rounded digits (roundTo digits value) :=
  ⟨roundTo_nonneg hnonneg, roundTo_le_one hle, roundTo_roundTo digits value⟩

lemma rounded_clamp01 (value : ℚ) : Rounded 6 (clamp01 value) :=
  rounded_roundTo (le_max_left _ _) (max_le zero_le_one (min_le_left _ _))

lemma rounded_confidenceOr (value : ℚ) : Rounded 4 (confidenceOr value) := by
  unfold confidenceOr coerceUnit
  split_ifs with hout
  · have hzero : roundTo 4 (0 : ℚ) = 0 := by decide +kernel
    exact ⟨le_rfl, zero_le_one, hzero⟩
  · rw [not_or, not_lt, not_lt] at hout
    exact rounded_roundTo hout.1 hout.2

lemma Rounded.max {digits : Nat} {a b : ℚ} (ha : Rounded digits a) (hb : Rounded digits b) :
    Rounded digits (max a b) := by
  obtain hle | hle := le_total a b
  · rwa [max_eq_right hle]
  · rwa [max_eq_left hle]

/-- References as they are kept: clipped, and each once. -/
structure CleanRefs (limit : Nat) (refs : List String) : Prop where
  clip : ∀ ref ∈ refs, ref ≠ "" ∧ clipSignalText ref 160 = ref
  nodup : refs.Nodup
  length : refs.length ≤ limit

/-- One round of the loop of `_merge_refs`. -/
def mergeRef (out : List String) (value : String) : List String :=
  let ref := clipSignalText value 160
  if ref ≠ "" && !out.contains ref then out ++ [ref] else out

lemma mergeRefs_eq (current incoming : List String) (limit : Nat) :
    mergeRefs current incoming limit =
      keepLast (max 1 limit) ((current ++ incoming).foldl mergeRef []) := rfl

lemma foldl_mergeRef (values : List String) {out : List String}
    (hclip : ∀ ref ∈ out, ref ≠ "" ∧ clipSignalText ref 160 = ref) (hnodup : out.Nodup) :
    (∀ ref ∈ values.foldl mergeRef out, ref ≠ "" ∧ clipSignalText ref 160 = ref) ∧
      (values.foldl mergeRef out).Nodup := by
  induction values generalizing out with
  | nil => exact ⟨hclip, hnodup⟩
  | cons value values ih =>
    rw [List.foldl_cons, mergeRef]
    split_ifs with hnew
    · obtain ⟨hne, hfresh⟩ : clipSignalText value 160 ≠ "" ∧ clipSignalText value 160 ∉ out := by
        simpa using hnew
      apply ih
      · intro ref href
        obtain hold | hlast := List.mem_append.mp href
        · exact hclip ref hold
        · rw [List.mem_singleton.mp hlast]
          exact ⟨hne, clipSignalText_idem value (by omega)⟩
      · exact List.nodup_append.mpr ⟨hnodup, List.nodup_singleton _, fun a ha b hb hab =>
          hfresh (List.mem_singleton.mp hb ▸ hab ▸ ha)⟩
    · exact ih hclip hnodup

lemma cleanRefs_mergeRefs {limit : Nat} (hlimit : 1 ≤ limit) (current incoming : List String) :
    CleanRefs limit (mergeRefs current incoming limit) := by
  have hnone : ∀ ref ∈ ([] : List String), ref ≠ "" ∧ clipSignalText ref 160 = ref := by simp
  obtain ⟨hclip, hnodup⟩ := foldl_mergeRef (current ++ incoming) hnone List.nodup_nil
  rw [mergeRefs_eq, max_eq_right hlimit]
  exact ⟨fun ref href => hclip ref ((keepLast_sublist _ _).subset href),
    (keepLast_sublist _ _).nodup hnodup, length_keepLast_le _ _⟩

/-- Clean references are merged as they are. -/
lemma foldl_mergeRef_eq {refs out : List String} (hclip : ∀ ref ∈ refs, ref ≠ "" ∧
    clipSignalText ref 160 = ref) (hnodup : (out ++ refs).Nodup) :
    refs.foldl mergeRef out = out ++ refs := by
  induction refs generalizing out with
  | nil => simp
  | cons ref refs ih =>
    obtain ⟨hne, href⟩ := hclip ref List.mem_cons_self
    have hfresh : ref ∉ out := fun hmem =>
      (List.nodup_append.mp hnodup).2.2 ref hmem ref List.mem_cons_self rfl
    have hstep : mergeRef out ref = out ++ [ref] := by
      rw [mergeRef, href, if_pos (by simp [hne, hfresh])]
    have hsplit : out ++ ref :: refs = out ++ [ref] ++ refs := by simp
    rw [List.foldl_cons, hstep, hsplit]
    apply ih
    · exact fun later hlater => hclip later (List.mem_cons_of_mem _ hlater)
    · rwa [← hsplit]

lemma CleanRefs.merge {limit : Nat} {refs : List String} (hc : CleanRefs limit refs) :
    mergeRefs [] refs limit = refs := by
  have hfold : refs.foldl mergeRef [] = [] ++ refs := foldl_mergeRef_eq hc.clip hc.nodup
  rw [mergeRefs_eq, List.nil_append, hfold, List.nil_append]
  exact keepLast_of_length_le (hc.length.trans (le_max_right _ _))

/-! ### Rows that are read back as they are -/

structure GhostNode.Clean (node : GhostNode) : Prop where
  id : clipSignalText node.id 120 = node.id
  label : clipSignalText node.label = node.label
  conflictKey : clipSignalText node.conflictKey 180 = node.conflictKey
  valueKey : clipSignalText node.valueKey 180 = node.valueKey
  named : node.id ≠ "" ∧ node.label ≠ "" ∧ node.conflictKey ≠ "" ∧ node.valueKey ≠ ""
  weight : Rounded 6 node.weight
  confidence : Rounded 4 node.confidence
  scopeRef : clipSignalText node.scopeRef 240 = node.scopeRef
  candidateIds : CleanRefs maxNodeEvidenceRefs node.candidateIds
  evidenceRefs : CleanRefs maxNodeEvidenceRefs node.evidenceRefs
  createdAt : clipSignalText node.createdAt 80 = node.createdAt
  updatedAt : clipSignalText node.updatedAt 80 = node.updatedAt
  lastReinforcedAt : clipSignalText node.lastReinforcedAt 80 = node.lastReinforcedAt
  lastDecayedAt : clipSignalText node.lastDecayedAt 80 = node.lastDecayedAt
  supersededBy : clipSignalText node.supersededBy 120 = node.supersededBy

structure GhostEdge.Clean (edge : GhostEdge) : Prop where
  source : clipSignalText edge.source 120 = edge.source
  target : clipSignalText edge.target 120 = edge.target
  named : edge.source ≠ "" ∧ edge.target ≠ ""
  lt : edge.source < edge.target
  weight : Rounded 6 edge.weight
  candidateIds : CleanRefs maxEdgeEvidenceRefs edge.candidateIds
  evidenceRefs : CleanRefs maxEdgeEvidenceRefs edge.evidenceRefs
  createdAt : clipSignalText edge.createdAt 80 = edge.createdAt
  updatedAt : clipSignalText edge.updatedAt 80 = edge.updatedAt
  lastReinforcedAt : clipSignalText edge.lastReinforcedAt 80 = edge.lastReinforcedAt
  lastDecayedAt : clipSignalText edge.lastDecayedAt 80 = edge.lastDecayedAt

lemma GhostNode.Clean.reload (hc : node.Clean) : node.reload = some node := by
  obtain ⟨hid, hlabel, hconflict, hvalue⟩ := hc.named
  simp [GhostNode.reload, hc.id, hc.label, hc.conflictKey, hc.valueKey, hid, hlabel, hconflict,
    hvalue, hc.weight.coerceUnit, hc.confidence.coerceUnit, hc.scopeRef, hc.candidateIds.merge,
    hc.evidenceRefs.merge, hc.createdAt, hc.updatedAt, hc.lastReinforcedAt, hc.lastDecayedAt,
    hc.supersededBy]

lemma GhostEdge.Clean.reload (hc : edge.Clean) : edge.reload = some edge := by
  obtain ⟨hsource, htarget⟩ := hc.named
  simp [GhostEdge.reload, hc.source, hc.target, hsource, htarget, hc.lt.ne, hc.weight.coerceUnit,
    hc.candidateIds.merge, hc.evidenceRefs.merge, hc.createdAt, hc.updatedAt, hc.lastReinforcedAt,
    hc.lastDecayedAt]

lemma GhostEdge.Clean.key (hc : edge.Clean) : edge.key = toLex (edge.source, edge.target) := by
  rw [GhostEdge.key, canonicalEdgeKey, min_eq_left hc.lt.le, max_eq_right hc.lt.le]

/-- A candidate whose node can be read back. -/
structure Candidate.Clean (c : Candidate) : Prop where
  summary : clipSignalText c.summary ≠ ""
  conflictKey : clipSignalText c.conflictKey 180 ≠ ""
  valueKey : clipSignalText c.valueKey 180 ≠ ""
  scopeRef : clipSignalText c.scopeRef 240 = c.scopeRef

lemma nodeIdForCandidate_ne (h : Host) (c : Candidate) : nodeIdForCandidate h c ≠ "" := by
  intro hempty
  have hlist := congrArg String.toList hempty
  rw [nodeIdForCandidate, String.toList_append] at hlist
  cases hlist

lemma reinforcedNode_clean (h : Host) (clock : Clock) (reward : ℚ) (newEvidenceRefs : List String)
    {current : Option GhostNode} (hcandidate : candidate.Clean)
    (hcurrent : ∀ node ∈ current, node.Clean) :
    (reinforcedNode h current candidate newEvidenceRefs reward clock.now).Clean := by
  refine
    { id := h.clip_digest _, label := clipSignalText_idem _ (by omega)
      conflictKey := clipSignalText_idem _ (by omega), valueKey := clipSignalText_idem _ (by omega)
      named := ⟨nodeIdForCandidate_ne h candidate, hcandidate.summary, hcandidate.conflictKey,
        hcandidate.valueKey⟩
      weight := rounded_clamp01 _, confidence := (rounded_confidenceOr _).max ?_
      scopeRef := hcandidate.scopeRef, candidateIds := cleanRefs_mergeRefs (by decide) _ _
      evidenceRefs := cleanRefs_mergeRefs (by decide) _ _, createdAt := ?_
      updatedAt := clock.clip_now, lastReinforcedAt := clock.clip_now
      lastDecayedAt := clock.clip_now, supersededBy := rfl }
  · cases hcurrent' : current with
    | none => exact ⟨le_rfl, zero_le_one, by decide +kernel⟩
    | some node => exact (hcurrent node hcurrent').confidence
  · cases hcurrent' : current with
    | none => exact clock.clip_now
    | some node => exact (hcurrent node hcurrent').createdAt

lemma superseded_clean {accepted : GhostNode} {nodes : Nodes}
    (hnodes : ∀ node ∈ nodes.rows, node.Clean) (haccepted : accepted.Clean) :
    ∀ node ∈ supersedeConflictingNodes nodes accepted clock.now, node.Clean := by
  intro node hnode
  obtain ⟨old, hold, rfl⟩ := List.mem_map.mp hnode
  have hc := hnodes old (List.mem_of_mem_filter hold)
  exact { hc with updatedAt := clock.clip_now, supersededBy := haccepted.id }

lemma reinforcedEdge_clean {current : Option GhostEdge} {source target : String}
    (hsource : clipSignalText source 120 = source ∧ source ≠ "")
    (htarget : clipSignalText target 120 = target ∧ target ≠ "")
    (hcurrent : ∀ edge ∈ current, edge.Clean)
    (hedge : reinforcedEdge h current source target candidate related reward clock.now =
      some edge) : edge.Clean := by
  have hends : ∀ id, id = source ∨ id = target → clipSignalText id 120 = id ∧ id ≠ "" := by
    rintro id (rfl | rfl)
    · exact hsource
    · exact htarget
  have hmin := hends _ (min_choice source target)
  have hmax := hends _ (max_choice source target)
  simp only [reinforcedEdge] at hedge
  split_ifs at hedge with hsame
  obtain rfl := Option.some.inj hedge
  refine
    { source := hmin.1, target := hmax.1, named := ⟨hmin.2, hmax.2⟩
      lt := min_lt_max.mpr hsame, weight := rounded_clamp01 _
      candidateIds := cleanRefs_mergeRefs (by decide) _ _
      evidenceRefs := cleanRefs_mergeRefs (by decide) _ _, createdAt := ?_
      updatedAt := clock.clip_now, lastReinforcedAt := clock.clip_now
      lastDecayedAt := clock.clip_now }
  cases hcurrent' : current with
  | none => exact clock.clip_now
  | some edge => exact (hcurrent edge hcurrent').createdAt

lemma decayNode_clean (hc : node.Clean) : (decayNode h clock.now node).Clean :=
  { hc with weight := rounded_clamp01 _, updatedAt := clock.clip_now
            lastDecayedAt := clock.clip_now }

lemma decayEdge_clean (hc : edge.Clean) : (decayEdge h clock.now edge).Clean :=
  { hc with weight := rounded_clamp01 _, updatedAt := clock.clip_now
            lastDecayedAt := clock.clip_now }

/-! ### The log -/

lemma map_body_stamped (ts : Nat → String) (bodies : List Body) :
    (stamped ts bodies).map Event.body = bodies := by
  apply List.ext_getElem
  · simp [stamped]
  · intro i hi hi'
    simp [stamped]

lemma nodup_stamped {bodies : List Body} (hnodup : bodies.Nodup) : (stamped ts bodies).Nodup := by
  apply List.Nodup.of_map Event.body
  rwa [map_body_stamped]

lemma appendEvents_of_nodup {events added : List Event} (hnodup : (events ++ added).Nodup) :
    appendEvents events added = events ++ added := by
  induction added generalizing events with
  | nil => simp [appendEvents]
  | cons event added ih =>
    have hfresh : event ∉ events := fun hmem =>
      (List.nodup_append.mp hnodup).2.2 event hmem event List.mem_cons_self rfl
    have hsplit : events ++ event :: added = events ++ [event] ++ added := by simp
    rw [appendEvents, List.foldl_cons, if_neg (by simpa using hfresh), hsplit]
    exact ih (hsplit ▸ hnodup)

lemma replay_append (events : List Event) (bodies : List Body) :
    replay (events ++ stamped ts bodies) = bodies.foldl replayBody (replay events) := by
  rw [replay, List.map_append, List.foldl_append, map_body_stamped, replay]

lemma replay_anew {bodies : List Body} (hnodup : bodies.Nodup) :
    replay (appendEvents [] (stamped ts bodies)) =
      bodies.foldl replayBody (Table.empty, Table.empty) := by
  have hlog : appendEvents [] (stamped ts bodies) = [] ++ stamped ts bodies :=
    appendEvents_of_nodup (nodup_stamped hnodup)
  rw [hlog, replay_append]
  rfl

lemma foldl_replayBody_nodes {f : GhostNode → Action} {nodes : List GhostNode}
    (hclean : ∀ node ∈ nodes, node.Clean) (rows : Nodes × Edges) :
    (nodes.map fun node => Body.node (f node) node).foldl replayBody rows =
      (nodes.foldl Table.put rows.1, rows.2) := by
  induction nodes generalizing rows with
  | nil => rfl
  | cons node nodes ih =>
    have hnode := (hclean node List.mem_cons_self).reload
    rw [List.map_cons, List.foldl_cons, replayBody, hnode, List.foldl_cons]
    exact ih (fun later hlater => hclean later (List.mem_cons_of_mem _ hlater)) _

lemma foldl_replayBody_edges {action : Action} {edges : List GhostEdge}
    (hclean : ∀ edge ∈ edges, edge.Clean) (rows : Nodes × Edges) :
    (edges.map (Body.edge action)).foldl replayBody rows =
      (rows.1, edges.foldl Table.put rows.2) := by
  induction edges generalizing rows with
  | nil => rfl
  | cons edge edges ih =>
    have hedge := (hclean edge List.mem_cons_self).reload
    rw [List.map_cons, List.foldl_cons, replayBody, hedge, List.foldl_cons]
    exact ih (fun later hlater => hclean later (List.mem_cons_of_mem _ hlater)) _

/-! ### Rows within the bounds -/

/-- Rows that can be read back, have distinct keys and are within the bounds. -/
structure Sound (nodes : List GhostNode) (edges : List GhostEdge) : Prop where
  cleanNodes : ∀ node ∈ nodes, node.Clean
  cleanEdges : ∀ edge ∈ edges, edge.Clean
  nodupNodes : (nodes.map GhostNode.id).Nodup
  nodupEdges : (edges.map GhostEdge.key).Nodup
  nodesFit : NodesFit minNodeWeight maxGhostNodes nodes
  edgesFit : EdgesFit (nodes.map GhostNode.id) minEdgeWeight maxGhostEdges maxEdgeOutDegree false
    edges

variable {nodes nodes' : List GhostNode} {edges edges' : List GhostEdge} {events : List Event}

lemma Sound.perm (hs : Sound nodes edges) (hnodes : nodes'.Perm nodes)
    (hedges : edges'.Perm edges) : Sound nodes' edges' where
  cleanNodes node hnode := hs.cleanNodes node (hnodes.subset hnode)
  cleanEdges edge hedge := hs.cleanEdges edge (hedges.subset hedge)
  nodupNodes := (hnodes.map _).nodup_iff.mpr hs.nodupNodes
  nodupEdges := (hedges.map _).nodup_iff.mpr hs.nodupEdges
  nodesFit := hs.nodesFit.of_subperm hnodes.subperm
  edgesFit := hs.edgesFit.of_subperm hedges.subperm fun _ hedge =>
    (hs.edgesFit.mem_ends (hedges.subset hedge)).imp ((hnodes.map _).symm.subset ·)
      ((hnodes.map _).symm.subset ·)

lemma Sound.sublist (hs : Sound nodes edges) (hnodes : nodes'.Sublist nodes)
    (hedges : edges'.Sublist edges) (hends : ∀ edge ∈ edges',
      edge.source ∈ nodes'.map GhostNode.id ∧ edge.target ∈ nodes'.map GhostNode.id) :
    Sound nodes' edges' where
  cleanNodes node hnode := hs.cleanNodes node (hnodes.subset hnode)
  cleanEdges edge hedge := hs.cleanEdges edge (hedges.subset hedge)
  nodupNodes := (hnodes.map _).nodup hs.nodupNodes
  nodupEdges := (hedges.map _).nodup hs.nodupEdges
  nodesFit := hs.nodesFit.of_subperm hnodes.subperm
  edgesFit := hs.edgesFit.of_subperm hedges.subperm hends

lemma sound_bounded (hcleanNodes : ∀ node ∈ nodes, node.Clean)
    (hcleanEdges : ∀ edge ∈ edges, edge.Clean) (hnodes : (nodes.map GhostNode.id).Nodup)
    (hedges : (edges.map GhostEdge.key).Nodup) :
    Sound (boundedNodes nodes) (boundedEdges ((boundedNodes nodes).map GhostNode.id) edges) where
  cleanNodes node hnode := hcleanNodes node ((boundGraphNodes_subperm nodes).subset hnode)
  cleanEdges edge hedge := hcleanEdges edge ((boundGraphEdges_subperm edges).subset hedge)
  nodupNodes := nodup_map_of_subperm (boundGraphNodes_subperm nodes) hnodes
  nodupEdges := nodup_map_of_subperm (boundGraphEdges_subperm edges) hedges
  nodesFit := nodesFit_boundGraphNodes nodes
  edgesFit := edgesFit_boundGraphEdges fun edge hedge => (hcleanEdges edge hedge).lt.ne

lemma Sound.bounded (hs : Sound nodes edges) : (boundedNodes nodes).Perm nodes ∧
    (boundedEdges ((boundedNodes nodes).map GhostNode.id) edges).Perm edges := by
  have hnodes : (boundedNodes nodes).Perm nodes := hs.nodesFit.perm
  exact ⟨hnodes, (hs.perm hnodes (List.Perm.refl edges)).edgesFit.perm⟩

lemma Sound.load (hs : Sound g.nodes g.edges) : load g = some (g.nodes, g.edges) := by
  have hnodes : g.nodes.mapM GhostNode.reload = some g.nodes :=
    mapM_eq_some_self fun node hnode => (hs.cleanNodes node hnode).reload
  have hedges : g.edges.mapM GhostEdge.reload = some g.edges :=
    mapM_eq_some_self fun edge hedge => (hs.cleanEdges edge hedge).reload
  rw [Hebbian.load, hnodes, Option.bind_some, hedges]
  rfl

/-! ### Graphs that can be rebuilt -/

/-- The stored rows are sound and sorted, and the log leads to them. -/
structure Faithful (g : Graph) : Prop where
  sound : Sound g.nodes g.edges
  sortedNodes : sortByKey GhostNode.id g.nodes = g.nodes
  sortedEdges : sortByKey (fun edge => toLex (edge.source, edge.target)) g.edges = g.edges
  replayedNodes : ∀ node, node ∈ (replay g.events).1.rows ↔ node ∈ g.nodes
  replayedEdges : ∀ edge, edge ∈ (replay g.events).2.rows ↔ edge ∈ g.edges

lemma Sound.nodup_ends (hs : Sound nodes edges) :
    (edges.map fun edge => toLex (edge.source, edge.target)).Nodup := by
  have hkeys : edges.map (fun edge => toLex (edge.source, edge.target)) =
      edges.map GhostEdge.key :=
    List.map_congr_left fun edge hedge => ((hs.cleanEdges edge hedge).key).symm
  rw [hkeys]
  exact hs.nodupEdges

/-- What `writeState` stores of rows within the bounds. -/
lemma Sound.writeState (hs : Sound nodes edges) (events : List Event) :
    (writeState events nodes edges).nodes = sortByKey GhostNode.id nodes ∧
      (writeState events nodes edges).edges =
        sortByKey (fun edge => toLex (edge.source, edge.target)) edges := by
  obtain ⟨hnodes, hedges⟩ := hs.bounded
  have hbounded := hs.perm hnodes hedges
  exact ⟨sortByKey_congr hbounded.nodupNodes hnodes, sortByKey_congr hbounded.nodup_ends hedges⟩

/-- Rows that a log leads to are stored faithfully. -/
theorem Sound.faithful (hs : Sound nodes edges)
    (hnodes : ∀ node, node ∈ (replay events).1.rows ↔ node ∈ nodes)
    (hedges : ∀ edge, edge ∈ (replay events).2.rows ↔ edge ∈ edges) :
    Faithful (Hebbian.writeState events nodes edges) := by
  obtain ⟨hstoredNodes, hstoredEdges⟩ := hs.writeState events
  have hpermNodes := sortByKey_perm GhostNode.id nodes
  have hpermEdges := sortByKey_perm (fun edge : GhostEdge => toLex (edge.source, edge.target)) edges
  have hsorted := hs.perm hpermNodes hpermEdges
  refine ⟨?_, ?_, ?_, ?_, ?_⟩
  · rwa [hstoredNodes, hstoredEdges]
  · rw [hstoredNodes]
    exact sortByKey_congr hsorted.nodupNodes hpermNodes
  · rw [hstoredEdges]
    exact sortByKey_congr hsorted.nodup_ends hpermEdges
  · intro node
    rw [hstoredNodes]
    exact (hnodes node).trans hpermNodes.mem_iff.symm
  · intro edge
    rw [hstoredEdges]
    exact (hedges edge).trans hpermEdges.mem_iff.symm

/-- The rows that are rebuilt from the log are the stored ones. -/
def Rebuilds (g : Graph) : Prop :=
  (rebuildFromEvents g).nodes = g.nodes ∧ (rebuildFromEvents g).edges = g.edges

theorem Faithful.rebuilds (hf : Faithful g) : Rebuilds g := by
  have hnodes : (replay g.events).1.rows.Perm g.nodes :=
    (List.perm_ext_iff_of_nodup (List.Nodup.of_map _ (replay g.events).1.nodup)
      (List.Nodup.of_map _ hf.sound.nodupNodes)).mpr hf.replayedNodes
  have hedges : (replay g.events).2.rows.Perm g.edges :=
    (List.perm_ext_iff_of_nodup (List.Nodup.of_map _ (replay g.events).2.nodup)
      (List.Nodup.of_map _ hf.sound.nodupEdges)).mpr hf.replayedEdges
  have hreplayed := hf.sound.perm hnodes hedges
  have hbounded := hreplayed.perm hreplayed.bounded.1 hreplayed.bounded.2
  obtain ⟨hstoredNodes, hstoredEdges⟩ := hbounded.writeState g.events
  constructor
  · rw [rebuildFromEvents, hstoredNodes]
    exact (sortByKey_congr hbounded.nodupNodes (hreplayed.bounded.1.trans hnodes)).trans
      hf.sortedNodes
  · rw [rebuildFromEvents, hstoredEdges]
    exact (sortByKey_congr hbounded.nodup_ends (hreplayed.bounded.2.trans hedges)).trans
      hf.sortedEdges

/-! ### The log that is written anew -/

lemma nodup_rewritten (hnodes : nodes.Nodup) (hedges : edges.Nodup) (control : Option Control) :
    (nodes.map (Body.node .compacted) ++ edges.map (Body.edge .compacted) ++
      (control.map Body.control).toList).Nodup := by
  have hnodes' : (nodes.map (Body.node .compacted)).Nodup :=
    hnodes.map fun a b hab => (Body.node.inj hab).2
  have hedges' : (edges.map (Body.edge .compacted)).Nodup :=
    hedges.map fun a b hab => (Body.edge.inj hab).2
  have hcontrol : (control.map Body.control).toList.Nodup := by cases control <;> simp
  refine List.nodup_append.mpr ⟨List.nodup_append.mpr ⟨hnodes', hedges', ?_⟩, hcontrol, ?_⟩
  · intro a ha b hb
    obtain ⟨node, -, rfl⟩ := List.mem_map.mp ha
    obtain ⟨edge, -, rfl⟩ := List.mem_map.mp hb
    exact Body.noConfusion
  · intro a ha b hb
    obtain ⟨event, -, rfl⟩ := Option.map_eq_some_iff.mp (Option.mem_toList.mp hb)
    obtain ha | ha := List.mem_append.mp ha
    · obtain ⟨node, -, rfl⟩ := List.mem_map.mp ha
      exact Body.noConfusion
    · obtain ⟨edge, -, rfl⟩ := List.mem_map.mp ha
      exact Body.noConfusion

/-- The log that is written anew leads to the rows that it was written from. -/
lemma Sound.replay_rewriteEvents (hs : Sound nodes edges) (ts : Nat → String)
    (control : Option Control) :
    (∀ node, node ∈ (replay (rewriteEvents ts nodes edges control)).1.rows ↔ node ∈ nodes) ∧
      ∀ edge, edge ∈ (replay (rewriteEvents ts nodes edges control)).2.rows ↔ edge ∈ edges := by
  obtain ⟨hnodes, hedges⟩ := hs.bounded
  have hb := hs.perm hnodes hedges
  have hnodup := nodup_rewritten (List.Nodup.of_map _ hb.nodupNodes)
    (List.Nodup.of_map _ hb.nodupEdges) control
  have hcontrol (rows : Nodes × Edges) :
      (control.map Body.control).toList.foldl replayBody rows = rows := by cases control <;> rfl
  have hreplay : replay (rewriteEvents ts nodes edges control) =
      (.ofRows (boundedNodes nodes),
        .ofRows (boundedEdges ((boundedNodes nodes).map GhostNode.id) edges)) := by
    rw [rewriteEvents, replay_anew hnodup, List.foldl_append, List.foldl_append,
      foldl_replayBody_nodes hb.cleanNodes, foldl_replayBody_edges hb.cleanEdges, hcontrol]
    rfl
  rw [hreplay]
  exact ⟨fun node => (Table.mem_ofRows hb.nodupNodes node).trans hnodes.mem_iff,
    fun edge => (Table.mem_ofRows hb.nodupEdges edge).trans hedges.mem_iff⟩

/-- Rows within the bounds are stored faithfully with a log that is written from them. -/
theorem Sound.rewritten (hs : Sound nodes edges) (ts : Nat → String) (control : Option Control) :
    Faithful (Hebbian.writeState (rewriteEvents ts nodes edges control) nodes edges) :=
  hs.faithful (hs.replay_rewriteEvents ts control).1 (hs.replay_rewriteEvents ts control).2

lemma Faithful.compactIfNeeded (hf : Faithful g) (hg : compactIfNeeded h ts g = some g') :
    Faithful g' := by
  rw [Hebbian.compactIfNeeded, hf.sound.load] at hg
  split_ifs at hg
  · obtain rfl := Option.some.inj hg
    exact hf.sound.rewritten ts none
  · obtain rfl := Option.some.inj hg
    exact hf

/-! ### What a reinforcement writes -/

/-- The dictionaries after a change are those before it with the rows that it wrote, all of which
can be read back. -/
structure Change.Writes (nodes : Nodes) (edges : Edges) (c : Change) : Prop where
  nodes : c.nodes = c.changedNodes.foldl Table.put nodes
  edges : c.edges = c.changedEdges.foldl Table.put edges
  cleanNodes : ∀ node ∈ c.changedNodes, node.Clean
  cleanEdges : ∀ edge ∈ c.changedEdges, edge.Clean

lemma reinforceCoactivationEdges_writes (h : Host) (candidate : Candidate) (reward : ℚ)
    (clock : Clock) {nodeRows : Nodes} {nodeId : String} {start edgeRows : Edges}
    {changed : List GhostEdge} (hnodes : ∀ node ∈ nodeRows.rows, node.Clean)
    (hid : clipSignalText nodeId 120 = nodeId ∧ nodeId ≠ "")
    (hstart : ∀ edge ∈ start.rows, edge.Clean) (hrows : edgeRows = changed.foldl Table.put start)
    (hchanged : ∀ edge ∈ changed, edge.Clean) (relateds : List Candidate) :
    let result := reinforceCoactivationEdges h nodeRows nodeId candidate reward clock.now relateds
      edgeRows changed
    result.1 = result.2.foldl Table.put start ∧ ∀ edge ∈ result.2, edge.Clean := by
  induction relateds generalizing edgeRows changed with
  | nil => exact ⟨hrows, hchanged⟩
  | cons related relateds ih =>
    simp only [reinforceCoactivationEdges]
    split
    next edge hedge =>
      split_ifs at hedge with hrelated
      have hpresent := (Bool.and_eq_true_iff.mp hrelated).2
      obtain ⟨node, hnode⟩ := Option.isSome_iff_exists.mp hpresent
      have hnodeClean := hnodes node (Table.mem_of_get? hnode)
      have hkey := Table.key_of_get? hnode
      have hedgeClean : edge.Clean := by
        refine reinforcedEdge_clean hid ⟨hkey ▸ hnodeClean.id, hkey ▸ hnodeClean.named.1⟩ ?_ hedge
        intro current hcurrent
        have hmem := Table.mem_of_get? hcurrent
        rw [hrows] at hmem
        exact (Table.mem_of_mem_foldl_put hmem).elim (hchanged current) (hstart current)
      apply ih
      · rw [hrows, List.foldl_append]
        rfl
      · intro later hlater
        obtain hlater | hlater := List.mem_append.mp hlater
        · exact hchanged later hlater
        · rw [List.mem_singleton.mp hlater]
          exact hedgeClean
    next => exact ih hrows hchanged

lemma foldl_put_clean {nodeRows : Nodes} {written : List GhostNode}
    (hnodes : ∀ node ∈ nodeRows.rows, node.Clean) (hwritten : ∀ node ∈ written, node.Clean) :
    ∀ node ∈ (written.foldl Table.put nodeRows).rows, node.Clean := by
  intro node hnode
  exact (Table.mem_of_mem_foldl_put hnode).elim (hwritten node) (hnodes node)

lemma changeOf_writes (h : Host) (candidate : Candidate) (reward : ℚ) (clock : Clock)
    (relateds : List Candidate) {nodeRows : Nodes} {edgeRows : Edges} {written : List GhostNode}
    (hnodes : ∀ node ∈ nodeRows.rows, node.Clean) (hedges : ∀ edge ∈ edgeRows.rows, edge.Clean)
    (hnode : node.Clean) (hwritten : ∀ node ∈ written, node.Clean) :
    (changeOf h nodeRows edgeRows candidate reward relateds clock.now node written).Writes nodeRows
      edgeRows := by
  have hput := foldl_put_clean hnodes hwritten
  have hsuperseded : ∀ later ∈ (if candidate.isManualAccept then
      supersedeConflictingNodes (written.foldl Table.put nodeRows) node clock.now else []),
      later.Clean := by
    split_ifs
    · exact superseded_clean hput hnode
    · intro later hlater
      cases hlater
  have hlast := foldl_put_clean hput hsuperseded
  have hnone : ∀ edge ∈ ([] : List GhostEdge), edge.Clean := fun edge hedge => by cases hedge
  obtain ⟨hfold, hclean⟩ := reinforceCoactivationEdges_writes h candidate reward clock hlast
    ⟨hnode.id, hnode.named.1⟩ hedges (rfl : edgeRows = [].foldl Table.put edgeRows) hnone relateds
  refine ⟨?_, hfold, ?_, hclean⟩
  · exact List.foldl_append.symm
  · intro later hlater
    exact (List.mem_append.mp hlater).elim (hwritten later) (hsuperseded later)

lemma reinforcement_writes {nodeRows : Nodes} {edgeRows : Edges} {relateds : List Candidate}
    {c : Change} (hnodes : ∀ node ∈ nodeRows.rows, node.Clean)
    (hedges : ∀ edge ∈ edgeRows.rows, edge.Clean) (hcandidate : candidate.Clean)
    (hc : reinforcement h nodeRows edgeRows candidate reward relateds clock.now = some c) :
    c.Writes nodeRows edgeRows := by
  have hcurrent : ∀ node ∈ nodeRows.get? (nodeIdForCandidate h candidate), node.Clean :=
    fun node hnode => hnodes node (Table.mem_of_get? hnode)
  simp only [reinforcement] at hc
  split_ifs at hc with hnew
  · obtain ⟨node, hnode, hc⟩ := Option.bind_eq_some_iff.mp hc
    have hwrites := changeOf_writes h candidate reward clock relateds hnodes hedges
      (hcurrent node hnode) (List.forall_mem_nil _)
    split_ifs at hc
    all_goals
      obtain rfl := Option.some.inj hc
      exact ⟨hwrites.nodes, hwrites.edges, hwrites.cleanNodes, hwrites.cleanEdges⟩
  · obtain rfl := Option.some.inj hc
    have hnode (refs : List String) := reinforcedNode_clean h clock reward refs hcandidate hcurrent
    exact changeOf_writes h candidate reward clock relateds hnodes hedges (hnode _)
      fun node hmem => List.mem_singleton.mp hmem ▸ hnode _

/-! ### Operations -/

inductive Op where
  | reinforce (clock : Clock) (candidate : Candidate) (reward : ℚ) (related : List Candidate)
  | remove (clock : Clock) (candidate : Candidate)
  | deleteScope (clock : Clock) (scope : Scope) (project sessionId : String)
  | decay (clock : Clock) (minIntervalSeconds : ℤ)
  | compact (ts : Nat → String)

/-- An operation that raises leaves the graph as it is. -/
def perform (h : Host) (g : Graph) : Op → Graph
  | .reinforce clock candidate reward related =>
    (reinforceCandidate h clock g candidate reward related).1
  | .remove clock candidate => (removeCandidate h clock g candidate).getD g
  | .deleteScope clock scope project sessionId =>
    (deleteScope h clock g scope project sessionId).getD g
  | .decay clock minIntervalSeconds => (decay h clock g minIntervalSeconds).getD g
  | .compact ts => (compactIfNeeded h ts g).getD g

def performAll (h : Host) (g : Graph) (ops : List Op) : Graph := ops.foldl (perform h) g

def emptyGraph : Graph := ⟨[], [], []⟩

/-- The rows of a change are within the bounds, and none of its events is skipped as one that is in
the log already. -/
structure Change.Fits (g : Graph) (ts : Nat → String) (c : Change) : Prop where
  nodes : NodesFit minNodeWeight maxGhostNodes c.nodes.rows
  edges : EdgesFit (c.nodes.rows.map GhostNode.id) minEdgeWeight maxGhostEdges maxEdgeOutDegree
    false c.edges.rows
  logged : appendEvents g.events (stamped ts c.bodies) = g.events ++ stamped ts c.bodies

/-- A reinforcement writes rows that can be read back, drops none and skips no event. -/
def Keeps (h : Host) (g : Graph) : Op → Prop
  | .reinforce clock candidate reward related => candidate.Clean ∧
      ∀ c, reinforcement h (.ofRows g.nodes) (.ofRows g.edges) candidate reward related clock.now =
        some c → c.Fits g clock.ts
  | _ => True

lemma Faithful.commit {c : Change} (hf : Faithful g)
    (hwrites : c.Writes (.ofRows g.nodes) (.ofRows g.edges)) (hfits : c.Fits g clock.ts)
    (hg : commit h clock g c = some g') : Faithful g' := by
  have hmemNodes := Table.mem_ofRows hf.sound.nodupNodes
  have hmemEdges := Table.mem_ofRows hf.sound.nodupEdges
  have hsound : Sound c.nodes.rows c.edges.rows := by
    refine ⟨?_, ?_, c.nodes.nodup, c.edges.nodup, hfits.nodes, hfits.edges⟩
    · intro node hnode
      rw [hwrites.nodes] at hnode
      obtain hwritten | hold := Table.mem_of_mem_foldl_put hnode
      · exact hwrites.cleanNodes node hwritten
      · exact hf.sound.cleanNodes node ((hmemNodes node).mp hold)
    · intro edge hedge
      rw [hwrites.edges] at hedge
      obtain hwritten | hold := Table.mem_of_mem_foldl_put hedge
      · exact hwrites.cleanEdges edge hwritten
      · exact hf.sound.cleanEdges edge ((hmemEdges edge).mp hold)
  have hbounded := hsound.perm hsound.bounded.1 hsound.bounded.2
  have hreplay : replay (g.events ++ stamped clock.ts c.bodies) =
      (c.changedNodes.foldl Table.put (replay g.events).1,
        c.changedEdges.foldl Table.put (replay g.events).2) := by
    rw [replay_append, Change.bodies, List.foldl_append, foldl_replayBody_nodes hwrites.cleanNodes,
      foldl_replayBody_edges hwrites.cleanEdges]
  refine Faithful.compactIfNeeded (hbounded.faithful ?_ ?_) hg
  · intro node
    rw [hfits.logged, hreplay, hsound.bounded.1.mem_iff, hwrites.nodes]
    exact Table.mem_foldl_put_congr
      (fun node => (hf.replayedNodes node).trans (hmemNodes node).symm) _ node
  · intro edge
    rw [hfits.logged, hreplay, hsound.bounded.2.mem_iff, hwrites.edges]
    exact Table.mem_foldl_put_congr
      (fun edge => (hf.replayedEdges edge).trans (hmemEdges edge).symm) _ edge

lemma Faithful.reinforce {relateds : List Candidate} (hf : Faithful g)
    (hkeeps : Keeps h g (.reinforce clock candidate reward relateds)) :
    Faithful (reinforceCandidate h clock g candidate reward relateds).1 := by
  rw [reinforceCandidate, hf.sound.load]
  split_ifs
  · exact hf
  · exact hf
  · exact hf
  · simp only
    split
    next => exact hf
    next c hc =>
      split
      next => exact hf
      next g' hg =>
        have hclean : ∀ node ∈ (Table.ofRows g.nodes : Nodes).rows, node.Clean := fun node hnode =>
          hf.sound.cleanNodes node ((Table.mem_ofRows hf.sound.nodupNodes node).mp hnode)
        have hcleanEdges : ∀ edge ∈ (Table.ofRows g.edges : Edges).rows, edge.Clean :=
          fun edge hedge =>
            hf.sound.cleanEdges edge ((Table.mem_ofRows hf.sound.nodupEdges edge).mp hedge)
        exact hf.commit (reinforcement_writes hclean hcleanEdges hkeeps.1 hc) (hkeeps.2 c hc) hg

lemma Faithful.dropNodes {gone : GhostNode → Bool} {control : Nat → Nat → Control}
    (hf : Faithful g) (hg : dropNodes ts g gone control = some g') : Faithful g' := by
  rw [Hebbian.dropNodes, hf.sound.load] at hg
  obtain rfl := Option.some.inj hg
  simp only
  split_ifs with hnone
  · exact hf
  · apply Sound.rewritten
    apply hf.sound.sublist List.filter_sublist List.filter_sublist
    intro edge hedge
    obtain ⟨hmem, hleft⟩ := List.mem_filter.mp hedge
    obtain ⟨hsource, htarget⟩ := hf.sound.edgesFit.mem_ends hmem
    rw [Bool.not_eq_true', Bool.or_eq_false_iff] at hleft
    have hkept : ∀ id ∈ g.nodes.map GhostNode.id,
        ((g.nodes.filter gone).map GhostNode.id).contains id = false →
          id ∈ (g.nodes.filter fun node =>
            !((g.nodes.filter gone).map GhostNode.id).contains node.id).map GhostNode.id := by
      intro id hid hstays
      obtain ⟨node, hnode, rfl⟩ := List.mem_map.mp hid
      exact List.mem_map_of_mem (List.mem_filter.mpr ⟨hnode, by simpa using hstays⟩)
    exact ⟨hkept _ hsource hleft.1, hkept _ htarget hleft.2⟩

lemma Faithful.decay {minIntervalSeconds : ℤ} (hf : Faithful g)
    (hg : decay h clock g minIntervalSeconds = some g') : Faithful g' := by
  rw [Hebbian.decay, hf.sound.load] at hg
  obtain rfl := Option.some.inj hg
  have hbounded : Sound (boundedNodes (g.nodes.map (decayNode h clock.now)))
      (boundedEdges ((boundedNodes (g.nodes.map (decayNode h clock.now))).map GhostNode.id)
        (g.edges.map (decayEdge h clock.now))) := by
    apply sound_bounded
    · intro node hnode
      obtain ⟨old, hold, rfl⟩ := List.mem_map.mp hnode
      exact decayNode_clean (hf.sound.cleanNodes old hold)
    · intro edge hedge
      obtain ⟨old, hold, rfl⟩ := List.mem_map.mp hedge
      exact decayEdge_clean (hf.sound.cleanEdges old hold)
    · rw [List.map_map]
      exact hf.sound.nodupNodes
    · rw [List.map_map]
      exact hf.sound.nodupEdges
  simp only
  split_ifs
  · exact hf
  · exact hf
  · exact hbounded.rewritten clock.ts _

/-- An operation that meets the condition keeps a graph faithful. -/
theorem Faithful.perform {op : Op} (hf : Faithful g) (hkeeps : Keeps h g op) :
    Faithful (perform h g op) := by
  have hgetD : ∀ result : Option Graph, (∀ g', result = some g' → Faithful g') →
      Faithful (result.getD g) := by
    rintro (_ | g') hnext
    · exact hf
    · exact hnext g' rfl
  cases op with
  | reinforce clock candidate reward related => exact hf.reinforce hkeeps
  | remove clock candidate => exact hgetD _ fun g' hg => hf.dropNodes hg
  | deleteScope clock scope project sessionId =>
    apply hgetD
    intro g' hg
    rw [Hebbian.deleteScope] at hg
    split_ifs at hg
    exact hf.dropNodes hg
  | decay clock minIntervalSeconds => exact hgetD _ fun g' hg => hf.decay hg
  | compact ts => exact hgetD _ fun g' hg => hf.compactIfNeeded hg

lemma emptyGraph_faithful : Faithful emptyGraph := by
  refine ⟨⟨?_, ?_, List.nodup_nil, List.nodup_nil, ⟨?_, Nat.zero_le _⟩, ?_, ?_, Nat.zero_le _, ?_⟩,
    rfl, rfl, fun node => Iff.rfl, fun edge => Iff.rfl⟩
  all_goals simp [emptyGraph, degree]

/-- In a run whose reinforcements all meet the condition, the log leads to the stored rows. -/
theorem performAll_rebuilds {ops : List Op}
    (hkeeps : Each (fun before op => Keeps h (performAll h emptyGraph before) op) ops) :
    Rebuilds (performAll h emptyGraph ops) := by
  have hfaithful : Faithful (performAll h emptyGraph ops) := by
    induction ops using List.reverseRecOn with
    | nil => exact emptyGraph_faithful
    | append_singleton ops op ih =>
      obtain ⟨hbefore, hop⟩ := each_snoc.mp hkeeps
      rw [performAll, List.foldl_append, List.foldl_cons, List.foldl_nil]
      exact (ih hbefore).perform hop
  exact hfaithful.rebuilds

/-! ### A machine -/

/-- A machine that knows two candidates, on which weights halve by any later time and only the note
of a removal or of a decay fills the log. -/
def plainHost : Host where
  resolve := some
  decay := ⟨fun now basis => some (if now = basis then 0 else 1),
    fun age _ => if age = 0 then 1 else 1 / 2⟩
  digest raw := if raw = "user||correction|indent|tabs" then "1" else "2"
  clip_digest raw := by
    split_ifs
    · decide +kernel
    · decide +kernel
  bytes event := match event.body with
    | .control _ => maxHebbianEventsBytes + 1
    | _ => 0

def plainClock : Clock where
  now := "2026-01-01T00:00:00Z"
  clip_now := by decide +kernel
  ts _ := "2026-01-01T00:00:00Z"

def tabs : Candidate where
  id := "gmc_1"
  signalKind := .correction
  status := .accepted
  scope := .user
  summary := "Indent with tabs"
  confidence := 1
  conflictKey := "indent"
  valueKey := "tabs"
  sessionId := "s"
  runId := "r"
  project := ""
  gateReason := ""
  evidenceRefs := ["gmc_1:1"]
  reviewedAt := ""

def quotes (confidence : ℚ) : Candidate :=
  { tabs with
    id := "gmc_2", summary := "Use single quotes", confidence, conflictKey := "quotes"
    valueKey := "single", evidenceRefs := ["gmc_2:1"] }

def laterClock : Clock where
  now := "2026-07-01T00:00:00Z"
  clip_now := by decide +kernel
  ts _ := "2026-07-01T00:00:00Z"

/-- A change of a small graph, row by row. -/
def Change.small (g : Graph) (ts : Nat → String) (c : Change) : Bool :=
  c.nodes.rows.all (fun row => minNodeWeight ≤ row.weight) && c.nodes.rows.length ≤ 4 &&
    c.edges.rows.all (fun row => row.source ≠ row.target &&
      keepsEdge (c.nodes.rows.map GhostNode.id) minEdgeWeight false row) &&
    c.edges.rows.length ≤ 4 &&
    appendEvents g.events (stamped ts c.bodies) = g.events ++ stamped ts c.bodies

lemma Change.fits_of_small {c : Change} {ts : Nat → String} (h : c.small g ts = true) :
    c.Fits g ts := by
  simp only [Change.small, Bool.and_eq_true, decide_eq_true_eq, List.all_eq_true] at h
  obtain ⟨⟨⟨⟨hnodes, hfew⟩, hedges⟩, hless⟩, hlogged⟩ := h
  refine ⟨⟨fun row hrow _ => hnodes row hrow, hfew.trans (by decide)⟩,
    ⟨fun row hrow => (hedges row hrow).2, fun row hrow => (hedges row hrow).1,
      hless.trans (by decide), fun id => ?_⟩, hlogged⟩
  have hdegree : degree c.edges.rows id ≤ c.edges.rows.length + c.edges.rows.length :=
    Nat.add_le_add List.countP_le_length List.countP_le_length
  exact hdegree.trans ((Nat.add_le_add hless hless).trans (by decide))

lemma keeps_of_small {candidate : Candidate} {reward : ℚ} {related : List Candidate}
    (hclean : candidate.Clean) (hsmall : (reinforcement h (.ofRows g.nodes) (.ofRows g.edges)
      candidate reward related clock.now).all (Change.small g clock.ts) = true) :
    Keeps h g (.reinforce clock candidate reward related) := by
  refine ⟨hclean, fun c hc => Change.fits_of_small ?_⟩
  simpa [hc] using hsmall

/-- Two candidates of one run, a decay, and a compaction of the log. -/
def decayedRun : List Op :=
  [.reinforce plainClock tabs 1 [], .reinforce plainClock (quotes 1) 1 [tabs], .decay laterClock 0,
    .compact laterClock.ts]

/-- The edge between two candidates is rebuilt after a decay and a compaction. -/
theorem performAll_rebuilds_decayed :
    Rebuilds (performAll plainHost emptyGraph decayedRun) ∧
      (performAll plainHost emptyGraph decayedRun).edges.map GhostEdge.weight = [75 / 1000] ∧
      (performAll plainHost emptyGraph decayedRun).events.length = 3 := by
  refine ⟨performAll_rebuilds ?_, by decide +kernel, by decide +kernel⟩
  intro before op later hops
  have hclean : ∀ candidate ∈ [tabs, quotes 1], candidate.Clean := by
    simp only [List.forall_mem_cons, List.not_mem_nil, false_imp_iff, implies_true, and_true]
    constructor <;> constructor <;> decide +kernel
  match before with
  | [] =>
    obtain ⟨rfl, -⟩ := List.cons.inj hops
    exact keeps_of_small (hclean tabs (by simp)) (by decide +kernel)
  | [first] =>
    obtain ⟨rfl, rfl, -⟩ : _ ∧ _ ∧ _ := by simpa [decayedRun] using hops
    exact keeps_of_small (hclean _ (by simp)) (by decide +kernel)
  | [first, second] =>
    obtain ⟨-, -, rfl, -⟩ : _ ∧ _ ∧ _ ∧ _ := by simpa [decayedRun] using hops
    trivial
  | [first, second, third] =>
    obtain ⟨-, -, -, rfl, -⟩ : _ ∧ _ ∧ _ ∧ _ ∧ _ := by simpa [decayedRun] using hops
    trivial
  | first :: second :: third :: fourth :: before => simp [decayedRun] at hops

/-- A weak node is dropped with its edge, comes back without it, and is rebuilt with it. -/
theorem not_rebuilds_dropped :
    ¬Rebuilds (performAll plainHost emptyGraph
      [.reinforce plainClock tabs 1 [], .reinforce plainClock (quotes (1 / 10)) 1 [tabs],
        .reinforce plainClock (quotes 1) 1 []]) := by
  intro hrebuilds
  exact absurd hrebuilds.2 (by decide +kernel)

end Hebbian

end Ghost

end Codey
