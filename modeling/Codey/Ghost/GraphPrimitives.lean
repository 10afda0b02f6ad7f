import Codey.Lib.Rounding
import Mathlib.Data.List.Sort
import Mathlib.Data.String.Basic

/-!
# Bounds and decay of a graph

The bounds on the nodes and on the edges of a graph, and the decay of its weights. The bounds only
drop rows, and what is within them is kept whole.
-/

namespace Codey

namespace Ghost

/-- What the bounds read of a node. -/
class NodeRow (α : Type) where
  active : α → Bool
  weight : α → ℚ
  updatedAt : α → String

/-- What the bounds read of an edge. -/
class EdgeRow (α : Type) where
  source : α → String
  target : α → String
  active : α → Bool
  weight : α → ℚ
  updatedAt : α → String

/-! ### Decay -/

/-- The age of a time stamp in seconds, unless it cannot be told, and the factor of a decay over an
age with a half life in days. -/
structure Decay where
  age : String → String → Option ℚ
  factor : ℚ → ℚ → ℚ

def decayBasisOf (lastDecayedAt lastReinforcedAt updatedAt : String) : String :=
  if lastDecayedAt ≠ "" then lastDecayedAt
  else if lastReinforcedAt ≠ "" then lastReinforcedAt
  else updatedAt

def Decay.decayedByHalfLife (d : Decay) (weight : ℚ) (basis now : String) (halfLifeDays : ℚ) : ℚ :=
  match d.age now basis with
  | some age => weight * d.factor age halfLifeDays
  | none => weight

def Decay.anyDecayDue (d : Decay) (bases : List String) (now : String)
    (minIntervalSeconds : ℤ) : Bool :=
  minIntervalSeconds ≤ 0 || bases.any fun basis =>
    (d.age now basis).any fun age => (minIntervalSeconds : ℚ) ≤ max 0 age

/-! ### Bounds -/

section Nodes

variable {α : Type} [NodeRow α]

/-- The order of `_node_rank`, the highest rank first. -/
def ranksBefore (a b : α) : Prop :=
  if NodeRow.active a ≠ NodeRow.active b then NodeRow.active a = true
  else if NodeRow.weight a ≠ NodeRow.weight b then NodeRow.weight b < NodeRow.weight a
  else NodeRow.updatedAt b ≤ NodeRow.updatedAt a

instance : DecidableRel (ranksBefore (α := α)) := fun a b => by
  unfold ranksBefore
  infer_instance

def boundGraphNodes (minActiveWeight : ℚ) (limit : Nat) (rows : List α) : List α :=
  let kept := rows.filter fun row =>
    NodeRow.active row = false || minActiveWeight ≤ NodeRow.weight row
  (kept.insertionSort ranksBefore).take limit

structure NodesFit (minActiveWeight : ℚ) (limit : Nat) (rows : List α) : Prop where
  weight : ∀ row ∈ rows, NodeRow.active row = true → minActiveWeight ≤ NodeRow.weight row
  length : rows.length ≤ limit

variable {minActiveWeight : ℚ} {limit : Nat} {rows rows' : List α}

lemma boundGraphNodes_subperm (rows : List α) :
    (boundGraphNodes minActiveWeight limit rows).Subperm rows :=
  (List.take_sublist _ _).subperm.trans
    ((List.perm_insertionSort _ _).subperm.trans List.filter_sublist.subperm)

lemma NodesFit.of_subperm (hfit : NodesFit minActiveWeight limit rows)
    (hsub : rows'.Subperm rows) : NodesFit minActiveWeight limit rows' :=
  ⟨fun row hrow => hfit.weight row (hsub.subset hrow), hsub.length_le.trans hfit.length⟩

/-- Nodes within the bounds are kept. -/
theorem NodesFit.perm (hfit : NodesFit minActiveWeight limit rows) :
    (boundGraphNodes minActiveWeight limit rows).Perm rows := by
  have hkept : (rows.filter fun row =>
      NodeRow.active row = false || minActiveWeight ≤ NodeRow.weight row) = rows := by
    rw [List.filter_eq_self]
    intro row hrow
    cases hactive : NodeRow.active row with
    | false => rfl
    | true => simpa using hfit.weight row hrow hactive
  have hlen : (rows.insertionSort ranksBefore).length ≤ limit := by
    rw [List.length_insertionSort]
    exact hfit.length
  rw [boundGraphNodes, hkept, List.take_of_length_le hlen]
  exact List.perm_insertionSort _ _

theorem nodesFit_boundGraphNodes (rows : List α) :
    NodesFit minActiveWeight limit (boundGraphNodes minActiveWeight limit rows) := by
  refine ⟨?_, List.length_take_le _ _⟩
  intro row hrow hactive
  have hsorted := (List.take_sublist _ _).subset hrow
  have hkept := List.of_mem_filter ((List.mem_insertionSort _).mp hsorted)
  rw [hactive] at hkept
  simpa using hkept

end Nodes

section Edges

variable {α : Type} [EdgeRow α]

def weighsBefore (a b : α) : Prop :=
  if EdgeRow.weight a ≠ EdgeRow.weight b then EdgeRow.weight b < EdgeRow.weight a
  else EdgeRow.updatedAt b ≤ EdgeRow.updatedAt a

instance : DecidableRel (weighsBefore (α := α)) := fun a b => by
  unfold weighsBefore
  infer_instance

def degree (rows : List α) (id : String) : Nat :=
  rows.countP (fun row => EdgeRow.source row = id) + rows.countP fun row => EdgeRow.target row = id

/-- The loop of `bound_graph_edges` over the rows that are left. -/
def capEdges (limit maxOutDegree : Nat) : List α → List α → List α
  | [], bounded => bounded
  | row :: rest, bounded =>
    if limit ≤ bounded.length then bounded
    else if maxOutDegree ≤ degree bounded (EdgeRow.source row) ||
        maxOutDegree ≤ degree bounded (EdgeRow.target row) then
      capEdges limit maxOutDegree rest bounded
    else capEdges limit maxOutDegree rest (bounded ++ [row])

/-- The filter of `bound_graph_edges`. -/
def keepsEdge (nodeIds : List String) (minWeight : ℚ) (requireActive : Bool) (row : α) : Bool :=
  nodeIds.contains (EdgeRow.source row) && nodeIds.contains (EdgeRow.target row) &&
    minWeight ≤ EdgeRow.weight row && (!requireActive || EdgeRow.active row)

def boundGraphEdges (nodeIds : List String) (minWeight : ℚ) (limit maxOutDegree : Nat)
    (requireActive : Bool) (rows : List α) : List α :=
  let kept := rows.filter (keepsEdge nodeIds minWeight requireActive)
  capEdges limit maxOutDegree (kept.insertionSort weighsBefore) []

/-- The edges are within the bounds. -/
structure EdgesFit (nodeIds : List String) (minWeight : ℚ) (limit maxOutDegree : Nat)
    (requireActive : Bool) (rows : List α) : Prop where
  kept : ∀ row ∈ rows, keepsEdge nodeIds minWeight requireActive row = true
  distinct : ∀ row ∈ rows, EdgeRow.source row ≠ EdgeRow.target row
  length : rows.length ≤ limit
  degree : ∀ id, Ghost.degree rows id ≤ maxOutDegree

variable {nodeIds nodeIds' : List String} {minWeight : ℚ} {limit maxOutDegree : Nat}
  {requireActive : Bool} {rows rows' bounded : List α} {row : α} {id : String}

lemma degree_append (rows rows' : List α) (id : String) :
    degree (rows ++ rows') id = degree rows id + degree rows' id := by
  simp only [degree, List.countP_append]
  omega

lemma degree_mono (hsub : rows'.Subperm rows) (id : String) : degree rows' id ≤ degree rows id :=
  Nat.add_le_add (hsub.countP_le _) (hsub.countP_le _)

lemma capEdges_sublist (rest bounded : List α) :
    (capEdges limit maxOutDegree rest bounded).Sublist (bounded ++ rest) := by
  induction rest generalizing bounded with
  | nil => simp [capEdges]
  | cons row rest ih =>
    rw [capEdges]
    split_ifs
    · exact List.sublist_append_left _ _
    · exact (ih bounded).trans ((List.sublist_cons_self row rest).append_left bounded)
    · simpa using ih (bounded ++ [row])

lemma boundGraphEdges_subperm (rows : List α) :
    (boundGraphEdges nodeIds minWeight limit maxOutDegree requireActive rows).Subperm rows :=
  (capEdges_sublist _ _).subperm.trans
    ((List.perm_insertionSort _ _).subperm.trans List.filter_sublist.subperm)

lemma one_le_degree_source : 1 ≤ degree [row] (EdgeRow.source row) := by simp [degree]

lemma one_le_degree_target : 1 ≤ degree [row] (EdgeRow.target row) := by simp [degree]

/-- Rows within the bounds are all taken. -/
lemma capEdges_eq {rest : List α} (hlen : (bounded ++ rest).length ≤ limit)
    (hdegree : ∀ id, degree (bounded ++ rest) id ≤ maxOutDegree) :
    capEdges limit maxOutDegree rest bounded = bounded ++ rest := by
  induction rest generalizing bounded with
  | nil => simp [capEdges]
  | cons row rest ih =>
    have hsplit : bounded ++ row :: rest = bounded ++ [row] ++ rest := by simp
    have hroom : ¬limit ≤ bounded.length := by
      rw [List.length_append, List.length_cons] at hlen
      omega
    have hends : ∀ id, 1 ≤ degree [row] id → ¬maxOutDegree ≤ degree bounded id := by
      intro id hid
      have hall := hdegree id
      rw [hsplit, degree_append, degree_append] at hall
      omega
    have hfree : ¬(maxOutDegree ≤ degree bounded (EdgeRow.source row) ||
        maxOutDegree ≤ degree bounded (EdgeRow.target row)) := by
      rw [Bool.or_eq_true, decide_eq_true_eq, decide_eq_true_eq, not_or]
      exact ⟨hends _ one_le_degree_source, hends _ one_le_degree_target⟩
    rw [capEdges, if_neg hroom, if_neg hfree, hsplit]
    apply ih
    · rwa [← hsplit]
    · intro id
      rw [← hsplit]
      exact hdegree id

/-- The rows that are taken respect the caps. -/
lemma capEdges_fit {rest : List α} (hrest : ∀ row ∈ rest, EdgeRow.source row ≠ EdgeRow.target row)
    (hlen : bounded.length ≤ limit) (hdegree : ∀ id, degree bounded id ≤ maxOutDegree) :
    (capEdges limit maxOutDegree rest bounded).length ≤ limit ∧
      ∀ id, degree (capEdges limit maxOutDegree rest bounded) id ≤ maxOutDegree := by
  induction rest generalizing bounded with
  | nil => exact ⟨hlen, hdegree⟩
  | cons row rest ih =>
    have hlater := fun later hlater => hrest later (List.mem_cons_of_mem row hlater)
    rw [capEdges]
    split_ifs with hfull hcapped
    · exact ⟨hlen, hdegree⟩
    · exact ih hlater hlen hdegree
    · apply ih hlater
      · rw [List.length_append, List.length_singleton]
        omega
      · intro id
        obtain ⟨hsource, htarget⟩ : degree bounded (EdgeRow.source row) < maxOutDegree ∧
            degree bounded (EdgeRow.target row) < maxOutDegree := by simpa using hcapped
        have hne := hrest row List.mem_cons_self
        rw [degree_append]
        -- an endpoint has one more row, another id none
        by_cases hs : EdgeRow.source row = id
        · have ht : EdgeRow.target row ≠ id := fun ht => hne (hs.trans ht.symm)
          have hone : degree [row] id = 1 := by simp [degree, hs, ht]
          rw [hs] at hsource
          omega
        · by_cases ht : EdgeRow.target row = id
          · have hone : degree [row] id = 1 := by simp [degree, hs, ht]
            rw [ht] at htarget
            omega
          · have hnone : degree [row] id = 0 := by simp [degree, hs, ht]
            have := hdegree id
            omega

theorem EdgesFit.perm
    (hfit : EdgesFit nodeIds minWeight limit maxOutDegree requireActive rows) :
    (boundGraphEdges nodeIds minWeight limit maxOutDegree requireActive rows).Perm rows := by
  have hperm := List.perm_insertionSort (weighsBefore (α := α)) rows
  rw [boundGraphEdges, List.filter_eq_self.mpr hfit.kept, capEdges_eq]
  · exact hperm
  · rw [List.nil_append, hperm.length_eq]
    exact hfit.length
  · intro id
    exact (degree_mono hperm.subperm id).trans (hfit.degree id)

theorem edgesFit_boundGraphEdges
    (hrows : ∀ row ∈ rows, EdgeRow.source row ≠ EdgeRow.target row) :
    EdgesFit nodeIds minWeight limit maxOutDegree requireActive
      (boundGraphEdges nodeIds minWeight limit maxOutDegree requireActive rows) := by
  have hsorted : ∀ row ∈ (rows.filter (keepsEdge nodeIds minWeight requireActive)).insertionSort
      weighsBefore, row ∈ rows ∧ keepsEdge nodeIds minWeight requireActive row = true :=
    fun row hrow => List.mem_filter.mp ((List.mem_insertionSort _).mp hrow)
  have htaken : ∀ row ∈ boundGraphEdges nodeIds minWeight limit maxOutDegree requireActive rows,
      row ∈ rows ∧ keepsEdge nodeIds minWeight requireActive row = true :=
    fun row hrow => hsorted row ((capEdges_sublist _ _).subset hrow)
  have hcaps : (boundGraphEdges nodeIds minWeight limit maxOutDegree requireActive rows).length ≤
      limit ∧ ∀ id, degree (boundGraphEdges nodeIds minWeight limit maxOutDegree requireActive rows)
        id ≤ maxOutDegree :=
    capEdges_fit (fun row hrow => hrows row (hsorted row hrow).1) (Nat.zero_le _)
      fun id => Nat.zero_le _
  exact ⟨fun row hrow => (htaken row hrow).2, fun row hrow => hrows row (htaken row hrow).1,
    hcaps.1, hcaps.2⟩

lemma EdgesFit.of_subperm (hfit : EdgesFit nodeIds minWeight limit maxOutDegree requireActive rows)
    (hsub : rows'.Subperm rows)
    (hids : ∀ row ∈ rows', EdgeRow.source row ∈ nodeIds' ∧ EdgeRow.target row ∈ nodeIds') :
    EdgesFit nodeIds' minWeight limit maxOutDegree requireActive rows' := by
  refine ⟨?_, fun row hrow => hfit.distinct row (hsub.subset hrow),
    hsub.length_le.trans hfit.length, fun id => (degree_mono hsub id).trans (hfit.degree id)⟩
  intro row hrow
  have hold := hfit.kept row (hsub.subset hrow)
  rw [keepsEdge, Bool.and_assoc, Bool.and_eq_true] at hold
  rw [keepsEdge, List.contains_iff_mem.mpr (hids row hrow).1,
    List.contains_iff_mem.mpr (hids row hrow).2, Bool.true_and, Bool.true_and, hold.2]

lemma EdgesFit.mem_ends
    (hfit : EdgesFit nodeIds minWeight limit maxOutDegree requireActive rows) (hrow : row ∈ rows) :
    EdgeRow.source row ∈ nodeIds ∧ EdgeRow.target row ∈ nodeIds := by
  have hkept := hfit.kept row hrow
  simp only [keepsEdge, Bool.and_eq_true, List.contains_iff_mem] at hkept
  exact hkept.1.1

end Edges

end Ghost

end Codey
