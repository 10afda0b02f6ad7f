import Codey.Lib.Acyclic
import Codey.Lib.Check
import Mathlib.Data.List.Dedup
import Mathlib.Data.List.Perm.Subperm

/-!
# Reachable vertices

Three searches of a finite graph that is given by the successors of each vertex: a breadth-first one
that stops at a number of vertices, a depth-first one that refuses cycles, and one that closes a
set of vertices under successors in rounds.
-/

namespace Codey

namespace Reachable

open Relation (TransGen ReflTransGen)

variable {α : Type} [DecidableEq α] (succ : α → List α)

/-- `y` is a successor of `x`. -/
def Edge (x y : α) : Prop := y ∈ succ x

/-! ### Breadth first -/

/-- Take vertices from a queue, at most as many as the first argument says, and queue those of
their successors that are not known yet. -/
def explore : Nat → List α → List α → List α
  | 0, found, _ => found
  | _ + 1, found, [] => found
  | n + 1, found, x :: queue =>
    explore n (found ++ [x])
      (queue ++ (succ x).dedup.filter fun y => y ∉ found ++ x :: queue)

variable {succ}

lemma explore_spec {start : α} {n : Nat} {found queue : List α}
    (hnodup : (found ++ queue).Nodup)
    (hreach : ∀ y ∈ found ++ queue, ReflTransGen (Edge succ) start y)
    (hstart : start ∈ found ++ queue)
    (hclosed : ∀ x ∈ found, ∀ y ∈ succ x, y ∈ found ++ queue) :
    (explore succ n found queue).Nodup ∧
      (∀ y ∈ explore succ n found queue, ReflTransGen (Edge succ) start y) ∧
      ((explore succ n found queue).length = found.length + n ∨
        (explore succ n found queue).length ≤ found.length + n ∧
        ∀ y, ReflTransGen (Edge succ) start y → y ∈ explore succ n found queue) := by
  induction n generalizing found queue with
  | zero =>
    refine ⟨(List.nodup_append.mp hnodup).1, ?_, Or.inl rfl⟩
    exact fun y hy => hreach y (List.mem_append_left _ hy)
  | succ n ih =>
    cases queue with
    | nil =>
      rw [List.append_nil] at hnodup hreach hstart hclosed
      refine ⟨hnodup, hreach, Or.inr ⟨Nat.le_add_right _ _, fun y hy => ?_⟩⟩
      -- the vertices found are closed under successors
      change y ∈ found
      induction hy with
      | refl => exact hstart
      | tail _ hedge ih => exact hclosed _ ih _ hedge
    | cons x queue =>
      obtain ⟨fresh, hfresh⟩ : ∃ fresh, fresh = (succ x).dedup.filter
          fun y => y ∉ found ++ x :: queue := ⟨_, rfl⟩
      have hmem : ∀ y, y ∈ fresh ↔ y ∈ succ x ∧ y ∉ found ++ x :: queue := by
        intro y
        rw [hfresh, List.mem_filter, List.mem_dedup, decide_eq_true_eq]
      have hall : found ++ [x] ++ (queue ++ fresh) = found ++ x :: queue ++ fresh := by simp
      have hstep := @ih (found ++ [x]) (queue ++ fresh) ?_ ?_ ?_ ?_
      · rw [List.length_append, List.length_singleton] at hstep
        rw [explore, ← hfresh]
        have hlen : found.length + 1 + n = found.length + (n + 1) := by omega
        rwa [hlen] at hstep
      · rw [hall]
        refine List.nodup_append'.mpr ⟨hnodup, ?_, ?_⟩
        · exact hfresh ▸ (List.nodup_dedup _).filter _
        · exact fun y hy hyfresh => ((hmem y).mp hyfresh).2 hy
      · rw [hall]
        intro y hy
        obtain hy | hy := List.mem_append.mp hy
        · exact hreach y hy
        · exact (hreach x (by simp)).tail ((hmem y).mp hy).1
      · rw [hall]
        exact List.mem_append_left _ hstart
      · rw [hall]
        intro z hz y hy
        by_cases hknown : y ∈ found ++ x :: queue
        · exact List.mem_append_left _ hknown
        · obtain hz | hz := List.mem_append.mp hz
          · exact List.mem_append_left _ (hclosed z hz y hy)
          · obtain rfl := List.mem_singleton.mp hz
            exact List.mem_append_right _ ((hmem y).mpr ⟨hy, hknown⟩)

/-- A search from one vertex finds all that is reachable, or as many vertices as it may. -/
lemma explore_start (start : α) (n : Nat) :
    (explore succ n [] [start]).Nodup ∧
      (∀ y ∈ explore succ n [] [start], ReflTransGen (Edge succ) start y) ∧
      ((explore succ n [] [start]).length = n ∨
        ∀ y, ReflTransGen (Edge succ) start y → y ∈ explore succ n [] [start]) := by
  have h := @explore_spec α _ succ start n [] [start] (by simp)
    (fun y hy => List.mem_singleton.mp hy ▸ .refl) (by simp) (by simp)
  rw [List.length_nil, Nat.zero_add] at h
  exact ⟨h.1, h.2.1, h.2.2.imp_right And.right⟩

/-- Looking for a property or for too many vertices among what a bounded search finds is looking
among all that is reachable. -/
lemma exists_explore_iff {p : α → Prop} (start : α) (n : Nat) :
    ((∃ y ∈ explore succ n [] [start], p y) ∨ n ≤ (explore succ n [] [start]).length) ↔
      (∃ y, ReflTransGen (Edge succ) start y ∧ p y) ∨
        ∃ l : List α, l.Nodup ∧ l.length = n ∧ ∀ y ∈ l, ReflTransGen (Edge succ) start y := by
  obtain ⟨hnodup, hreach, hall⟩ := @explore_start _ _ succ start n
  constructor
  · rintro (⟨y, hy, hp⟩ | hlong)
    · exact Or.inl ⟨y, hreach y hy, hp⟩
    · refine Or.inr ⟨(explore succ n [] [start]).take n, ?_, ?_, ?_⟩
      · exact (List.take_sublist _ _).nodup hnodup
      · rw [List.length_take, Nat.min_eq_left hlong]
      · exact fun y hy => hreach y (List.mem_of_mem_take hy)
  · intro h
    obtain hlen | hcomplete := hall
    · exact Or.inr (Nat.le_of_eq hlen.symm)
    · obtain ⟨y, hy, hp⟩ | ⟨l, hl, hlen, hlreach⟩ := h
      · exact Or.inl ⟨y, hcomplete y hy, hp⟩
      · refine Or.inr ?_
        have hsub : l.Subperm (explore succ n [] [start]) :=
          hl.subperm fun y hy => hcomplete y (hlreach y hy)
        exact hlen ▸ hsub.length_le

/-! ### Depth first -/

inductive VisitError where
  | cyclic
  | tooDeep
  deriving DecidableEq

variable (succ)

/-- Visit a vertex after its successors. The vertices on the way to it may not be met again. -/
def visit : Nat → List α → List α → α → Except VisitError (List α)
  | 0, _, _, _ => .error .tooDeep
  | n + 1, visiting, visited, x =>
    if x ∈ visiting then .error .cyclic
    else if x ∈ visited then .ok visited
    else do
      let visited ← foldE (succ x) (visit n (x :: visiting)) visited
      .ok (x :: visited)

/-- Each vertex stands before its successors. -/
def Sorted : List α → Prop
  | [] => True
  | x :: rest => x ∉ rest ∧ (∀ y ∈ succ x, y ∈ rest) ∧ Sorted rest

variable {succ}

/-- What a visit does to the vertices visited so far. -/
structure Extends (succ : α → List α) (visiting visited visited' : List α) : Prop where
  sorted : Sorted succ visited'
  sub : visited ⊆ visited'
  fresh : ∀ x ∈ visiting, x ∉ visited'

omit [DecidableEq α] in
lemma extends_foldE {f : List α → α → Except VisitError (List α)} {visiting xs visited : List α}
    (hsorted : Sorted succ visited) (hfresh : ∀ x ∈ visiting, x ∉ visited)
    (hf : ∀ visited x visited', Sorted succ visited → (∀ x ∈ visiting, x ∉ visited) →
      f visited x = .ok visited' → Extends succ visiting visited visited' ∧ x ∈ visited')
    {visited' : List α} (h : foldE xs f visited = .ok visited') :
    Extends succ visiting visited visited' ∧ xs ⊆ visited' := by
  induction xs generalizing visited with
  | nil =>
    obtain rfl := Except.ok.inj h
    exact ⟨⟨hsorted, List.Subset.refl _, hfresh⟩, by simp⟩
  | cons x xs ih =>
    obtain ⟨mid, hmid, hrest⟩ := foldE_cons_eq_ok.mp h
    obtain ⟨hext, hx⟩ := hf visited x mid hsorted hfresh hmid
    obtain ⟨hext', hxs⟩ := ih hext.sorted hext.fresh hrest
    refine ⟨⟨hext'.sorted, List.Subset.trans hext.sub hext'.sub, hext'.fresh⟩, ?_⟩
    exact List.cons_subset.mpr ⟨hext'.sub hx, hxs⟩

lemma extends_visit {n : Nat} {visiting visited visited' : List α} {x : α}
    (hsorted : Sorted succ visited) (hfresh : ∀ y ∈ visiting, y ∉ visited)
    (h : visit succ n visiting visited x = .ok visited') :
    Extends succ visiting visited visited' ∧ x ∈ visited' := by
  induction n generalizing visiting visited visited' x with
  | zero => cases h
  | succ n ih =>
    simp only [visit] at h
    split_ifs at h with hvisiting hvisited
    · obtain rfl := Except.ok.inj h
      exact ⟨⟨hsorted, List.Subset.refl _, hfresh⟩, hvisited⟩
    · obtain ⟨mid, hmid, rfl⟩ := except_last_eq_ok.mp h
      have hfresh' : ∀ y ∈ x :: visiting, y ∉ visited := by
        intro y hy
        obtain rfl | hy := List.mem_cons.mp hy
        · exact hvisited
        · exact hfresh y hy
      obtain ⟨hext, hsucc⟩ := extends_foldE hsorted hfresh'
        (fun _ _ _ hsorted hfresh h => ih hsorted hfresh h) hmid
      refine ⟨⟨⟨hext.fresh x List.mem_cons_self, hsucc, hext.sorted⟩, ?_, ?_⟩, List.mem_cons_self⟩
      · exact List.Subset.trans hext.sub (List.subset_cons_self _ _)
      · intro y hy
        have hne : y ≠ x := by
          rintro rfl
          exact hvisiting hy
        have hmid := hext.fresh y (List.mem_cons_of_mem _ hy)
        simp [hne, hmid]

lemma idxOf_lt_of_sorted {l : List α} (h : Sorted succ l) {x y : α} (hx : x ∈ l)
    (hy : y ∈ succ x) : y ∈ l ∧ l.idxOf x < l.idxOf y := by
  induction l with
  | nil => cases hx
  | cons a rest ih =>
    obtain ⟨hnot, hsucc, hrest⟩ := h
    have hy' : y ∈ rest := by
      obtain rfl | hx := List.mem_cons.mp hx
      · exact hsucc y hy
      · exact (ih hrest hx).1
    have hya : a ≠ y := by
      rintro rfl
      exact hnot hy'
    refine ⟨List.mem_cons_of_mem _ hy', ?_⟩
    rw [List.idxOf_cons_ne _ hya]
    by_cases hxa : a = x
    · subst hxa
      rw [List.idxOf_cons_self]
      exact Nat.succ_pos _
    · rw [List.idxOf_cons_ne _ hxa]
      obtain rfl | hx := List.mem_cons.mp hx
      · exact absurd rfl hxa
      · exact Nat.succ_lt_succ (ih hrest hx).2

/-- Among vertices that stand before their successors there is no cycle. -/
lemma acyclic_of_sorted {l : List α} (h : Sorted succ l) :
    Acyclic fun x y => x ∈ l ∧ y ∈ succ x := by
  have hlt : ∀ x y, TransGen (fun x y => x ∈ l ∧ y ∈ succ x) x y → l.idxOf x < l.idxOf y := by
    intro x y hpath
    induction hpath with
    | single hedge => exact (idxOf_lt_of_sorted h hedge.1 hedge.2).2
    | tail _ hedge ih => exact Nat.lt_trans ih (idxOf_lt_of_sorted h hedge.1 hedge.2).2
  exact fun x hx => Nat.lt_irrefl _ (hlt x x hx)

/-- A graph all of whose vertices have been visited has no cycle. -/
lemma acyclic_of_visit {n : Nat} {xs visited : List α}
    (h : foldE xs (visit succ n []) [] = .ok visited) :
    Acyclic fun x y => x ∈ xs ∧ y ∈ succ x := by
  have hvisit : Extends succ [] [] visited ∧ xs ⊆ visited :=
    extends_foldE (show Sorted succ [] from trivial) (by simp)
      (fun _ _ _ hsorted hfresh h => extends_visit hsorted hfresh h) h
  exact (acyclic_of_sorted hvisit.1.sorted).mono fun x y hxy => ⟨hvisit.2 hxy.1, hxy.2⟩

/-! ### In rounds -/

variable (succ)

/-- The successors of known vertices that are not known themselves. -/
def frontier (known : List α) : List α := (known.flatMap succ).dedup.filter (· ∉ known)

/-- Add the successors of the known vertices until there are no others, in as many rounds as the
first argument says. -/
def saturate : Nat → List α → List α
  | 0, known => known
  | n + 1, known =>
    match frontier succ known with
    | [] => known
    | more => saturate n (known ++ more)

variable {succ}

lemma mem_frontier {known : List α} {y : α} :
    y ∈ frontier succ known ↔ (∃ x ∈ known, y ∈ succ x) ∧ y ∉ known := by
  simp [frontier]

/-- When every successor is among `ids`, one round for each of these that is not known is enough. -/
lemma closed_saturate {ids : List α} (hids : ∀ x, ∀ y ∈ succ x, y ∈ ids) {n : Nat}
    {known : List α} (hlt : (ids.filter (· ∉ known)).length < n) :
    ∀ x ∈ saturate succ n known, ∀ y ∈ succ x, y ∈ saturate succ n known := by
  induction n generalizing known with
  | zero => exact absurd hlt (Nat.not_lt_zero _)
  | succ n ih =>
    rw [saturate]
    split
    case h_1 hnone =>
      intro x hx y hy
      by_contra hnot
      have hmem : y ∈ frontier succ known := mem_frontier.mpr ⟨⟨x, hx, hy⟩, hnot⟩
      rw [hnone] at hmem
      cases hmem
    case h_2 hsome =>
      apply ih
      obtain ⟨y, hy⟩ := List.exists_mem_of_ne_nil _ hsome
      obtain ⟨⟨x, -, hxy⟩, hnot⟩ := mem_frontier.mp hy
      -- the round takes in `y`, which was not known before
      have hless : (ids.filter (· ∉ known ++ frontier succ known)).length <
          (ids.filter (· ∉ known)).length := by
        have heq : ids.filter (· ∉ known ++ frontier succ known) =
            (ids.filter (· ∉ known)).filter (· ∉ frontier succ known) := by
          rw [List.filter_filter]
          exact List.filter_congr fun z _ => by simp [Bool.and_comm]
        rw [heq]
        apply List.length_filter_lt_length_iff_exists.mpr
        exact ⟨y, by simp [hids x y hxy, hnot], by simpa using hy⟩
      omega

end Reachable

end Codey
