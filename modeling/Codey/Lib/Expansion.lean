import Mathlib.Algebra.BigOperators.Group.List.Basic
import Mathlib.Algebra.GroupWithZero.Nat

/-!
# Expansion by older versions

Items that stand for lists of items. What an item stands for is of an older time than the item, and
its own items are looked up before that time, so that an expansion ends whatever refers to what.
-/

namespace Codey

/-- What an item stands for before a time, and the time from which it does. -/
structure Expansion (α : Type) where
  next : α → Nat → Option (Nat × List α)
  older : ∀ {x before i ys}, next x before = some (i, ys) → i < before

namespace Expansion

variable {α : Type} (u : Expansion α)

/-- The items that stand for nothing, below an item before a time. -/
def leaves (before : Nat) (x : α) : List α :=
  match _h : u.next x before with
  | none => [x]
  | some (i, ys) => ys.flatMap fun y => leaves i y
termination_by before
decreasing_by exact u.older _h

/-- The number of items that an expansion visits. -/
def visits (before : Nat) (x : α) : Nat :=
  match _h : u.next x before with
  | none => 1
  | some (i, ys) => 1 + (ys.map fun y => visits i y).sum
termination_by before
decreasing_by exact u.older _h

variable {u}

lemma leaves_of_none {before : Nat} {x : α} (h : u.next x before = none) :
    u.leaves before x = [x] := by
  rw [leaves]
  split
  · rfl
  · simp_all

lemma leaves_of_some {before i : Nat} {x : α} {ys : List α} (h : u.next x before = some (i, ys)) :
    u.leaves before x = ys.flatMap (u.leaves i) := by
  rw [leaves]
  split
  · simp_all
  · simp_all

lemma flatMap_leaves_of_none {before : Nat} {xs : List α} (h : ∀ x ∈ xs, u.next x before = none) :
    xs.flatMap (u.leaves before) = xs := by
  rw [List.flatMap_congr fun x hx => leaves_of_none (h x hx)]
  exact List.flatMap_singleton' xs

lemma visits_pos (before : Nat) (x : α) : 0 < u.visits before x := by
  rw [visits]
  split <;> omega

lemma visits_of_some {before i : Nat} {x : α} {ys : List α} (h : u.next x before = some (i, ys)) :
    u.visits before x = 1 + (ys.map (u.visits i)).sum := by
  rw [visits]
  split
  · simp_all
  · simp_all

/-- Items, to be looked up before a time. -/
def dated (before : Nat) (xs : List α) : List (α × Nat) := xs.map (·, before)

lemma sum_visits_dated (before : Nat) (xs : List α) :
    ((dated before xs).map fun p => u.visits p.2 p.1).sum = (xs.map (u.visits before)).sum := by
  simp [dated, Function.comp_def]

lemma flatMap_leaves_dated (before : Nat) (xs : List α) :
    ((dated before xs).flatMap fun p => u.leaves p.2 p.1) = xs.flatMap (u.leaves before) := by
  simp [dated, List.flatMap_map]

variable (u)

/-- The loop that expands a stack of items, each with its time. -/
def run (pending : List (α × Nat)) (output : List α) : List α :=
  match pending with
  | [] => output
  | (x, before) :: rest =>
    match _h : u.next x before with
    | none => run rest (output ++ [x])
    | some (i, ys) => run (dated i ys ++ rest) output
termination_by (pending.map fun p => u.visits p.2 p.1).sum
decreasing_by
  · have := u.visits_pos before x
    simp only [List.map_cons, List.sum_cons]
    omega
  · simp only [List.map_append, List.sum_append, List.map_cons, List.sum_cons, visits_of_some _h,
      sum_visits_dated]
    omega

/-- The loop writes what is below the items of the stack, from the top. -/
theorem run_eq (pending : List (α × Nat)) (output : List α) :
    u.run pending output = output ++ pending.flatMap fun p => u.leaves p.2 p.1 := by
  fun_induction u.run pending output with
  | case1 output => simp
  | case2 output x before rest h ih => simp [ih, leaves_of_none h]
  | case3 output x before rest i ys h ih => simp [ih, leaves_of_some h, flatMap_leaves_dated]

end Expansion

end Codey
