import Mathlib.Data.List.Basic
import Mathlib.Data.List.Pairwise

/-!
# Segments

A list falls into segments from left to right: an item joins the segment at hand when the items of
that segment let it, and opens the next segment otherwise.
-/

namespace Codey

namespace Segments

variable {α : Type} (joins : List α → α → Bool)

/-- Extend the segment at hand, or close it and open the next one. -/
def collect : List α → List α → List (List α)
  | held, [] => [held]
  | held, x :: xs => if joins held x then collect (held ++ [x]) xs else held :: collect [x] xs

/-- The segments of a list. -/
def segments : List α → List (List α)
  | [] => []
  | x :: xs => collect joins [x] xs

/-- Every item that joins a segment is related to all of the items that the segment holds. -/
def Along (R : α → α → Prop) : List α → List α → Prop
  | _, [] => True
  | held, x :: xs =>
    if joins held x then (∀ y ∈ held, R y x) ∧ Along R (held ++ [x]) xs else Along R [x] xs

variable {joins} {R R' : α → α → Prop} {held xs : List α}

variable (joins) in
lemma collect_flatten (held xs : List α) : (collect joins held xs).flatten = held ++ xs := by
  induction xs generalizing held with
  | nil => simp [collect]
  | cons x xs ih =>
    rw [collect]
    split_ifs
    · rw [ih, List.append_assoc, List.singleton_append]
    · rw [List.flatten_cons, ih, List.singleton_append]

variable (joins) in
/-- Nothing is lost, repeated or moved. -/
theorem segments_flatten (xs : List α) : (segments joins xs).flatten = xs := by
  cases xs with
  | nil => rfl
  | cons x xs => exact collect_flatten joins [x] xs

lemma nil_notMem_collect (hheld : held ≠ []) : [] ∉ collect joins held xs := by
  induction xs generalizing held with
  | nil => simpa [collect] using hheld.symm
  | cons x xs ih =>
    rw [collect]
    split_ifs
    · exact ih (by simp)
    · rw [List.mem_cons, not_or]
      exact ⟨hheld.symm, ih (by simp)⟩

lemma nil_notMem_segments : [] ∉ segments joins xs := by
  cases xs with
  | nil => exact List.not_mem_nil
  | cons x xs => exact nil_notMem_collect (List.cons_ne_nil x [])

/-- The items of every segment are related pairwise when those that join it are related to what it
holds. -/
theorem pairwise_collect_iff :
    (∀ g ∈ collect joins held xs, g.Pairwise R) ↔ held.Pairwise R ∧ Along joins R held xs := by
  induction xs generalizing held with
  | nil => simp [collect, Along]
  | cons x xs ih =>
    rw [collect, Along]
    split_ifs with hjoins
    · rw [ih, List.pairwise_append]
      simp only [List.pairwise_singleton, List.mem_singleton, forall_eq, true_and]
      tauto
    · rw [List.forall_mem_cons, ih]
      simp

theorem pairwise_segments_iff :
    (∀ g ∈ segments joins xs, g.Pairwise R) ↔ Along joins R [] xs := by
  cases xs with
  | nil => simp [segments, Along]
  | cons x xs =>
    rw [segments, pairwise_collect_iff, Along]
    simp

/-- Relations that agree on what joins. -/
lemma along_congr (h : ∀ held x, joins held x = true → ∀ y ∈ held, R y x ↔ R' y x) :
    Along joins R held xs ↔ Along joins R' held xs := by
  induction xs generalizing held with
  | nil => exact Iff.rfl
  | cons x xs ih =>
    rw [Along, Along]
    split_ifs with hjoins
    · exact and_congr (forall₂_congr (h held x hjoins)) ih
    · exact ih

/-! ### Images -/

variable {β : Type} (f : α → β) {joinsImage : List β → β → Bool}

lemma along_map {S : β → β → Prop} (hjoins : ∀ held x, joins held x = joinsImage (held.map f) (f x)) :
    Along joins (fun y x => S (f y) (f x)) held xs ↔
      Along joinsImage S (held.map f) (xs.map f) := by
  induction xs generalizing held with
  | nil => exact Iff.rfl
  | cons x xs ih =>
    rw [List.map_cons, Along, Along, ← hjoins]
    split_ifs
    · rw [ih, List.map_append, List.map_singleton, List.forall_mem_map]
    · rw [ih, List.map_singleton]

end Segments

end Codey
