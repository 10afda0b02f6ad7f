import Mathlib.Logic.Relation

/-!
# Acyclic relations

A relation stays acyclic when the edges out of one vertex are replaced, as long as none of the new
ones leads back to it.
-/

namespace Codey

open Relation (TransGen ReflTransGen)

variable {α : Type} {r r' : α → α → Prop}

/-- No path leads from a vertex to itself. -/
def Acyclic (r : α → α → Prop) : Prop := ∀ x, ¬ TransGen r x x

lemma Acyclic.mono (h : Acyclic r) (hr : ∀ x y, r' x y → r x y) : Acyclic r' :=
  fun x hx => h x (TransGen.mono hr _ _ hx)

/-- A path through the new relation, up to its first visit of `a`, is one through the old one. -/
lemma reach_of_redirected {a : α} (hother : ∀ x y, x ≠ a → r' x y → r x y) {x : α}
    (h : ReflTransGen r' x a) : ReflTransGen r x a := by
  induction h using ReflTransGen.head_induction_on with
  | refl => exact .refl
  | @head x y hxy _ ih =>
    by_cases hx : x = a
    · rw [hx]
    · exact .head (hother x y hx hxy) ih

/-- A path through the new relation is one through the old one, or it visits `a`. -/
lemma redirected_cases {a : α} (hother : ∀ x y, x ≠ a → r' x y → r x y) {x y : α}
    (h : TransGen r' x y) : TransGen r x y ∨ (ReflTransGen r' x a ∧ TransGen r' a y) := by
  induction h with
  | @single y hxy =>
    by_cases hx : x = a
    · rw [hx] at hxy ⊢
      exact Or.inr ⟨.refl, .single hxy⟩
    · exact Or.inl (.single (hother x y hx hxy))
  | @tail y z hpath hyz ih =>
    by_cases hy : y = a
    · rw [hy] at hpath hyz
      exact Or.inr ⟨hpath.to_reflTransGen, .single hyz⟩
    · rcases ih with ih | ⟨hxa, hay⟩
      · exact Or.inl (ih.tail (hother y z hy hyz))
      · exact Or.inr ⟨hxa, hay.tail hyz⟩

/-- Redirecting the edges out of `a` to vertices from which `a` is not reached keeps a relation
acyclic. -/
theorem Acyclic.redirect (h : Acyclic r) {a : α} (hother : ∀ x y, x ≠ a → r' x y → r x y)
    (hnew : ∀ y, r' a y → ¬ ReflTransGen r y a) : Acyclic r' := by
  have ha : ¬ TransGen r' a a := by
    intro hcycle
    obtain ⟨y, hay, hya⟩ := TransGen.head'_iff.mp hcycle
    exact hnew y hay (reach_of_redirected hother hya)
  intro x hx
  rcases redirected_cases hother hx with hold | ⟨hxa, hax⟩
  · exact h x hold
  · exact ha (hax.trans_left hxa)

/-- A vertex that no edge leaves is added: a path avoids it, or leads to it with its last edge. -/
lemma transGen_added {a : α} (hout : ∀ x, ¬ r' a x) (hother : ∀ x y, y ≠ a → r' x y → r x y)
    {x y : α} (h : TransGen r' x y) :
    TransGen r x y ∧ y ≠ a ∨ y = a ∧ ∃ z, r' z a ∧ ReflTransGen r x z := by
  induction h with
  | @single y hxy =>
    by_cases hy : y = a
    · exact Or.inr ⟨hy, x, hy ▸ hxy, .refl⟩
    · exact Or.inl ⟨.single (hother x y hy hxy), hy⟩
  | @tail y z _ hyz ih =>
    have hpath := (ih.resolve_right fun h => hout z (h.1 ▸ hyz)).1
    by_cases hz : z = a
    · exact Or.inr ⟨hz, y, hz ▸ hyz, hpath.to_reflTransGen⟩
    · exact Or.inl ⟨hpath.tail (hother y z hz hyz), hz⟩

/-- Vertices are added: the edges out of the old ones stay among them, and the new ones have no
cycle of their own. -/
theorem Acyclic.extend (h : Acyclic r) {old : α → Prop}
    (hold : ∀ x y, old x → r' x y → r x y ∧ old y)
    (hnew : Acyclic fun x y => ¬ old x ∧ ¬ old y ∧ r' x y) : Acyclic r' := by
  have hstay : ∀ {x y}, TransGen r' x y → old x → TransGen r x y ∧ old y := by
    intro x y hpath hx
    induction hpath with
    | single hxy => exact ⟨.single (hold x _ hx hxy).1, (hold x _ hx hxy).2⟩
    | tail _ hyz ih => exact ⟨ih.1.tail (hold _ _ ih.2 hyz).1, (hold _ _ ih.2 hyz).2⟩
  -- a path that ends in a new vertex has met no old one
  have hfresh : ∀ {x y}, TransGen r' x y → ¬ old y →
      TransGen (fun x y => ¬ old x ∧ ¬ old y ∧ r' x y) x y := by
    intro x y hpath hy
    induction hpath using TransGen.head_induction_on with
    | single hxy => exact .single ⟨fun hx => hy (hold _ _ hx hxy).2, hy, hxy⟩
    | @head x z hxz hzy ih =>
      have hz : ¬ old z := fun hz => hy (hstay hzy hz).2
      exact .head ⟨fun hx => hz (hold _ _ hx hxz).2, hz, hxz⟩ ih
  intro x hx
  by_cases hold' : old x
  · exact h x (hstay hx hold').1
  · exact hnew x (hfresh hx hold')

end Codey
