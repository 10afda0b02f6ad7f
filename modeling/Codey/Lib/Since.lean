import Mathlib.Data.List.Basic
import Mathlib.Data.List.Infix

/-!
# Since

What has happened in a list of events and has not been undone since, and what every event finds
before it. Both the event and its undoing may depend on the events before them.
-/

namespace Codey

variable {α : Type} {P Q : List α → α → Prop} {xs : List α}

/-- An event has happened, and every event since has kept it. -/
def Since (P Q : List α → α → Prop) (xs : List α) : Prop :=
  ∃ before x later, xs = before ++ x :: later ∧ P before x ∧
    ∀ passed y rest, later = passed ++ y :: rest → Q (before ++ x :: passed) y

@[simp] lemma not_since_nil : ¬Since P Q [] := by
  rintro ⟨before, x, later, h, -⟩
  simp at h

lemma Since.imp {P' Q' : List α → α → Prop} (h : Since P Q xs)
    (hP : ∀ before x, P before x → P' before x)
    (hQ : ∀ before x, Q before x → Q' before x) : Since P' Q' xs := by
  obtain ⟨before, x, later, rfl, hx, hkept⟩ := h
  exact ⟨before, x, later, rfl, hP before x hx, fun passed y rest h => hQ _ y (hkept passed y rest h)⟩

lemma snoc_eq_append_cons {x y : α} {before later : List α}
    (h : xs ++ [x] = before ++ y :: later) : (later = [] ∧ xs = before ∧ x = y) ∨
      ∃ rest, later = rest ++ [x] ∧ xs = before ++ y :: rest := by
  obtain rfl | ⟨later, z, rfl⟩ := List.eq_nil_or_concat' later
  · obtain ⟨rfl, hx⟩ := List.append_inj' h rfl
    exact Or.inl ⟨rfl, rfl, List.singleton_inj.mp hx⟩
  · rw [← List.cons_append, ← List.append_assoc] at h
    obtain ⟨rfl, hx⟩ := List.append_inj' h rfl
    obtain rfl := List.singleton_inj.mp hx
    exact Or.inr ⟨later, rfl, rfl⟩

/-- One more event makes it happen, or keeps it. -/
theorem since_snoc {x : α} : Since P Q (xs ++ [x]) ↔ P xs x ∨ (Since P Q xs ∧ Q xs x) := by
  constructor
  · rintro ⟨before, y, later, h, hP, hQ⟩
    obtain ⟨rfl, rfl, rfl⟩ | ⟨later, rfl, rfl⟩ := snoc_eq_append_cons h
    · exact Or.inl hP
    · refine Or.inr ⟨⟨before, y, later, rfl, hP, fun passed w rest hlater => ?_⟩, hQ later x [] rfl⟩
      exact hQ passed w (rest ++ [x]) (by simp [hlater])
  · rintro (hP | ⟨⟨before, y, later, rfl, hP, hQ⟩, hx⟩)
    · exact ⟨xs, x, [], rfl, hP, fun passed w rest h => by simp at h⟩
    · refine ⟨before, y, later ++ [x], by simp, hP, fun passed w rest hlater => ?_⟩
      obtain ⟨rfl, rfl, rfl⟩ | ⟨rest, rfl, rfl⟩ := snoc_eq_append_cons hlater
      · exact hx
      · exact hQ passed w rest rfl

/-- Every event is as the events before it allow. -/
def Each (P : List α → α → Prop) (xs : List α) : Prop :=
  ∀ before x later, xs = before ++ x :: later → P before x

@[simp] lemma each_nil : Each P [] := by
  intro before x later h
  simp at h

lemma Each.of_isPrefix {ys : List α} (h : Each P ys) (hpre : xs <+: ys) : Each P xs := by
  obtain ⟨rest, rfl⟩ := hpre
  rintro before x later rfl
  exact h before x (later ++ rest) (by simp)

/-- One more event is allowed by all of those before it. -/
theorem each_snoc {x : α} : Each P (xs ++ [x]) ↔ Each P xs ∧ P xs x := by
  constructor
  · intro h
    exact ⟨h.of_isPrefix (List.prefix_append xs [x]), h xs x [] rfl⟩
  · rintro ⟨h, hx⟩ before y later heq
    obtain ⟨rfl, rfl, rfl⟩ | ⟨later, rfl, rfl⟩ := snoc_eq_append_cons heq
    · exact hx
    · exact h before y later rfl

end Codey
