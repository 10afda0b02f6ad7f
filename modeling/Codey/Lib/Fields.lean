import Codey.Lib.Json
import Mathlib.Data.List.Perm.Basic
import Mathlib.Data.String.Basic

/-!
# Sorted objects

The members of an object that lists its keys in order, under an assignment and a removal.
-/

namespace Codey

namespace Fields

variable {fs : Fields} {key : String} {value old : Json}

/-- Every key stands once, and in order. -/
def Sorted (fs : Fields) : Prop := fs.Pairwise fun a b => a.1 < b.1

lemma Sorted.nil : Sorted [] := List.Pairwise.nil

lemma mem_of_get? (h : fs.get? key = some value) : (key, value) ∈ fs := by
  induction fs with
  | nil => cases h
  | cons p fs ih =>
    obtain ⟨k, v⟩ := p
    rw [get?_cons] at h
    split_ifs at h with hk
    · obtain rfl := Option.some.inj h
      exact hk ▸ List.mem_cons_self
    · exact List.mem_cons_of_mem _ (ih h)

lemma get?_eq_none_iff : fs.get? key = none ↔ ∀ p ∈ fs, p.1 ≠ key := by
  induction fs with
  | nil => simp
  | cons p fs ih =>
    obtain ⟨k, v⟩ := p
    rw [get?_cons, List.forall_mem_cons, ← ih]
    split_ifs with hk <;> simp [hk]

lemma mem_set {q : String × Json} (h : q ∈ fs.set key value) : q = (key, value) ∨ q ∈ fs := by
  induction fs with
  | nil => exact .inl (List.mem_singleton.mp h)
  | cons p fs ih =>
    obtain ⟨k, v⟩ := p
    rw [set] at h
    split_ifs at h
    · exact (List.mem_cons.mp h).imp_right (List.mem_cons_of_mem _)
    · exact List.mem_cons.mp h
    · obtain rfl | h := List.mem_cons.mp h
      · exact .inr List.mem_cons_self
      · exact (ih h).imp_right (List.mem_cons_of_mem _)

/-- A new member is inserted. -/
lemma set_perm (h : fs.get? key = none) : (fs.set key value).Perm ((key, value) :: fs) := by
  induction fs with
  | nil => exact .refl _
  | cons p fs ih =>
    obtain ⟨k, v⟩ := p
    rw [get?_cons] at h
    split_ifs at h with hk
    rw [set, if_neg hk]
    split_ifs
    · exact .refl _
    · exact ((ih h).cons _).trans (.swap _ _ _)

/-- A present member is replaced. -/
lemma Sorted.exists_set_eq (hs : fs.Sorted) (h : fs.get? key = some old) :
    ∃ a b, fs = a ++ (key, old) :: b ∧ fs.set key value = a ++ (key, value) :: b := by
  induction fs with
  | nil => cases h
  | cons p fs ih =>
    obtain ⟨k, v⟩ := p
    obtain ⟨hhead, htail⟩ := List.pairwise_cons.mp hs
    rw [get?_cons] at h
    split_ifs at h with hk
    · obtain rfl := Option.some.inj h
      exact ⟨[], fs, by simp [hk], by simp [set, hk]⟩
    · have hlt : ¬key < k := (hhead _ (mem_of_get? h)).asymm
      obtain ⟨a, b, hfs, hset⟩ := ih htail h
      exact ⟨(k, v) :: a, b, by simp [hfs], by simp [set, hk, hlt, hset]⟩

lemma Sorted.set (hs : fs.Sorted) (key : String) (value : Json) : (fs.set key value).Sorted := by
  induction fs with
  | nil => exact List.pairwise_singleton ..
  | cons p fs ih =>
    obtain ⟨k, v⟩ := p
    obtain ⟨hhead, htail⟩ := List.pairwise_cons.mp hs
    rw [Fields.set]
    split_ifs with hk hlt
    · exact List.pairwise_cons.mpr ⟨fun q hq => hk ▸ hhead q hq, htail⟩
    · refine List.pairwise_cons.mpr ⟨fun q hq => ?_, hs⟩
      obtain rfl | hq := List.mem_cons.mp hq
      · exact hlt
      · exact hlt.trans (hhead q hq)
    · refine List.pairwise_cons.mpr ⟨fun q hq => ?_, ih htail⟩
      have hkey : k < key := lt_of_le_of_ne (not_lt.mp hlt) hk
      obtain rfl | hq := mem_set hq
      · exact hkey
      · exact hhead q hq

lemma pop_eq_filter (fs : Fields) (key : String) : fs.pop key = fs.filter fun p => p.1 ≠ key := by
  induction fs with
  | nil => rfl
  | cons p fs ih =>
    obtain ⟨k, v⟩ := p
    by_cases hk : k = key <;> simp [pop, hk, ih]

lemma pop_sublist (fs : Fields) (key : String) : (fs.pop key).Sublist fs := by
  rw [pop_eq_filter]
  exact List.filter_sublist

lemma mem_pop {p : String × Json} : p ∈ fs.pop key ↔ p ∈ fs ∧ p.1 ≠ key := by
  simp [pop_eq_filter]

lemma Sorted.pop (hs : fs.Sorted) (key : String) : (fs.pop key).Sorted :=
  hs.sublist (pop_sublist fs key)

end Fields

end Codey
