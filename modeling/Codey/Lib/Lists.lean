import Mathlib.Data.List.Flatten
import Mathlib.Data.List.Perm.Basic
import Mathlib.Data.List.Sort

/-!
# Places in lists

Stable sorting, the places of a concatenation, and maps that may raise.
-/

namespace Codey

variable {α β ε : Type}

variable {l : List α}

/-- The two orders of a pair in a list without repetitions exclude each other. -/
lemma pair_sublist_antisymm (h : l.Nodup) {a b : α} (hab : [a, b].Sublist l)
    (hba : [b, a].Sublist l) : a = b := by
  induction l with
  | nil => cases hab
  | cons c l ih =>
    obtain ⟨hc, hl⟩ := List.nodup_cons.mp h
    cases hab with
    | cons _ hab =>
      cases hba with
      | cons _ hba => exact ih hl hab hba
      | cons_cons _ _ => exact absurd (hab.subset (by simp)) hc
    | cons_cons _ hb =>
      cases hba with
      | cons _ hba => exact absurd (hba.subset (by simp)) hc
      | cons_cons _ _ => rfl

/-- Two members of a list stand in one order or the other. -/
lemma pair_sublist_total {a b : α} (ha : a ∈ l) (hb : b ∈ l) (hne : a ≠ b) :
    [a, b].Sublist l ∨ [b, a].Sublist l := by
  induction l with
  | nil => cases ha
  | cons c l ih =>
    rcases List.mem_cons.mp ha with rfl | ha
    · have hb := (List.mem_cons.mp hb).resolve_left (Ne.symm hne)
      exact Or.inl (List.Sublist.cons_cons _ (List.singleton_sublist.mpr hb))
    · rcases List.mem_cons.mp hb with heq | hb
      · rw [heq]
        exact Or.inr (List.Sublist.cons_cons _ (List.singleton_sublist.mpr ha))
      · rcases ih ha hb with h | h
        · exact Or.inl (h.cons _)
        · exact Or.inr (h.cons _)

/-- What two members give stands in their order. -/
lemma pair_sublist_flatMap {f : α → List β} {a b : α} {x y : β} (h : [a, b].Sublist l)
    (hx : x ∈ f a) (hy : y ∈ f b) : [x, y].Sublist (l.flatMap f) := by
  have hpair : [x, y].Sublist ([a, b].flatMap f) := by
    rw [List.flatMap_cons, List.flatMap_cons, List.flatMap_nil, List.append_nil]
    exact (List.singleton_sublist.mpr hx).append (List.singleton_sublist.mpr hy)
  exact hpair.trans (h.flatMap f)

/-- A concatenation to which one member alone adds something. -/
lemma flatMap_eq_of_unique {f : α → List β} (hl : l.Nodup) {a : α} (ha : a ∈ l)
    (h : ∀ b ∈ l, b ≠ a → f b = []) : l.flatMap f = f a := by
  induction l with
  | nil => cases ha
  | cons c l ih =>
    obtain ⟨hc, hl⟩ := List.nodup_cons.mp hl
    rw [List.flatMap_cons]
    rcases List.mem_cons.mp ha with rfl | ha
    · have hrest : l.flatMap f = [] := List.flatMap_eq_nil_iff.mpr fun b hb =>
        h b (List.mem_cons_of_mem _ hb) fun heq => hc (heq ▸ hb)
      rw [hrest, List.append_nil]
    · have hne : c ≠ a := fun heq => hc (heq ▸ ha)
      rw [h c List.mem_cons_self hne, List.nil_append]
      exact ih hl ha fun b hb => h b (List.mem_cons_of_mem _ hb)

/-- The result of a stable sort: the members in an order that respects the keys, and among equal
keys the order that they had. -/
lemma insertionSort_eq {r : α → α → Prop} [DecidableRel r] [Std.Total r] [IsTrans α r]
    {l m : List α} (hm : m.Nodup) (hperm : l.Perm m)
    (hr : m.Pairwise fun a b => ¬ r b a ∨ (r a b ∧ [a, b].Sublist l)) :
    l.insertionSort r = m := by
  have hsorted := (List.perm_insertionSort r l).trans hperm
  have hnodup : (l.insertionSort r).Nodup := hsorted.nodup_iff.mpr hm
  refine List.Perm.eq_of_pairwise
    (fun a b _ _ (hab : [a, b].Sublist m) => pair_sublist_antisymm hm hab) ?_ ?_ hsorted
  · rw [List.pairwise_iff_forall_sublist]
    intro a b hab
    have hne : a ≠ b := by
      rintro rfl
      exact List.nodup_iff_sublist.mp hnodup a hab
    have ha : a ∈ m := hsorted.subset (hab.subset (by simp))
    have hb : b ∈ m := hsorted.subset (hab.subset (by simp))
    refine (pair_sublist_total ha hb hne).resolve_right fun hba => ?_
    have hle : r a b :=
      List.pairwise_iff_forall_sublist.mp (List.pairwise_insertionSort r l) hab
    rcases List.pairwise_iff_forall_sublist.mp hr hba with hnot | ⟨hle', hl⟩
    · exact hnot hle
    · exact hne (pair_sublist_antisymm hnodup hab (List.pair_sublist_insertionSort hle' hl))
  · exact List.pairwise_iff_forall_sublist.mpr fun h => h

lemma nodup_map_of_subperm {f : α → β} {l m : List α} (hsub : l.Subperm m)
    (hm : (m.map f).Nodup) : (l.map f).Nodup := by
  obtain ⟨k, hperm, hsub⟩ := hsub
  exact (hperm.map f).nodup_iff.mp ((hsub.map f).nodup hm)

/-- `ORDER BY key` -/
def sortByKey {κ : Type*} [LinearOrder κ] (key : α → κ) (l : List α) : List α :=
  l.insertionSort fun a b => key a ≤ key b

section SortByKey

variable {κ : Type*} [LinearOrder κ] {key : α → κ} {l m : List α}

lemma sortByKey_perm (key : α → κ) (l : List α) : (sortByKey key l).Perm l :=
  List.perm_insertionSort _ l

lemma pairwise_sortByKey (key : α → κ) (l : List α) :
    (sortByKey key l).Pairwise fun a b => key a ≤ key b := by
  have htotal : Std.Total fun a b : α => key a ≤ key b := ⟨fun a b => le_total _ _⟩
  have htrans : IsTrans α fun a b => key a ≤ key b := ⟨fun a b c => le_trans⟩
  exact List.pairwise_insertionSort _ l

/-- Rows with distinct keys are sorted in one way. -/
lemma sortByKey_congr (hnodup : (l.map key).Nodup) (hperm : l.Perm m) :
    sortByKey key l = sortByKey key m := by
  have hl := sortByKey_perm key l
  have hm := sortByKey_perm key m
  apply List.Perm.eq_of_pairwise ?_ (pairwise_sortByKey key l) (pairwise_sortByKey key m)
    ((hl.trans hperm).trans hm.symm)
  intro a b ha hb hab hba
  have hb : b ∈ l := hperm.symm.subset (hm.subset hb)
  exact List.inj_on_of_nodup_map hnodup (hl.subset ha) hb (le_antisymm hab hba)

end SortByKey

/-- A place in a concatenation is a place in one of its parts. -/
lemma exists_of_flatMap_eq {f : α → List β} {p q : List β} {b : β} (h : l.flatMap f = p ++ b :: q) :
    ∃ l₁ a l₂ p' q', l = l₁ ++ a :: l₂ ∧ f a = p' ++ b :: q' ∧
      p = l₁.flatMap f ++ p' ∧ q = q' ++ l₂.flatMap f := by
  induction l generalizing p with
  | nil => simp at h
  | cons a l ih =>
    rw [List.flatMap_cons] at h
    rcases List.append_eq_append_iff.mp h with ⟨x, rfl, hx⟩ | ⟨x, hx, hq⟩
    · obtain ⟨l₁, a', l₂, p', q', rfl, hf, rfl, rfl⟩ := ih hx
      exact ⟨a :: l₁, a', l₂, p', q', rfl, hf, by simp, rfl⟩
    · cases x with
      | nil =>
        obtain ⟨l₁, a', l₂, p', q', rfl, hf, hp, rfl⟩ := ih (p := []) hq.symm
        refine ⟨a :: l₁, a', l₂, p', q', rfl, hf, ?_, rfl⟩
        rw [List.flatMap_cons, List.append_assoc, ← hp, hx, List.append_nil, List.append_nil]
      | cons c x =>
        obtain ⟨rfl, rfl⟩ := List.cons.inj hq
        exact ⟨[], a, l, p, x, rfl, hx, by simp, rfl⟩

variable {f : α → Except ε β}

/-- Without an error, a map that may raise is a map. -/
lemma mapM_eq_ok {g : α → β} (h : ∀ a ∈ l, f a = .ok (g a)) : l.mapM f = .ok (l.map g) := by
  induction l with
  | nil => rfl
  | cons a l ih =>
    rw [List.mapM_cons, h a (by simp), ih fun b hb => h b (by simp [hb])]
    rfl

/-- What a map that may raise returns, item by item. -/
lemma mapM_eq_some_self {f : α → Option α} (h : ∀ a ∈ l, f a = some a) : l.mapM f = some l := by
  induction l with
  | nil => rfl
  | cons a l ih =>
    rw [List.mapM_cons, h a List.mem_cons_self, ih fun b hb => h b (List.mem_cons_of_mem a hb)]
    rfl

lemma forall₂_of_mapM {l' : List β} (h : l.mapM f = .ok l') :
    List.Forall₂ (fun a b => f a = .ok b) l l' := by
  induction l generalizing l' with
  | nil =>
    obtain rfl := Except.ok.inj h
    exact .nil
  | cons a l ih =>
    rw [List.mapM_cons] at h
    cases hb : f a with
    | error e =>
      rw [hb] at h
      cases h
    | ok b =>
      rw [hb] at h
      cases hrest : l.mapM f with
      | error e =>
        rw [hrest] at h
        cases h
      | ok rest =>
        rw [hrest] at h
        obtain rfl := Except.ok.inj h
        exact .cons hb (ih hrest)

/-- A map of steps that are checked one by one. -/
lemma mapM_eq_ok_iff {P : α → Prop} {g : α → β} (hf : ∀ a b, f a = .ok b ↔ P a ∧ b = g a)
    {l' : List β} : l.mapM f = .ok l' ↔ (∀ a ∈ l, P a) ∧ l' = l.map g := by
  constructor
  · intro h
    have hall := forall₂_of_mapM h
    clear h
    induction hall with
    | nil => simp
    | cons hhead _ ih =>
      obtain ⟨hP, rfl⟩ := (hf _ _).mp hhead
      simpa [hP] using ih
  · rintro ⟨hP, rfl⟩
    exact mapM_eq_ok fun a ha => (hf a _).mpr ⟨hP a ha, rfl⟩

/-- What stands opposite an item of the second list. -/
lemma exists_of_forall₂_right {R : α → β → Prop} {l' : List β} (h : List.Forall₂ R l l') {b : β}
    (hb : b ∈ l') : ∃ a ∈ l, R a b := by
  induction h with
  | nil => cases hb
  | cons hhead _ ih =>
    obtain rfl | hb := List.mem_cons.mp hb
    · exact ⟨_, List.mem_cons_self, hhead⟩
    · obtain ⟨a, ha, hab⟩ := ih hb
      exact ⟨a, List.mem_cons_of_mem _ ha, hab⟩

/-- The items of a list that was extended by one: the last one, and those of before. -/
lemma eq_append_cons_of_concat {xs done todo : List α} {x y : α}
    (h : xs ++ [x] = done ++ y :: todo) :
    (done = xs ∧ y = x ∧ todo = []) ∨ ∃ todo', xs = done ++ y :: todo' ∧ todo = todo' ++ [x] := by
  obtain rfl | ⟨todo', z, rfl⟩ := todo.eq_nil_or_concat
  · obtain ⟨hxs, hx⟩ := List.append_inj' h rfl
    exact .inl ⟨hxs.symm, (List.cons.inj hx).1.symm, rfl⟩
  · rw [List.concat_eq_append, ← List.cons_append, ← List.append_assoc] at h
    obtain ⟨hxs, hx⟩ := List.append_inj' h rfl
    obtain ⟨rfl, -⟩ := List.cons.inj hx
    exact .inr ⟨todo', hxs, List.concat_eq_append⟩

/-- What a joined list holds. -/
lemma mem_intercalate {sep : List α} {xss : List (List α)} {x : α}
    (h : x ∈ sep.intercalate xss) : x ∈ sep ∨ ∃ xs ∈ xss, x ∈ xs := by
  induction xss with
  | nil => cases h
  | cons xs xss ih =>
    cases xss with
    | nil => exact .inr ⟨xs, by simp, by simpa using h⟩
    | cons next xss =>
      rw [List.intercalate_cons_cons, List.append_assoc, List.mem_append, List.mem_append] at h
      rcases h with h | h | h
      · exact .inr ⟨xs, by simp, h⟩
      · exact .inl h
      · rcases ih h with h | ⟨other, hother, hx⟩
        · exact .inl h
        · exact .inr ⟨other, by simp [hother], hx⟩

end Codey
