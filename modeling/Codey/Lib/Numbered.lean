import Mathlib.Data.List.Basic
import Mathlib.Data.List.Nodup
import Mathlib.Data.List.Range

/-!
# Numbered logs

A log numbers its entries from one. A bounded buffer keeps the last of them.
-/

namespace Codey

variable {α : Type}

/-- The entries of a log carry the numbers from one on. -/
def Numbered (l : List (Nat × α)) : Prop := l.map Prod.fst = List.range' 1 l.length

/-- A buffer of bounded length. -/
def keepLast (limit : Nat) (l : List α) : List α := l.drop (l.length - limit)

lemma keepLast_sublist (limit : Nat) (l : List α) : (keepLast limit l).Sublist l :=
  List.drop_sublist _ _

lemma length_keepLast_le (limit : Nat) (l : List α) : (keepLast limit l).length ≤ limit := by
  rw [keepLast, List.length_drop]
  omega

lemma keepLast_of_length_le {limit : Nat} {l : List α} (hlen : l.length ≤ limit) :
    keepLast limit l = l := by
  rw [keepLast, Nat.sub_eq_zero_of_le hlen, List.drop_zero]

lemma keepLast_eq_nil_iff {limit : Nat} (hlimit : 0 < limit) {l : List α} :
    keepLast limit l = [] ↔ l = [] := by
  rw [keepLast, List.drop_eq_nil_iff, ← List.length_eq_zero_iff]
  omega

lemma keepLast_snoc (limit : Nat) (l : List α) (a : α) :
    keepLast limit (keepLast limit l ++ [a]) = keepLast limit (l ++ [a]) := by
  rw [keepLast, keepLast, keepLast, List.length_append, List.length_drop, List.length_append,
    List.length_singleton]
  rcases Nat.le_total l.length limit with h | h
  · rw [Nat.sub_eq_zero_of_le h, List.drop_zero, Nat.sub_zero]
  · rw [← List.drop_append_of_le_length (Nat.sub_le _ _), List.drop_drop]
    congr 1
    omega

namespace Numbered

variable {l pre suf : List (Nat × α)} {k : Nat} {a b : α}

@[simp] lemma nil : Numbered ([] : List (Nat × α)) := rfl

lemma snoc (h : Numbered l) (a : α) : Numbered (l ++ [(l.length + 1, a)]) := by
  unfold Numbered at h ⊢
  rw [List.map_append, h, List.length_append, List.length_singleton, List.range'_concat]
  simp [Nat.add_comm]

lemma bounds (h : Numbered l) (hk : (k, a) ∈ l) : 1 ≤ k ∧ k ≤ l.length := by
  have hmem : k ∈ l.map Prod.fst := List.mem_map_of_mem hk
  rw [h, List.mem_range'_1] at hmem
  omega

lemma pairwise (h : Numbered l) : l.Pairwise fun x y => x.1 < y.1 := by
  have hsorted : (l.map Prod.fst).Pairwise (· < ·) := h ▸ List.pairwise_lt_range'
  exact List.pairwise_map.mp hsorted

lemma unique (h : Numbered l) (ha : (k, a) ∈ l) (hb : (k, b) ∈ l) : a = b := by
  have hinj : (l.map Prod.fst).Nodup := h ▸ List.nodup_range'
  exact (Prod.ext_iff.mp (List.inj_on_of_nodup_map hinj ha hb rfl)).2

lemma left (h : Numbered (pre ++ suf)) : Numbered pre := by
  unfold Numbered at h ⊢
  rw [List.map_append, List.length_append, ← List.range'_append_1] at h
  exact (List.append_inj h (by simp)).1

/-- The numbers of a suffix are past the length of what is before it. -/
lemma right (h : Numbered (pre ++ suf)) (hk : (k, a) ∈ suf) : pre.length < k := by
  unfold Numbered at h
  rw [List.map_append, List.length_append, ← List.range'_append_1] at h
  have hsuf := (List.append_inj h (by simp)).2
  have hmem : k ∈ suf.map Prod.fst := List.mem_map_of_mem hk
  rw [hsuf, List.mem_range'_1] at hmem
  omega

/-- The buffer keeps every entry from its first one on. -/
lemma mem_keepLast (h : Numbered l) {limit : Nat} {first : Nat × α} {rest : List (Nat × α)}
    (hfirst : keepLast limit l = first :: rest) (hk : (k, a) ∈ l) (hle : first.1 ≤ k) :
    (k, a) ∈ keepLast limit l := by
  rw [keepLast] at hfirst ⊢
  rw [← List.take_append_drop (l.length - limit) l] at h hk
  refine (List.mem_append.mp hk).resolve_left fun htake => ?_
  have hbefore := (left h).bounds htake
  have hafter := right h (k := first.1) (a := first.2) (by rw [hfirst]; exact List.mem_cons_self)
  omega

end Numbered

/-! ### Ranges of numbers -/

/-- What a range holds past a number. -/
lemma filter_lt_range' {b b' n : Nat} (hb : b ≤ b') :
    (List.range' (b + 1) (n - b)).filter (fun c => decide (b' < c)) =
      List.range' (b' + 1) (n - b') := by
  rcases Nat.le_total b' n with hn | hn
  · have hsplit : List.range' (b + 1) (n - b) =
        List.range' (b + 1) (b' - b) ++ List.range' (b' + 1) (n - b') := by
      have happend := List.range'_append_1 (s := b + 1) (m := b' - b) (n := n - b')
      rw [show b + 1 + (b' - b) = b' + 1 by omega, show b' - b + (n - b') = n - b by omega]
        at happend
      exact happend.symm
    rw [hsplit, List.filter_append, List.filter_eq_nil_iff.mpr, List.nil_append,
      List.filter_eq_self.mpr]
    · intro c hc
      rw [List.mem_range'_1] at hc
      simp only [decide_eq_true_eq]
      omega
    · intro c hc
      rw [List.mem_range'_1] at hc
      simp only [decide_eq_true_eq]
      omega
  · rw [Nat.sub_eq_zero_of_le hn, List.range'_zero, List.filter_eq_nil_iff]
    intro c hc
    rw [List.mem_range'_1] at hc
    simp only [decide_eq_true_eq]
    omega

/-- The numbers of a queue past a bound are all those up to another, in order. -/
def Queued (l : List Nat) (bound n : Nat) : Prop :=
  l.filter (fun c => decide (bound < c)) = List.range' (bound + 1) (n - bound)

namespace Queued

variable {l l' : List Nat} {b b' c n : Nat}

/-- A queue that holds past a bound what it should holds past a greater bound what it should. -/
lemma raise (h : Queued l b n) (hb : b ≤ b') : Queued l b' n := by
  unfold Queued at h ⊢
  rw [← filter_lt_range' hb, ← h, List.filter_filter]
  refine List.filter_congr fun c _ => ?_
  by_cases hc : b' < c
  · simp [hc, Nat.lt_of_le_of_lt hb hc]
  · simp [hc]

lemma of_forall_le (h : ∀ c ∈ l, c ≤ n) : Queued l n n := by
  unfold Queued
  rw [Nat.sub_self, List.range'_zero, List.filter_eq_nil_iff]
  intro c hc
  simpa using h c hc

lemma of_range' (h : l = List.range' 1 n) : Queued l 0 n := by
  unfold Queued
  rw [h, List.filter_eq_self.mpr]
  · rfl
  · intro c hc
    rw [List.mem_range'_1] at hc
    simpa [Nat.one_le_iff_ne_zero, Nat.pos_iff_ne_zero] using hc.1

/-- A number within the bound may enter the queue. -/
lemma insert (h : Queued (l ++ l') b n) (hc : c ≤ b) : Queued (l ++ [c] ++ l') b n := by
  unfold Queued at h ⊢
  rw [← h, List.filter_append, List.filter_append, List.filter_append, List.filter_cons,
    if_neg (by simpa using hc), List.filter_nil, List.append_nil]

lemma push (h : Queued l b n) (hb : b ≤ n) : Queued (l ++ [n + 1]) b (n + 1) := by
  unfold Queued at h ⊢
  have hlast : [n + 1].filter (fun c => decide (b < c)) = [n + 1] := by
    simpa using Nat.lt_succ_of_le hb
  rw [List.filter_append, h, hlast, Nat.succ_sub hb, List.range'_concat]
  congr 2
  omega

/-- A number within the bound may leave the queue. -/
lemma skip (h : Queued (c :: l) b n) (hc : c ≤ b) : Queued l b n := by
  unfold Queued at h ⊢
  rwa [List.filter_cons, if_neg (by simpa using hc)] at h

/-- The first number past the bound is the next one. -/
lemma head (h : Queued (c :: l) b n) (hc : b < c) : c = b + 1 ∧ c ≤ n ∧ Queued l c n := by
  have hnext : c = b + 1 ∧ c ≤ n := by
    unfold Queued at h
    rw [List.filter_cons, if_pos (by simpa using hc)] at h
    cases hlen : n - b with
    | zero => simp [hlen] at h
    | succ m =>
      rw [hlen, List.range'_succ] at h
      have := (List.cons.inj h).1
      omega
  exact ⟨hnext.1, hnext.2, (h.raise (Nat.le_of_lt hc)).skip (Nat.le_refl c)⟩

/-- Every number past the bound and up to `n` is in the queue. -/
lemma mem (h : Queued l b n) (hb : b < c) (hn : c ≤ n) : c ∈ l := by
  have hc : c ∈ List.range' (b + 1) (n - b) := by
    rw [List.mem_range'_1]
    omega
  rw [← h] at hc
  exact List.mem_of_mem_filter hc

/-- A number may go from the second part of the queue to the end of the first, when those of the
second part before it are within the bound. -/
lemma move (h : Queued (l ++ l') b n) (hsorted : l'.Pairwise (· < ·)) (hc : c ∈ l')
    (hbefore : ∀ d ∈ l', d < c → d ≤ b) :
    Queued (l ++ [c] ++ l'.filter (fun d => decide (d ≠ c))) b n := by
  obtain ⟨l₁, l₂, rfl⟩ := List.append_of_mem hc
  rw [List.pairwise_append, List.pairwise_cons] at hsorted
  have hfirst : ∀ d ∈ l₁, d ≤ b := fun d hd =>
    hbefore d (List.mem_append_left _ hd) (hsorted.2.2 d hd c List.mem_cons_self)
  have hnil : l₁.filter (fun d => decide (b < d)) = [] := by
    rw [List.filter_eq_nil_iff]
    intro d hd
    simpa using hfirst d hd
  have hne₁ : l₁.filter (fun d => decide (d ≠ c)) = l₁ := by
    rw [List.filter_eq_self]
    intro d hd
    simpa using Nat.ne_of_lt (hsorted.2.2 d hd c List.mem_cons_self)
  have hne₂ : l₂.filter (fun d => decide (d ≠ c)) = l₂ := by
    rw [List.filter_eq_self]
    intro d hd
    simpa using Nat.ne_of_gt (hsorted.2.1.1 d hd)
  unfold Queued at h ⊢
  rw [← h, List.filter_append (p := fun d => decide (d ≠ c)), List.filter_cons, if_neg (by simp),
    hne₁, hne₂]
  simp only [List.filter_append, hnil, List.nil_append, List.filter_cons, List.filter_nil,
    List.append_assoc]
  split <;> simp

end Queued

end Codey
