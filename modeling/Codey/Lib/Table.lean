import Mathlib.Data.List.Nodup
import Mathlib.Data.List.Lookmap

/-!
# Keyed tables

A table keeps rows in insertion order, at most one row of each key. It is at once a relation with
a primary key, read in the order of its row numbers, and an insertion-ordered dictionary: writing
a row whose key is present replaces that row in place, writing a new key appends.
-/

namespace Codey

/-- Rows in insertion order, with distinct keys. -/
structure Table {κ ν : Type} (key : ν → κ) where
  rows : List ν
  nodup : (rows.map key).Nodup

namespace Table

variable {κ ν : Type} {key : ν → κ}

@[ext] lemma ext {s t : Table key} (h : s.rows = t.rows) : s = t := by
  cases s; cases t; congr

/-- The table without rows. -/
def empty : Table key := ⟨[], List.nodup_nil⟩

/-- Keep the rows that satisfy `p`. -/
def filter (t : Table key) (p : ν → Bool) : Table key :=
  ⟨t.rows.filter p, (List.filter_sublist.map key).nodup t.nodup⟩

@[simp] lemma rows_empty : (empty : Table key).rows = [] := rfl

@[simp] lemma rows_filter (t : Table key) (p : ν → Bool) :
    (t.filter p).rows = t.rows.filter p := rfl

variable [DecidableEq κ]

/-- The row of a key. -/
def get? (t : Table key) (k : κ) : Option ν := t.rows.find? (key · = k)

/-- Replace the row with the key of `v`, or append `v`. -/
def putRows (key : ν → κ) (v : ν) : List ν → List ν
  | [] => [v]
  | w :: ws => if key w = key v then v :: ws else w :: putRows key v ws

lemma map_key_putRows (v : ν) (ws : List ν) :
    (putRows key v ws).map key =
      if key v ∈ ws.map key then ws.map key else ws.map key ++ [key v] := by
  induction ws with
  | nil => simp [putRows]
  | cons w ws ih =>
    by_cases hw : key w = key v
    · simp [putRows, hw]
    · have hv : key v ≠ key w := fun h => hw h.symm
      simp only [putRows, hw, if_false, List.map_cons, ih, List.mem_cons, hv, false_or]
      split_ifs <;> rfl

lemma nodup_putRows (v : ν) {ws : List ν} (h : (ws.map key).Nodup) :
    ((putRows key v ws).map key).Nodup := by
  rw [map_key_putRows]
  split_ifs with hv
  · exact h
  · rw [List.nodup_append]
    refine ⟨h, List.nodup_singleton _, fun a ha b hb => ?_⟩
    rw [List.mem_singleton] at hb
    rintro rfl
    exact hv (hb ▸ ha)

/-- Write a row: `INSERT ... ON CONFLICT DO UPDATE`, `rows[key] = row`. -/
def put (t : Table key) (v : ν) : Table key := ⟨putRows key v t.rows, nodup_putRows v t.nodup⟩

@[simp] lemma get?_empty (k : κ) : (empty : Table key).get? k = none := rfl

variable {t : Table key} {v : ν} {k : κ}

/-- A row is stored under its own key. -/
lemma key_of_get? (h : t.get? k = some v) : key v = k := by
  simpa using List.find?_some h

lemma mem_of_get? (h : t.get? k = some v) : v ∈ t.rows :=
  List.mem_of_find?_eq_some h

lemma find?_eq_some_of_mem {ws : List ν} (h : (ws.map key).Nodup) {v : ν} (hv : v ∈ ws) :
    ws.find? (key · = key v) = some v := by
  induction ws with
  | nil => simp at hv
  | cons w ws ih =>
    simp only [List.map_cons, List.nodup_cons, List.mem_map, not_exists, not_and] at h
    rcases List.mem_cons.mp hv with rfl | hv'
    · simp
    · have hne : key w ≠ key v := fun hw => h.1 v hv' hw.symm
      simp [hne, ih h.2 hv']

/-- The rows of a table are exactly what its lookups return. -/
lemma mem_rows_iff : v ∈ t.rows ↔ t.get? (key v) = some v :=
  ⟨find?_eq_some_of_mem t.nodup, mem_of_get?⟩

lemma get?_eq_none_iff : t.get? k = none ↔ ∀ v ∈ t.rows, key v ≠ k := by
  simp [get?]

lemma find?_putRows (v : ν) (ws : List ν) (k : κ) :
    (putRows key v ws).find? (key · = k) =
      if key v = k then some v else ws.find? (key · = k) := by
  induction ws with
  | nil => by_cases hk : key v = k <;> simp [putRows, hk]
  | cons w ws ih =>
    by_cases hw : key w = key v
    · by_cases hk : key v = k <;> simp [putRows, hw, hk]
    · by_cases hk : key v = k
      · have hwk : key w ≠ k := fun h => hw (h.trans hk.symm)
        simp only [putRows, if_false, List.find?_cons, hwk, decide_false, ih, hk]
      · simp only [putRows, hw, if_false, List.find?_cons, ih, hk]

@[simp] lemma get?_put (t : Table key) (v : ν) (k : κ) :
    (t.put v).get? k = if key v = k then some v else t.get? k :=
  find?_putRows v t.rows k

lemma get?_put_self (t : Table key) (v : ν) : (t.put v).get? (key v) = some v := by simp

lemma get?_put_of_ne (t : Table key) (h : key v ≠ k) : (t.put v).get? k = t.get? k := by simp [h]

lemma mem_put_iff {v w : ν} : w ∈ (t.put v).rows ↔ w = v ∨ (w ∈ t.rows ∧ key v ≠ key w) := by
  rw [mem_rows_iff, get?_put]
  split_ifs with h
  · constructor
    · intro hw
      exact Or.inl (Option.some.inj hw).symm
    · rintro (rfl | ⟨-, hne⟩)
      · rfl
      · exact absurd h hne
  · rw [← mem_rows_iff]
    constructor
    · exact fun hw => Or.inr ⟨hw, h⟩
    · rintro (rfl | ⟨hw, -⟩)
      · exact absurd rfl h
      · exact hw

/-- The dictionary of some rows. -/
def ofRows (rows : List ν) : Table key := rows.foldl put empty

/-- Tables with the same rows have the same rows after a write. -/
lemma mem_foldl_put_congr {s t : Table key} (hsame : ∀ v, v ∈ s.rows ↔ v ∈ t.rows) (vs : List ν)
    (v : ν) : v ∈ (vs.foldl put s).rows ↔ v ∈ (vs.foldl put t).rows := by
  induction vs generalizing s t with
  | nil => exact hsame v
  | cons w vs ih =>
    apply ih
    intro v
    rw [mem_put_iff, mem_put_iff, hsame v]

variable {vs : List ν}

lemma mem_of_mem_foldl_put (hv : v ∈ (vs.foldl put t).rows) : v ∈ vs ∨ v ∈ t.rows := by
  induction vs generalizing t with
  | nil => exact Or.inr hv
  | cons w vs ih =>
    obtain hv | hv := ih hv
    · exact Or.inl (List.mem_cons_of_mem w hv)
    · obtain rfl | ⟨hv, -⟩ := mem_put_iff.mp hv
      · exact Or.inl List.mem_cons_self
      · exact Or.inr hv

/-- Writes of distinct keys into a structure of any kind: what it says under a key is what the write
of that key said, if there is one. -/
lemma has_foldl {β : Type} {put : β → ν → β} {p : β → Prop} {q : ν → Prop}
    (hput : ∀ b v, p (put b v) ↔ if key v = k then q v else p b) (hvs : (vs.map key).Nodup)
    (b : β) : p (vs.foldl put b) ↔ (vs.find? (key · = k)).elim (p b) q := by
  induction vs generalizing b with
  | nil => simp
  | cons v vs ih =>
    simp only [List.map_cons, List.nodup_cons] at hvs
    rw [List.foldl_cons, ih hvs.2, List.find?_cons]
    by_cases hk : key v = k
    · have hnone : vs.find? (key · = k) = none := by
        simp only [List.find?_eq_none, decide_eq_true_eq]
        exact fun w hw heq => hvs.1 (hk ▸ heq ▸ List.mem_map_of_mem hw)
      simp [hnone, hput, hk]
    · cases hfind : vs.find? (key · = k) <;> simp [hput, hk]

/-- Writing rows with distinct keys: each is found under its key, other keys keep their rows. -/
lemma get?_foldl_put (hvs : (vs.map key).Nodup) (t : Table key) (k : κ) :
    (vs.foldl put t).get? k = (vs.find? (key · = k)).or (t.get? k) := by
  refine Option.ext fun v => ?_
  rw [has_foldl (k := k) (p := fun t : Table key => t.get? k = some v) (q := (· = v))
    (fun t w => by by_cases h : key w = k <;> simp [h]) hvs]
  cases vs.find? (key · = k) <;> simp

lemma mem_ofRows {rows : List ν} (hrows : (rows.map key).Nodup) (v : ν) :
    v ∈ (ofRows rows : Table key).rows ↔ v ∈ rows := by
  rw [mem_rows_iff, ofRows, get?_foldl_put hrows, get?_empty, Option.or_none]
  exact ⟨List.mem_of_find?_eq_some, find?_eq_some_of_mem hrows⟩

/-- Tables with the same rows find the same rows, in whatever order they are kept. -/
lemma get?_congr {s t : Table key} (hsame : ∀ v, v ∈ s.rows ↔ v ∈ t.rows) (k : κ) :
    s.get? k = t.get? k := by
  apply Option.ext
  intro v
  constructor
  · intro hv
    obtain rfl := key_of_get? hv
    exact mem_rows_iff.mp ((hsame v).mp (mem_of_get? hv))
  · intro hv
    obtain rfl := key_of_get? hv
    exact mem_rows_iff.mp ((hsame v).mpr (mem_of_get? hv))

/-- A written row is found. -/
lemma get?_foldl_put_of_mem (hvs : (vs.map key).Nodup) (t : Table key) (hv : v ∈ vs) :
    (vs.foldl put t).get? (key v) = some v := by
  rw [get?_foldl_put hvs, find?_eq_some_of_mem hvs hv, Option.some_or]

/-- A key that is not written keeps its row. -/
lemma get?_foldl_put_of_notMem (hvs : (vs.map key).Nodup) (t : Table key)
    (hk : ∀ v ∈ vs, key v ≠ k) : (vs.foldl put t).get? k = t.get? k := by
  have hnone : vs.find? (key · = k) = none := by
    simpa only [List.find?_eq_none, decide_eq_true_eq] using hk
  rw [get?_foldl_put hvs, hnone, Option.none_or]

/-- A row that is found is a written one, or it is the one that was there. -/
lemma get?_foldl_put_cases (hvs : (vs.map key).Nodup) (t : Table key) (k : κ) :
    (∃ v ∈ vs, key v = k ∧ (vs.foldl put t).get? k = some v) ∨
      (∀ v ∈ vs, key v ≠ k) ∧ (vs.foldl put t).get? k = t.get? k := by
  by_cases hex : ∃ v ∈ vs, key v = k
  · obtain ⟨v, hv, rfl⟩ := hex
    exact Or.inl ⟨v, hv, rfl, get?_foldl_put_of_mem hvs t hv⟩
  · have hne : ∀ v ∈ vs, key v ≠ k := fun v hv heq => hex ⟨v, hv, heq⟩
    exact Or.inr ⟨hne, get?_foldl_put_of_notMem hvs t hne⟩

@[simp] lemma get?_filter (t : Table key) (p : ν → Bool) (k : κ) :
    (t.filter p).get? k = (t.get? k).filter p := by
  cases h : t.get? k with
  | none =>
    rw [get?_eq_none_iff] at h
    rw [Option.filter_none, get?_eq_none_iff]
    exact fun v hv => h v (List.mem_filter.mp hv).1
  | some v =>
    obtain rfl := key_of_get? h
    by_cases hp : p v
    · rw [Option.filter_some_pos hp, ← mem_rows_iff, rows_filter, List.mem_filter]
      exact ⟨mem_of_get? h, hp⟩
    · rw [Option.filter_some_neg (by simpa using hp), get?_eq_none_iff]
      intro w hw hkey
      obtain ⟨hwt, hpw⟩ := List.mem_filter.mp hw
      have hvw : t.get? (key v) = some w := hkey ▸ mem_rows_iff.mp hwt
      rw [h] at hvw
      exact hp ((Option.some.inj hvw) ▸ hpw)

/-- Filtering does not touch a row that is kept. -/
lemma get?_filter_of_kept {p : ν → Bool} (h : ∀ v, t.get? k = some v → p v = true) :
    (t.filter p).get? k = t.get? k := by
  rw [get?_filter]
  cases hv : t.get? k with
  | none => rfl
  | some v => exact Option.filter_some_pos (h v hv)

/-- A row whose key is not present is appended. -/
lemma rows_put_of_none (h : t.get? (key v) = none) : (t.put v).rows = t.rows ++ [v] := by
  have happend : ∀ ws : List ν, (∀ w ∈ ws, key w ≠ key v) → putRows key v ws = ws ++ [v] := by
    intro ws hws
    induction ws with
    | nil => rfl
    | cons w ws ih => simp [putRows, hws w (by simp), ih fun x hx => hws x (by simp [hx])]
  exact happend t.rows (get?_eq_none_iff.mp h)

/-- Replacing a row keeps the keys and their order. -/
lemma map_key_put_of_some {v w : ν} (h : t.get? (key v) = some w) :
    (t.put v).rows.map key = t.rows.map key := by
  have hmem : key v ∈ t.rows.map key := List.mem_map.mpr ⟨w, mem_of_get? h, key_of_get? h⟩
  exact (map_key_putRows v t.rows).trans (if_pos hmem)

/-- Of two writes of one key the last one counts. -/
lemma put_put {v w : ν} (h : key v = key w) : (t.put v).put w = t.put w := by
  have hrows : ∀ ws : List ν, putRows key w (putRows key v ws) = putRows key w ws := by
    intro ws
    induction ws with
    | nil => simp [putRows, h]
    | cons x ws ih =>
      by_cases hx : key x = key w
      · simp [putRows, h, hx]
      · simp [putRows, h, hx, ih]
  exact ext (hrows t.rows)

/-- Replacing a row changes a count by that row only. -/
lemma countP_put_of_some {v w : ν} (h : t.get? (key v) = some w) (p : ν → Bool) :
    (t.put v).rows.countP p + (if p w then 1 else 0) =
      t.rows.countP p + (if p v then 1 else 0) := by
  have hcount : ∀ ws : List ν, ws.find? (key · = key v) = some w →
      (putRows key v ws).countP p + (if p w then 1 else 0) =
        ws.countP p + (if p v then 1 else 0) := by
    intro ws hws
    induction ws with
    | nil => cases hws
    | cons x ws ih =>
      by_cases hx : key x = key v
      · obtain rfl : x = w := by simpa [hx] using hws
        simp only [putRows, hx, if_true, List.countP_cons]
        omega
      · have ih := ih (by simpa [hx] using hws)
        simp only [putRows, hx, if_false, List.countP_cons]
        omega
  exact hcount t.rows h

end Table

end Codey
