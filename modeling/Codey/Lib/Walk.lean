import Mathlib.Algebra.BigOperators.Group.List.Basic
import Mathlib.Algebra.Order.Ring.Int
import Mathlib.Data.List.Induction

/-!
# Walks in a tree

A walk starts at a root and goes down to named children, up to the parent, or stays. It fails when
it climbs above the root. The names that lead to where it ends are those no later step climbs back
over.
-/

namespace Codey

inductive Move (α : Type) where
  | stay
  | up
  | down (name : α)

namespace Move

variable {α : Type}

/-- One step from the place that `st` leads to. -/
def apply (st : List α) : Move α → Option (List α)
  | .stay => some st
  | .up => if st = [] then none else some st.dropLast
  | .down n => some (st ++ [n])

/-- What a step adds to the depth. -/
def height : Move α → Int
  | .stay => 0
  | .up => -1
  | .down _ => 1

end Move

variable {α : Type} {st st' : List α} {ms ms' : List (Move α)} {s : α}

/-- Follow a walk from the place that `st` leads to. -/
def walk (st : List α) : List (Move α) → Option (List α)
  | [] => some st
  | m :: ms => (m.apply st).bind fun st => walk st ms

@[simp] lemma walk_nil (st : List α) : walk st [] = some st := rfl

@[simp] lemma walk_cons (st : List α) (m : Move α) (ms : List (Move α)) :
    walk st (m :: ms) = (m.apply st).bind fun st => walk st ms := rfl

lemma walk_append (st : List α) (ms ms' : List (Move α)) :
    walk st (ms ++ ms') = (walk st ms).bind fun st => walk st ms' := by
  induction ms generalizing st with
  | nil => rfl
  | cons m ms ih =>
    simp only [List.cons_append, walk_cons, Option.bind_assoc]
    congr
    funext st
    exact ih st

@[simp] lemma walk_downs (st names : List α) : walk st (names.map .down) = some (st ++ names) := by
  induction names generalizing st with
  | nil => simp
  | cons n names ih => simp [Move.apply, ih]

lemma Move.apply_frame {m : Move α} (pre : List α) (h : m.apply st = some st') :
    m.apply (pre ++ st) = some (pre ++ st') := by
  cases m with
  | stay => simpa [apply] using h
  | down n =>
    obtain rfl := Option.some.inj h
    simp [apply]
  | up =>
    have hne : st ≠ [] := by
      rintro rfl
      cases h
    obtain rfl : st.dropLast = st' := by simpa [apply, hne] using h
    simp [apply, hne, List.dropLast_append_of_ne_nil hne]

/-- A walk does the same further down. -/
lemma walk_frame (pre : List α) (h : walk st ms = some st') :
    walk (pre ++ st) ms = some (pre ++ st') := by
  induction ms generalizing st with
  | nil => simpa using h
  | cons m ms ih =>
    obtain ⟨mid, hmid, hrest⟩ := Option.bind_eq_some_iff.mp h
    rw [walk_cons, Move.apply_frame pre hmid]
    exact ih hrest

/-- Each name on the way to the end is gone down to, and the rest of the walk stays below it. -/
lemma walk_eq_append_cons {a b : List α} :
    walk [] ms = some (a ++ s :: b) ↔
      ∃ pre post, ms = pre ++ .down s :: post ∧ walk [] pre = some a ∧ walk [] post = some b := by
  constructor
  · intro h
    induction ms using List.reverseRecOn generalizing b with
    | nil => simp at h
    | append_singleton ms m ih =>
      rw [walk_append] at h
      obtain ⟨mid, hmid, hlast⟩ := Option.bind_eq_some_iff.mp h
      simp only [walk_cons, walk_nil, Option.bind_fun_some] at hlast
      cases m with
      | stay =>
        obtain rfl := Option.some.inj hlast
        obtain ⟨pre, post, rfl, hpre, hpost⟩ := ih hmid
        exact ⟨pre, post ++ [.stay], by simp, hpre, by simp [walk_append, hpost, Move.apply]⟩
      | down n =>
        have hends : mid ++ [n] = a ++ s :: b := Option.some.inj hlast
        rcases List.eq_nil_or_concat b with rfl | ⟨b, last, rfl⟩
        · obtain ⟨rfl, hn⟩ := List.append_inj' hends rfl
          obtain rfl := (List.cons.inj hn).1
          exact ⟨ms, [], rfl, hmid, rfl⟩
        · rw [List.concat_eq_append, ← List.cons_append, ← List.append_assoc] at hends
          obtain ⟨rfl, hn⟩ := List.append_inj' hends rfl
          obtain rfl := (List.cons.inj hn).1
          obtain ⟨pre, post, rfl, hpre, hpost⟩ := ih hmid
          exact ⟨pre, post ++ [.down n], by simp, hpre, by simp [walk_append, hpost, Move.apply]⟩
      | up =>
        have hne : mid ≠ [] := by
          rintro rfl
          cases hlast
        obtain ⟨init, last, rfl⟩ := (List.eq_nil_or_concat mid).resolve_left hne
        obtain rfl : init = a ++ s :: b := by simpa [Move.apply] using hlast
        rw [List.concat_eq_append, List.append_assoc, List.cons_append] at hmid
        obtain ⟨pre, post, rfl, hpre, hpost⟩ := ih hmid
        exact ⟨pre, post ++ [.up], by simp, hpre, by simp [walk_append, hpost, Move.apply]⟩
  · rintro ⟨pre, post, rfl, hpre, hpost⟩
    rw [walk_append, hpre]
    have := walk_frame (a ++ [s]) hpost
    simpa [Move.apply] using this

/-! ### Depth -/

/-- How far below its start a walk ends. -/
def rise (ms : List (Move α)) : Int := (ms.map Move.height).sum

@[simp] lemma rise_nil : rise ([] : List (Move α)) = 0 := rfl

/-- The walk never climbs above its start. -/
def Above (ms : List (Move α)) : Prop := ∀ pre post, ms = pre ++ post → 0 ≤ rise pre

/-- The walk leads back to its start and never climbs above it. -/
def Cancels (ms : List (Move α)) : Prop := Above ms ∧ rise ms = 0

lemma rise_of_walk (h : walk st ms = some st') : (st.length : Int) + rise ms = st'.length := by
  induction ms generalizing st with
  | nil =>
    obtain rfl := Option.some.inj h
    simp
  | cons m ms ih =>
    obtain ⟨mid, hmid, hrest⟩ := Option.bind_eq_some_iff.mp h
    have hrise := ih hrest
    have hstep : (st.length : Int) + m.height = mid.length := by
      cases m with
      | stay =>
        obtain rfl := Option.some.inj hmid
        simp [Move.height]
      | down n =>
        obtain rfl := Option.some.inj hmid
        simp [Move.height]
      | up =>
        have hne : st ≠ [] := by
          rintro rfl
          cases hmid
        obtain rfl : st.dropLast = mid := by simpa [Move.apply, hne] using hmid
        have := List.length_pos_of_ne_nil hne
        rw [List.length_dropLast, Move.height]
        omega
    have hcons : rise (m :: ms) = m.height + rise ms := by simp [rise]
    omega

/-- A walk succeeds when it never climbs above the root. -/
lemma walk_isSome_iff : (walk [] ms).isSome ↔ Above ms := by
  constructor
  · rintro h pre post rfl
    rw [walk_append] at h
    obtain ⟨st, hst⟩ := Option.isSome_iff_exists.mp (Option.isSome_of_isSome_bind h)
    have := rise_of_walk hst
    simp only [List.length_nil] at this
    omega
  · intro h
    induction ms using List.reverseRecOn with
    | nil => rfl
    | append_singleton ms m ih =>
      have hms : Above ms := by
        rintro pre post rfl
        exact h pre (post ++ [m]) (by simp)
      obtain ⟨st, hst⟩ := Option.isSome_iff_exists.mp (ih hms)
      have hlen := rise_of_walk hst
      have hall := h (ms ++ [m]) [] (by simp)
      rw [walk_append, hst]
      cases m with
      | stay => rfl
      | down n => rfl
      | up =>
        have hne : st ≠ [] := by
          rintro rfl
          simp [rise, Move.height] at hall hlen
          omega
        simp [Move.apply, hne]

lemma walk_eq_nil_iff : walk [] ms = some [] ↔ Cancels ms := by
  constructor
  · intro h
    have := rise_of_walk h
    exact ⟨walk_isSome_iff.mp (by rw [h]; rfl), by simpa using this⟩
  · rintro ⟨habove, hrise⟩
    obtain ⟨st, hst⟩ := Option.isSome_iff_exists.mp (walk_isSome_iff.mpr habove)
    have hlen := rise_of_walk hst
    rw [hrise] at hlen
    obtain rfl : st = [] := List.length_eq_zero_iff.mp (by simpa using hlen.symm)
    exact hst

/-- The first name that the walk does not climb back over. -/
def Opens (s : α) (ms : List (Move α)) : Prop :=
  ∃ pre post, ms = pre ++ .down s :: post ∧ Cancels pre ∧ Above post

/-- The last name that the walk does not climb back over. -/
def Closes (s : α) (ms : List (Move α)) : Prop :=
  ∃ pre post, ms = pre ++ .down s :: post ∧ Above pre ∧ Cancels post

lemma opens_iff (h : walk [] ms = some st) : Opens s ms ↔ st.head? = some s := by
  constructor
  · rintro ⟨pre, post, hms, hpre, hpost⟩
    obtain ⟨b, hb⟩ := Option.isSome_iff_exists.mp (walk_isSome_iff.mpr hpost)
    have hwalk := walk_eq_append_cons.mpr ⟨pre, post, hms, walk_eq_nil_iff.mpr hpre, hb⟩
    rw [h] at hwalk
    rw [Option.some.inj hwalk]
    rfl
  · intro hhead
    obtain ⟨b, rfl⟩ : ∃ b, st = s :: b := by
      cases st with
      | nil => cases hhead
      | cons x b => exact ⟨b, by simpa using hhead⟩
    obtain ⟨pre, post, hms, hpre, hpost⟩ := walk_eq_append_cons.mp
      (show walk [] ms = some ([] ++ s :: b) from h)
    exact ⟨pre, post, hms, walk_eq_nil_iff.mp hpre, walk_isSome_iff.mp (by rw [hpost]; rfl)⟩

lemma closes_iff (h : walk [] ms = some st) : Closes s ms ↔ st.getLast? = some s := by
  constructor
  · rintro ⟨pre, post, hms, hpre, hpost⟩
    obtain ⟨a, ha⟩ := Option.isSome_iff_exists.mp (walk_isSome_iff.mpr hpre)
    have hwalk := walk_eq_append_cons.mpr ⟨pre, post, hms, ha, walk_eq_nil_iff.mpr hpost⟩
    rw [h] at hwalk
    rw [Option.some.inj hwalk]
    simp
  · intro hlast
    obtain ⟨a, rfl⟩ := List.getLast?_eq_some_iff.mp hlast
    obtain ⟨pre, post, hms, hpre, hpost⟩ := walk_eq_append_cons.mp h
    exact ⟨pre, post, hms, walk_isSome_iff.mp (by rw [hpre]; rfl), walk_eq_nil_iff.mp hpost⟩

/-! ### Names -/

/-- The names that a walk goes down to. -/
def downs : List (Move α) → List α
  | [] => []
  | .down n :: ms => n :: downs ms
  | .stay :: ms | .up :: ms => downs ms

/-- Where a walk ends is named by some of the names it goes down to, in their order. -/
lemma walk_sublist (h : walk st ms = some st') : st'.Sublist (st ++ downs ms) := by
  induction ms generalizing st with
  | nil =>
    obtain rfl := Option.some.inj h
    simp [downs]
  | cons m ms ih =>
    obtain ⟨mid, hmid, hrest⟩ := Option.bind_eq_some_iff.mp h
    have hmid' := ih hrest
    cases m with
    | stay =>
      obtain rfl := Option.some.inj hmid
      exact hmid'
    | down n =>
      obtain rfl := Option.some.inj hmid
      simpa [downs] using hmid'
    | up =>
      have hne : st ≠ [] := by
        rintro rfl
        cases hmid
      obtain rfl : st.dropLast = mid := by simpa [Move.apply, hne] using hmid
      exact hmid'.trans (List.Sublist.append_right (List.dropLast_sublist st) _)

end Codey
