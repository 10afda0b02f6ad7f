import Codey.Lib.PosixPath
import Codey.Toolchain.ToolArgsRepair
import Mathlib.Algebra.Order.BigOperators.Group.List
import Mathlib.Algebra.Order.Group.Nat

/-!
# Repaired paths

A path that the normalizer returns names its segments once each, none of them empty, `.` or `..`.
It is a fixed point of the normalizer unless the folding has exposed a blank at one of its ends or
a drive in front.
-/

namespace Codey

namespace Toolchain

variable {cs : List Char} {st : List (List Char)} {raw p : String} {changed : Bool}

/-! ### What is accepted -/

/-- The walk of a path as a model has sent it. -/
def rawMoves (raw : String) : List (Move (List Char)) :=
  pathMoves (forwardSlashes (strip raw.toList))

lemma normalizePath_str_eq_ok :
    normalizePath (.str raw) = .ok (p, changed) ↔
      (strip raw.toList ≠ [] ∧ isDrivePath (strip raw.toList) = false ∧
        ¬ ['/'] <+: forwardSlashes (strip raw.toList)) ∧
      ∃ st, walk [] (rawMoves raw) = some st ∧ p = String.ofList (joinSegments st) ∧
        changed = decide (p ≠ raw) := by
  have hunc : ['/', '/'] <+: forwardSlashes (strip raw.toList) →
      ['/'] <+: forwardSlashes (strip raw.toList) := (List.prefix_append ['/'] ['/']).trans
  simp only [normalizePath, rawMoves]
  split_ifs with hblank hdrive hdouble hslash
  · simp [hblank, reject]
  · simp [hdrive, reject]
  · simp [hunc hdouble, reject]
  · simp [hslash, reject]
  · cases walk [] (pathMoves (forwardSlashes (strip raw.toList))) with
    | none => simp [reject]
    | some st =>
      simp only [Except.ok.injEq, Prod.mk.injEq, hblank, hdrive, hslash, not_false_eq_true,
        ne_eq, true_and, Option.some.injEq, exists_eq_left']
      constructor
      · rintro ⟨rfl, rfl⟩
        exact ⟨rfl, rfl⟩
      · rintro ⟨rfl, rfl⟩
        exact ⟨rfl, rfl⟩

/-! ### Names -/

structure ProperName (n : List Char) : Prop where
  nonempty : n ≠ []
  dot : n ≠ ['.']
  dots : n ≠ ['.', '.']
  slash : '/' ∉ n

lemma segmentMove_proper {n : List Char} (h : ProperName n) : segmentMove n = .down n := by
  simp [segmentMove, h.nonempty, h.dot, h.dots]

lemma downs_pathMoves_sublist (segments : List (List Char)) :
    (downs (segments.map segmentMove)).Sublist segments := by
  induction segments with
  | nil => exact List.Sublist.refl _
  | cons n segments ih =>
    rw [List.map_cons]
    unfold segmentMove
    split_ifs
    · exact ih.cons n
    · exact ih.cons n
    · exact ih.cons_cons n

lemma proper_of_mem_downs {segments : List (List Char)} {n : List Char}
    (hslash : ∀ segment ∈ segments, '/' ∉ segment)
    (h : n ∈ downs (segments.map segmentMove)) : ProperName n := by
  induction segments with
  | nil => cases h
  | cons m segments ih =>
    have ih := ih fun segment hsegment => hslash segment (List.mem_cons_of_mem _ hsegment)
    rw [List.map_cons, segmentMove] at h
    split_ifs at h with hstay hup
    · exact ih h
    · exact ih h
    · rcases List.mem_cons.mp h with rfl | h
      · exact ⟨fun he => hstay (Or.inl he), fun he => hstay (Or.inr he), hup,
          hslash n (by simp)⟩
      · exact ih h

lemma proper_of_walk (h : walk [] (pathMoves cs) = some st) : ∀ n ∈ st, ProperName n := by
  intro n hn
  have hdowns : n ∈ downs (pathMoves cs) := (walk_sublist h).subset hn
  exact proper_of_mem_downs PosixPath.slash_notMem_splitOn hdowns

lemma backslash_notMem_forwardSlashes : '\\' ∉ forwardSlashes cs := by
  simp only [forwardSlashes, List.mem_map, not_exists, not_and]
  rintro ch - heq
  split_ifs at heq with hch
  · cases heq
  · exact hch heq

lemma splitOn_subset : ∀ segment ∈ cs.splitOn '/', segment ⊆ cs := by
  induction cs with
  | nil => simp
  | cons ch cs ih =>
    rw [List.splitOn_cons_eq_if_modifyHead]
    obtain ⟨first, rest, hsplit⟩ := List.exists_cons_of_ne_nil (List.splitOn_ne_nil '/' cs)
    rw [hsplit] at ih ⊢
    by_cases hch : ch = '/'
    · simp only [beq_iff_eq, hch, if_true, List.mem_cons]
      rintro segment (rfl | hsegment)
      · simp
      · exact List.Subset.trans (ih segment (List.mem_cons.mpr hsegment)) (List.subset_cons_self _ _)
    · simp only [beq_iff_eq, hch, if_false, List.modifyHead_cons, List.mem_cons]
      rintro segment (rfl | hsegment)
      · exact List.cons_subset_cons ch (ih first (by simp))
      · exact List.Subset.trans (ih segment (by simp [hsegment])) (List.subset_cons_self _ _)

lemma pathMoves_joinSegments (hne : st ≠ []) (hst : ∀ n ∈ st, ProperName n) :
    pathMoves (joinSegments st) = st.map .down := by
  rw [pathMoves, joinSegments, if_neg hne,
    List.splitOn_intercalate '/' (fun n hn => (hst n hn).slash) hne]
  exact List.map_congr_left fun n hn => segmentMove_proper (hst n hn)

lemma forwardSlashes_of_notMem (h : '\\' ∉ cs) : forwardSlashes cs = cs := by
  induction cs with
  | nil => rfl
  | cons ch cs ih =>
    have hch : ch ≠ '\\' := fun he => h (by simp [he])
    have hrest := ih fun hmem => h (List.mem_cons_of_mem _ hmem)
    simp only [forwardSlashes] at hrest ⊢
    simp [hch, hrest]

/-- Folding makes no path longer. -/
lemma length_joinSegments_le (hcs : cs ≠ []) (h : walk [] (pathMoves cs) = some st) :
    (joinSegments st).length ≤ cs.length := by
  unfold joinSegments
  split_ifs with hst
  · exact List.length_pos_of_ne_nil hcs
  · have hsub : st.Sublist (cs.splitOn '/') :=
      (walk_sublist h).trans (downs_pathMoves_sublist _)
    have hsum := (hsub.map fun part => part.length + 1).sum_le_sum fun _ _ => Nat.zero_le _
    have hparts := length_intercalate '/' (List.splitOn_ne_nil '/' cs)
    rw [List.intercalate_splitOn] at hparts
    have hjoined := length_intercalate '/' hst
    omega

/-! ### Fixed points -/

def beginsBlank (n : List Char) : Bool := n.head?.any blank

def endsBlank (n : List Char) : Bool := n.getLast?.any blank

/-- The first name that is left begins with neither a blank nor a drive, and the last one does not
end with a blank. -/
structure Firm (raw : String) : Prop where
  first : ∀ n, Opens n (rawMoves raw) → beginsBlank n = false ∧ isDrivePath n = false
  last : ∀ n, Closes n (rawMoves raw) → endsBlank n = false

/-- `.`, or a sequence of proper names that begins with neither a separator nor a drive. -/
def Confined (p : String) : Prop :=
  p = "." ∨ (∀ n ∈ p.toList.splitOn '/', n ≠ [] ∧ n ≠ ['.'] ∧ n ≠ ['.', '.']) ∧
    ¬ ['/'] <+: p.toList ∧ ¬ ['\\'] <+: p.toList ∧ isDrivePath p.toList = false

lemma joinSegments_cons (n : List Char) (st : List (List Char)) :
    ∃ rest, joinSegments (n :: st) = n ++ rest ∧ (rest = [] ∨ ∃ tail, rest = '/' :: tail) := by
  cases st with
  | nil => exact ⟨[], by simp [joinSegments], Or.inl rfl⟩
  | cons m st =>
    exact ⟨'/' :: ['/'].intercalate (m :: st), by simp [joinSegments, List.intercalate_cons_cons],
      Or.inr ⟨_, rfl⟩⟩

lemma head?_joinSegments {n : List Char} (hn : ProperName n) :
    (joinSegments (n :: st)).head? = n.head? := by
  obtain ⟨rest, hjoin, -⟩ := joinSegments_cons n st
  rw [hjoin, List.head?_append_of_ne_nil _ hn.nonempty]

lemma isDrivePath_joinSegments {n : List Char} (hn : ProperName n) :
    isDrivePath (joinSegments (n :: st)) = isDrivePath n := by
  obtain ⟨rest, hjoin, hrest⟩ := joinSegments_cons n st
  rw [hjoin]
  match n, hn.nonempty with
  | [letter], _ =>
    rcases hrest with rfl | ⟨tail, rfl⟩
    · rfl
    · simp [isDrivePath]
  | _ :: _ :: _, _ => rfl

lemma getLast?_joinSegments {n : List Char} (hst : ∀ m ∈ st ++ [n], ProperName m) :
    (joinSegments (st ++ [n])).getLast? = n.getLast? := by
  have hn := (hst n (by simp)).nonempty
  have hjoin : joinSegments (st ++ [n]) = ['/'].intercalate (st ++ [n]) := by
    simp [joinSegments]
  rw [hjoin]
  clear hjoin
  induction st with
  | nil => simp
  | cons m st ih =>
    have ih := ih fun k hk => hst k (List.mem_cons_of_mem m hk)
    obtain ⟨k, rest, hrest⟩ := List.exists_cons_of_ne_nil (l := st ++ [n]) (by simp)
    rw [List.cons_append, hrest, List.intercalate_cons_cons, ← hrest,
      List.getLast?_append_of_ne_nil, ih]
    rw [← List.getLast?_isSome, ih, List.getLast?_isSome]
    exact hn

/-- The first and the last name of the folded path tell whether it is firm. -/
lemma firm_iff (h : walk [] (rawMoves raw) = some st) :
    Firm raw ↔ (∀ n ∈ st.head?, beginsBlank n = false ∧ isDrivePath n = false) ∧
      ∀ n ∈ st.getLast?, endsBlank n = false := by
  constructor
  · intro hfirm
    exact ⟨fun n hn => hfirm.first n ((opens_iff h).mpr hn),
      fun n hn => hfirm.last n ((closes_iff h).mpr hn)⟩
  · rintro ⟨hfirst, hlast⟩
    exact ⟨fun n hn => hfirst n ((opens_iff h).mp hn), fun n hn => hlast n ((closes_iff h).mp hn)⟩

lemma mem_joinSegments {ch : Char} (hdot : ch ≠ '.') (hslash : ch ≠ '/')
    (h : ch ∈ joinSegments st) : ∃ n ∈ st, ch ∈ n := by
  induction st with
  | nil => simp [joinSegments, hdot] at h
  | cons n st ih =>
    cases st with
    | nil => exact ⟨n, by simp, by simpa [joinSegments] using h⟩
    | cons m st =>
      simp only [joinSegments, reduceCtorEq, if_false, List.intercalate_cons_cons,
        List.mem_append, List.mem_singleton, hslash, or_false] at h ih
      rcases h with h | h
      · exact ⟨n, by simp, h⟩
      · obtain ⟨k, hk, hmem⟩ := ih h
        exact ⟨k, List.mem_cons_of_mem _ hk, hmem⟩

lemma not_slash_prefix (hst : ∀ n ∈ st, ProperName n) (ch : Char) (hch : ∀ n ∈ st, ch ∉ n)
    (hdot : ch ≠ '.') : ¬ [ch] <+: joinSegments st := by
  intro hprefix
  have hhead : (joinSegments st).head? = some ch := by
    obtain ⟨rest, hrest⟩ := hprefix
    rw [← hrest]
    rfl
  cases st with
  | nil =>
    simp only [joinSegments, if_true, List.head?_cons, Option.some.injEq] at hhead
    exact hdot hhead.symm
  | cons n st =>
    rw [head?_joinSegments (hst n (by simp))] at hhead
    exact hch n (by simp) (List.mem_of_mem_head? hhead)

/-- A folded path is left as it is, and confined, exactly when its names are firm. -/
theorem normalizePath_again (h : normalizePath (.str raw) = .ok (p, changed)) :
    (normalizePath (.str p) = .ok (p, false) ∧ Confined p) ↔ Firm raw := by
  obtain ⟨⟨hblank, -, hslash⟩, st, hst, rfl, -⟩ := normalizePath_str_eq_ok.mp h
  have hproper : ∀ n ∈ st, ProperName n := proper_of_walk hst
  have hback : ∀ n ∈ st, '\\' ∉ n := by
    intro n hn hmem
    have hdowns : n ∈ downs (rawMoves raw) := (walk_sublist hst).subset hn
    have hsegment := (downs_pathMoves_sublist _).subset hdowns
    exact backslash_notMem_forwardSlashes (splitOn_subset n hsegment hmem)
  rw [firm_iff hst]
  rcases List.eq_nil_or_concat st with rfl | ⟨init, last, hsplit⟩
  · -- everything cancels
    simp only [List.head?_nil, List.getLast?_nil, Option.not_mem_none, false_implies, implies_true,
      and_self, iff_true]
    exact ⟨rfl, Or.inl rfl⟩
  obtain ⟨first, rest, hcons⟩ : ∃ first rest, st = first :: rest := by
    rw [hsplit, List.concat_eq_append]
    exact List.exists_cons_of_ne_nil (by simp)
  have hfirst : (joinSegments st).head? = first.head? := by
    rw [hcons]
    exact head?_joinSegments (hproper first (by simp [hcons]))
  have hdrive : isDrivePath (joinSegments st) = isDrivePath first := by
    rw [hcons]
    exact isDrivePath_joinSegments (hproper first (by simp [hcons]))
  have hlast : (joinSegments st).getLast? = last.getLast? := by
    rw [List.concat_eq_append] at hsplit
    rw [hsplit]
    exact getLast?_joinSegments (hsplit ▸ hproper)
  have hheads : st.head? = some first := by rw [hcons]; rfl
  have hlasts : st.getLast? = some last := by rw [hsplit, List.concat_eq_append]; simp
  have hne : st ≠ [] := by simp [hcons]
  have hstrip : strip (joinSegments st) = joinSegments st ↔
      beginsBlank first = false ∧ endsBlank last = false := by
    rw [strip_eq_self_iff, hfirst, hlast, beginsBlank, endsBlank]
    simp only [Option.mem_def, Option.any_eq_false]
  simp only [hheads, hlasts, Option.mem_def, Option.some.injEq, forall_eq']
  have hjoined : joinSegments st ≠ [] := by
    intro hnil
    rw [hnil] at hfirst
    exact (hproper first (by simp [hcons])).nonempty (List.head?_eq_none_iff.mp hfirst.symm)
  have hplain : forwardSlashes (joinSegments st) = joinSegments st := by
    refine forwardSlashes_of_notMem fun hmem => ?_
    obtain ⟨n, hn, hmem⟩ := mem_joinSegments (by decide) (by decide) hmem
    exact hback n hn hmem
  constructor
  · rintro ⟨hagain, hconfined⟩
    obtain ⟨⟨hblank', hdrive', -⟩, st', hst', hp', -⟩ := normalizePath_str_eq_ok.mp hagain
    rw [rawMoves] at hst'
    simp only [String.toList_ofList, String.ofList_inj] at hblank' hdrive' hst' hp'
    have hkept : strip (joinSegments st) = joinSegments st := by
      have hlen := length_joinSegments_le (by simpa [forwardSlashes] using hblank') hst'
      rw [← hp', forwardSlashes, List.length_map] at hlen
      exact (strip_sublist _).eq_of_length_le hlen
    rw [hkept, hdrive] at hdrive'
    exact ⟨⟨(hstrip.mp hkept).1, hdrive'⟩, (hstrip.mp hkept).2⟩
  · rintro ⟨⟨hbegins, hnodrive⟩, hends⟩
    have hkept := hstrip.mpr ⟨hbegins, hends⟩
    have hrelative : ¬ ['/'] <+: joinSegments st :=
      not_slash_prefix hproper '/' (fun n hn => (hproper n hn).slash) (by decide)
    constructor
    · refine normalizePath_str_eq_ok.mpr ⟨?_, st, ?_, rfl, by simp⟩
      · simp only [String.toList_ofList, hkept, hplain]
        exact ⟨hjoined, hdrive.trans hnodrive, hrelative⟩
      · rw [rawMoves, String.toList_ofList, hkept, hplain, pathMoves_joinSegments hne hproper,
          walk_downs, List.nil_append]
    · refine Or.inr ?_
      rw [String.toList_ofList]
      refine ⟨?_, hrelative, not_slash_prefix hproper '\\' hback (by decide), hdrive.trans hnodrive⟩
      rw [joinSegments, if_neg hne,
        List.splitOn_intercalate '/' (fun n hn => (hproper n hn).slash) hne]
      exact fun n hn => ⟨(hproper n hn).nonempty, (hproper n hn).dot, (hproper n hn).dots⟩

end Toolchain

end Codey
