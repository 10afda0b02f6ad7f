import Codey.Lib.Lists
import Codey.Workspace.ScanLaws

/-!
# The order of a scan

Which files are covered does not depend on the order in which directories are enumerated. Neither
does the order in which they are read, as long as no two names in a directory differ only in case.
-/

namespace Codey

namespace Workspace

variable {c : Coverage} {path : Path} {entries es : List (FileName × Entry)}

/-- Every directory is below one that lists it. -/
theorem entries_ind {P : List (FileName × Entry) → Prop}
    (h : ∀ es, (∀ n resolves failed sub, (n, Entry.dir resolves failed sub) ∈ es → P sub) → P es) :
    ∀ es, P es := by
  have hdir : ∀ e : Entry, ∀ resolves failed sub, e = .dir resolves failed sub → P sub := by
    intro e
    induction e using Entry.ind with
    | missing | symlink | other | file =>
      intro _ _ _ he
      cases he
    | dir resolves failed es ih =>
      intro _ _ _ he
      cases he
      exact h es fun n r f sub hmem => ih _ hmem r f sub rfl
  exact fun es => h es fun n r f sub _ => hdir _ r f sub rfl

/-! ### Covered files -/

/-- A file with its content, below a directory of the given path and entries. -/
inductive Covered (c : Coverage) : Path → List (FileName × Entry) → Item → Prop where
  | file {path n f es content} (hmem : (n, Entry.file f) ∈ es) (hkept : c.excludes n = false)
      (hallowed : c.ignored (path ++ [n]) = false) (hcontent : f.content = some content) :
      Covered c path es (path ++ [n], content)
  | dir {path n resolves failed sub es x} (hmem : (n, Entry.dir resolves failed sub) ∈ es)
      (hkept : c.excludes n = false) (hallowed : c.ignored (path ++ [n]) = false)
      (hbelow : Covered c (path ++ [n]) sub x) : Covered c path es x

variable {e : FileName × Entry}

lemma mem_kept : e ∈ kept c es ↔ e ∈ es ∧ c.excludes e.1 = false := by
  simp [kept]

variable {x : Item}

lemma mem_files_part :
    x ∈ (e.2.part c (path ++ [e.1])).files ↔ ∃ f content, e.2 = .file f ∧
      c.ignored (path ++ [e.1]) = false ∧ f.content = some content ∧
      x = (path ++ [e.1], content) := by
  obtain ⟨n, e⟩ := e
  rw [files_part]
  cases e with
  | missing | symlink | other | dir => simp [yieldsOf]
  | file f =>
    cases hignored : c.ignored (path ++ [n]) <;> cases hcontent : f.content <;>
      simp [yieldsOf, itemsOf, hignored, hcontent]

lemma mem_below_part :
    x ∈ (e.2.part c (path ++ [e.1])).below ↔ ∃ resolves failed sub,
      e.2 = .dir resolves failed sub ∧ c.ignored (path ++ [e.1]) = false ∧
      x ∈ order c (path ++ [e.1]) sub := by
  obtain ⟨n, e⟩ := e
  rw [below_part]
  cases e with
  | missing | symlink | other | file => simp [dirsOf]
  | dir resolves failed sub =>
    cases hignored : c.ignored (path ++ [n]) <;> simp [dirsOf, hignored, Dir.order]

lemma mem_order : x ∈ order c path es ↔ ∃ e ∈ kept c es,
    x ∈ (e.2.part c (path ++ [e.1])).files ∨ x ∈ (e.2.part c (path ++ [e.1])).below := by
  simp only [order, arrange, parts_eq, List.mem_append, List.mem_flatMap, List.mem_insertionSort,
    List.mem_map]
  constructor
  · rintro (⟨_, ⟨e, he, rfl⟩, hx⟩ | ⟨_, ⟨e, he, rfl⟩, hx⟩)
    · exact ⟨e, he, .inl hx⟩
    · exact ⟨e, he, .inr hx⟩
  · rintro ⟨e, he, hx | hx⟩
    · exact .inl ⟨_, ⟨e, he, rfl⟩, hx⟩
    · exact .inr ⟨_, ⟨e, he, rfl⟩, hx⟩

/-- A scan reads the covered files. -/
lemma mem_order_iff : x ∈ order c path es ↔ Covered c path es x := by
  constructor
  · induction es using entries_ind generalizing path with
    | h es ih =>
      rw [mem_order]
      rintro ⟨⟨n, e⟩, he, hx⟩
      obtain ⟨hmem, hkept⟩ := mem_kept.mp he
      rcases hx with hx | hx
      · obtain ⟨f, content, rfl, hallowed, hcontent, rfl⟩ := mem_files_part.mp hx
        exact .file hmem hkept hallowed hcontent
      · obtain ⟨resolves, failed, sub, rfl, hallowed, hx⟩ := mem_below_part.mp hx
        exact .dir hmem hkept hallowed (ih n resolves failed sub hmem hx)
  · intro h
    induction h with
    | file hmem hkept hallowed hcontent =>
      exact mem_order.mpr ⟨_, mem_kept.mpr ⟨hmem, hkept⟩,
        .inl (mem_files_part.mpr ⟨_, _, rfl, hallowed, hcontent, rfl⟩)⟩
    | dir hmem hkept hallowed _ ih =>
      exact mem_order.mpr ⟨_, mem_kept.mpr ⟨hmem, hkept⟩,
        .inr (mem_below_part.mpr ⟨_, _, _, rfl, hallowed, ih⟩)⟩

lemma Covered.path_eq (h : Covered c path es x) : ∃ n rest, x.1 = path ++ n :: rest := by
  induction h with
  | file => exact ⟨_, [], rfl⟩
  | dir _ _ _ _ ih =>
    obtain ⟨m, rest, hx⟩ := ih
    exact ⟨_, m :: rest, by rw [hx, List.append_assoc]; rfl⟩

/-! ### Names -/

mutual
def Entry.Named : Entry → Prop
  | .dir _ _ entries => (entries.map Prod.fst).Nodup ∧ AllNamed entries
  | .missing | .symlink | .other | .file _ => True

def AllNamed : List (FileName × Entry) → Prop
  | [] => True
  | (_, e) :: rest => Entry.Named e ∧ AllNamed rest
end

lemma allNamed_iff : AllNamed es ↔ ∀ e ∈ es, e.2.Named := by
  induction es with
  | nil => simp [AllNamed]
  | cons e rest ih => rw [AllNamed, ih, List.forall_mem_cons]

/-- The entries of a directory and of those below it. -/
def Named (es : List (FileName × Entry)) : Prop := (es.map Prod.fst).Nodup ∧ AllNamed es

lemma Named.below {n : FileName} {resolves failed : Bool} {sub : List (FileName × Entry)}
    (h : Named es) (hmem : (n, Entry.dir resolves failed sub) ∈ es) : Named sub :=
  allNamed_iff.mp h.2 _ hmem

lemma Named.inj {e e' : FileName × Entry} (h : Named es) (he : e ∈ es) (he' : e' ∈ es)
    (hname : e.1 = e'.1) : e = e' := List.inj_on_of_nodup_map h.1 he he' hname

/-! ### The order of paths -/

variable (c) in
/-- Files come before what is below the directories beside them, and both come in the order of the
lower case of their names. -/
def Before : Path → Path → Prop
  | a :: p, b :: q =>
    if a = b then Before p q
    else (p = [] ∧ q ≠ []) ∨ (p = [] ↔ q = []) ∧ c.key a ≤ c.key b
  | _, _ => False

variable (c) in
/-- Two files in a directory, or files below two directories in it, whose names differ only in
case. -/
def Tied : Path → Path → Prop
  | a :: p, b :: q => if a = b then Tied p q else (p = [] ↔ q = []) ∧ c.key a = c.key b
  | _, _ => False

lemma before_append (path p q : Path) : Before c (path ++ p) (path ++ q) ↔ Before c p q := by
  induction path with
  | nil => rfl
  | cons a path ih => simpa [Before] using ih

lemma tied_append (path p q : Path) : Tied c (path ++ p) (path ++ q) ↔ Tied c p q := by
  induction path with
  | nil => rfl
  | cons a path ih => simpa [Tied] using ih

lemma before_irrefl (p : Path) : ¬ Before c p p := by
  induction p with
  | nil => exact id
  | cons a p ih => simpa [Before] using ih

/-- The order leaves open only what differs in case. -/
lemma tied_of_before {p q : Path} (h : Before c p q) (h' : Before c q p) : Tied c p q := by
  induction p generalizing q with
  | nil => cases h
  | cons a p ih =>
    cases q with
    | nil => cases h
    | cons b q =>
      rw [Before] at h h'
      rw [Tied]
      by_cases hab : a = b
      · rw [if_pos hab] at h ⊢
        rw [if_pos hab.symm] at h'
        exact ih h h'
      · rw [if_neg hab] at h ⊢
        rw [if_neg (Ne.symm hab)] at h'
        rcases h with ⟨hp, hq⟩ | ⟨hsame, hle⟩
        · rcases h' with ⟨hq', -⟩ | ⟨hsame, -⟩
          · exact absurd hq' hq
          · exact absurd (hsame.mpr hp) hq
        · rcases h' with ⟨hq, hp⟩ | ⟨-, hle'⟩
          · exact absurd (hsame.mpr hq) hp
          · exact ⟨hsame, le_antisymm hle hle'⟩

/-! ### The order of a scan -/

/-- The parts of a directory as they are read. -/
def sortedParts (c : Coverage) (path : Path) (es : List (FileName × Entry)) :
    List (FileName × Part) :=
  (parts c path es).insertionSort fun x y => c.key x.1 ≤ c.key y.1

lemma mem_sortedParts {x : FileName × Part} : x ∈ sortedParts c path es ↔
    ∃ e ∈ kept c es, x = (e.1, e.2.part c (path ++ [e.1])) := by
  rw [sortedParts, List.mem_insertionSort, parts_eq, List.mem_map]
  exact exists_congr fun e => and_congr_right fun _ => eq_comm

lemma path_of_mem_files {x : FileName × Part} {item : Item} (hx : x ∈ sortedParts c path es)
    (h : item ∈ x.2.files) : item.1 = path ++ [x.1] := by
  obtain ⟨e, -, rfl⟩ := mem_sortedParts.mp hx
  obtain ⟨f, content, -, -, -, rfl⟩ := mem_files_part.mp h
  rfl

lemma path_of_mem_below {x : FileName × Part} {item : Item} (hx : x ∈ sortedParts c path es)
    (h : item ∈ x.2.below) : ∃ n rest, item.1 = path ++ x.1 :: n :: rest := by
  obtain ⟨e, -, rfl⟩ := mem_sortedParts.mp hx
  obtain ⟨resolves, failed, sub, -, -, h⟩ := mem_below_part.mp h
  obtain ⟨n, rest, hpath⟩ := (mem_order_iff.mp h).path_eq
  exact ⟨n, rest, by rw [hpath, List.append_assoc]; rfl⟩

lemma pairwise_sortedParts (c : Coverage) (path : Path) (h : Named es) :
    (sortedParts c path es).Pairwise fun x y => c.key x.1 ≤ c.key y.1 ∧ x.1 ≠ y.1 := by
  refine List.Pairwise.and (List.pairwise_insertionSort _ _) ?_
  rw [← List.pairwise_map (f := Prod.fst) (R := (· ≠ ·))]
  have hperm : ((sortedParts c path es).map Prod.fst).Perm ((kept c es).map Prod.fst) := by
    refine ((List.perm_insertionSort _ _).map _).trans ?_
    rw [parts_eq, List.map_map]
    exact List.Perm.refl _
  refine hperm.nodup_iff.mpr ?_
  exact h.1.sublist (List.filter_sublist.map _)

lemma pairwise_order (h : Named es) : (order c path es).Pairwise fun x y => Before c x.1 y.1 := by
  induction es using entries_ind generalizing path with
  | h es ih =>
    change ((sortedParts c path es).flatMap (·.2.files) ++
      (sortedParts c path es).flatMap (·.2.below)).Pairwise _
    have hparts := pairwise_sortedParts c path h
    refine List.pairwise_append.mpr ⟨List.pairwise_flatMap.mpr ⟨?_, ?_⟩,
      List.pairwise_flatMap.mpr ⟨?_, ?_⟩, ?_⟩
    · intro x hx
      obtain ⟨⟨n, e⟩, he, rfl⟩ := mem_sortedParts.mp hx
      rw [files_part]
      cases e with
      | missing | symlink | other | dir => simp [yieldsOf]
      | file f =>
        cases hignored : c.ignored (path ++ [n]) <;> cases hcontent : f.content <;>
          simp [yieldsOf, itemsOf, hignored, hcontent]
    · refine hparts.imp_of_mem ?_
      intro x y hx hy hxy i hi j hj
      rw [path_of_mem_files hx hi, path_of_mem_files hy hj, before_append, Before, if_neg hxy.2]
      exact .inr ⟨Iff.rfl, hxy.1⟩
    · intro x hx
      obtain ⟨⟨n, e⟩, he, rfl⟩ := mem_sortedParts.mp hx
      obtain ⟨hmem, -⟩ := mem_kept.mp he
      rw [below_part]
      cases e with
      | missing | symlink | other | file => simp [dirsOf]
      | dir resolves failed sub =>
        cases hignored : c.ignored (path ++ [n]) with
        | true => simp [dirsOf, hignored]
        | false =>
          have hsub : (order c (path ++ [n]) sub).Pairwise fun x y => Before c x.1 y.1 :=
            ih n resolves failed sub hmem (h.below hmem)
          simpa [dirsOf, hignored, Dir.order] using hsub
    · refine hparts.imp_of_mem ?_
      intro x y hx hy hxy i hi j hj
      obtain ⟨n, p, hi⟩ := path_of_mem_below hx hi
      obtain ⟨m, q, hj⟩ := path_of_mem_below hy hj
      rw [hi, hj, before_append, Before, if_neg hxy.2]
      exact .inr ⟨by simp, hxy.1⟩
    · intro i hi j hj
      obtain ⟨x, hx, hi⟩ := List.mem_flatMap.mp hi
      obtain ⟨y, hy, hj⟩ := List.mem_flatMap.mp hj
      have hi' := path_of_mem_files hx hi
      obtain ⟨m, q, hj'⟩ := path_of_mem_below hy hj
      have hne : x.1 ≠ y.1 := by
        intro heq
        obtain ⟨e, he, rfl⟩ := mem_sortedParts.mp hx
        obtain ⟨e', he', rfl⟩ := mem_sortedParts.mp hy
        obtain rfl := h.inj (mem_kept.mp he).1 (mem_kept.mp he').1 heq
        obtain ⟨f, _, hf, -⟩ := mem_files_part.mp hi
        obtain ⟨_, _, _, hd, -⟩ := mem_below_part.mp hj
        rw [hf] at hd
        cases hd
      rw [hi', hj', before_append, Before, if_neg hne]
      exact .inl ⟨rfl, by simp⟩

lemma nodup_order (h : Named es) : (order c path es).Nodup := by
  refine (pairwise_order h).imp fun {x y} hbefore => ?_
  rintro rfl
  exact before_irrefl x.1 hbefore

def Untied (c : Coverage) (es : List (FileName × Entry)) : Prop :=
  ∀ x y, Covered c [] es x → Covered c [] es y → ¬ Tied c x.1 y.1

lemma order_eq_of_untied {es' : List (FileName × Entry)} (h : Named es) (h' : Named es')
    (hties : Untied c es) (hsame : ∀ x, Covered c [] es x ↔ Covered c [] es' x) :
    order c [] es = order c [] es' := by
  refine List.Perm.eq_of_pairwise ?_ (pairwise_order h) (pairwise_order h') ?_
  · intro x y hx hy hxy hyx
    exact absurd (tied_of_before hxy hyx)
      (hties x y (mem_order_iff.mp hx) ((hsame y).mpr (mem_order_iff.mp hy)))
  · rw [List.perm_ext_iff_of_nodup (nodup_order h) (nodup_order h')]
    intro x
    rw [mem_order_iff, mem_order_iff, hsame]

/-! ### The same tree, enumerated backwards -/

mutual
def Entry.reversed : Entry → Entry
  | .missing => .missing
  | .symlink => .symlink
  | .other => .other
  | .file f => .file f
  | .dir resolves failed entries => .dir resolves failed (reversed entries)

/-- The entries of a directory and of those below it, the last one first. -/
def reversed : List (FileName × Entry) → List (FileName × Entry)
  | [] => []
  | (n, e) :: rest => reversed rest ++ [(n, Entry.reversed e)]
end

lemma reversed_eq : reversed es = (es.map fun e => (e.1, e.2.reversed)).reverse := by
  induction es with
  | nil => rfl
  | cons e rest ih =>
    rw [reversed, ih, List.map_cons, List.reverse_cons]

lemma mem_reversed (h : e ∈ es) : (e.1, e.2.reversed) ∈ reversed es := by
  rw [reversed_eq, List.mem_reverse]
  exact List.mem_map_of_mem h

lemma exists_of_mem_reversed {x : FileName × Entry} (h : x ∈ reversed es) :
    ∃ e ∈ es, x = (e.1, e.2.reversed) := by
  rw [reversed_eq, List.mem_reverse, List.mem_map] at h
  obtain ⟨e, he, rfl⟩ := h
  exact ⟨e, he, rfl⟩

lemma kept_reversed : kept c (reversed es) =
    ((kept c es).map fun e => (e.1, e.2.reversed)).reverse := by
  rw [reversed_eq, kept, kept, List.filter_reverse, List.filter_map]
  rfl

lemma map_fst_reversed : (reversed es).map Prod.fst = (es.map Prod.fst).reverse := by
  rw [reversed_eq, List.map_reverse, List.map_map]
  rfl

lemma named_reversed (h : Named es) : Named (reversed es) := by
  induction es using entries_ind with
  | h es ih =>
    refine ⟨?_, allNamed_iff.mpr fun x hx => ?_⟩
    · rw [map_fst_reversed]
      exact List.nodup_reverse.mpr h.1
    · obtain ⟨⟨n, e⟩, he, rfl⟩ := exists_of_mem_reversed hx
      cases e with
      | missing | symlink | other | file => exact trivial
      | dir resolves failed sub => exact ih n resolves failed sub he (h.below he)

lemma covered_reversed (h : Covered c path es x) : Covered c path (reversed es) x := by
  induction h with
  | file hmem hkept hallowed hcontent =>
    exact .file (mem_reversed hmem) hkept hallowed hcontent
  | dir hmem hkept hallowed _ ih => exact .dir (mem_reversed hmem) hkept hallowed ih

lemma reversed_reversed (es : List (FileName × Entry)) : reversed (reversed es) = es := by
  induction es using entries_ind with
  | h es ih =>
    rw [reversed_eq, reversed_eq, ← List.map_reverse, List.reverse_reverse, List.map_map]
    conv_rhs => rw [← List.map_id es]
    refine List.map_congr_left fun e he => ?_
    obtain ⟨n, e⟩ := e
    cases e with
    | missing | symlink | other | file => rfl
    | dir resolves failed sub =>
      change (n, Entry.dir resolves failed (reversed (reversed sub))) = _
      rw [ih n resolves failed sub he]
      rfl

lemma covered_reversed_iff : Covered c path (reversed es) x ↔ Covered c path es x := by
  refine ⟨fun h => ?_, covered_reversed⟩
  rw [← reversed_reversed es]
  exact covered_reversed h

lemma weights_reversed (es : List (FileName × Entry)) (path : Path) :
    weights c path (reversed es) = weights c path es := by
  induction es using entries_ind generalizing path with
  | h es ih =>
    rw [weights_eq, weights_eq, kept_reversed, List.map_reverse, List.sum_reverse, List.map_map]
    congr 1
    refine List.map_congr_left fun e he => ?_
    obtain ⟨n, e⟩ := e
    cases e with
    | missing | symlink | other | file => rfl
    | dir resolves failed sub =>
      change Entry.weight c (path ++ [n]) (.dir resolves failed (reversed sub)) = _
      rw [Entry.weight, ih n resolves failed sub (mem_kept.mp he).1]
      rfl

lemma listed_reversed {maxEntries : Nat} {failed : Bool} :
    Listed c maxEntries failed (reversed es) ↔ Listed c maxEntries failed es := by
  rw [Listed, kept_reversed, reversed_eq]
  simp [Listed]

lemma allSound_reversed {maxEntries : Nat} {path : Path} (h : AllSound c maxEntries path es) :
    AllSound c maxEntries path (reversed es) := by
  induction es using entries_ind generalizing path with
  | h es ih =>
    rw [allSound_iff] at h ⊢
    intro x hx
    rw [kept_reversed, List.mem_reverse] at hx
    obtain ⟨⟨n, e⟩, he, rfl⟩ := List.mem_map.mp hx
    have hsound := h _ he
    cases e with
    | missing | symlink | other | file => exact hsound
    | dir resolves failed sub =>
      refine ⟨hsound.1, fun hallowed => ?_⟩
      obtain ⟨hlisted, hsub⟩ := hsound.2 hallowed
      exact ⟨listed_reversed.mpr hlisted,
        ih n resolves failed sub (mem_kept.mp he).1 hsub⟩

/-! ### Ties -/

/-- Two files that two entries give, both in this directory or both below it. -/
def Alike (c : Coverage) (path : Path) (e e' : FileName × Entry) (x y : Item) : Prop :=
  x ∈ (e.2.part c (path ++ [e.1])).files ∧ y ∈ (e'.2.part c (path ++ [e'.1])).files ∨
    x ∈ (e.2.part c (path ++ [e.1])).below ∧ y ∈ (e'.2.part c (path ++ [e'.1])).below

/-- What is tied is read in the order of enumeration. -/
lemma pair_sublist_order {e e' : FileName × Entry} {x y : Item}
    (hpair : [e, e'].Sublist (kept c es)) (hkey : c.key e.1 = c.key e'.1)
    (h : Alike c path e e' x y) : [x, y].Sublist (order c path es) := by
  have hsorted : [(e.1, e.2.part c (path ++ [e.1])), (e'.1, e'.2.part c (path ++ [e'.1]))].Sublist
      (sortedParts c path es) := by
    refine List.pair_sublist_insertionSort hkey.le ?_
    rw [parts_eq]
    exact hpair.map fun e => (e.1, e.2.part c (path ++ [e.1]))
  change [x, y].Sublist ((sortedParts c path es).flatMap (·.2.files) ++
    (sortedParts c path es).flatMap (·.2.below))
  rcases h with ⟨hx, hy⟩ | ⟨hx, hy⟩
  · exact (pair_sublist_flatMap hsorted hx hy).trans (List.sublist_append_left _ _)
  · exact (pair_sublist_flatMap hsorted hx hy).trans (List.sublist_append_right _ _)

/-- A file below a directory. -/
def inside (path : Path) (x : Item) : Bool := decide (path <+: x.1 ∧ path ≠ x.1)

lemma inside_append {n m : FileName} {rest : Path} {content : List UInt8} :
    inside (path ++ [n]) (path ++ m :: rest, content) = true ↔ n = m ∧ rest ≠ [] := by
  rw [inside, decide_eq_true_iff, List.prefix_append_right_inj, List.cons_prefix_cons, Ne,
    List.append_cancel_left_eq, List.cons.injEq]
  constructor
  · rintro ⟨⟨rfl, -⟩, hne⟩
    exact ⟨rfl, fun hrest => hne ⟨rfl, hrest.symm⟩⟩
  · rintro ⟨rfl, hrest⟩
    exact ⟨⟨rfl, List.nil_prefix⟩, fun h => hrest h.2.symm⟩

/-- The files below a directory are read one after the other. -/
lemma filter_order (h : Named es) {n : FileName} {resolves failed : Bool}
    {sub : List (FileName × Entry)} (hmem : (n, Entry.dir resolves failed sub) ∈ es)
    (hkept : c.excludes n = false) (hallowed : c.ignored (path ++ [n]) = false) :
    (order c path es).filter (inside (path ++ [n])) = order c (path ++ [n]) sub := by
  have hpart : Entry.part c (path ++ [n]) (.dir resolves failed sub) =
      .dir (order c (path ++ [n]) sub) := by
    rw [Entry.part, hallowed]
    rfl
  have hthis : (n, Part.dir (order c (path ++ [n]) sub)) ∈ sortedParts c path es :=
    mem_sortedParts.mpr ⟨_, mem_kept.mpr ⟨hmem, hkept⟩, by rw [hpart]⟩
  have hnodup : (sortedParts c path es).Nodup := by
    refine (pairwise_sortedParts c path h).imp fun {x y} hne => ?_
    rintro rfl
    exact hne.2 rfl
  change ((sortedParts c path es).flatMap (·.2.files) ++
    (sortedParts c path es).flatMap (·.2.below)).filter _ = _
  rw [List.filter_append, List.filter_flatMap, List.filter_flatMap]
  have hfiles : (sortedParts c path es).flatMap
      (fun x => x.2.files.filter (inside (path ++ [n]))) = [] := by
    refine List.flatMap_eq_nil_iff.mpr fun x hx => List.filter_eq_nil_iff.mpr fun i hi => ?_
    obtain ⟨p, content⟩ := i
    obtain rfl := path_of_mem_files hx hi
    rw [inside_append]
    exact fun h => h.2 rfl
  rw [hfiles, List.nil_append, flatMap_eq_of_unique hnodup hthis]
  · refine List.filter_eq_self.mpr fun i hi => ?_
    obtain ⟨m, rest, hpath⟩ := (mem_order_iff.mp hi).path_eq
    obtain ⟨p, content⟩ := i
    rw [List.append_assoc] at hpath
    obtain rfl := hpath
    exact inside_append.mpr ⟨rfl, by simp⟩
  · intro x hx hne
    refine List.filter_eq_nil_iff.mpr fun i hi hinside => hne ?_
    obtain ⟨m, rest, hpath⟩ := path_of_mem_below hx hi
    obtain ⟨p, content⟩ := i
    obtain rfl := hpath
    obtain ⟨heq, -⟩ := inside_append.mp hinside
    obtain ⟨e, he, rfl⟩ := mem_sortedParts.mp hx
    obtain ⟨heq', -⟩ := mem_kept.mp he
    obtain rfl := h.inj hmem heq' heq
    rw [hpart]

lemma tied_irrefl (p : Path) : ¬ Tied c p p := by
  induction p with
  | nil => exact id
  | cons a p ih => simpa [Tied] using ih

lemma mem_files_reversed (h : x ∈ (e.2.part c (path ++ [e.1])).files) :
    x ∈ (e.2.reversed.part c (path ++ [e.1])).files := by
  obtain ⟨n, e⟩ := e
  cases e with
  | missing | symlink | other | file => exact h
  | dir resolves failed sub =>
    obtain ⟨_, _, hfile, -⟩ := mem_files_part.mp h
    cases hfile

lemma mem_below_reversed (h : x ∈ (e.2.part c (path ++ [e.1])).below) :
    x ∈ (e.2.reversed.part c (path ++ [e.1])).below := by
  obtain ⟨resolves, failed, sub, hdir, hallowed, hx⟩ := mem_below_part.mp h
  obtain ⟨n, e⟩ := e
  obtain rfl : e = .dir resolves failed sub := hdir
  exact (mem_below_part (e := (n, .dir resolves failed (reversed sub)))).mpr
    ⟨resolves, failed, reversed sub, rfl, hallowed,
      mem_order_iff.mpr (covered_reversed (mem_order_iff.mp hx))⟩

/-- What is tied is read in the other order when the tree is enumerated backwards. -/
lemma pair_sublist_reversed {e e' : FileName × Entry} {x y : Item}
    (hpair : [e, e'].Sublist (kept c es)) (hkey : c.key e.1 = c.key e'.1)
    (h : Alike c path e e' x y) : [y, x].Sublist (order c path (reversed es)) := by
  have hrev : [(e'.1, e'.2.reversed), (e.1, e.2.reversed)].Sublist (kept c (reversed es)) := by
    rw [kept_reversed]
    exact (hpair.map fun e => (e.1, e.2.reversed)).reverse
  refine pair_sublist_order hrev hkey.symm ?_
  rcases h with ⟨hx, hy⟩ | ⟨hx, hy⟩
  · exact .inl ⟨mem_files_reversed hy, mem_files_reversed hx⟩
  · exact .inr ⟨mem_below_reversed hy, mem_below_reversed hx⟩

/-- No two entries whose names differ only in case give files alike, when the order is the same
backwards. -/
lemma key_ne_of_order_eq (h : Named es) (heq : order c path (reversed es) = order c path es)
    {e e' : FileName × Entry} {x y : Item} (he : e ∈ kept c es) (he' : e' ∈ kept c es)
    (hne : e.1 ≠ e'.1) (halike : Alike c path e e' x y) (hxy : x ≠ y) :
    c.key e.1 ≠ c.key e'.1 := by
  intro hkey
  have halike' : Alike c path e' e y x := halike.imp And.symm And.symm
  rcases pair_sublist_total he he' fun h => hne (congrArg Prod.fst h) with hpair | hpair
  · have hback := pair_sublist_reversed hpair hkey halike
    rw [heq] at hback
    exact hxy (pair_sublist_antisymm (nodup_order h) (pair_sublist_order hpair hkey halike) hback)
  · have hback := pair_sublist_reversed hpair hkey.symm halike'
    rw [heq] at hback
    exact hxy (pair_sublist_antisymm (nodup_order h) hback
      (pair_sublist_order hpair hkey.symm halike'))

/-- The order of a scan is that of the tree enumerated backwards only when no two files are
tied. -/
lemma not_tied_of_order_eq (h : Named es) (heq : order c path (reversed es) = order c path es)
    {x y : Item} (hx : Covered c path es x) (hy : Covered c path es y) : ¬ Tied c x.1 y.1 := by
  induction es using entries_ind generalizing path with
  | h es ih =>
    intro htied
    have hxy : x ≠ y := by
      rintro rfl
      exact tied_irrefl x.1 htied
    obtain ⟨⟨n, e⟩, he, hx⟩ := mem_order.mp (mem_order_iff.mpr hx)
    obtain ⟨⟨m, e'⟩, he', hy⟩ := mem_order.mp (mem_order_iff.mpr hy)
    by_cases hname : n = m
    · obtain ⟨rfl, rfl⟩ := Prod.mk.inj (h.inj (mem_kept.mp he).1 (mem_kept.mp he').1 hname)
      rcases hx with hx | hx
      · obtain ⟨f, content, rfl, -, hcontent, rfl⟩ := mem_files_part.mp hx
        rcases hy with hy | hy
        · obtain ⟨f', content', hf, -, hcontent', rfl⟩ := mem_files_part.mp hy
          exact tied_irrefl _ htied
        · obtain ⟨_, _, _, hdir, -⟩ := mem_below_part.mp hy
          cases hdir
      · obtain ⟨resolves, failed, sub, rfl, hallowed, hx⟩ := mem_below_part.mp hx
        rcases hy with hy | hy
        · obtain ⟨_, _, hfile, -⟩ := mem_files_part.mp hy
          cases hfile
        · obtain ⟨_, _, _, hdir, -, hy⟩ := mem_below_part.mp hy
          cases hdir
          obtain ⟨hmem, hkept⟩ := mem_kept.mp he
          have hbelow : order c (path ++ [n]) (reversed sub) = order c (path ++ [n]) sub := by
            rw [← filter_order h hmem hkept hallowed, ← heq]
            exact (filter_order (named_reversed h) (mem_reversed hmem) hkept hallowed).symm
          exact ih n resolves failed sub hmem (h.below hmem) hbelow (mem_order_iff.mp hx)
            (mem_order_iff.mp hy) htied
    · have hpart : (n, e.part c (path ++ [n])) ∈ sortedParts c path es :=
        mem_sortedParts.mpr ⟨_, he, rfl⟩
      have hpart' : (m, e'.part c (path ++ [m])) ∈ sortedParts c path es :=
        mem_sortedParts.mpr ⟨_, he', rfl⟩
      rcases hx with hx | hx
      · have hpx := path_of_mem_files hpart hx
        rcases hy with hy | hy
        · rw [hpx, path_of_mem_files hpart' hy, tied_append, Tied, if_neg hname] at htied
          exact key_ne_of_order_eq h heq he he' hname (.inl ⟨hx, hy⟩) hxy htied.2
        · obtain ⟨k, rest, hpy⟩ := path_of_mem_below hpart' hy
          rw [hpx, hpy, tied_append, Tied, if_neg hname] at htied
          simp at htied
      · obtain ⟨k, rest, hpx⟩ := path_of_mem_below hpart hx
        rcases hy with hy | hy
        · rw [hpx, path_of_mem_files hpart' hy, tied_append, Tied, if_neg hname] at htied
          simp at htied
        · obtain ⟨k', rest', hpy⟩ := path_of_mem_below hpart' hy
          rw [hpx, hpy, tied_append, Tied, if_neg hname] at htied
          exact key_ne_of_order_eq h heq he he' hname (.inr ⟨hx, hy⟩) hxy htied.2

end Workspace

end Codey
