import Codey.Workspace.ChangeTracker

/-!
# The lines of a rendered diff

What the tracker counts among the lines of a diff and what the scan of a change set reads from
them.
-/

namespace Codey

namespace Workspace

namespace Changes

variable {a b : List Text} {groups : List (List Opcode)} {line : Text}

/-! ### Counting -/

@[simp] lemma countsAsAddition_context (line : Text) : countsAsAddition (' ' :: line) = false := rfl

@[simp] lemma countsAsAddition_removed (line : Text) : countsAsAddition ('-' :: line) = false := rfl

@[simp] lemma countsAsAddition_added (line : Text) :
    countsAsAddition ('+' :: line) = !"++".toList.isPrefixOf line := rfl

@[simp] lemma countsAsAddition_hunkHeader (first last : Opcode) :
    countsAsAddition (hunkHeader first last) = false := rfl

@[simp] lemma countsAsDeletion_context (line : Text) : countsAsDeletion (' ' :: line) = false := rfl

@[simp] lemma countsAsDeletion_added (line : Text) : countsAsDeletion ('+' :: line) = false := by
  simp [countsAsDeletion, List.isPrefixOf]

@[simp] lemma countsAsDeletion_removed (line : Text) :
    countsAsDeletion ('-' :: line) = !"--".toList.isPrefixOf line := rfl

@[simp] lemma countsAsDeletion_hunkHeader (first last : Opcode) :
    countsAsDeletion (hunkHeader first last) = false := rfl

lemma countP_groupLines {p : Text → Bool}
    (hheader : ∀ first last, p (hunkHeader first last) = false) (a b : List Text)
    (group : List Opcode) :
    (groupLines a b group).countP p = (group.flatMap (opcodeLines a b)).countP p := by
  cases group with
  | nil => rfl
  | cons first rest => rw [groupLines, List.countP_cons_of_neg (by simp [hheader])]

lemma countP_additions (a b : List Text) (group : List Opcode) :
    (group.flatMap (opcodeLines a b)).countP countsAsAddition =
      (group.flatMap (Opcode.inserted b)).countP fun line => !"++".toList.isPrefixOf line := by
  induction group with
  | nil => rfl
  | cons op group ih =>
    simp only [List.flatMap_cons, List.countP_append, ih, opcodeLines, List.countP_map]
    simp [Function.comp_def]

lemma countP_deletions (a b : List Text) (group : List Opcode) :
    (group.flatMap (opcodeLines a b)).countP countsAsDeletion =
      (group.flatMap (Opcode.deleted a)).countP fun line => !"--".toList.isPrefixOf line := by
  induction group with
  | nil => rfl
  | cons op group ih =>
    simp only [List.flatMap_cons, List.countP_append, ih, opcodeLines, List.countP_map]
    simp [Function.comp_def]

/-- The additions that are counted are the inserted lines but those that look like a header. -/
lemma additions_unifiedDiff (a b : List Text) (groups : List (List Opcode))
    (fromFile toFile : Text) :
    (unifiedDiff a b groups fromFile toFile).countP countsAsAddition =
      (insertions b groups).countP fun line => !"++".toList.isPrefixOf line := by
  by_cases hgroups : groups = []
  · subst hgroups
    rfl
  · have hfrom : countsAsAddition ("--- ".toList ++ fromFile) = false := rfl
    have hto : countsAsAddition ("+++ ".toList ++ toFile) = false := rfl
    rw [unifiedDiff, if_neg hgroups, List.countP_cons_of_neg (ne_true_of_eq_false hfrom),
      List.countP_cons_of_neg (ne_true_of_eq_false hto), List.countP_flatMap, insertions,
      List.countP_flatMap]
    congr 1
    refine List.map_congr_left fun group _ => ?_
    exact (countP_groupLines (by simp) a b group).trans (countP_additions a b group)

lemma deletions_unifiedDiff (a b : List Text) (groups : List (List Opcode))
    (fromFile toFile : Text) :
    (unifiedDiff a b groups fromFile toFile).countP countsAsDeletion =
      (deletions a groups).countP fun line => !"--".toList.isPrefixOf line := by
  by_cases hgroups : groups = []
  · subst hgroups
    rfl
  · have hfrom : countsAsDeletion ("--- ".toList ++ fromFile) = false := rfl
    have hto : countsAsDeletion ("+++ ".toList ++ toFile) = false := rfl
    rw [unifiedDiff, if_neg hgroups, List.countP_cons_of_neg (ne_true_of_eq_false hfrom),
      List.countP_cons_of_neg (ne_true_of_eq_false hto), List.countP_flatMap, deletions,
      List.countP_flatMap]
    congr 1
    refine List.map_congr_left fun group _ => ?_
    exact (countP_groupLines (by simp) a b group).trans (countP_deletions a b group)

/-! ### Hunk headers -/

def NoDigit (rest : Text) : Prop := rest.head?.all (fun ch => !ch.isDigit) = true

lemma number_decimal_append (n : Nat) {rest : Text} (h : NoDigit rest) :
    number (decimal n ++ rest) = some (n, rest) := by
  have hdigits : ∀ ch ∈ decimal n, ch.isDigit = true := fun ch hch =>
    Nat.isDigit_of_mem_toDigits (by decide) (by decide) hch
  have htake : rest.takeWhile Char.isDigit = [] := by
    cases rest with
    | nil => rfl
    | cons ch rest => simpa [NoDigit] using h
  have hdrop : rest.dropWhile Char.isDigit = rest := by
    cases rest with
    | nil => rfl
    | cons ch rest =>
      have hch : ch.isDigit = false := by simpa [NoDigit] using h
      simp [hch]
  have hne : decimal n ≠ [] := Nat.toDigits_ne_nil
  rw [number, List.takeWhile_append_of_pos hdigits, List.dropWhile_append_of_pos hdigits, htake,
    hdrop, List.append_nil, if_neg hne, decimal, Nat.ofDigitChars_toDigits (by decide) (by decide)]

lemma range_formatRange (start stop : Nat) (rest : Text) :
    range (formatRange start stop ++ ' ' :: rest) =
      some ((rangeStart start stop, stop - start), ' ' :: rest) := by
  have hspace : NoDigit (' ' :: rest) := rfl
  rw [formatRange]
  split_ifs with hone
  · rw [range, number_decimal_append _ hspace, hone]
    rfl
  · have hnodigit : NoDigit ((',' :: decimal (stop - start)) ++ ' ' :: rest) := rfl
    rw [range, List.append_assoc, number_decimal_append _ hnodigit]
    simp only [Option.map_some, List.cons_append]
    have hcomma : expect [','] (',' :: (decimal (stop - start) ++ ' ' :: rest)) =
        some (decimal (stop - start) ++ ' ' :: rest) := expect_append [','] _
    rw [hcomma, Option.bind_some, number_decimal_append _ hspace]

def hunkOf (index : Nat) (first last : Opcode) : ChangeHunk :=
  ⟨index, rangeStart first.i1 last.i2, last.i2 - first.i1, rangeStart first.j1 last.j2,
    last.j2 - first.j1, hunkHeader first last⟩

lemma parseHunkLine_hunkHeader (first last : Opcode) (index : Nat) :
    parseHunkLine (hunkHeader first last) index = some (hunkOf index first last) := by
  have hat : expect "@@".toList (hunkHeader first last) =
      some (" -".toList ++ (formatRange first.i1 last.i2 ++ (' ' :: '+' ::
        (formatRange first.j1 last.j2 ++ (' ' :: "@@".toList))))) := expect_append "@@".toList _
  have hminus (rest : Text) : spaces (" -".toList ++ rest) = some ('-' :: rest) := rfl
  have hold (rest : Text) : expect ['-'] ('-' :: rest) = some rest := expect_append ['-'] rest
  have hplus (rest : Text) : spaces (' ' :: '+' :: rest) = some ('+' :: rest) := rfl
  have hnew (rest : Text) : expect ['+'] ('+' :: rest) = some rest := expect_append ['+'] rest
  have hend : spaces (' ' :: "@@".toList) = some "@@".toList := rfl
  have hclose : expect "@@".toList "@@".toList = some [] := rfl
  simp only [parseHunkLine, hat, hminus, hold, range_formatRange, hplus, hnew, hend, hclose,
    Option.bind_some, Option.map_some]
  rfl

/-- The hunks that the headers of some groups announce, numbered from a number on. -/
def hunksFrom (index : Nat) : List (List Opcode) → List ChangeHunk
  | [] => []
  | [] :: groups => hunksFrom index groups
  | (first :: rest) :: groups =>
    hunkOf index first (rest.getLastD first) :: hunksFrom (index + 1) groups

/-! ### Scanning the lines -/

def Idle (line : Text) : Prop := ∀ s, scanLine s line = .ok s

lemma idle_nil : Idle [] := by
  intro s
  simp [scanLine]

lemma idle_context (line : Text) : Idle (' ' :: line) := by
  intro s
  simp [scanLine]

lemma idle_added (h : ¬ "++".toList <+: line) : Idle ('+' :: line) := by
  intro s
  have hfile : "+++ ".toList.isPrefixOf ('+' :: line) = false := by
    rw [Bool.eq_false_iff, ne_eq, List.isPrefixOf_iff_prefix]
    rintro ⟨rest, hrest⟩
    exact h ⟨' ' :: rest, (List.cons.inj hrest).2⟩
  rw [scanLine, if_neg (by simp), if_neg (by simp), if_neg (ne_true_of_eq_false hfile),
    if_pos (by simp [List.isPrefixOf])]

lemma idle_removed (h : ¬ "--".toList <+: line) : Idle ('-' :: line) := by
  intro s
  have hfile : "--- ".toList.isPrefixOf ('-' :: line) = false := by
    rw [Bool.eq_false_iff, ne_eq, List.isPrefixOf_iff_prefix]
    rintro ⟨rest, hrest⟩
    exact h ⟨' ' :: rest, (List.cons.inj hrest).2⟩
  rw [scanLine, if_neg (by simp), if_neg (ne_true_of_eq_false hfile), if_neg (by simp),
    if_pos (by simp [List.isPrefixOf])]

lemma foldE_idle {lines : List Text} (h : ∀ line ∈ lines, Idle line) (s : Scan) :
    foldE lines scanLine s = .ok s := by
  induction lines with
  | nil => rfl
  | cons line lines ih =>
    rw [foldE, h line (by simp) s]
    exact ih fun l hl => h l (by simp [hl])

/-- No inserted line and no deleted line looks like a header behind its sign. -/
structure Plain (a b : List Text) (groups : List (List Opcode)) : Prop where
  inserted : ∀ line ∈ insertions b groups, ¬ "++".toList <+: line
  deleted : ∀ line ∈ deletions a groups, ¬ "--".toList <+: line

lemma idle_opcodeLines {group : List Opcode} (h : Plain a b [group]) :
    ∀ line ∈ group.flatMap (opcodeLines a b), Idle line := by
  intro line hline
  obtain ⟨op, hop, hline⟩ := List.mem_flatMap.mp hline
  simp only [opcodeLines, List.mem_append, List.mem_map] at hline
  rcases hline with ⟨text, -, rfl⟩ | ⟨text, htext, rfl⟩ | ⟨text, htext, rfl⟩
  · exact idle_context text
  · refine idle_removed (h.deleted text ?_)
    simpa [deletions] using ⟨op, hop, htext⟩
  · refine idle_added (h.inserted text ?_)
    simpa [insertions] using ⟨op, hop, htext⟩

lemma scanLine_hunkHeader {s : Scan} (h : s.current ≠ []) (first last : Opcode) :
    scanLine s (hunkHeader first last) =
      .ok (s.push (hunkOf ((s.hunks s.current).length + 1) first last)) := by
  have hgit : "diff --git ".toList.isPrefixOf (hunkHeader first last) = false := rfl
  have hold : "--- ".toList.isPrefixOf (hunkHeader first last) = false := rfl
  have hnew : "+++ ".toList.isPrefixOf (hunkHeader first last) = false := rfl
  have hat : "@@".toList.isPrefixOf (hunkHeader first last) = true := rfl
  rw [scanLine, if_neg (ne_true_of_eq_false hgit), if_neg (ne_true_of_eq_false hold),
    if_neg (ne_true_of_eq_false hnew), if_neg (by rw [hat]; simpa using h),
    parseHunkLine_hunkHeader]

def Scan.extend (s : Scan) (more : List ChangeHunk) : Scan :=
  { s with hunks := fun path =>
      if path = s.current then s.hunks path ++ more else s.hunks path }

lemma Scan.extend_nil (s : Scan) : s.extend [] = s := by
  cases s
  simp [Scan.extend]

/-- The headers of the groups are read as their hunks, and the lines between them as nothing. -/
lemma foldE_groupLines {s : Scan} (hcurrent : s.current ≠ []) (h : Plain a b groups) :
    foldE (groups.flatMap (groupLines a b)) scanLine s =
      .ok (s.extend (hunksFrom ((s.hunks s.current).length + 1) groups)) := by
  induction groups generalizing s with
  | nil =>
    rw [hunksFrom, s.extend_nil]
    rfl
  | cons group groups ih =>
    have hgroup : Plain a b [group] :=
      ⟨fun line hline => h.inserted line (by simp_all [insertions]),
        fun line hline => h.deleted line (by simp_all [deletions])⟩
    have hrest : Plain a b groups :=
      ⟨fun line hline => h.inserted line (by simp_all [insertions]),
        fun line hline => h.deleted line (by simp_all [deletions])⟩
    cases group with
    | nil => exact ih hcurrent hrest
    | cons first rest =>
      rw [List.flatMap_cons, foldE_append, groupLines, foldE,
        scanLine_hunkHeader hcurrent]
      set pushed := s.push (hunkOf ((s.hunks s.current).length + 1) first (rest.getLastD first))
        with hpushed
      have hnext : (pushed.hunks pushed.current).length = (s.hunks s.current).length + 1 := by
        simp [hpushed, Scan.push]
      have hextend : pushed.extend (hunksFrom ((s.hunks s.current).length + 2) groups) =
          s.extend (hunksFrom ((s.hunks s.current).length + 1) ((first :: rest) :: groups)) := by
        simp only [hpushed, Scan.push, Scan.extend, hunksFrom, Scan.mk.injEq, and_true]
        funext path
        split_ifs <;> simp
      have hpush := ih (s := pushed) hcurrent hrest
      rw [hnext] at hpush
      rw [← hextend, ← hpush]
      show foldE ((first :: rest).flatMap (opcodeLines a b)) scanLine pushed >>= _ = _
      rw [foldE_idle (idle_opcodeLines hgroup) pushed]
      rfl

end Changes

end Workspace

end Codey
