import Codey.Completion.UnifiedDiff
import Mathlib.Tactic.Linarith

/-!
# Sections of unified diffs

The sections of a harmless diff with plain changes are the changes of its files, each under the
path that its lines name.
-/

namespace Codey

namespace Completion

variable {st : Scan} {line text p path : List Char} {lines : List (List Char)} {f : FileDiff}
  {b : FileBody} {h : Hunk} {d : UnifiedDiff}

/-! ### One line -/

lemma headerPath_of_head (hline : line.head? ≠ some 'd') : headerPath line = none := by
  rw [headerPath, if_neg]
  rintro ⟨rest, rfl⟩
  exact hline rfl

lemma changeLine_eq_false :
    changeLine line = false ↔ line.head? ≠ some '+' ∧ line.head? ≠ some '-' := by
  simp [changeLine]

lemma fileLabel_of_changeLine (hline : changeLine line = false) : fileLabel line = false := by
  obtain ⟨hplus, hminus⟩ := changeLine_eq_false.mp hline
  rw [fileLabel, Bool.or_eq_false_iff]
  constructor
  · rw [Bool.eq_false_iff]
    intro hpre
    obtain ⟨rest, rfl⟩ := List.isPrefixOf_iff_prefix.mp hpre
    exact hplus rfl
  · rw [Bool.eq_false_iff]
    intro hpre
    obtain ⟨rest, rfl⟩ := List.isPrefixOf_iff_prefix.mp hpre
    exact hminus rfl

lemma headerPath_of_changeLine (hline : changeLine line = true) : headerPath line = none := by
  apply headerPath_of_head
  intro hd
  simp [changeLine, hd] at hline

lemma headerPath_of_fileLabel (hline : fileLabel line = true) : headerPath line = none := by
  apply headerPath_of_head
  rw [fileLabel, Bool.or_eq_true, List.isPrefixOf_iff_prefix, List.isPrefixOf_iff_prefix] at hline
  rcases hline with ⟨rest, rfl⟩ | ⟨rest, rfl⟩ <;> simp

@[simp] lemma closed_flush (path : List Char) : ({ st.flush with path := path } : Scan).closed =
    st.closed := by
  simp [Scan.closed, Scan.flush]

@[simp] lemma closed_inHunk (flag : Bool) : ({ st with inHunk := flag } : Scan).closed =
    st.closed := rfl

lemma step_header (hu : Unbroken line) (hpath : headerPath line = some path) :
    st.step line = { st.flush with path := path } := by
  simp only [Scan.step, rstripCr_of_unbroken hu, hpath]

lemma step_fileLabel (hu : Unbroken line) (hlabel : fileLabel line = true) :
    st.step line = { st.flush with path := labelPath st.path line } := by
  simp only [Scan.step, rstripCr_of_unbroken hu, headerPath_of_fileLabel hlabel, hlabel, ↓reduceIte]

lemma step_idle (hu : Unbroken line) (hidle : Idle line) (hout : st.inHunk = false) :
    st.step line = st := by
  obtain ⟨hheader, hlabel, hhunk⟩ := hidle
  simp only [Scan.step, rstripCr_of_unbroken hu, hheader, hlabel, hhunk, hout,
    Bool.false_eq_true, not_false_eq_true, ↓reduceIte]

lemma step_quiet (hu : Unbroken line) (hquiet : Quiet line) (hin : st.inHunk = true) :
    st.step line = st := by
  obtain ⟨hheader, hchange⟩ := hquiet
  have hself : { st with inHunk := true } = st := by rw [← hin]
  simp only [Scan.step, rstripCr_of_unbroken hu, hheader, fileLabel_of_changeLine hchange, hchange,
    hself, hin]
  simp

lemma step_hunk (hu : Unbroken line) (hhunk : "@@".toList <+: line) :
    st.step line = { st with inHunk := true } := by
  have hhead : line.head? = some '@' := by
    obtain ⟨rest, rfl⟩ := hhunk
    rfl
  have hchange : changeLine line = false := by simp [changeLine, hhead]
  have hheader : headerPath line = none := headerPath_of_head (by simp [hhead])
  simp only [Scan.step, rstripCr_of_unbroken hu, hheader, fileLabel_of_changeLine hchange, hhunk]
  simp

lemma step_change (hplain : PlainChange line) (hchange : changeLine line = true)
    (hin : st.inHunk = true) : st.step line = st.keep line := by
  have hhunk : ¬ "@@".toList <+: line := by
    rintro ⟨rest, rfl⟩
    simp [changeLine] at hchange
  have hmarker : line.head? ≠ some '\\' := by
    intro hhead
    simp [changeLine, hhead] at hchange
  simp only [Scan.step, rstripCr_of_unbroken hplain.unbroken, headerPath_of_changeLine hchange,
    hplain.nolabel, hhunk, hmarker, hchange, hin, Bool.false_eq_true, not_true_eq_false, ↓reduceIte]

lemma step_still (hu : Unbroken line) (hidle : Idle line) (hquiet : Quiet line) :
    st.step line = st := by
  by_cases hin : st.inHunk = true
  · exact step_quiet hu hquiet hin
  · exact step_idle hu hidle (by simpa using hin)

lemma step_nil : st.step [] = st :=
  step_still unbroken_nil ⟨rfl, rfl, by decide⟩ ⟨rfl, rfl⟩

/-! ### Lines that change nothing -/

lemma foldl_still (h : ∀ p ∈ lines, st.step p = st) : lines.foldl Scan.step st = st := by
  induction lines with
  | nil => rfl
  | cons line lines ih =>
    obtain ⟨hline, hlines⟩ := List.forall_mem_cons.mp h
    rw [List.foldl_cons, hline]
    exact ih hlines

lemma foldl_idle (hlines : ∀ p ∈ lines, Unbroken p ∧ Idle p) (hout : st.inHunk = false) :
    lines.foldl Scan.step st = st :=
  foldl_still fun p hp => step_idle (hlines p hp).1 (hlines p hp).2 hout

lemma foldl_quiet (hlines : ∀ p ∈ lines, Unbroken p ∧ Quiet p) (hin : st.inHunk = true) :
    lines.foldl Scan.step st = st :=
  foldl_still fun p hp => step_quiet (hlines p hp).1 (hlines p hp).2 hin

lemma foldl_replicate_nil (n : Nat) : (List.replicate n []).foldl Scan.step st = st :=
  foldl_still fun p hp => by rw [List.eq_of_mem_replicate hp, step_nil]

lemma unbroken_of_mem_pieces (hp : p ∈ pieces text) : Unbroken p := unbroken_of_mem_splitLines hp

lemma unbroken_of_mem_laterPieces (hp : p ∈ laterPieces text) : Unbroken p :=
  unbroken_of_mem_pieces (List.mem_of_mem_tail hp)

lemma pieces_eq (text : List Char) : pieces text = firstPiece text :: laterPieces text := by
  obtain ⟨first, later, hp⟩ := List.exists_cons_of_ne_nil (pieces_ne_nil text)
  simp [firstPiece, laterPieces, hp]

lemma unbroken_firstPiece : Unbroken (firstPiece text) :=
  unbroken_of_mem_pieces (by rw [pieces_eq]; exact List.mem_cons_self)

lemma pieces_front {front : List Char} (hfront : Unbroken front) (text : List Char) :
    pieces (front ++ text) = (front ++ firstPiece text) :: laterPieces text := by
  obtain ⟨first, later, hp, hf⟩ := pieces_append hfront text
  rw [hf, firstPiece, laterPieces, hp]
  rfl

lemma unbroken_append {front : List Char} (hfront : Unbroken front) (htext : Unbroken text) :
    Unbroken (front ++ text) := by
  intro ch hch
  rcases List.mem_append.mp hch with hch | hch
  · exact hfront ch hch
  · exact htext ch hch

/-! ### The head of a file -/

/-- The lines in front of the labels set the path, or nothing where the path is not recognised. -/
lemma foldl_head {before : Bool} (hf : f.Harmless before) (hin : st.inHunk = before) :
    ((("diff --git ".toList ++ f.header) :: f.extended).flatMap pieces).foldl Scan.step st =
      (f.gitPath.map fun path => { st.flush with path := path }).getD st := by
  have hfront : Unbroken "diff --git ".toList := by decide
  have hfirst : Unbroken ("diff --git ".toList ++ firstPiece f.header) :=
    unbroken_append hfront unbroken_firstPiece
  have hlater : ∀ p ∈ laterPieces f.header ++ f.extended.flatMap pieces, Unbroken p := by
    intro p hp
    rcases List.mem_append.mp hp with hp | hp
    · exact unbroken_of_mem_laterPieces hp
    · obtain ⟨line, -, hp⟩ := List.mem_flatMap.mp hp
      exact unbroken_of_mem_pieces hp
  rw [List.flatMap_cons, pieces_front hfront, List.cons_append, List.foldl_cons]
  cases hpath : f.gitPath with
  | some path =>
    rw [step_header hfirst hpath]
    exact foldl_idle (fun p hp => ⟨hlater p hp, hf.idle p hp⟩) rfl
  | none =>
    have hhead : ("diff --git ".toList ++ firstPiece f.header).head? = some 'd' := rfl
    have hchange : changeLine ("diff --git ".toList ++ firstPiece f.header) = false := by
      simp only [changeLine, hhead]
      decide
    have hhunk : ¬ "@@".toList <+: "diff --git ".toList ++ firstPiece f.header := by
      rintro ⟨rest, hrest⟩
      exact absurd (congrArg List.head? hrest) (by simp)
    rw [step_still hfirst ⟨hpath, fileLabel_of_changeLine hchange, hhunk⟩ ⟨hpath, hchange⟩]
    cases before with
    | true => exact foldl_quiet (fun p hp => ⟨hlater p hp, hf.quiet hpath rfl p hp⟩) hin
    | false => exact foldl_idle (fun p hp => ⟨hlater p hp, hf.idle p hp⟩) hin

lemma foldl_label {front : List Char} (hfront : front = "--- ".toList ∨ front = "+++ ".toList)
    (hlater : ∀ p ∈ laterPieces text, Idle p) (st : Scan) :
    (pieces (front ++ text)).foldl Scan.step st =
      { st.flush with path := labelPath st.path (front ++ firstPiece text) } := by
  have hu : Unbroken front := by rcases hfront with rfl | rfl <;> decide
  have hlabel : fileLabel (front ++ firstPiece text) = true := by
    rcases hfront with rfl | rfl <;> simp [fileLabel]
  rw [pieces_front hu, List.foldl_cons,
    step_fileLabel (unbroken_append hu unbroken_firstPiece) hlabel]
  exact foldl_idle (fun p hp => ⟨unbroken_of_mem_laterPieces hp, hlater p hp⟩) rfl

/-! ### Hunks -/

/-- The changes that a hunk line adds to the scan. -/
lemma foldl_diffLine {l : DiffLine} (hl : l.Harmless)
    (hplain : ∀ line ∈ l.change, PlainChange line) (hin : st.inHunk = true) :
    (pieces l.raw).foldl Scan.step st = l.change.toList.foldl Scan.keep st := by
  cases hchange : l.change with
  | none => exact foldl_quiet (fun p hp => ⟨unbroken_of_mem_pieces hp, hl hchange p hp⟩) hin
  | some line =>
    have hplain := hplain line hchange
    obtain ⟨sign, text, hsign, hraw, rfl⟩ : ∃ sign text, (sign = '+' ∨ sign = '-') ∧
        l.raw = sign :: text ∧ line = sign :: rstripCr text := by
      cases l with
      | added text => exact ⟨'+', text, .inl rfl, rfl, (Option.some.inj hchange).symm⟩
      | removed text => exact ⟨'-', text, .inr rfl, rfl, (Option.some.inj hchange).symm⟩
      | context text => simp [DiffLine.change] at hchange
      | noNewline text => simp [DiffLine.change] at hchange
      | empty => simp [DiffLine.change] at hchange
    obtain ⟨hsignu, htext⟩ := unbroken_cons.mp hplain.unbroken
    obtain ⟨n, hn⟩ := pieces_of_unbroken_rstripCr htext
    have hpieces : pieces (sign :: text) = (sign :: rstripCr text) :: List.replicate n [] := by
      obtain ⟨first, later, hp, hfirst⟩ :=
        pieces_append (unbroken_cons.mpr ⟨hsignu, unbroken_nil⟩) text
      rw [hn] at hp
      obtain ⟨rfl, rfl⟩ := List.cons.inj hp
      exact hfirst
    have hline : changeLine (sign :: rstripCr text) = true := by
      rcases hsign with rfl | rfl <;> simp [changeLine]
    rw [hraw, hpieces, List.foldl_cons, step_change hplain hline hin, foldl_replicate_nil]
    rfl

lemma keep_inHunk (flag : Bool) :
    ({ st with inHunk := flag } : Scan).keep line = { st.keep line with inHunk := flag } := by
  simp only [Scan.keep]
  split_ifs <;> rfl

lemma foldl_keep_inHunk (flag : Bool) :
    lines.foldl Scan.keep { st with inHunk := flag } =
      { lines.foldl Scan.keep st with inHunk := flag } := by
  induction lines generalizing st with
  | nil => rfl
  | cons line lines ih => rw [List.foldl_cons, List.foldl_cons, keep_inHunk, ih]

/-- A section keeps its first lines, and is saturated as soon as one has been left out. -/
lemma foldl_keep (hcurrent : st.current = []) (hsat : st.saturated = false) :
    lines.foldl Scan.keep st = { st with current := lines.take maxSectionLines
                                         saturated := decide (maxSectionLines < lines.length) } := by
  induction lines using List.reverseRecOn with
  | nil => obtain ⟨sections, path, current, inHunk, saturated⟩ := st; simp_all
  | append_singleton lines line ih =>
    rw [List.foldl_append, ih, List.foldl_cons, List.foldl_nil, Scan.keep]
    by_cases hfull : maxSectionLines ≤ lines.length
    · rw [if_pos (by simpa using hfull), List.take_append_of_le_length hfull]
      simp [Nat.lt_succ_of_le hfull]
    · have hlt : lines.length < maxSectionLines := by omega
      rw [if_neg (by simpa using hlt), List.take_of_length_le hlt.le,
        List.take_of_length_le (by rw [List.length_append, List.length_singleton]; omega)]
      simp only [List.length_append, List.length_singleton, Scan.mk.injEq, true_and,
        decide_eq_decide]
      omega

lemma foldl_hunkLines {ls : List DiffLine} (hls : ∀ l ∈ ls, l.Harmless)
    (hplain : ∀ line ∈ ls.filterMap DiffLine.change, PlainChange line) (hin : st.inHunk = true) :
    ((ls.map DiffLine.raw).flatMap pieces).foldl Scan.step st =
      (ls.filterMap DiffLine.change).foldl Scan.keep st := by
  induction ls generalizing st with
  | nil => rfl
  | cons l ls ih =>
    obtain ⟨hl, hls⟩ := List.forall_mem_cons.mp hls
    simp only [List.mem_filterMap, List.mem_cons, exists_eq_or_imp] at hplain
    have hone : ∀ line ∈ l.change, PlainChange line := fun line hline => hplain line (.inl hline)
    have hrest : ∀ line ∈ ls.filterMap DiffLine.change, PlainChange line := fun line hline =>
      hplain line (.inr (List.mem_filterMap.mp hline))
    have hkeep : (l.change.toList.foldl Scan.keep st).inHunk = true := by
      have hself : ({ st with inHunk := true } : Scan) = st := by rw [← hin]
      rw [← hself, foldl_keep_inHunk]
    rw [List.map_cons, List.flatMap_cons, List.foldl_append, foldl_diffLine hl hone hin,
      ih hls hrest hkeep,
      ← List.foldl_append]
    congr 1
    cases hchange : l.change with
    | none => simp [hchange]
    | some line => simp [hchange]

/-- The changes of hunks are kept, whatever else stands in the hunks. -/
lemma foldl_hunks {hs : List Hunk} (hhs : ∀ h ∈ hs, h.Harmless)
    (hplain : ∀ line ∈ hs.flatMap fun h => h.lines.filterMap DiffLine.change, PlainChange line)
    (st : Scan) : ((hs.flatMap Hunk.raw).flatMap pieces).foldl Scan.step st =
      { (hs.flatMap fun h => h.lines.filterMap DiffLine.change).foldl Scan.keep st with
        inHunk := !hs.isEmpty || st.inHunk } := by
  induction hs generalizing st with
  | nil => rfl
  | cons h hs ih =>
    obtain ⟨hh, hhs⟩ := List.forall_mem_cons.mp hhs
    simp only [List.flatMap_cons, List.mem_append, or_imp, forall_and] at hplain
    have hfront : Unbroken "@@".toList := by decide
    have hrange : (pieces ("@@".toList ++ h.range)).foldl Scan.step st =
        { st with inHunk := true } := by
      rw [pieces_front hfront, List.foldl_cons,
        step_hunk (unbroken_append hfront unbroken_firstPiece) (List.prefix_append _ _)]
      exact foldl_quiet (fun p hp => ⟨unbroken_of_mem_laterPieces hp, hh.range p hp⟩) rfl
    have hrest := ih hhs hplain.2 ({ (h.lines.filterMap DiffLine.change).foldl Scan.keep st with
      inHunk := true })
    rw [List.flatMap_cons, List.flatMap_append, List.foldl_append, Hunk.raw, List.flatMap_cons,
      List.foldl_append, hrange, foldl_hunkLines hh.lines hplain.1 rfl, foldl_keep_inHunk, hrest,
      foldl_keep_inHunk, List.flatMap_cons, List.foldl_append]
    simp

/-! ### Files -/

/-- The section that a file is to have under a path: its first changes, flagged where some are
missing. -/
def FileDiff.sectionsUnder (path : List Char) (f : FileDiff) : List DiffSection :=
  if path = [] ∨ f.changes = [] then []
  else [⟨path, f.changes.take maxSectionLines, maxSectionLines < f.changes.length⟩]

/-- What the scan of a file leaves. -/
structure Scan.Read (st st' : Scan) (f : FileDiff) : Prop where
  closed : st'.closed = st.closed ++ f.sectionsUnder (f.named st.path)
  path : st'.path = f.named st.path
  inHunk : st'.inHunk = f.inside st.inHunk

/-- The scan of a harmless file with plain changes adds the file's section. -/
lemma read_file (hf : f.Harmless st.inHunk) (hplain : f.PlainChanges) :
    st.Read ((f.raw.flatMap pieces).foldl Scan.step st) f := by
  set st₁ := (f.gitPath.map fun path => { st.flush with path := path }).getD st with hst₁
  have hhead : st₁.closed = st.closed ∧ st₁.path = f.gitPath.getD st.path ∧
      st₁.inHunk = (f.gitPath.isNone && st.inHunk) := by
    rw [hst₁]
    cases f.gitPath with
    | none => exact ⟨rfl, rfl, (Bool.true_and _).symm⟩
    | some path => exact ⟨closed_flush path, rfl, rfl⟩
  obtain ⟨hclosed, hpath, hinside⟩ := hhead
  cases hbody : f.body with
  | none =>
    have hscan : (f.raw.flatMap pieces).foldl Scan.step st = st₁ := by
      rw [FileDiff.raw, hbody, Option.map_none, Option.getD_none, List.append_nil,
        foldl_head hf rfl]
    have hchanges : f.changes = [] := by simp [FileDiff.changes, FileDiff.hunks, hbody]
    rw [hscan]
    refine ⟨?_, ?_, ?_⟩
    · rw [hclosed, FileDiff.sectionsUnder, if_pos (.inr hchanges), List.append_nil]
    · rw [hpath, FileDiff.named, hbody]
    · rw [hinside, FileDiff.inside, hbody]
  | some b =>
    have hb := hf.body b hbody
    have hchanges : f.changes = b.hunks.flatMap fun h => h.lines.filterMap DiffLine.change := by
      simp [FileDiff.changes, FileDiff.hunks, hbody]
    rw [FileDiff.PlainChanges, hchanges] at hplain
    set st₂ : Scan := { st₁.flush with
      path := labelPath st₁.path ("--- ".toList ++ firstPiece b.oldLabel) } with hst₂
    set st₃ : Scan := { st₂.flush with
      path := labelPath st₂.path ("+++ ".toList ++ firstPiece b.newLabel) } with hst₃
    have hnamed : st₃.path = f.named st.path := by
      rw [FileDiff.named, hbody, ← hpath]
    have hsections : st₃.sections = st.closed := by
      rw [← hclosed]
      exact closed_flush (labelPath st₁.path _)
    have hscan : (f.raw.flatMap pieces).foldl Scan.step st =
        { f.changes.foldl Scan.keep st₃ with inHunk := !b.hunks.isEmpty || st₃.inHunk } := by
      rw [FileDiff.raw, hbody, Option.map_some, Option.getD_some, List.flatMap_append,
        List.foldl_append, foldl_head hf rfl, FileBody.raw, List.flatMap_cons, List.flatMap_cons,
        List.foldl_append, List.foldl_append, foldl_label (.inl rfl) hb.oldLabel,
        foldl_label (.inr rfl) hb.newLabel, foldl_hunks hb.hunks hplain, hchanges]
    rw [hscan, foldl_keep (by rfl) (by rfl)]
    refine ⟨?_, hnamed, ?_⟩
    · rw [closed_inHunk, FileDiff.sectionsUnder, ← hnamed]
      by_cases hempty : st₃.path = [] ∨ f.changes = []
      · rw [if_pos hempty, List.append_nil, ← hsections, Scan.closed, if_neg]
        rintro ⟨hne, htake⟩
        obtain hnil | hnil := hempty
        · exact hne hnil
        · exact htake (by simp [hnil])
      · obtain ⟨hne, hsome⟩ := not_or.mp hempty
        have htake : f.changes.take maxSectionLines ≠ [] := by
          simp [List.take_eq_nil_iff, hsome, maxSectionLines]
        rw [if_neg hempty, ← hsections]
        simp [Scan.closed, hne, htake, List.take_take]
    · rw [FileDiff.inside, hbody]
      exact Bool.or_false _

lemma closed_files {fs : List FileDiff} (hfs : HarmlessFrom st.inHunk fs)
    (hplain : ∀ f ∈ fs, f.PlainChanges) :
    (((fs.flatMap FileDiff.raw).flatMap pieces).foldl Scan.step st).closed =
      st.closed ++ (namedFrom st.path fs).flatMap fun p => p.2.sectionsUnder p.1 := by
  induction fs generalizing st with
  | nil => exact (List.append_nil _).symm
  | cons f fs ih =>
    obtain ⟨hf, hfs⟩ := hfs
    obtain ⟨hone, hplain⟩ := List.forall_mem_cons.mp hplain
    obtain ⟨hclosed, hpath, hinside⟩ := read_file hf hone
    rw [← hinside] at hfs
    rw [List.flatMap_cons, List.flatMap_append, List.foldl_append, ih hfs hplain, hclosed, hpath,
      namedFrom, List.flatMap_cons, List.append_assoc]

/-- A newline at the end of the text makes no difference to the scan. -/
lemma foldl_splitLines (d : UnifiedDiff) :
    (splitLines d.text).foldl Scan.step {} =
      ((d.files.flatMap FileDiff.raw).flatMap pieces).foldl Scan.step {} := by
  rw [← splitLines_unlines, UnifiedDiff.text]
  cases d.final with
  | true => rfl
  | false =>
    rcases List.eq_nil_or_concat (d.files.flatMap FileDiff.raw) with hnil | ⟨init, last, hlast⟩
    · rw [hnil]
      rfl
    · have htext : unlines (init ++ [last]) = (unlines init ++ last) ++ ['\n'] := by
        simp [unlines]
      simp only [hlast, List.concat_eq_append, htext, List.dropLast_concat, Bool.false_eq_true,
        ↓reduceIte]
      rcases pieces_eq_or (unlines init ++ last) with h | h
      · rw [← h, pieces]
      · rw [← pieces, h, List.foldl_append, List.foldl_cons, List.foldl_nil, step_nil]

theorem diffFileSections_of_plain (hd : d.Harmless) (hplain : ∀ f ∈ d.files, f.PlainChanges) :
    diffFileSections d.text = d.namedFiles.flatMap fun p => p.2.sectionsUnder p.1 := by
  have hharmless : HarmlessFrom ({} : Scan).inHunk d.files := hd
  rw [diffFileSections, foldl_splitLines, closed_files hharmless hplain]
  rfl

end Completion

end Codey
