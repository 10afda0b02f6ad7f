import Codey.Lib.Lists
import Codey.Workspace.ChangeLines

/-!
# Changes that are read back

The change set that is read from collected changes has the hunks and the counts of every file just
when no changed line looks like a file header behind its sign.
-/

namespace Codey

namespace Workspace

namespace Changes

/-! ### Paths in headers -/

/-- A path that the headers of a diff show as it is: it is safe, it stays on its line, it is not
quoted, and the first header can be read. -/
structure Displayable (path : Text) : Prop where
  ne : path ≠ []
  safe : safeChangePath path = path
  stripped : strip path = path
  inline : ∀ ch ∈ path, ch ≠ '\t' ∧ ch ≠ '\n' ∧ ch ≠ '\r'
  unquoted : quoted path = false
  readable : ∃ named, pathFromDiffGit (gitHeader path) = .ok named

variable {path : Text}

lemma rowPath_of_displayable (h : Displayable path) : rowPath path = .ok path := by
  rw [rowPath, decodeGitPath, h.unquoted, if_neg (by simp), h.stripped]
  exact congrArg Except.ok h.safe

lemma strip_append_of_stripped {front path : Text} {ch : Char} (hch : blank ch = false)
    (hne : path ≠ []) (h : strip path = path) :
    strip (ch :: (front ++ path)) = ch :: (front ++ path) := by
  have hlast : ¬ blank (path.getLast hne) = true := by
    have hfixed : (path.dropWhile blank).rdropWhile blank = path := h
    simpa only [hfixed] using
      List.rdropWhile_last_not blank (path.dropWhile blank) (by rwa [hfixed])
  rw [strip, List.dropWhile_cons_of_neg (by simp [hch]), List.rdropWhile_eq_self_iff]
  intro hcons
  rwa [List.getLast_cons (by simp [hne]), List.getLast_append_of_right_ne_nil _ _ hne]

/-- Both sides of a diff name the path. -/
lemma pathFromFileHeader_side (h : Displayable path) {side : Char}
    (hside : side = 'a' ∨ side = 'b') : pathFromFileHeader (side :: '/' :: path) = .ok path := by
  have htab : (side :: '/' :: path).takeWhile (· ≠ '\t') = side :: '/' :: path := by
    rw [List.takeWhile_eq_self_iff]
    intro ch hch
    rcases List.mem_cons.mp hch with rfl | hch
    · rcases hside with rfl | rfl <;> decide
    · rcases List.mem_cons.mp hch with rfl | hch
      · decide
      · simpa using (h.inline ch hch).1
  have hstrip : strip (side :: '/' :: path) = side :: '/' :: path := by
    refine @strip_append_of_stripped ['/'] path side ?_ h.ne h.stripped
    rcases hside with rfl | rfl <;> rfl
  have hquoted : quoted (side :: '/' :: path) = false := by
    rcases hside with rfl | rfl <;> simp [quoted]
  have hnull : side :: '/' :: path ≠ "/dev/null".toList := by
    rintro heq
    have := (List.cons.inj heq).1
    rcases hside with rfl | rfl <;> exact absurd this (by decide)
  rw [pathFromFileHeader, htab, hstrip, if_neg hnull, stripDiffPrefix, hstrip, decodeGitPath,
    hquoted, if_neg (by simp), hstrip]
  refine congrArg Except.ok ?_
  rw [withoutPrefix, if_neg (by simp)]
  rcases hside with rfl | rfl
  · exact h.safe
  · exact h.safe

lemma pathFromFileHeader_devNull : pathFromFileHeader "/dev/null".toList = .ok [] := by
  decide +kernel

/-! ### The scan of one file -/

section

variable (groupedOpcodes : List Text → List Text → List (List Opcode))

def Snapshot.Plain (s : Snapshot) : Prop := Changes.Plain s.old s.new (s.groups groupedOpcodes)

def Snapshot.hunks (s : Snapshot) : List ChangeHunk := hunksFrom 1 (s.groups groupedOpcodes)

def Snapshot.fileLines (s : Snapshot) : List Text :=
  if s.groups groupedOpcodes = [] then [] else gitHeader s.path :: s.diffLines groupedOpcodes

end

variable {groupedOpcodes : List Text → List Text → List (List Opcode)} {s : Snapshot}

lemma scanLine_oldHeader (sc : Scan) {label path : Text} (h : pathFromFileHeader label = .ok path) :
    scanLine sc ("--- ".toList ++ label) = .ok { sc with pendingOld := path } := by
  have hgit : "diff --git ".toList.isPrefixOf ("--- ".toList ++ label) = false := rfl
  have hold : "--- ".toList.isPrefixOf ("--- ".toList ++ label) = true := rfl
  have hdrop : ("--- ".toList ++ label).drop 4 = label := rfl
  rw [scanLine, if_neg (ne_true_of_eq_false hgit), if_pos hold, hdrop, h]
  rfl

lemma scanLine_newHeader (sc : Scan) {label path : Text} (h : pathFromFileHeader label = .ok path) :
    scanLine sc ("+++ ".toList ++ label) = .ok (sc.select path) := by
  have hgit : "diff --git ".toList.isPrefixOf ("+++ ".toList ++ label) = false := rfl
  have hold : "--- ".toList.isPrefixOf ("+++ ".toList ++ label) = false := rfl
  have hnew : "+++ ".toList.isPrefixOf ("+++ ".toList ++ label) = true := rfl
  have hdrop : ("+++ ".toList ++ label).drop 4 = label := rfl
  rw [scanLine, if_neg (ne_true_of_eq_false hgit), if_neg (ne_true_of_eq_false hold), if_pos hnew,
    hdrop, h]
  rfl

lemma scanLine_gitHeader (sc : Scan) (h : Displayable path) :
    ∃ named, scanLine sc (gitHeader path) =
      .ok { sc with current := named, pendingOld := [] } := by
  obtain ⟨named, hnamed⟩ := h.readable
  have hgit : "diff --git ".toList.isPrefixOf (gitHeader path) = true := rfl
  refine ⟨named, ?_⟩
  rw [scanLine, if_pos hgit, hnamed]
  rfl

/-- The headers of a file that changed select its path. -/
lemma exists_foldE_headers (sc : Scan) (h : Displayable s.path) (hchanged : s.before ≠ s.after) :
    ∃ sc' : Scan, sc'.hunks = sc.hunks ∧ sc'.current = s.path ∧
      foldE [gitHeader s.path,
        "--- ".toList ++ (if s.before = none then "/dev/null".toList else "a/".toList ++ s.path),
        "+++ ".toList ++ (if s.after = none then "/dev/null".toList else "b/".toList ++ s.path)]
        scanLine sc = .ok sc' := by
  obtain ⟨named, hgit⟩ := scanLine_gitHeader sc h
  have hold : pathFromFileHeader
      (if s.before = none then "/dev/null".toList else "a/".toList ++ s.path) =
      .ok (if s.before = none then [] else s.path) := by
    split_ifs
    · exact pathFromFileHeader_devNull
    · exact pathFromFileHeader_side h (.inl rfl)
  have hnew : pathFromFileHeader
      (if s.after = none then "/dev/null".toList else "b/".toList ++ s.path) =
      .ok (if s.after = none then [] else s.path) := by
    split_ifs
    · exact pathFromFileHeader_devNull
    · exact pathFromFileHeader_side h (.inr rfl)
  refine ⟨Scan.select { sc with
    current := named
    pendingOld := if s.before = none then [] else s.path } (if s.after = none then [] else s.path),
    rfl, ?_, ?_⟩
  · by_cases hafter : s.after = none
    · have hbefore : s.before ≠ none := fun hbefore => hchanged (hbefore.trans hafter.symm)
      simp [Scan.select, hafter, hbefore, h.ne]
    · simp [Scan.select, hafter, h.ne]
  · rw [foldE, hgit]
    show foldE _ scanLine _ = _
    rw [foldE, scanLine_oldHeader _ hold]
    show foldE _ scanLine _ = _
    rw [foldE, scanLine_newHeader _ hnew]
    rfl

/-- The lines of a file put its hunks behind those of its path and change no other path. -/
lemma exists_foldE_fileLines (sc : Scan) (h : Displayable s.path) (hchanged : s.before ≠ s.after)
    (hplain : s.Plain groupedOpcodes) (hfresh : sc.hunks s.path = []) :
    ∃ sc' : Scan, foldE (s.fileLines groupedOpcodes) scanLine sc = .ok sc' ∧
      sc'.hunks s.path = s.hunks groupedOpcodes ∧
      ∀ path, path ≠ s.path → sc'.hunks path = sc.hunks path := by
  by_cases hgroups : s.groups groupedOpcodes = []
  · refine ⟨sc, ?_, ?_, fun path _ => rfl⟩
    · rw [Snapshot.fileLines, if_pos hgroups]
      rfl
    · rw [hfresh, Snapshot.hunks, hgroups]
      rfl
  · obtain ⟨mid, hhunks, hcurrent, hmid⟩ := exists_foldE_headers sc h hchanged
    have hlines : s.fileLines groupedOpcodes = [gitHeader s.path,
        "--- ".toList ++ (if s.before = none then "/dev/null".toList else "a/".toList ++ s.path),
        "+++ ".toList ++ (if s.after = none then "/dev/null".toList else "b/".toList ++ s.path)] ++
        (s.groups groupedOpcodes).flatMap (groupLines s.old s.new) := by
      rw [Snapshot.fileLines, if_neg hgroups, Snapshot.diffLines, unifiedDiff, if_neg hgroups]
      rfl
    have hbody := foldE_groupLines (s := mid) (by rw [hcurrent]; exact h.ne) hplain
    refine ⟨mid.extend (hunksFrom ((mid.hunks mid.current).length + 1)
      (s.groups groupedOpcodes)), ?_, ?_, fun path hpath => ?_⟩
    · rw [hlines, foldE_append, hmid]
      exact hbody
    · simp [Scan.extend, hcurrent, hhunks, hfresh, Snapshot.hunks]
    · simp [Scan.extend, hcurrent, hhunks, hpath]

/-! ### The scan of all files -/

variable {changed : List Snapshot}

/-- Every file finds its own hunks, and every other path keeps what it had. -/
lemma exists_foldE_files (sc : Scan) (hdisplayable : ∀ s ∈ changed, Displayable s.path)
    (hchanged : ∀ s ∈ changed, s.before ≠ s.after)
    (hplain : ∀ s ∈ changed, s.Plain groupedOpcodes) (hnodup : (changed.map (·.path)).Nodup)
    (hfresh : ∀ s ∈ changed, sc.hunks s.path = []) :
    ∃ sc' : Scan,
      foldE (changed.flatMap (Snapshot.fileLines groupedOpcodes)) scanLine sc = .ok sc' ∧
      (∀ s ∈ changed, sc'.hunks s.path = s.hunks groupedOpcodes) ∧
      ∀ path, path ∉ changed.map (·.path) → sc'.hunks path = sc.hunks path := by
  induction changed generalizing sc with
  | nil => exact ⟨sc, rfl, by simp, fun path _ => rfl⟩
  | cons s changed ih =>
    rw [List.map_cons, List.nodup_cons] at hnodup
    obtain ⟨mid, hmid, hown, hother⟩ := exists_foldE_fileLines sc (hdisplayable s (by simp))
      (hchanged s (by simp)) (hplain s (by simp)) (hfresh s (by simp))
    have hne : ∀ t ∈ changed, t.path ≠ s.path := fun t ht heq =>
      hnodup.1 (List.mem_map.mpr ⟨t, ht, heq⟩)
    obtain ⟨last, hlast, hall, hrest⟩ := ih mid (fun t ht => hdisplayable t (by simp [ht]))
      (fun t ht => hchanged t (by simp [ht])) (fun t ht => hplain t (by simp [ht])) hnodup.2
      (fun t ht => (hother _ (hne t ht)).trans (hfresh t (by simp [ht])))
    refine ⟨last, ?_, ?_, fun path hpath => ?_⟩
    · rw [List.flatMap_cons, foldE_append, hmid]
      exact hlast
    · intro t ht
      rcases List.mem_cons.mp ht with rfl | ht
      · rw [hrest _ hnodup.1, hown]
      · exact hall t ht
    · rw [List.map_cons, List.mem_cons, not_or] at hpath
      rw [hrest path hpath.2, hother path hpath.1]

/-! ### The lines of the whole diff -/

def Inline (line : Text) : Prop := ∀ ch ∈ line, ch ≠ '\n' ∧ ch ≠ '\r'

lemma Inline.append {line rest : Text} (h : Inline line) (hrest : Inline rest) :
    Inline (line ++ rest) := by
  intro ch hch
  rcases List.mem_append.mp hch with hch | hch
  · exact h ch hch
  · exact hrest ch hch

lemma inline_of_displayable (h : Displayable path) : Inline path :=
  fun ch hch => (h.inline ch hch).2

lemma inline_decimal (n : Nat) : Inline (decimal n) := by
  intro ch hch
  have hdigit : ch.isDigit = true := Nat.isDigit_of_mem_toDigits (by decide) (by decide) hch
  constructor
  · rintro rfl
    exact absurd hdigit (by decide)
  · rintro rfl
    exact absurd hdigit (by decide)

lemma inline_formatRange (start stop : Nat) : Inline (formatRange start stop) := by
  rw [formatRange]
  split_ifs
  · exact inline_decimal _
  · have hcomma : Inline [','] := by simp [Inline]
    exact (inline_decimal _).append (hcomma.append (inline_decimal _))

lemma inline_hunkHeader (first last : Opcode) : Inline (hunkHeader first last) := by
  have hstart : Inline "@@ -".toList := by simp [Inline]
  have hplus : Inline " +".toList := by simp [Inline]
  have hstop : Inline " @@".toList := by simp [Inline]
  exact hstart.append ((inline_formatRange _ _).append
    (hplus.append ((inline_formatRange _ _).append hstop)))

lemma inline_of_mem_textLines {text : Option Text} {line : Text} (h : line ∈ textLines text) :
    Inline line := by
  cases text with
  | none => cases h
  | some text =>
    have hline : Unbroken line := unbroken_of_mem_splitLines h
    intro ch hch
    constructor
    · rintro rfl
      exact absurd (hline _ hch) (by decide)
    · rintro rfl
      exact absurd (hline _ hch) (by decide)

lemma inline_opcodeLines {a b : List Text} (ha : ∀ line ∈ a, Inline line)
    (hb : ∀ line ∈ b, Inline line) (op : Opcode) : ∀ line ∈ opcodeLines a b op, Inline line := by
  have hsign {sign : Char} {text : Text} (hsign : sign ≠ '\n' ∧ sign ≠ '\r') (h : Inline text) :
      Inline (sign :: text) := by
    intro ch hch
    rcases List.mem_cons.mp hch with rfl | hch
    · exact hsign
    · exact h ch hch
  intro line hline
  simp only [opcodeLines, List.mem_append, List.mem_map, Opcode.kept, Opcode.deleted,
    Opcode.inserted] at hline
  rcases hline with ⟨text, htext, rfl⟩ | ⟨text, htext, rfl⟩ | ⟨text, htext, rfl⟩
  · split_ifs at htext
    · exact hsign (by decide) (ha text (mem_of_mem_slice htext))
    · cases htext
  · split_ifs at htext
    · exact hsign (by decide) (ha text (mem_of_mem_slice htext))
    · cases htext
  · split_ifs at htext
    · exact hsign (by decide) (hb text (mem_of_mem_slice htext))
    · cases htext

lemma inline_groupLines {a b : List Text} (ha : ∀ line ∈ a, Inline line)
    (hb : ∀ line ∈ b, Inline line) (group : List Opcode) :
    ∀ line ∈ groupLines a b group, Inline line := by
  cases group with
  | nil => simp [groupLines]
  | cons first rest =>
    intro line hline
    rw [groupLines, List.mem_cons] at hline
    rcases hline with rfl | hline
    · exact inline_hunkHeader _ _
    · obtain ⟨op, -, hline⟩ := List.mem_flatMap.mp hline
      exact inline_opcodeLines ha hb op line hline

lemma inline_gitHeader (h : Inline path) : Inline (gitHeader path) := by
  have hgit : Inline "diff --git ".toList := by simp [Inline]
  have hold : Inline "a/".toList := by simp [Inline]
  have hnew : Inline " b/".toList := by simp [Inline]
  exact hgit.append (hold.append (h.append (hnew.append h)))

/-- A file's lines are lines. -/
lemma inline_fileLines (h : Displayable s.path) :
    ∀ line ∈ s.fileLines groupedOpcodes, Inline line := by
  have hpath := inline_of_displayable h
  have hlabel {side : Text} (hside : Inline side) (text : Option Text) :
      Inline (if text = none then "/dev/null".toList else side ++ s.path) := by
    split_ifs
    · simp [Inline]
    · exact hside.append hpath
  have hminus : Inline "--- ".toList := by simp [Inline]
  have hplus : Inline "+++ ".toList := by simp [Inline]
  intro line hline
  rw [Snapshot.fileLines] at hline
  split_ifs at hline with hgroups
  · cases hline
  · rw [Snapshot.diffLines, unifiedDiff, if_neg hgroups] at hline
    simp only [List.mem_cons, List.mem_flatMap] at hline
    rcases hline with rfl | rfl | rfl | ⟨group, -, hline⟩
    · exact inline_gitHeader hpath
    · exact hminus.append (hlabel (by simp [Inline]) _)
    · exact hplus.append (hlabel (by simp [Inline]) _)
    · exact inline_groupLines (fun _ => inline_of_mem_textLines)
        (fun _ => inline_of_mem_textLines) group line hline

/-! ### Joining -/

lemma joinLines_append {lines more : List Text} (hlines : lines ≠ []) (hmore : more ≠ []) :
    joinLines (lines ++ more) = joinLines lines ++ '\n' :: joinLines more := by
  induction lines with
  | nil => exact absurd rfl hlines
  | cons line lines ih =>
    cases lines with
    | nil =>
      obtain ⟨first, rest, rfl⟩ := List.exists_cons_of_ne_nil hmore
      simp [joinLines, List.intercalate_cons_cons]
    | cons next lines =>
      have := ih (by simp)
      simp only [joinLines, List.cons_append, List.intercalate_cons_cons] at this ⊢
      rw [this]
      simp

/-- Blocks of lines with a blank line between them are the lines with an empty one between. -/
lemma intercalate_joinLines {blocks : List (List Text)} (h : ∀ block ∈ blocks, block ≠ []) :
    ['\n', '\n'].intercalate (blocks.map joinLines) = joinLines ([[]].intercalate blocks) := by
  induction blocks with
  | nil => rfl
  | cons block blocks ih =>
    cases blocks with
    | nil => simp
    | cons next blocks =>
      have hrest := ih fun b hb => h b (by simp [hb])
      have hne : [[]].intercalate (next :: blocks) ≠ [] := by
        have hnext := h next (by simp)
        cases blocks with
        | nil => simpa using hnext
        | cons other blocks => simp [List.intercalate_cons_cons]
      simp only [List.map_cons, List.intercalate_cons_cons] at hrest ⊢
      rw [List.append_assoc, List.append_assoc, joinLines_append (h block (by simp)) (by simp),
        joinLines_append (by simp) hne, hrest]
      rfl

lemma diffLines_joinLines {lines : List Text} (h : ∀ line ∈ lines, Inline line)
    (hne : lines ≠ []) : diffLines (joinLines lines) = lines := by
  have hcr : '\r' ∉ joinLines lines := by
    intro hmem
    rcases mem_intercalate hmem with hnl | ⟨line, hline, hch⟩
    · exact absurd hnl (by decide)
    · exact (h line hline _ hch).2 rfl
  rw [diffLines, universalNewlines_eq_self hcr]
  exact List.splitOn_intercalate _ (fun line hline hnl => (h line hline _ hnl).1 rfl) hne

/-- Empty lines between blocks are passed over. -/
lemma foldE_intercalate (blocks : List (List Text)) (sc : Scan) :
    foldE ([[]].intercalate blocks) scanLine sc = foldE blocks.flatten scanLine sc := by
  induction blocks generalizing sc with
  | nil => rfl
  | cons block blocks ih =>
    cases blocks with
    | nil => simp
    | cons next blocks =>
      rw [List.intercalate_cons_cons, List.append_assoc, foldE_append, List.flatten_cons,
        foldE_append]
      refine congrArg (foldE block scanLine sc >>= ·) (funext fun mid => ?_)
      rw [foldE_append, foldE, idle_nil mid, ← ih]
      rfl

lemma joinLines_ne_nil (line next : Text) (lines : List Text) :
    joinLines (line :: next :: lines) ≠ [] := by
  rw [joinLines, List.intercalate_cons_cons]
  simp

lemma exists_diffLines_eq (hgroups : s.groups groupedOpcodes ≠ []) :
    ∃ line next lines, s.diffLines groupedOpcodes = line :: next :: lines := by
  rw [Snapshot.diffLines, unifiedDiff, if_neg hgroups]
  exact ⟨_, _, _, rfl⟩

/-- The part of a file in the diff is its lines. -/
lemma part_eq (s : Snapshot) : (diffAndCounts groupedOpcodes s).1 =
    joinLines (s.fileLines groupedOpcodes) := by
  by_cases hgroups : s.groups groupedOpcodes = []
  · have hlines : s.diffLines groupedOpcodes = [] := by
      rw [Snapshot.diffLines, unifiedDiff, if_pos hgroups]
    rw [Snapshot.fileLines, if_pos hgroups, diffAndCounts, hlines]
    rfl
  · obtain ⟨line, next, lines, hlines⟩ := exists_diffLines_eq hgroups
    rw [Snapshot.fileLines, if_neg hgroups, ← List.singleton_append, diffAndCounts, hlines,
      joinLines_append (by simp) (by simp)]
    have hgit : joinLines [gitHeader s.path] = gitHeader s.path := List.intercalate_singleton
    rw [hgit]
    exact if_neg (joinLines_ne_nil line next lines)

lemma joinLines_fileLines_eq_nil : joinLines (s.fileLines groupedOpcodes) = [] ↔
    s.fileLines groupedOpcodes = [] := by
  refine ⟨fun h => ?_, fun h => by rw [h]; rfl⟩
  by_cases hgroups : s.groups groupedOpcodes = []
  · rw [Snapshot.fileLines, if_pos hgroups]
  · obtain ⟨line, next, lines, hlines⟩ := exists_diffLines_eq hgroups
    rw [Snapshot.fileLines, if_neg hgroups, hlines] at h
    exact absurd h (joinLines_ne_nil _ _ _)

/-- Reading the hunks of the whole diff is the scan of the lines of all files. -/
lemma parseHunks_fullDiff (hdisplayable : ∀ s ∈ changed, Displayable s.path) :
    parseHunks (fullDiff groupedOpcodes changed) =
      (foldE (changed.flatMap (Snapshot.fileLines groupedOpcodes)) scanLine {}).map (·.hunks) := by
  set blocks := (changed.map (Snapshot.fileLines groupedOpcodes)).filter (· ≠ []) with hblocks
  have hparts : (changed.map fun s => (diffAndCounts groupedOpcodes s).1).filter (· ≠ []) =
      blocks.map joinLines := by
    simp only [hblocks, part_eq, List.filter_map, List.map_map, Function.comp_def, ne_eq,
      joinLines_fileLines_eq_nil]
  have hflatten : blocks.flatten = changed.flatMap (Snapshot.fileLines groupedOpcodes) := by
    rw [hblocks, List.flatMap, List.flatten_filter_ne_nil]
  have hne : ∀ block ∈ blocks, block ≠ [] := by
    intro block hblock
    simpa using (List.mem_filter.mp hblock).2
  have hinline : ∀ line ∈ [[]].intercalate blocks, Inline line := by
    intro line hline
    rcases mem_intercalate hline with hempty | ⟨block, hblock, hmem⟩
    · simp_all [Inline]
    · obtain ⟨s, hs, rfl⟩ := List.mem_map.mp (List.mem_filter.mp hblock).1
      exact inline_fileLines (hdisplayable s hs) line hmem
  rw [fullDiff, hparts, intercalate_joinLines hne, ← hflatten, ← foldE_intercalate, parseHunks]
  by_cases hnil : [[]].intercalate blocks = []
  · rw [hnil]
    rfl
  · rw [diffLines_joinLines hinline hnil]

/-! ### The rows -/

/-- `str.upper` leaves upper case letters as they are. -/
def KeepsUpper (upper : Text → Text) : Prop :=
  ∀ text : Text, (∀ ch ∈ text, ch.isUpper = true) → upper text = text

/-- The file of a row, before its hunks are read. -/
def Snapshot.file (groupedOpcodes : List Text → List Text → List (List Opcode)) (s : Snapshot) :
    ChangeFile :=
  { path := s.path
    status := statusFor s.before s.after
    additions := (diffAndCounts groupedOpcodes s).2.1
    deletions := (diffAndCounts groupedOpcodes s).2.2
    hunks := []
    previousPath := [] }

lemma exists_statusFor (before after : Option Text) :
    ∃ letter, statusFor before after = [letter] ∧ letter.isUpper = true ∧ blank letter = false ∧
      letter ≠ 'R' ∧ letter ≠ 'C' := by
  rw [statusFor]
  split_ifs
  · exact ⟨'A', rfl, by decide⟩
  · exact ⟨'D', rfl, by decide⟩
  · exact ⟨'M', rfl, by decide⟩

lemma fileOfRow_row {upper : Text → Text} (hupper : KeepsUpper upper) (h : Displayable s.path) :
    fileOfRow upper (s.row groupedOpcodes) = .ok (s.file groupedOpcodes) := by
  obtain ⟨letter, hstatus, hletter, hblank, hrename⟩ := exists_statusFor s.before s.after
  have hempty : rowPath [] = .ok [] := rfl
  have hstrip : strip [letter] = [letter] := by simp [strip, hblank]
  have hkept : upper [letter] = [letter] := hupper [letter] (by simp [hletter])
  have hpaths : changeFilePaths upper s.path [] [letter] = .ok (s.path, []) := by
    simp only [changeFilePaths, hempty, hstrip, hkept, bind, Except.bind, List.head?_cons,
      Option.some.injEq, hrename.1, hrename.2, or_self, and_false, if_false]
    rw [rowPath_of_displayable h]
    rfl
  have htake : (if [letter] = [] then ['M'] else [letter]).take 20 = [letter] := by simp
  simp only [fileOfRow, Snapshot.row, Snapshot.file, hstatus, htake, hpaths, Except.map]

/-- The rows of different paths are their files. -/
lemma filesFromChanges_rows {upper : Text → Text} (hupper : KeepsUpper upper)
    (hdisplayable : ∀ s ∈ changed, Displayable s.path) (hnodup : (changed.map (·.path)).Nodup)
    {seen : List Text} (hseen : ∀ s ∈ changed, s.path ∉ seen) :
    filesFromChanges upper seen (changed.map (Snapshot.row groupedOpcodes)) =
      .ok (changed.map (Snapshot.file groupedOpcodes)) := by
  induction changed generalizing seen with
  | nil => rfl
  | cons s changed ih =>
    rw [List.map_cons, List.nodup_cons] at hnodup
    have hs := hdisplayable s (by simp)
    have hunseen : ∀ t ∈ changed, t.path ∉ s.path :: seen := fun t ht hmem => by
      rcases List.mem_cons.mp hmem with heq | hmem
      · exact hnodup.1 (List.mem_map.mpr ⟨t, ht, heq⟩)
      · exact hseen t (by simp [ht]) hmem
    have hrest := ih (fun t ht => hdisplayable t (by simp [ht])) hnodup.2 hunseen
    have hnew : ¬ ((s.file groupedOpcodes).path = [] ∨ (s.file groupedOpcodes).path ∈ seen) :=
      not_or.mpr ⟨hs.ne, hseen s (by simp)⟩
    simp only [List.map_cons, filesFromChanges, fileOfRow_row hupper hs, bind, Except.bind,
      if_neg hnew]
    have hpath : (s.file groupedOpcodes).path = s.path := rfl
    rw [hpath, hrest]
    rfl

/-! ### The round trip -/

section

variable (groupedOpcodes : List Text → List Text → List (List Opcode))

/-- The parsed file of a snapshot: its hunks are those that were rendered, its counts are the
numbers of inserted and deleted lines, and their difference is that of the lengths. -/
structure ParsedAs (f : ChangeFile) (s : Snapshot) : Prop where
  path : f.path = s.path
  hunks : f.hunks = s.hunks groupedOpcodes
  additions : f.additions = (insertions s.new (s.groups groupedOpcodes)).length
  deletions : f.deletions = (deletions s.old (s.groups groupedOpcodes)).length
  balance : (f.additions : Int) - f.deletions = s.new.length - s.old.length

/-- The collected changes are read back as a change set with the file of every snapshot. -/
def RoundTrips (upper : Text → Text) (root : Text) (view : List Snapshot)
    (paths : Option (List Text)) : Prop :=
  ∃ cs, fromChanges upper (collect groupedOpcodes root view paths) = .ok cs ∧
    List.Forall₂ (ParsedAs groupedOpcodes) cs.files (snapshots view paths)

end

lemma additions_file (s : Snapshot) : (s.file groupedOpcodes).additions =
    (insertions s.new (s.groups groupedOpcodes)).countP fun line => !"++".toList.isPrefixOf line :=
  additions_unifiedDiff _ _ _ _ _

lemma deletions_file (s : Snapshot) : (s.file groupedOpcodes).deletions =
    (deletions s.old (s.groups groupedOpcodes)).countP fun line => !"--".toList.isPrefixOf line :=
  deletions_unifiedDiff _ _ _ _ _

lemma plain_iff_counts (s : Snapshot) : s.Plain groupedOpcodes ↔
    (s.file groupedOpcodes).additions = (insertions s.new (s.groups groupedOpcodes)).length ∧
      (s.file groupedOpcodes).deletions = (deletions s.old (s.groups groupedOpcodes)).length := by
  rw [additions_file, deletions_file, List.countP_eq_length, List.countP_eq_length]
  simp only [Bool.not_eq_true', ← Bool.not_eq_true, List.isPrefixOf_iff_prefix]
  exact ⟨fun h => ⟨h.inserted, h.deleted⟩, fun h => ⟨h.1, h.2⟩⟩

lemma nodup_snapshots {view : List Snapshot} (h : (view.map (·.path)).Nodup)
    (paths : Option (List Text)) : ((snapshots view paths).map (·.path)).Nodup := by
  have hsorted : ((view.insertionSort fun s t => s.path ≤ t.path).map (·.path)).Nodup :=
    ((List.perm_insertionSort _ view).map _).nodup_iff.mpr h
  exact hsorted.sublist (List.filter_sublist.map _)

lemma changed_of_mem_snapshots {view : List Snapshot} {paths : Option (List Text)}
    (h : s ∈ snapshots view paths) : s.before ≠ s.after := by
  have := (List.mem_filter.mp h).2
  simp only [Bool.and_eq_true, decide_eq_true_eq] at this
  exact this.2

/-- When the diff is not truncated, the collected changes are read back exactly when no inserted
line begins with `++` and no deleted line begins with `--`. -/
theorem roundTrips_iff_plain
    (hdifflib : ∀ a b, Patches a b 0 0 (groupedOpcodes a b)) {upper : Text → Text}
    (hupper : KeepsUpper upper) (root : Text) {view : List Snapshot}
    (hnodup : (view.map (·.path)).Nodup) {paths : Option (List Text)}
    (hdisplayable : ∀ s ∈ snapshots view paths, Displayable s.path)
    (hwhole : (collect groupedOpcodes root view paths).truncated = false) :
    RoundTrips groupedOpcodes upper root view paths ↔
      ∀ s ∈ snapshots view paths, s.Plain groupedOpcodes := by
  set changed := snapshots view paths with hchanged
  have hpaths : (changed.map (·.path)).Nodup := nodup_snapshots hnodup paths
  have hfiles : filesFromChanges upper [] (collect groupedOpcodes root view paths).files =
      .ok (changed.map (Snapshot.file groupedOpcodes)) :=
    filesFromChanges_rows hupper hdisplayable hpaths (by simp)
  have hdiff : (collect groupedOpcodes root view paths).diff = fullDiff groupedOpcodes changed :=
    if_neg (ne_true_of_eq_false hwhole)
  have hparsed : ∀ hunks : Text → List ChangeHunk,
      List.Forall₂ (ParsedAs groupedOpcodes) ((changed.map (Snapshot.file groupedOpcodes)).map
        fun file => { file with hunks := hunks file.path }) changed ↔
      ∀ s ∈ changed, ParsedAs groupedOpcodes
        { s.file groupedOpcodes with hunks := hunks s.path } s := by
    intro hunks
    rw [List.map_map, List.forall₂_map_left_iff, List.forall₂_same]
    rfl
  rw [RoundTrips, fromChanges, hfiles, hdiff]
  constructor
  · rintro ⟨cs, hcs, hall⟩ s hs
    obtain ⟨files, hok, hcs⟩ := except_bind_eq_ok.mp hcs
    obtain rfl := Except.ok.inj hok
    obtain ⟨hunks, -, rfl⟩ := except_last_eq_ok.mp hcs
    have hfile := (hparsed hunks).mp hall s hs
    exact (plain_iff_counts s).mpr ⟨hfile.additions, hfile.deletions⟩
  · intro hplain
    obtain ⟨last, hlast, hown, -⟩ := exists_foldE_files {} hdisplayable
      (fun s hs => changed_of_mem_snapshots hs) hplain hpaths (fun s _ => rfl)
    have hscan : parseHunks (fullDiff groupedOpcodes changed) = .ok last.hunks := by
      rw [parseHunks_fullDiff hdisplayable, hlast]
      rfl
    rw [hscan]
    refine ⟨_, rfl, (hparsed last.hunks).mpr fun s hs => ?_⟩
    obtain ⟨hadditions, hdeletions⟩ := (plain_iff_counts s).mp (hplain s hs)
    have hlength := (hdifflib s.old s.new).length.2.2
    refine ⟨rfl, hown s hs, hadditions, hdeletions, ?_⟩
    show ((s.file groupedOpcodes).additions : Int) - (s.file groupedOpcodes).deletions = _
    rw [hadditions, hdeletions]
    simp only [Snapshot.groups]
    omega

/-- A changed file and a new one are read back. -/
theorem roundTrips_iff_plain_two :
    RoundTrips coarseOpcodes id "/w".toList
      [⟨"new.txt".toList, none, some "-- x\n".toList⟩,
        ⟨"a.txt".toList, some "hello\n".toList, some "@@ world\n".toList⟩] none :=
  (roundTrips_iff_plain patches_coarseOpcodes (fun _ _ => rfl) _ (by decide)
    (by
      intro s hs
      have hmem : s.path = "a.txt".toList ∨ s.path = "new.txt".toList := by
        revert s
        decide +kernel
      rcases hmem with hpath | hpath
      all_goals
        rw [hpath]
        exact ⟨by decide, by decide, by decide, by simp, by decide, _, rfl⟩)
    (by decide +kernel)).mpr (by
      intro s hs
      have hplain : (∀ line ∈ insertions s.new (s.groups coarseOpcodes), ¬ "++".toList <+: line) ∧
          ∀ line ∈ deletions s.old (s.groups coarseOpcodes), ¬ "--".toList <+: line := by
        revert s
        decide +kernel
      exact ⟨hplain.1, hplain.2⟩)

/-- A new line that begins with `++` is not counted. -/
theorem not_roundTrips_added :
    Displayable "n.txt".toList ∧
      (collect coarseOpcodes "/w".toList
        [⟨"n.txt".toList, some [], some "++ x\n".toList⟩] none).truncated = false ∧
      ¬ RoundTrips coarseOpcodes id "/w".toList
        [⟨"n.txt".toList, some [], some "++ x\n".toList⟩] none := by
  refine ⟨⟨by decide, by decide, by decide, by simp, by decide, _, rfl⟩,
    by decide +kernel, ?_⟩
  rintro ⟨cs, hcs, hall⟩
  have hcount : (fromChanges id (collect coarseOpcodes "/w".toList
      [⟨"n.txt".toList, some [], some "++ x\n".toList⟩] none)).toOption.map
      (fun cs => cs.files.map (·.additions)) = some [0] := by decide +kernel
  rw [hcs] at hcount
  have hone : cs.files.map (·.additions) = [1] := by
    have hsnapshots : snapshots [⟨"n.txt".toList, some [], some "++ x\n".toList⟩] none =
        [⟨"n.txt".toList, some [], some "++ x\n".toList⟩] := by decide +kernel
    rw [hsnapshots] at hall
    obtain ⟨f, fs, hfile, hnil, heq⟩ := List.forall₂_cons_right_iff.mp hall
    rw [heq, List.forall₂_nil_right_iff.mp hnil, List.map_singleton, hfile.additions]
    decide +kernel
  rw [Except.toOption, Option.map_some, hone] at hcount
  exact absurd hcount (by decide)

end Changes

end Workspace

end Codey
