import Codey.Completion.DiffSections

/-!
# Changes seen

The sections of a harmless diff show every change of every path exactly when its changes are plain
and its lines name the right paths. A clean observation of a diff whose sections do so means that the
analysers found nothing in the whole of every file's changes.
-/

namespace Codey

namespace Completion

variable {d : UnifiedDiff} {f : FileDiff} {s : DiffSection} {line path : List Char}

/-! ### Harmless diffs -/

lemma linesOf_append (ss ss' : List DiffSection) (path : List Char) :
    linesOf (ss ++ ss') path = linesOf ss path ++ linesOf ss' path := by
  simp [linesOf]

/-- The sections of files under their names. -/
def sectionsOf (ps : List (List Char × FileDiff)) : List DiffSection :=
  ps.flatMap fun p => p.2.sectionsUnder p.1

/-- A path is flagged when one of the files under it has too many changes. -/
lemma flagged_sectionsOf {ps : List (List Char × FileDiff)} (hne : path ≠ []) :
    Flagged (sectionsOf ps) path ↔ ∃ p ∈ ps, p.1 = path ∧ maxSectionLines < p.2.changes.length := by
  constructor
  · rintro ⟨s, hs, hpath, hflag⟩
    obtain ⟨p, hp, hs⟩ := List.mem_flatMap.mp hs
    rw [FileDiff.sectionsUnder] at hs
    split_ifs at hs
    · cases hs
    · obtain rfl := List.mem_singleton.mp hs
      exact ⟨p, hp, hpath, of_decide_eq_true hflag⟩
  · rintro ⟨p, hp, rfl, hlong⟩
    have hsome : p.2.changes ≠ [] := by
      intro hnil
      simp [hnil, maxSectionLines] at hlong
    refine ⟨⟨p.1, p.2.changes.take maxSectionLines, maxSectionLines < p.2.changes.length⟩,
      List.mem_flatMap.mpr ⟨p, hp, ?_⟩, rfl, decide_eq_true hlong⟩
    rw [FileDiff.sectionsUnder, if_neg (by simp [hne, hsome])]
    exact List.mem_singleton_self _

/-- Under a path that is not flagged stand the changes of the files with the name. -/
lemma linesOf_sectionsOf {ps : List (List Char × FileDiff)} (hne : path ≠ [])
    (hfits : ∀ p ∈ ps, p.1 = path → p.2.changes.length ≤ maxSectionLines) :
    linesOf (sectionsOf ps) path = (ps.filter (·.1 = path)).flatMap fun p => p.2.changes := by
  induction ps with
  | nil => rfl
  | cons p ps ih =>
    obtain ⟨hfit, hfits⟩ := List.forall_mem_cons.mp hfits
    have hone : linesOf (p.2.sectionsUnder p.1) path = if p.1 = path then p.2.changes else [] := by
      by_cases hempty : p.2.changes = []
      · simp [FileDiff.sectionsUnder, linesOf, hempty]
      · by_cases hpath : p.1 = path
        · rw [hpath] at hfit ⊢
          simp [FileDiff.sectionsUnder, linesOf, hempty, hne, List.take_of_length_le (hfit rfl)]
        · by_cases hnil : p.1 = []
          · simp [FileDiff.sectionsUnder, linesOf, hnil, hne.symm]
          · simp [FileDiff.sectionsUnder, linesOf, hempty, hnil, hpath]
    rw [sectionsOf, List.flatMap_cons, linesOf_append, hone, ← sectionsOf, ih hfits]
    by_cases hpath : p.1 = path <;> simp [hpath]

/-- A harmless diff with plain changes is exact when the names of its files are right. -/
lemma exact_iff_named (hd : d.Harmless) (hplain : ∀ f ∈ d.files, f.PlainChanges) :
    d.Exact ↔ ∀ f ∈ d.files, d.Overlong f.path ∨ d.changesNamed f.path = d.changesOf f.path := by
  have hsections : diffFileSections d.text = sectionsOf d.namedFiles :=
    diffFileSections_of_plain hd hplain
  rw [UnifiedDiff.Exact, hsections]
  refine forall₂_congr fun f _ => ?_
  rw [flagged_sectionsOf f.nonempty]
  by_cases hlong : d.Overlong f.path
  · exact iff_of_true (.inl hlong) (.inl hlong)
  · have hfits : ∀ p ∈ d.namedFiles, p.1 = f.path → p.2.changes.length ≤ maxSectionLines :=
      fun p hp hpath => not_lt.mp fun hlt => hlong ⟨p, hp, hpath, hlt⟩
    rw [linesOf_sectionsOf f.nonempty hfits]
    rfl

/-! ### What a section can show -/

/-- Only whole lines that are no file labels are kept. -/
def Scan.Shows (st : Scan) : Prop :=
  (∀ s ∈ st.sections, ∀ line ∈ s.lines, PlainChange line) ∧ ∀ line ∈ st.current, PlainChange line

lemma Scan.Shows.closed {st : Scan} (h : st.Shows) :
    ∀ s ∈ st.closed, ∀ line ∈ s.lines, PlainChange line := by
  intro s hs line hline
  rw [Scan.closed] at hs
  split_ifs at hs
  · rcases List.mem_append.mp hs with hs | hs
    · exact h.1 s hs line hline
    · rw [List.mem_singleton.mp hs] at hline
      exact h.2 line (List.mem_of_mem_take hline)
  · exact h.1 s hs line hline

lemma Scan.Shows.flush {st : Scan} (h : st.Shows) (path : List Char) :
    ({ st.flush with path := path } : Scan).Shows :=
  ⟨h.closed, by simp [Scan.flush]⟩

lemma Scan.Shows.keep {st : Scan} (h : st.Shows) (hline : PlainChange line) :
    (st.keep line).Shows := by
  rw [Scan.keep]
  split_ifs
  · exact h
  · refine ⟨h.1, fun other hother => ?_⟩
    rcases List.mem_append.mp hother with hother | hother
    · exact h.2 other hother
    · rwa [List.mem_singleton.mp hother]

lemma Scan.Shows.step {st : Scan} (h : st.Shows) (hu : Unbroken line) : (st.step line).Shows := by
  cases hheader : headerPath line with
  | some path =>
    rw [step_header hu hheader]
    exact h.flush path
  | none =>
    by_cases hlabel : fileLabel line = true
    · rw [step_fileLabel hu hlabel]
      exact h.flush _
    · simp only [Scan.step, rstripCr_of_unbroken hu, hheader, hlabel, Bool.false_eq_true,
        ↓reduceIte]
      split_ifs
      · exact h
      · exact h
      · exact h.keep ⟨hu, by simpa using hlabel⟩
      · exact h
      · exact h

lemma plainChange_of_mem_sections {text : List Char} (hs : s ∈ diffFileSections text)
    (hline : line ∈ s.lines) : PlainChange line := by
  have hrun : ∀ (lines : List (List Char)) (st : Scan), st.Shows → (∀ p ∈ lines, Unbroken p) →
      (lines.foldl Scan.step st).Shows := by
    intro lines
    induction lines with
    | nil => exact fun st h _ => h
    | cons p lines ih =>
      intro st h hlines
      obtain ⟨hp, hlines⟩ := List.forall_mem_cons.mp hlines
      exact ih (st.step p) (h.step hp) hlines
  have hinit : ({} : Scan).Shows := ⟨by simp, by simp⟩
  exact (hrun _ _ hinit fun p hp => unbroken_of_mem_splitLines hp).closed s hs line hline

lemma plainChanges_of_exact (hd : d.Exact) (hf : f ∈ d.files)
    (hflag : ¬ Flagged (diffFileSections d.text) f.path) : f.PlainChanges := by
  intro line hline
  have hlines := (hd f hf).resolve_left hflag
  have hmem : line ∈ linesOf (diffFileSections d.text) f.path := by
    rw [hlines, UnifiedDiff.changesOf]
    exact List.mem_flatMap.mpr ⟨f, List.mem_filter.mpr ⟨hf, by simp⟩, hline⟩
  obtain ⟨s, hs, hline⟩ := List.mem_flatMap.mp hmem
  exact plainChange_of_mem_sections (List.mem_of_mem_filter hs) hline

/-! ### Clean observations -/

variable {a : Analysers} {r : Run}

lemma status_eq_clean {p q : Prop} [Decidable p] [Decidable q] :
    (if p then Status.suspicious else if q then .clean else .unobserved) = .clean ↔ ¬ p ∧ q := by
  by_cases hp : p
  · simp [hp]
  · by_cases hq : q <;> simp [hp, hq]

/-- A clean observation has no flagged section and no finding. -/
lemma clean_observe (h : (a.observe r).status = .clean) :
    (∀ s ∈ diffFileSections r.diff, s.saturated = false) ∧
      ∀ s ∈ diffFileSections r.diff, a.inspect r.authorized s = [] := by
  obtain ⟨hfindings, hobserved, havailable⟩ := status_eq_clean.mp h
  have hnone := not_not.mp hfindings
  rw [List.take_eq_nil_iff, or_iff_right (by decide), List.append_eq_nil_iff,
    if_pos hobserved] at hnone
  constructor
  · intro s hs
    by_contra hsat
    apply havailable
    right; left
    intro hpaths
    have hmem : s.path ∈ (((diffFileSections r.diff).filter (·.saturated)).map (·.path)).eraseDups :=
      List.mem_eraseDups.mpr (List.mem_map_of_mem (List.mem_filter.mpr ⟨hs, by simpa using hsat⟩))
    rw [hpaths] at hmem
    exact List.not_mem_nil hmem
  · exact List.flatMap_eq_nil_iff.mp hnone.1

/-- A clean observation of an exact diff has found nothing in all the changes of every file. -/
lemma seen_of_clean (hd : d.Exact) (hf : f ∈ d.files)
    (h : (a.observe { r with diff := d.text }).status = .clean) :
    linesOf (diffFileSections d.text) f.path = d.changesOf f.path ∧
      ∀ s ∈ diffFileSections d.text, a.inspect r.authorized s = [] := by
  obtain ⟨hsat, hfound⟩ := clean_observe h
  refine ⟨(hd f hf).resolve_left ?_, hfound⟩
  rintro ⟨s, hs, -, hflag⟩
  rw [hsat s hs] at hflag
  cases hflag

/-- The sections of a harmless diff are exact, those of the flagged paths with plain changes, exactly
when the diff is plain. In every exact diff the changes that are not flagged are plain, and a clean
observation means that the analysers were given all the changes of every file, and found nothing. -/
theorem sections_see_every_change (d : UnifiedDiff) :
    (d.Harmless → (d.Plain ↔ d.Exact ∧ ∀ f ∈ d.files,
      Flagged (diffFileSections d.text) f.path → f.PlainChanges)) ∧
    (d.Exact → (∀ f ∈ d.files, ¬ Flagged (diffFileSections d.text) f.path → f.PlainChanges) ∧
      ∀ (a : Analysers) (r : Run), (a.observe { r with diff := d.text }).status = .clean →
        ∀ f ∈ d.files, linesOf (diffFileSections d.text) f.path = d.changesOf f.path ∧
          ∀ s ∈ diffFileSections d.text, a.inspect r.authorized s = []) := by
  refine ⟨fun hharmless => ⟨fun hplain => ?_, fun hexact => ?_⟩, fun hexact => ⟨?_, ?_⟩⟩
  · exact ⟨(exact_iff_named hharmless hplain.changes).mpr hplain.named,
      fun f hf _ => hplain.changes f hf⟩
  · obtain ⟨hexact, hflagged⟩ := hexact
    have hchanges : ∀ f ∈ d.files, f.PlainChanges := fun f hf => by
      by_cases hflag : Flagged (diffFileSections d.text) f.path
      · exact hflagged f hf hflag
      · exact plainChanges_of_exact hexact hf hflag
    exact ⟨hchanges, (exact_iff_named hharmless hchanges).mp hexact⟩
  · exact fun f hf hflag => plainChanges_of_exact hexact hf hflag
  · exact fun a r hclean f hf => seen_of_clean hexact hf hclean

/-- A test file in which a comment of another language goes before an assertion. -/
def commentDiff : UnifiedDiff where
  files :=
    [{ path := "tests/test_q.py".toList
       header := "a/tests/test_q.py b/tests/test_q.py".toList
       extended := ["index 1d2e3f4..5a6b7c8 100644".toList]
       nonempty := by decide
       body := some
         { oldLabel := "a/tests/test_q.py".toList
           newLabel := "b/tests/test_q.py".toList
           hunks :=
             [{ range := " -1,3 +1,2 @@".toList
                lines := [.added "n = 2".toList, .removed "-- count".toList,
                  .removed "assert n == 1".toList, .context "done()".toList] }] } }]
  final := true

/-- The removed comment is taken for a file label, and the assertion after it is dropped. -/
theorem commentDiff_not_exact : ¬ commentDiff.Exact ∧
    diffFileSections commentDiff.text =
      [⟨"tests/test_q.py".toList, ["+n = 2".toList], false⟩] := by
  decide +kernel

end Completion

end Codey
