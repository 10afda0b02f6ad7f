import Codey.Lib.Since
import Codey.Runs.WorkCheckpoint

/-!
# Runs of a work checkpoint

Over any operations on the checkpoint of a session, with any changes of the machine in between,
what is saved is loaded as it was. As long as every edit finds room in the checkpoint and is
recorded under the path of its file, a checkpoint that is found unchanged forgets no edit.
-/

namespace Codey

namespace WorkCheckpoint

/-! ### Sessions -/

/-- What was recorded: an edit, with the file it is about and what was found there, or a run. -/
inductive Event where
  | edited (file : Option (Text × Look))
  | ran (command cwd : Text) (ok : Bool) (workspaceRevision : Int) (workspaceFingerprint : Text)
  deriving DecidableEq

inductive Op where
  | start (runId project task : Text)
  | edit (rel : Text)
  | run (command cwd : Text) (ok : Bool) (workspaceRevision : Int) (workspaceFingerprint : Text)
  | setStatus (status : String) (stopReason : Text)
  | save
  | load
  | change (w : World)

/-- The checkpoint of a session, its file, and what was recorded since the start. -/
structure Session where
  world : World
  checkpoint : Checkpoint
  disk : Option Fields
  log : List Event

def begun (w : World) (runId sessionId project task : Text) : Option Session :=
  (start w runId sessionId project task).map fun result => ⟨w, result.1, some result.2, []⟩

/-- An operation that raises leaves everything as it is. -/
def Session.took (s : Session) (result : Option (Checkpoint × Fields)) (log : List Event) :
    Session :=
  match result with
  | some (checkpoint, disk) => { s with checkpoint, disk := some disk, log }
  | none => s

def Session.target (s : Session) (rel : Text) : Option (Text × Look) :=
  (s.world.locate s.checkpoint.project rel).map fun file =>
    (file, s.world.look s.checkpoint.project file)

def perform (h : Host) (s : Session) : Op → Session
  | .start runId project task =>
    s.took (start s.world runId s.checkpoint.sessionId project task) []
  | .edit rel =>
    s.took (recordEdit h s.world s.checkpoint rel) (s.log ++ [.edited (s.target rel)])
  | .run command cwd ok revision fingerprint =>
    s.took (recordRun s.world s.checkpoint command cwd ok revision fingerprint)
      (s.log ++ [.ran command cwd ok revision fingerprint])
  | .setStatus status stopReason =>
    s.took (setStatus s.world s.checkpoint status stopReason) s.log
  | .save => { s with disk := (save s.world s.checkpoint).or s.disk }
  | .load =>
    { s with
      checkpoint :=
        (loadResult h s.world s.checkpoint.sessionId s.disk).getD s.checkpoint }
  | .change w => { s with world := w }

def performAll (h : Host) (s : Session) (ops : List Op) : Session := ops.foldl (perform h) s

def LastEdit (log : List Event) (file : Text) (found : Look) : Prop :=
  Since (fun _ e => e = .edited (some (file, found)))
    (fun _ e => ∀ seen, e ≠ .edited (some (file, seen))) log

def Event.Checks (check : CheckpointCheck) : Event → Prop
  | .ran command cwd ok revision fingerprint => ok = true ∧ check =
      ⟨clip maxCommandChars command, safeCwd cwd, validWorkspaceRevision revision,
        validWorkspaceFingerprint fingerprint⟩
  | .edited _ => False

def RanSince (log : List Event) (check : CheckpointCheck) : Prop :=
  Since (fun _ e => e.Checks check) (fun _ e => ∀ file, e ≠ .edited file) log

/-- What was saved is loaded, and a checkpoint that is found unchanged is right about the files and
the checks. -/
structure Remembers (h : Host) (s : Session) : Prop where
  loaded : loadResult h s.world s.checkpoint.sessionId s.disk = some s.checkpoint
  unchanged : ∀ ignoredPaths found,
    reconcile h s.world s.checkpoint ignoredPaths = some found → found.workspaceChanged = false →
      (∀ file seen, LastEdit s.log file seen → s.world.look s.checkpoint.project file = seen) ∧
        ∀ check ∈ found.successfulChecks, RanSince s.log check ∧ check.workspaceFingerprint =
          s.world.workspaceFingerprint s.checkpoint.project ignoredPaths

/-- The list that takes a file has fewer than `maxChangedFiles` others. -/
def Session.Room (h : Host) (s : Session) (file : Text) : Prop :=
  match h.hash (s.world.look s.checkpoint.project file) with
  | some _ =>
    (s.checkpoint.changedFiles.filter fun item => item.path ≠ file).length < maxChangedFiles
  | none =>
    (s.checkpoint.hashUnavailableFiles.filter fun path => path ≠ file).length < maxChangedFiles

/-- An edit is recorded under the path of its file, and there is room for it; the directory of a run
is a path that is recorded as it is; the project stays where it is. -/
def Keeps (h : Host) (s : Session) : Op → Prop
  | .edit rel => ∃ file, s.world.locate s.checkpoint.project rel = some file ∧ strip rel ≠ [] ∧
      s.world.locate s.checkpoint.project (strip rel) = some file ∧ relPath file = some file ∧
      s.Room h file
  | .run _ cwd _ _ _ => relPath (safeCwd cwd) = some (safeCwd cwd)
  | .change w => w.resolve s.checkpoint.project = some s.checkpoint.project
  | _ => True

variable {h : Host} {w : World} {s : Session} {cp cp' : Checkpoint} {disk : Fields}
  {log : List Event} {file rel : Text} {found : Look} {check : CheckpointCheck} {e : Event}

lemma lastEdit_snoc : LastEdit (log ++ [e]) file found ↔
    e = .edited (some (file, found)) ∨
      (LastEdit log file found ∧ ∀ seen, e ≠ .edited (some (file, seen))) := since_snoc

lemma ranSince_snoc : RanSince (log ++ [e]) check ↔
    e.Checks check ∨ (RanSince log check ∧ ∀ file, e ≠ .edited file) := since_snoc

/-! ### What a checkpoint is faithful to -/

def Recorded (h : Host) (cp : Checkpoint) (file : Text) (found : Look) : Prop :=
  match h.hash found with
  | some digest => ⟨file, digest⟩ ∈ cp.changedFiles
  | none => file ∈ cp.hashUnavailableFiles

structure Faithful (h : Host) (s : Session) : Prop where
  sound : s.checkpoint.Sound s.world
  saved : s.disk = some s.checkpoint.toPayload
  edits : ∀ file found, LastEdit s.log file found → Recorded h s.checkpoint file found
  checks : ∀ check ∈ s.checkpoint.successfulChecks, RanSince s.log check

lemma hash_sound {digest : Text} (hdigest : h.hash found = some digest) :
    digest = missing ∨ sha256Prefix.isPrefixOf digest = true := by
  cases found with
  | missing => exact Or.inl (Option.some.inj hdigest).symm
  | file content =>
    right
    rw [← Option.some.inj hdigest, List.isPrefixOf_iff_prefix]
    exact List.prefix_append _ _
  | other => cases hdigest

/-- Different contents have different hashes. -/
lemma hash_inj (hinj : Function.Injective h.digest) {found' : Look} {digest : Text}
    (hfound : h.hash found = some digest) (hfound' : h.hash found' = some digest) :
    found = found' := by
  cases found with
  | missing =>
    cases found' with
    | missing => rfl
    | file content =>
      rw [← hfound] at hfound'
      cases (List.cons.inj (Option.some.inj hfound')).1
    | other => cases hfound'
  | file content =>
    cases found' with
    | missing =>
      rw [← hfound'] at hfound
      cases (List.cons.inj (Option.some.inj hfound)).1
    | file content' =>
      have hsame := (Option.some.inj hfound).trans (Option.some.inj hfound').symm
      rw [hinj (List.append_cancel_left hsame)]
    | other => cases hfound'
  | other => cases hfound

/-- What a checkpoint says that is found unchanged. -/
lemma reconcile_unchanged {ignoredPaths : List Text}
    (hrec : reconcile h w cp ignoredPaths = some cp') (hsame : cp'.workspaceChanged = false) :
    cp' = cp ∧ (∀ file ∈ cp.changedFiles, fileHash h w cp.project file.path = some file.afterHash) ∧
      cp.hashUnavailableFiles = [] ∧ ∀ check ∈ cp.successfulChecks,
        check.workspaceFingerprint = w.workspaceFingerprint cp.project ignoredPaths := by
  simp only [reconcile] at hrec
  split_ifs at hrec with hchanged
  · -- a checkpoint that has changed is marked
    obtain ⟨result, hresult, rfl⟩ := Option.map_eq_some_iff.mp hrec
    obtain ⟨disk, -, rfl⟩ := Option.map_eq_some_iff.mp hresult
    cases hsame
  · simp only [Bool.or_eq_true, not_or, Bool.not_eq_true, List.any_eq_false, decide_eq_true_eq,
      not_not, Bool.not_eq_false', List.isEmpty_iff, Bool.and_eq_false_iff, Bool.or_eq_false_iff]
      at hchanged
    obtain ⟨⟨hfiles, hunavailable⟩, hchecks⟩ := hchanged
    refine ⟨(Option.some.inj hrec).symm, hfiles, hunavailable, ?_⟩
    intro check hcheck
    obtain hnil | ⟨-, hall⟩ := hchecks
    · rw [hnil] at hcheck
      cases hcheck
    · exact hall check hcheck

/-- A faithful checkpoint forgets nothing. -/
theorem Faithful.remembers (hinj : Function.Injective h.digest) (hs : Faithful h s) :
    Remembers h s := by
  refine ⟨?_, ?_⟩
  · rw [hs.saved]
    exact loadResult_toPayload hs.sound
  · intro ignoredPaths found hrec hsame
    obtain ⟨rfl, hfiles, hunavailable, hchecks⟩ := reconcile_unchanged hrec hsame
    refine ⟨?_, fun check hcheck => ⟨hs.checks check hcheck, hchecks check hcheck⟩⟩
    intro file seen hlast
    have hrecorded := hs.edits file seen hlast
    cases hdigest : h.hash seen with
    | none =>
      rw [Recorded, hdigest, hunavailable] at hrecorded
      cases hrecorded
    | some digest =>
      rw [Recorded, hdigest] at hrecorded
      exact hash_inj hinj (hfiles _ hrecorded) hdigest

/-! ### What the operations record -/

lemma saved_eq_some (hsaved : saved w cp = some (cp', disk)) : cp' = cp ∧ disk = cp.toPayload := by
  obtain ⟨written, hwritten, hpair⟩ := Option.map_eq_some_iff.mp hsaved
  obtain ⟨rfl, rfl⟩ := Prod.mk.inj hpair
  rw [save] at hwritten
  split_ifs at hwritten
  exact ⟨rfl, (Option.some.inj hwritten).symm⟩

lemma Faithful.took {result : Option (Checkpoint × Fields)} (hs : Faithful h s)
    (hnext : ∀ checkpoint disk, result = some (checkpoint, disk) →
      Faithful h ⟨s.world, checkpoint, some disk, log⟩) : Faithful h (s.took result log) := by
  cases hresult : result with
  | none => exact hs
  | some pair => exact hnext pair.1 pair.2 hresult

lemma start_faithful {runId sessionId project task : Text}
    (hstart : start w runId sessionId project task = some (cp, disk)) :
    Faithful h ⟨w, cp, some disk, []⟩ := by
  rw [start] at hstart
  split_ifs at hstart
  obtain ⟨projectText, hproject, hstart⟩ := Option.bind_eq_some_iff.mp hstart
  split_ifs at hstart
  obtain ⟨rfl, rfl⟩ := saved_eq_some hstart
  refine ⟨?_, rfl, fun file seen hlast => absurd hlast not_since_nil, by simp⟩
  exact
    { runId := clip_clip 120 runId
      project := w.resolve_resolve project projectText hproject
      originalTask := clip_clip maxTaskChars task
      status := rfl
      startedAt := w.clip_now
      updatedAt := w.clip_now
      changedFiles := ⟨Nat.zero_le _, by simp⟩
      unavailable := ⟨Nat.zero_le _, by simp⟩
      checks := ⟨Nat.zero_le _, by simp⟩
      lastAction := by simp
      stopReason := rfl
      workspaceChanged := rfl }

/-- A check that is kept was kept before, or is the one that ran. -/
lemma mem_keptChecks {command cwd fingerprint : Text} {ok : Bool} {revision : Int}
    {kept : List CheckpointCheck}
    (hmem : check ∈ keepLast maxSuccessfulChecks
      (if ok ∧ command ≠ [] ∧ revision ≠ 0 ∧ fingerprint ≠ [] then
        kept.filter (fun item => ¬(item.command = command ∧ item.cwd = cwd)) ++
          [⟨command, cwd, revision, fingerprint⟩]
      else if ok then kept else [])) :
    check ∈ kept ∨ check = ⟨command, cwd, revision, fingerprint⟩ ∧ ok = true ∧ command ≠ [] ∧
      revision ≠ 0 ∧ fingerprint ≠ [] := by
  have hmem := (keepLast_sublist _ _).subset hmem
  split_ifs at hmem with hrecords
  · obtain hmem | hmem := List.mem_append.mp hmem
    · exact Or.inl (List.mem_of_mem_filter hmem)
    · exact Or.inr ⟨List.mem_singleton.mp hmem, hrecords⟩
  · exact Or.inl hmem
  · cases hmem

lemma recordRun_faithful {command cwd fingerprint : Text} {ok : Bool} {revision : Int}
    (hs : Faithful h s) (hcwd : relPath (safeCwd cwd) = some (safeCwd cwd))
    (hrun : recordRun s.world s.checkpoint command cwd ok revision fingerprint = some (cp, disk)) :
    Faithful h ⟨s.world, cp, some disk, s.log ++ [.ran command cwd ok revision fingerprint]⟩ := by
  rw [recordRun] at hrun
  obtain ⟨rfl, rfl⟩ := saved_eq_some hrun
  refine ⟨?_, rfl, ?_, ?_⟩
  · refine { hs.sound with
      updatedAt := s.world.clip_now, checks := ⟨length_keepLast_le _ _, ?_⟩, lastAction := ?_ }
    · intro check hcheck
      obtain hkept | ⟨rfl, -, hcommand, hrevision, hfingerprint⟩ := mem_keptChecks hcheck
      · exact hs.sound.checks.2 check hkept
      · exact ⟨clip_clip _ _, hcommand, hcwd, validWorkspaceRevision_pos hrevision,
          validWorkspaceFingerprint_idem _, hfingerprint⟩
    · intro action haction
      obtain rfl := Option.some.inj haction
      exact ⟨rfl, List.cons_ne_nil _ _, clip_clip _ _, hcwd⟩
  · intro file seen hlast
    obtain hedited | ⟨hlast, -⟩ := lastEdit_snoc.mp hlast
    · cases hedited
    · exact hs.edits file seen hlast
  · intro check hcheck
    apply ranSince_snoc.mpr
    obtain hkept | ⟨rfl, hok, -⟩ := mem_keptChecks hcheck
    · exact Or.inr ⟨hs.checks check hkept, fun file h => by cases h⟩
    · exact Or.inl ⟨hok, rfl⟩

lemma setStatus_faithful {status : String} {stopReason : Text} (hs : Faithful h s)
    (hset : setStatus s.world s.checkpoint status stopReason = some (cp, disk)) :
    Faithful h ⟨s.world, cp, some disk, s.log⟩ := by
  rw [setStatus] at hset
  split_ifs at hset with hstatus
  obtain ⟨rfl, rfl⟩ := saved_eq_some hset
  refine ⟨?_, rfl, hs.edits, hs.checks⟩
  exact { hs.sound with
    status := hstatus, updatedAt := s.world.clip_now, stopReason := clip_clip _ _ }

/-- What an edit that finds room records. -/
lemma recordEdit_of_room (hs : s.checkpoint.Sound s.world)
    (hfile : canonicalRelPath s.world s.checkpoint.project rel = some file)
    (hroom : s.Room h file) :
    recordEdit h s.world s.checkpoint rel = saved s.world
      { s.checkpoint with
        status := "working", updatedAt := s.world.now
        changedFiles := s.checkpoint.changedFiles.filter (fun item => item.path ≠ file) ++
          ((fileHash h s.world s.checkpoint.project file).map (CheckpointFile.mk file)).toList
        hashUnavailableFiles :=
          s.checkpoint.hashUnavailableFiles.filter (fun path => path ≠ file) ++
            (if fileHash h s.world s.checkpoint.project file = none then [file] else [])
        successfulChecks := [], lastAction := some ⟨['e', 'd', 'i', 't'], true, [], ['.']⟩
        stopReason := [], workspaceChanged := false } := by
  have hfiles := (List.length_filter_le (fun item => item.path ≠ file) _).trans hs.changedFiles.1
  have hpaths := (List.length_filter_le (fun path => path ≠ file) _).trans hs.unavailable.1
  rw [Session.Room] at hroom
  simp only [recordEdit, hfile, Option.bind_some]
  rw [fileHash]
  cases hdigest : h.hash (s.world.look s.checkpoint.project file) with
  | none =>
    rw [hdigest] at hroom
    rw [keepLast_of_length_le, keepLast_of_length_le]
    · simpa using Nat.succ_le_of_lt hroom
    · simpa using hfiles
  | some digest =>
    rw [hdigest] at hroom
    rw [keepLast_of_length_le, keepLast_of_length_le]
    · simpa using hpaths
    · simpa using Nat.succ_le_of_lt hroom

lemma recordEdit_faithful (hs : Faithful h s) (hkeeps : Keeps h s (.edit rel))
    (hedit : recordEdit h s.world s.checkpoint rel = some (cp, disk)) :
    Faithful h ⟨s.world, cp, some disk, s.log ++ [.edited (s.target rel)]⟩ := by
  obtain ⟨file, htarget, hne, hlocate, hrel, hroom⟩ := hkeeps
  have hcanonical : canonicalRelPath s.world s.checkpoint.project rel = some file := by
    rw [canonicalRelPath, if_neg hne, hlocate, Option.bind_some, hrel]
  rw [recordEdit_of_room hs.sound hcanonical hroom] at hedit
  obtain ⟨rfl, rfl⟩ := saved_eq_some hedit
  have hfiles := (List.length_filter_le (fun item => item.path ≠ file) _).trans
    hs.sound.changedFiles.1
  have hpaths := (List.length_filter_le (fun path => path ≠ file) _).trans hs.sound.unavailable.1
  rw [Session.Room] at hroom
  refine ⟨?_, rfl, ?_, by simp⟩
  · refine { hs.sound with
      status := rfl, updatedAt := s.world.clip_now, changedFiles := ⟨?_, ?_⟩
      unavailable := ⟨?_, ?_⟩, checks := ⟨Nat.zero_le _, by simp⟩, lastAction := ?_
      stopReason := rfl, workspaceChanged := rfl }
    · rw [List.length_append, fileHash]
      cases hdigest : h.hash (s.world.look s.checkpoint.project file) with
      | none => exact hfiles
      | some digest =>
        rw [hdigest] at hroom
        exact hroom
    · intro item hitem
      obtain hold | hnew := List.mem_append.mp hitem
      · exact hs.sound.changedFiles.2 item (List.mem_of_mem_filter hold)
      · obtain ⟨digest, hdigest, rfl⟩ := Option.map_eq_some_iff.mp (Option.mem_toList.mp hnew)
        exact ⟨hrel, hash_sound hdigest⟩
    · rw [List.length_append, fileHash]
      cases hdigest : h.hash (s.world.look s.checkpoint.project file) with
      | none =>
        rw [hdigest] at hroom
        exact hroom
      | some digest => exact hpaths
    · intro path hpath
      obtain hold | hnew := List.mem_append.mp hpath
      · exact hs.sound.unavailable.2 path (List.mem_of_mem_filter hold)
      · split_ifs at hnew
        · rw [List.mem_singleton.mp hnew]
          exact hrel
        · cases hnew
    · intro action haction
      obtain rfl := Option.some.inj haction
      exact ⟨rfl, List.cons_ne_nil _ _, rfl, rfl⟩
  · intro other seen hlast
    rw [Session.target, htarget, Option.map_some] at hlast
    obtain hnow | ⟨hlast, hother⟩ := lastEdit_snoc.mp hlast
    · -- the file that was edited now
      obtain ⟨rfl, rfl⟩ := Prod.mk.inj (Option.some.inj (Event.edited.inj hnow))
      rw [Recorded, fileHash]
      cases h.hash (s.world.look s.checkpoint.project file) with
      | none => exact List.mem_append_right _ (by simp)
      | some digest => exact List.mem_append_right _ (by simp)
    · -- a file that was edited before
      have hne : other ≠ file := by
        rintro rfl
        exact hother _ rfl
      have hrecorded := hs.edits other seen hlast
      rw [Recorded] at hrecorded ⊢
      cases hdigest : h.hash seen with
      | none =>
        rw [hdigest] at hrecorded
        exact List.mem_append_left _ (List.mem_filter.mpr ⟨hrecorded, by simpa using hne⟩)
      | some digest =>
        rw [hdigest] at hrecorded
        exact List.mem_append_left _ (List.mem_filter.mpr ⟨hrecorded, by simpa using hne⟩)

/-! ### Runs -/

/-- An operation that meets the condition keeps a checkpoint faithful. -/
theorem perform_faithful (hs : Faithful h s) {op : Op} (hkeeps : Keeps h s op) :
    Faithful h (perform h s op) := by
  cases op with
  | start runId project task => exact hs.took fun cp disk hstart => start_faithful hstart
  | edit rel => exact hs.took fun cp disk hedit => recordEdit_faithful hs hkeeps hedit
  | run command cwd ok revision fingerprint =>
    exact hs.took fun cp disk hrun => recordRun_faithful hs hkeeps hrun
  | setStatus status stopReason => exact hs.took fun cp disk hset => setStatus_faithful hs hset
  | save =>
    refine ⟨hs.sound, ?_, hs.edits, hs.checks⟩
    show (save s.world s.checkpoint).or s.disk = _
    rw [save, hs.saved]
    split_ifs <;> rfl
  | load =>
    have hload := loadResult_toPayload (h := h) hs.sound
    rw [← hs.saved] at hload
    rw [perform, hload]
    exact hs
  | change w =>
    exact ⟨{ hs.sound with project := hkeeps }, hs.saved, hs.edits, hs.checks⟩

lemma performAll_faithful (hs : Faithful h s) {ops : List Op}
    (hkeeps : Each (fun before op => Keeps h (performAll h s before) op) ops) :
    Faithful h (performAll h s ops) := by
  induction ops using List.reverseRecOn with
  | nil => exact hs
  | append_singleton ops op ih =>
    obtain ⟨hbefore, hop⟩ := each_snoc.mp hkeeps
    rw [performAll, List.foldl_append, List.foldl_cons, List.foldl_nil]
    exact perform_faithful (ih hbefore) hop

/-- In a run whose edits all find room and are recorded under the paths of their files, no edit is
ever forgotten. -/
theorem performAll_remembers {runId sessionId project task : Text} {ops : List Op}
    (hdigest : Function.Injective h.digest) (hbegun : begun w runId sessionId project task = some s)
    (hkeeps : Each (fun before op => Keeps h (performAll h s before) op) ops) :
    Remembers h (performAll h s ops) := by
  obtain ⟨result, hstart, rfl⟩ := Option.map_eq_some_iff.mp hbegun
  exact (performAll_faithful (start_faithful hstart) hkeeps).remembers hdigest

/-! ### A machine -/

def plainHost : Host where
  digest content := content.map Char.ofUInt8
  shown _ := []

def plainPrint : Text := sha256Prefix ++ List.replicate 64 'a'

/-- A machine without links, on which everything is a file. -/
def plainWorld (content : Text → List UInt8) : World where
  now := []
  clip_now := rfl
  resolve := some
  resolve_resolve _ _ _ := rfl
  locate _ path := some path
  look _ path := .file (content path)
  workspaceFingerprint _ _ := plainPrint
  writes _ := true

def plainSession : Session :=
  ⟨plainWorld fun _ => [],
    { runId := ['r'], sessionId := ['s'], project := ['/', 'p'], originalTask := ['t'] },
    some ({ runId := ['r'], sessionId := ['s'], project := ['/', 'p'], originalTask := ['t'] } :
      Checkpoint).toPayload, []⟩

lemma plainHost_injective : Function.Injective plainHost.digest := by
  apply List.map_injective_iff.mpr
  intro a b hab
  exact UInt8.toUInt32_inj.mp (congrArg Char.val hab)

/-- Two files are edited and a check passes. -/
def checkedOps : List Op :=
  [.edit ['a'], .edit ['b'], .run ['m', 'a', 'k', 'e'] ['.'] true 1 plainPrint]

/-- Both files and the check are remembered when one of the files changes and the checkpoint is
loaded. -/
theorem performAll_remembers_two :
    begun (plainWorld fun _ => []) ['r'] ['s'] ['/', 'p'] ['t'] = some plainSession ∧
      (performAll plainHost plainSession checkedOps).checkpoint.changedFiles.map (·.path) =
        [['a'], ['b']] ∧
      (performAll plainHost plainSession checkedOps).checkpoint.successfulChecks.map (·.command) =
        [['m', 'a', 'k', 'e']] ∧
      Remembers plainHost (performAll plainHost plainSession
        (checkedOps ++ [.change (plainWorld fun file => if file = ['b'] then [1] else []),
          .load])) := by
  have hbegun : begun (plainWorld fun _ => []) ['r'] ['s'] ['/', 'p'] ['t'] = some plainSession :=
    rfl
  have hfirst : Keeps plainHost plainSession (.edit ['a']) :=
    ⟨['a'], rfl, List.cons_ne_nil _ _, rfl, rfl, show 0 < maxChangedFiles by decide⟩
  have hsecond : Keeps plainHost (performAll plainHost plainSession [.edit ['a']]) (.edit ['b']) :=
    ⟨['b'], rfl, List.cons_ne_nil _ _, rfl, rfl, show 1 < maxChangedFiles by decide⟩
  have hrun : Keeps plainHost (performAll plainHost plainSession [.edit ['a'], .edit ['b']])
      (.run ['m', 'a', 'k', 'e'] ['.'] true 1 plainPrint) := rfl
  have hchange : Keeps plainHost (performAll plainHost plainSession checkedOps)
      (.change (plainWorld fun file => if file = ['b'] then [1] else [])) := rfl
  have hload {session : Session} : Keeps plainHost session .load := trivial
  have hsnoc {before : List Op} {op : Op} :
      Each (fun passed next => Keeps plainHost (performAll plainHost plainSession passed) next)
          (before ++ [op]) ↔ _ ∧ _ := each_snoc
  refine ⟨hbegun, by decide +kernel, by decide +kernel,
    performAll_remembers plainHost_injective hbegun ?_⟩
  have hchecked := hsnoc.mpr ⟨hsnoc.mpr ⟨hsnoc.mpr ⟨each_nil, hfirst⟩, hsecond⟩, hrun⟩
  exact hsnoc.mpr ⟨hsnoc.mpr ⟨hchecked, hchange⟩, hload⟩

/-! ### Too many files -/

def numbered (n : Nat) : Text := ['f', Nat.digitChar (n / 10), Nat.digitChar (n % 10)]

/-- Edits of more files than there is room for, before the first of them changes. -/
def crowdedOps : List Op :=
  (List.range 33).map (fun n => .edit (numbered n)) ++
    [.change (plainWorld fun path => if path = numbered 0 then [1] else [])]

/-- The file that a recorded edit is about. -/
def Event.subject : Event → Option Text
  | .edited target => target.map Prod.fst
  | .ran .. => none

lemma lastEdit_cons (hlog : ∀ e ∈ log, e.subject ≠ some file) :
    LastEdit (.edited (some (file, found)) :: log) file found := by
  refine ⟨[], _, log, rfl, rfl, ?_⟩
  rintro passed e rest rfl seen rfl
  exact hlog (.edited (some (file, seen))) (by simp) rfl

/-- The first of too many files changes, and the checkpoint is found unchanged. -/
theorem not_remembers_crowded : Function.Injective plainHost.digest ∧
    begun (plainWorld fun _ => []) ['r'] ['s'] ['/', 'p'] ['t'] = some plainSession ∧
      ¬Remembers plainHost (performAll plainHost plainSession crowdedOps) := by
  refine ⟨plainHost_injective, rfl, fun hremembers => ?_⟩
  have hrec : reconcile plainHost (performAll plainHost plainSession crowdedOps).world
      (performAll plainHost plainSession crowdedOps).checkpoint [] =
        some (performAll plainHost plainSession crowdedOps).checkpoint := by
    decide +kernel
  have hlast : LastEdit (performAll plainHost plainSession crowdedOps).log (numbered 0)
      (.file []) := by
    have hlog : (performAll plainHost plainSession crowdedOps).log =
        .edited (some (numbered 0, .file [])) ::
          (performAll plainHost plainSession crowdedOps).log.tail := by
      decide +kernel
    rw [hlog]
    apply lastEdit_cons
    decide +kernel
  have hsame : (performAll plainHost plainSession crowdedOps).checkpoint.workspaceChanged = false :=
    by decide +kernel
  have hseen := (hremembers.unchanged [] _ hrec hsame).1 _ _ hlast
  exact absurd hseen (by decide +kernel)

end WorkCheckpoint

end Codey
