import Codey.Lib.Json
import Codey.Lib.Lines
import Codey.Lib.Numbered
import Codey.Lib.PosixPath
import Codey.Lib.Text

/-!
# Work checkpoints

The facts of an unfinished task that outlive its process: the files that were edited, with their
hashes, and the checks that succeeded since.
-/

namespace Codey

namespace WorkCheckpoint

open PosixPath (parts render)

abbrev Text := List Char

def maxChangedFiles : Nat := 32

def maxSuccessfulChecks : Nat := 8

def maxTaskChars : Nat := 2000

def maxCommandChars : Nat := 500

def maxRelPathChars : Nat := 240

def maxStopReasonChars : Nat := 80

def validStatuses : List String := ["working", "ready_for_review", "fixing_review", "interrupted"]

/-- `_text` -/
def clip (limit : Nat) (value : Text) : Text :=
  ((strip (universalNewlines value)).take limit).rdropWhile blank

def relPath (value : Text) : Option Text :=
  let text := (strip value).map fun ch => if ch = '\\' then '/' else ch
  if text = [] || text.head? = some '/' || (parts text).contains ['.', '.'] ||
      maxRelPathChars < text.length then none
  else some (render (parts text))

def missing : Text := ['m', 'i', 's', 's', 'i', 'n', 'g']

def sha256Prefix : Text := ['s', 'h', 'a', '2', '5', '6', ':']

def validWorkspaceRevision (value : Int) : Int := if 1 ≤ value then value else 0

def lowerHexDigit (ch : Char) : Bool := ('0' ≤ ch && ch ≤ '9') || ('a' ≤ ch && ch ≤ 'f')

def validWorkspaceFingerprint (value : Text) : Text :=
  let text := strip value
  let digits := text.drop 7
  if sha256Prefix.isPrefixOf text && digits.length = 64 && digits.all lowerHexDigit then text
  else []

/-! ### The machine -/

/-- What is found under a path of the project, once links are followed. -/
inductive Look where
  | missing
  | file (content : List UInt8)
  | other
  deriving DecidableEq

/-- The hash of a content, and what `str` prints for a value that is no string. -/
structure Host where
  digest : List UInt8 → Text
  shown : Json → Text

/-- The machine at a time: the clock, the paths under a project, what is found there, the
fingerprint of the project, and the writes that succeed. A path that was resolved resolves to
itself. -/
structure World where
  now : Text
  clip_now : clip 40 now = now
  resolve : Text → Option Text
  resolve_resolve : ∀ path found, resolve path = some found → resolve found = some found
  locate : Text → Text → Option Text
  look : Text → Text → Look
  workspaceFingerprint : Text → List Text → Text
  writes : Json → Bool

/-- `_canonical_rel_path`: the path is resolved and taken relative to the project. -/
def canonicalRelPath (w : World) (project rel : Text) : Option Text :=
  let text := strip rel
  if text = [] then none else (w.locate project text).bind relPath

def Host.hash (h : Host) : Look → Option Text
  | .missing => some missing
  | .file content => some (sha256Prefix ++ h.digest content)
  | .other => none

def fileHash (h : Host) (w : World) (project rel : Text) : Option Text :=
  h.hash (w.look project rel)

/-! ### Checkpoints -/

structure CheckpointFile where
  path : Text
  afterHash : Text
  deriving DecidableEq

structure CheckpointCheck where
  command : Text
  cwd : Text
  workspaceRevision : Int
  workspaceFingerprint : Text
  deriving DecidableEq

structure LastAction where
  tool : Text
  ok : Bool
  command : Text := []
  cwd : Text := ['.']
  deriving DecidableEq

structure Checkpoint where
  runId : Text
  sessionId : Text
  project : Text
  originalTask : Text
  status : String := "working"
  startedAt : Text := []
  updatedAt : Text := []
  changedFiles : List CheckpointFile := []
  hashUnavailableFiles : List Text := []
  successfulChecks : List CheckpointCheck := []
  lastAction : Option LastAction := none
  stopReason : Text := []
  workspaceChanged : Bool := false
  deriving DecidableEq

def str (text : Text) : Json := .str (String.ofList text)

def CheckpointFile.toJson (file : CheckpointFile) : Json :=
  .obj [("path", str file.path), ("after_hash", str file.afterHash)]

def CheckpointCheck.toJson (check : CheckpointCheck) : Json :=
  .obj [("command", str check.command), ("cwd", str check.cwd),
    ("workspace_revision", .int check.workspaceRevision),
    ("workspace_fingerprint", str check.workspaceFingerprint)]

def LastAction.toJson (action : LastAction) : Json :=
  .obj [("tool", str action.tool), ("ok", .bool action.ok), ("command", str action.command),
    ("cwd", str action.cwd)]

def lastActionField : Option LastAction → Fields
  | some action => [("last_action", action.toJson)]
  | none => []

/-- `to_payload`, which leaves out whether the workspace has changed. -/
def Checkpoint.toPayload (cp : Checkpoint) : Fields :=
  [("schema_version", .int 1), ("run_id", str cp.runId), ("session_id", str cp.sessionId),
    ("project", str cp.project), ("original_task", str cp.originalTask),
    ("status", .str cp.status), ("started_at", str cp.startedAt),
    ("updated_at", str cp.updatedAt),
    ("changed_files", .arr (cp.changedFiles.map (·.toJson))),
    ("hash_unavailable_files", .arr (cp.hashUnavailableFiles.map str)),
    ("successful_checks_after_last_change", .arr (cp.successfulChecks.map (·.toJson))),
    ("stop_reason", str cp.stopReason)] ++ lastActionField cp.lastAction

/-! ### Loading -/

/-- `str(value or default)` -/
def Host.textOr (h : Host) (value : Option Json) (default : Text) : Text :=
  match value with
  | some (.str s) => if s = "" then default else s.toList
  | some value => if value.truthy then h.shown value else default
  | none => default

/-- The items of `value or []`; a number has none to iterate over. -/
def items (value : Option Json) : Option (List Json) :=
  match value with
  | none => some []
  | some value =>
    if value.truthy then
      match value with
      | .arr xs => some xs
      | .obj members => some (members.map fun member => .str member.1)
      | .str s => some (s.toList.map fun ch => str [ch])
      | _ => none
    else some []

def loadFile (h : Host) : Json → Option CheckpointFile
  | .obj item =>
    let digest := h.textOr (Fields.get? item "after_hash") []
    (relPath (h.textOr (Fields.get? item "path") [])).bind fun rel =>
      if digest = missing || sha256Prefix.isPrefixOf digest then some ⟨rel, digest⟩ else none
  | _ => none

def loadUnavailable : Json → Option Text
  | .str s => relPath s.toList
  | _ => none

def loadCheck (h : Host) : Json → Option CheckpointCheck
  | .obj item =>
    let command := clip maxCommandChars (h.textOr (Fields.get? item "command") [])
    let revision := match Fields.get? item "workspace_revision" with
      | some (.int n) => validWorkspaceRevision n
      | _ => 0
    let fingerprint :=
      validWorkspaceFingerprint (h.textOr (Fields.get? item "workspace_fingerprint") [])
    (relPath (h.textOr (Fields.get? item "cwd") ['.'])).bind fun cwd =>
      if command ≠ [] ∧ revision ≠ 0 ∧ fingerprint ≠ [] then
        some ⟨command, cwd, revision, fingerprint⟩
      else none
  | _ => none

/-- A loop over items that keeps those that load, until there are enough. -/
def loadUpTo {α : Type} (limit : Nat) (load : Json → Option α) : List Json → List α → List α
  | [], kept => kept
  | item :: rest, kept =>
    let kept := kept ++ (load item).toList
    if limit ≤ kept.length then kept else loadUpTo limit load rest kept

def loadAction (h : Host) : Option Json → Option LastAction
  | some (.obj action) =>
    if (Fields.get? action "tool").any Json.truthy then
      some ⟨clip 40 (h.textOr (Fields.get? action "tool") []),
        (Fields.get? action "ok").any Json.truthy,
        clip maxCommandChars (h.textOr (Fields.get? action "command") []),
        (relPath (h.textOr (Fields.get? action "cwd") ['.'])).getD ['.']⟩
    else none
  | _ => none

/-- `load_result` on the payload that the file of the session holds. -/
def loadResult (h : Host) (w : World) (sessionId : Text) (disk : Option Fields) :
    Option Checkpoint := do
  let payload ← disk
  if payload.get? "schema_version" = some (.int 1) then pure () else none
  let status := String.ofList (h.textOr (payload.get? "status") [])
  if validStatuses.contains status then pure () else none
  if h.textOr (payload.get? "session_id") [] = sessionId then pure () else none
  let files ← items (payload.get? "changed_files")
  let unavailable ← items (payload.get? "hash_unavailable_files")
  let checks ← items (payload.get? "successful_checks_after_last_change")
  let project ← w.resolve (h.textOr (payload.get? "project") [])
  pure
    { runId := clip 120 (h.textOr (payload.get? "run_id") []), sessionId, project,
      originalTask := clip maxTaskChars (h.textOr (payload.get? "original_task") []), status,
      startedAt := clip 40 (h.textOr (payload.get? "started_at") []),
      updatedAt := clip 40 (h.textOr (payload.get? "updated_at") []),
      changedFiles := loadUpTo maxChangedFiles (loadFile h) files [],
      hashUnavailableFiles := (unavailable.filterMap loadUnavailable).take maxChangedFiles,
      successfulChecks := loadUpTo maxSuccessfulChecks (loadCheck h) checks [],
      lastAction := loadAction h (payload.get? "last_action"),
      stopReason := clip maxStopReasonChars (h.textOr (payload.get? "stop_reason") []) }

/-! ### The operations -/

/-- `save`: the file of the session afterwards, unless the write raises. -/
def save (w : World) (cp : Checkpoint) : Option Fields :=
  if w.writes (.obj cp.toPayload) then some cp.toPayload else none

def saved (w : World) (cp : Checkpoint) : Option (Checkpoint × Fields) :=
  (save w cp).map fun disk => (cp, disk)

def start (w : World) (runId sessionId project task : Text) : Option (Checkpoint × Fields) :=
  if project.contains '\x00' then none
  else
    (w.resolve project).bind fun projectText =>
      if projectText.contains '\x00' then none
      else
        saved w
          { runId := clip 120 runId, sessionId, project := projectText,
            originalTask := clip maxTaskChars task, startedAt := w.now, updatedAt := w.now }

def recordEdit (h : Host) (w : World) (cp : Checkpoint) (rel : Text) :
    Option (Checkpoint × Fields) :=
  let safeRel := canonicalRelPath w cp.project rel
  let digest := safeRel.bind (fileHash h w cp.project)
  let files := match safeRel with
    | some safe => cp.changedFiles.filter (fun file => file.path ≠ safe) ++
        (digest.map (CheckpointFile.mk safe)).toList
    | none => cp.changedFiles
  let unhashed := match safeRel with
    | some safe => cp.hashUnavailableFiles.filter (fun path => path ≠ safe) ++
        (if digest = none then [safe] else [])
    | none => cp.hashUnavailableFiles
  saved w
    { cp with
      status := "working", updatedAt := w.now, changedFiles := keepLast maxChangedFiles files,
      hashUnavailableFiles := keepLast maxChangedFiles unhashed, successfulChecks := [],
      lastAction := some ⟨['e', 'd', 'i', 't'], true, [], ['.']⟩, stopReason := [],
      workspaceChanged := false }

/-- The directory of a run as it is recorded. -/
def safeCwd (cwd : Text) : Text := (relPath (if cwd = [] then ['.'] else cwd)).getD ['.']

def recordRun (w : World) (cp : Checkpoint) (command cwd : Text) (ok : Bool)
    (workspaceRevision : Int) (workspaceFingerprint : Text) : Option (Checkpoint × Fields) :=
  let safeCommand := clip maxCommandChars command
  let revision := validWorkspaceRevision workspaceRevision
  let fingerprint := validWorkspaceFingerprint workspaceFingerprint
  let checks :=
    if ok ∧ safeCommand ≠ [] ∧ revision ≠ 0 ∧ fingerprint ≠ [] then
      cp.successfulChecks.filter
          (fun item => ¬(item.command = safeCommand ∧ item.cwd = safeCwd cwd)) ++
        [⟨safeCommand, safeCwd cwd, revision, fingerprint⟩]
    else if ok then cp.successfulChecks else []
  saved w
    { cp with
      updatedAt := w.now, successfulChecks := keepLast maxSuccessfulChecks checks,
      lastAction := some ⟨['r', 'u', 'n'], ok, safeCommand, safeCwd cwd⟩ }

def setStatus (w : World) (cp : Checkpoint) (status : String) (stopReason : Text) :
    Option (Checkpoint × Fields) :=
  if validStatuses.contains status then
    saved w { cp with status, updatedAt := w.now, stopReason := clip maxStopReasonChars stopReason }
  else none

def reconcile (h : Host) (w : World) (cp : Checkpoint) (ignoredPaths : List Text) :
    Option Checkpoint :=
  let current := w.workspaceFingerprint cp.project ignoredPaths
  let changed :=
    cp.changedFiles.any (fun file => fileHash h w cp.project file.path ≠ some file.afterHash) ||
      !cp.hashUnavailableFiles.isEmpty ||
      (!cp.successfulChecks.isEmpty && (current = [] ||
        cp.successfulChecks.any fun check => check.workspaceFingerprint ≠ current))
  if changed then
    (saved w { cp with updatedAt := w.now, successfulChecks := [], workspaceChanged := true }).map
      Prod.fst
  else some cp

/-! ### What is kept -/

variable {h : Host} {w : World} {cp : Checkpoint} {file : CheckpointFile} {check : CheckpointCheck}
  {action : LastAction} {limit : Nat} {text : Text}

lemma clip_length_le (limit : Nat) (value : Text) : (clip limit value).length ≤ limit :=
  (List.rdropWhile_prefix blank _).length_le.trans (List.length_take_le limit _)

lemma cr_notMem_clip (limit : Nat) (value : Text) : '\r' ∉ clip limit value := by
  intro hcr
  have htaken := (List.rdropWhile_prefix blank _).sublist.subset hcr
  have hstripped := (List.take_sublist limit _).subset htaken
  exact cr_notMem_universalNewlines value ((strip_sublist _).subset hstripped)

lemma strip_clip (limit : Nat) (value : Text) : strip (clip limit value) = clip limit value := by
  rw [strip_eq_self_iff]
  constructor
  · intro ch hch
    obtain ⟨rest, hrest⟩ := List.head?_eq_some_iff.mp hch
    have hprefix : clip limit value <+: strip (universalNewlines value) :=
      (List.rdropWhile_prefix blank _).trans (List.take_prefix limit _)
    obtain ⟨more, hmore⟩ := hprefix
    rw [hrest] at hmore
    exact (blank_ends_strip _).1 ch (List.head?_eq_some_iff.mpr ⟨rest ++ more, hmore.symm⟩)
  · intro ch hch
    have hne : clip limit value ≠ [] := by
      rintro hnil
      rw [hnil] at hch
      cases hch
    have hlast := List.rdropWhile_last_not blank _ hne
    rw [List.getLast?_eq_some_getLast hne] at hch
    rw [← Option.some.inj hch]
    exact Bool.eq_false_iff.mpr hlast

theorem clip_clip (limit : Nat) (value : Text) :
    clip limit (clip limit value) = clip limit value := by
  have hends := (strip_eq_self_iff.mp (strip_clip limit value)).2
  rw [clip, universalNewlines_eq_self (cr_notMem_clip limit value), strip_clip,
    List.take_of_length_le (clip_length_le limit value), List.rdropWhile_eq_self_iff]
  intro hne
  simpa using hends _ (List.getLast?_eq_some_getLast hne)

lemma relPath_ne_nil (hrel : relPath text = some text) : text ≠ [] := by
  rintro rfl
  cases hrel

lemma validWorkspaceFingerprint_idem (value : Text) :
    validWorkspaceFingerprint (validWorkspaceFingerprint value) =
      validWorkspaceFingerprint value := by
  by_cases hvalid : validWorkspaceFingerprint value = []
  · rw [hvalid]
    rfl
  · have hstrip : validWorkspaceFingerprint value = strip value := by
      simp only [validWorkspaceFingerprint] at hvalid ⊢
      split_ifs at hvalid ⊢
      · rfl
      · exact absurd rfl hvalid
    rw [hstrip, validWorkspaceFingerprint, strip_strip]
    exact hstrip

lemma validWorkspaceRevision_pos {value : Int} (hne : validWorkspaceRevision value ≠ 0) :
    1 ≤ validWorkspaceRevision value := by
  unfold validWorkspaceRevision at hne ⊢
  split_ifs at hne ⊢ with hpos
  · exact hpos
  · exact absurd rfl hne

structure CheckpointFile.Sound (file : CheckpointFile) : Prop where
  path : relPath file.path = some file.path
  hash : file.afterHash = WorkCheckpoint.missing ∨ sha256Prefix.isPrefixOf file.afterHash = true

structure CheckpointCheck.Sound (check : CheckpointCheck) : Prop where
  command : clip maxCommandChars check.command = check.command
  command_ne : check.command ≠ []
  cwd : relPath check.cwd = some check.cwd
  revision : 1 ≤ check.workspaceRevision
  fingerprint : WorkCheckpoint.validWorkspaceFingerprint check.workspaceFingerprint =
    check.workspaceFingerprint
  fingerprint_ne : check.workspaceFingerprint ≠ []

structure LastAction.Sound (action : LastAction) : Prop where
  tool : clip 40 action.tool = action.tool
  tool_ne : action.tool ≠ []
  command : clip maxCommandChars action.command = action.command
  cwd : relPath action.cwd = some action.cwd

/-- A checkpoint whose parts are all loaded as they are. -/
structure Checkpoint.Sound (w : World) (cp : Checkpoint) : Prop where
  runId : clip 120 cp.runId = cp.runId
  project : w.resolve cp.project = some cp.project
  originalTask : clip maxTaskChars cp.originalTask = cp.originalTask
  status : validStatuses.contains cp.status = true
  startedAt : clip 40 cp.startedAt = cp.startedAt
  updatedAt : clip 40 cp.updatedAt = cp.updatedAt
  changedFiles : cp.changedFiles.length ≤ maxChangedFiles ∧ ∀ file ∈ cp.changedFiles, file.Sound
  unavailable : cp.hashUnavailableFiles.length ≤ maxChangedFiles ∧
    ∀ path ∈ cp.hashUnavailableFiles, relPath path = some path
  checks : cp.successfulChecks.length ≤ maxSuccessfulChecks ∧
    ∀ check ∈ cp.successfulChecks, check.Sound
  lastAction : ∀ action ∈ cp.lastAction, action.Sound
  stopReason : clip maxStopReasonChars cp.stopReason = cp.stopReason
  workspaceChanged : cp.workspaceChanged = false

lemma textOr_str (default : Text) (hne : text ≠ []) :
    h.textOr (some (str text)) default = text := by
  have hempty : String.ofList text ≠ "" := by simpa [String.ext_iff] using hne
  simp [Host.textOr, str, hempty]

@[simp] lemma textOr_str_nil (text : Text) : h.textOr (some (str text)) [] = text := by
  by_cases hne : text = []
  · subst hne
    rfl
  · exact textOr_str [] hne

lemma loadFile_toJson (hs : file.Sound) : loadFile h file.toJson = some file := by
  have hhash : ¬file.afterHash = missing → sha256Prefix <+: file.afterHash := by
    simpa [or_iff_not_imp_left] using hs.hash
  simp [CheckpointFile.toJson, loadFile, hs.path]
  exact hhash

lemma loadCheck_toJson (hs : check.Sound) : loadCheck h check.toJson = some check := by
  have hrevision : validWorkspaceRevision check.workspaceRevision = check.workspaceRevision :=
    if_pos hs.revision
  have hne : check.workspaceRevision ≠ 0 := by
    have := hs.revision
    omega
  simp [CheckpointCheck.toJson, loadCheck, textOr_str _ (relPath_ne_nil hs.cwd), hs.command,
    hs.command_ne, hs.cwd, hrevision, hne, hs.fingerprint, hs.fingerprint_ne]

lemma loadAction_toJson (hs : action.Sound) : loadAction h (some action.toJson) = some action := by
  have htool : (str action.tool).truthy = true := by
    simpa [str, Json.truthy, String.ext_iff] using hs.tool_ne
  simp [LastAction.toJson, loadAction, textOr_str _ (relPath_ne_nil hs.cwd), hs.tool, hs.command,
    hs.cwd, htool, Json.truthy.eq_2]

lemma loadAction_lastActionField {last : Option LastAction} (hs : ∀ action ∈ last, action.Sound) :
    loadAction h ((lastActionField last).get? "last_action") = last := by
  cases last with
  | none => rfl
  | some action => exact loadAction_toJson (hs action rfl)

lemma loadUnavailable_str (hrel : relPath text = some text) :
    loadUnavailable (str text) = some text := by
  rw [str, loadUnavailable, String.toList_ofList, hrel]

lemma items_arr (xs : List Json) : items (some (.arr xs)) = some xs := by
  cases xs with
  | nil => rfl
  | cons x xs => rfl

/-- What was written within the limit is loaded as it is. -/
lemma loadUpTo_map {α : Type} {load : Json → Option α} {toJson : α → Json} {xs kept : List α}
    (hload : ∀ x ∈ xs, load (toJson x) = some x) (hlen : kept.length + xs.length ≤ limit) :
    loadUpTo limit load (xs.map toJson) kept = kept ++ xs := by
  induction xs generalizing kept with
  | nil => simp [loadUpTo]
  | cons x xs ih =>
    have hkept : (kept ++ [x]).length + xs.length ≤ limit := by
      simpa [Nat.add_assoc, Nat.add_comm, Nat.add_left_comm] using hlen
    rw [List.map_cons, loadUpTo, hload x List.mem_cons_self, Option.toList_some]
    split_ifs with hfull
    · -- the limit is reached with the last one
      have hnil : xs = [] := List.eq_nil_of_length_eq_zero (by omega)
      rw [hnil]
    · rw [ih (fun y hy => hload y (List.mem_cons_of_mem _ hy)) hkept, List.append_assoc,
        List.singleton_append]

/-- A checkpoint that was written is loaded as it was. -/
theorem loadResult_toPayload (hs : cp.Sound w) :
    loadResult h w cp.sessionId (some cp.toPayload) = some cp := by
  have hfiles : loadUpTo maxChangedFiles (loadFile h) (cp.changedFiles.map (·.toJson)) [] =
      cp.changedFiles :=
    loadUpTo_map (fun file hfile => loadFile_toJson (hs.changedFiles.2 file hfile))
      (by simpa using hs.changedFiles.1)
  have hchecks : loadUpTo maxSuccessfulChecks (loadCheck h)
      (cp.successfulChecks.map (·.toJson)) [] = cp.successfulChecks :=
    loadUpTo_map (fun check hcheck => loadCheck_toJson (hs.checks.2 check hcheck))
      (by simpa using hs.checks.1)
  have hunavailable : (cp.hashUnavailableFiles.map str).filterMap loadUnavailable =
      cp.hashUnavailableFiles := by
    rw [List.filterMap_map]
    calc cp.hashUnavailableFiles.filterMap (loadUnavailable ∘ str)
        = cp.hashUnavailableFiles.filterMap some :=
          List.filterMap_congr fun path hpath => loadUnavailable_str (hs.unavailable.2 path hpath)
      _ = cp.hashUnavailableFiles := List.filterMap_some
  have hstatus : h.textOr (some (.str cp.status)) [] = cp.status.toList := by
    simpa [str] using textOr_str_nil (h := h) cp.status.toList
  have hvalid : cp.status ∈ validStatuses := by simpa using hs.status
  have hchanged := hs.workspaceChanged
  simp [loadResult, Checkpoint.toPayload, items_arr, hfiles, hchecks, hunavailable, hstatus, hvalid,
    hs.project, hs.runId, hs.originalTask, hs.startedAt, hs.updatedAt, hs.stopReason,
    List.take_of_length_le hs.unavailable.1, loadAction_lastActionField hs.lastAction]
  rw [← hchanged]

end WorkCheckpoint

end Codey
