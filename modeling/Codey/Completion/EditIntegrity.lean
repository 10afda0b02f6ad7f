import Codey.Lib.Lines
import Codey.Lib.PosixPath
import Codey.Lib.Text

/-!
# Edit integrity

The diff of a run is cut into one section for each file and every section goes to the analyser of
its file's scope. Paths and lines are lists of characters.
-/

namespace Codey

namespace Completion

/-! ### Sections of a diff -/

def maxSectionLines : Nat := 2000

structure DiffSection where
  path : List Char
  lines : List (List Char)
  saturated : Bool := false
deriving DecidableEq, Repr

/-- What follows the first ` b/` that has something behind it. -/
def secondPath : List Char → Option (List Char)
  | [] => none
  | ch :: rest =>
    if " b/".toList <+: ch :: rest then
      if (ch :: rest).drop 3 = [] then none else some ((ch :: rest).drop 3)
    else secondPath rest

/-- The second path of `^diff --git a/(.+?) b/(.+?)$`. -/
def headerPath (line : List Char) : Option (List Char) :=
  if "diff --git a/".toList <+: line then secondPath (line.drop 14) else none

/-- The variables of the scan. -/
structure Scan where
  sections : List DiffSection := []
  path : List Char := []
  current : List (List Char) := []
  inHunk : Bool := false
  saturated : Bool := false
deriving DecidableEq, Repr

def Scan.closed (st : Scan) : List DiffSection :=
  if st.path ≠ [] ∧ st.current ≠ [] then
    st.sections ++ [⟨st.path, st.current.take maxSectionLines, st.saturated⟩]
  else st.sections

/-- The state after a flush at a header, before the path is set. -/
def Scan.flush (st : Scan) : Scan :=
  { st with sections := st.closed, current := [], inHunk := false, saturated := false }

/-- Whether the line begins with `+++ ` or `--- `. -/
def fileLabel (line : List Char) : Bool :=
  "+++ ".toList.isPrefixOf line || "--- ".toList.isPrefixOf line

/-- Whether the line begins with `+` or `-`. -/
def changeLine (line : List Char) : Bool :=
  line.head? = some '+' || line.head? = some '-'

def labelPath (path line : List Char) : List Char :=
  if "+++ b/".toList <+: line then line.drop 6
  else if "--- a/".toList <+: line ∧ path = [] then line.drop 6
  else path

def Scan.keep (st : Scan) (line : List Char) : Scan :=
  if st.current.length ≥ maxSectionLines then { st with saturated := true }
  else { st with current := st.current ++ [line] }

/-- One turn of the loop over the lines. -/
def Scan.step (st : Scan) (raw : List Char) : Scan :=
  let line := rstripCr raw
  match headerPath line with
  | some path => { st.flush with path := path }
  | none =>
    if fileLabel line then { st.flush with path := labelPath st.path line }
    else if "@@".toList <+: line then { st with inHunk := true }
    else if ¬ st.inHunk then st
    else if line.head? = some '\\' then st
    else if changeLine line then st.keep line
    else st

def diffFileSections (diff : List Char) : List DiffSection :=
  ((splitLines diff).foldl Scan.step {}).closed

/-! ### Findings -/

inductive EditScope where
  | production | test | fixture | docs | verificationConfig | generatedVendor
deriving DecidableEq, Repr

inductive Severity where
  | none | low | high | critical
deriving DecidableEq, Repr

def Severity.order : Severity → Nat
  | .none => 0
  | .low => 1
  | .high => 2
  | .critical => 3

inductive ReasonCode where
  | testImportRemoved | testImportGuarded | testSkipAdded | testAssertionsRemoved
  | testExpectedExceptionWidened | verificationConfigNarrowed | testEditWithoutProductionChange
  | unauthorizedTestEdit | diffUnavailable
deriving DecidableEq, Repr

/-- A finding, without its reference. -/
structure Finding where
  reasonCode : ReasonCode
  severity : Severity
  paths : List (List Char)
  summary : String
deriving DecidableEq, Repr

def Finding.downgrade (f : Finding) : Finding := { f with severity := .low }

/-- What sections are judged by: lower and upper case, and for each kind of section the findings in
its removed and added lines. -/
structure Analysers where
  lower : List Char → List Char
  upper : List Char → List Char
  test : List Char → (removed added : List (List Char)) → List Finding
  config : List Char → (removed added : List (List Char)) → List Finding
  packageJson : List Char → (removed added : List (List Char)) → List Finding

def removedLines (lines : List (List Char)) : List (List Char) :=
  (lines.filter fun line => line.head? = some '-').map (·.drop 1)

def addedLines (lines : List (List Char)) : List (List Char) :=
  (lines.filter fun line => line.head? = some '+').map (·.drop 1)

def forwardSlash (path : List Char) : List Char := path.map fun ch => if ch = '\\' then '/' else ch

/-! ### The scope of a path -/

/-- `_posix`: the components of a path. -/
def posix (path : List Char) : List (List Char) := PosixPath.parts (strip (forwardSlash path))

def lastPart (path : List Char) : List Char := (posix path).getLast?.getD []

def suffix (name : List Char) : List Char :=
  let ending := name.rtakeWhile (· ≠ '.')
  if name.length ≤ ending.length + 1 ∨ ending = [] then [] else '.' :: ending

/-- How a pattern that ignores case compares a character with an ASCII letter. -/
def ignoreCase : Char → Char
  | 'İ' | 'ı' => 'i'
  | 'ſ' => 's'
  | '\u212a' => 'k'
  | ch => ch.toLower

def generatedDirSegments : List String :=
  ["__pycache__", ".next", ".venv", ".pytest_cache", ".mypy_cache", "build", "dist",
    "node_modules", "target", "vendor", "venv"]

def generatedBasenames : List String :=
  ["bun.lock", "bun.lockb", "cargo.lock", "go.sum", "package-lock.json", "pipfile.lock",
    "pnpm-lock.yaml", "poetry.lock", "uv.lock", "yarn.lock"]

def generatedSuffixes : List String := [".pyc", ".pyo", ".min.css", ".min.js", ".min.mjs"]

def verificationConfigBasenames : List String :=
  [".coveragerc", ".ruff.toml", "jest.config.cjs", "jest.config.js", "jest.config.json",
    "jest.config.mjs", "jest.config.ts", "mypy.ini", "pyproject.toml", "pytest.ini", "ruff.toml",
    "setup.cfg", "tox.ini", "vitest.config.js", "vitest.config.mts", "vitest.config.ts"]

def fixtureDirSegments : List String :=
  ["__snapshots__", "fixture", "fixtures", "golden", "testdata", "test_data"]

def testDirSegments : List String := ["__tests__", "spec", "specs", "test", "tests"]

/-- How the name of a test may end. -/
def testEndings : List String :=
  "_test" :: ["test", "spec"].flatMap fun kind =>
    ["js", "jsx", "mjs", "cjs", "ts", "tsx", "mts", "cts"].map fun ext => s!".{kind}.{ext}"

namespace Analysers

variable (a : Analysers) (path : List Char)

def named (names : List String) (name : List Char) : Bool := String.ofList (a.lower name) ∈ names

def isGeneratedOrVendorPath : Bool :=
  let name := lastPart path
  -- a name that ends in a dot has no suffixes; what is left of it here is in no table
  let suffixes := (name.dropWhile (· = '.')).dropWhile (· ≠ '.')
  a.named generatedBasenames name || a.named generatedSuffixes suffixes ||
    ["_pb2.py", "_pb2_grpc.py"].any (·.toList.isSuffixOf (a.lower name)) ||
    (posix path).dropLast.any fun dir => String.ofList dir ∈ generatedDirSegments

def isFixturePath : Bool :=
  a.named ["conftest.py"] (lastPart path) ||
    decide ("_fixture".toList <:+: (lastPart path).map ignoreCase) ||
    (posix path).dropLast.any (a.named fixtureDirSegments)

def isTestPath : Bool :=
  let name := (lastPart path).map ignoreCase
  -- beside its prefix or ending the name has a character, and no line end
  let longer := fun pattern : String => pattern.length < name.length && '\n' ∉ name
  (posix path).dropLast.any (a.named testDirSegments) ||
    "test_".toList.isPrefixOf name && longer "test_" ||
    testEndings.any fun ending => ending.toList.isSuffixOf name && longer ending

def isDocumentPath : Bool :=
  let name := a.upper (lastPart path)
  a.named [".md", ".rst", ".txt"] (suffix (lastPart path)) || name = "LICENSE".toList ||
    "CHANGELOG".toList.isPrefixOf name

/-- `classify_edit_path` -/
def classify : EditScope :=
  if a.isGeneratedOrVendorPath path then .generatedVendor
  else if a.named verificationConfigBasenames (lastPart path) then .verificationConfig
  else if a.isFixturePath path then .fixture
  else if a.isTestPath path then .test
  else if a.isDocumentPath path then .docs
  else .production

end Analysers

/-! ### The findings in a section -/

def Analysers.basename (a : Analysers) (path : List Char) : List Char :=
  a.lower ((forwardSlash path).rtakeWhile (· != '/'))

/-- What `_test_section_findings` and its siblings have in common. -/
def sectionFindings (judge : List Char → (removed added : List (List Char)) → List Finding)
    (path : List Char) (lines : List (List Char)) (authorized : Bool) : List Finding :=
  let findings := judge path (removedLines lines) (addedLines lines)
  if authorized then findings.map Finding.downgrade else findings

/-- The findings in one section. -/
def Analysers.inspect (a : Analysers) (authorized : Bool) (s : DiffSection) : List Finding :=
  match a.classify s.path with
  | .generatedVendor => []
  | .test | .fixture => sectionFindings a.test s.path s.lines authorized
  | .verificationConfig => sectionFindings a.config s.path s.lines authorized
  | .production | .docs =>
    if a.basename s.path = "package.json".toList then
      sectionFindings a.packageJson s.path s.lines authorized
    else []

def Analysers.contentFindings (a : Analysers) (sections : List DiffSection) (authorized : Bool) :
    List Finding :=
  sections.flatMap (a.inspect authorized)

/-! ### The observation -/

def maxFindings : Nat := 8

def maxAffectedPaths : Nat := 12

def maxReasonCodes : Nat := 8

def Analysers.scopeFindings (a : Analysers) (paths : List (List Char))
    (authorized verifiedGreen : Bool) : List Finding :=
  let protectedPaths := paths.eraseDups.filter fun path =>
    a.classify path = .test || a.classify path = .fixture ||
      a.classify path = .verificationConfig
  if protectedPaths = [] ∨ ∃ path ∈ paths, a.classify path = .production then []
  else if verifiedGreen then
    [{ reasonCode := .testEditWithoutProductionChange,
       severity := if authorized then .low else .high,
       paths := protectedPaths.take maxAffectedPaths,
       summary := "verification passed without any production file change" }]
  else if ¬ authorized then
    [{ reasonCode := .unauthorizedTestEdit,
       severity := .low,
       paths := protectedPaths.take maxAffectedPaths,
       summary := "protected paths edited without an authorized task" }]
  else []

def severityForFindings (findings : List Finding) : Severity :=
  findings.foldl (fun severity f =>
    if f.severity.order > severity.order then f.severity else severity) .none

/-- Drops every leading `./`. -/
def dropDotSlash : List Char → List Char
  | '.' :: '/' :: rest => dropDotSlash rest
  | path => path

def normalizeDiffPath (path : List Char) : List Char := dropDotSlash (strip (forwardSlash path))

/-- What is observed: the task's authority, the files and the diff of the run, and what its change
record says. -/
structure Run where
  authorized : Bool
  verifiedGreen : Bool
  files : List (List Char)
  changedPaths : List (List Char)
  emptyAddedPaths : List (List Char)
  truncated : Bool
  diff : List Char

def Run.paths (r : Run) : List (List Char) :=
  let named := ((r.files.map strip).filter (· ≠ [])).map (·.take 240)
  if named = [] then r.changedPaths else named.eraseDups

inductive Status where
  | clean | suspicious | unobserved
deriving DecidableEq, Repr

/-- The observation, without its references. -/
structure Observation where
  status : Status
  severity : Severity
  reasonCodes : List ReasonCode
  findings : List Finding
  affectedPaths : List (List Char)
deriving DecidableEq, Repr

def Analysers.observe (a : Analysers) (r : Run) : Observation :=
  let sections := diffFileSections r.diff
  let diffObserved := sections ≠ [] ∨ r.emptyAddedPaths ≠ []
  let sectionPaths := (sections.map fun s => normalizeDiffPath s.path) ++
    r.emptyAddedPaths.map normalizeDiffPath
  let saturatedSections := sections.filter (·.saturated)
  let saturatedDiffPaths := (saturatedSections.map (·.path)).eraseDups
  let missingDiffPaths := r.paths.filter fun path => normalizeDiffPath path ∉ sectionPaths
  let saturatedNamed := r.paths.filter fun path =>
    normalizeDiffPath path ∈ saturatedSections.map fun s => normalizeDiffPath s.path
  let saturatedPaths := if saturatedNamed = [] then saturatedDiffPaths else saturatedNamed
  let truncatedPaths :=
    if r.paths = [] then (sections.map (·.path)).eraseDups else r.paths
  let diffUnavailable := (r.paths ≠ [] ∧ (¬ diffObserved ∨ missingDiffPaths ≠ [])) ∨
    saturatedDiffPaths ≠ [] ∨ r.truncated
  let content := if diffObserved then a.contentFindings sections r.authorized else []
  let scope := if r.paths ≠ [] ∧ diffObserved then
    a.scopeFindings r.paths r.authorized r.verifiedGreen else []
  let findings := (content ++ scope).take maxFindings
  let status := if findings ≠ [] then .suspicious
    else if diffObserved ∧ ¬ diffUnavailable then .clean
    else .unobserved
  let codes := (findings.map (·.reasonCode)).eraseDups
  let affected := (findings.flatMap (·.paths)).eraseDups.take maxAffectedPaths
  { status := status
    severity := severityForFindings findings
    reasonCodes := (if diffUnavailable then codes ++ [.diffUnavailable] else codes).take
      maxReasonCodes
    findings := findings
    affectedPaths := if diffUnavailable then
        (affected ++ missingDiffPaths ++ saturatedPaths ++
          if r.truncated then truncatedPaths else []).eraseDups.take maxAffectedPaths
      else affected }

end Completion

end Codey
