import Codey.Lib.Opcodes
import Codey.Workspace.ChangeSet

/-!
# The change tracker

The changes of tracked files and their diff.
-/

namespace Codey

namespace Workspace

namespace Changes

/-- A tracked path with the text before its first write and the text it has now, if any. -/
structure Snapshot where
  path : Text
  before : Option Text
  after : Option Text
  deriving DecidableEq

def joinLines (lines : List Text) : Text := ['\n'].intercalate lines

def textLines (text : Option Text) : List Text := (text.map splitLines).getD []

def Snapshot.old (s : Snapshot) : List Text := textLines s.before

def Snapshot.new (s : Snapshot) : List Text := textLines s.after

/-! ### A unified diff -/

def decimal (n : Nat) : Text := Nat.toDigits 10 n

def rangeStart (start stop : Nat) : Nat := if stop - start = 0 then start else start + 1

/-- `_format_range_unified` -/
def formatRange (start stop : Nat) : Text :=
  if stop - start = 1 then decimal (rangeStart start stop)
  else decimal (rangeStart start stop) ++ ',' :: decimal (stop - start)

def hunkHeader (first last : Opcode) : Text :=
  "@@ -".toList ++ (formatRange first.i1 last.i2 ++ (" +".toList ++
    (formatRange first.j1 last.j2 ++ " @@".toList)))

def opcodeLines (a b : List Text) (op : Opcode) : List Text :=
  (op.kept a).map (' ' :: ·) ++ ((op.deleted a).map ('-' :: ·) ++ (op.inserted b).map ('+' :: ·))

def groupLines (a b : List Text) (group : List Opcode) : List Text :=
  match group with
  | [] => []
  | first :: rest => hunkHeader first (rest.getLastD first) :: group.flatMap (opcodeLines a b)

/-- `difflib.unified_diff` of the grouped opcodes. -/
def unifiedDiff (a b : List Text) (groups : List (List Opcode)) (fromFile toFile : Text) :
    List Text :=
  if groups = [] then []
  else ("--- ".toList ++ fromFile) :: ("+++ ".toList ++ toFile) :: groups.flatMap (groupLines a b)

/-! ### The tracker -/

def maxSnapshotDiffChars : Nat := 240000

section

-- The grouped opcodes of `difflib.SequenceMatcher`.
variable (groupedOpcodes : List Text → List Text → List (List Opcode))

def Snapshot.groups (s : Snapshot) : List (List Opcode) := groupedOpcodes s.old s.new

def Snapshot.diffLines (s : Snapshot) : List Text :=
  unifiedDiff s.old s.new (s.groups groupedOpcodes)
    (if s.before = none then "/dev/null".toList else "a/".toList ++ s.path)
    (if s.after = none then "/dev/null".toList else "b/".toList ++ s.path)

def countsAsAddition (line : Text) : Bool :=
  ['+'].isPrefixOf line && !"+++".toList.isPrefixOf line

def countsAsDeletion (line : Text) : Bool :=
  !countsAsAddition line && ['-'].isPrefixOf line && !"---".toList.isPrefixOf line

def gitHeader (path : Text) : Text :=
  "diff --git ".toList ++ ("a/".toList ++ (path ++ (" b/".toList ++ path)))

def diffAndCounts (s : Snapshot) : Text × Nat × Nat :=
  let lines := s.diffLines groupedOpcodes
  let body := joinLines lines
  (if body = [] then [] else gitHeader s.path ++ '\n' :: body,
    lines.countP countsAsAddition, lines.countP countsAsDeletion)

def statusFor (before after : Option Text) : Text :=
  if before = none ∧ after ≠ none then ['A']
  else if before ≠ none ∧ after = none then ['D']
  else ['M']

/-- The selected files that changed, by their paths. -/
def snapshots (view : List Snapshot) (paths : Option (List Text)) : List Snapshot :=
  (view.insertionSort fun s t => s.path ≤ t.path).filter fun s =>
    paths.all (·.contains s.path) && s.before ≠ s.after

def Snapshot.row (s : Snapshot) : ChangeRow :=
  let counts := (diffAndCounts groupedOpcodes s).2
  ⟨s.path, statusFor s.before s.after, counts.1, counts.2⟩

/-- The diff of all files before it is cut. -/
def fullDiff (changed : List Snapshot) : Text :=
  ['\n', '\n'].intercalate
    ((changed.map fun s => (diffAndCounts groupedOpcodes s).1).filter (· ≠ []))

def collect (root : Text) (view : List Snapshot) (paths : Option (List Text)) : Payload :=
  let changed := snapshots view paths
  let files := changed.map (Snapshot.row groupedOpcodes)
  let diff := fullDiff groupedOpcodes changed
  let truncated : Bool := maxSnapshotDiffChars < diff.length
  { ok := true
    mode := "snapshot".toList
    root
    files
    changedCount := files.length
    diff := if truncated then
        (diff.take maxSnapshotDiffChars).rdropWhile blank ++ "\n\n... diff truncated ...".toList
      else diff
    truncated }

end

end Changes

end Workspace

end Codey
