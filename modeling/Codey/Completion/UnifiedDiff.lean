import Codey.Completion.EditIntegrity

/-!
# Unified diffs

A diff as the changes of its files, its text, and what the text shows the scan besides these
changes.
-/

namespace Codey

namespace Completion

/-- A line of a hunk, without its sign. -/
inductive DiffLine where
  | context (text : List Char)
  | added (text : List Char)
  | removed (text : List Char)
  | noNewline (text : List Char)
  | empty
deriving DecidableEq, Repr

/-- The line as it stands in the diff. -/
def DiffLine.raw : DiffLine → List Char
  | .context text => ' ' :: text
  | .added text => '+' :: text
  | .removed text => '-' :: text
  | .noNewline text => '\\' :: text
  | .empty => []

/-- The line that an analyser has to see, with its sign: what was added or removed, without the
carriage return that belongs to its end. -/
def DiffLine.change : DiffLine → Option (List Char)
  | .added text => some ('+' :: rstripCr text)
  | .removed text => some ('-' :: rstripCr text)
  | _ => none

structure Hunk where
  range : List Char
  lines : List DiffLine
deriving DecidableEq, Repr

def Hunk.raw (h : Hunk) : List (List Char) := ("@@".toList ++ h.range) :: h.lines.map DiffLine.raw

structure FileBody where
  oldLabel : List Char
  newLabel : List Char
  hunks : List Hunk
deriving DecidableEq, Repr

def FileBody.raw (b : FileBody) : List (List Char) :=
  ("--- ".toList ++ b.oldLabel) :: ("+++ ".toList ++ b.newLabel) :: b.hunks.flatMap Hunk.raw

/-- The changes of one file: its path, what stands behind `diff --git `, the extended header
lines, and the hunks where there are any. -/
structure FileDiff where
  path : List Char
  header : List Char
  extended : List (List Char)
  body : Option FileBody
  nonempty : path ≠ []
deriving DecidableEq, Repr

def FileDiff.raw (f : FileDiff) : List (List Char) :=
  ("diff --git ".toList ++ f.header) :: f.extended ++ (f.body.map FileBody.raw).getD []

def FileDiff.hunks (f : FileDiff) : List Hunk := (f.body.map FileBody.hunks).getD []

def FileDiff.changes (f : FileDiff) : List (List Char) :=
  f.hunks.flatMap fun h => h.lines.filterMap DiffLine.change

/-- A diff of any number of files; `final` tells whether its text ends with a newline. -/
structure UnifiedDiff where
  files : List FileDiff
  final : Bool
deriving DecidableEq, Repr

def UnifiedDiff.text (d : UnifiedDiff) : List Char :=
  let lines := unlines (d.files.flatMap FileDiff.raw)
  if d.final then lines else lines.dropLast

def UnifiedDiff.changesOf (d : UnifiedDiff) (path : List Char) : List (List Char) :=
  (d.files.filter (·.path = path)).flatMap FileDiff.changes

def linesOf (sections : List DiffSection) (path : List Char) : List (List Char) :=
  (sections.filter (·.path = path)).flatMap DiffSection.lines

def Flagged (sections : List DiffSection) (path : List Char) : Prop :=
  ∃ s ∈ sections, s.path = path ∧ s.saturated = true

instance (sections : List DiffSection) (path : List Char) : Decidable (Flagged sections path) :=
  inferInstanceAs (Decidable (∃ s ∈ sections, s.path = path ∧ s.saturated = true))

/-- The sections of every changed path are its changes, unless one of them is flagged. -/
def UnifiedDiff.Exact (d : UnifiedDiff) : Prop :=
  ∀ f ∈ d.files, Flagged (diffFileSections d.text) f.path ∨
    linesOf (diffFileSections d.text) f.path = d.changesOf f.path

instance (d : UnifiedDiff) : Decidable d.Exact :=
  inferInstanceAs (Decidable (∀ f ∈ d.files, Flagged (diffFileSections d.text) f.path ∨
    linesOf (diffFileSections d.text) f.path = d.changesOf f.path))

/-! ### Diffs that show nothing else -/

/-- A line that the scan passes over outside a hunk. -/
def Idle (line : List Char) : Prop :=
  headerPath line = none ∧ fileLabel line = false ∧ ¬ "@@".toList <+: line

/-- A line that the scan passes over inside a hunk. -/
def Quiet (line : List Char) : Prop := headerPath line = none ∧ changeLine line = false

def firstPiece (text : List Char) : List Char := (pieces text).headD []

/-- The lines that a break inside a text adds to it. -/
def laterPieces (text : List Char) : List (List Char) := (pieces text).tail

/-- Any line but a change falls into lines that the scan passes over. -/
def DiffLine.Harmless (l : DiffLine) : Prop := l.change = none → ∀ p ∈ pieces l.raw, Quiet p

structure Hunk.Harmless (h : Hunk) : Prop where
  range : ∀ p ∈ laterPieces h.range, Quiet p
  lines : ∀ l ∈ h.lines, l.Harmless

structure FileBody.Harmless (b : FileBody) : Prop where
  oldLabel : ∀ p ∈ laterPieces b.oldLabel, Idle p
  newLabel : ∀ p ∈ laterPieces b.newLabel, Idle p
  hunks : ∀ h ∈ b.hunks, h.Harmless

namespace FileDiff

/-- The path that the `diff --git` line names. -/
def gitPath (f : FileDiff) : Option (List Char) :=
  headerPath ("diff --git ".toList ++ firstPiece f.header)

/-- The path that the lines of the file name, where `path` was named before. -/
def named (f : FileDiff) (path : List Char) : List Char :=
  let path := f.gitPath.getD path
  match f.body with
  | none => path
  | some b => labelPath (labelPath path ("--- ".toList ++ firstPiece b.oldLabel))
      ("+++ ".toList ++ firstPiece b.newLabel)

/-- Whether the file ends inside a hunk, where it begins inside one or not. -/
def inside (f : FileDiff) (before : Bool) : Bool :=
  match f.body with
  | none => f.gitPath.isNone && before
  | some b => !b.hunks.isEmpty

structure Harmless (f : FileDiff) (before : Bool) : Prop where
  idle : ∀ p ∈ laterPieces f.header ++ f.extended.flatMap pieces, Idle p
  quiet : f.gitPath = none → before = true →
    ∀ p ∈ laterPieces f.header ++ f.extended.flatMap pieces, Quiet p
  body : ∀ b ∈ f.body, b.Harmless

end FileDiff

def HarmlessFrom : Bool → List FileDiff → Prop
  | _, [] => True
  | before, f :: fs => f.Harmless before ∧ HarmlessFrom (f.inside before) fs

/-- The files, each under the path that its lines name. -/
def namedFrom : List Char → List FileDiff → List (List Char × FileDiff)
  | _, [] => []
  | path, f :: fs => (f.named path, f) :: namedFrom (f.named path) fs

/-- A change that is one line, and no file label. -/
structure PlainChange (line : List Char) : Prop where
  unbroken : Unbroken line
  nolabel : fileLabel line = false

def FileDiff.PlainChanges (f : FileDiff) : Prop := ∀ line ∈ f.changes, PlainChange line

namespace UnifiedDiff

variable (d : UnifiedDiff)

/-- No line but a change is cut into something that the scan takes for a header or for a change. -/
def Harmless : Prop := HarmlessFrom false d.files

def namedFiles : List (List Char × FileDiff) := namedFrom [] d.files

/-- The changes of the files whose lines name the path. -/
def changesNamed (path : List Char) : List (List Char) :=
  (d.namedFiles.filter (·.1 = path)).flatMap fun p => p.2.changes

/-- One of the files whose lines name the path has more changes than a section takes. -/
def Overlong (path : List Char) : Prop :=
  ∃ p ∈ d.namedFiles, p.1 = path ∧ maxSectionLines < p.2.changes.length

/-- Every change is one line and no file label, and the files whose lines name a path have the
changes of the path, unless there are too many. -/
structure Plain : Prop where
  changes : ∀ f ∈ d.files, f.PlainChanges
  named : ∀ f ∈ d.files, d.Overlong f.path ∨ d.changesNamed f.path = d.changesOf f.path

end UnifiedDiff

end Completion

end Codey
