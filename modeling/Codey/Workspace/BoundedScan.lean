import Codey.Lib.Check
import Codey.Lib.Text
import Mathlib.Data.List.Sort
import Mathlib.Data.List.Infix
import Mathlib.Algebra.Group.Prod
import Mathlib.Algebra.BigOperators.Group.List.Basic
import Mathlib.Data.String.Basic

/-!
# Bounded scans of a tree of files

The walk over the files of a project, which lists each directory within bounds, in the order of
the lower case of its names, and reads its files before it goes down.
-/

namespace Codey

namespace Workspace

/-! ### Trees -/

structure FileName where
  bytes : List UInt8
  valid : bytes ≠ [] ∧ 0x00 ∉ bytes ∧ 0x2F ∉ bytes
  deriving DecidableEq

/-- A path below the root of the scan. -/
abbrev Path := List FileName

/-- What the host answers about a regular file: its size, whether its path resolves, its state
before and after it is read (size and time), and its content. -/
structure FileEntry where
  size : Nat
  resolves : Bool
  before : Option (Nat × Nat)
  content : Option (List UInt8)
  after : Option (Nat × Nat)
  deriving DecidableEq

/-- An entry of a directory. A directory lists its entries in some order, and may fail at the end
of the list. -/
inductive Entry where
  | missing
  | symlink
  | other
  | file (f : FileEntry)
  | dir (resolves failed : Bool) (entries : List (FileName × Entry))

structure Dir where
  path : Path
  failed : Bool
  entries : List (FileName × Entry)

/-! ### Coverage -/

structure Coverage where
  name : FileName → String
  lower : String → String
  excludedDirs : List String
  ignores : List String

/-- The parts of a path are compared as texts. -/
local instance lawfulParts : LawfulBEq (List Char) := List.instLawfulBEq

/-- The parts of a path that `PurePosixPath` keeps. -/
def pureParts (text : List Char) : List (List Char) :=
  (text.splitOn '/').filter fun part => part ≠ [] ∧ part ≠ ['.']

/-- The loop that drops `./` at the front. -/
def dropDotSlash : List Char → List Char
  | '.' :: '/' :: rest => dropDotSlash rest
  | text => text

def normalizeProjectRelativePath (value : List Char) (allowDot : Bool) : Option (List Char) :=
  let text := (strip value).map fun ch => if ch = '\\' then '/' else ch
  if text.head? = some '/' then none
  else if ':' ∈ text.takeWhile (· ≠ '/') then none
  else
    let text := ((dropDotSlash text).dropWhile (· = '/')).rdropWhile (· = '/')
    if text = [] then if allowDot then some ['.'] else none
    else if ['.', '.'] ∈ pureParts text then none
    else if pureParts text = [] then some ['.']
    else some (['/'].intercalate (pureParts text))

def cleanRelativePrefix (value : List Char) : List Char :=
  (normalizeProjectRelativePath value false).getD []

def pathMatchesIgnoredPrefix (rel : List Char) (ignoredPaths : List String) : Bool :=
  let normalized := cleanRelativePrefix rel
  normalized ≠ [] && ignoredPaths.any fun front =>
    let clean := cleanRelativePrefix front.toList
    clean ≠ [] && (normalized = clean || (clean ++ ['/']).isPrefixOf normalized)

namespace Coverage

variable (c : Coverage)

/-- `path.name.lower()` -/
def key (n : FileName) : String := c.lower (c.name n)

/-- `path.name.lower() in excluded_lower` -/
def excludes (n : FileName) : Bool := (c.excludedDirs.map c.lower).contains (c.key n)

def relText (path : Path) : List Char := ['/'].intercalate (path.map fun n => (c.name n).toList)

def ignored (path : Path) : Bool :=
  c.relText path = [] || pathMatchesIgnoredPrefix (c.relText path) c.ignores

/-- The callback that the scan asks about a directory or a file. -/
def allowed (path : Path) (resolves : Bool) : Except String Bool :=
  if resolves then .ok (!c.ignored path) else .error "path_unavailable"

end Coverage

/-! ### Budgets -/

/-- `BoundedScanBudget`, but for the directories, which are counted down by the walk. -/
structure Budget where
  maxFiles : Nat
  maxDirEntries : Nat
  maxBytes : Option Nat
  filesSeen : Nat := 0
  bytesSeen : Nat := 0
  fileLimited : Bool := false
  dirLimited : Bool := false
  entryLimited : Bool := false
  byteLimited : Bool := false
  readFailed : Bool := false
  deriving DecidableEq

namespace Budget

def limited (b : Budget) : Bool :=
  b.fileLimited || b.dirLimited || b.entryLimited || b.byteLimited || b.readFailed

def consumeFile (b : Budget) (f : FileEntry) : Bool × Budget :=
  if b.maxFiles ≤ b.filesSeen then (false, { b with fileLimited := true })
  else
    match b.maxBytes with
    | none => (true, { b with filesSeen := b.filesSeen + 1 })
    | some maxBytes =>
      if maxBytes < b.bytesSeen + f.size then (false, { b with byteLimited := true })
      else (true, { b with filesSeen := b.filesSeen + 1, bytesSeen := b.bytesSeen + f.size })

end Budget

/-! ### The walk -/

structure DirectoryEntries where
  paths : List (FileName × Entry)
  entryLimited : Bool
  readFailed : Bool

def rawCap (maxEntries : Nat) : Nat := max (maxEntries * 4) (maxEntries + 100)

variable (c : Coverage)

/-- The loop over the entries of a directory. -/
def collectLoop (maxEntries : Nat) (failed : Bool) :
    Nat → List (FileName × Entry) → List (FileName × Entry) → DirectoryEntries
  | _, entries, [] => ⟨entries, false, failed⟩
  | rawSeen, entries, entry :: rest =>
    if c.excludes entry.1 then
      if rawCap maxEntries ≤ rawSeen + 1 then ⟨entries, true, false⟩
      else collectLoop maxEntries failed (rawSeen + 1) entries rest
    else if maxEntries ≤ entries.length then ⟨entries, true, false⟩
    else if rawCap maxEntries ≤ rawSeen + 1 then ⟨entries ++ [entry], true, false⟩
    else collectLoop maxEntries failed (rawSeen + 1) (entries ++ [entry]) rest

def collectBoundedDirEntries (current : Dir) (maxEntries : Nat) : DirectoryEntries :=
  collectLoop c maxEntries current.failed 0 [] current.entries

/-- `sorted(entries, key=lambda path: path.name.lower())` -/
def sortEntries (entries : List (FileName × Entry)) : List (FileName × Entry) :=
  entries.insertionSort fun x y => c.key x.1 ≤ c.key y.1

structure Partition where
  dirs : List Dir
  yielded : List (Path × FileEntry)
  stop : Bool
  budget : Budget

def partitionSortedEntries (path : Path) :
    List (FileName × Entry) → Budget → Except String Partition
  | [], b => .ok ⟨[], [], false, b⟩
  | (_, .missing) :: rest, b => partitionSortedEntries path rest { b with readFailed := true }
  | (_, .symlink) :: rest, b | (_, .other) :: rest, b => partitionSortedEntries path rest b
  | (n, .dir resolves failed entries) :: rest, b =>
    if c.excludes n then partitionSortedEntries path rest b
    else
      c.allowed (path ++ [n]) resolves >>= fun allow =>
      if allow then
        partitionSortedEntries path rest b >>= fun p =>
        .ok { p with dirs := ⟨path ++ [n], failed, entries⟩ :: p.dirs }
      else partitionSortedEntries path rest b
  | (n, .file f) :: rest, b =>
    c.allowed (path ++ [n]) f.resolves >>= fun allow =>
    if allow then
      if (b.consumeFile f).1 then
        partitionSortedEntries path rest (b.consumeFile f).2 >>= fun p =>
        .ok { p with yielded := (path ++ [n], f) :: p.yielded }
      else if (b.consumeFile f).2.limited then .ok ⟨[], [], true, (b.consumeFile f).2⟩
      else partitionSortedEntries path rest (b.consumeFile f).2
    else partitionSortedEntries path rest b

/-- A file that was read: its path and its content. -/
abbrev Item := Path × List UInt8

/-- What is done with each file that the scan yields. -/
def readFiles : List (Path × FileEntry) → Except String (List Item)
  | [] => .ok []
  | (path, f) :: rest =>
    match f.before, f.content, f.after with
    | some before, some content, some after =>
      if before ≠ after then .error "file_changed_during_scan"
      else readFiles rest >>= fun items => .ok ((path, content) :: items)
    | _, _, _ => .error "file_read_failed"

/-- The loop over the stack of directories, of which so many may still be listed. -/
def walk : Nat → List Dir → Budget → Except String (List Item × Budget)
  | _, [], b => .ok ([], b)
  | 0, _ :: _, b => .ok ([], { b with dirLimited := true })
  | room + 1, current :: stack, b =>
    let entries := collectBoundedDirEntries c current b.maxDirEntries
    let b := { b with
      entryLimited := b.entryLimited || entries.entryLimited
      readFailed := b.readFailed || entries.readFailed }
    partitionSortedEntries c current.path (sortEntries c entries.paths) b >>= fun p =>
    readFiles p.yielded >>= fun items =>
    if p.stop then .ok (items, p.budget)
    else walk room (p.dirs ++ stack) p.budget >>= fun later => .ok (items ++ later.1, later.2)

end Workspace

end Codey
