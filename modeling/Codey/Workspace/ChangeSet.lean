import Codey.Lib.Lines
import Codey.Lib.Utf8
import Codey.Workspace.BoundedScan

/-!
# Change sets

The paths of a collected payload of changes, and the hunks that are read from its diff.
-/

namespace Codey

namespace Workspace

namespace Changes

abbrev Text := List Char

local instance lawfulText : LawfulBEq (List Char) := List.instLawfulBEq

local instance lawfulUnit : LawfulBEq (Option Char) := Option.instLawfulBEq Char

/-! ### Paths -/

def octalDigit (ch : Char) : Bool := '0' ≤ ch && ch ≤ '7'

/-- What a letter stands for behind a backslash. -/
def cEscape (ch : Char) : Option UInt8 :=
  match ch with
  | 'a' => some 7
  | 'b' => some 8
  | 'f' => some 12
  | 'n' => some 10
  | 'r' => some 13
  | 't' => some 9
  | 'v' => some 11
  | '\\' => some 92
  | '"' => some 34
  | _ => none

/-- `_decode_c_quotes`, before the bytes are decoded. A number that is no byte raises. -/
def cQuotedBytes : Text → Except String (List UInt8)
  | [] => .ok []
  | ['\\'] => .ok (String.utf8EncodeChar '\\')
  | '\\' :: next :: rest =>
    if octalDigit next then
      let octal := (next :: rest).take 3
      if octal.length = 3 ∧ octal.all octalDigit then
        if 255 < Nat.ofDigitChars 8 octal 0 then .error "byte must be in range(0, 256)"
        else (cQuotedBytes (rest.drop 2)).map (UInt8.ofNat (Nat.ofDigitChars 8 octal 0) :: ·)
      else (cQuotedBytes (next :: rest)).map (String.utf8EncodeChar '\\' ++ ·)
    else
      match cEscape next with
      | some byte => (cQuotedBytes rest).map (byte :: ·)
      | none => (cQuotedBytes rest).map (String.utf8EncodeChar next ++ ·)
  | ch :: rest => (cQuotedBytes rest).map (String.utf8EncodeChar ch ++ ·)
termination_by text => text.length
decreasing_by all_goals (simp only [List.length_cons, List.length_drop]; omega)

def decodeCQuotes (inner : Text) : Except String Text :=
  (cQuotedBytes inner).map fun bytes => if none ∈ Utf8.units bytes then [] else Utf8.decode bytes

def quoted (raw : Text) : Bool :=
  2 ≤ raw.length && raw.head? = some '"' && raw.getLast? = some '"'

def decodeGitPath (raw : Text) : Except String Text :=
  if quoted raw then decodeCQuotes raw.tail.dropLast else .ok (strip raw)

def safeChangePath (value : Text) : Text :=
  let unified := (strip value).map fun ch => if ch = '\\' then '/' else ch
  if unified.head? = some '/' || (unified.head?.any Char.isAlpha && unified[1]? = some ':') then []
  else
    let normalized := ((strip unified).dropWhile (· = '/')).rdropWhile (· = '/')
    if ['.', '.'] ∈ pureParts normalized then [] else ['/'].intercalate (pureParts normalized)

/-- The text in front of the first occurrence of another, and behind it. -/
def splitAtText (sep : Text) : Text → Option (Text × Text)
  | [] => if sep = [] then some ([], []) else none
  | ch :: rest =>
    if sep.isPrefixOf (ch :: rest) then some ([], (ch :: rest).drop sep.length)
    else (splitAtText sep rest).map fun halves => (ch :: halves.1, halves.2)

def rowPath (raw : Text) : Except String Text := (decodeGitPath raw).map safeChangePath

/-- The path of a row and the one before a rename. -/
def changeFilePaths (upper : Text → Text) (rawPath rawPrevious rawStatus : Text) :
    Except String (Text × Text) :=
  rowPath rawPrevious >>= fun previous =>
  let status := upper (strip rawStatus)
  match (if previous = [] ∧ (status.head? = some 'R' ∨ status.head? = some 'C') then
    splitAtText " -> ".toList rawPath else none) with
  | none => (rowPath rawPath).map (·, previous)
  | some (before, after) =>
    rowPath after >>= fun path =>
    if path = [] then (rowPath rawPath).map (·, previous)
    else (rowPath before).map (path, ·)

/-! ### Headers -/

def expect (front text : Text) : Option Text :=
  if front.isPrefixOf text then some (text.drop front.length) else none

@[simp] lemma expect_append (front text : Text) : expect front (front ++ text) = some text := by
  simp [expect, List.isPrefixOf_iff_prefix]

/-- `_strip_diff_prefix`, of a decoded path. -/
def withoutPrefix (decoded : Text) : Text :=
  if decoded = [] then []
  else safeChangePath (((expect "a/".toList decoded).or (expect "b/".toList decoded)).getD decoded)

def stripDiffPrefix (path : Text) : Except String Text :=
  (decodeGitPath (strip path)).map withoutPrefix

def pathFromFileHeader (value : Text) : Except String Text :=
  let token := strip (value.takeWhile (· ≠ '\t'))
  if token = "/dev/null".toList then .ok [] else stripDiffPrefix token

def afterQuoted : Text → Option (Text × Text)
  | '\\' :: ch :: rest => (afterQuoted rest).map fun halves => ('\\' :: ch :: halves.1, halves.2)
  | '"' :: rest => some (['"'], rest)
  | ch :: rest => (afterQuoted rest).map fun halves => (ch :: halves.1, halves.2)
  | [] => none

def takeQuoted (text : Text) : Text × Text :=
  match text with
  | '"' :: rest =>
    ((afterQuoted rest).map fun halves => ('"' :: halves.1, halves.2)).getD ([], '"' :: rest)
  | text => ([], text)

/-- `str.split()` -/
def words (text : Text) : List Text := (text.splitOnP blank).filter (· ≠ [])

def splitQuotedPair (text : Text) : Text × Text :=
  let first := takeQuoted text
  if first.1 = [] then ([], [])
  else
    let rest := first.2.dropWhile blank
    if rest.head? = some '"' then (first.1, (takeQuoted rest).1)
    else (first.1, (words rest).headD [])

def afterLast (sep : Text) : Text → Option Text
  | [] => none
  | ch :: rest => (afterLast sep rest).or (expect sep (ch :: rest))

def pathFromDiffGit (line : Text) : Except String Text :=
  let remainder := (expect "diff --git ".toList line).getD []
  if strip remainder = [] then .ok []
  else
    let stripped := remainder.dropWhile blank
    if stripped.head? = some '"' then
      let pair := splitQuotedPair stripped
      if pair.2 ≠ [] then stripDiffPrefix pair.2
      else if pair.1 ≠ [] then stripDiffPrefix pair.1
      else .ok []
    else
      match afterLast " b/".toList remainder with
      | some newRaw => stripDiffPrefix newRaw
      | none =>
        if 4 ≤ (words remainder).length then stripDiffPrefix ((words remainder).getD 3 [])
        else .ok []

/-! ### Hunks -/

structure ChangeHunk where
  index : Nat
  oldStart : Nat
  oldLines : Nat
  newStart : Nat
  newLines : Nat
  header : Text
  deriving DecidableEq

/-- `\\s+` -/
def spaces (text : Text) : Option Text :=
  if text.takeWhile blank = [] then none else some (text.dropWhile blank)

/-- `\\d+`, of the digits that a rendered diff has. -/
def number (text : Text) : Option (Nat × Text) :=
  if text.takeWhile Char.isDigit = [] then none
  else some (Nat.ofDigitChars 10 (text.takeWhile Char.isDigit) 0, text.dropWhile Char.isDigit)

def range (text : Text) : Option ((Nat × Nat) × Text) :=
  (number text).map fun start =>
    match (expect [','] start.2).bind number with
    | some length => ((start.1, length.1), length.2)
    | none => ((start.1, 1), start.2)

def parseHunkLine (line : Text) (index : Nat) : Option ChangeHunk :=
  (expect "@@".toList line).bind fun text =>
  (spaces text).bind fun text =>
  (expect ['-'] text).bind fun text =>
  (range text).bind fun old =>
  (spaces old.2).bind fun text =>
  (expect ['+'] text).bind fun text =>
  (range text).bind fun new =>
  (spaces new.2).bind fun text =>
  (expect "@@".toList text).map fun _ =>
    ⟨index, old.1.1, old.1.2, new.1.1, new.1.2, line⟩

/-- The hunks by paths, the path whose hunks are read, if any, and the one of the last old file. -/
structure Scan where
  hunks : Text → List ChangeHunk := fun _ => []
  current : Text := []
  pendingOld : Text := []

def Scan.push (s : Scan) (hunk : ChangeHunk) : Scan :=
  { s with hunks := fun path => if path = s.current then s.hunks path ++ [hunk] else s.hunks path }

/-- The path whose hunks follow the header of a new file. -/
def Scan.select (s : Scan) (pendingNew : Text) : Scan :=
  { s with current := if pendingNew ≠ [] then pendingNew
      else if s.pendingOld ≠ [] then s.pendingOld else s.current }

/-- One turn of the loop of `_parse_hunks`. -/
def scanLine (s : Scan) (line : Text) : Except String Scan :=
  if "diff --git ".toList.isPrefixOf line then
    (pathFromDiffGit line).map fun path => { s with current := path, pendingOld := [] }
  else if "--- ".toList.isPrefixOf line then
    (pathFromFileHeader (line.drop 4)).map fun path => { s with pendingOld := path }
  else if "+++ ".toList.isPrefixOf line then (pathFromFileHeader (line.drop 4)).map s.select
  else if s.current = [] || !"@@".toList.isPrefixOf line then .ok s
  else
    match parseHunkLine line ((s.hunks s.current).length + 1) with
    | none => .ok s
    | some hunk => .ok (s.push hunk)

def diffLines (diff : Text) : List Text := (universalNewlines diff).splitOn '\n'

def parseHunks (diff : Text) : Except String (Text → List ChangeHunk) :=
  (foldE (diffLines diff) scanLine {}).map (·.hunks)

/-! ### The change set -/

/-- A row of a payload. -/
structure ChangeRow where
  path : Text
  status : Text
  additions : Nat
  deletions : Nat
  deriving DecidableEq

/-- A payload of collected changes. -/
structure Payload where
  ok : Bool := true
  mode : Text
  root : Text
  files : List ChangeRow
  changedCount : Nat
  diff : Text
  truncated : Bool

structure ChangeFile where
  path : Text
  status : Text
  additions : Nat
  deletions : Nat
  hunks : List ChangeHunk
  previousPath : Text
  deriving DecidableEq

structure ChangeSet where
  ok : Bool
  mode : Text
  root : Text
  files : List ChangeFile
  changedCount : Nat
  rawDiff : Text
  rawDiffTruncated : Bool

def fileOfRow (upper : Text → Text) (row : ChangeRow) : Except String ChangeFile :=
  let status := (if row.status = [] then ['M'] else row.status).take 20
  (changeFilePaths upper row.path [] status).map fun paths =>
    ⟨paths.1, status, row.additions, row.deletions, [], paths.2⟩

/-- `_files_from_changes`: a row without a path, or with a path that was seen, is left out. -/
def filesFromChanges (upper : Text → Text) (seen : List Text) :
    List ChangeRow → Except String (List ChangeFile)
  | [] => .ok []
  | row :: rest =>
    fileOfRow upper row >>= fun file =>
    if file.path = [] ∨ file.path ∈ seen then filesFromChanges upper seen rest
    else (filesFromChanges upper (file.path :: seen) rest).map (file :: ·)

def fromChanges (upper : Text → Text) (changes : Payload) : Except String ChangeSet :=
  filesFromChanges upper [] changes.files >>= fun files =>
  parseHunks changes.diff >>= fun hunks =>
  let files := files.map fun file => { file with hunks := hunks file.path }
  .ok { ok := changes.ok
        mode := changes.mode
        root := changes.root
        files
        changedCount := if changes.changedCount = 0 then files.length else changes.changedCount
        rawDiff := changes.diff
        rawDiffTruncated := changes.truncated }

end Changes

end Workspace

end Codey
