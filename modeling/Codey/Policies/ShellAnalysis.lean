import Codey.Lib.Check
import Codey.Lib.Json
import Codey.Lib.Text

/-!
# Shell analysis

The bounded analysis that an approval carries with its command: which interpreter runs the
command, the words, operators and redirections found in it, and whether it may be granted for
reuse. The lexer is that of `cmd.exe`; the parsers of the other dialects are left open.
-/

namespace Codey

namespace Policies

/-- What is asked of the standard library: the digest of a text, the text of a value with its keys
in order, the lower case of a text, and the name of the executable that an absolute Windows path
leads to. -/
structure Library where
  sha256 : String → String
  dumps : Json → String
  lower : String → String
  windowsStem : String → Option String

/-! ### The interpreter -/

inductive ShellKind where
  | cmd
  | powershell
  | bash
  | zsh
  | sh
  deriving DecidableEq

namespace ShellKind

def name : ShellKind → String
  | .cmd => "cmd"
  | .powershell => "powershell"
  | .bash => "bash"
  | .zsh => "zsh"
  | .sh => "sh"

def all : List ShellKind := [.cmd, .powershell, .bash, .zsh, .sh]

def ofName? (s : String) : Option ShellKind := all.find? (·.name = s)

/-- The executables of a dialect. -/
def names : ShellKind → List String
  | .cmd => ["cmd"]
  | .powershell => ["pwsh", "powershell"]
  | .bash => ["bash"]
  | .zsh => ["zsh"]
  | .sh => ["sh", "dash"]

end ShellKind

inductive Startup where
  | noninteractive
  | login
  deriving DecidableEq

def Startup.name : Startup → String
  | .noninteractive => "noninteractive"
  | .login => "login"

def Startup.ofName? (s : String) : Option Startup :=
  [Startup.noninteractive, .login].find? (·.name = s)

/-- The interpreter that an approval is bound to. -/
structure ShellSpec where
  kind : ShellKind
  executable : String
  version : Option String
  startup : Startup
  binarySha256 : String
  deriving DecidableEq

/-- A digest in lower-case hexadecimal. -/
def isDigest (s : String) : Bool :=
  s.length = 64 && s.toList.all fun ch => ch.isDigit || ('a' ≤ ch && ch ≤ 'f')

/-- The part of a text after its last slash. -/
def baseName (s : String) : String :=
  String.ofList (s.toList.reverse.takeWhile (· ≠ '/')).reverse

namespace ShellSpec

variable (lib : Library)

/-- The name of an executable, which is given by an absolute path. -/
def executableName (executable : String) : Except String String :=
  match lib.windowsStem executable with
  | some stem => .ok (lib.lower stem)
  | none =>
    if executable.toList.head? = some '/' then .ok (baseName executable)
    else .error "shell executable must be an absolute path"

def named {α : Type} (entry : Option α) (message : String) : Except String α :=
  match entry with
  | some a => .ok a
  | none => .error message

/-- `__post_init__`. -/
def make (kind executable : String) (version : Option String) (startup binarySha256 : String) :
    Except String ShellSpec := do
  require (!executable.toList.any fun ch => ['"', '\x00', '\r', '\n'].contains ch)
    "invalid shell executable path"
  let kind ← named (ShellKind.ofName? kind) "unsupported shell contract"
  let startup ← named (Startup.ofName? startup) "unsupported shell startup mode"
  require (!(kind = .cmd && startup = .login)) "unsupported shell startup mode"
  require (version.all fun version => !version.toList.all blank) "invalid shell version"
  require (isDigest binarySha256) "shell binary fingerprint required"
  let name ← executableName lib executable
  require (kind.names.contains name) "shell kind differs from executable"
  pure {
    kind := kind
    executable := executable
    version := version
    startup := startup
    binarySha256 := binarySha256 }

def toPayload (shell : ShellSpec) : Json := .obj [
  ("binary_sha256", .str shell.binarySha256),
  ("executable", .str shell.executable),
  ("kind", .str shell.kind.name),
  ("startup", .str shell.startup.name),
  ("version", (shell.version.map Json.str).getD .null)]

end ShellSpec

/-- The members of an object with exactly these keys. -/
def object (value : Json) (keys : List String) (message : String) : Except String Fields :=
  match value with
  | .obj fields =>
    if fields.all (fun member => keys.contains member.1) &&
        keys.all (fun key => (Fields.get? fields key).isSome) then .ok fields
    else .error message
  | _ => .error message

def textOf (fields : Fields) (key message : String) : Except String String :=
  ShellSpec.named ((fields.get? key).bind Json.str?) message

/-- A member that may be absent. -/
def optionalText (fields : Fields) (key message : String) : Except String (Option String) :=
  match (fields.get? key).getD .null with
  | .null => .ok none
  | .str s => .ok (some s)
  | _ => .error message

def ShellSpec.fromPayload (lib : Library) (value : Json) : Except String ShellSpec := do
  let fields ← object value ["kind", "executable", "version", "startup", "binary_sha256"]
    "shell contract required; request a new command approval"
  let kind ← textOf fields "kind" "invalid shell contract"
  let executable ← textOf fields "executable" "invalid shell contract"
  let startup ← textOf fields "startup" "invalid shell contract"
  let binarySha256 ← textOf fields "binary_sha256" "invalid shell contract"
  let version ← optionalText fields "version" "invalid shell contract"
  ShellSpec.make lib kind executable version startup binarySha256

/-! ### The analysis -/

/-- A word of a command: as it is written, and as it reads unless it is expanded. -/
structure ShellWord where
  raw : String
  literal : Option String
  expansions : List String := []
  deriving DecidableEq

structure ShellCommand where
  words : List ShellWord
  deriving DecidableEq

structure ShellRedirect where
  operator : String
  target : Option ShellWord
  deriving DecidableEq

/-- What came of the analysis. -/
inductive ShellStatus where
  | parsed
  | obscure
  | invalid
  deriving DecidableEq

def ShellStatus.name : ShellStatus → String
  | .parsed => "parsed"
  | .obscure => "opaque"
  | .invalid => "invalid"

structure ShellAnalysis where
  commandSha256 : String
  status : ShellStatus
  parser : String
  commands : List ShellCommand := []
  operators : List String := []
  redirections : List ShellRedirect := []
  expansions : List String := []
  dynamic : Bool := false
  reason : String := ""
  shellSha256 : String := ""
  deriving DecidableEq

def ShellWord.fixed (word : ShellWord) : Bool := word.literal.isSome && word.expansions.isEmpty

def ShellAnalysis.reusable (analysis : ShellAnalysis) : Bool :=
  analysis.status = .parsed && !analysis.dynamic && analysis.expansions.isEmpty &&
    !analysis.commands.isEmpty &&
    (analysis.commands.all fun row => row.words.all ShellWord.fixed) &&
    analysis.redirections.all fun row => row.target.all ShellWord.fixed

def ShellAnalysis.simpleArgv (analysis : ShellAnalysis) : Option (List String) :=
  if !analysis.reusable || !analysis.operators.isEmpty || !analysis.redirections.isEmpty then none
  else match analysis.commands with
    | [row] => if row.words.isEmpty then none else some (row.words.filterMap (·.literal))
    | _ => none

section Payload

def sequence : Json → Except String (List Json)
  | .arr items =>
    if items.length ≤ 10000 then .ok items else .error "invalid shell analysis sequence"
  | _ => .error "invalid shell analysis sequence"

def strings (value : Json) : Except String (List String) := do
  let values ← sequence value
  values.mapM fun item => ShellSpec.named item.str? "invalid shell analysis strings"

def digest (value : Json) : Except String String :=
  ShellSpec.named (value.str?.filter isDigest) "invalid shell analysis identity"

/-- A member of an object whose keys have been checked. -/
def member (fields : Fields) (key : String) : Json := (fields.get? key).getD .null

def ShellWord.fromPayload (value : Json) : Except String ShellWord := do
  let row ← object value ["raw", "literal", "expansions"] "shell analysis fields differ"
  let raw ← textOf row "raw" "invalid shell word"
  let literal ← optionalText row "literal" "invalid shell word"
  let expansions ← strings (member row "expansions")
  pure { raw := raw, literal := literal, expansions := expansions }

def ShellCommand.fromPayload (value : Json) : Except String ShellCommand := do
  let row ← object value ["words"] "shell analysis fields differ"
  let items ← sequence (member row "words")
  let words ← items.mapM ShellWord.fromPayload
  pure { words := words }

def targetFromPayload (value : Json) : Except String (Option ShellWord) :=
  if value = .null then .ok none else (ShellWord.fromPayload value).map some

def ShellRedirect.fromPayload (value : Json) : Except String ShellRedirect := do
  let row ← object value ["operator", "target"] "shell analysis fields differ"
  let operator ← textOf row "operator" "invalid shell redirection"
  let target ← targetFromPayload (member row "target")
  pure { operator := operator, target := target }

def ShellStatus.ofName? (s : String) : Option ShellStatus :=
  [ShellStatus.parsed, .obscure, .invalid].find? (·.name = s)

/-- A truth value of a payload. -/
def flag : Json → Option Bool
  | .bool b => some b
  | _ => none

def ShellAnalysis.fromPayload (value : Json) : Except String ShellAnalysis := do
  let row ← object value ["command_sha256", "status", "parser", "commands", "operators",
    "redirections", "expansions", "dynamic", "reason", "shell_sha256"]
    "shell analysis fields differ"
  let invalid := "invalid shell analysis metadata"
  let status ← ShellSpec.named ((member row "status").str?.bind ShellStatus.ofName?) invalid
  let parser ← textOf row "parser" invalid
  require (parser ≠ "") invalid
  let dynamic ← ShellSpec.named (flag (member row "dynamic")) invalid
  let reason ← textOf row "reason" invalid
  let commandSha256 ← digest (member row "command_sha256")
  let commands ← sequence (member row "commands")
  let commands ← commands.mapM ShellCommand.fromPayload
  let operators ← strings (member row "operators")
  let redirections ← sequence (member row "redirections")
  let redirections ← redirections.mapM ShellRedirect.fromPayload
  let expansions ← strings (member row "expansions")
  let shellSha256 ← digest (member row "shell_sha256")
  pure {
    commandSha256 := commandSha256
    status := status
    parser := parser
    commands := commands
    operators := operators
    redirections := redirections
    expansions := expansions
    dynamic := dynamic
    reason := reason
    shellSha256 := shellSha256 }

end Payload

section Bound

variable (lib : Library)

def shellIdentity (shell : ShellSpec) : String := lib.sha256 (lib.dumps shell.toPayload)

def parserIdentity (shell : ShellSpec) : String :=
  match shell.kind with
  | .cmd => "cmd-literal/v1"
  | .powershell =>
    "PowerShell AST/" ++ if shell.version.getD "" = "" then "unknown" else shell.version.getD ""
  | _ => "tree-sitter-bash/0.25.1"

def ShellAnalysis.matches (analysis : ShellAnalysis) (command : String) (shell : ShellSpec) :
    Bool :=
  analysis.commandSha256 = lib.sha256 command && analysis.shellSha256 = shellIdentity lib shell

def boundAnalysis (command : String) (shell : ShellSpec) (value : Json) :
    Except String ShellAnalysis := do
  let analysis ← ShellAnalysis.fromPayload value
  require (analysis.matches lib command shell && analysis.parser = parserIdentity shell)
    "shell analysis differs from command, interpreter or parser; request a new approval"
  pure analysis

end Bound

/-! ### The lexer of `cmd.exe` -/

def dynamicNames : List String :=
  ["eval", "source", ".", "exec", "command", "builtin", "env", "call", "start",
    "invoke-expression", "iex", "invoke-command", "icm", "cmd", "powershell", "pwsh", "bash",
    "zsh", "sh"]

/-- `str.removesuffix` of `.exe`. -/
def withoutExe (s : String) : String :=
  if ".exe".toList.isSuffixOf s.toList then String.ofList (s.toList.take (s.length - 4)) else s

def evaluator (lib : Library) (literal : String) : Bool :=
  let path := String.ofList (literal.toList.map fun ch => if ch = '\\' then '/' else ch)
  dynamicNames.contains (withoutExe (lib.lower (baseName path)))

def dynamicName (lib : Library) (words : List ShellWord) : Bool :=
  match words.head?.bind (·.literal) with
  | none => true
  | some literal => evaluator lib literal

/-- A decimal digit stands at most nine places after one of these. -/
def digitZeros : List Nat :=
  [48, 1632, 1776, 1984, 2406, 2534, 2662, 2790, 2918, 3046, 3174, 3302, 3430, 3558, 3664, 3792,
    3872, 4160, 4240, 6112, 6160, 6470, 6608, 6784, 6800, 6992, 7088, 7232, 7248, 42528, 43216,
    43264, 43472, 43504, 43600, 44016, 65296, 66720, 68912, 69734, 69872, 69942, 70096, 70384,
    70736, 70864, 71248, 71360, 71472, 71904, 72016, 72784, 73040, 73120, 92768, 92864, 93008,
    120782, 120792, 120802, 120812, 120822, 123200, 123632, 125264, 130032]

/-- `str.isdecimal`. -/
def decimal (cs : List Char) : Bool :=
  !cs.isEmpty && cs.all fun ch => digitZeros.any fun least =>
    least ≤ ch.toNat && ch.toNat < least + 10

/-- The text between two marks, if there is any on the line. -/
def marked (mark : Char) (rest : List Char) : Option (List Char) :=
  let body := rest.takeWhile fun ch => !(ch = mark || ch = '\r' || ch = '\n')
  if !body.isEmpty && (rest.drop body.length).head? = some mark then
    some (mark :: body ++ [mark])
  else none

def expansionAt : List Char → Option (List Char)
  | '%' :: rest => (marked '%' rest).or
      ((rest.head?.filter fun ch => ch.isDigit || ch = '*').map fun ch => ['%', ch])
  | '!' :: rest => marked '!' rest
  | _ => none

/-- `re.findall` of the expansions. The number says how many characters an expansion that was
found still covers. -/
def expansionsIn : Nat → List Char → List String
  | _, [] => []
  | covered + 1, _ :: cs => expansionsIn covered cs
  | 0, ch :: cs =>
    match expansionAt (ch :: cs) with
    | some found => String.ofList found :: expansionsIn (found.length - 1) cs
    | none => expansionsIn 0 cs

def cmdWord (raw literal : List Char) : ShellWord :=
  let expanded := expansionsIn 0 raw
  { raw := String.ofList raw
    literal := if expanded.isEmpty then some (String.ofList literal) else none
    expansions := expanded }

/-- The variables of `_cmd`. -/
structure Lexer where
  words : List ShellWord := []
  commands : List ShellCommand := []
  operators : List String := []
  redirects : List ShellRedirect := []
  expansions : List String := []
  reason : String := ""
  raw : List Char := []
  literal : List Char := []
  quoted : Bool := false
  target : Option String := none

namespace Lexer

variable (s : Lexer)

/-- The end of a word. -/
def finish : Lexer :=
  if s.raw = [] then s
  else
    let word := cmdWord s.raw s.literal
    match s.target with
    | some operator => { s with
        raw := []
        literal := []
        expansions := s.expansions ++ word.expansions
        redirects := s.redirects ++ [{ operator := operator, target := some word }]
        target := none }
    | none => { s with
        raw := []
        literal := []
        expansions := s.expansions ++ word.expansions
        words := s.words ++ [word] }

def close : Lexer :=
  if s.words = [] then s
  else { s with commands := s.commands ++ [{ words := s.words }], words := [] }

def push (ch : Char) : Lexer := { s with raw := s.raw ++ [ch], literal := s.literal ++ [ch] }

/-- A character for which the command needs explicit approval. -/
def unsure (ch : Char) (reason : String) : Lexer := { s.push ch with reason := reason }

def quote : Lexer := { s with raw := s.raw ++ ['"'], quoted := !s.quoted }

def operator (operator : List Char) : Lexer :=
  let s := s.finish.close
  { s with operators := s.operators ++ [String.ofList operator] }

/-- A redirection, with the descriptor that stands before it. -/
def redirect (operator : List Char) : Lexer :=
  if decimal s.raw then { s with
    raw := []
    literal := []
    target := some (String.ofList (s.raw ++ operator)) }
  else { s.finish with target := some (String.ofList operator) }

/-- The turn for one character: how many characters after it belong to it as well, and the state
that it leaves. A document of Bash ends the analysis. -/
def next (ch : Char) (cs : List Char) : Option (Nat × Lexer) :=
  if ch = '^' then some (0, s.unsure ch "CMD caret expansion requires explicit approval")
  else if ch = '"' then some (0, s.quote)
  else if !s.quoted && (ch = '(' || ch = ')') then
    some (0, s.unsure ch "CMD grouping/control syntax requires explicit approval")
  else if !s.quoted && (ch = '&' || ch = '|' || ch = '\r' || ch = '\n') then
    if (ch = '&' || ch = '|') && cs.head? = some ch then some (1, s.operator [ch, ch])
    else some (0, s.operator [ch])
  else if !s.quoted && (ch = '<' || ch = '>') then
    if cs.head? = some ch then
      if ch = '<' then none
      else if cs.tail.head? = some '&' then some (2, s.redirect [ch, ch, '&'])
      else some (1, s.redirect [ch, ch])
    else if cs.head? = some '&' then some (1, s.redirect [ch, '&'])
    else some (0, s.redirect [ch])
  else if !s.quoted && blank ch then some (0, s.finish)
  else some (0, s.push ch)

end Lexer

/-- The loop of `_cmd`. The number says how many characters have been read already. -/
def cmdLex : Nat → List Char → Lexer → Option Lexer
  | _, [], s => some s
  | taken + 1, _ :: cs, s => cmdLex taken cs s
  | 0, ch :: cs, s =>
    match s.next ch cs with
    | none => none
    | some (taken, s) => cmdLex taken cs s

def cmdStatus (lib : Library) (s : Lexer) : ShellStatus × String :=
  if s.target.isSome then (.invalid, "missing CMD redirection target")
  else
    let reason :=
      if s.commands.any fun row => (row.words.head?.bind (·.literal)).any fun literal =>
          ["for", "if", "goto", "setlocal", "endlocal"].contains
            (lib.lower (String.ofList (literal.toList.dropWhile (· = '@')))) then
        "CMD control flow requires explicit approval"
      else if s.commands.any fun row => row.words.any fun word =>
          "'".toList.isPrefixOf word.raw.toList then "CMD single quotes do not group arguments"
      else if s.quoted then "CMD unmatched quote requires explicit approval"
      else s.reason
    (if reason = "" then .parsed else .obscure, reason)

/-- `_cmd`. -/
def cmdAnalysis (lib : Library) (command commandSha256 : String) : ShellAnalysis :=
  match cmdLex 0 command.toList {} with
  | none => {
      commandSha256 := commandSha256
      status := .invalid
      parser := "cmd-literal/v1"
      reason := "Bash heredoc is not CMD syntax" }
  | some s =>
    let s := s.finish.close
    let status := cmdStatus lib s
    { commandSha256 := commandSha256
      status := status.1
      parser := "cmd-literal/v1"
      commands := s.commands
      operators := s.operators
      redirections := s.redirects
      expansions := s.expansions
      dynamic := s.commands.any fun row => dynamicName lib row.words
      reason := status.2 }

/-- `analyze_shell`. The parsers of PowerShell and of the POSIX shells are `others`. -/
def analyzeShell (lib : Library) (others : String → ShellSpec → String → ShellAnalysis)
    (command : String) (shell : ShellSpec) : ShellAnalysis :=
  let commandSha256 := lib.sha256 command
  let result : ShellAnalysis :=
    if command.toList.all blank || command.toList.contains '\x00' then {
      commandSha256 := commandSha256
      status := .invalid
      parser := shell.kind.name
      reason := "nonempty shell command without NUL required" }
    else if command.utf8ByteSize > 32768 then {
      commandSha256 := commandSha256
      status := .obscure
      parser := shell.kind.name
      reason := "shell analysis byte budget exceeded" }
    else if shell.kind = .cmd then cmdAnalysis lib command commandSha256
    else others command shell commandSha256
  { result with shellSha256 := shellIdentity lib shell, parser := parserIdentity shell }

end Policies

end Codey
