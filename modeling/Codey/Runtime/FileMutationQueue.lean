import Codey.Lib.PosixPath
import Codey.Lib.Text

/-!
# File mutation queue

The groups in which the tool calls of a turn may run: calls on different files share a group, and
whatever may have side effects is a group of its own.
-/

namespace Codey

namespace FileMutationQueue

open PosixPath (Text normpath dropUps lstripDots)

/-- An argument, as `bool` and `str` read it. -/
structure Arg where
  truthy : Bool
  text : Text
  deriving DecidableEq

structure ToolCall where
  name : String
  args : List (String × Arg)
  deriving DecidableEq

/-- `str(args.get("path") or default)` -/
def ToolCall.path (call : ToolCall) (default : Text) : Text :=
  match call.args.lookup "path" with
  | some arg => if arg.truthy then arg.text else default
  | none => default

def normalizeRel (path : Text) : Text :=
  let given := if path = [] then ['.'] else path
  let text := strip (given.map fun ch => if ch = '\\' then '/' else ch)
  if text = [] then ['.']
  else
    let normalized := dropUps (normpath text)
    if normalized = [] ∨ normalized = ['.'] then ['.']
    else if lstripDots normalized = [] then ['.'] else lstripDots normalized

def canonicalPath (project : Text) (call : ToolCall) : Text :=
  let rel := normalizeRel (call.path ['.'])
  let scope := if project = [] then ['.'] else normalizeRel project
  if scope ≠ ['.'] then scope ++ '/' :: rel else rel

inductive Scope where
  | write
  | read
  | serial
  | other
  deriving DecidableEq

def scopeForCall (project : Text) (call : ToolCall) : Scope × Text :=
  let name := if call.name = "" then "unknown" else call.name
  if name = "run" ∨ name = "shell" then (.serial, name.toList)
  else if name = "edit" then (.write, canonicalPath project call)
  else if name = "read" then (.read, canonicalPath project call)
  else if name = "ls" then
    if normalizeRel (call.path []) = ['.'] then (.serial, name.toList)
    else (.read, canonicalPath project call)
  else if name = "search" ∨ name = "references" then
    if normalizeRel (call.path []) = ['.'] then (.serial, name.toList)
    else (.read, canonicalPath project call)
  else (.serial, name.toList)

/-- A group with the files that its calls write and read. -/
structure Group where
  members : List Nat
  writes : List Text := []
  reads : List Text := []
  barrier : Bool := false
  deriving DecidableEq

/-- A call joins the last group, which comes first here, or opens one. -/
def place (groups : List Group) (index : Nat) (scope : Scope × Text) : List Group :=
  match scope, groups with
  | (.write, key), [] => [{ members := [index], writes := [key] }]
  | (.write, key), last :: rest =>
    if !last.barrier && !last.writes.contains key && !last.reads.contains key then
      { last with members := last.members ++ [index], writes := key :: last.writes } :: rest
    else { members := [index], writes := [key] } :: last :: rest
  | (.read, key), [] => [{ members := [index], reads := [key] }]
  | (.read, key), last :: rest =>
    if last.barrier || last.writes.contains key then
      { members := [index], reads := [key] } :: last :: rest
    else { last with members := last.members ++ [index], reads := key :: last.reads } :: rest
  | (.serial, _), groups => { members := [index], barrier := true } :: groups
  | (.other, _), [] => [{ members := [index] }]
  | (.other, _), last :: rest =>
    if !last.barrier then { last with members := last.members ++ [index] } :: rest
    else { members := [index] } :: last :: rest

def plan (calls : List ToolCall) (project : Text) : List (List Nat) :=
  let groups := calls.zipIdx.foldl (fun groups item =>
    place groups item.2 (scopeForCall project item.1)) []
  groups.reverse.map (·.members)

end FileMutationQueue

end Codey
