import Mathlib.Logic.Function.Basic
import Codey.Lib.Check
import Codey.Lib.Utf8Text

/-!
# Snapshots of live execution output

The rows that hold what a running execution has written so far, with each channel cut to a head and
a tail whenever it grows beyond the bound of the row.
-/

namespace Codey

namespace ExecutionOutputs

open Utf8 (encode decode decodeIgnore)

abbrev Text := List Char

inductive Channel where
  | stdout
  | stderr
  deriving DecidableEq

def Channel.ofName? : String → Option Channel
  | "stdout" => some .stdout
  | "stderr" => some .stderr
  | _ => none

def Channel.name : Channel → String
  | .stdout => "stdout"
  | .stderr => "stderr"

@[simp] lemma Channel.ofName?_name (c : Channel) : Channel.ofName? c.name = some c := by
  cases c <;> rfl

inductive ExecutionState where
  | running
  | settled
  | unknown
  deriving DecidableEq

inductive Failure where
  | value (message : String)
  | key (executionId : String)
  deriving DecidableEq

/-- The last bytes, `encoded[-n:]`: all of them for `0`. -/
def lastBytes (bs : List UInt8) (n : Nat) : List UInt8 :=
  if n = 0 then bs else bs.drop (bs.length - n)

def headBytes (limit : Nat) : Nat := max 1 (limit / 2)

/-- `_bounded_text`: the text that is stored, and the bytes so far. -/
def boundedText (existing : Text) (total : Nat) (added : Text) (limit : Nat) : Text × Nat :=
  let total := total + (encode added).length
  let text := existing ++ added
  if (encode text).length ≤ limit then (text, total)
  else
    (decodeIgnore ((encode text).take (headBytes limit)) ++
      decodeIgnore (lastBytes (encode text) (limit - headBytes limit)), total)

structure StreamPayload where
  text : Text
  head : Text
  tail : Text
  totalBytes : Nat
  omittedBytes : Nat
  truncated : Bool
  deriving DecidableEq

/-- `_stream_payload`, which does not look at the limit. -/
def streamPayload (text : Text) (total _limit : Nat) : StreamPayload :=
  let stored := (encode text).length
  { text, head := text.take (max 1 (text.length / 2)), tail := text.drop (max 1 (text.length / 2)),
    totalBytes := total, omittedBytes := total - stored, truncated := decide (stored < total) }

structure Stored where
  text : Text := []
  bytes : Nat := 0
  deriving DecidableEq

def Stored.append (stored : Stored) (limit : Nat) (added : Text) : Stored :=
  let bounded := boundedText stored.text stored.bytes added limit
  ⟨bounded.1, bounded.2⟩

/-- A row of `execution_outputs`. -/
structure Row where
  sessionId : String
  runId : String
  state : ExecutionState
  revision : Nat
  stdout : Stored
  stderr : Stored
  exitCode : Option Int
  maxBytes : Nat
  bounded : 1 ≤ maxBytes
  deriving DecidableEq

namespace Row

def stored (r : Row) : Channel → Stored
  | .stdout => r.stdout
  | .stderr => r.stderr

/-- The change of `_append_text_locked`. -/
def append (r : Row) (text : Text) : Channel → Row
  | .stdout => { r with stdout := r.stdout.append r.maxBytes text, revision := r.revision + 1 }
  | .stderr => { r with stderr := r.stderr.append r.maxBytes text, revision := r.revision + 1 }

def settle (r : Row) (exitCode : Option Int) : Row :=
  { r with state := .settled, revision := r.revision + 1, exitCode }

def markUnknown (r : Row) : Row := { r with state := .unknown, revision := r.revision + 1 }

@[simp] lemma maxBytes_append (r : Row) (text : Text) (c : Channel) :
    (r.append text c).maxBytes = r.maxBytes := by
  cases c <;> rfl

@[simp] lemma stored_append_self (r : Row) (text : Text) (c : Channel) :
    (r.append text c).stored c = (r.stored c).append r.maxBytes text := by
  cases c <;> rfl

lemma stored_append_of_ne (r : Row) (text : Text) {c c' : Channel} (h : c ≠ c') :
    (r.append text c).stored c' = r.stored c' := by
  cases c <;> cases c' <;> first | rfl | exact absurd rfl h

@[simp] lemma stored_settle (r : Row) (exitCode : Option Int) (c : Channel) :
    (r.settle exitCode).stored c = r.stored c := by
  cases c <;> rfl

@[simp] lemma stored_markUnknown (r : Row) (c : Channel) : r.markUnknown.stored c = r.stored c := by
  cases c <;> rfl

end Row

structure Snapshot where
  executionId : String
  sessionId : String
  runId : String
  executionState : ExecutionState
  revision : Nat
  stdout : StreamPayload
  stderr : StreamPayload
  exitCode : Option Int
  resultRevision : Option Nat
  deriving DecidableEq

def Snapshot.stream (snapshot : Snapshot) : Channel → StreamPayload
  | .stdout => snapshot.stdout
  | .stderr => snapshot.stderr

/-- The database, with the bound that the store was opened with. -/
structure Store where
  maxBytes : Int
  rows : String → Option Row

namespace Store

variable (s : Store)

def snapshot (executionId : String) : Except Failure Snapshot :=
  match s.rows executionId with
  | none => .error (.key executionId)
  | some r => .ok
    { executionId, sessionId := r.sessionId, runId := r.runId, executionState := r.state,
      revision := r.revision,
      stdout := streamPayload r.stdout.text r.stdout.bytes r.maxBytes,
      stderr := streamPayload r.stderr.text r.stderr.bytes r.maxBytes, exitCode := r.exitCode,
      resultRevision := if r.state = .settled then some r.revision else none }

/-- `UPDATE ... WHERE execution_id=?`: without a row there is nothing to change. -/
def update (executionId : String) (f : Row → Row) : Store :=
  { s with rows := Function.update s.rows executionId ((s.rows executionId).map f) }

/-- `max(1, int(max_bytes or self.max_bytes))` -/
def bound (maxBytes : Option Int) : Nat :=
  match maxBytes with
  | some (.ofNat 0) | none => max 1 (max 1 s.maxBytes).toNat
  | some n => max 1 n.toNat

def create (executionId sessionId runId : String) (maxBytes : Option Int) : Except Failure Store :=
  if executionId = "" ∨ sessionId = "" ∨ runId = "" then
    .error (.value "execution identity required")
  else if (s.rows executionId).isSome then .ok s
  else .ok { s with rows := Function.update s.rows executionId (some
    { sessionId, runId, state := .running, revision := 0, stdout := {}, stderr := {},
      exitCode := none, maxBytes := s.bound maxBytes,
      bounded := by unfold bound; split <;> exact le_max_left _ _ }) }

def appendText (executionId channel : String) (text : Text) : Except Failure (Store × Snapshot) :=
  match Channel.ofName? channel with
  | none => .error (.value "invalid output channel")
  | some c =>
    match s.rows executionId with
    | none => .error (.key executionId)
    | some _ =>
      let next := s.update executionId (·.append text c)
      (next.snapshot executionId).map fun snapshot => (next, snapshot)

/-- `append`: each chunk of bytes is read on its own, with a replacement for each error. -/
def append (executionId channel : String) (chunk : List UInt8) :
    Except Failure (Store × Snapshot) :=
  s.appendText executionId channel (decode chunk)

def settled (executionId : String) (exitCode : Option Int) : Except Failure (Store × Snapshot) :=
  let next := s.update executionId (·.settle exitCode)
  (next.snapshot executionId).map fun snapshot => (next, snapshot)

def unavailable (executionId : String) : Store := s.update executionId (·.markUnknown)

end Store

/-! ### Runs -/

inductive Op where
  | create (executionId sessionId runId : String) (maxBytes : Option Int)
  | append (executionId channel : String) (chunk : List UInt8)
  | appendText (executionId channel : String) (text : Text)
  | settled (executionId : String) (exitCode : Option Int)
  | unavailable (executionId : String)

/-- The store after a call; a call that raises leaves it as it was. -/
def perform (s : Store) : Op → Store
  | .create executionId sessionId runId maxBytes =>
    ((s.create executionId sessionId runId maxBytes).toOption).getD s
  | .append executionId channel chunk =>
    ((s.append executionId channel chunk).toOption.map Prod.fst).getD s
  | .appendText executionId channel text =>
    ((s.appendText executionId channel text).toOption.map Prod.fst).getD s
  | .settled executionId exitCode =>
    ((s.settled executionId exitCode).toOption.map Prod.fst).getD s
  | .unavailable executionId => s.unavailable executionId

/-- The text that a call appends to a channel of an execution. -/
def Op.added (executionId : String) (c : Channel) : Op → Option Text
  | .append id channel chunk =>
    if id = executionId ∧ Channel.ofName? channel = some c then some (decode chunk) else none
  | .appendText id channel text =>
    if id = executionId ∧ Channel.ofName? channel = some c then some text else none
  | _ => none

def appended (executionId : String) (c : Channel) (ops : List Op) : Text :=
  (ops.filterMap (Op.added executionId c)).flatten

end ExecutionOutputs

end Codey
