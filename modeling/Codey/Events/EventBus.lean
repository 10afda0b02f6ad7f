import Codey.Lib.Json
import Codey.Lib.Numbered

/-!
# The event bus

The bus numbers the events of one process and keeps the last of them for replay.
-/

namespace Codey

namespace Events

/-- A row of the table `commits`. -/
structure CommitRecord where
  sequence : Nat
  kind : String
  committedAt : String
  payload : Fields
  deriving DecidableEq

/-- An event that is not the projection of a commit. It carries no `commit_seq`. -/
structure Notice where
  type : String
  fields : Fields
  plain : type ≠ "durable_commit"
  deriving DecidableEq

inductive Event where
  | durableCommit (record : CommitRecord)
  | notice (notice : Notice)
  deriving DecidableEq

namespace Event

def type : Event → String
  | .durableCommit _ => "durable_commit"
  | .notice n => n.type

/-- The members of the event; of a commit, `CommitRecord.to_payload`. -/
def payload : Event → Fields
  | .durableCommit r => r.payload.merge
    [("type", .str "durable_commit"), ("commit_seq", .int r.sequence), ("kind", .str r.kind),
      ("committed_at", .str r.committedAt), ("schema_version", .int 1)]
  | .notice n => n.fields.merge [("type", .str n.type)]

/-- `int(event.get("commit_seq") or 0)` -/
def commitSeq : Event → Nat
  | .durableCommit r => r.sequence
  | .notice _ => 0

def record? : Event → Option CommitRecord
  | .durableCommit r => some r
  | .notice _ => none

@[simp] lemma type_notice (n : Notice) : (notice n).type = n.type := rfl

end Event

def resyncType : String := "resync_required"

/-- A `resync_required` marker. -/
def resyncRequired (fields : Fields) : Notice := ⟨resyncType, fields, by decide⟩

def cursorAhead (cutoff : Nat) : Notice :=
  resyncRequired [("reason", .str "sse_cursor_ahead"), ("cursor", .int cutoff)]

def windowExpired (dropped cutoff : Nat) : Notice :=
  resyncRequired [("reason", .str "sse_replay_window_expired"), ("dropped", .int dropped),
    ("cursor", .int cutoff)]

def sseReplayLimit : Nat := 512

structure EventBus where
  sequence : Nat
  replay : List (Nat × Event)

namespace EventBus

def empty : EventBus := ⟨0, []⟩

def emit (bus : EventBus) (event : Event) : EventBus where
  sequence := bus.sequence + 1
  replay := keepLast sseReplayLimit (bus.replay ++ [(bus.sequence + 1, event)])

/-- The marker that a replay answers with instead of rows. -/
def resyncAfter (bus : EventBus) (start maxEventId : Nat) : Option Notice :=
  let cutoff := min bus.sequence maxEventId
  if cutoff < start then some (cursorAhead cutoff)
  else
    match bus.replay with
    | [] => none
    | (first, _) :: _ =>
      if 0 < start ∧ start < first - 1 then some (windowExpired (first - start - 1) cutoff)
      else none

def replayEventsAfter (bus : EventBus) (start maxEventId : Nat) : List (Nat × Event) :=
  let cutoff := min bus.sequence maxEventId
  match bus.resyncAfter start maxEventId with
  | some marker => [(cutoff, .notice marker)]
  | none => bus.replay.filter fun row => start < row.1 ∧ row.1 ≤ cutoff

structure Holds (bus : EventBus) (log : List (Nat × Event)) : Prop where
  numbered : Numbered log
  sequence : bus.sequence = log.length
  replay : bus.replay = keepLast sseReplayLimit log

variable {bus : EventBus} {log : List (Nat × Event)} {start maxEventId k : Nat} {event : Event}

lemma Holds.empty : Holds .empty [] := ⟨.nil, rfl, rfl⟩

lemma Holds.emit (h : bus.Holds log) (event : Event) :
    (bus.emit event).Holds (log ++ [((bus.emit event).sequence, event)]) := by
  have hseq : (bus.emit event).sequence = log.length + 1 := congrArg (· + 1) h.sequence
  rw [hseq]
  refine ⟨h.numbered.snoc event, by simp [hseq], ?_⟩
  rw [EventBus.emit, h.replay, h.sequence, keepLast_snoc]

/-- A marker is of the type `resync_required`. -/
lemma type_of_resyncAfter {marker : Notice} (h : bus.resyncAfter start maxEventId = some marker) :
    marker.type = resyncType := by
  simp only [resyncAfter] at h
  split at h
  · rw [← Option.some.inj h]
    rfl
  · split at h
    · cases h
    · split at h
      · rw [← Option.some.inj h]
        rfl
      · cases h

/-- Without a marker, no event after a cursor past zero has left the buffer. -/
lemma Holds.mem_replay (h : bus.Holds log) (hnone : bus.resyncAfter start maxEventId = none)
    (hstart : 0 < start) (hk : (k, event) ∈ log) (hlt : start < k) : (k, event) ∈ bus.replay := by
  cases hreplay : bus.replay with
  | nil =>
    rw [h.replay, keepLast_eq_nil_iff (by decide)] at hreplay
    rw [hreplay] at hk
    cases hk
  | cons first rest =>
    have hkeep : keepLast sseReplayLimit log = first :: rest := h.replay ▸ hreplay
    have hfirst : first.1 ≤ k := by
      simp only [resyncAfter, hreplay] at hnone
      split at hnone
      · cases hnone
      · split at hnone
        · cases hnone
        · rename_i _ hnot
          by_contra hgt
          exact hnot ⟨hstart, by omega⟩
    have hmem := h.numbered.mem_keepLast hkeep hk hfirst
    rwa [hkeep] at hmem

lemma Holds.rows (h : bus.Holds log) (hnone : bus.resyncAfter start maxEventId = none) :
    (bus.replayEventsAfter start maxEventId).Sublist log ∧
      ∀ row, row ∈ bus.replayEventsAfter start maxEventId ↔
        row ∈ bus.replay ∧ start < row.1 ∧ row.1 ≤ min bus.sequence maxEventId := by
  simp only [replayEventsAfter, hnone]
  refine ⟨?_, fun row => by simp⟩
  exact List.filter_sublist.trans (h.replay ▸ keepLast_sublist _ _)

end EventBus

end Events

end Codey
