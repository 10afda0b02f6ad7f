import Codey.Events.PublicEventFeed

/-!
# The event stream

The server with one of its clients. A stream subscribes to the feed, replays the durable commits,
then the events of the bus up to the start of its subscription, and then sends what is offered.

A frame is written and received in one step; a frame that the client does not receive counts as
not written. A stream that raises makes no step, so that the connection can only be dropped. The
other streams show in the feed alone: they keep it encoding, and they encode what they replay.
-/

namespace Codey

namespace Events

/-! ### The client -/

/-- A frame that the client has received. The `process` is that of the server which wrote it. -/
structure Frame where
  process : Nat
  id : Nat × Nat
  encoded : EncodedEvent

/-- What a request says beside the last event id; without a database, `databaseId` is empty. -/
structure Query where
  lastEventId : Nat × Nat
  afterCommitSeq : Nat
  databaseId : String

inductive Phase where
  /-- Subscribed; nothing is written yet. -/
  | opened
  /-- The client has been told the commit cursor. -/
  | greeted
  /-- Replaying the commits up to a cutoff, with the rest of the page read last. -/
  | records (cutoff : Nat) (page : List CommitRecord)
  /-- About to ask the bus for a replay. -/
  | events
  /-- Replaying the rows of the bus. -/
  | rows (rest : List (Nat × Event))
  | live
  deriving DecidableEq

/-- The handler of one connection. The last two fields record history: whether the event cursor
belongs to an id that the running process wrote, and whether the last frame written was one of the
commit replay. -/
structure Stream where
  subscription : Subscription
  databaseId : String
  eventCursor : Nat
  commitCursor : Nat
  requested : Bool
  phase : Phase
  anchored : Bool
  ahead : Bool

/-- The client: the process and the sequence number at which it first connected, the commit cursor
that it was told first, and what it has received. -/
structure Client where
  since : Option (Nat × Nat)
  start : Option Nat
  received : List Frame
  stream : Option Stream

namespace Client

def lastId (client : Client) : Option (Nat × Nat) := client.received.getLast?.map (·.id)

/-- The commit cursor of the last id, or the one that the client started from. -/
def position (client : Client) : Nat := (client.lastId.map (·.2)).getD (client.start.getD 0)

def commits (client : Client) : List Nat :=
  client.received.filterMap fun f => if f.encoded.commitSeq = 0 then none else f.encoded.commitSeq

def mapSubscription (client : Client) (f : Subscription → Subscription) : Client :=
  { client with
    stream := client.stream.map fun stream =>
      { stream with subscription := f stream.subscription } }

end Client

/-! ### The system -/

structure Emission where
  process : Nat
  sequence : Nat
  event : Event

/-- The server and a client. `awaiting` holds the commits whose projection is not emitted yet, and
`company` tells whether other streams subscribe. `past` and `log` record what was emitted by the
earlier processes and by this one. -/
structure System where
  commits : List CommitRecord
  awaiting : List CommitRecord
  process : Nat
  bus : EventBus
  feed : Feed
  company : Bool
  past : List Emission
  log : List (Nat × Event)
  client : Client

variable (server : Server)

namespace System

def initial : System :=
  { commits := [], awaiting := [], process := 0, bus := .empty, feed := .empty, company := false,
    past := [], log := [], client := ⟨none, none, [], none⟩ }

def emissions (s : System) : List Emission :=
  s.past ++ s.log.map fun row => ⟨s.process, row.1, row.2⟩

def commitSequence (s : System) : Nat := (s.commits.getLast?.map (·.sequence)).getD 0

def commitsAfter (s : System) (sequence : Nat) : List CommitRecord :=
  (s.commits.filter fun r => decide (sequence < r.sequence)).take 512

/-- `EventBus.emit`, with `PublicEventFeed.publish` as its observer -/
def emit (s : System) (event : Event) : System :=
  let bus := s.bus.emit event
  let feed := { s.feed with sequence := bus.sequence }
  let s := { s with bus, feed, log := s.log ++ [(bus.sequence, event)] }
  if s.client.stream.isNone && !s.company then s
  else
    match feed.encode server (.of bus.sequence event) event with
    | .error .privateEvent => s
    | .error .failed => { s with client := s.client.mapSubscription .close }
    | .ok (body, feed) =>
      { s with
        feed, client := s.client.mapSubscription
          fun sub => sub.offer server ⟨bus.sequence, event.commitSeq, body⟩ }

def write (s : System) (stream : Stream) (id : Nat × Nat) (encoded : EncodedEvent) : System :=
  { s with
    client := { s.client with
      received := s.client.received ++ [⟨s.process, id, encoded⟩], stream := some stream } }

def setStream (s : System) (stream : Stream) : System :=
  { s with client := { s.client with stream := some stream } }

def request (client : Client) (query : Query) : Nat × Nat × Bool :=
  let cursor := client.lastId.getD query.lastEventId
  let commitCursor := max cursor.2 query.afterCommitSeq
  (cursor.1, commitCursor,
    decide (cursor.1 ≠ 0 ∨ commitCursor ≠ 0 ∨ query.databaseId ≠ ""))

def anchored (s : System) : Bool := s.client.received.getLast?.any (·.process = s.process)

/-- The start of `stream` -/
def connect (s : System) (query : Query) : System :=
  let (eventCursor, commitCursor, requested) := request s.client query
  { s with
    client := { s.client with
      since := s.client.since.or (some (s.process, s.feed.sequence))
      stream := some {
        subscription := s.feed.subscribe, databaseId := query.databaseId, eventCursor,
        commitCursor, requested, phase := .opened, anchored := s.anchored, ahead := false } } }

def resume (s : System) (stream : Stream) : Nat :=
  if stream.databaseId ≠ server.databaseId ∨ s.commitSequence < stream.commitCursor then 0
  else stream.commitCursor

/-- The next frame of the commit replay. -/
def writeRecord (s : System) (stream : Stream) (cutoff : Nat) (record : CommitRecord)
    (page : List CommitRecord) : Option System :=
  match s.feed.encode server (.commit record.sequence) (.durableCommit record) with
  | .error _ => none
  | .ok (body, feed) =>
    some (write { s with feed }
      { stream with
        commitCursor := record.sequence, phase := .records cutoff page, ahead := true }
      (stream.subscription.cutoff, record.sequence) ⟨0, record.sequence, body⟩)

/-- The next row of the bus replay. -/
def writeRow (s : System) (stream : Stream) (sequence : Nat) (event : Event)
    (rest : List (Nat × Event)) : Option System :=
  let next := { stream with phase := .rows rest }
  if event.record?.any fun r => decide (r.sequence ≤ stream.commitCursor) then
    some (s.setStream next)
  else
    match s.feed.encode server (.of sequence event) event with
    | .error .privateEvent => some (s.setStream next)
    | .error .failed => none
    | .ok (body, feed) =>
      some (write { s with feed } { next with ahead := false } (sequence, stream.commitCursor)
        ⟨sequence, event.commitSeq, body⟩)

/-- The next turn of the live loop; a closed subscription raises. -/
def writeItem (s : System) (stream : Stream) : Option System :=
  if stream.subscription.closed then none
  else
    match stream.subscription.items with
    | [] => some s
    | item :: items =>
      let subscription := { stream.subscription with
        items, bytes := stream.subscription.bytes - Feed.bodyLength server item.body }
      if item.commitSeq ≠ 0 ∧ item.commitSeq ≤ stream.commitCursor then
        some (s.setStream { stream with subscription })
      else
        let commitCursor := max stream.commitCursor item.commitSeq
        some (write s { stream with subscription, commitCursor, ahead := false }
          (item.sequence, commitCursor) item)

/-- One step of `stream`, with the frame that it writes, if any. -/
def advance (s : System) (stream : Stream) : Option System :=
  match stream.phase with
  | .opened =>
    let commitCursor := s.resume server stream
    let phase := if stream.requested then .greeted else .live
    some { s with
      client := { s.client with
        start := s.client.start.or (some commitCursor)
        stream := some { stream with commitCursor, phase } } }
  | .greeted => some (s.setStream { stream with phase := .records s.commitSequence [] })
  | .records cutoff [] =>
    if stream.commitCursor < cutoff then
      match s.commitsAfter stream.commitCursor with
      | [] => none
      | page => some (s.setStream { stream with phase := .records cutoff page })
    else some (s.setStream { stream with phase := .events })
  | .records cutoff (record :: page) =>
    if cutoff < record.sequence then some (s.setStream { stream with phase := .events })
    else s.writeRecord server stream cutoff record page
  | .events =>
    some (s.setStream { stream with
      phase := .rows (s.bus.replayEventsAfter stream.eventCursor stream.subscription.cutoff) })
  | .rows [] => some (s.setStream { stream with phase := .live })
  | .rows ((sequence, event) :: rest) => s.writeRow server stream sequence event rest
  | .live => s.writeItem server stream

end System

/-! ### Steps -/

inductive Action where
  /-- A durable commit, also one inside a commit listener. -/
  | commit (kind committedAt : String) (payload : Fields)
  /-- The projection of a commit is emitted, at once or after it was deferred. -/
  | publish (sequence : Nat)
  /-- A non-durable event is emitted. -/
  | emit (notice : Notice)
  /-- Other streams subscribe, or none does. -/
  | company (present : Bool)
  /-- Another stream encodes what it replays. -/
  | encodeElsewhere (sequence : Nat) (event : Event)
  | connect (query : Query)
  /-- The stream of the client makes a step. -/
  | advance
  /-- The connection is lost. -/
  | drop
  /-- The process ends, and another one serves the database. -/
  | restart

/-- What another stream of the feed may encode. -/
def System.replayable (s : System) (sequence : Nat) : Event → Bool
  | .durableCommit r => r ∈ s.commits
  | .notice n => (sequence, .notice n) ∈ s.log ∨ n.type = resyncType ∧ sequence ≤ s.feed.sequence

def step (s : System) : Action → Option System
  | .commit kind committedAt payload =>
    let record := ⟨s.commitSequence + 1, kind, committedAt, payload⟩
    some { s with commits := s.commits ++ [record], awaiting := s.awaiting ++ [record] }
  | .publish sequence =>
    (s.awaiting.find? (·.sequence = sequence)).map fun record =>
      System.emit server { s with awaiting := s.awaiting.filter (·.sequence ≠ sequence) }
        (.durableCommit record)
  | .emit notice => some (s.emit server (.notice notice))
  | .company present => some { s with company := present }
  | .encodeElsewhere sequence event =>
    if s.replayable sequence event then
      match s.feed.encode server (.of sequence event) event with
      | .error _ => some s
      | .ok (_, feed) => some { s with feed }
    else none
  | .connect query => if s.client.stream.isNone then some (s.connect query) else none
  | .advance => s.client.stream.bind fun stream => s.advance server stream
  | .drop =>
    if s.client.stream.isSome then some { s with client := { s.client with stream := none } }
    else none
  | .restart =>
    some { s with
      awaiting := [], process := s.process + 1, bus := .empty, feed := .empty, company := false,
      past := s.emissions, log := [], client := { s.client with stream := none } }

/-! ### What the client is owed -/

def Event.isNotice : Event → Bool
  | .durableCommit _ => false
  | .notice _ => true

def Frame.delivers (f : Frame) (e : Emission) : Bool :=
  f.process = e.process && f.encoded.sequence = e.sequence && f.encoded.commitSeq = 0 &&
    (project server e.event).toOption = some f.encoded.body

/-- The frame is a `resync_required` event that was written after the emitted event. -/
def Frame.covers (f : Frame) (e : Emission) : Bool :=
  isResync f.encoded.body &&
    (decide (e.process < f.process) || e.process = f.process && e.sequence ≤ f.encoded.sequence)

def Client.connectedBefore (client : Client) (e : Emission) : Bool :=
  client.since.any fun place =>
    decide (place.1 < e.process) || place.1 = e.process && place.2 < e.sequence

namespace System

def due (s : System) : List Emission :=
  s.emissions.filter fun e =>
    e.event.isNotice && (publicPayload server e.event).isSome && s.client.connectedBefore e

/-- The events that the client has neither received nor been told to reconcile. -/
def missing (s : System) : List Emission :=
  (s.due server).filter fun e =>
    !s.client.received.any fun f => f.delivers server e || f.covers e

def waits (s : System) (subscription : Subscription) (e : Emission) : Prop :=
  e.process = s.process ∧ ∃ item ∈ subscription.items, item.sequence = e.sequence

end System

/-- The stream has lost nothing silently. -/
structure LosesNothing (s : System) : Prop where
  /-- The commits received are those after the starting cursor, in order and each once. -/
  commits : ∃ count, s.client.commits = List.range' (s.client.start.getD 0 + 1) count
  bodies : ∀ f ∈ s.client.received, f.encoded.commitSeq ≠ 0 → ∃ r ∈ s.commits,
    r.sequence = f.encoded.commitSeq ∧ project server (.durableCommit r) = .ok f.encoded.body
  once : ∀ e ∈ s.due server, s.client.received.countP (·.delivers server e) ≤ 1 ∨
    s.client.received.any (·.covers e) = true
  /-- While the stream is live, what the client has not received is on its way. -/
  events : ∀ stream, s.client.stream = some stream → stream.phase = .live →
    stream.subscription.closed = false → ∀ e ∈ s.due server,
      s.client.received.countP (·.delivers server e) = 1 ∨
        s.client.received.any (·.covers e) = true ∨ s.waits stream.subscription e
  records : ∀ stream, s.client.stream = some stream → stream.phase = .live →
    stream.subscription.closed = false → ∀ r ∈ s.commits, s.client.start.getD 0 < r.sequence →
      r.sequence ∈ s.client.commits ∨ r ∈ s.awaiting ∨
        ∃ item ∈ stream.subscription.items, item.commitSeq = r.sequence

/-! ### Where the stream does lose -/

/-- The commits that a stream still sends by itself, without being offered them. -/
def Stream.coverage (stream : Stream) (commits : Nat) : Nat :=
  match stream.phase with
  | .opened => if stream.requested then commits else stream.commitCursor
  | .greeted => commits
  | .records cutoff _ => cutoff
  | .events | .rows _ | .live => stream.commitCursor

def Stream.nextRow (stream : Stream) : Option (Nat × Event) :=
  match stream.phase with
  | .rows (row :: _) => some row
  | _ => none

namespace System

/-- A commit is not offered to an open stream before an earlier one that the stream waits for. -/
def InOrder (s : System) (sequence : Nat) : Prop :=
  ∀ stream ∈ s.client.stream, stream.subscription.closed = false → ∀ r ∈ s.awaiting,
    r.sequence < sequence → r.sequence ≤ stream.coverage s.commitSequence

/-- A request that gets no replay comes when there is nothing to replay. -/
def AsksInTime (s : System) (query : Query) : Prop :=
  (request s.client query).2.2 = true ∨ s.missing server = [] ∧ s.awaiting = s.commits

/-- A returning client is told the cursor that it has reached. -/
def Resumes (s : System) (stream : Stream) : Prop :=
  s.client.start = none ∨ s.resume server stream = s.client.position

/-- The bus answers with a marker; or no event that the client misses is of an ended process, at or
before a cursor that the running process did not write, or, for a cursor of zero, out of the
buffer. -/
def ReplaysAll (s : System) (stream : Stream) : Prop :=
  (s.bus.resyncAfter stream.eventCursor stream.subscription.cutoff).isSome = true ∨
    ∀ e ∈ s.missing server, e.process = s.process ∧
      (e.sequence ≤ stream.subscription.cutoff →
        (stream.anchored = true ∨ stream.eventCursor < e.sequence) ∧
        (stream.eventCursor = 0 → (e.sequence, e.event) ∈ s.bus.replay))

def Unshadowed (s : System) (sequence : Nat) (event : Event) : Prop :=
  event.type = resyncType →
    ∀ body ∈ s.feed.cached (.event sequence), isResync body = true

/-- When the last frame was one of the commit replay, which carries the cutoff of the subscription
as its event cursor, the client misses no event up to the cutoff. -/
def Settled (s : System) (stream : Stream) : Prop :=
  stream.ahead = true → ∀ e ∈ s.missing server,
    e.process = s.process ∧ stream.subscription.cutoff < e.sequence

/-- The steps of a stream in which nothing is lost. -/
def TurnCareful (s : System) (stream : Stream) : Prop :=
  (stream.phase = .opened → s.Resumes server stream) ∧
    (stream.phase = .events → s.ReplaysAll server stream) ∧
      ∀ row ∈ stream.nextRow, s.Unshadowed row.1 row.2

instance (s : System) (sequence : Nat) : Decidable (s.InOrder sequence) := by
  delta InOrder; infer_instance

instance (s : System) (query : Query) : Decidable (s.AsksInTime server query) := by
  delta AsksInTime
  have : Decidable (s.missing server = []) := decidable_of_iff _ List.isEmpty_iff
  infer_instance

instance (s : System) (stream : Stream) : Decidable (s.TurnCareful server stream) := by
  delta TurnCareful Resumes ReplaysAll Unshadowed; infer_instance

instance (s : System) (stream : Stream) : Decidable (s.Settled server stream) := by
  delta Settled; infer_instance

end System

/-- The steps in which nothing is lost. -/
def Careful (s : System) : Action → Prop
  | .publish sequence => s.InOrder sequence
  | .connect query => s.AsksInTime server query
  | .advance => ∀ stream ∈ s.client.stream, s.TurnCareful server stream
  | .drop => ∀ stream ∈ s.client.stream, s.Settled server stream
  | _ => True

instance (s : System) : ∀ action, Decidable (Careful server s action)
  | .publish sequence => inferInstanceAs (Decidable (s.InOrder sequence))
  | .connect query => inferInstanceAs (Decidable (s.AsksInTime server query))
  | .advance =>
    inferInstanceAs (Decidable (∀ stream ∈ s.client.stream, s.TurnCareful server stream))
  | .drop => inferInstanceAs (Decidable (∀ stream ∈ s.client.stream, s.Settled server stream))
  | .commit _ _ _ | .emit _ | .company _ | .encodeElsewhere _ _ | .restart => .isTrue trivial

end Events

end Codey
