import Codey.Events.CommitOrder

/-!
# The delivery of the events

The events that the client misses are the ones that its stream is still to send, or they come after
the last id that the running process wrote.
-/

namespace Codey

namespace Events

variable {server : Server} {s s' : System} {stream : Stream} {e : Emission}

/-! ### Missing events -/

lemma System.mem_missing :
    e ∈ s.missing server ↔ e ∈ s.due server ∧
      ∀ f ∈ s.client.received, f.delivers server e = false ∧ f.covers e = false := by
  simp [System.missing]

lemma System.mem_due :
    e ∈ s.due server ↔ e ∈ s.emissions ∧ e.event.isNotice = true ∧
      (publicPayload server e.event).isSome = true ∧ s.client.connectedBefore e = true := by
  simp [System.due, and_assoc]

lemma Shared.emission (hshared : Shared server s) (he : e ∈ s.emissions) :
    e.process < s.process ∨ e.process = s.process ∧ (e.sequence, e.event) ∈ s.log := by
  rcases List.mem_append.mp he with hpast | hlog
  · exact Or.inl (hshared.past e hpast)
  · obtain ⟨row, hrow, rfl⟩ := List.mem_map.mp hlog
    exact Or.inr ⟨rfl, hrow⟩

lemma Shared.missing (hshared : Shared server s) (he : e ∈ s.missing server) :
    e.event.isNotice = true ∧ (publicPayload server e.event).isSome = true ∧
      (e.process < s.process ∨ e.process = s.process ∧ (e.sequence, e.event) ∈ s.log) := by
  obtain ⟨hemission, hnotice, hpublic, -⟩ := System.mem_due.mp (System.mem_missing.mp he).1
  exact ⟨hnotice, hpublic, hshared.emission hemission⟩

lemma System.missing_write {id : Nat × Nat} {encoded : EncodedEvent}
    (he : e ∈ (s.write stream id encoded).missing server) :
    e ∈ s.missing server ∧ Frame.delivers server ⟨s.process, id, encoded⟩ e = false ∧
      Frame.covers ⟨s.process, id, encoded⟩ e = false := by
  obtain ⟨hdue, hframes⟩ := System.mem_missing.mp he
  refine ⟨System.mem_missing.mpr ⟨hdue, fun f hf => hframes f (List.mem_append_left _ hf)⟩, ?_⟩
  exact hframes _ (List.mem_append_right _ (List.mem_singleton.mpr rfl))

/-- At the first connection nothing is missing. -/
lemma Shared.missing_connect (hshared : Shared server s) {query : Query}
    (he : e ∈ (s.connect query).missing server) : e ∈ s.missing server := by
  obtain ⟨hdue, hframes⟩ := System.mem_missing.mp he
  obtain ⟨hemission, hnotice, hpublic, hsince⟩ := System.mem_due.mp hdue
  refine System.mem_missing.mpr ⟨System.mem_due.mpr ⟨hemission, hnotice, hpublic, ?_⟩, hframes⟩
  cases hfirst : s.client.since with
  | some place =>
    simpa [Client.connectedBefore, System.connect, hfirst] using hsince
  | none =>
    simp only [Client.connectedBefore, System.connect, hfirst, Option.none_or, Option.any_some,
      Bool.or_eq_true, Bool.and_eq_true, decide_eq_true_eq] at hsince
    rcases hshared.emission hemission with hlt | ⟨heq, hlog⟩
    · omega
    · have hbound := (hshared.bus.numbered.bounds hlog).2
      rw [← hshared.bus.sequence, ← hshared.feed] at hbound
      omega

lemma Emitted.missing {event : Event} {awaiting : List CommitRecord}
    (h : Emitted server event { s with awaiting } s') (he : e ∈ s'.missing server) :
    e ∈ s.missing server ∨
      e.process = s.process ∧ e.sequence = s.bus.sequence + 1 ∧ e.event = event := by
  have hkept : s'.client.since = s.client.since ∧ s'.client.received = s.client.received := by
    cases h.client with
    | absent _ hsame => exact hsame ▸ ⟨rfl, rfl⟩
    | offered stream sub' _ hclient => exact hclient ▸ ⟨rfl, rfl⟩
  obtain ⟨hdue, hframes⟩ := System.mem_missing.mp he
  obtain ⟨hemission, hnotice, hpublic, hsince⟩ := System.mem_due.mp hdue
  rw [System.emissions, h.past, h.log, h.process, List.map_append, ← List.append_assoc] at hemission
  rcases List.mem_append.mp hemission with hold | hnew
  · refine Or.inl (System.mem_missing.mpr
      ⟨System.mem_due.mpr ⟨hold, hnotice, hpublic, ?_⟩, hkept.2 ▸ hframes⟩)
    rw [Client.connectedBefore, ← hkept.1]
    exact hsince
  · obtain rfl := List.mem_singleton.mp hnew
    exact Or.inr ⟨rfl, rfl, rfl⟩

/-! ### Frames -/

/-- A frame with an event of the bus that is not a marker. -/
def Frame.plain (f : Frame) : Bool := f.encoded.commitSeq = 0 && !isResync f.encoded.body

def Frame.at (f : Frame) (process sequence : Nat) : Bool :=
  f.plain && f.process = process && f.encoded.sequence = sequence

def System.PlainUpTo (s : System) (bound : Nat) : Prop :=
  ∀ f ∈ s.client.received, f.plain = true → f.process = s.process → f.encoded.sequence ≤ bound

lemma System.PlainUpTo.mono {bound bound' : Nat} (h : s.PlainUpTo bound) (hle : bound ≤ bound') :
    s.PlainUpTo bound' := fun f hf hplain hprocess => (h f hf hplain hprocess).trans hle

lemma System.PlainUpTo.write {bound : Nat} (h : s.PlainUpTo bound) {id : Nat × Nat}
    {encoded : EncodedEvent}
    (hnew : Frame.plain ⟨s.process, id, encoded⟩ = true → encoded.sequence ≤ bound) :
    (s.write stream id encoded).PlainUpTo bound := by
  intro f hf hplain hprocess
  rcases List.mem_append.mp hf with hold | hlast
  · exact h f hold hplain hprocess
  · obtain rfl := List.mem_singleton.mp hlast
    exact hnew hplain

/-! ### The invariant -/

/-- The stream has not asked the bus for a replay. -/
def Phase.early : Phase → Bool
  | .opened | .greeted | .records _ _ | .events => true
  | .rows _ | .live => false

/-- The rows that a replay has left are those of the missing events up to the cutoff, among others,
and come after what was received. -/
structure RowsLeft (server : Server) (s : System) (cutoff : Nat) (rest : List (Nat × Event)) :
    Prop where
  missing : ∀ e ∈ s.missing server, e.process = s.process ∧
    (e.sequence ≤ cutoff → (e.sequence, e.event) ∈ rest)
  logged : rest.Sublist s.log
  cutoff_le : ∀ row ∈ rest, row.1 ≤ cutoff
  later : ∀ row ∈ rest, ∀ f ∈ s.client.received, f.plain = true → f.process = s.process →
    f.encoded.sequence < row.1

/-- An open subscription holds the items of the last events of the log, after a part of the log
which is behind the stream. -/
structure ItemsLeft (server : Server) (s : System) (stream : Stream)
    (before after : List (Nat × Event)) : Prop where
  log : s.log = before ++ after
  items : stream.subscription.items = after.filterMap (itemOf server)
  encodes : ∀ row ∈ after, (publicPayload server row.2).isSome = true →
    (itemOf server row).isSome = true
  cutoff : stream.phase ≠ .live → before.length = stream.subscription.cutoff
  live : stream.phase = .live →
    s.PlainUpTo before.length ∧ ∀ e ∈ s.missing server, (e.sequence, e.event) ∈ after

structure StreamEvents (server : Server) (s : System) (stream : Stream) : Prop where
  cutoff : stream.subscription.cutoff ≤ s.bus.sequence
  ahead : stream.ahead = true → ∃ f ∈ s.client.received.getLast?,
    f.process = s.process ∧ f.id.1 = stream.subscription.cutoff
  anchored : stream.phase.early = true → stream.anchored = true →
    stream.eventCursor ≤ stream.subscription.cutoff ∧
      ∀ e ∈ s.missing server, e.process = s.process → stream.eventCursor < e.sequence
  early : stream.phase.early = true → s.PlainUpTo stream.eventCursor
  unasked : stream.phase = .opened → stream.requested = false → ∀ e ∈ s.missing server,
    e.process = s.process ∧ stream.subscription.cutoff < e.sequence
  known : stream.phase ≠ .live → s.PlainUpTo stream.subscription.cutoff
  rows : ∀ rest, stream.phase = .rows rest →
    (∃ marker, rest = [(stream.subscription.cutoff, .notice marker)] ∧ marker.type = resyncType) ∨
      RowsLeft server s stream.subscription.cutoff rest
  live : stream.phase = .live → ∀ e ∈ s.missing server,
    e.process = s.process ∧ stream.subscription.cutoff < e.sequence
  items : stream.subscription.closed = false → ∃ before after,
    ItemsLeft server s stream before after

structure EventInv (server : Server) (s : System) : Prop where
  process_le : ∀ f ∈ s.client.received, f.process ≤ s.process
  plain_le : ∀ f ∈ s.client.received, f.plain = true → f.process = s.process →
    ∃ l ∈ s.client.received.getLast?, l.process = s.process ∧ f.encoded.sequence ≤ l.id.1
  last_le : ∀ l ∈ s.client.received.getLast?, l.process = s.process → l.id.1 ≤ s.bus.sequence
  once : ∀ process sequence, s.client.received.countP (·.at process sequence) ≤ 1
  /-- What is missing comes after the last id, unless that is one of the commit replay. -/
  behind : (∀ stream ∈ s.client.stream, stream.ahead = false) →
    ∀ l ∈ s.client.received.getLast?, l.process = s.process →
      ∀ e ∈ s.missing server, e.process = s.process → l.id.1 < e.sequence
  stream : ∀ stream ∈ s.client.stream, StreamEvents server s stream

/-! ### Steps outside the stream -/

lemma EventInv.initial : EventInv server .initial where
  process_le := by simp [System.initial]
  plain_le := by simp [System.initial]
  last_le := by simp [System.initial]
  once := by simp [System.initial]
  behind := by simp [System.initial]
  stream := by simp [System.initial]

lemma EventInv.elsewhere (h : EventInv server s) {feed : Feed} {company : Bool}
    {commits awaiting : List CommitRecord} :
    EventInv server { s with feed, company, commits, awaiting } :=
  { h with
    stream := fun stream hstream =>
      let hs := h.stream stream hstream
      { hs with
        rows := fun rest hphase => (hs.rows rest hphase).imp id fun hrest => { hrest with }
        items := fun hopen =>
          let ⟨before, after, hitems⟩ := hs.items hopen
          ⟨before, after, { hitems with }⟩ } }

/-- A connection is lost where the client misses no event behind its last id. -/
lemma EventInv.drop (h : EventInv server s)
    (hsettled : ∀ stream ∈ s.client.stream, s.Settled server stream) :
    EventInv server { s with client := { s.client with stream := none } } :=
  { h with
    behind := by
      intro _ l hl hprocess e he heq
      cases hstream : s.client.stream with
      | none => exact h.behind (by simp [hstream]) l hl hprocess e he heq
      | some stream =>
        cases hahead : stream.ahead with
        | false => exact h.behind (by simp [hstream, hahead]) l hl hprocess e he heq
        | true =>
          obtain ⟨f, hf, -, hid⟩ := (h.stream stream hstream).ahead hahead
          have hlast : f = l := Option.mem_unique hf hl
          have hlater := (hsettled stream hstream hahead e he).2
          rw [← hlast, hid]
          exact hlater
    stream := by simp }

/-- A new process has written nothing. -/
lemma EventInv.restart (h : EventInv server s) (hprocess : s'.process = s.process + 1)
    (hclient : s'.client = { s.client with stream := none }) : EventInv server s' := by
  have hold : ∀ f ∈ s'.client.received, f.process ≠ s'.process := by
    intro f hf
    have hle := h.process_le f (by rw [hclient] at hf; exact hf)
    omega
  refine {
    process_le := ?_, plain_le := ?_, last_le := ?_, once := ?_, behind := ?_, stream := ?_ }
  · intro f hf
    have hle := h.process_le f (by rw [hclient] at hf; exact hf)
    omega
  · exact fun f hf _ heq => absurd heq (hold f hf)
  · exact fun l hl heq => absurd heq (hold l (List.mem_of_getLast? hl))
  · rw [hclient]
    exact h.once
  · exact fun _ l hl heq => absurd heq (hold l (List.mem_of_getLast? hl))
  · simp [hclient]

end Events

end Codey
