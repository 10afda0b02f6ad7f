import Codey.Events.Stream

/-!
# Turns of a stream

What one step of a stream can do, what an emission does to the open subscription, and the invariant
of what all streams share.
-/

namespace Codey

namespace Events

variable {server : Server} {s s' : System} {stream : Stream}

/-! ### Turns -/

/-- The step of a stream, one case for each thing that it can do. -/
inductive Turn (server : Server) (s : System) (stream : Stream) : System → Prop where
  | hello (hphase : stream.phase = .opened) :
      Turn server s stream { s with
        client := { s.client with
          start := s.client.start.or (some (s.resume server stream))
          stream := some { stream with
            commitCursor := s.resume server stream
            phase := if stream.requested then .greeted else .live } } }
  | bound (hphase : stream.phase = .greeted) :
      Turn server s stream (s.setStream { stream with phase := .records s.commitSequence [] })
  | page (cutoff : Nat) (hphase : stream.phase = .records cutoff [])
      (hcursor : stream.commitCursor < cutoff) :
      Turn server s stream
        (s.setStream { stream with phase := .records cutoff (s.commitsAfter stream.commitCursor) })
  | replayed (cutoff : Nat) (page : List CommitRecord) (hphase : stream.phase = .records cutoff page)
      (hend : page = [] ∧ cutoff ≤ stream.commitCursor ∨ ∃ r ∈ page.head?, cutoff < r.sequence) :
      Turn server s stream (s.setStream { stream with phase := .events })
  | record (cutoff : Nat) (r : CommitRecord) (page : List CommitRecord) (body : Fields) (feed : Feed)
      (hphase : stream.phase = .records cutoff (r :: page)) (hcutoff : r.sequence ≤ cutoff)
      (hencode : s.feed.encode server (.commit r.sequence) (.durableCommit r) = .ok (body, feed)) :
      Turn server s stream (System.write { s with feed }
        { stream with commitCursor := r.sequence, phase := .records cutoff page, ahead := true }
        (stream.subscription.cutoff, r.sequence) ⟨0, r.sequence, body⟩)
  | asked (hphase : stream.phase = .events) :
      Turn server s stream (s.setStream { stream with
        phase := .rows (s.bus.replayEventsAfter stream.eventCursor stream.subscription.cutoff) })
  | caughtUp (hphase : stream.phase = .rows []) :
      Turn server s stream (s.setStream { stream with phase := .live })
  | skipRow (sequence : Nat) (event : Event) (rest : List (Nat × Event))
      (hphase : stream.phase = .rows ((sequence, event) :: rest))
      (hskip : event.isNotice = false ∨ publicPayload server event = none) :
      Turn server s stream (s.setStream { stream with phase := .rows rest })
  | row (sequence : Nat) (event : Event) (rest : List (Nat × Event)) (body : Fields) (feed : Feed)
      (hphase : stream.phase = .rows ((sequence, event) :: rest))
      (hpast : ∀ r, event = .durableCommit r → stream.commitCursor < r.sequence)
      (hencode : s.feed.encode server (.of sequence event) event = .ok (body, feed)) :
      Turn server s stream (System.write { s with feed }
        { stream with phase := .rows rest, ahead := false } (sequence, stream.commitCursor)
        ⟨sequence, event.commitSeq, body⟩)
  | idle (hphase : stream.phase = .live) : Turn server s stream s
  | skipItem (item : EncodedEvent) (items : List EncodedEvent) (bytes : Nat)
      (hphase : stream.phase = .live) (hopen : stream.subscription.closed = false)
      (hitems : stream.subscription.items = item :: items)
      (hskip : item.commitSeq ≠ 0 ∧ item.commitSeq ≤ stream.commitCursor) :
      Turn server s stream (s.setStream { stream with
        subscription := { stream.subscription with items, bytes } })
  | item (item : EncodedEvent) (items : List EncodedEvent) (bytes : Nat)
      (hphase : stream.phase = .live) (hopen : stream.subscription.closed = false)
      (hitems : stream.subscription.items = item :: items)
      (hpast : item.commitSeq = 0 ∨ stream.commitCursor < item.commitSeq) :
      Turn server s stream (s.write { stream with
          subscription := { stream.subscription with items, bytes }
          commitCursor := max stream.commitCursor item.commitSeq, ahead := false }
        (item.sequence, max stream.commitCursor item.commitSeq) item)

lemma project_private {event : Event} (h : project server event = .error .privateEvent) :
    publicPayload server event = none := by
  simp only [project] at h
  split at h
  · assumption
  · split at h
    · cases h
    · split at h <;> cases h

lemma Turn.of_advance (h : s.advance server stream = some s') : Turn server s stream s' := by
  unfold System.advance at h
  split at h
  · rename_i hphase
    exact Option.some.inj h ▸ .hello hphase
  · rename_i hphase
    exact Option.some.inj h ▸ .bound hphase
  · rename_i cutoff hphase
    split at h
    · rename_i hcursor
      split at h
      · cases h
      · exact Option.some.inj h ▸ .page cutoff hphase hcursor
    · rename_i hcursor
      exact Option.some.inj h ▸ .replayed cutoff [] hphase (Or.inl ⟨rfl, Nat.le_of_not_lt hcursor⟩)
  · rename_i cutoff r page hphase
    split at h
    · rename_i hcutoff
      exact Option.some.inj h ▸ .replayed cutoff (r :: page) hphase (Or.inr ⟨r, rfl, hcutoff⟩)
    · rename_i hcutoff
      unfold System.writeRecord at h
      split at h
      · cases h
      · rename_i body feed hencode
        exact Option.some.inj h ▸
          .record cutoff r page body feed hphase (Nat.le_of_not_lt hcutoff) hencode
  · rename_i hphase
    exact Option.some.inj h ▸ .asked hphase
  · rename_i hphase
    exact Option.some.inj h ▸ .caughtUp hphase
  · rename_i sequence event rest hphase
    simp only [System.writeRow] at h
    split at h
    · rename_i hskip
      refine Option.some.inj h ▸ .skipRow sequence event rest hphase (Or.inl ?_)
      cases event with
      | durableCommit r => rfl
      | notice n => simp [Event.record?] at hskip
    · rename_i hnext
      split at h
      · rename_i hencode
        exact Option.some.inj h ▸ .skipRow sequence event rest hphase
          (Or.inr (project_private (Feed.encode_error hencode).2))
      · cases h
      · rename_i body feed hencode
        refine Option.some.inj h ▸ .row sequence event rest body feed hphase ?_ hencode
        rintro r rfl
        simpa [Event.record?] using hnext
  · rename_i hphase
    unfold System.writeItem at h
    split at h
    · cases h
    · rename_i hopen
      have hopen : stream.subscription.closed = false := by simpa using hopen
      split at h
      · exact Option.some.inj h ▸ .idle hphase
      · rename_i item items hitems
        split at h
        · rename_i hskip
          exact Option.some.inj h ▸ .skipItem item items _ hphase hopen hitems hskip
        · rename_i hnot
          refine Option.some.inj h ▸ .item item items _ hphase hopen hitems ?_
          by_cases hzero : item.commitSeq = 0
          · exact Or.inl hzero
          · exact Or.inr (Nat.lt_of_not_le fun hle => hnot ⟨hzero, hle⟩)

/-! ### What the streams share -/

/-- A cached body is one of its commit, or one of its event or of a marker at its place. -/
def System.CacheFits (s : System) (server : Server) : Key → Fields → Prop
  | .commit sequence, body =>
    ∃ r ∈ s.commits, r.sequence = sequence ∧ project server (.durableCommit r) = .ok body
  | .event sequence, body =>
    (∃ n, (sequence, .notice n) ∈ s.log ∧ project server (.notice n) = .ok body) ∨
      isResync body = true ∧ sequence ≤ s.bus.sequence

structure Shared (server : Server) (s : System) : Prop where
  bus : s.bus.Holds s.log
  feed : s.feed.sequence = s.bus.sequence
  numbered : s.commits.map (·.sequence) = List.range' 1 s.commits.length
  logged : ∀ k r, (k, .durableCommit r) ∈ s.log → r ∈ s.commits
  awaiting : s.awaiting.Sublist s.commits
  past : ∀ e ∈ s.past, e.process < s.process
  cache : s.feed.Sound (s.CacheFits server)

namespace Shared

lemma commitSequence_eq (h : Shared server s) : s.commitSequence = s.commits.length := by
  unfold System.commitSequence
  rw [← List.getLast?_map, h.numbered, List.getLast?_range']
  split
  · rename_i hzero
    exact hzero.symm
  · simp only [Option.getD_some]
    omega

lemma bounds (h : Shared server s) {r : CommitRecord} (hr : r ∈ s.commits) :
    1 ≤ r.sequence ∧ r.sequence ≤ s.commits.length := by
  have hmem := List.mem_map_of_mem (f := (·.sequence)) hr
  rw [h.numbered, List.mem_range'_1] at hmem
  omega

lemma unique (h : Shared server s) {r r' : CommitRecord} (hr : r ∈ s.commits) (hr' : r' ∈ s.commits)
    (hseq : r.sequence = r'.sequence) : r = r' := by
  have hnodup : (s.commits.map (·.sequence)).Nodup := h.numbered ▸ List.nodup_range'
  exact List.inj_on_of_nodup_map hnodup hr hr' hseq

lemma awaiting_sorted (h : Shared server s) : (s.awaiting.map (·.sequence)).Pairwise (· < ·) := by
  refine List.Pairwise.sublist (h.awaiting.map _) ?_
  rw [h.numbered]
  exact List.pairwise_lt_range'

/-- A page of the commits after a cursor holds the next ones. -/
lemma commitsAfter (h : Shared server s) (cursor : Nat) :
    (s.commitsAfter cursor).map (·.sequence) =
      List.range' (cursor + 1) (s.commitsAfter cursor).length ∧
    ∀ r ∈ s.commitsAfter cursor, r ∈ s.commits := by
  have hrange : (s.commits.filter fun r => decide (cursor < r.sequence)).map (·.sequence) =
      List.range' (cursor + 1) (s.commits.length - cursor) := by
    have hall : (List.range' (0 + 1) (s.commits.length - 0)).filter
        (fun c => decide (cursor < c)) = List.range' (cursor + 1) (s.commits.length - cursor) :=
      filter_lt_range' (Nat.zero_le _)
    rw [Nat.zero_add, Nat.sub_zero, ← h.numbered, List.filter_map] at hall
    exact hall
  constructor
  · rw [← List.take_append_drop 512 (s.commits.filter _), List.map_append] at hrange
    obtain ⟨count, -, hpage, -⟩ := List.range'_eq_append_iff.mp hrange.symm
    have hlen := congrArg List.length hpage
    rw [List.length_map, List.length_range'] at hlen
    rw [System.commitsAfter, hpage, hlen]
  · intro r hr
    exact List.mem_of_mem_filter (List.mem_of_mem_take hr)

/-- An encoding keeps the cache, and gives the body of its event or of a marker at its place. -/
lemma encode (h : Shared server s) (sequence : Nat) {event : Event} {body : Fields} {feed : Feed}
    (hcan : s.replayable sequence event = true)
    (hencode : s.feed.encode server (.of sequence event) event = .ok (body, feed)) :
    Shared server { s with feed } ∧ s.CacheFits server (.of sequence event) body := by
  have hfits : ∀ found, project server event = .ok found →
      s.CacheFits server (.of sequence event) found := by
    intro found hfound
    cases event with
    | durableCommit r => exact ⟨r, by simpa [System.replayable] using hcan, rfl, hfound⟩
    | notice n =>
      have hcan : (sequence, Event.notice n) ∈ s.log ∨
          n.type = resyncType ∧ sequence ≤ s.feed.sequence := by
        simpa [System.replayable] using hcan
      rcases hcan with hlog | ⟨htype, hle⟩
      · exact Or.inl ⟨n, hlog, hfound⟩
      · exact Or.inr ⟨isResync_of_project (.notice n) htype hfound, h.feed ▸ hle⟩
  obtain ⟨hbody, hsound, hseq⟩ := Feed.sound_encode h.cache hfits hencode
  exact ⟨{ h with feed := hseq.trans h.feed, cache := hsound }, hbody⟩

lemma replayable_commit {r : CommitRecord} (hr : r ∈ s.commits) :
    s.replayable 0 (.durableCommit r) = true := by
  simpa [System.replayable] using hr

lemma project_commit (h : Shared server s) {r : CommitRecord} {body : Fields} (hr : r ∈ s.commits)
    (hfits : s.CacheFits server (.commit r.sequence) body) :
    project server (.durableCommit r) = .ok body := by
  obtain ⟨r', hr', hseq, hbody⟩ := hfits
  exact h.unique hr' hr hseq ▸ hbody

/-- The body under the key of a logged event is that of the event, or of a marker. -/
lemma project_notice (h : Shared server s) {k : Nat} {n : Notice} {body : Fields}
    (hn : (k, Event.notice n) ∈ s.log) (hfits : s.CacheFits server (.event k) body) :
    project server (.notice n) = .ok body ∨ isResync body = true := by
  rcases hfits with ⟨n', hn', hbody⟩ | ⟨hresync, -⟩
  · exact Or.inl (h.bus.numbered.unique hn' hn ▸ hbody)
  · exact Or.inr hresync

end Shared

/-! ### Emissions -/

def itemOf (server : Server) (row : Nat × Event) : Option EncodedEvent :=
  (project server row.2).toOption.map fun body => ⟨row.1, row.2.commitSeq, body⟩

/-- What an emission does to a subscription. -/
inductive Offered (server : Server) (row : Nat × Event) (sub sub' : Subscription) : Prop where
  | closed (hclosed : sub'.closed = true)
  | quiet (hprivate : publicPayload server row.2 = none) (hsame : sub' = sub)
  | queued (item : EncodedEvent) (hitem : itemOf server row = some item)
      (hopen : sub.closed = false) (hopen' : sub'.closed = false)
      (hitems : sub'.items = sub.items ++ [item])

/-- What an emission does to the client: its open subscription may be offered the event. -/
inductive EmittedTo (server : Server) (row : Nat × Event) (client client' : Client) : Prop where
  | absent (hstream : client.stream = none) (hsame : client' = client)
  | offered (stream : Stream) (sub' : Subscription) (hstream : client.stream = some stream)
      (hclient : client' = { client with stream := some { stream with subscription := sub' } })
      (hcutoff : sub'.cutoff = stream.subscription.cutoff)
      (hoffered : Offered server row stream.subscription sub')

lemma Subscription.offer_cutoff (sub : Subscription) (item : EncodedEvent) :
    (sub.offer server item).cutoff = sub.cutoff := by
  simp only [Subscription.offer]
  split
  · rfl
  · split <;> rfl

lemma Offered.offer {row : Nat × Event} {item : EncodedEvent} (hitem : itemOf server row = some item)
    (sub : Subscription) : Offered server row sub (sub.offer server item) := by
  simp only [Subscription.offer]
  split
  · rename_i hclosed
    exact .closed hclosed
  · rename_i hopen
    split
    · exact .closed rfl
    · exact .queued item hitem (by simpa using hopen) (by simpa using hopen) rfl

lemma EmittedTo.map {row : Nat × Event} (client : Client) {f : Subscription → Subscription}
    (hcutoff : ∀ sub, (f sub).cutoff = sub.cutoff)
    (hoffered : ∀ sub, Offered server row sub (f sub)) :
    EmittedTo server row client (client.mapSubscription f) := by
  cases hstream : client.stream with
  | none =>
    exact .absent hstream (by rw [Client.mapSubscription, hstream, Option.map_none, ← hstream])
  | some stream =>
    exact .offered stream (f stream.subscription) hstream (by simp [Client.mapSubscription, hstream])
      (hcutoff _) (hoffered _)

structure Emitted (server : Server) (event : Event) (s s' : System) : Prop where
  shared : Shared server s'
  sequence : s'.bus.sequence = s.bus.sequence + 1
  log : s'.log = s.log ++ [(s.bus.sequence + 1, event)]
  commits : s'.commits = s.commits
  awaiting : s'.awaiting = s.awaiting
  process : s'.process = s.process
  past : s'.past = s.past
  client : EmittedTo server (s.bus.sequence + 1, event) s.client s'.client

lemma System.CacheFits.mono {key : Key} {body : Fields} (hlog : s.log ⊆ s'.log)
    (hcommits : s.commits ⊆ s'.commits) (hseq : s.bus.sequence ≤ s'.bus.sequence)
    (h : s.CacheFits server key body) : s'.CacheFits server key body := by
  cases key with
  | commit sequence =>
    obtain ⟨r, hr, hsequence, hbody⟩ := h
    exact ⟨r, hcommits hr, hsequence, hbody⟩
  | event sequence =>
    rcases h with ⟨n, hn, hbody⟩ | ⟨hresync, hle⟩
    · exact Or.inl ⟨n, hlog hn, hbody⟩
    · exact Or.inr ⟨hresync, hle.trans hseq⟩

lemma Shared.emitted (h : Shared server s) (event : Event)
    (hevent : ∀ r, event = .durableCommit r → r ∈ s.commits) :
    Emitted server event s (s.emit server event) := by
  set k := s.bus.sequence + 1 with hk
  set next : System := { s with
    bus := s.bus.emit event, feed := { s.feed with sequence := k },
    log := s.log ++ [(k, event)] } with hnext
  have hshared : Shared server next := {
    bus := h.bus.emit event
    feed := rfl
    numbered := h.numbered
    logged := by
      intro j r hr
      rcases List.mem_append.mp hr with hold | hnew
      · exact h.logged j r hold
      · exact hevent r (Prod.ext_iff.mp (List.mem_singleton.mp hnew)).2.symm
    awaiting := h.awaiting
    past := h.past
    cache := h.cache.mono fun key body => System.CacheFits.mono
      (List.subset_append_left _ _) (List.Subset.refl _) (Nat.le_succ _) }
  have hprojected : ∀ body feed, next.feed.encode server (.of k event) event = .ok (body, feed) →
      project server event = .ok body := by
    intro body feed hencode
    rcases Feed.encode_ok hencode with hcached | ⟨-, hproject⟩
    · have hfits : s.CacheFits server (.of k event) body := Feed.Sound.cached h.cache hcached
      cases event with
      | durableCommit r => exact h.project_commit (hevent r rfl) hfits
      | notice n =>
        rcases hfits with ⟨n', hn', -⟩ | ⟨-, hle⟩
        · have hbound := (h.bus.numbered.bounds hn').2
          rw [← h.bus.sequence] at hbound
          omega
        · omega
    · exact hproject
  unfold System.emit
  dsimp only
  split
  · rename_i hnone
    have hstream : s.client.stream = none := by
      simp only [Bool.and_eq_true, Option.isNone_iff_eq_none] at hnone
      exact hnone.1
    exact ⟨hshared, rfl, rfl, rfl, rfl, rfl, rfl, .absent hstream rfl⟩
  · split
    · rename_i hencode
      refine ⟨hshared, rfl, rfl, rfl, rfl, rfl, rfl, ?_⟩
      have hprivate := project_private (Feed.encode_error hencode).2
      cases hstream : s.client.stream with
      | none => exact .absent hstream rfl
      | some stream =>
        refine .offered stream stream.subscription hstream ?_ rfl (.quiet hprivate rfl)
        rw [← hstream]
    · exact ⟨{ hshared with }, rfl, rfl, rfl, rfl, rfl, rfl,
        .map s.client (fun _ => rfl) fun _ => .closed rfl⟩
    · rename_i body feed hencode
      have hcan : next.replayable k event = true := by
        cases event with
        | durableCommit r => simpa [System.replayable, hnext] using hevent r rfl
        | notice n => simp [System.replayable, hnext]
      have hitem : itemOf server (k, event) = some ⟨k, event.commitSeq, body⟩ := by
        simp [itemOf, hprojected body feed hencode, Except.toOption]
      exact ⟨{ (hshared.encode k hcan hencode).1 with }, rfl, rfl, rfl, rfl, rfl, rfl,
        .map s.client (fun sub => sub.offer_cutoff _) fun sub => .offer hitem sub⟩

end Events

end Codey
