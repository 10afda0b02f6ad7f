import Codey.Events.Turns

/-!
# The order of the commits

The client receives the commits after its starting cursor one after the other, and what it has not
received is in the queue of its stream or waits to be emitted, in order.
-/

namespace Codey

namespace Events

variable {server : Server} {s s' : System} {stream : Stream}

/-! ### Frames -/

@[simp] lemma Client.commits_concat (client : Client) (f : Frame) (stream : Option Stream) :
    Client.commits { client with received := client.received ++ [f], stream } =
      client.commits ++ if f.encoded.commitSeq = 0 then [] else [f.encoded.commitSeq] := by
  rw [Client.commits, List.filterMap_append, Client.commits]
  congr 1
  by_cases h : f.encoded.commitSeq = 0 <;> simp [h]

@[simp] lemma Client.position_concat (client : Client) (f : Frame) (stream : Option Stream) :
    Client.position { client with received := client.received ++ [f], stream } = f.id.2 := by
  simp [Client.position, Client.lastId]

lemma System.position_write (s : System) (stream : Stream) (id : Nat × Nat)
    (encoded : EncodedEvent) : (s.write stream id encoded).client.position = id.2 :=
  Client.position_concat s.client ⟨s.process, id, encoded⟩ (some stream)

/-! ### The invariant -/

/-- The commits that a subscription holds and those that are still to be emitted. -/
def System.pending (s : System) (subscription : Subscription) : List Nat :=
  subscription.items.map (·.commitSeq) ++ s.awaiting.map (·.sequence)

def System.CommitBody (s : System) (server : Server) (encoded : EncodedEvent) : Prop :=
  encoded.commitSeq ≠ 0 → ∃ r ∈ s.commits,
    r.sequence = encoded.commitSeq ∧ project server (.durableCommit r) = .ok encoded.body

structure StreamCommits (server : Server) (s : System) (stream : Stream) : Prop where
  cutoff : stream.subscription.cutoff ≤ s.bus.sequence
  opened : stream.phase = .opened → stream.requested = false → stream.commitCursor = 0
  replaying : stream.phase ≠ .opened → stream.phase ≠ .live → stream.requested = true
  cursor : stream.phase ≠ .opened →
    s.client.start.isSome = true ∧ stream.commitCursor = s.client.position
  records : ∀ cutoff page, stream.phase = .records cutoff page →
    stream.commitCursor ≤ cutoff ∧ cutoff ≤ s.commits.length ∧
      page.map (·.sequence) = List.range' (stream.commitCursor + 1) page.length ∧
      ∀ r ∈ page, r ∈ s.commits
  replayed : stream.requested = true → ∀ k r, (k, .durableCommit r) ∈ s.log →
    k ≤ stream.subscription.cutoff → r.sequence ≤ stream.coverage s.commits.length
  rows : ∀ rest, stream.phase = .rows rest → ∀ k r, (k, Event.durableCommit r) ∈ rest →
    r.sequence ≤ stream.commitCursor
  queued : stream.subscription.closed = false →
    Queued (s.pending stream.subscription) (stream.coverage s.commits.length) s.commits.length
  items : stream.subscription.closed = false → ∀ item ∈ stream.subscription.items,
    s.CommitBody server item

structure CommitInv (server : Server) (s : System) : Prop where
  received : ∃ count, s.client.commits = List.range' (s.client.start.getD 0 + 1) count ∧
    s.client.position = s.client.start.getD 0 + count
  position_le : s.client.position ≤ s.commits.length
  bodies : ∀ f ∈ s.client.received, s.CommitBody server f.encoded
  fresh : s.client.start = none → s.client.received = []
  stream : ∀ stream ∈ s.client.stream, StreamCommits server s stream

lemma Stream.coverage_mono (stream : Stream) (n : Nat) :
    stream.coverage n ≤ stream.coverage (n + 1) := by
  unfold Stream.coverage
  split
  · split <;> omega
  all_goals omega

lemma CommitInv.coverage_le (h : CommitInv server s) (hstream : stream ∈ s.client.stream) :
    stream.coverage s.commits.length ≤ s.commits.length := by
  have hs := h.stream stream hstream
  unfold Stream.coverage
  split
  · rename_i hphase
    by_cases hrequested : stream.requested = true
    · rw [if_pos hrequested]
    · rw [if_neg hrequested, hs.opened hphase (by simpa using hrequested)]
      exact Nat.zero_le _
  · exact Nat.le_refl _
  · rename_i cutoff page hphase
    exact (hs.records cutoff page hphase).2.1
  all_goals
    rename_i hphase
    rw [(hs.cursor (by simp [hphase])).2]
    exact h.position_le

/-! ### Steps outside the stream -/

lemma System.CommitBody.mono {encoded : EncodedEvent} (h : s.CommitBody server encoded)
    (hcommits : s.commits ⊆ s'.commits) : s'.CommitBody server encoded := fun hne =>
  let ⟨r, hr, hbody⟩ := h hne
  ⟨r, hcommits hr, hbody⟩

lemma CommitInv.initial : CommitInv server .initial where
  received := ⟨0, rfl, rfl⟩
  position_le := Nat.le_refl _
  bodies := by simp [System.initial]
  fresh := fun _ => rfl
  stream := by simp [System.initial]

lemma CommitInv.without_stream (h : CommitInv server s) (hcommits : s'.commits = s.commits)
    (hclient : s'.client = { s.client with stream := none }) : CommitInv server s' where
  received := hclient ▸ h.received
  position_le := by rw [hcommits, hclient]; exact h.position_le
  bodies := by
    rw [hclient]
    exact fun f hf => (h.bodies f hf).mono (hcommits ▸ List.Subset.refl _)
  fresh := hclient ▸ h.fresh
  stream := by simp [hclient]

lemma CommitInv.commit (h : CommitInv server s) {r : CommitRecord}
    (hr : r.sequence = s.commits.length + 1) :
    CommitInv server { s with commits := s.commits ++ [r], awaiting := s.awaiting ++ [r] } where
  received := h.received
  position_le := by
    simpa using Nat.le_succ_of_le h.position_le
  bodies := fun f hf => (h.bodies f hf).mono (List.subset_append_left _ _)
  fresh := h.fresh
  stream := by
    intro stream hstream
    have hs := h.stream stream hstream
    have hmono := stream.coverage_mono s.commits.length
    refine { hs with
      records := ?records, replayed := ?replayed, queued := ?queued, items := ?items }
    case records =>
      intro cutoff page hphase
      obtain ⟨hcursor, hcutoff, hpage, hmem⟩ := hs.records cutoff page hphase
      exact ⟨hcursor, by simpa using Nat.le_succ_of_le hcutoff, hpage,
        fun r hr => List.mem_append_left _ (hmem r hr)⟩
    case replayed =>
      intro hrequested k r hlog hk
      have hle := hs.replayed hrequested k r hlog hk
      simpa using hle.trans hmono
    case queued =>
      intro hopen
      have hpush := ((hs.queued hopen).push (h.coverage_le hstream)).raise hmono
      simpa [System.pending, hr, List.append_assoc] using hpush
    case items =>
      exact fun hopen item hitem => (hs.items hopen item hitem).mono (List.subset_append_left _ _)

section
variable {event : Event} {awaiting : List CommitRecord} {sub' : Subscription} {sequence : Nat}
  (hs : StreamCommits server s stream) (hshared : Shared server s)
  (hawaiting : event.isNotice = true ∧ awaiting = s.awaiting ∨
    ∃ r ∈ s.awaiting, event = .durableCommit r ∧ s.InOrder r.sequence ∧
      awaiting = s.awaiting.filter (·.sequence ≠ r.sequence))
  (hoffered : Offered server (sequence, event) stream.subscription sub')
  (hopened : sub'.closed = false)
include hs hshared hawaiting hoffered hopened

lemma StreamCommits.offered_queued (hstream : s.client.stream = some stream) :
    Queued (sub'.items.map (·.commitSeq) ++ awaiting.map (·.sequence))
      (stream.coverage s.commits.length) s.commits.length := by
  cases hoffered with
  | closed hclosed => rw [hclosed] at hopened; cases hopened
  | quiet hprivate hsame =>
    rcases hawaiting with ⟨-, rfl⟩ | ⟨r, -, rfl, -⟩
    · rw [hsame] at hopened ⊢
      exact hs.queued hopened
    · have hpublic : project server (.durableCommit r) ≠ .error .privateEvent :=
        project_public (Or.inl rfl)
      exact absurd (by rw [project, hprivate]) hpublic
  | queued item hitem hopen _ hitems =>
    obtain ⟨body, -, rfl⟩ := Option.map_eq_some_iff.mp hitem
    rw [hitems, List.map_append, List.map_singleton]
    have hqueued := hs.queued hopen
    rcases hawaiting with ⟨hnotice, rfl⟩ | ⟨r, hr, rfl, horder, rfl⟩
    · cases event with
      | durableCommit r => cases hnotice
      | notice n => exact hqueued.insert (Nat.zero_le _)
    · have hmove := hqueued.move hshared.awaiting_sorted (List.mem_map_of_mem hr) (by
        intro c hc hlt
        obtain ⟨r', hr', rfl⟩ := List.mem_map.mp hc
        have hle := horder stream hstream hopen r' hr' hlt
        rwa [hshared.commitSequence_eq] at hle)
      rw [List.filter_map] at hmove
      exact hmove

lemma StreamCommits.offered_items : ∀ item ∈ sub'.items, s.CommitBody server item := by
  intro item hitem
  cases hoffered with
  | closed hclosed => rw [hclosed] at hopened; cases hopened
  | quiet hprivate hsame =>
    rw [hsame] at hopened hitem
    exact hs.items hopened item hitem
  | queued new hnew hopen _ hitems =>
    rw [hitems] at hitem
    rcases List.mem_append.mp hitem with hold | hlast
    · exact hs.items hopen item hold
    · obtain ⟨body, hbody, rfl⟩ := Option.map_eq_some_iff.mp hnew
      rw [List.mem_singleton.mp hlast]
      intro hne
      rcases hawaiting with ⟨hnotice, -⟩ | ⟨r, hr, rfl, -⟩
      · cases event with
        | durableCommit r => cases hnotice
        | notice n => exact absurd rfl hne
      · refine ⟨r, hshared.awaiting.subset hr, rfl, ?_⟩
        cases hproject : project server (.durableCommit r) with
        | error e => simp [hproject, Except.toOption] at hbody
        | ok found =>
          simp only [hproject, Except.toOption, Option.some.injEq] at hbody
          rw [hbody]

end

/-- An emission keeps the order, when a commit is emitted after the earlier ones. -/
lemma CommitInv.emitted (hshared : Shared server s) (h : CommitInv server s) {event : Event}
    {awaiting : List CommitRecord}
    (hawaiting : event.isNotice = true ∧ awaiting = s.awaiting ∨
      ∃ r ∈ s.awaiting, event = .durableCommit r ∧ s.InOrder r.sequence ∧
        awaiting = s.awaiting.filter (·.sequence ≠ r.sequence))
    (hemitted : Emitted server event { s with awaiting } s') : CommitInv server s' := by
  have hcommits : s'.commits = s.commits := hemitted.commits
  cases hemitted.client with
  | absent hstream hsame =>
    refine h.without_stream hcommits (hsame.trans ?_)
    change s.client.stream = none at hstream
    change s.client = _
    rw [← hstream]
  | offered stream sub' hstream hclient hcutoff hoffered =>
    have hs := h.stream stream hstream
    have hposition : s'.client.position = s.client.position := by rw [hclient]; rfl
    refine {
      received := ?_, position_le := ?_, bodies := ?_, fresh := ?_, stream := ?_ }
    · rw [hclient]
      exact h.received
    · rw [hcommits, hposition]
      exact h.position_le
    · rw [hclient]
      exact fun f hf => (h.bodies f hf).mono (hcommits ▸ List.Subset.refl _)
    · rw [hclient]
      exact h.fresh
    · intro stream' hstream'
      rw [hclient] at hstream'
      obtain rfl := Option.some.inj hstream'
      have hnew : ∀ k r, (k, Event.durableCommit r) ∈ s'.log → k ≤ sub'.cutoff →
          (k, Event.durableCommit r) ∈ s.log := by
        intro k r hlog hk
        rw [hemitted.log] at hlog
        refine (List.mem_append.mp hlog).resolve_right fun hmem => ?_
        have hk' : k = s.bus.sequence + 1 := (Prod.ext_iff.mp (List.mem_singleton.mp hmem)).1
        have := hs.cutoff
        omega
      refine {
        cutoff := ?_, opened := hs.opened, replaying := hs.replaying, cursor := ?_, records := ?_,
        replayed := ?_, rows := hs.rows, queued := ?_, items := ?_ }
      · rw [hcutoff, hemitted.sequence]
        exact Nat.le_succ_of_le hs.cutoff
      · intro hphase
        rw [hposition, hclient]
        exact hs.cursor hphase
      · rw [hcommits]
        exact hs.records
      · intro hrequested k r hlog hk
        rw [hcommits]
        exact hs.replayed hrequested k r (hnew k r hlog hk) (hcutoff ▸ hk)
      · intro hopen'
        have hpending : s'.pending sub' =
            sub'.items.map (·.commitSeq) ++ awaiting.map (·.sequence) := by
          rw [System.pending, hemitted.awaiting]
        rw [hcommits]
        change Queued (s'.pending sub') (stream.coverage s.commits.length) _
        rw [hpending]
        exact hs.offered_queued hshared hawaiting hoffered hopen' hstream
      · intro hopen' item hitem
        exact (hs.offered_items hshared hawaiting hoffered hopen' item hitem).mono
          (hcommits ▸ List.Subset.refl _)

lemma CommitInv.elsewhere (h : CommitInv server s) {feed : Feed} {company : Bool} :
    CommitInv server { s with feed, company } :=
  { h with stream := fun stream hstream => { h.stream stream hstream with } }

/-! ### Connections -/

lemma CommitInv.connect (hshared : Shared server s) (h : CommitInv server s) {query : Query}
    (hasks : s.AsksInTime server query) : CommitInv server (s.connect query) where
  received := h.received
  position_le := h.position_le
  bodies := h.bodies
  fresh := h.fresh
  stream := by
    intro stream hstream
    obtain rfl := Option.some.inj hstream
    refine {
      cutoff := ?_, opened := ?_, replaying := ?_, cursor := ?_, records := ?_, replayed := ?_,
      rows := ?_, queued := ?_, items := ?_ }
    · exact Nat.le_of_eq hshared.feed
    · intro _ hrequested
      simp only [decide_eq_false_iff_not, not_or, not_not] at hrequested
      exact hrequested.2.1
    · exact fun hphase => absurd rfl hphase
    · exact fun hphase => absurd rfl hphase
    · intro cutoff page hphase
      cases hphase
    · intro hrequested k r hlog _
      rw [Stream.coverage, if_pos hrequested]
      exact (hshared.bounds (hshared.logged k r hlog)).2
    · intro rest hphase
      cases hphase
    · intro _
      have hpending : (s.connect query).pending s.feed.subscribe = s.awaiting.map (·.sequence) := rfl
      change Queued ((s.connect query).pending s.feed.subscribe)
        (if (System.request s.client query).2.2 = true then s.commits.length
          else (System.request s.client query).2.1) s.commits.length
      rw [hpending]
      by_cases hrequested : (System.request s.client query).2.2 = true
      · rw [if_pos hrequested]
        refine .of_forall_le fun c hc => ?_
        obtain ⟨r, hr, rfl⟩ := List.mem_map.mp hc
        exact (hshared.bounds (hshared.awaiting.subset hr)).2
      · have hawaiting := (hasks.resolve_left hrequested).2
        have hcursor : (System.request s.client query).2.1 = 0 := by
          simp only [System.request, decide_eq_true_eq, not_or, not_not] at hrequested
          exact hrequested.2.1
        rw [if_neg hrequested, hcursor, hawaiting]
        exact .of_range' hshared.numbered
    · intro _ item hitem
      cases hitem

/-! ### Turns -/

lemma CommitInv.setStream (h : CommitInv server s) {stream' : Stream}
    (hs : StreamCommits server (s.setStream stream') stream') :
    CommitInv server (s.setStream stream') :=
  { h with stream := fun _ hstream => Option.some.inj hstream ▸ hs }

/-- A frame with the next commit, or without a commit, keeps the order. -/
lemma CommitInv.write (h : CommitInv server s) {stream' : Stream} {id : Nat × Nat}
    {encoded : EncodedEvent} (hstart : s.client.start.isSome = true)
    (hid : encoded.commitSeq = 0 ∧ id.2 = s.client.position ∨
      encoded.commitSeq = s.client.position + 1 ∧ id.2 = s.client.position + 1 ∧
        s.client.position < s.commits.length)
    (hbody : s.CommitBody server encoded)
    (hs : StreamCommits server (s.write stream' id encoded) stream') :
    CommitInv server (s.write stream' id encoded) where
  received := by
    obtain ⟨count, hcommits, hposition⟩ := h.received
    rw [System.write, Client.commits_concat, Client.position_concat, hcommits]
    rcases hid with ⟨hzero, hid⟩ | ⟨hnext, hid, -⟩
    · exact ⟨count, by simp [hzero], hid.trans hposition⟩
    · refine ⟨count + 1, ?_, ?_⟩
      · rw [if_neg (by simp [hnext]), hnext, hposition, List.range'_concat]
        simp only [Nat.one_mul, List.append_cancel_left_eq, List.cons.injEq, and_true]
        omega
      · rw [hid, hposition]
        rfl
  position_le := by
    rw [System.write, Client.position_concat]
    have hle := h.position_le
    simp only
    omega
  bodies := by
    intro f hf
    rcases List.mem_append.mp hf with hold | hnew
    · exact h.bodies f hold
    · rw [List.mem_singleton.mp hnew]
      exact hbody
  fresh := fun hnone => by
    change s.client.start = none at hnone
    rw [hnone] at hstart
    cases hstart
  stream := fun _ hstream => Option.some.inj hstream ▸ hs

lemma System.resume_le (hshared : Shared server s) (stream : Stream) :
    s.resume server stream ≤ s.commits.length := by
  unfold System.resume
  split
  · exact Nat.zero_le _
  · rename_i hnot
    rw [not_or, Nat.not_lt, hshared.commitSequence_eq] at hnot
    exact hnot.2

lemma System.resume_eq_zero (hzero : stream.commitCursor = 0) : s.resume server stream = 0 := by
  unfold System.resume
  split
  · rfl
  · exact hzero

/-- A stream past its start may enter another phase. -/
lemma StreamCommits.enter (hs : StreamCommits server s stream) (hstarted : stream.phase ≠ .opened)
    {phase : Phase} (hphase : phase ≠ .opened)
    (hreplaying : phase ≠ .live → stream.requested = true)
    (hcoverage : Stream.coverage { stream with phase } s.commits.length =
      stream.coverage s.commits.length)
    (hrecords : ∀ cutoff page, phase = .records cutoff page →
      stream.commitCursor ≤ cutoff ∧ cutoff ≤ s.commits.length ∧
        page.map (·.sequence) = List.range' (stream.commitCursor + 1) page.length ∧
        ∀ r ∈ page, r ∈ s.commits)
    (hrows : ∀ rest, phase = .rows rest → ∀ k r, (k, Event.durableCommit r) ∈ rest →
      r.sequence ≤ stream.commitCursor) :
    StreamCommits server (s.setStream { stream with phase }) { stream with phase } where
  cutoff := hs.cutoff
  opened := fun h => absurd h hphase
  replaying := fun _ => hreplaying
  cursor := fun _ => hs.cursor hstarted
  records := hrecords
  replayed := fun hrequested k r hlog hk => by
    change r.sequence ≤ Stream.coverage { stream with phase } s.commits.length
    rw [hcoverage]
    exact hs.replayed hrequested k r hlog hk
  rows := hrows
  queued := fun hopen => by
    change Queued (s.pending stream.subscription)
      (Stream.coverage { stream with phase } s.commits.length) s.commits.length
    rw [hcoverage]
    exact hs.queued hopen
  items := hs.items

/-- The answer to a request leaves the client at the cursor that it is told. -/
lemma position_hello (h : CommitInv server s) (hresumes : s.Resumes server stream)
    {stream' : Option Stream} :
    Client.position { s.client with
      start := s.client.start.or (some (s.resume server stream)), stream := stream' } =
      s.resume server stream := by
  cases hstart : s.client.start with
  | none => simp [Client.position, Client.lastId, h.fresh hstart]
  | some start =>
    have hresume := hresumes.resolve_left (by simp [hstart])
    rw [hresume]
    simp [Client.position, Client.lastId, hstart]

lemma CommitInv.hello (hshared : Shared server s) (h : CommitInv server s)
    (hs : StreamCommits server s stream) (hresumes : s.Resumes server stream)
    (hphase : stream.phase = .opened) :
    CommitInv server { s with
      client := { s.client with
        start := s.client.start.or (some (s.resume server stream))
        stream := some { stream with
          commitCursor := s.resume server stream
          phase := if stream.requested then .greeted else .live } } } := by
  have hposition : Client.position { s.client with
      start := s.client.start.or (some (s.resume server stream))
      stream := some { stream with
        commitCursor := s.resume server stream
        phase := if stream.requested then .greeted else .live } } = s.resume server stream :=
    position_hello h hresumes
  have hcoverage : Stream.coverage { stream with
      commitCursor := s.resume server stream
      phase := if stream.requested then .greeted else .live } s.commits.length =
      stream.coverage s.commits.length := by
    by_cases hrequested : stream.requested = true
    · simp [Stream.coverage, hphase, hrequested]
    · simp [Stream.coverage, hphase, hrequested,
        System.resume_eq_zero (hs.opened hphase (by simpa using hrequested)),
        hs.opened hphase (by simpa using hrequested)]
  refine {
    received := ?_, position_le := ?_, bodies := h.bodies, fresh := ?_, stream := ?_ }
  · rw [hposition]
    cases hstart : s.client.start with
    | none => exact ⟨0, by simp [Client.commits, h.fresh hstart], rfl⟩
    | some start =>
      have hresume := hresumes.resolve_left (by simp [hstart])
      have hreceived := h.received
      rw [hstart] at hreceived
      rw [hresume]
      exact hreceived
  · rw [hposition]
    exact System.resume_le hshared stream
  · cases hstart : s.client.start <;> simp
  · intro stream' hstream'
    obtain rfl := Option.some.inj hstream'
    refine { hs with
      opened := ?_, replaying := ?_, cursor := ?_, records := ?_, replayed := ?_, rows := ?_,
      queued := ?_ }
    · intro hopened
      change (if stream.requested then Phase.greeted else .live) = .opened at hopened
      split at hopened <;> cases hopened
    · intro _ hlive
      by_contra hrequested
      exact hlive (if_neg hrequested)
    · refine fun _ => ⟨?_, hposition.symm⟩
      cases s.client.start <;> rfl
    · intro cutoff page hrecords
      change (if stream.requested then Phase.greeted else .live) = _ at hrecords
      split at hrecords <;> cases hrecords
    · intro hrequested k r hlog hk
      exact hcoverage ▸ hs.replayed hrequested k r hlog hk
    · intro rest hrows
      change (if stream.requested then Phase.greeted else .live) = _ at hrows
      split at hrows <;> cases hrows
    · intro hopen
      exact hcoverage ▸ hs.queued hopen

/-- A stream past its start may write a frame that moves its cursor. -/
lemma StreamCommits.written (hs : StreamCommits server s stream) {stream' : Stream}
    {id : Nat × Nat} {encoded : EncodedEvent} (hstarted : stream.phase ≠ .opened)
    (hphase : stream'.phase ≠ .opened) (hrequested : stream'.requested = stream.requested)
    (hcutoff : stream'.subscription.cutoff = stream.subscription.cutoff)
    (hcursor : stream'.commitCursor = id.2)
    (hreplaying : stream'.phase ≠ .live → stream.requested = true)
    (hcoverage : stream.coverage s.commits.length ≤ stream'.coverage s.commits.length)
    (hrecords : ∀ cutoff page, stream'.phase = .records cutoff page →
      stream'.commitCursor ≤ cutoff ∧ cutoff ≤ s.commits.length ∧
        page.map (·.sequence) = List.range' (stream'.commitCursor + 1) page.length ∧
        ∀ r ∈ page, r ∈ s.commits)
    (hrows : ∀ rest, stream'.phase = .rows rest → ∀ k r, (k, Event.durableCommit r) ∈ rest →
      r.sequence ≤ stream'.commitCursor)
    (hqueued : stream'.subscription.closed = false → Queued (s.pending stream'.subscription)
      (stream'.coverage s.commits.length) s.commits.length)
    (hitems : stream'.subscription.closed = false → ∀ item ∈ stream'.subscription.items,
      s.CommitBody server item) :
    StreamCommits server (s.write stream' id encoded) stream' where
  cutoff := hcutoff ▸ hs.cutoff
  opened := fun h => absurd h hphase
  replaying := fun _ hlive => hrequested ▸ hreplaying hlive
  cursor := fun _ => ⟨(hs.cursor hstarted).1, by rw [System.position_write, hcursor]⟩
  records := hrecords
  replayed := fun hasked k r hlog hk =>
    (hs.replayed (hrequested ▸ hasked) k r hlog (hcutoff ▸ hk)).trans hcoverage
  rows := hrows
  queued := hqueued
  items := hitems

lemma CommitInv.record (hshared : Shared server s) (h : CommitInv server s)
    (hs : StreamCommits server s stream) {cutoff : Nat} {r : CommitRecord}
    {page : List CommitRecord} {body : Fields} {feed : Feed}
    (hphase : stream.phase = .records cutoff (r :: page)) (hcutoff : r.sequence ≤ cutoff)
    (hencode : s.feed.encode server (.commit r.sequence) (.durableCommit r) = .ok (body, feed)) :
    CommitInv server (System.write { s with feed }
      { stream with commitCursor := r.sequence, phase := .records cutoff page, ahead := true }
      (stream.subscription.cutoff, r.sequence) ⟨0, r.sequence, body⟩) := by
  have hstarted : stream.phase ≠ .opened := by simp [hphase]
  obtain ⟨hle, hbound, hpage, hmem⟩ := hs.records cutoff (r :: page) hphase
  rw [List.map_cons, List.length_cons, List.range'_succ] at hpage
  obtain ⟨hnext, hpage⟩ := List.cons.inj hpage
  have hr : r ∈ s.commits := hmem r List.mem_cons_self
  have hprojected := hshared.project_commit hr
    (hshared.encode 0 (Shared.replayable_commit hr) hencode).2
  have hcursor := (hs.cursor hstarted).2
  refine CommitInv.write (s := { s with feed }) h.elsewhere (hs.cursor hstarted).1
    (Or.inr ⟨?_, ?_, ?_⟩) (fun _ => ⟨r, hr, rfl, hprojected⟩) ?_
  · exact hnext.trans (congrArg (· + 1) hcursor)
  · exact hnext.trans (congrArg (· + 1) hcursor)
  · change s.client.position < s.commits.length
    omega
  · refine StreamCommits.written (s := { s with feed }) { hs with } hstarted (by simp) rfl rfl rfl
      (fun _ => hs.replaying hstarted (by simp [hphase])) (by simp [Stream.coverage, hphase]) ?_
      (by simp) (fun hopen => ?_) hs.items
    · rintro cutoff' page' ⟨⟩
      exact ⟨hcutoff, hbound, hnext ▸ hpage, fun r hr => hmem r (List.mem_cons_of_mem _ hr)⟩
    · simpa [Stream.coverage, hphase, System.pending] using hs.queued hopen

lemma CommitInv.item (h : CommitInv server s) (hs : StreamCommits server s stream)
    {item : EncodedEvent} {items : List EncodedEvent} {bytes : Nat} (hphase : stream.phase = .live)
    (hopen : stream.subscription.closed = false)
    (hitems : stream.subscription.items = item :: items)
    (hpast : item.commitSeq = 0 ∨ stream.commitCursor < item.commitSeq) :
    CommitInv server (s.write { stream with
        subscription := { stream.subscription with items, bytes }
        commitCursor := max stream.commitCursor item.commitSeq, ahead := false }
      (item.sequence, max stream.commitCursor item.commitSeq) item) := by
  have hstarted : stream.phase ≠ .opened := by simp [hphase]
  obtain ⟨hstart, hcursor⟩ := hs.cursor hstarted
  have hqueued := hs.queued hopen
  have hcovered : stream.coverage s.commits.length = stream.commitCursor := by
    simp [Stream.coverage, hphase]
  simp only [System.pending, hitems, List.map_cons, List.cons_append, hcovered] at hqueued
  have hrest : Queued (items.map (·.commitSeq) ++ s.awaiting.map (·.sequence))
      (max stream.commitCursor item.commitSeq) s.commits.length := by
    rcases hpast with hzero | hlt
    · rw [hzero, Nat.max_zero]
      exact hqueued.skip (hzero ▸ Nat.zero_le _)
    · rw [Nat.max_eq_right (Nat.le_of_lt hlt)]
      exact (hqueued.head hlt).2.2
  refine h.write hstart ?_ (hs.items hopen item (hitems ▸ List.mem_cons_self)) ?_
  · rcases hpast with hzero | hlt
    · exact Or.inl ⟨hzero, by rw [hzero, Nat.max_zero]; exact hcursor⟩
    · obtain ⟨hnext, hle, -⟩ := hqueued.head hlt
      exact Or.inr ⟨by rw [hnext, hcursor],
        by rw [Nat.max_eq_right (Nat.le_of_lt hlt), hnext, hcursor], by omega⟩
  · refine hs.written hstarted (by simp [hphase]) rfl rfl rfl (fun hlive => absurd hphase hlive) ?_
      (by simp [hphase]) (by simp [hphase]) (fun _ => ?_) (fun _ item' hitem' => ?_)
    · simpa [Stream.coverage, hphase] using Nat.le_max_left _ _
    · simpa [Stream.coverage, hphase, System.pending] using hrest
    · exact hs.items hopen item' (hitems ▸ List.mem_cons_of_mem _ hitem')

lemma CommitInv.turn (hshared : Shared server s) (h : CommitInv server s)
    (hstream : s.client.stream = some stream)
    (hresumes : stream.phase = .opened → s.Resumes server stream)
    (hturn : Turn server s stream s') : CommitInv server s' := by
  have hs := h.stream stream hstream
  cases hturn with
  | hello hphase => exact h.hello hshared hs (hresumes hphase) hphase
  | bound hphase =>
    have hstarted : stream.phase ≠ .opened := by simp [hphase]
    refine h.setStream (hs.enter hstarted (by simp)
      (fun _ => hs.replaying hstarted (by simp [hphase]))
      ?_ ?_ (by simp))
    · simp [Stream.coverage, hphase, hshared.commitSequence_eq]
    · rintro cutoff page ⟨⟩
      rw [hshared.commitSequence_eq, (hs.cursor hstarted).2]
      exact ⟨h.position_le, Nat.le_refl _, rfl, by simp⟩
  | page cutoff hphase hcursor =>
    have hstarted : stream.phase ≠ .opened := by simp [hphase]
    refine h.setStream (hs.enter hstarted (by simp)
      (fun _ => hs.replaying hstarted (by simp [hphase]))
      ?_ ?_ (by simp))
    · simp [Stream.coverage, hphase]
    · rintro cutoff' page ⟨⟩
      obtain ⟨hle, hcutoff, -⟩ := hs.records cutoff [] hphase
      exact ⟨hle, hcutoff, hshared.commitsAfter stream.commitCursor⟩
  | replayed cutoff page hphase hend =>
    have hstarted : stream.phase ≠ .opened := by simp [hphase]
    obtain ⟨hle, hcutoff, hpage, -⟩ := hs.records cutoff page hphase
    have hreached : cutoff = stream.commitCursor := by
      refine le_antisymm ?_ hle
      rcases hend with ⟨-, hend⟩ | ⟨r, hr, hlt⟩
      · exact hend
      · cases page with
        | nil => cases hr
        | cons first page =>
          obtain rfl := Option.some.inj hr
          rw [List.map_cons, List.length_cons, List.range'_succ] at hpage
          have := (List.cons.inj hpage).1
          omega
    refine h.setStream (hs.enter hstarted (by simp)
      (fun _ => hs.replaying hstarted (by simp [hphase]))
      ?_ (by simp) (by simp))
    simp [Stream.coverage, hphase, hreached]
  | record cutoff r page body feed hphase hcutoff hencode =>
    exact h.record hshared hs hphase hcutoff hencode
  | asked hphase =>
    have hstarted : stream.phase ≠ .opened := by simp [hphase]
    have hrequested := hs.replaying hstarted (by simp [hphase])
    refine h.setStream (hs.enter hstarted (by simp) (fun _ => hrequested) ?_ (by simp) ?_)
    · simp [Stream.coverage, hphase]
    · rintro rest ⟨⟩ k r hmem
      cases hmarker : s.bus.resyncAfter stream.eventCursor stream.subscription.cutoff with
      | some marker => simp [EventBus.replayEventsAfter, hmarker] at hmem
      | none =>
        obtain ⟨hsub, hrows⟩ := hshared.bus.rows hmarker
        have hle := hs.replayed hrequested k r (hsub.subset hmem)
          (((hrows _).mp hmem).2.2.trans (Nat.min_le_right _ _))
        simpa [Stream.coverage, hphase] using hle
  | caughtUp hphase =>
    have hstarted : stream.phase ≠ .opened := by simp [hphase]
    refine h.setStream (hs.enter hstarted (by simp) (fun hne => absurd rfl hne) ?_ (by simp)
      (by simp))
    simp [Stream.coverage, hphase]
  | skipRow sequence event rest hphase hskip =>
    have hstarted : stream.phase ≠ .opened := by simp [hphase]
    refine h.setStream (hs.enter hstarted (by simp)
      (fun _ => hs.replaying hstarted (by simp [hphase]))
      ?_ (by simp) ?_)
    · simp [Stream.coverage, hphase]
    · rintro rest' ⟨⟩ k r hmem
      exact hs.rows _ hphase k r (List.mem_cons_of_mem _ hmem)
  | row sequence event rest body feed hphase hpast hencode =>
    have hstarted : stream.phase ≠ .opened := by simp [hphase]
    have hzero : event.commitSeq = 0 := by
      cases event with
      | notice n => rfl
      | durableCommit r =>
        have hle := hs.rows _ hphase sequence r List.mem_cons_self
        exact absurd (hpast r rfl) (Nat.not_lt.mpr hle)
    refine CommitInv.write (s := { s with feed }) h.elsewhere (hs.cursor hstarted).1
      (Or.inl ⟨hzero, (hs.cursor hstarted).2⟩) (fun hne => absurd hzero hne) ?_
    refine StreamCommits.written (s := { s with feed }) { hs with } hstarted (by simp) rfl rfl rfl
      (fun _ => hs.replaying hstarted (by simp [hphase])) (by simp [Stream.coverage, hphase])
      (by simp) ?_ (fun hopen => ?_) hs.items
    · rintro rest' ⟨⟩ k r hmem
      exact hs.rows _ hphase k r (List.mem_cons_of_mem _ hmem)
    · simpa [Stream.coverage, hphase, System.pending] using hs.queued hopen
  | idle hphase => exact h
  | skipItem item items bytes hphase hopen hitems hskip =>
    have hqueued := hs.queued hopen
    refine h.setStream { hs with queued := fun _ => ?_, items := fun _ item' hitem' => ?_ }
    · simp only [System.pending, hitems, List.map_cons, List.cons_append] at hqueued
      exact hqueued.skip (by simpa [Stream.coverage, hphase] using hskip.2)
    · exact hs.items hopen item' (hitems ▸ List.mem_cons_of_mem _ hitem')
  | item item items bytes hphase hopen hitems hpast => exact h.item hs hphase hopen hitems hpast

end Events

end Codey
