import Codey.Events.EventDelivery

/-!
# Events through the turns of a stream

What an emission, a new connection and each turn of the stream do to the events that the client
misses.
-/

namespace Codey

namespace Events

variable {server : Server} {s s' : System} {stream : Stream} {e : Emission}

/-! ### Emissions -/

lemma itemOf_private {row : Nat × Event} (h : publicPayload server row.2 = none) :
    itemOf server row = none := by
  simp [itemOf, project, h, Except.toOption]

/-- An emission adds its event to those of the open subscription. -/
lemma ItemsLeft.emitted {event : Event} {awaiting : List CommitRecord} {sub' : Subscription}
    {before after : List (Nat × Event)} (h : ItemsLeft server s stream before after)
    (hemitted : Emitted server event { s with awaiting } s')
    (hreceived : s'.client.received = s.client.received)
    (hcutoff : sub'.cutoff = stream.subscription.cutoff) (items : List EncodedEvent)
    (hitems : sub'.items = stream.subscription.items ++ items)
    (hitem : items = [(s.bus.sequence + 1, event)].filterMap (itemOf server))
    (hencodes : (publicPayload server event).isSome = true →
      (itemOf server (s.bus.sequence + 1, event)).isSome = true) :
    ItemsLeft server s' { stream with subscription := sub' } before
      (after ++ [(s.bus.sequence + 1, event)]) where
  log := by
    rw [hemitted.log, ← List.append_assoc]
    exact congrArg (· ++ _) h.log
  items := by rw [List.filterMap_append, ← h.items, ← hitem]; exact hitems
  encodes := by
    intro row hrow
    rcases List.mem_append.mp hrow with hold | hnew
    · exact h.encodes row hold
    · rw [List.mem_singleton.mp hnew]
      exact hencodes
  cutoff := fun hphase => by
    change before.length = sub'.cutoff
    rw [hcutoff]
    exact h.cutoff hphase
  live := by
    intro hphase
    obtain ⟨hplain, hmissing⟩ := h.live hphase
    refine ⟨?_, fun e he => ?_⟩
    · intro f hf hf' hprocess
      rw [hreceived] at hf
      exact hplain f hf hf' (hprocess.trans hemitted.process)
    · rcases hemitted.missing he with hold | ⟨-, hseq, hevent⟩
      · exact List.mem_append_left _ (hmissing e hold)
      · rw [hseq, hevent]
        exact List.mem_append_right _ (List.mem_singleton.mpr rfl)

lemma System.PlainUpTo.emitted {bound : Nat} (h : s.PlainUpTo bound)
    (hprocess : s'.process = s.process) (hreceived : s'.client.received = s.client.received) :
    s'.PlainUpTo bound := by
  intro f hf hplain heq
  rw [hreceived] at hf
  exact h f hf hplain (heq.trans hprocess)

lemma StreamEvents.emitted {event : Event} {awaiting : List CommitRecord} {sub' : Subscription}
    (hs : StreamEvents server s stream) (hemitted : Emitted server event { s with awaiting } s')
    (hreceived : s'.client.received = s.client.received)
    (hcutoff : sub'.cutoff = stream.subscription.cutoff)
    (hoffered : Offered server (s.bus.sequence + 1, event) stream.subscription sub') :
    StreamEvents server s' { stream with subscription := sub' } := by
  have hprocess : s'.process = s.process := hemitted.process
  have hsequence : s'.bus.sequence = s.bus.sequence + 1 := hemitted.sequence
  have hbound := hs.cutoff
  have hlater : (∀ e ∈ s.missing server, e.process = s.process ∧
      stream.subscription.cutoff < e.sequence) → ∀ e ∈ s'.missing server,
        e.process = s'.process ∧ sub'.cutoff < e.sequence := by
    intro hold e he
    rw [hcutoff, hprocess]
    rcases hemitted.missing he with he | ⟨heq, hseq, -⟩
    · exact hold e he
    · exact ⟨heq, by omega⟩
  refine {
    cutoff := ?_, ahead := ?_, anchored := ?_, early := ?_, unasked := ?_, known := ?_, rows := ?_,
    live := ?_, items := ?_ }
  · change sub'.cutoff ≤ s'.bus.sequence
    omega
  · intro hahead
    change ∃ f ∈ s'.client.received.getLast?, f.process = s'.process ∧ f.id.1 = sub'.cutoff
    rw [hreceived, hprocess, hcutoff]
    exact hs.ahead hahead
  · intro hphase hanchored
    obtain ⟨hcursor, hmissing⟩ := hs.anchored hphase hanchored
    refine ⟨hcutoff ▸ hcursor, fun e he heq => ?_⟩
    rcases hemitted.missing he with hold | ⟨-, hseq, -⟩
    · exact hmissing e hold (heq.trans hprocess)
    · change stream.eventCursor < e.sequence
      omega
  · exact fun hphase => (hs.early hphase).emitted hprocess hreceived
  · exact fun hphase hrequested => hlater (hs.unasked hphase hrequested)
  · intro hphase
    change s'.PlainUpTo sub'.cutoff
    rw [hcutoff]
    exact (hs.known hphase).emitted hprocess hreceived
  · intro rest hphase
    change (∃ marker, rest = [(sub'.cutoff, _)] ∧ _) ∨ RowsLeft server s' sub'.cutoff rest
    rw [hcutoff]
    refine (hs.rows rest hphase).imp id fun hrest => {
      missing := ?_, logged := ?_, cutoff_le := hrest.cutoff_le, later := ?_ }
    · intro e he
      rw [hprocess]
      rcases hemitted.missing he with hold | ⟨heq, hseq, -⟩
      · exact hrest.missing e hold
      · exact ⟨heq, fun hle => by omega⟩
    · rw [hemitted.log]
      exact hrest.logged.trans (List.sublist_append_left _ _)
    · intro row hrow f hf hplain heq
      rw [hreceived] at hf
      exact hrest.later row hrow f hf hplain (heq.trans hprocess)
  · exact fun hphase => hlater (hs.live hphase)
  · intro hopen'
    cases hoffered with
    | closed hclosed => exact absurd (hclosed.symm.trans hopen') (by decide)
    | quiet hprivate hsame =>
      obtain ⟨before, after, hitems⟩ := hs.items (hsame ▸ hopen')
      refine ⟨before, _, hitems.emitted hemitted hreceived hcutoff [] ?_ ?_ ?_⟩
      · rw [hsame, List.append_nil]
      · simp [itemOf_private hprivate]
      · intro hpublic
        simp [hprivate] at hpublic
    | queued item hitem hopen _ hitems' =>
      obtain ⟨before, after, hitems⟩ := hs.items hopen
      refine ⟨before, _, hitems.emitted hemitted hreceived hcutoff [item] hitems' ?_ ?_⟩
      · simp [hitem]
      · exact fun _ => hitem ▸ rfl

lemma EventInv.emitted (h : EventInv server s) {event : Event} {awaiting : List CommitRecord}
    (hemitted : Emitted server event { s with awaiting } s') : EventInv server s' := by
  have hprocess : s'.process = s.process := hemitted.process
  have hsequence : s'.bus.sequence = s.bus.sequence + 1 := hemitted.sequence
  have hreceived : s'.client.received = s.client.received := by
    cases hemitted.client with
    | absent _ hsame => rw [hsame]
    | offered stream sub' _ hclient => rw [hclient]
  refine {
    process_le := ?_, plain_le := ?_, last_le := ?_, once := ?_, behind := ?_, stream := ?_ }
  · rw [hreceived, hprocess]
    exact h.process_le
  · rw [hreceived, hprocess]
    exact h.plain_le
  · rw [hreceived, hprocess, hsequence]
    exact fun l hl heq => Nat.le_succ_of_le (h.last_le l hl heq)
  · rw [hreceived]
    exact h.once
  · intro hahead l hl heq e he hsame
    rw [hreceived] at hl
    rw [hprocess] at heq hsame
    rcases hemitted.missing he with hold | ⟨-, hseq, -⟩
    · refine h.behind (fun stream hstream => ?_) l hl heq e hold hsame
      cases hemitted.client with
      | absent hnone _ => exact absurd (hnone.symm.trans hstream) (by simp)
      | offered stream' sub' hstream' hclient =>
        obtain rfl := Option.some.inj (hstream'.symm.trans hstream)
        exact hahead { stream' with subscription := sub' } (by rw [hclient]; rfl)
    · have hle := h.last_le l hl heq
      omega
  · intro stream hstream
    cases hemitted.client with
    | absent hnone hsame =>
      rw [hsame] at hstream
      exact absurd (hnone.symm.trans hstream) (by simp)
    | offered stream' sub' hstream' hclient hcutoff hoffered =>
      rw [hclient] at hstream
      obtain rfl := Option.some.inj hstream
      exact (h.stream stream' hstream').emitted hemitted hreceived hcutoff hoffered

/-! ### Connections -/

lemma EventInv.connect (hshared : Shared server s) (h : EventInv server s) {query : Query}
    (hnone : s.client.stream = none) (hasks : s.AsksInTime server query) :
    EventInv server (s.connect query) := by
  have hbehind := h.behind (by simp [hnone])
  have hknown : s.PlainUpTo s.bus.sequence := by
    intro f hf hplain hprocess
    obtain ⟨l, hl, hlast, hle⟩ := h.plain_le f hf hplain hprocess
    exact hle.trans (h.last_le l hl hlast)
  refine {
    process_le := h.process_le, plain_le := h.plain_le, last_le := h.last_le, once := h.once,
    behind := fun _ l hl hprocess e he => hbehind l hl hprocess e (hshared.missing_connect he),
    stream := ?_ }
  intro stream hstream
  obtain rfl := Option.some.inj hstream
  refine {
    cutoff := ?_, ahead := by simp, anchored := ?_, early := ?_, unasked := ?_, known := ?_,
    rows := by simp, live := by simp, items := ?_ }
  · exact Nat.le_of_eq hshared.feed
  · intro _ hanchored
    obtain ⟨l, hl, hprocess⟩ := (Option.any_eq_true _ _).mp hanchored
    have hprocess : l.process = s.process := by simpa using hprocess
    have hcursor : (System.request s.client query).1 = l.id.1 := by
      simp [System.request, Client.lastId, hl]
    refine ⟨?_, fun e he heq => ?_⟩
    · change (System.request s.client query).1 ≤ s.feed.sequence
      rw [hcursor, hshared.feed]
      exact h.last_le l hl hprocess
    · change (System.request s.client query).1 < e.sequence
      rw [hcursor]
      exact hbehind l hl hprocess e (hshared.missing_connect he) heq
  · intro _ f hf hplain hprocess
    obtain ⟨l, hl, -, hle⟩ := h.plain_le f hf hplain hprocess
    have hcursor : (System.request s.client query).1 = l.id.1 := by
      have hl : s.client.received.getLast? = some l := hl
      simp [System.request, Client.lastId, hl]
    change f.encoded.sequence ≤ (System.request s.client query).1
    rwa [hcursor]
  · intro _ hrequested e he
    have hunasked : (System.request s.client query).2.2 ≠ true := by
      change (System.request s.client query).2.2 = false at hrequested
      simp [hrequested]
    have hnothing := (hasks.resolve_left hunasked).1
    have he := hshared.missing_connect he
    rw [hnothing] at he
    cases he
  · intro _
    change s.PlainUpTo s.feed.sequence
    rw [hshared.feed]
    exact hknown
  · intro _
    exact ⟨s.log, [], {
      log := (List.append_nil _).symm
      items := rfl
      encodes := by simp
      cutoff := fun _ => hshared.bus.sequence.symm.trans hshared.feed.symm
      live := by simp }⟩

/-! ### Turns without a frame -/

lemma StreamEvents.client (hs : StreamEvents server s stream) {start : Option Nat}
    {stream' : Option Stream} :
    StreamEvents server { s with client := { s.client with start, stream := stream' } } stream :=
  { hs with
    rows := fun rest hphase => (hs.rows rest hphase).imp id fun hrest => { hrest with }
    items := fun hopen =>
      let ⟨before, after, hitems⟩ := hs.items hopen
      ⟨before, after, { hitems with }⟩ }

lemma EventInv.client (h : EventInv server s) (hstream : s.client.stream = some stream)
    {stream' : Stream} (hahead : stream'.ahead = stream.ahead)
    (hs : StreamEvents server s stream') {start : Option Nat} :
    EventInv server { s with client := { s.client with start, stream := some stream' } } :=
  { h with
    behind := fun hnot => h.behind fun found hfound => by
      obtain rfl := Option.some.inj (hstream.symm.trans hfound)
      exact hahead.symm.trans (hnot stream' rfl)
    stream := fun _ hfound => Option.some.inj hfound ▸ hs.client }

lemma StreamEvents.keepEarly (hs : StreamEvents server s stream) (hearly : stream.phase.early = true)
    {phase : Phase} (hphase : phase.early = true) (hopened : phase ≠ .opened) {commitCursor : Nat} :
    StreamEvents server s { stream with commitCursor, phase } where
  cutoff := hs.cutoff
  ahead := hs.ahead
  anchored := fun _ => hs.anchored hearly
  early := fun _ => hs.early hearly
  unasked := fun h => absurd h hopened
  known := fun _ => hs.known (by rintro hlive; simp [hlive, Phase.early] at hearly)
  rows := by
    rintro rest rfl
    simp [Phase.early] at hphase
  live := by
    rintro rfl
    simp [Phase.early] at hphase
  items := by
    intro hopen
    obtain ⟨before, after, hitems⟩ := hs.items hopen
    refine ⟨before, after, { hitems with cutoff := fun _ => hitems.cutoff ?_, live := ?_ }⟩
    · rintro hlive
      simp [hlive, Phase.early] at hearly
    · rintro rfl
      simp [Phase.early] at hphase

/-- A stream goes live when the client misses nothing up to the cutoff. -/
lemma StreamEvents.goLive (hshared : Shared server s) (hs : StreamEvents server s stream)
    (hphase : stream.phase ≠ .live)
    (hmissing : ∀ e ∈ s.missing server,
      e.process = s.process ∧ stream.subscription.cutoff < e.sequence) {commitCursor : Nat} :
    StreamEvents server s { stream with commitCursor, phase := .live } where
  cutoff := hs.cutoff
  ahead := hs.ahead
  anchored := by simp [Phase.early]
  early := by simp [Phase.early]
  unasked := by simp
  known := fun h => absurd rfl h
  rows := by simp
  live := fun _ => hmissing
  items := by
    intro hopen
    obtain ⟨before, after, hitems⟩ := hs.items hopen
    refine ⟨before, after, {
      hitems with cutoff := fun h => absurd rfl h, live := fun _ => ⟨?_, fun e he => ?_⟩ }⟩
    · rw [hitems.cutoff hphase]
      exact hs.known hphase
    · obtain ⟨hprocess, hlater⟩ := hmissing e he
      have hlog : (e.sequence, e.event) ∈ s.log := by
        rcases (hshared.missing he).2.2 with hlt | ⟨-, hlog⟩
        · omega
        · exact hlog
      rw [hitems.log] at hlog
      refine (List.mem_append.mp hlog).resolve_left fun hbefore => ?_
      have hnumbered := hshared.bus.numbered
      rw [hitems.log] at hnumbered
      have hle := (hnumbered.left.bounds hbefore).2
      rw [hitems.cutoff hphase] at hle
      omega

/-- A stream that is not live may turn to other rows. -/
lemma StreamEvents.turnTo (hs : StreamEvents server s stream) (hphase : stream.phase ≠ .live)
    {rows : List (Nat × Event)}
    (hrows : (∃ marker, rows = [(stream.subscription.cutoff, .notice marker)] ∧
      marker.type = resyncType) ∨ RowsLeft server s stream.subscription.cutoff rows) :
    StreamEvents server s { stream with phase := .rows rows } where
  cutoff := hs.cutoff
  ahead := hs.ahead
  anchored := by simp [Phase.early]
  early := by simp [Phase.early]
  unasked := by simp
  known := fun _ => hs.known hphase
  live := by simp
  items := by
    intro hopen
    obtain ⟨before, after, hitems⟩ := hs.items hopen
    exact ⟨before, after,
      { hitems with cutoff := fun _ => hitems.cutoff hphase, live := by simp }⟩
  rows := by
    rintro rest ⟨⟩
    exact hrows

/-- The rows of a replay that loses nothing. -/
lemma StreamEvents.asked (hshared : Shared server s) (hs : StreamEvents server s stream)
    (hphase : stream.phase = .events) (hreplays : s.ReplaysAll server stream) :
    StreamEvents server s { stream with
      phase := .rows (s.bus.replayEventsAfter stream.eventCursor stream.subscription.cutoff) } := by
  refine hs.turnTo (by simp [hphase]) ?_
  have hcutoff : min s.bus.sequence stream.subscription.cutoff = stream.subscription.cutoff :=
    Nat.min_eq_right hs.cutoff
  have hearly : stream.phase.early = true := by simp [hphase, Phase.early]
  cases hmarker : s.bus.resyncAfter stream.eventCursor stream.subscription.cutoff with
  | some marker =>
    refine Or.inl ⟨marker, ?_, EventBus.type_of_resyncAfter hmarker⟩
    simp [EventBus.replayEventsAfter, hmarker, hcutoff]
  | none =>
    obtain ⟨hsub, hrows⟩ := hshared.bus.rows hmarker
    have hall := hreplays.resolve_left (by simp [hmarker])
    refine Or.inr {
      missing := ?_, logged := hsub, cutoff_le := fun row hrow =>
        ((hrows row).mp hrow).2.2.trans (Nat.min_le_right _ _), later := ?_ }
    · intro e he
      obtain ⟨hprocess, hkept⟩ := hall e he
      refine ⟨hprocess, fun hle => (hrows _).mpr ?_⟩
      obtain ⟨hcursor, hretained⟩ := hkept hle
      have hlt : stream.eventCursor < e.sequence := by
        rcases hcursor with hanchored | hlt
        · exact (hs.anchored hearly hanchored).2 e he hprocess
        · exact hlt
      refine ⟨?_, hlt, hcutoff.symm ▸ hle⟩
      by_cases hzero : stream.eventCursor = 0
      · exact hretained hzero
      · have hlog : (e.sequence, e.event) ∈ s.log := by
          rcases (hshared.missing he).2.2 with hended | ⟨-, hlog⟩
          · omega
          · exact hlog
        exact hshared.bus.mem_replay hmarker (Nat.pos_of_ne_zero hzero) hlog hlt
    · intro row hrow f hf hplain hprocess
      exact Nat.lt_of_le_of_lt (hs.early hearly f hf hplain hprocess) ((hrows row).mp hrow).2.1

/-- A row without a frame is none that the client misses. -/
lemma StreamEvents.skipRow (hshared : Shared server s) (hs : StreamEvents server s stream)
    {sequence : Nat} {event : Event} {rest : List (Nat × Event)}
    (hphase : stream.phase = .rows ((sequence, event) :: rest))
    (hskip : event.isNotice = false ∨ publicPayload server event = none) :
    StreamEvents server s { stream with phase := .rows rest } := by
  refine hs.turnTo (by simp [hphase]) ?_
  rcases hs.rows _ hphase with ⟨marker, heq, htype⟩ | hrest
  · obtain ⟨hrow, -⟩ := List.cons.inj heq
    obtain rfl : event = .notice marker := (Prod.ext_iff.mp hrow).2
    rcases hskip with hskip | hprivate
    · cases hskip
    · have hpublic : project server (.notice marker) ≠ .error .privateEvent :=
        project_public (Or.inr htype)
      exact absurd (by rw [project, hprivate]) hpublic
  · refine Or.inr {
      missing := ?_, logged := (List.sublist_cons_self _ _).trans hrest.logged,
      cutoff_le := fun row hrow => hrest.cutoff_le row (List.mem_cons_of_mem _ hrow),
      later := fun row hrow => hrest.later row (List.mem_cons_of_mem _ hrow) }
    intro e he
    obtain ⟨hprocess, hleft⟩ := hrest.missing e he
    refine ⟨hprocess, fun hle => (List.mem_cons.mp (hleft hle)).resolve_left fun heq => ?_⟩
    obtain ⟨hnotice, hpublic, -⟩ := hshared.missing he
    have hevent : e.event = event := (Prod.ext_iff.mp heq).2
    rcases hskip with hskip | hprivate
    · simp [hevent, hskip] at hnotice
    · simp [hevent, hprivate] at hpublic

/-! ### Turns with a frame -/

/-- A frame whose event comes after those received keeps the invariant. -/
lemma EventInv.write (h : EventInv server s) {stream' : Stream} {id : Nat × Nat}
    {encoded : EncodedEvent} (hle : id.1 ≤ s.bus.sequence) (hknown : s.PlainUpTo id.1)
    (hnew : Frame.plain ⟨s.process, id, encoded⟩ = true → encoded.sequence ≤ id.1 ∧
      ∀ f ∈ s.client.received, f.plain = true → f.process = s.process →
        f.encoded.sequence < encoded.sequence)
    (hbehind : stream'.ahead = false → ∀ e ∈ (s.write stream' id encoded).missing server,
      e.process = s.process → id.1 < e.sequence)
    (hs : StreamEvents server (s.write stream' id encoded) stream') :
    EventInv server (s.write stream' id encoded) where
  process_le := by
    intro f hf
    rcases List.mem_append.mp hf with hold | hlast
    · exact h.process_le f hold
    · rw [List.mem_singleton.mp hlast]
      exact Nat.le_refl _
  plain_le := by
    intro f hf hplain hprocess
    refine ⟨⟨s.process, id, encoded⟩, List.getLast?_concat, rfl, ?_⟩
    exact hknown.write (fun hnew' => (hnew hnew').1) f hf hplain hprocess
  last_le := by
    intro l hl _
    obtain rfl := Option.some.inj (List.getLast?_concat.symm.trans hl)
    exact hle
  once := by
    intro process sequence
    change List.countP _ (s.client.received ++ [_]) ≤ 1
    rw [List.countP_append, List.countP_singleton]
    split
    · rename_i hat
      simp only [Frame.at, Bool.and_eq_true, decide_eq_true_eq] at hat
      obtain ⟨⟨hplain, rfl⟩, rfl⟩ := hat
      rw [List.countP_eq_zero.mpr]
      intro f hf hat'
      simp only [Frame.at, Bool.and_eq_true, decide_eq_true_eq] at hat'
      have hlt := (hnew hplain).2 f hf hat'.1.1 hat'.1.2
      omega
    · exact h.once process sequence
  behind := by
    intro hahead l hl _ e he hprocess
    obtain rfl := Option.some.inj (List.getLast?_concat.symm.trans hl)
    exact hbehind (hahead stream' rfl) e he hprocess
  stream := fun _ hfound => Option.some.inj hfound ▸ hs

/-- A frame of the commit replay. -/
lemma EventInv.record (h : EventInv server s) (hs : StreamEvents server s stream)
    (hearly : stream.phase.early = true) {cutoff : Nat} {page : List CommitRecord} {r : CommitRecord}
    (hr : r.sequence ≠ 0) {body : Fields} :
    EventInv server (s.write
      { stream with commitCursor := r.sequence, phase := .records cutoff page, ahead := true }
      (stream.subscription.cutoff, r.sequence) ⟨0, r.sequence, body⟩) := by
  have hplain : Frame.plain ⟨s.process, (stream.subscription.cutoff, r.sequence),
      ⟨0, r.sequence, body⟩⟩ = false := by
    simp [Frame.plain, hr]
  have hlive : stream.phase ≠ .live := by
    intro hlive
    simp [hlive, Phase.early] at hearly
  refine h.write hs.cutoff (hs.known hlive) (by simp [hplain]) (by simp) {
    cutoff := hs.cutoff, ahead := ?_, anchored := ?_, early := ?_, unasked := by simp, known := ?_,
    rows := by simp, live := by simp, items := ?_ }
  · exact fun _ => ⟨_, List.getLast?_concat, rfl, rfl⟩
  · intro _ hanchored
    obtain ⟨hcursor, hmissing⟩ := hs.anchored hearly hanchored
    exact ⟨hcursor, fun e he => hmissing e (System.missing_write he).1⟩
  · exact fun _ => (hs.early hearly).write (by simp [hplain])
  · exact fun _ => (hs.known hlive).write (by simp [hplain])
  · intro hopen
    obtain ⟨before, after, hitems⟩ := hs.items hopen
    exact ⟨before, after, { hitems with cutoff := fun _ => hitems.cutoff hlive, live := by simp }⟩

/-- A frame of the bus replay with the marker. -/
lemma EventInv.marker (hshared : Shared server s) (h : EventInv server s)
    (hs : StreamEvents server s stream) {marker : Notice}
    (hphase : stream.phase = .rows [(stream.subscription.cutoff, .notice marker)])
    {body : Fields} (hbody : isResync body = true) :
    EventInv server (s.write { stream with phase := .rows [], ahead := false }
      (stream.subscription.cutoff, stream.commitCursor)
      ⟨stream.subscription.cutoff, 0, body⟩) := by
  have hplain : Frame.plain ⟨s.process, (stream.subscription.cutoff, stream.commitCursor),
      ⟨stream.subscription.cutoff, 0, body⟩⟩ = false := by
    simp [Frame.plain, hbody]
  have hlive : stream.phase ≠ .live := by simp [hphase]
  have hcovered : ∀ e ∈ (s.write { stream with phase := .rows [], ahead := false }
      (stream.subscription.cutoff, stream.commitCursor)
      ⟨stream.subscription.cutoff, 0, body⟩).missing server,
      e.process = s.process ∧ stream.subscription.cutoff < e.sequence := by
    intro e he
    obtain ⟨hmissing, -, hcovers⟩ := System.missing_write he
    simp only [Frame.covers, hbody, Bool.true_and, Bool.or_eq_false_iff, Bool.and_eq_false_imp,
      decide_eq_true_eq, decide_eq_false_iff_not, Nat.not_lt, Nat.not_le] at hcovers
    rcases (hshared.missing hmissing).2.2 with hended | ⟨hprocess, -⟩
    · omega
    · exact ⟨hprocess, hcovers.2 hprocess⟩
  refine h.write hs.cutoff (hs.known hlive) (by simp [hplain]) (fun _ e he _ => (hcovered e he).2) {
    cutoff := hs.cutoff, ahead := by simp, anchored := by simp [Phase.early],
    early := by simp [Phase.early], unasked := by simp, known := ?_, rows := ?_, live := by simp,
    items := ?_ }
  · exact fun _ => (hs.known hlive).write (by simp [hplain])
  · rintro rest ⟨⟩
    refine Or.inr {
      missing := fun e he => ⟨(hcovered e he).1, fun hle => ?_⟩, logged := List.nil_sublist _,
      cutoff_le := by simp, later := by simp }
    exact absurd hle (Nat.not_le.mpr (hcovered e he).2)
  · intro hopen
    obtain ⟨before, after, hitems⟩ := hs.items hopen
    exact ⟨before, after, { hitems with cutoff := fun _ => hitems.cutoff hlive, live := by simp }⟩

/-- A frame with the event of its number leaves no such event missing. -/
lemma Shared.sequence_ne (hshared : Shared server s) {sequence : Nat} {n : Notice} {body : Fields}
    {id : Nat × Nat} (hlog : (sequence, Event.notice n) ∈ s.log)
    (hbody : project server (.notice n) = .ok body ∨ isResync body = true)
    (he : e ∈ (s.write stream id ⟨sequence, 0, body⟩).missing server)
    (hprocess : e.process = s.process) : e.sequence ≠ sequence := by
  rintro rfl
  obtain ⟨hmissing, hdelivers, hcovers⟩ := System.missing_write he
  have hevent : e.event = .notice n := by
    rcases (hshared.missing hmissing).2.2 with hended | ⟨-, helog⟩
    · omega
    · exact hshared.bus.numbered.unique helog hlog
  rcases hbody with hproject | hresync
  · simp [Frame.delivers, hprocess, hevent, hproject, Except.toOption] at hdelivers
  · simp [Frame.covers, hresync, hprocess] at hcovers

/-- A frame of the bus replay with an event of the log. -/
lemma EventInv.row (hshared : Shared server s) (h : EventInv server s)
    (hs : StreamEvents server s stream) {sequence : Nat} {n : Notice} {rest : List (Nat × Event)}
    (hphase : stream.phase = .rows ((sequence, .notice n) :: rest))
    (hrest : RowsLeft server s stream.subscription.cutoff ((sequence, .notice n) :: rest))
    {body : Fields} (hbody : project server (.notice n) = .ok body ∨ isResync body = true) :
    EventInv server (s.write { stream with phase := .rows rest, ahead := false }
      (sequence, stream.commitCursor) ⟨sequence, 0, body⟩) := by
  have hlive : stream.phase ≠ .live := by simp [hphase]
  have hlog : (sequence, Event.notice n) ∈ s.log := hrest.logged.subset List.mem_cons_self
  have hcutoff : sequence ≤ stream.subscription.cutoff := hrest.cutoff_le _ List.mem_cons_self
  have hsorted := hshared.bus.numbered.pairwise.sublist hrest.logged
  rw [List.pairwise_cons] at hsorted
  have hbefore := hrest.later _ List.mem_cons_self
  have hleft : ∀ e ∈ (s.write { stream with phase := .rows rest, ahead := false }
      (sequence, stream.commitCursor) ⟨sequence, 0, body⟩).missing server,
      e.process = s.process ∧
        (e.sequence ≤ stream.subscription.cutoff → (e.sequence, e.event) ∈ rest) := by
    intro e he
    obtain ⟨hprocess, hmem⟩ := hrest.missing e (System.missing_write he).1
    refine ⟨hprocess, fun hle => (List.mem_cons.mp (hmem hle)).resolve_left fun heq => ?_⟩
    exact hshared.sequence_ne hlog hbody he hprocess (Prod.ext_iff.mp heq).1
  refine h.write (hcutoff.trans hs.cutoff)
    (fun f hf hplain hprocess => Nat.le_of_lt (hbefore f hf hplain hprocess))
    (fun _ => ⟨Nat.le_refl _, hbefore⟩) ?_ {
    cutoff := hs.cutoff, ahead := by simp, anchored := by simp [Phase.early],
    early := by simp [Phase.early], unasked := by simp, known := ?_, rows := ?_, live := by simp,
    items := ?_ }
  · intro _ e he hprocess
    rcases Nat.lt_or_ge stream.subscription.cutoff e.sequence with hlt | hle
    · exact Nat.lt_of_le_of_lt hcutoff hlt
    · exact hsorted.1 _ ((hleft e he).2 hle)
  · exact fun _ => (hs.known hlive).write fun _ => hcutoff
  · rintro rest' ⟨⟩
    refine Or.inr {
      missing := hleft, logged := (List.sublist_cons_self _ _).trans hrest.logged,
      cutoff_le := fun row hrow => hrest.cutoff_le row (List.mem_cons_of_mem _ hrow),
      later := fun row hrow f hf hplain hprocess => ?_ }
    rcases List.mem_append.mp hf with hold | hlast
    · exact hrest.later row (List.mem_cons_of_mem _ hrow) f hold hplain hprocess
    · rw [List.mem_singleton.mp hlast]
      exact hsorted.1 row hrow
  · intro hopen
    obtain ⟨before, after, hitems⟩ := hs.items hopen
    exact ⟨before, after, { hitems with cutoff := fun _ => hitems.cutoff hlive, live := by simp }⟩

/-! ### Items -/

/-- The first item of an open live subscription. -/
structure FirstItem (server : Server) (s : System) (item : EncodedEvent) (items : List EncodedEvent)
    (before : List (Nat × Event)) (row : Nat × Event) (after : List (Nat × Event)) : Prop where
  log : s.log = before ++ row :: after
  item : itemOf server row = some item
  items : items = after.filterMap (itemOf server)
  encodes : ∀ row ∈ after, (publicPayload server row.2).isSome = true →
    (itemOf server row).isSome = true
  later : ∀ f ∈ s.client.received, f.plain = true → f.process = s.process →
    f.encoded.sequence < row.1
  missing : ∀ e ∈ s.missing server, (e.sequence, e.event) = row ∨ (e.sequence, e.event) ∈ after

lemma StreamEvents.first (hshared : Shared server s) (hs : StreamEvents server s stream)
    (hphase : stream.phase = .live) (hopen : stream.subscription.closed = false)
    {item : EncodedEvent} {items : List EncodedEvent}
    (hitems : stream.subscription.items = item :: items) :
    ∃ before row after, FirstItem server s item items before row after := by
  obtain ⟨before, suffix, hleft⟩ := hs.items hopen
  obtain ⟨hplain, hmissing⟩ := hleft.live hphase
  have hfirst := hleft.items
  rw [hitems] at hfirst
  obtain ⟨skipped, row, after, rfl, hskipped, hitem, hafter⟩ :=
    List.filterMap_eq_cons_iff.mp hfirst.symm
  have hnumbered := hshared.bus.numbered
  rw [hleft.log] at hnumbered
  refine ⟨before ++ skipped, row, after, {
    log := by rw [hleft.log, List.append_assoc]
    item := hitem
    items := hafter.symm
    encodes := fun row' hrow' => hleft.encodes row' (by simp [hrow'])
    later := ?_, missing := ?_ }⟩
  · intro f hf hplain' hprocess
    have hlt := hnumbered.right (k := row.1) (a := row.2) (by simp)
    exact Nat.lt_of_le_of_lt (hplain f hf hplain' hprocess) hlt
  · intro e he
    obtain ⟨-, hpublic, -⟩ := hshared.missing he
    rcases List.mem_append.mp (hmissing e he) with hmem | hmem
    · have hsome := hleft.encodes _ (List.mem_append_left _ hmem) hpublic
      rw [hskipped _ hmem] at hsome
      cases hsome
    · exact List.mem_cons.mp hmem

/-- After the first item, the others are left. -/
lemma FirstItem.rest (hshared : Shared server s) {item : EncodedEvent} {items : List EncodedEvent}
    {before after : List (Nat × Event)} {row : Nat × Event} {stream' : Stream}
    (h : FirstItem server s item items before row after) (hlog : s'.log = s.log)
    (hphase : stream'.phase = .live) (hitems : stream'.subscription.items = items)
    (hplain : s'.PlainUpTo row.1)
    (hmissing : ∀ e ∈ s'.missing server, (e.sequence, e.event) ∈ after) :
    ItemsLeft server s' stream' (before ++ [row]) after where
  log := by rw [hlog, h.log, List.append_assoc]; rfl
  items := hitems.trans h.items
  encodes := h.encodes
  cutoff := fun hne => absurd hphase hne
  live := by
    refine fun _ => ⟨hplain.mono ?_, hmissing⟩
    have hnumbered := hshared.bus.numbered
    rw [h.log, ← List.singleton_append, ← List.append_assoc] at hnumbered
    exact (hnumbered.left.bounds (k := row.1) (a := row.2) (by simp)).2

/-- An item with a commit that the client has is none that it misses. -/
lemma StreamEvents.skipItem (hshared : Shared server s) (hs : StreamEvents server s stream)
    (hphase : stream.phase = .live) (hopen : stream.subscription.closed = false)
    {item : EncodedEvent} (items : List EncodedEvent) (bytes : Nat)
    (hitems : stream.subscription.items = item :: items) (hcommit : item.commitSeq ≠ 0) :
    StreamEvents server s { stream with
      subscription := { stream.subscription with items, bytes } } :=
  { hs with
    items := by
      intro _
      obtain ⟨before, row, after, hfirst⟩ := hs.first hshared hphase hopen hitems
      refine ⟨before ++ [row], after, hfirst.rest hshared rfl hphase rfl ?_ ?_⟩
      · exact fun f hf hplain hprocess => Nat.le_of_lt (hfirst.later f hf hplain hprocess)
      · intro e he
        refine (hfirst.missing e he).resolve_left fun heq => hcommit ?_
        obtain ⟨body, -, rfl⟩ := Option.map_eq_some_iff.mp hfirst.item
        have hnotice := (hshared.missing he).1
        rw [← heq]
        cases hevent : e.event with
        | durableCommit r => simp [hevent, Event.isNotice] at hnotice
        | notice n => rfl }

/-- A frame with the first item. -/
lemma EventInv.item (hshared : Shared server s) (h : EventInv server s)
    (hs : StreamEvents server s stream) (hphase : stream.phase = .live)
    (hopen : stream.subscription.closed = false) {item : EncodedEvent} {items : List EncodedEvent}
    {bytes commitCursor : Nat} (hitems : stream.subscription.items = item :: items) :
    EventInv server (s.write { stream with
        subscription := { stream.subscription with items, bytes }, commitCursor, ahead := false }
      (item.sequence, commitCursor) item) := by
  obtain ⟨before, row, after, hfirst⟩ := hs.first hshared hphase hopen hitems
  obtain ⟨body, hproject, hitem⟩ := Option.map_eq_some_iff.mp hfirst.item
  obtain ⟨sequence, event⟩ := row
  have hlog : (sequence, event) ∈ s.log := by rw [hfirst.log]; simp
  have hsequence : item.sequence = sequence := by rw [← hitem]
  have hbody : project server event = .ok body := by
    cases hfound : project server event with
    | error err => simp [hfound, Except.toOption] at hproject
    | ok found => simpa [hfound, Except.toOption] using hproject
  have hnumbered := hshared.bus.numbered
  rw [hfirst.log] at hnumbered
  have hsorted := (List.pairwise_cons.mp (List.pairwise_append.mp hnumbered.pairwise).2.1).1
  have hmissing : ∀ e ∈ (s.write { stream with
        subscription := { stream.subscription with items, bytes }, commitCursor, ahead := false }
      (item.sequence, commitCursor) item).missing server, (e.sequence, e.event) ∈ after := by
    intro e he
    have hold := (System.missing_write he).1
    refine (hfirst.missing e hold).resolve_left fun heq => ?_
    obtain ⟨heseq, hevent⟩ : e.sequence = sequence ∧ e.event = event := Prod.ext_iff.mp heq
    have hnotice := (hshared.missing hold).1
    cases event with
    | durableCommit r => simp [hevent, Event.isNotice] at hnotice
    | notice n =>
      rw [← hitem] at he
      exact hshared.sequence_ne hlog (Or.inl hbody) he (hs.live hphase e hold).1 heseq
  have hlater : ∀ e ∈ (s.write { stream with
        subscription := { stream.subscription with items, bytes }, commitCursor, ahead := false }
      (item.sequence, commitCursor) item).missing server, item.sequence < e.sequence := by
    intro e he
    rw [hsequence]
    exact hsorted _ (hmissing e he)
  have hbefore : s.PlainUpTo sequence := fun f hf hplain hprocess =>
    Nat.le_of_lt (hfirst.later f hf hplain hprocess)
  refine h.write ?_ (hsequence ▸ hbefore) ?_ (fun _ e he _ => hlater e he) {
    cutoff := hs.cutoff, ahead := by simp, anchored := by simp [hphase, Phase.early],
    early := by simp [hphase, Phase.early], unasked := by simp [hphase], known := ?_,
    rows := by simp [hphase], live := ?_, items := ?_ }
  · rw [hsequence, hshared.bus.sequence]
    exact (hshared.bus.numbered.bounds hlog).2
  · refine fun _ => ⟨Nat.le_refl _, ?_⟩
    rw [hsequence]
    exact hfirst.later
  · exact fun hne => absurd hphase hne
  · exact fun _ e he => hs.live hphase e (System.missing_write he).1
  · intro _
    exact ⟨before ++ [(sequence, event)], after, hfirst.rest hshared rfl hphase rfl
      (hbefore.write fun _ => Nat.le_of_eq hsequence) hmissing⟩

end Events

end Codey
