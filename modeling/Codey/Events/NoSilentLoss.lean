import Codey.Events.EventTurns
import Codey.Lib.Steps

/-!
# No silent loss

In a run of careful steps the client receives the commits after its starting cursor in order and
each once, and every public event since it first connected once, or a marker that covers it. In
other runs an event may be lost: a frame of the commit replay carries the cutoff of the subscription
as its event cursor, before the events up to the cutoff are replayed.
-/

namespace Codey

namespace Events

variable {server : Server} {s s' : System} {stream : Stream}

/-! ### Steps -/

structure Inv (server : Server) (s : System) : Prop where
  shared : Shared server s
  commits : CommitInv server s
  events : EventInv server s

lemma Shared.initial : Shared server .initial where
  bus := .empty
  feed := rfl
  numbered := rfl
  logged := by simp [System.initial]
  awaiting := List.Sublist.refl _
  past := by simp [System.initial]
  cache := by simp [System.initial, Feed.empty, Feed.Sound]

lemma Shared.commit (h : Shared server s) {r : CommitRecord}
    (hr : r.sequence = s.commits.length + 1) :
    Shared server { s with commits := s.commits ++ [r], awaiting := s.awaiting ++ [r] } :=
  { h with
    numbered := by
      rw [List.map_append, h.numbered, List.length_append, List.length_singleton,
        List.range'_concat, List.map_singleton, hr, Nat.one_mul, Nat.add_comm 1]
    logged := fun k found hfound => List.mem_append_left _ (h.logged k found hfound)
    awaiting := h.awaiting.append (List.Sublist.refl _)
    cache := h.cache.mono fun key body => System.CacheFits.mono (List.Subset.refl _)
      (List.subset_append_left _ _) (Nat.le_refl _) }

lemma Shared.restart (h : Shared server s) :
    Shared server { s with
      awaiting := [], process := s.process + 1, bus := .empty, feed := .empty, company := false,
      past := s.emissions, log := [], client := { s.client with stream := none } } where
  bus := .empty
  feed := rfl
  numbered := h.numbered
  logged := by simp
  awaiting := List.nil_sublist _
  past := by
    intro e he
    rcases h.emission he with hlt | ⟨heq, -⟩
    · exact Nat.lt_succ_of_lt hlt
    · exact Nat.lt_succ_of_le (Nat.le_of_eq heq)
  cache := by simp [Feed.empty, Feed.Sound]

lemma Shared.replayable_marker (h : Shared server s) {marker : Notice} {sequence : Nat}
    (htype : marker.type = resyncType) (hle : sequence ≤ s.bus.sequence) :
    s.replayable sequence (.notice marker) = true := by
  simp [System.replayable, htype, h.feed, hle]

lemma Inv.turn (h : Inv server s) (hstream : s.client.stream = some stream)
    (hcareful : s.TurnCareful server stream) (hturn : Turn server s stream s') : Inv server s' := by
  have hcommits := h.commits.turn h.shared hstream hcareful.1 hturn
  have hs := h.events.stream stream hstream
  have hsc := h.commits.stream stream hstream
  cases hturn with
  | hello hphase =>
    refine ⟨{ h.shared with }, hcommits, h.events.client hstream (by rfl) ?_⟩
    by_cases hrequested : stream.requested = true
    · rw [if_pos hrequested]
      exact hs.keepEarly (by simp [hphase, Phase.early]) (by rfl) (by simp)
    · rw [if_neg hrequested]
      exact hs.goLive h.shared (by simp [hphase]) (hs.unasked hphase (by simpa using hrequested))
  | bound hphase =>
    exact ⟨{ h.shared with }, hcommits, h.events.client hstream (by rfl)
      (hs.keepEarly (by simp [hphase, Phase.early]) (by rfl) (by simp))⟩
  | page cutoff hphase hcursor =>
    exact ⟨{ h.shared with }, hcommits, h.events.client hstream (by rfl)
      (hs.keepEarly (by simp [hphase, Phase.early]) (by rfl) (by simp))⟩
  | replayed cutoff page hphase hend =>
    exact ⟨{ h.shared with }, hcommits, h.events.client hstream (by rfl)
      (hs.keepEarly (by simp [hphase, Phase.early]) (by rfl) (by simp))⟩
  | record cutoff r page body feed hphase hcutoff hencode =>
    have hr : r ∈ s.commits := (hsc.records cutoff _ hphase).2.2.2 r List.mem_cons_self
    have hshared := (h.shared.encode 0 (Shared.replayable_commit hr) hencode).1
    refine ⟨{ hshared with }, hcommits, ?_⟩
    exact EventInv.record (s := { s with feed }) h.events.elsewhere
      (h.events.elsewhere.stream stream hstream) (by simp [hphase, Phase.early])
      (Nat.ne_of_gt (h.shared.bounds hr).1)
  | asked hphase =>
    exact ⟨{ h.shared with }, hcommits, h.events.client hstream (by rfl)
      (hs.asked h.shared hphase (hcareful.2.1 hphase))⟩
  | caughtUp hphase =>
    refine ⟨{ h.shared with }, hcommits, h.events.client hstream (by rfl)
      (hs.goLive h.shared (by simp [hphase]) fun e he => ?_)⟩
    obtain ⟨marker, hmarker, -⟩ | hrest := hs.rows [] hphase
    · cases hmarker
    · obtain ⟨hprocess, hleft⟩ := hrest.missing e he
      exact ⟨hprocess, Nat.lt_of_not_le fun hle => by cases hleft hle⟩
  | skipRow sequence event rest hphase hskip =>
    exact ⟨{ h.shared with }, hcommits, h.events.client hstream (by rfl)
      (hs.skipRow h.shared hphase hskip)⟩
  | row sequence event rest body feed hphase hpast hencode =>
    cases event with
    | durableCommit r =>
      exact absurd (hpast r rfl) (Nat.not_lt.mpr (hsc.rows _ hphase sequence r List.mem_cons_self))
    | notice n =>
      rcases hs.rows _ hphase with ⟨marker, heq, htype⟩ | hrest
      · obtain ⟨hrow, rfl⟩ := List.cons.inj heq
        obtain ⟨rfl, hn⟩ := Prod.ext_iff.mp hrow
        obtain rfl : n = marker := by simpa using hn
        have hresync : isResync body = true := by
          rcases Feed.encode_ok hencode with hcached | ⟨-, hproject⟩
          · exact hcareful.2.2 (stream.subscription.cutoff, .notice n)
              (by simp [Stream.nextRow, hphase]) htype body hcached
          · exact isResync_of_project (.notice n) htype hproject
        have hshared := (h.shared.encode _ (h.shared.replayable_marker htype hs.cutoff) hencode).1
        exact ⟨{ hshared with }, hcommits, EventInv.marker (s := { s with feed }) { hshared with }
          h.events.elsewhere (h.events.elsewhere.stream stream hstream) hphase hresync⟩
      · have hlog : (sequence, Event.notice n) ∈ s.log := hrest.logged.subset List.mem_cons_self
        obtain ⟨hshared, hfits⟩ := h.shared.encode _ (by simp [System.replayable, hlog]) hencode
        exact ⟨{ hshared with }, hcommits, EventInv.row (s := { s with feed }) { hshared with }
          h.events.elsewhere (h.events.elsewhere.stream stream hstream) hphase { hrest with }
          (h.shared.project_notice hlog hfits)⟩
  | idle hphase => exact h
  | skipItem item items bytes hphase hopen hitems hskip =>
    exact ⟨{ h.shared with }, hcommits, h.events.client hstream (by rfl)
      (hs.skipItem h.shared hphase hopen items bytes hitems hskip.1)⟩
  | item item items bytes hphase hopen hitems hpast =>
    exact ⟨{ h.shared with }, hcommits, h.events.item h.shared hs hphase hopen hitems⟩

/-- The step lemma. -/
lemma Inv.step (h : Inv server s) {action : Action} (hcareful : Careful server s action)
    (hstep : step server s action = some s') : Inv server s' := by
  cases action with
  | commit kind committedAt payload =>
    obtain rfl := Option.some.inj hstep
    have hr : s.commitSequence + 1 = s.commits.length + 1 := by rw [h.shared.commitSequence_eq]
    exact ⟨h.shared.commit hr, h.commits.commit hr, h.events.elsewhere⟩
  | publish sequence =>
    obtain ⟨r, hfind, rfl⟩ := Option.map_eq_some_iff.mp hstep
    have hr : r ∈ s.awaiting := List.mem_of_find?_eq_some hfind
    obtain rfl : r.sequence = sequence := by simpa using List.find?_some hfind
    have hshared : Shared server
        { s with awaiting := s.awaiting.filter (·.sequence ≠ r.sequence) } :=
      { h.shared with awaiting := List.filter_sublist.trans h.shared.awaiting }
    have hemitted := hshared.emitted (.durableCommit r) (by
      rintro found ⟨⟩
      exact h.shared.awaiting.subset hr)
    exact ⟨hemitted.shared, h.commits.emitted h.shared (Or.inr ⟨r, hr, rfl, hcareful, rfl⟩) hemitted,
      h.events.emitted hemitted⟩
  | emit notice =>
    obtain rfl := Option.some.inj hstep
    have hemitted : Emitted server (.notice notice) { s with awaiting := s.awaiting }
        (s.emit server (.notice notice)) := h.shared.emitted (.notice notice) (by simp)
    exact ⟨hemitted.shared,
      h.commits.emitted h.shared (Or.inl ⟨rfl, rfl⟩) hemitted,
      h.events.emitted hemitted⟩
  | company present =>
    obtain rfl := Option.some.inj hstep
    exact ⟨{ h.shared with }, h.commits.elsewhere, h.events.elsewhere⟩
  | encodeElsewhere sequence event =>
    simp only [Events.step] at hstep
    split at hstep
    · rename_i hcan
      split at hstep
      · exact Option.some.inj hstep ▸ h
      · rename_i body feed hencode
        exact Option.some.inj hstep ▸
          ⟨(h.shared.encode _ hcan hencode).1, h.commits.elsewhere, h.events.elsewhere⟩
    · cases hstep
  | connect query =>
    simp only [Events.step, Option.isNone_iff_eq_none] at hstep
    split at hstep
    · rename_i hnone
      exact Option.some.inj hstep ▸ ⟨{ h.shared with }, h.commits.connect h.shared hcareful,
        h.events.connect h.shared hnone hcareful⟩
    · cases hstep
  | advance =>
    obtain ⟨stream, hstream, hadvance⟩ := Option.bind_eq_some_iff.mp hstep
    exact h.turn hstream (hcareful stream hstream) (.of_advance hadvance)
  | drop =>
    simp only [Events.step] at hstep
    split at hstep
    · exact Option.some.inj hstep ▸
        ⟨{ h.shared with }, h.commits.without_stream rfl rfl, h.events.drop hcareful⟩
    · cases hstep
  | restart =>
    obtain rfl := Option.some.inj hstep
    exact ⟨h.shared.restart, h.commits.without_stream rfl rfl, h.events.restart rfl rfl⟩

/-! ### Runs -/

/-- A frame that delivers an event and does not cover it is a frame with the event of its number. -/
lemma Frame.at_of_delivers {f : Frame} {e : Emission} (h : f.delivers server e = true) :
    f.covers e = true ∨ f.at e.process e.sequence = true := by
  simp only [Frame.delivers, Bool.and_eq_true, decide_eq_true_eq] at h
  obtain ⟨⟨⟨hprocess, hsequence⟩, hcommit⟩, -⟩ := h
  cases hresync : isResync f.encoded.body with
  | true => exact Or.inl (by simp [Frame.covers, hresync, hprocess, hsequence])
  | false => exact Or.inr (by simp [Frame.at, Frame.plain, hresync, hprocess, hsequence, hcommit])

lemma Inv.delivered_once (h : Inv server s) (e : Emission) :
    s.client.received.countP (·.delivers server e) ≤ 1 ∨
      s.client.received.any (·.covers e) = true := by
  by_cases hcovered : s.client.received.any (·.covers e) = true
  · exact Or.inr hcovered
  · refine Or.inl (le_trans (List.countP_mono_left fun f hf hdelivers => ?_)
      (h.events.once e.process e.sequence))
    refine (Frame.at_of_delivers hdelivers).resolve_left fun hcovers => hcovered ?_
    exact List.any_eq_true.mpr ⟨f, hf, hcovers⟩

lemma Inv.losesNothing (h : Inv server s) : LosesNothing server s where
  commits := by
    obtain ⟨count, hcommits, -⟩ := h.commits.received
    exact ⟨count, hcommits⟩
  bodies := fun f hf => h.commits.bodies f hf
  once := fun e _ => h.delivered_once e
  events := by
    intro stream hstream hphase hopen e he
    have hs := h.events.stream stream hstream
    by_cases hmissing : e ∈ s.missing server
    · obtain ⟨before, after, hitems⟩ := hs.items hopen
      have hafter := (hitems.live hphase).2 e hmissing
      obtain ⟨item, hitem⟩ := Option.isSome_iff_exists.mp
        (hitems.encodes _ hafter (h.shared.missing hmissing).2.1)
      refine Or.inr (Or.inr ⟨(hs.live hphase e hmissing).1, item, ?_, ?_⟩)
      · rw [hitems.items]
        exact List.mem_filterMap.mpr ⟨_, hafter, hitem⟩
      · obtain ⟨body, -, rfl⟩ := Option.map_eq_some_iff.mp hitem
        rfl
    · have hsome : ∃ f ∈ s.client.received, f.delivers server e = true ∨ f.covers e = true := by
        by_contra hnone
        refine hmissing (System.mem_missing.mpr ⟨he, fun f hf => ?_⟩)
        simpa using fun hdone => hnone ⟨f, hf, hdone⟩
      obtain ⟨f, hf, hdelivers | hcovers⟩ := hsome
      · rcases h.delivered_once e with hle | hcovered
        · have hpos : 0 < s.client.received.countP (·.delivers server e) :=
            List.countP_pos_iff.mpr ⟨f, hf, hdelivers⟩
          exact Or.inl (le_antisymm hle hpos)
        · exact Or.inr (Or.inl hcovered)
      · exact Or.inr (Or.inl (List.any_eq_true.mpr ⟨f, hf, hcovers⟩))
  records := by
    intro stream hstream hphase hopen r hr hstart
    have hs := h.commits.stream stream hstream
    obtain ⟨count, hcommits, hposition⟩ := h.commits.received
    have hcovered : stream.coverage s.commits.length = s.client.position := by
      rw [← (hs.cursor (by simp [hphase])).2]
      simp [Stream.coverage, hphase]
    rcases Nat.lt_or_ge s.client.position r.sequence with hlt | hle
    · have hqueued := hs.queued hopen
      rw [hcovered] at hqueued
      rcases List.mem_append.mp (hqueued.mem hlt (h.shared.bounds hr).2) with hitem | hawaits
      · obtain ⟨item, hitem, heq⟩ := List.mem_map.mp hitem
        exact Or.inr (Or.inr ⟨item, hitem, heq⟩)
      · obtain ⟨r', hr', heq⟩ := List.mem_map.mp hawaits
        exact Or.inr (Or.inl (h.shared.unique (h.shared.awaiting.subset hr') hr heq ▸ hr'))
    · refine Or.inl ?_
      rw [hcommits, List.mem_range'_1]
      omega

/-- In every state of a run of careful steps nothing is lost silently. -/
theorem stream_loses_nothing (h : Steps.Reach (step server) (Careful server) .initial s) :
    LosesNothing server s := by
  have hinv : Inv server s :=
    h.invariant ⟨.initial, .initial, .initial⟩ fun _ _ _ hinv hcareful hstep =>
      hinv.step hcareful hstep
  exact hinv.losesNothing

def System.drained (s : System) : Bool :=
  s.client.stream.any fun stream =>
    stream.phase = .live && !stream.subscription.closed && stream.subscription.items.isEmpty

/-- When nothing is lost, a client that has read everything misses nothing. -/
lemma LosesNothing.missing_eq_nil (h : LosesNothing server s) (hdrained : s.drained = true) :
    s.missing server = [] := by
  obtain ⟨stream, hstream, hdrained⟩ := (Option.any_eq_true _ _).mp hdrained
  simp only [Bool.and_eq_true, decide_eq_true_eq, Bool.not_eq_true', List.isEmpty_iff] at hdrained
  obtain ⟨⟨hphase, hopen⟩, hitems⟩ := hdrained
  refine List.eq_nil_iff_forall_not_mem.mpr fun e he => ?_
  obtain ⟨hdue, hframes⟩ := System.mem_missing.mp he
  rcases h.events stream hstream hphase hopen e hdue with honce | hcovered | ⟨-, item, hitem, -⟩
  · obtain ⟨f, hf, hdelivers⟩ := List.countP_pos_iff.mp (honce ▸ Nat.one_pos)
    exact absurd hdelivers (by simp [(hframes f hf).1])
  · obtain ⟨f, hf, hcovers⟩ := List.any_eq_true.mp hcovered
    exact absurd hcovers (by simp [(hframes f hf).2])
  · rw [hitems] at hitem
    cases hitem

/-! ### A lost event -/

/-- A server whose events encode to a few bytes. -/
def plainServer : Server := ⟨"d", id, fun _ => some 2⟩

def replyNotice : Notice := ⟨"reply", [("text", .str "done")], by decide⟩

/-- A client that names the database. -/
def plainQuery : Query := ⟨(0, 0), 0, "d"⟩

/-- The turns of a stream up to the live loop, when there is nothing to replay. -/
def goLive : List Action := List.replicate 5 .advance

/-- A reply and a commit are missed; the connection is lost again after the frame of the commit. -/
def lostRun : List Action :=
  [.connect plainQuery] ++ goLive ++
    [.drop, .emit replyNotice, .commit "append" "t" [], .publish 1, .connect plainQuery, .advance,
      .advance, .advance, .advance, .drop, .connect plainQuery] ++ goLive

/-- The client is connected and has read everything, but never gets the reply. -/
theorem reply_lost : ∃ s, Steps.Reach (step plainServer) (fun _ _ => True) .initial s ∧
    ¬ LosesNothing plainServer s := by
  have hrun : ∃ s, Steps.Reach (step plainServer) (fun _ _ => True) .initial s ∧
      s.drained = true ∧ (s.missing plainServer).isEmpty = false :=
    Steps.Reach.exists_of_run lostRun (by decide +kernel)
  obtain ⟨s, hs, hdrained, hmissing⟩ := hrun
  refine ⟨s, hs, fun h => ?_⟩
  rw [h.missing_eq_nil hdrained] at hmissing
  cases hmissing

/-- The same reply and commit, with the connection lost after the frame of the reply. -/
def carefulRun : List Action :=
  [.connect plainQuery] ++ goLive ++
    [.drop, .emit replyNotice, .commit "append" "t" [], .publish 1, .connect plainQuery, .advance,
      .advance, .advance, .advance, .advance, .advance, .advance, .drop, .connect plainQuery] ++
        goLive

theorem stream_loses_nothing_sample :
    ∃ s, s.client.received.length = 2 ∧ LosesNothing plainServer s := by
  have hrun : ∃ s, Steps.Reach (step plainServer) (Careful plainServer) .initial s ∧
      s.client.received.length = 2 := Steps.Reach.exists_of_run carefulRun (by decide +kernel)
  obtain ⟨s, hs, hlength⟩ := hrun
  exact ⟨s, hlength, stream_loses_nothing hs⟩

end Events

end Codey
