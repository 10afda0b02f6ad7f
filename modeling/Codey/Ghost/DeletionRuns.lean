import Codey.Ghost.DeletionManifest

/-!
# Runs of a deletion

The durable owner of manifests, as far as one operation goes, and the coordinator that applies an
operation to its targets. A run is resumed after a crash by another run with the same manifest.
Every run resumes the operation exactly when the texts of the operation are those that it was
requested with, and stay as they are when they are read back.
-/

namespace Codey

namespace Deletion

/-! ### The store -/

structure Record where
  row : Manifest
  events : List Event

def sameIdentity (first second : Manifest) : Bool :=
  first.operationId = second.operationId && first.action = second.action &&
    first.scope = second.scope && first.project = second.project &&
    first.sessionId = second.sessionId && first.requestedAt = second.requestedAt &&
    first.retentionClass = second.retentionClass &&
    first.tombstoneDigest = second.tombstoneDigest &&
    first.stores.map (·.store) = second.stores.map (·.store)

def replayUnlocked (r : Record) : Except String Manifest := do
  let m ← replay r.events
  let stored ← fromPayload r.row
  require (stored = m) "stored manifest disagrees with its event stream"
  return m

def start (m : Manifest) : Option Record → Except String (Record × Manifest)
  | some r => do
    let current ← fromPayload r.row
    require (sameIdentity current m) "operation id already names a different manifest"
    let replayed ← replayUnlocked r
    return (r, replayed)
  | none => .ok (⟨m, [startedEvent m]⟩, m)

def append (event : Event) (r : Record) : Except String (Record × Manifest) := do
  require (stripped event.operationId ≠ "") "manifest event operation_id is required"
  let m ← replayUnlocked r
  require (stripped event.eventId ≠ "") "manifest event event_id is required"
  match r.events.find? (·.eventId = event.eventId) with
  | some existing =>
    if existing = event then return (r, m) else .error "manifest event identity conflict"
  | none =>
    let updated ← replay (r.events ++ [event])
    return (⟨updated, r.events ++ [event]⟩, updated)

/-! ### The coordinator -/

def ghostStoreNames : List String :=
  ["inbox", "hebbian", "continuity", "sleep", "work_queue", "affinity", "observations"]

def freshStores : List StoreStatus := ghostStoreNames.map fun name => ⟨name, .pending, ""⟩

/-- The names of the stores are read back as they are, and stand apart in the ids of events. -/
lemma plain_freshStores : ∀ s ∈ freshStores, s.Plain ∧ ':' ∉ s.store.toList := by
  unfold StoreStatus.Plain
  decide +kernel

/-- What a target does: it returns what can be recorded, or it fails (also when what it returns
cannot be recorded), or it fails with a text that no database takes. -/
inductive Outcome where
  | returned (detail : String)
  | failed (detail : String)
  | unwritable
  deriving DecidableEq

/-- What the targets do in one run, and how many durable steps it makes before the process dies. -/
structure Attempt where
  outcomes : String → Outcome
  steps : Nat

/-- What a target is called with; `reset_all` is called with nothing. -/
structure Request where
  scope : String
  project : String
  sessionId : String
  deriving DecidableEq

structure TargetCall where
  store : String
  request : Option Request
  returned : Bool
  deriving DecidableEq

def Manifest.request (m : Manifest) : Option Request :=
  if m.action = "reset_all" then none else some ⟨m.scope, m.project, m.sessionId⟩

inductive Ending where
  | returned (m : Manifest)
  | raised (error : String)
  | crashed

structure World where
  db : Option Record := none
  calls : List TargetCall := []

def clip (detail : String) : String := String.ofList (detail.toList.take maxText)

def transition (r : Record) (current : Manifest) (name : String) (status : StoreState)
    (detail : String) : Except String (Record × Manifest) :=
  storeEvent current name status detail >>= fun event => append event r

/-- The branch behind an exception. -/
def block (r : Record) (calls : List TargetCall) (current : Manifest) (name detail : String) :
    World × Ending :=
  match transition r current name .blocked (clip detail) with
  | .ok (r', m) => (⟨some r', calls⟩, .returned m)
  | .error e => (⟨some r, calls⟩, .raised e)

/-- The loop of `run` over the pending stores. -/
def runStores (a : Attempt) : List String → Nat → Manifest → Record → List TargetCall →
    World × Ending
  | [], _, current, r, calls => (⟨some r, calls⟩, .returned current)
  | _ :: _, 0, _, r, calls => (⟨some r, calls⟩, .crashed)
  | name :: names, steps + 1, current, r, calls =>
    let calls' := calls ++ [⟨name, current.request,
      match a.outcomes name with
      | .returned _ => true
      | .failed _ | .unwritable => false⟩]
    match steps with
    | 0 => (⟨some r, calls'⟩, .crashed)
    | steps + 1 =>
      match a.outcomes name with
      | .returned detail =>
        match transition r current name .completed (clip detail) with
        | .ok (r', current') => runStores a names steps current' r' calls'
        | .error e => block r calls' current name ("DeletionManifestError: " ++ e)
      | .failed detail => block r calls' current name detail
      | .unwritable => (⟨some r, calls'⟩, .raised "UnicodeEncodeError")

def run (m : Manifest) (w : World) (a : Attempt) : World × Ending :=
  match a.steps with
  | 0 => (w, .crashed)
  | steps + 1 =>
    match start m w.db with
    | .error e => (w, .raised e)
    | .ok (r, current) => runStores a current.pendingStores steps current r w.calls

/-! ### What is claimed of a run -/

def World.state? (w : World) (name : String) : Option StoreState :=
  w.db.bind fun r => r.row.state? name

def World.pending (w : World) : List String :=
  match w.db with
  | none => ghostStoreNames
  | some r => r.row.pendingStores

def Args.request (args : Args) : Option Request :=
  if stripped args.action = "reset_all" then none
  else some ⟨args.scope, args.project, args.sessionId⟩

/-- A run goes on with an operation. -/
structure Resumes (request : Option Request) (w w' : World) (e : Ending) : Prop where
  proceeds : ∀ error, e ≠ .raised error
  /-- It calls the pending stores in their order, up to the first one that fails. -/
  continues : ∃ made, w'.calls = w.calls ++ made ∧ made.map (·.store) <+: w.pending ∧
    (∀ c ∈ made, c.request = request) ∧ ∀ m, e = .returned m →
      made.map (·.store) = w.pending ∨ ∃ c ∈ made.getLast?, c.returned = false
  /-- What is stored is the replay of the events that are stored. -/
  replayed : ∀ r, w'.db = some r → replay r.events = .ok r.row
  reported : ∀ m, e = .returned m → w'.db.map (·.row) = some m
  completed : ∀ r, w'.db = some r → r.row.status = .completed → ∀ name ∈ ghostStoreNames,
    ∃ c ∈ w'.calls, c.store = name ∧ c.returned = true
  settled : ∀ name status, w.state? name = some status → status ≠ .pending →
    w'.state? name = some status
  blocked : ∀ r, w'.db = some r → ∀ name, r.row.state? name = some .blocked →
    r.row.status = .blocked

/-- Every exception of a target has a text that a database takes. -/
def Attempt.Writable (a : Attempt) : Prop := ∀ name, a.outcomes name ≠ .unwritable

/-- The texts of an operation are those that are requested, and are read back as they are. -/
def Args.Exact (args : Args) : Prop :=
  bounded (bounded args.project) = bounded args.project ∧
    bounded (bounded args.sessionId) = bounded args.sessionId ∧
    (stripped args.action ≠ "reset_all" → stripped args.scope = args.scope ∧
      bounded args.project = args.project ∧ bounded args.sessionId = args.sessionId)

section Laws

variable {m : Manifest} {r : Record} {name detail : String} {status : StoreState} {a : Attempt}
  {w : World} {names : List String} {calls : List TargetCall}

/-! ### Ids of events -/

lemma store_of_transitionTail (hname : name ∈ ghostStoreNames) (status : StoreState) :
    ((transitionTail name status).toList.drop 7).takeWhile (· ≠ ':') = name.toList := by
  have hplain : ∀ ch ∈ name.toList, ch ≠ ':' := by
    rintro ch hch rfl
    exact (plain_freshStores _ (List.mem_map_of_mem hname)).2 hch
  have hdrop : (transitionTail name status).toList.drop 7 =
      name.toList ++ ':' :: status.word.toList := by
    simp [transitionTail]
  rw [hdrop, List.takeWhile_append_of_pos fun ch hch => decide_eq_true (hplain ch hch)]
  simp

lemma transitionTail_ne {other : String} {status' : StoreState} (hname : name ∈ ghostStoreNames)
    (hother : other ∈ ghostStoreNames) (hne : name ≠ other) :
    transitionTail name status ≠ transitionTail other status' := by
  intro htail
  have hstore := store_of_transitionTail hname status
  rw [htail, store_of_transitionTail hother status'] at hstore
  exact hne (String.toList_injective hstore).symm

lemma transitionTail_ne_started : transitionTail name status ≠ ":started" := by
  intro htail
  have hlist := congrArg (fun text : String => (text.toList.take 4)) htail
  simp [transitionTail] at hlist

lemma stripped_append_tail (op : String) :
    stripped (op ++ transitionTail name status) ≠ "" := by
  intro hempty
  have hnil : strip (op ++ transitionTail name status).toList = [] := by
    have hlist := congrArg String.toList hempty
    simpa [stripped] using hlist
  have hcolon : ':' ∈ (op ++ transitionTail name status).toList := by
    simp [transitionTail]
  exact absurd (strip_eq_nil_iff.mp hnil ':' hcolon) (by decide)

/-! ### The record of an operation -/

/-- The record of an operation, between any two durable steps. -/
structure Inv (m : Manifest) (r : Record) : Prop where
  wellFormed : r.row.WellFormed
  same : sameIdentity r.row m = true
  names : r.row.stores.map (·.store) = ghostStoreNames
  replays : replay r.events = .ok r.row
  ids : ∀ e ∈ r.events, e.eventId = r.row.operationId ++ ":started" ∨
    ∃ store status, store ∈ ghostStoreNames ∧ r.row.state? store ≠ some .pending ∧
      e.eventId = r.row.operationId ++ transitionTail store status

lemma Inv.replayUnlocked (hinv : Inv m r) : replayUnlocked r = .ok r.row := by
  simp only [Deletion.replayUnlocked, except_bind_eq_ok, require_eq_ok]
  exact ⟨r.row, hinv.replays, r.row, hinv.wellFormed.fromPayload, (), decide_eq_true rfl, rfl⟩

lemma Inv.mem_names (hinv : Inv m r) (hstate : r.row.state? name = some status) :
    name ∈ ghostStoreNames := by
  obtain ⟨item, hitem, -⟩ := Option.map_eq_some_iff.mp hstate
  have hstore : item.store = name := by simpa using List.find?_some hitem
  rw [← hinv.names, ← hstore]
  exact List.mem_map_of_mem (List.mem_of_find?_eq_some hitem)

/-- A transition of a pending store is recorded, and nothing else changes. -/
lemma Inv.transition (hinv : Inv m r) (hpending : r.row.state? name = some .pending)
    (hstatus : status ≠ .pending) (detail : String) :
    ∃ r', transition r r.row name status detail = .ok (r', r'.row) ∧ Inv m r' ∧
      ∀ other, r'.row.state? other =
        if other = name then some status else r.row.state? other := by
  obtain ⟨item, hitem, hitemstatus⟩ := Option.map_eq_some_iff.mp hpending
  have hname := hinv.mem_names hpending
  set e : Event := ⟨r.row.operationId ++ transitionTail name status, r.row.operationId,
    .storeTransition name status (bounded detail)⟩ with he
  have hevent : storeEvent r.row name status detail = .ok e := by
    have hfound : r.row.store name = .ok item := by
      unfold Manifest.store
      rw [hitem]
    simp only [storeEvent, except_bind_eq_ok, require_eq_ok]
    exact ⟨item, hfound, (), decide_eq_true (Or.inl hitemstatus), (), decide_eq_true hstatus, rfl⟩
  have hnew : ∀ x ∈ r.events, x.eventId ≠ e.eventId := by
    intro x hx
    rcases hinv.ids x hx with hid | ⟨store, other, hstore, hstate, hid⟩
    · rw [hid, he, Ne, String.append_right_inj]
      exact transitionTail_ne_started.symm
    · rw [hid, he, Ne, String.append_right_inj]
      apply transitionTail_ne hstore hname
      rintro rfl
      exact hstate hpending
  have hid : stripped e.eventId ≠ "" := stripped_append_tail _
  have hne : e.eventId ≠ "" := by
    intro hempty
    rw [hempty] at hid
    exact hid rfl
  have hreplay := replay_concat hnew hne hinv.replays
  rw [applyStoreEvent_advance hinv.wellFormed hpending hstatus rfl rfl] at hreplay
  set updated := r.row.advance name status (bounded (bounded (bounded detail)))
  have hstate : ∀ other, updated.state? other =
      if other = name then some status else r.row.state? other :=
    state?_advance (by rw [hpending]; rfl)
  have hfind : r.events.find? (·.eventId = e.eventId) = none := by
    simpa using hnew
  refine ⟨⟨updated, r.events ++ [e]⟩, ?_, ?_, hstate⟩
  · simp only [Deletion.transition, except_bind_eq_ok]
    refine ⟨e, hevent, ?_⟩
    simp only [append, except_bind_eq_ok, require_eq_ok]
    refine ⟨(), decide_eq_true hinv.wellFormed.accepted.operationId, r.row, hinv.replayUnlocked, (),
      decide_eq_true hid, ?_⟩
    rw [hfind]
    simp only [except_bind_eq_ok]
    exact ⟨updated, hreplay, rfl⟩
  · refine ⟨hinv.wellFormed.advance name status (bounded_bounded_bounded (bounded detail)), ?_,
      (map_store_advance _ _ _ _).trans hinv.names, hreplay, ?_⟩
    · have hsame := hinv.same
      unfold sameIdentity at hsame ⊢
      rw [map_store_advance]
      exact hsame
    · intro x hx
      rcases List.mem_append.mp hx with hx | hx
      · refine (hinv.ids x hx).imp_right ?_
        rintro ⟨store, other, hstore, hsettled, hid⟩
        refine ⟨store, other, hstore, ?_, hid⟩
        rw [hstate]
        split_ifs
        · simpa using hstatus
        · exact hsettled
      · obtain rfl := List.mem_singleton.mp hx
        refine Or.inr ⟨name, status, hname, ?_, rfl⟩
        rw [hstate, if_pos rfl]
        simpa using hstatus

/-! ### One run -/

lemma Inv.request (hinv : Inv m r) : r.row.request = m.request := by
  have hsame := hinv.same
  simp only [sameIdentity, Bool.and_eq_true, decide_eq_true_eq] at hsame
  obtain ⟨⟨⟨⟨⟨⟨⟨⟨-, haction⟩, hscope⟩, hproject⟩, hsession⟩, -⟩, -⟩, -⟩, -⟩ := hsame
  rw [Manifest.request, Manifest.request, haction, hscope, hproject, hsession]

/-- What the loop over the pending stores has done when it ends. -/
structure Ran (m : Manifest) (names : List String) (r r' : Record) (made : List TargetCall)
    (e : Ending) : Prop where
  inv : Inv m r'
  others : ∀ name, name ∉ names → r'.row.state? name = r.row.state? name
  completed : ∀ name ∈ names, r'.row.state? name = some .completed →
    ∃ c ∈ made, c.store = name ∧ c.returned = true
  inOrder : made.map (·.store) <+: names
  requests : ∀ c ∈ made, c.request = m.request
  proceeds : ∀ error, e ≠ .raised error
  reported : ∀ x, e = .returned x → x = r'.row
  stops : ∀ x, e = .returned x →
    made.map (·.store) = names ∨ ∃ c ∈ made.getLast?, c.returned = false

lemma Ran.crashed (hinv : Inv m r) (hpending : ∀ name ∈ names, r.row.state? name = some .pending)
    {made : List TargetCall} (hmade : made.map (·.store) <+: names)
    (hrequests : ∀ c ∈ made, c.request = m.request) : Ran m names r r made .crashed := by
  refine ⟨hinv, fun _ _ => rfl, fun name hname hstate => ?_, hmade, hrequests, fun _ => nofun,
    fun _ => nofun, fun _ => nofun⟩
  rw [hpending name hname] at hstate
  cases hstate

/-- A target that fails is recorded as blocked, and the run ends. -/
lemma Inv.block (hinv : Inv m r)
    (hpending : ∀ other ∈ name :: names, r.row.state? other = some .pending)
    (calls : List TargetCall) (detail : String) :
    ∃ r', block r calls r.row name detail = (⟨some r', calls⟩, .returned r'.row) ∧
      Ran m (name :: names) r r' [⟨name, r.row.request, false⟩] (.returned r'.row) := by
  obtain ⟨r', htransition, hinv', hstate⟩ := hinv.transition
    (hpending name List.mem_cons_self) (by decide : StoreState.blocked ≠ .pending) (clip detail)
  refine ⟨r', by rw [Deletion.block, htransition], hinv', fun other hother => ?_,
    fun other hother hcompleted => ?_, ⟨names, rfl⟩, fun c hc => ?_, fun _ => nofun,
    fun x hx => (Ending.returned.inj hx).symm, fun _ _ => Or.inr ⟨_, rfl, rfl⟩⟩
  · have hne : other ≠ name := by
      rintro rfl
      exact hother List.mem_cons_self
    rw [hstate, if_neg hne]
  · rw [hstate] at hcompleted
    split_ifs at hcompleted
    · cases hcompleted
    · rw [hpending other hother] at hcompleted
      cases hcompleted
  · rw [List.mem_singleton.mp hc]
    exact hinv.request

lemma runStores_ran (hinv : Inv m r) (hwritable : a.Writable) (hnodup : names.Nodup)
    (hpending : ∀ name ∈ names, r.row.state? name = some .pending) (steps : Nat)
    (calls : List TargetCall) : ∃ r' made e,
      runStores a names steps r.row r calls = (⟨some r', calls ++ made⟩, e) ∧
        Ran m names r r' made e := by
  induction names generalizing r steps calls with
  | nil =>
    refine ⟨r, [], .returned r.row, by rw [runStores, List.append_nil], hinv, fun _ _ => rfl, ?_,
      List.nil_prefix, ?_, fun _ => nofun, fun x hx => (Ending.returned.inj hx).symm,
      fun _ _ => Or.inl rfl⟩
    · exact fun _ hname => nomatch hname
    · exact fun _ hc => nomatch hc
  | cons name names ih =>
    have hfirst := hpending name List.mem_cons_self
    have hrest : ∀ other ∈ names, r.row.state? other = some .pending :=
      fun other hother => hpending other (List.mem_cons_of_mem name hother)
    obtain ⟨hnotMem, hnodup⟩ := List.nodup_cons.mp hnodup
    match steps with
    | 0 =>
      refine ⟨r, [], .crashed, by rw [runStores, List.append_nil],
        Ran.crashed hinv hpending List.nil_prefix fun _ hc => nomatch hc⟩
    | 1 =>
      refine ⟨r, _, .crashed, rfl, Ran.crashed hinv hpending ?_ ?_⟩
      · exact ⟨names, rfl⟩
      · intro c hc
        rw [List.mem_singleton.mp hc]
        exact hinv.request
    | steps + 2 =>
      cases houtcome : a.outcomes name with
      | returned detail =>
        obtain ⟨r₁, htransition, hinv₁, hstate⟩ := hinv.transition hfirst
          (by decide : StoreState.completed ≠ .pending) (clip detail)
        have hrest₁ : ∀ other ∈ names, r₁.row.state? other = some .pending := by
          intro other hother
          have hne : other ≠ name := by
            rintro rfl
            exact hnotMem hother
          rw [hstate, if_neg hne]
          exact hrest other hother
        obtain ⟨r', made, e, hrun, hran⟩ := ih hinv₁ hnodup hrest₁ steps
          (calls ++ [⟨name, r.row.request, true⟩])
        refine ⟨r', ⟨name, r.row.request, true⟩ :: made, e, ?_, hran.inv, fun other hother => ?_,
          fun other hother hcompleted => ?_, ?_, ?_, hran.proceeds, hran.reported, fun x hx => ?_⟩
        · rw [runStores]
          simp only [houtcome, htransition]
          rw [hrun, List.append_assoc, List.singleton_append]
        · obtain ⟨hne, hother⟩ := not_or.mp (List.mem_cons.not.mp hother)
          rw [hran.others other hother, hstate, if_neg hne]
        · rcases List.mem_cons.mp hother with rfl | hother
          · exact ⟨_, List.mem_cons_self, rfl, rfl⟩
          · obtain ⟨c, hc, hcall⟩ := hran.completed other hother hcompleted
            exact ⟨c, List.mem_cons_of_mem _ hc, hcall⟩
        · exact (List.prefix_cons_inj name).mpr hran.inOrder
        · intro c hc
          rcases List.mem_cons.mp hc with rfl | hc
          · exact hinv.request
          · exact hran.requests c hc
        · refine (hran.stops x hx).imp (fun hall => ?_) fun hfailed => ?_
          · rw [List.map_cons, hall]
          · obtain ⟨c, hc, hfailed⟩ := hfailed
            exact ⟨c, List.mem_getLast?_cons hc, hfailed⟩
      | failed detail =>
        obtain ⟨r', hend, hran⟩ := hinv.block hpending
          (calls ++ [⟨name, r.row.request, false⟩]) detail
        refine ⟨r', _, _, ?_, hran⟩
        rw [runStores]
        simp only [houtcome]
        exact hend
      | unwritable => exact absurd houtcome (hwritable name)

/-! ### Run after run -/

lemma mem_pendingStores (hm : m.WellFormed) :
    name ∈ m.pendingStores ↔ m.state? name = some .pending := by
  unfold Manifest.pendingStores Manifest.state?
  simp only [List.mem_map, List.mem_filter, decide_eq_true_eq, Option.map_eq_some_iff]
  constructor
  · rintro ⟨s, ⟨hs, hstatus⟩, rfl⟩
    exact ⟨s, Table.find?_eq_some_of_mem hm.accepted.unique hs, hstatus⟩
  · rintro ⟨s, hs, hstatus⟩
    exact ⟨s, ⟨List.mem_of_find?_eq_some hs, hstatus⟩, by simpa using List.find?_some hs⟩

lemma nodup_pendingStores (hm : m.WellFormed) : m.pendingStores.Nodup :=
  (List.filter_sublist.map _).nodup hm.accepted.unique

/-- What holds between two runs: a store that is completed was called, and returned. -/
structure World.Kept (m : Manifest) (w : World) : Prop where
  record : ∀ r, w.db = some r → Inv m r
  completed : ∀ name, w.state? name = some .completed →
    ∃ c ∈ w.calls, c.store = name ∧ c.returned = true

structure Manifest.Fresh (m : Manifest) : Prop where
  wellFormed : m.WellFormed
  stores : m.stores = ghostStoreNames.map fun name => ⟨name, .pending, ""⟩

lemma Manifest.Fresh.inv (hm : m.Fresh) : Inv m ⟨m, [startedEvent m]⟩ := by
  refine ⟨hm.wellFormed, by simp [sameIdentity], ?_, replay_started hm.wellFormed, ?_⟩
  · rw [hm.stores]
    rfl
  · intro e he
    rw [List.mem_singleton.mp he]
    exact Or.inl rfl

lemma Manifest.Fresh.pendingStores (hm : m.Fresh) : m.pendingStores = ghostStoreNames := by
  unfold Manifest.pendingStores
  rw [hm.stores]
  rfl

/-- A status that a run finds is the status with which it starts. -/
lemma World.Kept.start (hm : m.Fresh) (hw : w.Kept m) : ∃ r, start m w.db = .ok (r, r.row) ∧
    Inv m r ∧ w.pending = r.row.pendingStores ∧
      (∀ name, r.row.state? name ≠ some .pending → r.row.state? name = w.state? name) ∧
      ∀ name status, w.state? name = some status → r.row.state? name = some status := by
  cases hdb : w.db with
  | none =>
    refine ⟨⟨m, [startedEvent m]⟩, rfl, hm.inv, ?_, fun name hname => ?_, fun name status hs => ?_⟩
    · rw [World.pending, hdb, hm.pendingStores]
    · cases hitem : m.stores.find? (·.store = name) with
      | none =>
        rw [World.state?, hdb, Manifest.state?, hitem]
        rfl
      | some item =>
        have hmem := List.mem_of_find?_eq_some hitem
        rw [hm.stores] at hmem
        obtain ⟨store, -, rfl⟩ := List.mem_map.mp hmem
        rw [Manifest.state?, hitem] at hname
        exact absurd rfl hname
    · rw [World.state?, hdb] at hs
      cases hs
  | some r =>
    have hinv := hw.record r hdb
    refine ⟨r, ?_, hinv, by rw [World.pending, hdb], fun name _ => ?_, fun name status hs => ?_⟩
    · simp only [Deletion.start, except_bind_eq_ok, require_eq_ok]
      exact ⟨r.row, hinv.wellFormed.fromPayload, (), hinv.same, r.row, hinv.replayUnlocked, rfl⟩
    · rw [World.state?, hdb]
      rfl
    · rw [World.state?, hdb] at hs
      exact hs

/-- What a run has done that started from a record. -/
lemma Ran.resumes {r r' : Record} {made : List TargetCall} {e : Ending}
    (hran : Ran m r.row.pendingStores r r' made e) (hinv : Inv m r) (hw : w.Kept m)
    (hpending : w.pending = r.row.pendingStores)
    (hnew : ∀ name, r.row.state? name ≠ some .pending → r.row.state? name = w.state? name)
    (hold : ∀ name status, w.state? name = some status → r.row.state? name = some status) :
    World.Kept m ⟨some r', w.calls ++ made⟩ ∧
      Resumes m.request w ⟨some r', w.calls ++ made⟩ e := by
  have hsettled : ∀ name status, r.row.state? name = some status → status ≠ .pending →
      r'.row.state? name = some status := by
    intro name status hstate hne
    rw [hran.others name, hstate]
    rw [mem_pendingStores hinv.wellFormed, hstate]
    simpa using hne
  have hcompleted : ∀ name, r'.row.state? name = some .completed →
      ∃ c ∈ w.calls ++ made, c.store = name ∧ c.returned = true := by
    intro name hname
    by_cases hmem : name ∈ r.row.pendingStores
    · obtain ⟨c, hc, hcall⟩ := hran.completed name hmem hname
      exact ⟨c, List.mem_append_right _ hc, hcall⟩
    · rw [hran.others name hmem] at hname
      have hne : r.row.state? name ≠ some .pending := by
        rw [hname]
        decide
      rw [hnew name hne] at hname
      obtain ⟨c, hc, hcall⟩ := hw.completed name hname
      exact ⟨c, List.mem_append_left _ hc, hcall⟩
  refine ⟨⟨fun r₁ hr₁ => Option.some.inj hr₁ ▸ hran.inv, hcompleted⟩, hran.proceeds,
    ⟨made, rfl, hpending ▸ hran.inOrder, hran.requests, hpending ▸ hran.stops⟩, ?_, ?_, ?_, ?_, ?_⟩
  · rintro r₁ hr₁
    obtain rfl := Option.some.inj hr₁
    exact hran.inv.replays
  · intro x hx
    rw [hran.reported x hx]
    rfl
  · rintro r₁ hr₁ hstatus name hname
    obtain rfl := Option.some.inj hr₁
    apply hcompleted
    rw [hran.inv.wellFormed.status] at hstatus
    rw [← hran.inv.names] at hname
    obtain ⟨s, hs, rfl⟩ := List.mem_map.mp hname
    rw [Manifest.state?, Table.find?_eq_some_of_mem hran.inv.wellFormed.accepted.unique hs,
      Option.map_some, overall_eq_completed hstatus s hs]
  · intro name status hstate hne
    exact hsettled name status (hold name status hstate) hne
  · rintro r₁ hr₁ name hname
    obtain rfl := Option.some.inj hr₁
    obtain ⟨s, hs, hstatus⟩ := Option.map_eq_some_iff.mp hname
    rw [hran.inv.wellFormed.status]
    exact overall_eq_blocked.mpr ⟨s, List.mem_of_find?_eq_some hs, hstatus⟩

lemma World.Kept.run (hm : m.Fresh) (hw : w.Kept m) (hwritable : a.Writable) :
    World.Kept m (run m w a).1 ∧ Resumes m.request w (run m w a).1 (run m w a).2 := by
  unfold Deletion.run
  cases a.steps with
  | zero =>
    obtain ⟨db, calls⟩ := w
    cases db with
    | none =>
      refine ⟨hw, fun _ => nofun, ⟨[], (List.append_nil _).symm, List.nil_prefix, fun _ => nofun,
        fun _ => nofun⟩, fun _ => nofun, fun _ => nofun, fun _ => nofun, fun _ _ hs _ => hs,
        fun _ => nofun⟩
    | some r =>
      have hinv := hw.record r rfl
      have hran : Ran m r.row.pendingStores r r [] .crashed := Ran.crashed hinv
        (fun name => (mem_pendingStores hinv.wellFormed).mp) List.nil_prefix fun _ hc => nomatch hc
      have hresumes := hran.resumes hinv hw rfl (fun _ _ => rfl) fun _ _ hs => hs
      rw [List.append_nil] at hresumes
      exact hresumes
  | succ steps =>
    obtain ⟨r, hstart, hinv, hpending, hnew, hold⟩ := hw.start hm
    obtain ⟨r', made, e, hrun, hran⟩ := runStores_ran hinv hwritable
      (nodup_pendingStores hinv.wellFormed) (fun name => (mem_pendingStores hinv.wellFormed).mp)
      steps w.calls
    simp only [hstart]
    rw [hrun]
    exact hran.resumes hinv hw hpending hnew hold

lemma foldOk_resumes (hm : m.Fresh) (hw : w.Kept m) (attempts : List Attempt)
    (hwritable : ∀ a ∈ attempts, a.Writable) :
    FoldOk (fun w a => Resumes m.request w (run m w a).1 (run m w a).2)
      (fun w a => (run m w a).1) w attempts := by
  induction attempts generalizing w with
  | nil => trivial
  | cons a attempts ih =>
    obtain ⟨hkept, hresumes⟩ := hw.run hm (hwritable a List.mem_cons_self)
    exact ⟨hresumes, ih hkept fun b hb => hwritable b (List.mem_cons_of_mem a hb)⟩

/-! ### Where a run goes wrong -/

variable {h : Host} {args : Args}

lemma newManifest_eq_ok : newManifest h args ghostStoreNames = .ok m ↔
    (args.fields h freshStores).Accepted ∧ m = (args.fields h freshStores).normalized := by
  have hstores : (ghostStoreNames.mapM fun name => StoreStatus.postInit ⟨name, .pending, ""⟩) =
      .ok freshStores := by
    apply mapM_eq_ok
    intro name hname
    exact (plain_freshStores _ (List.mem_map_of_mem hname)).1.postInit
  rw [newManifest, hstores]
  dsimp only [bind, Except.bind]
  exact postInit_eq_ok

lemma fresh_of_newManifest (hm : newManifest h args ghostStoreNames = .ok m)
    (hproject : bounded (bounded args.project) = bounded args.project)
    (hsession : bounded (bounded args.sessionId) = bounded args.sessionId) : m.Fresh := by
  obtain ⟨haccepted, rfl⟩ := newManifest_eq_ok.mp hm
  refine ⟨⟨haccepted.normalized, ?_, fun s hs => (plain_freshStores s hs).1, rfl⟩, rfl⟩
  simp only [Manifest.normalized, stripped_stripped, Args.fields, hproject, hsession]

lemma request_eq (hm : newManifest h args ghostStoreNames = .ok m) :
    m.request = if stripped args.action = "reset_all" then none
      else some ⟨stripped args.scope, bounded args.project, bounded args.sessionId⟩ := by
  obtain ⟨-, rfl⟩ := newManifest_eq_ok.mp hm
  rfl

lemma fromPayload_texts {current : Manifest} (hcurrent : fromPayload m = .ok current) :
    current.project = bounded (bounded m.project) ∧
      current.sessionId = bounded (bounded m.sessionId) := by
  simp only [fromPayload, except_bind_eq_ok] at hcurrent
  obtain ⟨stores, -, operationId, -, action, -, scope, -, requestedAt, -, retentionClass, -,
    digest, -, hpost⟩ := hcurrent
  obtain ⟨-, rfl⟩ := postInit_eq_ok.mp hpost
  exact ⟨rfl, rfl⟩

/-- Every run goes on with an operation. -/
def Resumable (m : Manifest) (request : Option Request) : Prop :=
  ∀ attempts : List Attempt, (∀ a ∈ attempts, a.Writable) →
    FoldOk (fun w a => Resumes request w (run m w a).1 (run m w a).2) (fun w a => (run m w a).1) {}
      attempts

/-- Runs in which every target returns, and that die behind as many steps. -/
def dying (steps : Nat) : Attempt := ⟨fun _ => .returned "", steps⟩

lemma writable_dying (steps : Nat) : (dying steps).Writable := fun _ => nofun

/-- A later run raises when a text does not stay as it is. -/
lemma bounded_of_resumable (hm : newManifest h args ghostStoreNames = .ok m)
    {request : Option Request} (hall : Resumable m request) :
    bounded (bounded args.project) = bounded args.project ∧
      bounded (bounded args.sessionId) = bounded args.sessionId := by
  obtain ⟨-, hsecond, -⟩ := hall [dying 1, dying 1] (by simp [writable_dying])
  have hfirst : (run m {} (dying 1)).1 = ⟨some ⟨m, [startedEvent m]⟩, []⟩ := by
    obtain ⟨-, rfl⟩ := newManifest_eq_ok.mp hm
    rfl
  dsimp only at hsecond
  rw [hfirst] at hsecond
  have hstart : ∃ started, start m (some ⟨m, [startedEvent m]⟩) = .ok started := by
    cases hstart : start m (some ⟨m, [startedEvent m]⟩) with
    | ok started => exact ⟨started, rfl⟩
    | error error =>
      refine absurd ?_ (hsecond.proceeds error)
      simp only [run, dying, hstart]
  obtain ⟨started, hstart⟩ := hstart
  simp only [start, except_bind_eq_ok, require_eq_ok] at hstart
  obtain ⟨current, hcurrent, -, hsame, -⟩ := hstart
  obtain ⟨hproject, hsession⟩ := fromPayload_texts hcurrent
  simp only [sameIdentity, Bool.and_eq_true, decide_eq_true_eq] at hsame
  obtain ⟨⟨⟨⟨⟨⟨⟨⟨-, -⟩, -⟩, hproject'⟩, hsession'⟩, -⟩, -⟩, -⟩, -⟩ := hsame
  rw [hproject] at hproject'
  rw [hsession] at hsession'
  obtain ⟨-, rfl⟩ := newManifest_eq_ok.mp hm
  simp only [Manifest.normalized, Args.fields, bounded_bounded_bounded] at hproject' hsession'
  exact ⟨hproject', hsession'⟩

lemma request_of_resumable (hm : newManifest h args ghostStoreNames = .ok m)
    {request : Option Request} (hall : Resumable m request) : m.request = request := by
  obtain ⟨hfirst, -⟩ := hall [dying 2] (by simp [writable_dying])
  have hcalls : (run m {} (dying 2)).1.calls = [⟨"inbox", m.request, true⟩] := by
    obtain ⟨-, rfl⟩ := newManifest_eq_ok.mp hm
    rfl
  obtain ⟨made, hmade, -, hrequests, -⟩ := hfirst.continues
  rw [hcalls] at hmade
  apply hrequests ⟨"inbox", m.request, true⟩
  rw [← List.nil_append made, ← hmade]
  exact List.mem_singleton_self _

end Laws

/-- Every run goes on with an operation exactly when its texts are those that are requested, and are
read back as they are. -/
theorem run_resumable_iff (h : Host) (args : Args) (m : Manifest)
    (hm : newManifest h args ghostStoreNames = .ok m) :
    Resumable m args.request ↔ args.Exact := by
  have hrequest := request_eq hm
  constructor
  · intro hall
    obtain ⟨hproject, hsession⟩ := bounded_of_resumable hm hall
    refine ⟨hproject, hsession, fun haction => ?_⟩
    have hsame := request_of_resumable hm hall
    rw [hrequest, Args.request, if_neg haction, if_neg haction] at hsame
    obtain ⟨hscope, hproject, hsession⟩ := Request.mk.inj (Option.some.inj hsame)
    exact ⟨hscope, hproject, hsession⟩
  · rintro ⟨hproject, hsession, hexact⟩
    have hsame : m.request = args.request := by
      rw [hrequest, Args.request]
      split_ifs with haction
      · rfl
      · obtain ⟨hscope, hproject, hsession⟩ := hexact haction
        rw [hscope, hproject, hsession]
    intro attempts hwritable
    rw [← hsame]
    have hkept : World.Kept m {} :=
      ⟨fun _ hrecord => (nomatch hrecord),
        fun _ hstate => (nomatch (hstate : none = some StoreState.completed))⟩
    exact foldOk_resumes (fresh_of_newManifest hm hproject hsession) hkept attempts hwritable

/-- A host on which every digest is the same. -/
def plainHost : Host := ⟨fun _ => "0"⟩

def oneProject : Args := ⟨"op", "delete_scope", "project", "2026", "ghost", "codey", ""⟩

theorem run_resumable_iff_oneProject : ∃ m, newManifest plainHost oneProject ghostStoreNames = .ok m ∧
    Resumable m oneProject.request := by
  obtain ⟨m, hm⟩ := ok_of_isSome (x := newManifest plainHost oneProject ghostStoreNames)
    (by decide +kernel)
  refine ⟨m, hm, (run_resumable_iff plainHost oneProject m hm).mpr ?_⟩
  unfold Args.Exact
  decide +kernel

/-- A project whose first characters, as many as are kept, end with a blank. -/
def cutProject : Args :=
  { oneProject with project := String.ofList (List.replicate 239 'a' ++ " tail".toList) }

/-- The second run raises. -/
theorem not_resumable_cutProject :
    ∃ m, newManifest plainHost cutProject ghostStoreNames = .ok m ∧
      ¬Resumable m cutProject.request := by
  have haccepted : (cutProject.fields plainHost freshStores).Accepted := by
    constructor <;> decide +kernel
  have hm := newManifest_eq_ok.mpr ⟨haccepted, rfl⟩
  refine ⟨_, hm, fun hall => ?_⟩
  have hlist := congrArg String.toList (bounded_of_resumable hm hall).1
  simp only [bounded, cutProject, String.toList_ofList] at hlist
  exact absurd hlist (by decide +kernel)

end Deletion

end Codey
