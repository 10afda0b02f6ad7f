import Codey.Lib.Check
import Codey.Lib.Lists
import Codey.Lib.Table
import Codey.Lib.Text
import Mathlib.Data.String.Basic

/-!
# Deletion manifests

The record of one deletion over several stores: how it is built and read back, the events of its
stores, and the replay of the events. A record that is stored as JSON is the record itself, since
every field is a text.
-/

namespace Codey

namespace Deletion

def maxText : Nat := 240

/-- `str.strip` -/
def stripped (value : String) : String := String.ofList (strip value.toList)

def bounded (value : String) : String := String.ofList ((strip value.toList).take maxText)

def text (value label : String) : Except String String :=
  if stripped value = "" then .error s!"{label} must be a non-empty string" else .ok (stripped value)

def required (value key : String) : Except String String :=
  if stripped value = "" then .error s!"{key} must be a non-empty string" else .ok value

inductive StoreState where
  | pending
  | completed
  | blocked
  deriving DecidableEq

def StoreState.word : StoreState → String
  | .pending => "pending"
  | .completed => "completed"
  | .blocked => "blocked"

/-- `StoreDeletionStatus` -/
structure StoreStatus where
  store : String
  status : StoreState := .pending
  detail : String := ""
  deriving DecidableEq

def StoreStatus.postInit (s : StoreStatus) : Except String StoreStatus := do
  let store ← text s.store "store"
  return { s with store := store, detail := bounded s.detail }

def statusFromPayload (payload : StoreStatus) : Except String StoreStatus := do
  let store ← required payload.store "store"
  StoreStatus.postInit { payload with store := store, detail := bounded payload.detail }

/-- `DeletionManifest` -/
structure Manifest where
  operationId : String
  action : String
  scope : String
  requestedAt : String
  retentionClass : String
  tombstoneDigest : String
  stores : List StoreStatus
  project : String := ""
  sessionId : String := ""
  status : StoreState := .pending
  deriving DecidableEq

def uniqueStores (seen : List String) : List StoreStatus → Except String Unit
  | [] => .ok ()
  | item :: items =>
    if item.store ∈ seen then .error s!"duplicate store: {item.store}"
    else uniqueStores (item.store :: seen) items

def actions : List String := ["delete_scope", "reset_all"]
def scopes : List String := ["user", "project", "session", "all"]

def Manifest.postInit (m : Manifest) : Except String Manifest := do
  let operationId ← text m.operationId "operation_id"
  let action ← text m.action "action"
  let scope ← text m.scope "scope"
  let requestedAt ← text m.requestedAt "requested_at"
  let retentionClass ← text m.retentionClass "retention_class"
  let digest ← text m.tombstoneDigest "tombstone_digest"
  require (action ∈ actions) s!"unsupported action: {action}"
  require (scope ∈ scopes ∧ ¬(action = "delete_scope" ∧ scope = "all"))
    s!"unsupported scope for {action}: {scope}"
  require (¬(action = "reset_all" ∧ scope ≠ "all")) "reset_all requires all scope"
  uniqueStores [] m.stores
  require (m.stores ≠ []) "manifest requires at least one store"
  require (¬(m.status = .completed ∧ ∃ s ∈ m.stores, s.status ≠ .completed))
    "completed manifest has unfinished stores"
  require (¬(m.status = .blocked ∧ ∀ s ∈ m.stores, s.status ≠ .blocked))
    "blocked manifest has no blocked store"
  return { m with
    operationId := operationId
    action := action
    scope := scope
    requestedAt := requestedAt
    retentionClass := retentionClass
    tombstoneDigest := digest
    project := bounded m.project
    sessionId := bounded m.sessionId }

def fromPayload (payload : Manifest) : Except String Manifest := do
  let stores ← payload.stores.mapM statusFromPayload
  let operationId ← required payload.operationId "operation_id"
  let action ← required payload.action "action"
  let scope ← required payload.scope "scope"
  let requestedAt ← required payload.requestedAt "requested_at"
  let retentionClass ← required payload.retentionClass "retention_class"
  let digest ← required payload.tombstoneDigest "tombstone_digest"
  Manifest.postInit { payload with
    operationId := operationId
    action := action
    scope := scope
    project := bounded payload.project
    sessionId := bounded payload.sessionId
    requestedAt := requestedAt
    retentionClass := retentionClass
    tombstoneDigest := digest
    stores := stores }

/-- What `new_manifest` is called with, less the stores. -/
structure Args where
  operationId : String
  action : String
  scope : String
  requestedAt : String
  retentionClass : String
  project : String := ""
  sessionId : String := ""

/-- The host: the digest of the canonical action, scope, project, session and retention class. -/
structure Host where
  hexdigest : List String → String

/-- The fields of a manifest as they are passed on by `new_manifest`. -/
def Args.fields (h : Host) (args : Args) (stores : List StoreStatus) : Manifest where
  operationId := args.operationId
  action := args.action
  scope := args.scope
  project := args.project
  sessionId := args.sessionId
  requestedAt := args.requestedAt
  retentionClass := args.retentionClass
  tombstoneDigest := "sha256:" ++ h.hexdigest [args.action, args.scope, bounded args.project,
    bounded args.sessionId, args.retentionClass]
  stores := stores

def newManifest (h : Host) (args : Args) (stores : List String) : Except String Manifest := do
  let stores ← stores.mapM fun name => StoreStatus.postInit ⟨name, .pending, ""⟩
  (args.fields h stores).postInit

def Manifest.pendingStores (m : Manifest) : List String :=
  (m.stores.filter (·.status = .pending)).map (·.store)

def Manifest.store (m : Manifest) (name : String) : Except String StoreStatus :=
  match m.stores.find? (·.store = name) with
  | some item => .ok item
  | none => .error s!"unknown store: {name}"

/-! ### Events -/

inductive Kind where
  | started (manifest : Manifest)
  | storeTransition (store : String) (status : StoreState) (detail : String)
  deriving DecidableEq

structure Event where
  eventId : String
  operationId : String
  kind : Kind
  deriving DecidableEq

/-- What the id of a transition has behind the id of the operation. -/
def transitionTail (store : String) (status : StoreState) : String :=
  ":store:" ++ store ++ ":" ++ status.word

def storeEvent (m : Manifest) (store : String) (status : StoreState) (detail : String) :
    Except String Event := do
  let current ← m.store store
  require (current.status = .pending ∨
    (current.status = status ∧ bounded current.detail = bounded detail))
    s!"conflicting transition for completed store: {store}"
  require (status ≠ .pending) "store event must complete or block a pending store"
  return ⟨m.operationId ++ transitionTail store status, m.operationId,
    .storeTransition store status (bounded detail)⟩

def startedEvent (m : Manifest) : Event := ⟨m.operationId ++ ":started", m.operationId, .started m⟩

def overall (stores : List StoreStatus) : StoreState :=
  if ∃ s ∈ stores, s.status = .blocked then .blocked
  else if ∀ s ∈ stores, s.status = .completed then .completed
  else .pending

def applyStoreEvent (m : Manifest) (event : Event) : Except String Manifest :=
  match event.kind with
  | .started _ => .error "invalid store transition event"
  | .storeTransition store status detail => do
    require (event.operationId = m.operationId) "event operation does not match manifest"
    let store ← required store "store"
    let current ← m.store store
    if current.status ≠ .pending then
      if current.status = status ∧ current.detail = bounded detail then return m
      else .error s!"conflicting transition for store: {store}"
    else
      require (status ≠ .pending) "store transition must complete or block"
      let updated ← m.stores.mapM fun item => if item.store = store then
        StoreStatus.postInit { item with status := status, detail := bounded detail }
        else .ok item
      Manifest.postInit { m with stores := updated, status := overall updated }

/-- The loop of `replay` over the events behind the first one. -/
def replayFrom (seen : List Event) (m : Manifest) : List Event → Except String Manifest
  | [] => .ok m
  | event :: events =>
    if event.eventId = "" then .error "duplicate or missing manifest event id"
    else match seen.find? (·.eventId = event.eventId) with
      | some prior =>
        if event = prior then replayFrom seen m events
        else .error "duplicate or missing manifest event id"
      | none => applyStoreEvent m event >>= fun m' => replayFrom (event :: seen) m' events

def replay : List Event → Except String Manifest
  | [] => .error "deletion manifest event log is empty"
  | first :: events =>
    match first.kind with
    | .storeTransition _ _ _ => .error "deletion manifest must start with a started event"
    | .started payload => do
      let m ← fromPayload payload
      require (first.eventId ≠ "") "started event has no event id"
      require (first.operationId = m.operationId) "started event operation does not match manifest"
      replayFrom [first] m events

/-! ### Texts -/

section Laws

variable {value label t : String} {m m' : Manifest} {name detail : String}
  {status : StoreState} {stores : List StoreStatus} {s : StoreStatus} {e : Event}
  {seen es : List Event}

@[simp] lemma stripped_stripped (value : String) : stripped (stripped value) = stripped value := by
  simp [stripped, strip_strip]

lemma bounded_of_length_le (hlength : value.length ≤ maxText) : bounded value = stripped value := by
  unfold bounded stripped
  rw [List.take_of_length_le]
  have hle := (strip_sublist value.toList).length_le
  rw [String.length_toList] at hle
  exact hle.trans hlength

lemma length_bounded_le (value : String) : (bounded value).length ≤ maxText := by
  simp [bounded]

@[simp] lemma bounded_bounded_bounded (value : String) :
    bounded (bounded (bounded value)) = bounded (bounded value) := by
  rw [bounded_of_length_le (length_bounded_le (bounded value)),
    bounded_of_length_le (length_bounded_le value), stripped_stripped]

lemma text_eq_ok : text value label = .ok t ↔ stripped value ≠ "" ∧ t = stripped value := by
  unfold text
  split_ifs with hempty
  · simp [hempty]
  · simp [hempty, eq_comm]

lemma required_eq_ok : required value label = .ok t ↔ stripped value ≠ "" ∧ t = value := by
  unfold required
  split_ifs with hempty
  · simp [hempty]
  · simp [hempty, eq_comm]

/-! ### Manifests that are read back as they are -/

lemma uniqueStores_eq_ok {seen : List String} {u : Unit} :
    uniqueStores seen stores = .ok u ↔
      (stores.map (·.store)).Nodup ∧ ∀ s ∈ stores, s.store ∉ seen := by
  induction stores generalizing seen with
  | nil => simp [uniqueStores]
  | cons item items ih =>
    rw [uniqueStores]
    split_ifs with hseen
    · simp [hseen]
    · rw [ih, List.map_cons, List.nodup_cons]
      simp only [List.mem_cons, not_or, forall_eq_or_imp, hseen, not_false_eq_true, true_and,
        List.mem_map, not_exists, not_and]
      constructor
      · rintro ⟨hnodup, hnew⟩
        exact ⟨⟨fun x hx => (hnew x hx).1, hnodup⟩, fun x hx => (hnew x hx).2⟩
      · rintro ⟨⟨hne, hnodup⟩, hnew⟩
        exact ⟨hnodup, fun x hx => ⟨hne x hx, hnew x hx⟩⟩

/-- The fields of a manifest as they are kept. -/
def Manifest.normalized (m : Manifest) : Manifest := { m with
  operationId := stripped m.operationId
  action := stripped m.action
  scope := stripped m.scope
  requestedAt := stripped m.requestedAt
  retentionClass := stripped m.retentionClass
  tombstoneDigest := stripped m.tombstoneDigest
  project := bounded m.project
  sessionId := bounded m.sessionId }

/-- What a manifest is checked for. -/
structure Manifest.Accepted (m : Manifest) : Prop where
  operationId : stripped m.operationId ≠ ""
  action : stripped m.action ≠ ""
  scope : stripped m.scope ≠ ""
  requestedAt : stripped m.requestedAt ≠ ""
  retentionClass : stripped m.retentionClass ≠ ""
  tombstoneDigest : stripped m.tombstoneDigest ≠ ""
  known : stripped m.action ∈ actions
  suits : stripped m.scope ∈ scopes ∧ ¬(stripped m.action = "delete_scope" ∧ stripped m.scope = "all")
  resets : ¬(stripped m.action = "reset_all" ∧ stripped m.scope ≠ "all")
  unique : (m.stores.map (·.store)).Nodup
  nonempty : m.stores ≠ []
  finished : ¬(m.status = .completed ∧ ∃ s ∈ m.stores, s.status ≠ .completed)
  stopped : ¬(m.status = .blocked ∧ ∀ s ∈ m.stores, s.status ≠ .blocked)

lemma postInit_eq_ok : m.postInit = .ok m' ↔ m.Accepted ∧ m' = m.normalized := by
  unfold Manifest.postInit
  simp only [except_bind_eq_ok, text_eq_ok, require_eq_ok, uniqueStores_eq_ok, decide_eq_true_eq]
  constructor
  · rintro ⟨_, ⟨h1, rfl⟩, _, ⟨h2, rfl⟩, _, ⟨h3, rfl⟩, _, ⟨h4, rfl⟩, _, ⟨h5, rfl⟩, _, ⟨h6, rfl⟩,
      _, h7, _, h8, _, h9, _, ⟨h10, -⟩, _, h11, _, h12, _, h13, h14⟩
    exact ⟨⟨h1, h2, h3, h4, h5, h6, h7, h8, h9, h10, h11, h12, h13⟩, (Except.ok.inj h14).symm⟩
  · rintro ⟨⟨h1, h2, h3, h4, h5, h6, h7, h8, h9, h10, h11, h12, h13⟩, rfl⟩
    exact ⟨_, ⟨h1, rfl⟩, _, ⟨h2, rfl⟩, _, ⟨h3, rfl⟩, _, ⟨h4, rfl⟩, _, ⟨h5, rfl⟩, _, ⟨h6, rfl⟩,
      (), h7, (), h8, (), h9, (), ⟨h10, by simp⟩, (), h11, (), h12, (), h13, rfl⟩

lemma Manifest.Accepted.normalized (hm : m.Accepted) : m.normalized.Accepted := by
  obtain ⟨h1, h2, h3, h4, h5, h6, h7, h8, h9, h10, h11, h12, h13⟩ := hm
  constructor <;> simp only [Manifest.normalized, stripped_stripped] <;> assumption

def StoreStatus.Plain (s : StoreStatus) : Prop :=
  s.store ≠ "" ∧ stripped s.store = s.store ∧ bounded s.detail = s.detail

lemma StoreStatus.Plain.postInit (hs : s.Plain) : s.postInit = .ok s := by
  obtain ⟨hne, hstore, hdetail⟩ := hs
  unfold StoreStatus.postInit
  rw [text_eq_ok.mpr ⟨by rwa [hstore], rfl⟩, hstore, hdetail]
  rfl

lemma StoreStatus.Plain.statusFromPayload (hs : s.Plain) : statusFromPayload s = .ok s := by
  have hpost := hs.postInit
  obtain ⟨hne, hstore, hdetail⟩ := hs
  unfold Deletion.statusFromPayload
  rw [required_eq_ok.mpr ⟨by rwa [hstore], rfl⟩, hdetail]
  exact hpost

structure Manifest.WellFormed (m : Manifest) : Prop where
  accepted : m.Accepted
  normalized : m.normalized = m
  plain : ∀ s ∈ m.stores, s.Plain
  status : m.status = overall m.stores

lemma Manifest.WellFormed.fromPayload (hm : m.WellFormed) : fromPayload m = .ok m := by
  have hstores : m.stores.mapM statusFromPayload = .ok m.stores := by
    have hmap := mapM_eq_ok (f := statusFromPayload) (g := id)
      fun s hs => (hm.plain s hs).statusFromPayload
    rwa [List.map_id] at hmap
  have hproject : bounded m.project = m.project := congrArg Manifest.project hm.normalized
  have hsession : bounded m.sessionId = m.sessionId := congrArg Manifest.sessionId hm.normalized
  have hpost : Manifest.postInit
      { m with project := bounded m.project, sessionId := bounded m.sessionId } = .ok m := by
    rw [hproject, hsession]
    exact postInit_eq_ok.mpr ⟨hm.accepted, hm.normalized.symm⟩
  simp only [Deletion.fromPayload, except_bind_eq_ok, required_eq_ok]
  exact ⟨_, hstores, _, ⟨hm.accepted.operationId, rfl⟩, _, ⟨hm.accepted.action, rfl⟩,
    _, ⟨hm.accepted.scope, rfl⟩, _, ⟨hm.accepted.requestedAt, rfl⟩,
    _, ⟨hm.accepted.retentionClass, rfl⟩, _, ⟨hm.accepted.tombstoneDigest, rfl⟩, hpost⟩

/-! ### One transition -/

def Manifest.state? (m : Manifest) (name : String) : Option StoreState :=
  (m.stores.find? (·.store = name)).map (·.status)

def Manifest.advance (m : Manifest) (name : String) (status : StoreState) (detail : String) :
    Manifest :=
  let updated := m.stores.map fun item =>
    if item.store = name then { item with status := status, detail := detail } else item
  { m with stores := updated, status := overall updated }

lemma map_store_advance (m : Manifest) (name : String) (status : StoreState) (detail : String) :
    (m.advance name status detail).stores.map (·.store) = m.stores.map (·.store) := by
  unfold Manifest.advance
  rw [List.map_map]
  apply List.map_congr_left
  intro item _
  dsimp only [Function.comp_apply]
  split_ifs <;> rfl

lemma state?_advance (hstate : (m.state? name).isSome = true) (other : String) :
    (m.advance name status detail).state? other =
      if other = name then some status else m.state? other := by
  have hfind : (m.advance name status detail).stores.find? (·.store = other) =
      (m.stores.find? (·.store = other)).map fun item =>
        if item.store = name then { item with status := status, detail := detail } else item := by
    unfold Manifest.advance
    rw [List.find?_map]
    congr 2
    funext item
    dsimp only [Function.comp_apply]
    split_ifs <;> rfl
  unfold Manifest.state? at hstate ⊢
  rw [hfind, Option.map_map]
  by_cases hother : other = name
  · subst hother
    cases hitem : m.stores.find? (·.store = other) with
    | none =>
      rw [hitem] at hstate
      cases hstate
    | some item =>
      have hstore : item.store = other := by simpa using List.find?_some hitem
      simp [hstore]
  · rw [if_neg hother]
    cases hitem : m.stores.find? (·.store = other) with
    | none => rfl
    | some item =>
      have hstore : item.store = other := by simpa using List.find?_some hitem
      simp [hstore, hother]

lemma overall_eq_completed (hstores : overall stores = .completed) :
    ∀ s ∈ stores, s.status = .completed := by
  unfold overall at hstores
  split_ifs at hstores with hblocked hall
  exact hall

lemma overall_eq_blocked : overall stores = .blocked ↔ ∃ s ∈ stores, s.status = .blocked := by
  unfold overall
  split_ifs with hblocked hall
  · simpa using hblocked
  · simpa using hblocked
  · simpa using hblocked

lemma Manifest.WellFormed.advance (hm : m.WellFormed) (name : String) (status : StoreState)
    (hdetail : bounded detail = detail) : (m.advance name status detail).WellFormed := by
  have hstores := map_store_advance m name status detail
  refine ⟨{ hm.accepted with
    unique := hstores ▸ hm.accepted.unique
    nonempty := ?_
    finished := ?_
    stopped := ?_ }, ?_, ?_, rfl⟩
  · intro hnil
    rw [hnil] at hstores
    exact hm.accepted.nonempty (List.map_eq_nil_iff.mp hstores.symm)
  · rintro ⟨hcompleted, s, hs, hunfinished⟩
    exact hunfinished (overall_eq_completed hcompleted s hs)
  · rintro ⟨hblocked, hnone⟩
    obtain ⟨s, hs, hs'⟩ := overall_eq_blocked.mp hblocked
    exact hnone s hs hs'
  · exact congrArg (fun kept : Manifest => { kept with
      stores := (m.advance name status detail).stores
      status := (m.advance name status detail).status }) hm.normalized
  · intro s hs
    obtain ⟨item, hitem, rfl⟩ := List.mem_map.mp hs
    obtain ⟨hne, hstore, hkept⟩ := hm.plain item hitem
    split_ifs
    · exact ⟨hne, hstore, hdetail⟩
    · exact ⟨hne, hstore, hkept⟩

/-- The event of a pending store moves that store on. -/
lemma applyStoreEvent_advance (hm : m.WellFormed) (hpending : m.state? name = some .pending)
    (hstatus : status ≠ .pending) (hop : e.operationId = m.operationId)
    (hkind : e.kind = .storeTransition name status detail) :
    applyStoreEvent m e = .ok (m.advance name status (bounded (bounded detail))) := by
  obtain ⟨item, hitem, hitemstatus⟩ := Option.map_eq_some_iff.mp hpending
  have hstore : item.store = name := by simpa using List.find?_some hitem
  have hplain := hm.plain item (List.mem_of_find?_eq_some hitem)
  have hadvance := hm.advance name status (bounded_bounded_bounded detail)
  have hupdated : (m.stores.mapM fun item => if item.store = name then
      StoreStatus.postInit { item with status := status, detail := bounded detail }
      else (.ok item : Except String StoreStatus)) =
        .ok (m.advance name status (bounded (bounded detail))).stores := by
    apply mapM_eq_ok
    intro s hs
    obtain ⟨hne, hkept, -⟩ := hm.plain s hs
    split_ifs with hname
    · unfold StoreStatus.postInit
      rw [text_eq_ok.mpr ⟨by rwa [hkept], rfl⟩]
      dsimp only [bind, Except.bind, pure, Except.pure]
      rw [hkept]
    · rfl
  have hrequired : required name "store" = .ok name :=
    required_eq_ok.mpr ⟨by rw [← hstore, hplain.2.1]; exact hplain.1, rfl⟩
  have hfound : m.store name = .ok item := by
    unfold Manifest.store
    rw [hitem]
  have hpost : Manifest.postInit { m with
      stores := (m.advance name status (bounded (bounded detail))).stores
      status := overall (m.advance name status (bounded (bounded detail))).stores } =
        .ok (m.advance name status (bounded (bounded detail))) :=
    postInit_eq_ok.mpr ⟨hadvance.accepted, hadvance.normalized.symm⟩
  unfold applyStoreEvent
  rw [hkind]
  simp only [except_bind_eq_ok, require_eq_ok, decide_eq_true_eq]
  refine ⟨(), hop, name, hrequired, item, hfound, ?_⟩
  rw [if_neg (by simpa using hitemstatus)]
  simp only [except_bind_eq_ok, require_eq_ok, decide_eq_true_eq]
  exact ⟨(), hstatus, _, hupdated, hpost⟩

/-! ### Replay -/

/-- An event with a new id is applied to what its predecessors have made. -/
lemma replayFrom_concat (hnew : ∀ x ∈ seen ++ es, x.eventId ≠ e.eventId) (hid : e.eventId ≠ "")
    (hreplay : replayFrom seen m es = .ok m') :
    replayFrom seen m (es ++ [e]) = applyStoreEvent m' e := by
  induction es generalizing seen m with
  | nil =>
    obtain rfl := Except.ok.inj hreplay
    have hnone : seen.find? (·.eventId = e.eventId) = none := by
      simpa using hnew
    rw [List.nil_append, replayFrom, if_neg hid, hnone]
    cases applyStoreEvent m e with
    | error error => rfl
    | ok m₁ => rfl
  | cons x es ih =>
    rw [replayFrom] at hreplay
    rw [List.cons_append, replayFrom]
    split_ifs at hreplay ⊢ with hempty
    cases hprior : seen.find? (·.eventId = x.eventId) with
    | some prior =>
      simp only [hprior] at hreplay ⊢
      split_ifs at hreplay ⊢ with hsame
      apply ih _ hreplay
      intro y hy
      apply hnew
      rw [List.mem_append] at hy ⊢
      exact hy.imp_right (List.mem_cons_of_mem x)
    | none =>
      simp only [hprior] at hreplay ⊢
      obtain ⟨m₁, happly, hrest⟩ := except_bind_eq_ok.mp hreplay
      rw [happly]
      apply ih _ hrest
      intro y hy
      apply hnew
      simp only [List.cons_append, List.mem_cons, List.mem_append] at hy ⊢
      tauto

lemma replay_concat (hnew : ∀ x ∈ es, x.eventId ≠ e.eventId) (hid : e.eventId ≠ "")
    (hreplay : replay es = .ok m') : replay (es ++ [e]) = applyStoreEvent m' e := by
  cases es with
  | nil => cases hreplay
  | cons first es =>
    obtain ⟨eventId, operationId, kind⟩ := first
    cases kind with
    | storeTransition store status detail => cases hreplay
    | started payload =>
      rw [List.cons_append]
      simp only [replay, except_bind_eq_ok] at hreplay
      obtain ⟨m, hm, u, hid', u', hop, hrest⟩ := hreplay
      have hconcat := replayFrom_concat (by simpa using hnew) hid hrest
      rw [replay]
      dsimp only
      rw [hm]
      dsimp only [bind, Except.bind]
      rw [hid']
      dsimp only
      rw [hop]
      exact hconcat

lemma replay_started (hm : m.WellFormed) : replay [startedEvent m] = .ok m := by
  have hid : (startedEvent m).eventId ≠ "" := by
    intro hempty
    have hlength := congrArg String.length hempty
    simp [startedEvent] at hlength
  simp only [replay, startedEvent, except_bind_eq_ok, require_eq_ok]
  exact ⟨m, hm.fromPayload, (), decide_eq_true hid, (), decide_eq_true rfl, rfl⟩

end Laws

end Deletion

end Codey
