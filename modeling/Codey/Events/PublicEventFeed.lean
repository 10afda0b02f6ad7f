import Codey.Events.EventBus

/-!
# The public event feed

The feed encodes an event once for all streams and offers it to their subscriptions.

The JSON text of a body is represented by the object itself. The JSON encoder counts for the length
of the text only, and the machine projection for the members that it adds to the type.
-/

namespace Codey

namespace Events

/-! ### Bodies -/

def publicFields : List (String × List String) :=
  [("conversation_inventory_changed", ["type"]),
    ("durable_commit", ["type", "session_id", "commit_seq", "kind", "committed_at",
      "schema_version", "entry_ids", "task_id", "revision", "head_entry_id", "run_id",
      "submission_id", "input_id", "deleted", "branch_entry_id", "edited_entry_id",
      "replaced_run_ids"]),
    ("resync_required", ["type", "reason", "cursor", "dropped"]),
    ("reply", ["type", "session_id", "run_id", "text", "turn"]),
    ("reply_stream", ["type", "session_id", "run_id", "text", "delta", "turn", "done",
      "generation", "stream_id", "sequence", "state"]),
    ("conversation_input", ["type", "session_id", "input"]),
    ("user_question", ["type", "session_id", "run_id", "question", "id", "text", "questions"]),
    ("user_question_state", ["type", "session_id", "question"]),
    ("providers", ["type", "providers", "default", "probe_error"]),
    ("shell_result", ["type", "session_id", "run_id", "id", "command", "command_preview",
      "command_sha256", "command_chars", "command_truncated", "cwd", "project", "status", "output",
      "exit_code", "execution_id", "approved", "error", "ok", "truncated", "failure", "call_id"]),
    ("shell_approval_status", ["type", "session_id", "run_id", "source_run_id", "id",
      "approval_id", "decision", "execution", "continuation", "execution_id",
      "continuation_run_id", "revision", "error", "code"]),
    ("teach_request", ["type", "session_id", "run_id", "question", "text", "id", "options"]),
    ("ghost_post_turn_warning", ["type", "session_id", "run_id", "text", "error"])]

/-- The types that `machine_event_payload` projects. -/
def machineTypes : List String :=
  ["task_start", "status", "info", "shell_request", "turn", "reasoning", "tool_started", "tool",
    "task_done", "review", "headless_close"]

/-- What a process is given: the database that it serves, the members that the machine projection
adds to the type of an event, and the length of a JSON text, if there is one. -/
structure Server where
  databaseId : String
  machineFields : Fields → Fields
  jsonLength : Fields → Option Nat

inductive EncodeError where
  | privateEvent
  | failed
  deriving DecidableEq

def maxFrameBytes : Nat := 1024 * 1024

def cacheLimit : Nat := 8 * 1024 * 1024

variable (server : Server)

def browserEventPayload (event : Event) : Option Fields :=
  if event.type ∈ machineTypes then
    some (("type", .str event.type) :: server.machineFields event.payload)
  else none

def publicPayload (event : Event) : Option Fields :=
  (browserEventPayload server event).or
    ((publicFields.lookup event.type).map fun fields => event.payload.filter (·.1 ∈ fields))

/-- The body of an event that is not in the cache. -/
def project (event : Event) : Except EncodeError Fields :=
  match publicPayload server event with
  | none => .error .privateEvent
  | some body =>
    match server.jsonLength body with
    | none => .error .failed
    | some length => if maxFrameBytes < length then .error .failed else .ok body

/-- Whether a body is one of a `resync_required` event. -/
def isResync (body : Fields) : Bool := body.get? "type" = some (.str resyncType)

/-! ### The cache -/

inductive Key where
  | commit (sequence : Nat)
  | event (sequence : Nat)
  deriving DecidableEq

def Key.of (sequence : Nat) : Event → Key
  | .durableCommit r => .commit r.sequence
  | .notice _ => .event sequence

structure Feed where
  sequence : Nat
  cache : List (Key × Fields)
  cacheSize : Nat

namespace Feed

def empty : Feed := ⟨0, [], 0⟩

def bodyLength (body : Fields) : Nat := (server.jsonLength body).getD 0

/-- Drop the oldest bodies until one of a length fits. -/
def evict (length : Nat) : List (Key × Fields) → Nat → List (Key × Fields) × Nat
  | [], size => ([], size)
  | (key, body) :: cache, size =>
    if cacheLimit < size + length ∨ 1000 ≤ cache.length + 1 then
      evict length cache (size - bodyLength server body)
    else ((key, body) :: cache, size)

def encode (feed : Feed) (key : Key) (event : Event) : Except EncodeError (Fields × Feed) :=
  match feed.cache.find? (·.1 = key) with
  | some (_, body) =>
    .ok (body, { feed with cache := feed.cache.filter (·.1 ≠ key) ++ [(key, body)] })
  | none =>
    match project server event with
    | .error e => .error e
    | .ok body =>
      let length := bodyLength server body
      let (cache, size) := evict server length feed.cache feed.cacheSize
      if length ≤ cacheLimit then
        .ok (body, { feed with cache := cache ++ [(key, body)], cacheSize := size + length })
      else .ok (body, { feed with cache, cacheSize := size })

def cached (feed : Feed) (key : Key) : Option Fields := (feed.cache.find? (·.1 = key)).map (·.2)

end Feed

/-! ### Subscriptions -/

structure EncodedEvent where
  sequence : Nat
  commitSeq : Nat
  body : Fields
  deriving DecidableEq

structure Subscription where
  items : List EncodedEvent
  bytes : Nat
  closed : Bool
  cutoff : Nat

namespace Subscription

def maxEvents : Nat := 1000

def maxBytes : Nat := 8 * 1024 * 1024

def close (subscription : Subscription) : Subscription :=
  { subscription with closed := true, items := [], bytes := 0 }

def offer (subscription : Subscription) (event : EncodedEvent) : Subscription :=
  let length := Feed.bodyLength server event.body
  if subscription.closed then subscription
  else if maxEvents ≤ subscription.items.length ∨ maxBytes < subscription.bytes + length then
    subscription.close
  else
    { subscription with
      items := subscription.items ++ [event], bytes := subscription.bytes + length }

end Subscription

/-- A subscription starts after the events that are published already. -/
def Feed.subscribe (feed : Feed) : Subscription := ⟨[], 0, false, feed.sequence⟩

/-! ### Laws of the projection -/

variable {server}
variable {event : Event} {body : Fields} {feed feed' : Feed} {key : Key}

/-- Durable commits and markers are public. -/
lemma project_public (h : event.type = "durable_commit" ∨ event.type = resyncType) :
    project server event ≠ .error .privateEvent := by
  have hbody : (publicPayload server event).isSome := by
    have hmachine : event.type ∉ machineTypes := by
      rcases h with h | h <;> rw [h] <;> decide
    have hfields : (publicFields.lookup event.type).isSome := by
      rcases h with h | h <;> rw [h] <;> decide
    simp [publicPayload, browserEventPayload, hmachine, hfields]
  obtain ⟨body, hbody⟩ := Option.isSome_iff_exists.mp hbody
  simp only [project, hbody]
  split
  · simp
  · split <;> simp

lemma project_ok (h : project server event = .ok body) : publicPayload server event = some body := by
  simp only [project] at h
  split at h
  · cases h
  · rename_i found hfound
    split at h
    · cases h
    · split at h
      · cases h
      · rw [hfound, Except.ok.inj h]

/-- The body of a marker says that it is one. -/
lemma isResync_of_project (event : Event) (htype : event.type = resyncType)
    (h : project server event = .ok body) :
    isResync body = true := by
  have hbody := project_ok h
  cases event with
  | durableCommit r => exact absurd htype (by simp [Event.type, resyncType])
  | notice n =>
    have hmachine : resyncType ∉ machineTypes := by decide
    have hlookup : publicFields.lookup resyncType = some ["type", "reason", "cursor", "dropped"] := by
      decide
    rw [publicPayload, browserEventPayload, htype, if_neg hmachine, Option.none_or, hlookup,
      Option.map_some] at hbody
    rw [← Option.some.inj hbody, isResync, Event.payload, Fields.merge, ← Event.type_notice n, htype]
    simp

/-! ### Laws of the cache -/

def Feed.Sound (P : Key → Fields → Prop) (feed : Feed) : Prop :=
  ∀ entry ∈ feed.cache, P entry.1 entry.2

namespace Feed

variable {P Q : Key → Fields → Prop}

lemma evict_subset (length : Nat) (cache : List (Key × Fields)) (size : Nat) :
    (evict server length cache size).1 ⊆ cache := by
  induction cache generalizing size with
  | nil => simp [evict]
  | cons entry cache ih =>
    obtain ⟨key, body⟩ := entry
    simp only [evict]
    split
    · exact List.Subset.trans (ih _) (List.subset_cons_self _ _)
    · exact List.Subset.refl _

lemma Sound.mono (h : feed.Sound P) (hPQ : ∀ key body, P key body → Q key body) : feed.Sound Q :=
  fun entry hentry => hPQ _ _ (h entry hentry)

lemma Sound.cached (h : feed.Sound P) (hbody : feed.cached key = some body) : P key body := by
  obtain ⟨entry, hfind, rfl⟩ := Option.map_eq_some_iff.mp hbody
  have hkey : entry.1 = key := by simpa using List.find?_some hfind
  exact hkey ▸ h entry (List.mem_of_find?_eq_some hfind)

/-- An encoding gives the cached body, or projects the event. -/
lemma encode_ok (h : feed.encode server key event = .ok (body, feed')) :
    feed.cached key = some body ∨ feed.cached key = none ∧ project server event = .ok body := by
  simp only [encode] at h
  cases hfind : feed.cache.find? (·.1 = key) with
  | some entry =>
    rw [hfind] at h
    obtain ⟨rfl, -⟩ := Prod.mk.inj (Except.ok.inj h)
    exact Or.inl (by rw [Feed.cached, hfind]; rfl)
  | none =>
    rw [hfind] at h
    refine Or.inr ⟨by rw [Feed.cached, hfind]; rfl, ?_⟩
    cases hproject : project server event with
    | error e => simp [hproject] at h
    | ok found =>
      simp only [hproject] at h
      split at h <;> rw [← (Prod.mk.inj (Except.ok.inj h)).1]

lemma sound_encode (hsound : feed.Sound P) (hP : ∀ body, project server event = .ok body → P key body)
    (h : feed.encode server key event = .ok (body, feed')) :
    P key body ∧ feed'.Sound P ∧ feed'.sequence = feed.sequence := by
  have hbody : P key body := by
    rcases encode_ok h with hcached | ⟨-, hproject⟩
    · exact hsound.cached hcached
    · exact hP body hproject
  refine ⟨hbody, ?_⟩
  simp only [encode] at h
  cases hfind : feed.cache.find? (·.1 = key) with
  | some entry =>
    rw [hfind] at h
    obtain ⟨rfl, rfl⟩ := Prod.mk.inj (Except.ok.inj h)
    refine ⟨fun found hfound => ?_, rfl⟩
    rcases List.mem_append.mp hfound with hold | hnew
    · exact hsound found (List.mem_of_mem_filter hold)
    · rw [List.mem_singleton.mp hnew]
      exact hbody
  | none =>
    rw [hfind] at h
    cases hproject : project server event with
    | error e => simp [hproject] at h
    | ok projected =>
      have hkept : ∀ found ∈ (evict server (bodyLength server projected) feed.cache
          feed.cacheSize).1, P found.1 found.2 :=
        fun found hfound => hsound found (evict_subset _ _ _ hfound)
      simp only [hproject] at h
      split at h
      · obtain ⟨rfl, rfl⟩ := Prod.mk.inj (Except.ok.inj h)
        refine ⟨fun found hfound => ?_, rfl⟩
        rcases List.mem_append.mp hfound with hold | hnew
        · exact hkept found hold
        · rw [List.mem_singleton.mp hnew]
          exact hbody
      · obtain ⟨rfl, rfl⟩ := Prod.mk.inj (Except.ok.inj h)
        exact ⟨hkept, rfl⟩

lemma encode_error {e : EncodeError} (h : feed.encode server key event = .error e) :
    feed.cached key = none ∧ project server event = .error e := by
  simp only [encode] at h
  cases hfind : feed.cache.find? (·.1 = key) with
  | some entry =>
    rw [hfind] at h
    cases h
  | none =>
    rw [hfind] at h
    refine ⟨by rw [Feed.cached, hfind]; rfl, ?_⟩
    cases hproject : project server event with
    | error e' => simpa [hproject] using h
    | ok projected =>
      simp only [hproject] at h
      split at h <;> cases h

end Feed

end Events

end Codey
