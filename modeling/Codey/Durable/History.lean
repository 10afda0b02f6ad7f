import Codey.Durable.Growth
import Codey.Durable.ToolPairs

/-!
# History pages

`history_page` reads a conversation from its newest entries backwards. Each page hands out a cursor
that pins the path of the first page, so that later pages continue it while the conversation grows.
-/

namespace Codey

/-! ### Cursors -/

/-- `_encode_history_cursor`, as the JSON value that the cursor text encodes. -/
def encodeHistoryCursor (conversationId entryId : String) (head : Option String)
    (revision : Option Nat) : Json :=
  .obj [("s", .str conversationId), ("e", .str entryId),
    ("h", (head.map Json.str).getD .null),
    ("r", (revision.map fun n => Json.int n).getD .null)]

/-- What a cursor names: a conversation, the entry that the next page ends before, and the end of
the pinned path with its revision. -/
structure HistoryCursor where
  conversationId : String
  entryId : String
  pinned : Option (String × Nat)
  deriving DecidableEq

/-- The members of a cursor, when it is well formed. -/
def historyCursor? (fields : Fields) : Option HistoryCursor := do
  let conversationId ← (fields.get? "s").bind Json.str?
  let entryId ← (fields.get? "e").bind Json.str?
  match (fields.get? "h").getD .null, (fields.get? "r").getD .null with
  | .null, _ => some ⟨conversationId, entryId, none⟩
  | .str head, .int revision =>
    if head ≠ "" ∧ 0 ≤ revision then some ⟨conversationId, entryId, some (head, revision.toNat)⟩
    else none
  | _, _ => none

def decodeHistoryCursor : Json → Except Error HistoryCursor
  | .obj fields => match historyCursor? fields with
    | some cursor => .ok cursor
    | none => .error (.valueError "invalid conversation cursor")
  | _ => .error (.valueError "invalid conversation cursor")

lemma decode_encodeHistoryCursor {conversationId entryId head : String} (hhead : head ≠ "")
    (revision : Nat) :
    decodeHistoryCursor (encodeHistoryCursor conversationId entryId (some head) (some revision)) =
      .ok ⟨conversationId, entryId, some (head, revision)⟩ := by
  simp [decodeHistoryCursor, encodeHistoryCursor, historyCursor?, hhead]

/-! ### Items -/

def publicAttachment (ref : Fields) : Except Error Fields :=
  ["id", "name", "media_type", "size", "sha256"].mapM fun key => match ref.get? key with
    | some value => .ok (key, value)
    | none => .error (.keyError key)

def attachmentRef : Json → Except Error Fields
  | .obj ref => .ok ref
  | _ => .error (.valueError "invalid durable attachments")

/-- The attachments of an item, without their contents. -/
def publicAttachments : Json → Except Error Json
  | .arr refs => do
    let refs ← refs.mapM attachmentRef
    let attachments ← refs.mapM publicAttachment
    pure (.arr (attachments.map .obj))
  | _ => .error (.valueError "invalid durable attachments")

/-- The `data` of a review; `get` of another value is an `AttributeError`. -/
def reviewData (item : Fields) : Except Error Fields :=
  match item.get? "data" with
  | none => .ok []
  | some (.obj review) => .ok review
  | some _ => .error (.typeError "object has no attribute 'get'")

def reviewText (host : Host) (review : Fields) : String :=
  host.text ((review.get? "source").getD (.str "Reviewer")) ++ " · "
    ++ (if review.truthy "passed" then "Review passed" else "Changes requested") ++ ": "
    ++ host.text ((review.get? "summary").getD (.str ""))

def itemAttachments (item : Fields) : Except Error Fields :=
  if item.truthy "attachments" then do
    let attachments ← publicAttachments ((item.get? "attachments").getD .null)
    pure (item.set "attachments" attachments)
  else pure item

def itemReview (host : Host) (kind : String) (item : Fields) : Except Error Fields :=
  if kind = "control_review" then do
    let review ← reviewData item
    pure ((item.set "type" (.str "info")).set "text" (.str (reviewText host review)))
  else pure item

/-- The type that an item of a kind has by default. -/
def historyItemType : String → String
  | "user_message" => "user"
  | "assistant_message" => "asst"
  | "tool_call" => "tool_call"
  | "tool_result" => "tool_result"
  | "compaction" => "info"
  | kind => kind

/-- The task of an item; the answer of a task is its final one. -/
def itemRun (e : EntryDraft) : Fields :=
  match e.byTaskId with
  | none => []
  | some run => ("runId", .str run) ::
    if e.kind = "assistant_message" then
      [("finalAnswer", .bool true), ("contentRole", .str "final")]
    else []

def historyItem (host : Host) (e : EntryDraft) (ordinal : Nat) : Except Error Fields := do
  let item ← itemAttachments e.payload
  let item ← itemReview host e.kind item
  let item := if (item.get? "type").isSome then item
    else item.set "type" (.str (historyItemType e.kind))
  pure (item.merge ([("id", .str e.entryId), ("entry_id", .str e.entryId),
    ("ordinal", .int ordinal)] ++ itemRun e))

/-! ### Pages -/

/-- What a page shows: the entries of a path that are not bookkeeping. -/
def displayable (e : EntryDraft) : Bool :=
  e.kind ≠ "context_snapshot" && e.kind ≠ "control_config" && e.kind ≠ "control_receipt"

def taskLifecycle (host : Host) (t : TaskCheckpoint) : Fields :=
  [("run_id", .str t.taskId), ("session_id", .str t.conversationId),
    ("task_revision", .int t.revision), ("task_status", .str t.status.name),
    ("stop_reason", .str (host.member t.state "stop_reason"))]

/-- One page of a conversation. -/
structure HistoryPage where
  sessionId : String
  snapshotRevision : Nat
  inactiveRunIds : List String
  items : List Fields
  taskStates : List Fields
  beforeCursor : Option Json
  hasMore : Bool
  deriving DecidableEq

def pageLimit (limit : Int) : Nat := (max 1 (min 200 limit)).toNat

/-- The path that a page is cut from, the place it ends before, and its revision. -/
structure PageFrame where
  path : List EntryDraft
  boundary : Nat
  revision : Nat

/-- A request without a cursor ends with the newest entry; a cursor pins the path of the first
page. -/
def pageFrame (conversationId : String) (path : List EntryDraft) (revision : Nat) :
    Option Json → Except Error PageFrame
  | none => .ok ⟨path, path.length, revision⟩
  | some before => do
    let cursor ← decodeHistoryCursor before
    require (cursor.conversationId = conversationId) (.valueError "invalid conversation cursor")
    let (path, revision) ← match cursor.pinned with
      | none => pure (path, revision)
      | some (head, revision) => match Context.position? path head with
        | none => .error (.valueError "history snapshot changed")
        | some place => pure (path.take (place + 1), revision)
    match Context.position? path cursor.entryId with
    | none => .error (.valueError "cursor does not belong to current conversation path")
    | some boundary => pure ⟨path, boundary, revision⟩

namespace SqliteStore

variable (s : SqliteStore) (io : Responses) (host : Host)

def displayed (conversationId : String) : Except Error (List EntryDraft) := do
  let path ← s.context io conversationId
  pure (path.filter displayable)

def historyPage (conversationId : String) (before : Option Json) (limit : Int) :
    Except Error HistoryPage := do
  let path ← s.displayed io conversationId
  let own ← s.entriesOf conversationId
  let inactive := (writers own).filter fun run => !(writers path).contains run
  let (_, revision) ← s.head conversationId
  let frame ← pageFrame conversationId path revision before
  let start := frame.boundary - pageLimit limit
  let selected := (frame.path.take frame.boundary).drop start
  let items ← (selected.zipIdx (start + 1)).mapM fun p => historyItem host p.1 p.2
  let hasMore := decide (0 < start)
  let states ← (writers selected).mapM fun run => do
    let t ← s.task run
    pure (taskLifecycle host t)
  pure {
    sessionId := conversationId, snapshotRevision := frame.revision, inactiveRunIds := inactive
    items, taskStates := states, hasMore
    beforeCursor := if hasMore then
        selected.head?.bind fun first => frame.path.getLast?.map fun last =>
          encodeHistoryCursor conversationId first.entryId (some last.entryId)
            (some frame.revision)
      else none }

end SqliteStore

/-! ### Paths that are read again -/

/-- Up to the end of a prefix that the head cut leaves, the path is cut in the same place. -/
lemma applyHeadCut_front {path tail shown : List EntryDraft} (hne : shown ≠ [])
    (h : applyHeadCut (path ++ tail) = shown ++ tail) : applyHeadCut path = shown := by
  induction tail using List.reverseRecOn with
  | nil => simpa using h
  | append_singleton tail e ih =>
    rw [← List.append_assoc, applyHeadCut_snoc, ← List.append_assoc] at h
    unfold grow at h
    split at h
    · have hlength := congrArg List.length h
      have := List.length_pos_of_ne_nil hne
      simp at hlength
      omega
    · exact ih (List.append_cancel_right h)

lemma pathThrough_of_nodup {before after : List EntryDraft} {e : EntryDraft}
    (h : ((before ++ e :: after).map (·.entryId)).Nodup) :
    pathThrough (before ++ e :: after) e.entryId = some (before ++ [e]) := by
  rw [pathThrough_append]
  have hnone : pathThrough before e.entryId = none := by
    cases hkept : pathThrough before e.entryId with
    | none => rfl
    | some kept =>
      obtain ⟨x, f, y, rfl, -, hid⟩ := pathThrough_split hkept
      simp only [List.map_append, List.map_cons, List.nodup_append] at h
      exact absurd hid (h.2.2 f.entryId (by simp) e.entryId (by simp))
  rw [hnone, Option.none_or, pathThrough, if_pos rfl]
  rfl

namespace SqliteStore

variable {s s' : SqliteStore} {m : DurableMutation} {r : CommitResult} {io : Responses}
  {id : String}

variable {path : List EntryDraft} {leaf : Option String}

/-- Commits that do not delete the conversation leave what it shows up to an entry. -/
lemma shown_commit (h : Shown s.entriesOf s.conversationParent id leaf path)
    (hcommit : s.commit m = .ok (r, s'))
    (hkept : m.deleteConversation = true → m.conversationId ≠ id) :
    Shown s'.entriesOf s'.conversationParent id leaf path := by
  rcases commit_writes hcommit with ⟨-, rfl⟩ | ⟨hdelete, -, hr⟩ | ⟨-, -, s₀, c, hw, -⟩
  · exact h
  · exact h.extends hr.extension (hkept hdelete).symm
  · exact (h.extends (extends_of_create hw.created) trivial).extends hw.extension trivial

def displayedIds (path : List EntryDraft) : List String :=
  (path.filter displayable).map (·.entryId)

/-- References are resolved without a trace in ids and kinds. -/
lemma displayedIds_of_resolve {path path' : List EntryDraft}
    (h : s.resolveResponseEntries io path = .ok path') : displayedIds path' = displayedIds path := by
  induction path generalizing path' with
  | nil =>
    obtain rfl := Except.ok.inj h
    rfl
  | cons e path ih =>
    obtain ⟨e', he, h⟩ := except_bind_eq_ok.mp h
    obtain ⟨rest, hrest, rfl⟩ := except_last_eq_ok.mp h
    have hsame : displayable e' = displayable e ∧ e'.entryId = e.entryId := by
      unfold resolveEntry at he
      split at he
      · rw [Except.ok.inj he]
        exact ⟨rfl, rfl⟩
      · obtain ⟨payload, -, rfl⟩ := except_last_eq_ok.mp he
        exact ⟨rfl, rfl⟩
    have ih := ih hrest
    unfold displayedIds at ih ⊢
    rw [List.filter_cons, List.filter_cons, hsame.1]
    split
    · rw [List.map_cons, List.map_cons, ih, hsame.2]
    · exact ih

/-- What a conversation displays comes from its path. -/
lemma displayed_eq_ok {shown : List EntryDraft} (h : s.displayed io id = .ok shown) :
    s.hasConversation id = true ∧ ∃ leaf path,
      Shown s.entriesOf s.conversationParent id leaf path ∧
      shown.map (·.entryId) = displayedIds (applyHeadCut path) := by
  obtain ⟨path, hpath, rfl⟩ := except_last_eq_ok.mp h
  obtain ⟨leaf, hhead, hpath⟩ := except_bind_eq_ok.mp hpath
  obtain ⟨raw, hraw, hresolve⟩ := except_bind_eq_ok.mp hpath
  refine ⟨?_, leaf, raw, shown_of_contextPath hraw, displayedIds_of_resolve hresolve⟩
  cases hc : s.conversations.get? id with
  | none => simp [head, conversation, hc, bind, Except.bind, Except.map] at hhead
  | some c => exact hasConversation_iff.mpr ⟨c, hc⟩

/-- In one store, a conversation shows up to an entry what it shows before that entry. -/
lemma shown_through {path kept : List EntryDraft} {entryId : String}
    (h : Shown s.entriesOf s.conversationParent id leaf path) (hid : s.hasConversation id = true)
    (hkept : pathThrough path entryId = some kept) :
    Shown s.entriesOf s.conversationParent id (some entryId) kept := by
  refine h.through (entriesOf_eq_ok.mpr ⟨hid, rfl⟩) (fun above habove e he f hf hsame => ?_) hkept
  obtain ⟨hne, d, own, hown, hmem⟩ := habove.foreign
    (fun d own hown e he => ((mem_entriesOf hown).mp he).2) e he
  obtain ⟨hfrow, hfconv⟩ := List.mem_filter.mp hf
  have hf := Table.mem_rows_iff.mp hfrow
  rw [hsame, Table.mem_rows_iff.mp ((mem_entriesOf hown).mp hmem).1] at hf
  rw [Option.some.inj hf] at hne
  exact hne (by simpa using hfconv)

lemma displayedIds_split {before after : List String} {entryId : String}
    (h : displayedIds path = before ++ entryId :: after) : ∃ x e y, path = x ++ e :: y ∧
      e.entryId = entryId ∧ displayedIds (x ++ [e]) = before ++ [entryId] ∧
      displayedIds y = after := by
  obtain ⟨front, back, hfilter, hfront, hback⟩ := List.map_eq_append_iff.mp h
  obtain ⟨e, rest, rfl, he, hrest⟩ := List.map_eq_cons_iff.mp hback
  obtain ⟨x, tail, rfl, rfl, htail⟩ := List.filter_eq_append_iff.mp hfilter
  obtain ⟨skip, y, rfl, hskip, hshown, rfl⟩ := List.filter_eq_cons_iff.mp htail
  have hnone : skip.filter displayable = [] := List.filter_eq_nil_iff.mpr hskip
  refine ⟨x ++ skip, e, y, by simp, he, ?_, hrest⟩
  simp [displayedIds, hnone, hshown, hfront, he]

/-- What a conversation shows up to a displayed entry is cut where its path is cut. -/
lemma shown_displayed (hpath : Shown s.entriesOf s.conversationParent id leaf path)
    (hid : s.hasConversation id = true) {x y : List EntryDraft} {e : EntryDraft}
    (hcut : applyHeadCut path = x ++ e :: y) : ∃ kept,
      Shown s.entriesOf s.conversationParent id (some e.entryId) kept ∧
      applyHeadCut kept = x ++ [e] := by
  obtain ⟨above, habove⟩ := applyHeadCut_suffix path
  have hsplit : path = (above ++ x) ++ e :: y := by rw [← habove, hcut, List.append_assoc]
  have hthrough := pathThrough_of_nodup (hsplit ▸ nodup_of_shown hpath)
  rw [← hsplit] at hthrough
  refine ⟨_, shown_through hpath hid hthrough, @applyHeadCut_front _ y _ (by simp) ?_⟩
  rw [List.append_assoc, List.append_assoc, List.append_assoc, List.singleton_append,
    ← List.append_assoc, ← hsplit, hcut]

/-- When a store shows what another one showed, a conversation displays up to the last entry that
was displayed what it displayed then. -/
lemma displayed_pinned {shown shown' : List EntryDraft} (h : s.displayed io id = .ok shown)
    (h' : s'.displayed io id = .ok shown')
    (hkept : ∀ leaf path, Shown s.entriesOf s.conversationParent id leaf path →
      Shown s'.entriesOf s'.conversationParent id leaf path)
    {head : String} (hlast : (shown.map (·.entryId)).getLast? = some head) {place : Nat}
    (hplace : Context.position? shown' head = some place) :
    (shown'.take (place + 1)).map (·.entryId) = shown.map (·.entryId) := by
  obtain ⟨hid, leaf, path, hpath, hids⟩ := displayed_eq_ok h
  obtain ⟨hid', leaf', path', hpath', hids'⟩ := displayed_eq_ok h'
  obtain ⟨before, hbefore⟩ := List.getLast?_eq_some_iff.mp hlast
  obtain ⟨x, e, y, hcut, he, hx, -⟩ := displayedIds_split (hids.symm.trans hbefore)
  obtain ⟨f, hf, hfid⟩ := Context.position?_spec hplace
  have hget : (shown'.map (·.entryId))[place]? = some head := by simp [hf, hfid]
  obtain ⟨hlt, hgetE⟩ := List.getElem?_eq_some_iff.mp hget
  have hsplit : shown'.map (·.entryId) = (shown'.map (·.entryId)).take place ++
      head :: (shown'.map (·.entryId)).drop (place + 1) := by
    rw [← hgetE, List.getElem_cons_drop, List.take_append_drop]
  obtain ⟨x', e', y', hcut', he', hx', -⟩ := displayedIds_split (hids'.symm.trans hsplit)
  obtain ⟨kept, hshown, hkeptCut⟩ := shown_displayed hpath hid hcut
  obtain ⟨kept', hshown', hkeptCut'⟩ := shown_displayed hpath' hid' hcut'
  rw [he] at hshown
  rw [he'] at hshown'
  obtain rfl := (hkept _ _ hshown).unique hshown'
  rw [← hkeptCut', hkeptCut, hx, ← hbefore] at hx'
  rw [hx', List.map_take, List.take_add_one, hget]
  rfl

end SqliteStore

/-! ### One page -/

def numbered (ids : List String) : List (String × Nat) := ids.zipIdx 1

def itemKey (item : Fields) : Option Json × Option Json :=
  (item.get? "entry_id", item.get? "ordinal")

/-- The id and the ordinal that an entry has as an item. -/
def ordinalKey (p : String × Nat) : Option Json × Option Json := (some (.str p.1), some (.int p.2))

lemma itemKey_of_historyItem {host : Host} {e : EntryDraft} {ordinal : Nat} {item : Fields}
    (h : historyItem host e ordinal = .ok item) : itemKey item = ordinalKey (e.entryId, ordinal) := by
  obtain ⟨_, -, h⟩ := except_bind_eq_ok.mp h
  obtain ⟨_, -, rfl⟩ := except_last_eq_ok.mp h
  simp [itemKey, ordinalKey]

lemma itemKeys_of_mapM {host : Host} {numberedEntries : List (EntryDraft × Nat)} {items : List Fields}
    (h : numberedEntries.mapM (fun p => historyItem host p.1 p.2) = .ok items) :
    items.map itemKey = numberedEntries.map fun p => ordinalKey (p.1.entryId, p.2) := by
  have hforall := forall₂_of_mapM h
  clear h
  induction hforall with
  | nil => rfl
  | cons hitem _ ih => rw [List.map_cons, List.map_cons, itemKey_of_historyItem hitem, ih]

/-- A slice of a path has the numbers that its entries have in the path. -/
lemma numbered_slice (path : List EntryDraft) (start boundary : Nat) :
    (((path.take boundary).drop start).zipIdx (start + 1)).map (fun p => (p.1.entryId, p.2)) =
      ((numbered (path.map (·.entryId))).take boundary).drop start := by
  refine List.ext_getElem? fun n => ?_
  simp only [numbered, List.getElem?_map, List.getElem?_zipIdx, List.getElem?_drop,
    List.getElem?_take]
  split
  · cases path[start + n]? with
    | none => rfl
    | some e => simp [Nat.add_assoc, Nat.add_comm 1]
  · rfl

lemma pageLimit_pos (limit : Int) : 0 < pageLimit limit := by
  unfold pageLimit
  omega

/-- A page that ends before the place `boundary` of a path: the items that stand there, with their
numbers, and the cursor of the first of them, unless the path begins with it. -/
structure PageSlice (conversationId : String) (ids : List String) (boundary revision limit : Nat)
    (page : HistoryPage) : Prop where
  items : page.items.map itemKey =
    (((numbered ids).take boundary).drop (boundary - limit)).map ordinalKey
  more : page.hasMore = decide (0 < boundary - limit)
  cursor : page.beforeCursor = if 0 < boundary - limit then
      (ids[boundary - limit]?).bind fun first => ids.getLast?.map fun last =>
        encodeHistoryCursor conversationId first (some last) (some revision)
    else none

lemma SqliteStore.historyPage_eq_ok {s : SqliteStore} {io : Responses} {host : Host} {id : String}
    {before : Option Json} {limit : Int} {page : HistoryPage}
    (h : s.historyPage io host id before limit = .ok page) : ∃ path revision frame,
      s.displayed io id = .ok path ∧ pageFrame id path revision before = .ok frame ∧
      PageSlice id (frame.path.map (·.entryId)) frame.boundary frame.revision (pageLimit limit)
        page := by
  obtain ⟨path, hpath, h⟩ := except_bind_eq_ok.mp h
  obtain ⟨own, -, h⟩ := except_bind_eq_ok.mp h
  obtain ⟨⟨_, revision⟩, -, h⟩ := except_bind_eq_ok.mp h
  obtain ⟨frame, hframe, h⟩ := except_bind_eq_ok.mp h
  obtain ⟨items, hitems, h⟩ := except_bind_eq_ok.mp h
  obtain ⟨states, -, rfl⟩ := except_last_eq_ok.mp h
  refine ⟨path, revision, frame, hpath, hframe, ?_, rfl, ?_⟩
  · rw [itemKeys_of_mapM hitems, ← numbered_slice, List.map_map]
    rfl
  · dsimp only
    by_cases hmore : 0 < frame.boundary - pageLimit limit
    · rw [if_pos (decide_eq_true hmore), if_pos hmore]
      have hlt : frame.boundary - pageLimit limit < frame.boundary := by
        have := pageLimit_pos limit
        omega
      have hhead : ((frame.path.take frame.boundary).drop
          (frame.boundary - pageLimit limit)).head? =
          frame.path[frame.boundary - pageLimit limit]? := by
        rw [List.head?_drop, List.getElem?_take, if_pos hlt]
      rw [List.getElem?_map, List.getLast?_map, Option.bind_map]
      refine (congrArg (Option.bind · _) hhead).trans (Option.bind_congr fun first _ => ?_)
      rw [Function.comp_apply, Option.map_map]
      rfl
    · rw [if_neg (by simpa using hmore), if_neg hmore]

/-! ### Following the cursor -/

/-- The path of the request that follows a page is pinned where the path of that page ends, and the
request ends before the page. -/
lemma pageFrame_cursor {id : String} {path : List EntryDraft} {revision pinned : Nat}
    {first last : String} {frame : PageFrame} (hlast : last ≠ "")
    (h : pageFrame id path revision (some (encodeHistoryCursor id first (some last) (some pinned))) =
      .ok frame) : ∃ place, Context.position? path last = some place ∧
      frame.path = path.take (place + 1) ∧
      Context.position? frame.path first = some frame.boundary := by
  simp only [pageFrame, decode_encodeHistoryCursor hlast] at h
  obtain ⟨_, hcursor, h⟩ := except_bind_eq_ok.mp h
  obtain rfl := Except.ok.inj hcursor
  obtain ⟨-, h⟩ := except_seq_eq_ok.mp h
  dsimp only at h
  cases hplace : Context.position? path last with
  | none => simp [hplace] at h; cases h
  | some place =>
    rw [hplace] at h
    obtain ⟨_, hpair, h⟩ := except_bind_eq_ok.mp h
    obtain rfl := Except.ok.inj hpair
    dsimp only at h
    split at h
    · cases h
    · rename_i boundary hboundary
      obtain rfl := Except.ok.inj h
      exact ⟨place, rfl, rfl, hboundary⟩

/-- Commits that leave a conversation in place. -/
def Spared (id : String) (m : MutationData) : Prop :=
  m.deleteConversation = true → m.conversationId ≠ id

lemma SqliteStore.shown_run {s s' : SqliteStore} {id : String}
    (hrun : CommitRun (Spared id) s s') {leaf : Option String} {path : List EntryDraft}
    (h : Shown s.entriesOf s.conversationParent id leaf path) :
    Shown s'.entriesOf s'.conversationParent id leaf path := by
  induction hrun with
  | refl => exact h
  | tail _ hcommit hm ih => exact shown_commit ih hcommit hm

lemma CommitRun.append {ok : MutationData → Prop} {s s' s'' : SqliteStore} (h : CommitRun ok s s')
    (h' : CommitRun ok s' s'') : CommitRun ok s s'' := by
  induction h' with
  | refl => exact h
  | tail _ hcommit hm ih => exact ih.tail hcommit hm

/-- Pages that were read one after the other, the newest request first, each with the cursor that
the page before it handed out. Between two requests other operations commit what they like, but do
not delete the conversation. -/
inductive Paging (io : Responses) (host : Host) (id : String) (s₀ : SqliteStore) :
    SqliteStore → List HistoryPage → Prop
  | first {limit : Int} {page : HistoryPage} :
      s₀.historyPage io host id none limit = .ok page → Paging io host id s₀ s₀ [page]
  | next {s s' : SqliteStore} {page page' : HistoryPage} {pages : List HistoryPage}
      {cursor : Json} {limit : Int} :
      Paging io host id s₀ s (page :: pages) → page.beforeCursor = some cursor →
      CommitRun (Spared id) s s' →
      s'.historyPage io host id (some cursor) limit = .ok page' →
      Paging io host id s₀ s' (page' :: page :: pages)

/-- What has been read: the numbered entries from `start` on, and a cursor to what stands before
them. -/
structure ReadFrom (id : String) (ids : List String) (page : HistoryPage) (pages : List HistoryPage)
    (start revision : Nat) : Prop where
  items : ((page :: pages).flatMap (·.items)).map itemKey =
    ((numbered ids).drop start).map ordinalKey
  more : page.hasMore = decide (0 < start)
  cursor : page.beforeCursor = if 0 < start then
      (ids[start]?).bind fun first => ids.getLast?.map fun last =>
        encodeHistoryCursor id first (some last) (some revision)
    else none
  shorter : pages.length + start < ids.length ∨ pages = [] ∧ ids = [] ∧ start = 0
  adds : ids ≠ [] → ∀ p ∈ page :: pages, p.items ≠ []

lemma drop_take_append_drop {α : Type} (l : List α) {start boundary : Nat} (h : start ≤ boundary) :
    (l.take boundary).drop start ++ l.drop boundary = l.drop start := by
  rcases Nat.lt_or_ge l.length boundary with hlt | hle
  · rw [List.take_of_length_le hlt.le, List.drop_eq_nil_of_le hlt.le, List.append_nil]
  · conv_rhs => rw [← List.take_append_drop boundary l]
    rw [List.drop_append_of_le_length]
    rw [List.length_take]
    omega

section Following

variable {io : Responses} {host : Host} {id : String} {s₀ s : SqliteStore}
  {page : HistoryPage} {pages : List HistoryPage} {ids : List String}

/-- A page that ends inside a path has an item. -/
lemma PageSlice.items_ne_nil {boundary revision limit : Nat}
    (h : PageSlice id ids boundary revision limit page) (hboundary : 0 < boundary)
    (hle : boundary ≤ ids.length) (hlimit : 0 < limit) : page.items ≠ [] := by
  intro hnil
  have hlength := congrArg List.length h.items
  simp only [hnil, List.map_nil, List.length_nil, List.length_map, List.length_drop,
    List.length_take, numbered, List.length_zipIdx] at hlength
  omega

/-- The first page reads from the end of the path. -/
lemma PageSlice.first {revision limit : Nat} (h : PageSlice id ids ids.length revision limit page)
    (hlimit : 0 < limit) : ReadFrom id ids page [] (ids.length - limit) revision := by
  refine ⟨?_, h.more, h.cursor, ?_, fun hne => ?_⟩
  · have htake : (numbered ids).take ids.length = numbered ids :=
      List.take_of_length_le (by simp [numbered])
    rw [List.flatMap_cons, List.flatMap_nil, List.append_nil, h.items, htake]
  · cases ids with
    | nil => exact Or.inr ⟨rfl, rfl, Nat.zero_sub limit⟩
    | cons first rest =>
      refine Or.inl ?_
      simp only [List.length_nil, List.length_cons]
      omega
  · rw [List.forall_mem_singleton]
    exact h.items_ne_nil (List.length_pos_of_ne_nil hne) le_rfl hlimit

/-- A later page continues what has been read. -/
lemma PageSlice.next {page' : HistoryPage} {start pinned revision limit : Nat}
    (h : PageSlice id ids start revision limit page')
    (hread : ReadFrom id ids page pages start pinned)
    (hstart : 0 < start) (hlt : start < ids.length) (hlimit : 0 < limit) :
    ReadFrom id ids page' (page :: pages) (start - limit) revision := by
  refine ⟨?_, h.more, h.cursor, ?_, fun hne => ?_⟩
  · rw [List.flatMap_cons, List.map_append, h.items, hread.items, ← List.map_append,
      drop_take_append_drop _ (Nat.sub_le start limit)]
  · refine Or.inl ?_
    rcases hread.shorter with hshorter | ⟨-, rfl, -⟩
    · rw [List.length_cons]
      omega
    · cases hlt
  · exact List.forall_mem_cons.mpr ⟨h.items_ne_nil hstart hlt.le hlimit, hread.adds hne⟩

lemma SqliteStore.nodup_of_displayed {shown : List EntryDraft} (h : s.displayed io id = .ok shown) :
    (shown.map (·.entryId)).Nodup := by
  obtain ⟨-, leaf, path, hpath, hids⟩ := displayed_eq_ok h
  rw [hids, displayedIds]
  exact ((List.filter_sublist.trans (applyHeadCut_suffix path).sublist).map _).nodup
    (nodup_of_shown hpath)

/-- Every sequence of requests reads the entries that the conversation displayed at the first. -/
lemma Paging.read {l : List HistoryPage} (h : Paging io host id s₀ s l) :
    CommitRun (Spared id) s₀ s ∧ ∃ shown page pages start revision, l = page :: pages ∧
      s₀.displayed io id = .ok shown ∧ ReadFrom id (shown.map (·.entryId)) page pages
    start revision := by
  induction h with
  | @first limit page hpage =>
    obtain ⟨shown, revision, frame, hshown, hframe, hslice⟩ := SqliteStore.historyPage_eq_ok hpage
    obtain rfl := Except.ok.inj hframe
    rw [← List.length_map (·.entryId)] at hslice
    exact ⟨.refl, shown, page, [], _, _, rfl, hshown, hslice.first (pageLimit_pos limit)⟩
  | @next s s' page₀ page' pages₀ cursor limit _ hcursor hrun hpage ih =>
    obtain ⟨hrun₀, shown, page, pages, start, revision, heq, hshown, hread⟩ := ih
    obtain ⟨rfl, rfl⟩ := List.cons.inj heq
    rw [hread.cursor] at hcursor
    split at hcursor
    swap
    · cases hcursor
    rename_i hstart
    obtain ⟨first, hfirst, hcursor⟩ := Option.bind_eq_some_iff.mp hcursor
    obtain ⟨last, hlast, rfl⟩ := Option.map_eq_some_iff.mp hcursor
    obtain ⟨path, _, frame, hpath, hframe, hslice⟩ := SqliteStore.historyPage_eq_ok hpage
    have hne : last ≠ "" := by
      obtain ⟨e, -, rfl⟩ := List.mem_map.mp (List.mem_of_getLast? hlast)
      exact e.named.1
    obtain ⟨place, hplace, hpinned, hboundary⟩ := pageFrame_cursor hne hframe
    -- The pinned path displays what the first page displayed, hence the page ends where it should.
    have hids : frame.path.map (·.entryId) = shown.map (·.entryId) := by
      rw [hpinned]
      exact SqliteStore.displayed_pinned hshown hpath
        (fun _ _ hpath => SqliteStore.shown_run (hrun₀.append hrun) hpath) hlast hplace
    obtain ⟨hlt, -⟩ := List.getElem?_eq_some_iff.mp hfirst
    have hsame : start = frame.boundary := by
      obtain ⟨e, he, hid⟩ := Context.position?_spec hboundary
      refine (List.getElem?_inj hlt (SqliteStore.nodup_of_displayed hshown)).mp ?_
      rw [hfirst, ← hids, List.getElem?_map, he, Option.map_some, hid]
    rw [hids, ← hsame] at hslice
    exact ⟨hrun₀.append hrun, shown, page', page₀ :: pages₀, _, _, rfl, hshown,
      hslice.next hread hstart hlt (pageLimit_pos limit)⟩

end Following

/-- Following the cursor of the first page of a conversation, with any limits and any commits in
between that do not delete the conversation, reads the entries that it displayed at the first
request, newest first, each once and under its number. A request hands out a cursor as long as there
are older entries, and the page of each one that succeeds has an item, unless the conversation
displayed nothing and its one page is empty. -/
theorem history_paging {io : Responses} {host : Host} {id : String} {s₀ s : SqliteStore}
    {page : HistoryPage} {pages : List HistoryPage}
    (h : Paging io host id s₀ s (page :: pages)) :
    ∃ shown start, s₀.displayed io id = .ok shown ∧ (shown.map (·.entryId)).Nodup ∧
      ((page :: pages).flatMap (·.items)).map itemKey =
        ((numbered (shown.map (·.entryId))).drop start).map ordinalKey ∧
      (page.hasMore = true ↔ 0 < start) ∧ (page.beforeCursor.isSome = page.hasMore) ∧
      ((∀ p ∈ page :: pages, p.items ≠ []) ∧ pages.length + start < shown.length ∨
        pages = [] ∧ shown = []) := by
  obtain ⟨-, shown, page', pages', start, revision, heq, hshown, hread⟩ := h.read
  obtain ⟨rfl, rfl⟩ := List.cons.inj heq
  refine ⟨shown, start, hshown, SqliteStore.nodup_of_displayed hshown, hread.items,
    by rw [hread.more, decide_eq_true_eq], ?_, ?_⟩
  · rw [hread.cursor, hread.more]
    by_cases hstart : 0 < start
    · rcases hread.shorter with hshorter | ⟨-, -, hzero⟩
      · have hlt : start < (shown.map (·.entryId)).length := by omega
        have hne : shown.map (·.entryId) ≠ [] := List.ne_nil_of_length_pos (by omega)
        simp [hstart, List.getElem?_eq_getElem hlt, List.getLast?_eq_some_getLast hne]
      · omega
    · simp [hstart]
  · rcases hread.shorter with hshorter | ⟨hpages, hnil, -⟩
    · have hne : shown.map (·.entryId) ≠ [] := List.ne_nil_of_length_pos (by omega)
      exact Or.inl ⟨hread.adds hne, by simpa using hshorter⟩
    · exact Or.inr ⟨hpages, List.map_eq_nil_iff.mp hnil⟩

/-- A host that prints nothing but texts. -/
def blankHost : Host where
  str _ := ""
  repr _ := ""
  dumps _ := ""
  digest _ := ""

def sampleHistory : List ConversationCall :=
  [.create firstSession "root",
    .append firstSession "root" "user_message" [("text", .str "one")] "entry-1",
    .append firstSession "root" "assistant_message" [("text", .str "two")] "entry-2",
    .append firstSession "root" "user_message" [("text", .str "three")] "entry-3"]

def historyStore (calls : List ConversationCall) : SqliteStore :=
  (Pool.execute ConversationCall.prog (sampleHistory ++ calls) { store := {} }).store

def samplePage (calls : List ConversationCall) (before : Option Json) (limit : Int) :
    Except Error HistoryPage :=
  (historyStore calls).historyPage noResponses blankHost "root" before limit

/-- The cursor that the first page of one message hands out. -/
def sampleCursor : Json := encodeHistoryCursor "root" "entry-3" (some "entry-3") (some 3)

def sampleArrival : List ConversationCall :=
  [.append firstSession "root" "user_message" [] "entry-4"]

theorem history_paging_sample : ∃ first second,
    samplePage [] none 1 = .ok first ∧ samplePage sampleArrival (some sampleCursor) 5 = .ok second ∧
    ((second :: [first]).flatMap (·.items)).map itemKey =
      [("entry-1", 1), ("entry-2", 2), ("entry-3", 3)].map ordinalKey := by
  have hpages : (samplePage [] none 1).toOption.isSome = true ∧
      (samplePage [] none 1).toOption.bind (·.beforeCursor) = some sampleCursor ∧
      (samplePage sampleArrival (some sampleCursor) 5).toOption.map (·.hasMore) = some false ∧
      ((historyStore []).displayed noResponses "root").toOption.map
        (fun shown => shown.map (·.entryId)) = some ["entry-1", "entry-2", "entry-3"] := by
    decide +kernel
  obtain ⟨hfirst, hcursor, hsecond, hshown⟩ := hpages
  obtain ⟨first, hfirst⟩ := ok_of_isSome hfirst
  obtain ⟨second, hsecond', hlast⟩ := Option.map_eq_some_iff.mp hsecond
  obtain ⟨_, hsecond⟩ := ok_of_isSome (Option.isSome_of_mem hsecond')
  rw [hsecond] at hsecond'
  obtain rfl := Option.some.inj hsecond'
  rw [hfirst] at hcursor
  have hrun : CommitRun (Spared "root") (historyStore []) (historyStore sampleArrival) := by
    rw [historyStore, historyStore, List.append_nil, Pool.execute, Pool.execute, List.foldl_append]
    refine ConversationCall.commitRun (fun call hcall m hm hdelete => ?_) .refl
    obtain rfl := List.mem_singleton.mp hcall
    rw [hm.2.2] at hdelete
    cases hdelete
  obtain ⟨shown, start, hdisplayed, -, hitems, hmore, -⟩ :=
    history_paging ((Paging.first hfirst).next hcursor hrun hsecond)
  refine ⟨first, _, hfirst, hsecond, ?_⟩
  rw [hdisplayed] at hshown
  have hzero : start = 0 := by
    by_contra hstart
    rw [hmore.mpr (Nat.pos_of_ne_zero hstart)] at hlast
    cases hlast
  have hids : shown.map (·.entryId) = ["entry-1", "entry-2", "entry-3"] := Option.some.inj hshown
  rw [hitems, hzero, hids]
  rfl

def sampleRemoval : List ConversationCall := [.delete firstSession "root"]

/-- Another conversation takes its place, with an entry of the same name. -/
def sampleRevival : List ConversationCall :=
  [.delete firstSession "root", .create firstSession "root",
    .append firstSession "root" "user_message" [] "entry-9",
    .append firstSession "root" "user_message" [] "entry-3"]

/-- A message whose attachment has no id. -/
def sampleUnnamed : List ConversationCall :=
  [.append firstSession "root" "user_message" [("attachments", .arr [.obj []])] "entry-4"]

/-- A page with an attachment that lacks its id raises another exception than a `ValueError`. After
a deletion so does the cursor, and when the conversation and the pinned entry have successors of the
same names it continues with an entry that was never displayed, as the last one. -/
theorem history_paging_deleted :
    samplePage sampleUnnamed none 1 = .error (.keyError "id") ∧
    ((samplePage [] none 1).toOption.bind (·.beforeCursor) = some sampleCursor ∧
      ((historyStore []).displayed noResponses "root").toOption.map
        (fun shown => shown.map (·.entryId)) = some ["entry-1", "entry-2", "entry-3"]) ∧
    samplePage sampleRemoval (some sampleCursor) 5 =
      .error (.keyError "unknown conversation: root") ∧
    (samplePage sampleRevival (some sampleCursor) 5).toOption.map
      (fun page => (page.items.map itemKey, page.hasMore)) =
        some ([ordinalKey ("entry-9", 1)], false) := by
  decide +kernel

end Codey
