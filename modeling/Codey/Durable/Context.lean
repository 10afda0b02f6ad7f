import Codey.Durable.Records
import Mathlib.Data.List.Sort
import Mathlib.Data.Prod.Lex
import Mathlib.Order.BoundedOrder.Basic

/-!
# Provider context

`build_context`: the newest entries of a conversation path that fit a token budget, as provider
messages. Tool calls and tool results are paired up after the selection.
-/

namespace Codey

/-- What the host language prints, encodes and hashes: `str` and `repr` of a value that is not a
text, `json.dumps`, and the digest of a list of messages. -/
structure Host where
  str : Json → String
  repr : Json → String
  dumps : Json → String
  digest : List Fields → String

namespace Host

variable (io : Host)

/-- `str(value)`. -/
def text : Json → String
  | .str s => s
  | value => io.str value

/-- `str(payload.get(key) or "")`. -/
def member (payload : Fields) (key : String) : String :=
  if payload.truthy key then io.text ((payload.get? key).getD .null) else ""

end Host

namespace Context

variable (io : Host)

/-! ### Context edits -/

/-- `d[key] = value`: a new key is the last one. -/
def assign {β : Type} (key : String) (value : β) : List (String × β) → List (String × β)
  | [] => [(key, value)]
  | (k, v) :: rest => if k = key then (k, value) :: rest else (k, v) :: assign key value rest

/-- A value that a set or a dict can look up. -/
def hashable : Json → Except Error Unit
  | .arr _ => .error (.typeError "unhashable type: 'list'")
  | .obj _ => .error (.typeError "unhashable type: 'dict'")
  | _ => .ok ()

def kindForMessage (message : Fields) : String :=
  match message.get? "role" with
  | some (.str "user") => "user_message"
  | some (.str "assistant") =>
    if message.truthy "tool_calls" then "tool_call" else "assistant_message"
  | some (.str "tool") => "tool_result"
  | _ => "system_message"

/-- The member of a key as a member of its own, unless it is `None`. -/
def keep (message : Fields) (key : String) : Fields :=
  (((message.get? key).filter (· ≠ .null)).map fun value => (key, value)).toList

def payloadForMessage (message : Fields) : Except Error Fields := do
  let role := (message.get? "role").getD .null
  hashable role
  if role = .str "user" ∨ role = .str "assistant" then
    pure (keep message "status" ++ [("text", .str (io.member message "content"))]
      ++ keep message "tool_calls")
  else
    let content := if message.truthy "content" then (message.get? "content").getD .null else .str ""
    if role = .str "tool" then
      pure [("call_id", (message.get? "tool_call_id").getD .null), ("content", content),
        ("is_error", .bool (message.get? "is_error" = some (.bool true)))]
    else pure [("content", content)]

lemma kindForMessage_ne (message : Fields) : kindForMessage message ≠ "" := by
  unfold kindForMessage
  split <;> try split
  all_goals decide

lemma append_ne_empty (a : String) {b : String} (h : b ≠ "") : a ++ b ≠ "" := by
  intro heq
  exact h (String.append_eq_empty_iff.mp heq).2

/-- The entry that stands for one message of a replacement. -/
def replacementEntry (source : EntryDraft) (index : Nat) (message : Fields) :
    Except Error EntryDraft := do
  let payload ← payloadForMessage io message
  pure {
    entryId := source.entryId ++ (":replacement:" ++ toString index)
    conversationId := source.conversationId, parentId := source.parentId
    kind := kindForMessage message, payload
    named := ⟨append_ne_empty _ (by simp [String.append_eq_empty_iff]), source.named.2.1,
      kindForMessage_ne message⟩ }

def replacementEntries (source : EntryDraft) : Nat → List Json → Except Error (List EntryDraft)
  | _, [] => .ok []
  | index, .obj message :: messages => do
    let entry ← replacementEntry io source index message
    let entries ← replacementEntries source (index + 1) messages
    pure (entry :: entries)
  | _, _ :: _ => .error (.valueError "replacement context message must be an object")

def contextReplacement (source : EntryDraft) (edit : Fields) : Except Error (List EntryDraft) :=
  match edit.get? "messages" with
  | some (.arr messages) => replacementEntries io source 0 messages
  | _ => .error (.valueError "replacement context messages must be a list")

/-- The immutable sources, what each of them shows now, and the source of every id. -/
structure Views where
  originals : List (String × EntryDraft) := []
  views : List (String × List EntryDraft) := []
  roots : List (String × String) := []

/-- The source of an edit and the place of what it replaces. -/
def editPlace (st : Views) (target root : String) : Option (EntryDraft × Nat × Nat) :=
  let current := (st.views.lookup root).getD []
  match st.originals.lookup target with
  | some source => some (source, 0, current.length)
  | none => do
    let start ← current.findIdx? (·.entryId = target)
    let source ← current[start]?
    pure (source, start, start + 1)

/-- One edit of a view. -/
def applyEdit (st : Views) (rawEdit : Json) : Except Error Views :=
  match rawEdit with
  | .obj edit => do
    let edit : Fields := edit
    let target := ((edit.get? "target").bind Json.str?).getD ""
    require (target ≠ "") (.valueError "context edit target is required")
    let action := (edit.get? "action").getD .null
    hashable action
    require (action = .str "omit" ∨ action = .str "replace")
      (.valueError ("unknown context edit action: " ++ io.repr action))
    match st.roots.lookup target with
    | none => pure st
    | some root =>
      match editPlace st target root with
      | none => pure st
      | some (source, start, stop) => do
        let replacement ←
          if action = .str "replace" then contextReplacement io source edit else pure []
        let current := (st.views.lookup root).getD []
        pure { st with
          views := assign root (current.take start ++ replacement ++ current.drop stop) st.views
          roots := replacement.foldl (fun roots item => assign item.entryId root roots) st.roots }
  | _ => .error (.valueError "context edit must be an object")

/-- One entry of the path: what it shows, and the edits that it carries. -/
def foldEntry (st : Views) (e : EntryDraft) : Except Error Views := do
  let st := if e.kind = "context_edit" then st else
    { originals := assign e.entryId e st.originals, views := assign e.entryId [e] st.views
      roots := assign e.entryId e.entryId st.roots }
  let raw := ((e.payload.get? "edits").or (e.payload.get? "context_edits")).getD .null
  if e.kind ≠ "context_edit" ∧ raw = .null then pure st else
  match raw with
  | .arr edits => foldE edits (applyEdit io) st
  | _ => .error (.valueError "context edits must be a list")

def applyContextEdits (entries : List EntryDraft) : Except Error (List EntryDraft) := do
  let st ← foldE entries (foldEntry io) {}
  pure (st.views.flatMap Prod.snd)

/-! ### Messages -/

def summaryText (value : Json) : String :=
  match value with
  | .str s => s
  | .obj _ => io.dumps value
  | value => if value.truthy then io.text value else ""

def messageFor (e : EntryDraft) : Fields :=
  if e.kind = "user_message" then
    [("role", .str "user"), ("content", .str (io.member e.payload "text"))]
      ++ (if e.payload.truthy "attachments" then keep e.payload "attachments" else [])
  else if e.kind = "assistant_message" then
    [("role", .str "assistant"), ("content", .str (io.member e.payload "text"))]
  else if e.kind = "tool_call" then
    [("role", .str "assistant"),
      ("tool_calls", (e.payload.get? "tool_calls").getD (.arr [.obj e.payload]))]
      ++ (["content", "reasoning_content"].filterMap fun key =>
        ((e.payload.get? key).bind Json.str?).map fun s => (key, Json.str s))
  else if e.kind = "tool_result" then
    [("role", .str "tool"),
      ("content", .str (if e.payload.truthy "content" then io.member e.payload "content"
        else io.member e.payload "text"))]
      ++ ((((e.payload.get? "call_id").bind Json.str?).filter (· ≠ "")).map fun s =>
        ("tool_call_id", Json.str s)).toList
      ++ (if e.payload.get? "is_error" = some (.bool true) then [("is_error", .bool true)] else [])
  else if e.kind = "compaction" then
    [("role", .str "system"),
      ("content", .str (summaryText io ((e.payload.get? "summary").getD .null)))]
  else [("role", .str "system"), ("content", .str (io.dumps (.obj e.payload)))]

/-- An answer whose final message says that it never completed. No other character folds to a
letter of these words than the letter in either case. -/
def isAbortedAssistant (e : EntryDraft) : Bool :=
  e.kind = "assistant_message" && match e.payload.get? "status" with
    | some (.str status) => ["aborted", "error", "interrupted"].contains status.toLower
    | _ => false

def isDisplayOnly (e : EntryDraft) : Bool := e.payload.get? "display_only" = some (.bool true)

/-! ### Calls and results -/

def calls (e : EntryDraft) : List Json :=
  match e.payload.get? "tool_calls" with
  | some (.arr items) => items
  | _ => []

def callId : Json → Option String
  | .obj call => ((Fields.get? call "id").bind Json.str?).filter (· ≠ "")
  | _ => none

def toolCallIds (e : EntryDraft) : List String := (calls e).filterMap callId

/-- The id of a call as a result is compared with it. -/
def printedId : Json → Option String
  | .obj call => ((Fields.get? call "id").filter (· ≠ .null)).map io.text
  | _ => none

/-- The ids that a result is compared with. -/
def printedIds (e : EntryDraft) : Except Error (List String) :=
  match e.payload.get? "tool_calls" with
  | some (.int n) => require (n = 0) (.typeError "'int' object is not iterable") >>= fun _ => .ok []
  | some (.float q) =>
    require (q = 0) (.typeError "'float' object is not iterable") >>= fun _ => .ok []
  | some (.bool b) => require (!b) (.typeError "'bool' object is not iterable") >>= fun _ => .ok []
  | _ => .ok ((calls e).filterMap (printedId io))

def answersIds (result : EntryDraft) (ids : List String) : Bool :=
  match (result.payload.get? "call_id").filter (· ≠ .null) with
  | none => ids.isEmpty
  | some value => ids.contains (io.text value)

/-- The newest call that a result answers, among earlier entries from the newest one on. -/
def findCall (result : EntryDraft) : List EntryDraft → Except Error (Option EntryDraft)
  | [] => .ok none
  | previous :: rest =>
    if previous.kind = "tool_call" then do
      let ids ← printedIds io previous
      if answersIds io result ids then pure (some previous) else findCall result rest
    else findCall result rest

def findToolResult (candidates : List EntryDraft) (callPosition : Nat) (id : String) :
    Option EntryDraft :=
  (candidates.drop (callPosition + 1)).find? fun e =>
    e.kind = "tool_result" && io.member e.payload "call_id" = id

def missingToolResultText (e : EntryDraft) (id : String) : String :=
  let call? := ((calls e).filterMap fun
    | .obj call => some (call : Fields)
    | _ => none).find? fun call => io.member call "id" = id
  match call? with
  | some call =>
    let name := if call.truthy "name" then io.member call "name" else
      match call.get? "function" with
      | some (.obj function) => io.member function "name"
      | _ => ""
    if name = "ask_user" then
      "No execution authorized: the user question was answered outside the provider turn."
    else "Tool result unavailable: history ends before this call completed."
  | none => "Tool result unavailable: history ends before this call completed."

def missingId (e : EntryDraft) (id : String) : String := e.entryId ++ (":missing-result:" ++ id)

/-- The result that stands in for a missing one. -/
def missingResult (e : EntryDraft) (id : String) : EntryDraft where
  entryId := missingId e id
  conversationId := e.conversationId
  parentId := some e.entryId
  kind := "tool_result"
  payload := [("call_id", .str id), ("content", .str (missingToolResultText io e id)),
    ("is_error", .bool true), ("synthetic", .bool true)]
  named := ⟨append_ne_empty _ (by simp [String.append_eq_empty_iff]), e.named.2.1, by decide⟩

/-- The last place of an id, `index`. -/
def position? : List EntryDraft → String → Option Nat
  | [], _ => none
  | e :: rest, id => match position? rest id with
    | some n => some (n + 1)
    | none => if e.entryId = id then some 0 else none

/-- `index[id]`. -/
def position (candidates : List EntryDraft) (id : String) : Except Error Nat :=
  match position? candidates id with
  | some n => .ok n
  | none => .error (.keyError id)

structure Pairing where
  additions : List EntryDraft := []
  removals : List String := []
  pairedCalls : List String := []
  pairedResults : List String := []

section
variable (selected candidates : List EntryDraft)

/-- An id is selected or added already, `selected_ids`. -/
def Pairing.known (st : Pairing) (id : String) : Bool :=
  (selected ++ st.additions).any (·.entryId = id)

def Pairing.add (st : Pairing) (e : EntryDraft) : Pairing :=
  if st.known selected e.entryId then st else { st with additions := st.additions ++ [e] }

def Pairing.pair (st : Pairing) (call result : String) : Pairing :=
  { st with pairedCalls := call :: st.pairedCalls, pairedResults := result :: st.pairedResults }

/-- One call id of a selected call: its committed result, else a missing one. -/
def answerCall (call : EntryDraft) (callPosition : Nat) (st : Pairing) (id : String) : Pairing :=
  let result := (findToolResult io candidates callPosition id).getD (missingResult io call id)
  (st.pair call.entryId result.entryId).add selected result

def answerCalls (st : Pairing) (e : EntryDraft) : Except Error Pairing :=
  if e.kind = "tool_call" ∧ toolCallIds e ≠ [] then do
    let callPosition ← position candidates e.entryId
    pure ((toolCallIds e).foldl (answerCall io selected candidates e callPosition) st)
  else .ok st

/-- A selected result brings its call along, or goes without one. -/
def pairResult (st : Pairing) (e : EntryDraft) : Except Error Pairing :=
  if e.kind = "tool_result" then
    match position? candidates e.entryId with
    | none => .ok (if st.pairedResults.contains e.entryId then st
        else { st with removals := e.entryId :: st.removals })
    | some place => do
      match ← findCall io e (candidates.take place).reverse with
      | none => pure { st with removals := e.entryId :: st.removals }
      | some call => pure ((st.pair call.entryId e.entryId).add selected call)
  else .ok st

/-- The sort key of an entry: its place, a missing result behind its call. -/
def sortKey (e : EntryDraft) : Except Error (Nat ×ₗ Bool) :=
  match position? candidates e.entryId with
  | some n => .ok (toLex (n, false))
  | none => do
    let n ← position candidates (e.parentId.getD "")
    pure (toLex (n, true))

/-- `sorted(entries, key=...)`. -/
def sortEntries (entries : List EntryDraft) : Except Error (List EntryDraft) := do
  let keyed ← entries.mapM fun e => do
    let key ← sortKey candidates e
    pure (key, e)
  pure ((keyed.insertionSort fun a b => a.1 ≤ b.1).map Prod.snd)

/-- What is left of the pairing: calls and results without a partner go. -/
def unpaired (st : Pairing) : List String :=
  st.removals
    ++ ((selected ++ st.additions).filter fun e =>
      e.kind = "tool_call" && !st.pairedCalls.contains e.entryId).map (·.entryId)
    ++ (selected.filter fun e =>
      e.kind = "tool_result" && !st.pairedResults.contains e.entryId).map (·.entryId)

def restoreToolPairs : Except Error (List EntryDraft) := do
  let st ← foldE selected (answerCalls io selected candidates) {}
  let st ← foldE selected (pairResult io selected candidates) st
  sortEntries candidates ((selected ++ st.additions).filter fun e =>
    !(unpaired selected st).contains e.entryId)

end

/-! ### Selection -/

variable (counter : List Fields → Nat) (tokenBudget : Int)

def tokenCount (messages : List Fields) : Nat := if messages = [] then 0 else counter messages

/-- `_count_messages` with candidates. -/
def countMessages (candidates entries : List EntryDraft) : Except Error Nat := do
  let entries ← restoreToolPairs io entries candidates
  pure (tokenCount counter (entries.map (messageFor io)))

def withText (e : EntryDraft) (text : String) : EntryDraft :=
  { e with payload := e.payload.merge [("text", .str text)] }

/-- The binary search of `_fit_text_entry`. The range shrinks in every round, so that the length of
the text bounds their number. -/
def fitText (fits : EntryDraft → Bool) (e : EntryDraft) (text : List Char) :
    Nat → Nat → Nat → Option EntryDraft → Option EntryDraft
  | 0, _, _, best => best
  | rounds + 1, low, high, best =>
    if low ≤ high then
      let middle := (low + high) / 2
      let candidate := withText e (String.ofList (text.take middle))
      if fits candidate then fitText fits e text rounds (middle + 1) high (some candidate)
      else fitText fits e text rounds low (middle - 1) best
    else best

def fitTextEntry (e : EntryDraft) : Option EntryDraft :=
  let text := (((messageFor io e).get? "content").bind Json.str?).getD ""
  fitText (fun candidate => tokenCount counter [messageFor io candidate] ≤ tokenBudget) e
    text.toList text.length 1 text.length none

/-- The newest entries that fit, the newest one first. -/
def selectNewest (candidates : List EntryDraft) :
    List EntryDraft → List EntryDraft → Except Error (List EntryDraft)
  | [], selected => .ok selected
  | e :: rest, selected => do
    let cost ← countMessages io counter candidates (e :: selected)
    if tokenBudget < cost then
      if selected = [] ∧ (e.kind = "user_message" ∨ e.kind = "assistant_message") then
        pure (fitTextEntry io counter tokenBudget e).toList
      else pure selected
    else selectNewest candidates rest (selected ++ [e])

def toolResultCallId (e : EntryDraft) : String := io.member e.payload "call_id"

def dropOldestContextUnit : List EntryDraft → List EntryDraft
  | [] => []
  | first :: selected =>
    if first.kind = "tool_call" then
      selected.filter fun e =>
        !(e.kind = "tool_result" && (toolCallIds first).contains (toolResultCallId io e))
    else if first.kind = "tool_result" && toolResultCallId io first ≠ "" then
      selected.eraseP fun e =>
        e.kind = "tool_call" && (toolCallIds e).contains (toolResultCallId io first)
    else selected

/-- The loop that shrinks the window; `none` when it takes more rounds than given. -/
def shrink (candidates : List EntryDraft) :
    Nat → List EntryDraft → Except Error (Option (List EntryDraft))
  | rounds, selected =>
    if selected = [] ∨ (tokenCount counter (selected.map (messageFor io)) : Int) ≤ tokenBudget then
      .ok (some selected)
    else match rounds with
      | 0 => .ok none
      | rounds + 1 => do
        let selected ← restoreToolPairs io (dropOldestContextUnit io selected) candidates
        shrink candidates rounds selected

def fromCompaction : List EntryDraft → List EntryDraft
  | [] => []
  | e :: rest => if rest.any (·.kind = "compaction") then fromCompaction rest else e :: rest

def contextCandidates (entries : List EntryDraft) : Except Error (List EntryDraft) := do
  let window ← applyContextEdits io (fromCompaction entries)
  pure (window.filter fun e =>
    !(["context_snapshot", "context_edit", "display_message"].contains e.kind)
      && !isDisplayOnly e && !isAbortedAssistant e)

def sourceEntryId (entryId : String) : String := (entryId.splitOn ":replacement:").headD ""

structure ContextSnapshot where
  entryIds : List String
  messages : List Fields
  tokenCount : Nat
  digest : String
  omittedEntryIds : List String

def buildContext (rounds : Nat) (entries : List EntryDraft) :
    Except Error (Option ContextSnapshot) := do
  require (0 < tokenBudget) (.valueError "token_budget must be positive")
  let candidates ← contextCandidates io entries
  let newest ← selectNewest io counter tokenBudget candidates candidates.reverse []
  let selected ← restoreToolPairs io newest.reverse candidates
  let selected? ← shrink io counter tokenBudget candidates rounds selected
  pure (selected?.map fun selected =>
    let messages := selected.map (messageFor io)
    let sources := selected.map fun e => sourceEntryId e.entryId
    { entryIds := selected.map (·.entryId), messages
      tokenCount := tokenCount counter messages, digest := io.digest messages
      omittedEntryIds := (entries.filter fun e => !sources.contains e.entryId
        && !(["context_snapshot", "context_edit"].contains e.kind)).map (·.entryId) })

end Context

end Codey
