import Codey.Lib.Table
import Codey.Providers.ApiCodec
import Mathlib.Data.List.DropRight
import Mathlib.Data.List.Sort

/-!
# Streamed replies

The framing of a stream of events, the assembly of streamed tool calls, and the reader that bounds
the body of a reply. Bytes are read in chunks that may end anywhere.
-/

namespace Codey

namespace Api

inductive StreamError where
  | generationUnknown (message : String)
  | runtime (message : String)
  | value (message : String)
  /-- An exception of the language or of the connection. -/
  | raised (name : String)
  deriving DecidableEq

/-- `except ValueError as exc: raise GenerationUnknownError(...)`. -/
def StreamError.unresent (what : String) : StreamError → StreamError
  | .value message => .generationUnknown (what ++ message ++ "; not resent")
  | e => e

/-- `except ValueError` around a computation. -/
def unresent {α : Type} (what : String) : Except StreamError α → Except StreamError α
  | .ok a => .ok a
  | .error e => .error (e.unresent what)

/-- `for item in value`. -/
def iterated (value : Json) : Except StreamError (List Json) :=
  match parts value with
  | .ok items => .ok items
  | .error _ => .error (.raised "TypeError")

/-! ### Assembly -/

/-- One entry of `calls`: the call that is assembled at an index. -/
structure Slot where
  index : Nat
  id : String := ""
  name : String := ""
  arguments : String := ""
  deriving DecidableEq

abbrev Calls := Table Slot.index

def Slot.call (slot : Slot) : Json :=
  .obj [("function", .obj [("arguments", .str slot.arguments), ("name", .str slot.name)]),
    ("id", .str slot.id), ("type", .str "function")]

/-- `call.get("id")`, checked. -/
def deltaId (call : Fields) : Except StreamError (Option String) :=
  match call.get? "id" with
  | none | some .null => .ok none
  | some (.str id) =>
    if id = "" then .error (.value "tool delta has an invalid id") else .ok (some id)
  | some _ => .error (.value "tool delta has an invalid id")

/-- `max(calls, default=-1) + 1`. -/
def Calls.next (calls : Calls) : Nat := (calls.rows.map fun slot => slot.index + 1).foldl max 0

/-- The index that a delta gives, or that its id resolves to. -/
def deltaIndex (calls : Calls) (identity : Option String) (call : Fields) :
    Except StreamError Nat :=
  match call.get? "index" with
  | none | some .null =>
    match identity with
    | some id => .ok (((calls.rows.find? (·.id = id)).map Slot.index).getD calls.next)
    | none => match calls.rows with
      | [slot] => .ok slot.index
      | _ => .error (.value "tool delta without index or id is ambiguous")
  | some (.int n) =>
    if 0 ≤ n then .ok n.toNat else .error (.value "tool delta has an invalid index")
  | some _ => .error (.value "tool delta has an invalid index")

/-- `slot["id"] = identity`, checked. -/
def Slot.identify (slot : Slot) (calls : Calls) : Option String → Except StreamError Slot
  | none => .ok slot
  | some id => do
    require (slot.id = "" || slot.id = id) (.value "tool delta changed its call id")
    require (!calls.rows.any fun other => other.index ≠ slot.index && other.id = id)
      (.value "tool delta reused an id at another index")
    pure { slot with id }

/-- `call.get("function") or {}`, checked. -/
def deltaFunction (call : Fields) : Except StreamError Fields :=
  if call.truthy "function" then
    match call.get? "function" with
    | some (.obj function) => .ok function
    | _ => .error (.value "tool delta has an invalid function")
  else .ok []

/-- `function.get(key) or ""`, checked. -/
def fragment (function : Fields) (key : String) : Except StreamError String :=
  if function.truthy key then
    match function.get? key with
    | some (.str text) => .ok text
    | _ => .error (.value "tool delta has a non-text fragment")
  else .ok ""

def mergeCall (calls : Calls) : Json → Except StreamError Calls
  | .obj call => do
    let identity ← deltaId call
    let index ← deltaIndex calls identity call
    let slot ← ((calls.get? index).getD { index }).identify calls identity
    let function ← deltaFunction call
    let name ← fragment function "name"
    let arguments ← fragment function "arguments"
    pure (calls.put { slot with
      name := slot.name ++ name, arguments := slot.arguments ++ arguments })
  | _ => .error (.value "tool delta is not an object")

/-- `DefaultChatAccumulator`. -/
structure Chat where
  content : String := ""
  thoughts : List (String × String) := []
  calls : Calls := .empty

/-- `self.chat[name] = self.chat.get(name, "") + fragment`. -/
def addThought (name text : String) : List (String × String) → List (String × String)
  | [] => [(name, text)]
  | (k, v) :: rest => if k = name then (k, v ++ text) :: rest else (k, v) :: addThought name text rest

def thoughtNames : List String := ["reasoning_content", "reasoning", "thinking"]

/-- `delta.get("content") or ""`, added to a text. -/
def deltaContent (delta : Fields) : Except StreamError String :=
  if delta.truthy "content" then
    match delta.get? "content" with
    | some (.str text) => .ok text
    | _ => .error (.raised "TypeError")
  else .ok ""

/-- `delta.get("tool_calls") or []`, iterated. -/
def deltaCalls (delta : Fields) : Except StreamError (List Json) :=
  if delta.truthy "tool_calls" then iterated ((delta.get? "tool_calls").getD .null) else .ok []

def addThoughts (delta : Fields) (thoughts : List (String × String)) : List (String × String) :=
  thoughtNames.foldl (fun thoughts name =>
    match delta.get? name with
    | some (.str text) => addThought name text thoughts
    | _ => thoughts) thoughts

def addCall (calls : Calls) (call : Json) : Except StreamError Calls :=
  unresent "malformed streamed tool call: " (mergeCall calls call)

def addDelta (chat : Chat) : Json → Except StreamError Chat
  | .obj delta => do
    let content ← deltaContent delta
    let calls ← deltaCalls delta
    let calls ← foldE calls addCall chat.calls
    pure { content := chat.content ++ content, thoughts := addThoughts delta chat.thoughts, calls }
  | _ => .error (.raised "AttributeError")

def finishMessage (chat : Chat) : Fields :=
  [("content", .str chat.content),
    ("tool_calls", .arr ((chat.calls.rows.insertionSort (·.index ≤ ·.index)).map Slot.call))]
  ++ chat.thoughts.map fun thought => (thought.1, .str thought.2)

/-- `ChatStreamAccumulator`. -/
structure Accumulator (σ : Type) where
  start : σ
  addDelta : σ → Json → Except StreamError σ
  finishMessage : σ → Except StreamError Fields

def defaultAccumulator : Accumulator Chat where
  start := {}
  addDelta := addDelta
  finishMessage := fun chat => .ok (finishMessage chat)

/-! ### Reading -/

abbrev Bytes := List UInt8

def maxResponseBytes : Nat := 16 * 1024 * 1024

/-- What `read` of the connection does. Only the end of the stream has no bytes. -/
inductive Delivery where
  | bytes (chunk : {chunk : Bytes // chunk ≠ []})
  | timeout (silent : Bool)
  | fails (name : String) (cancelled : Bool)
  | notBytes

/-- What one `read_chunk` meets: the checks before the read, the read and the check after it. -/
structure Arrival where
  cancelled : Bool := false
  expired : Bool := false
  silent : Bool := false
  delivery : Delivery
  late : Bool := false

/-- What the stream still delivers before it ends. -/
structure BodyReader where
  arrivals : List Arrival
  lineBuffer : Bytes := []
  scanPosition : Nat := 0
  total : Nat := 0

/-- The bytes that a read returns, or the exception for what it does instead. -/
def Delivery.data : Delivery → Except StreamError Bytes
  | .bytes chunk => .ok chunk.val
  | .timeout true => .error (.generationUnknown "generation body was silent; not resent")
  | .timeout false => .error (.generationUnknown "generation deadline exceeded; not resent")
  | .fails _ true => .error (.generationUnknown "generation cancelled while reading response")
  | .fails name false => .error (.raised name)
  | .notBytes => .error (.generationUnknown "generation response returned non-byte data")

/-- `read_chunk`, before the end of the stream. -/
def readChunk (arrival : Arrival) (total : Nat) : Except StreamError (Bytes × Nat) := do
  require (!arrival.cancelled)
    (.generationUnknown "generation cancelled; late response discarded")
  require (!arrival.expired) (.generationUnknown "generation deadline exceeded; not resent")
  require (!arrival.silent) (.generationUnknown "generation body was silent; not resent")
  let data ← arrival.delivery.data
  require (!arrival.late) (.generationUnknown "generation body was silent; not resent")
  require (total + data.length ≤ maxResponseBytes)
    (.generationUnknown "generation response exceeded its byte limit")
  pure (data, total + data.length)

/-- The newline, `b"\n"`. -/
def newline : UInt8 := 10

/-- `find(b"\n", start)`. -/
def findNewline (bytes : Bytes) (start : Nat) : Option Nat :=
  ((bytes.drop start).findIdx? (· = newline)).map (start + ·)

/-- The loop of `readline` over the chunks that arrive. -/
def readlineLoop (size : Nat) :
    List Arrival → Bytes → Nat → Nat → Except StreamError (Bytes × BodyReader)
  | arrivals, buffer, scan, total =>
    if size ≤ buffer.length then
      .error (.generationUnknown "generation stream line exceeded its byte limit")
    else match findNewline buffer scan with
      | some marker => .ok (buffer.take (marker + 1),
          { arrivals, lineBuffer := buffer.drop (marker + 1), total })
      | none => match arrivals with
        | [] => .ok (buffer, { arrivals := [], total })
        | arrival :: arrivals => do
          let (chunk, total) ← readChunk arrival total
          readlineLoop size arrivals (buffer ++ chunk) (buffer.length - 1) total

def BodyReader.readline (reader : BodyReader) (size : Nat) :
    Except StreamError (Bytes × BodyReader) :=
  readlineLoop size reader.arrivals reader.lineBuffer reader.scanPosition reader.total

/-! ### Frames -/

/-- `bytes.isspace` of one byte. -/
def isSpace (byte : UInt8) : Bool := [9, 10, 11, 12, 13, 32].contains byte

/-- `bytes.strip`. -/
def stripBytes (bytes : Bytes) : Bytes := (bytes.dropWhile isSpace).rdropWhile isSpace

def ascii (text : String) : Bytes := text.toList.map fun ch => UInt8.ofNat ch.toNat

/-- What the caller of `read_sse` and the language bring along. -/
structure SseHost where
  str : Json → String
  /-- `json.loads` of bytes, `none` for a `ValueError`. -/
  loads : Bytes → Option Json
  onEvent : Fields → Except StreamError Unit
  errorDetailFilter : Option (Nat → String → String)

def jsonObject (host : SseHost) (raw : Bytes) : Except StreamError Fields :=
  let lead := raw.dropWhile isSpace
  if (ascii "HTTP/1.").isPrefixOf lead || (ascii "HTTP/2 ").isPrefixOf lead then
    .error (.generationUnknown ("upstream returned HTTP headers inside the JSON response body; "
      ++ "repair or restart the model server before a new task; not resent"))
  else match host.loads raw with
    | none => .error
      (.generationUnknown "generation response was incomplete or invalid JSON; not resent")
    | some (.obj body) => .ok body
    | some _ => .error (.generationUnknown "generation response was not an object; not resent")

/-- What the events so far came to, `accumulator` and `chat_finish`. -/
structure Progress (σ : Type) where
  accumulator : σ
  chatFinish : Json := .str ""

variable {σ : Type} (accumulator : Accumulator σ) (host : SseHost)

/-- One streamed choice. -/
def addChoice (progress : Progress σ) : Json → Except StreamError (Progress σ)
  | .obj choice => do
    let choice : Fields := choice
    require (((choice.get? "index").getD (.int 0)).pyEq (.int 0))
      (.generationUnknown "multiple streamed choices are unsupported; not resent")
    let delta := if choice.truthy "delta" then (choice.get? "delta").getD .null else .obj []
    let added ← unresent "malformed streamed message: "
      (accumulator.addDelta progress.accumulator delta)
    pure { accumulator := added
           chatFinish := if choice.truthy "finish_reason" then
             (choice.get? "finish_reason").getD .null else progress.chatFinish }
  | _ => .error (.raised "AttributeError")

def terminalTypes : List String := ["response.completed", "response.incomplete", "response.failed"]

/-- Whether the event ends a Responses stream. -/
def isTerminal (event : Fields) : Bool :=
  terminalTypes.any fun kind => event.get? "type" = some (.str kind)

/-- `str(event.get("error", event))[:400]` -/
def errorDetail (event : Fields) : String :=
  let detail := match (event.get? "error").getD (.obj event) with
    | .str text => text
    | value => host.str value
  let detail := match host.errorDetailFilter with
    | some filter => filter 502 detail
    | none => detail
  String.ofList (detail.toList.take 400)

/-- One event: the response that it ends the stream with, or the progress after it. -/
def handleEvent (progress : Progress σ) (event : Fields) :
    Except StreamError (Fields ⊕ Progress σ) := do
  host.onEvent event
  require (hashable ((event.get? "type").getD .null)) (.raised "TypeError")
  if isTerminal event then
    match event.get? "response" with
    | some (.obj result) => pure (.inl result)
    | _ => .error (.generationUnknown "Responses stream ended without a response object")
  else if event.hasText "type" "error" || (event.get? "error").isSome then
    .error (.runtime ("generation stream error: " ++ errorDetail host event))
  else
    let choices ← iterated ((event.get? "choices").getD (.arr []))
    let progress ← foldE choices (addChoice accumulator) progress
    pure (.inr progress)

/-- The flags that one turn of the loop reads. -/
structure Poll where
  cancelled : Bool := false
  expired : Bool := false

/-- The loop of `read_sse` between two turns. -/
structure SseState (σ : Type) where
  turn : Nat := 0
  reader : BodyReader
  data : List Bytes := []
  total : Nat := 0
  progress : Progress σ

inductive Turn (σ : Type) where
  | more (st : SseState σ)
  | returned (message : Fields)
  | ended (turn : Nat) (chatDone : Bool) (progress : Progress σ)

/-- `b"\n".join(data)`. -/
def joinData (data : List Bytes) : Bytes := [newline].intercalate data

def joinLine (data : List Bytes) (line : Bytes) : List Bytes :=
  if (ascii "data:").isPrefixOf line then data ++ [stripBytes (line.drop 5)] else data

/-- One turn of the loop. -/
def sseTurn (polls : Nat → Poll) (st : SseState σ) : Except StreamError (Turn σ) := do
  require (!(polls st.turn).cancelled)
    (.generationUnknown "generation cancelled; late response discarded")
  require (!(polls st.turn).expired)
    (.generationUnknown "generation deadline exceeded; not resent")
  let (line, reader) ← st.reader.readline (maxResponseBytes + 1)
  let total := st.total + line.length
  require (total ≤ maxResponseBytes)
    (.generationUnknown "generation stream exceeded its byte limit")
  let next : SseState σ := { st with turn := st.turn + 1, reader, total }
  if line = [] then pure (.ended next.turn false st.progress)
  else if stripBytes line ≠ [] then pure (.more { next with data := joinLine st.data line })
  else if st.data = [] then pure (.more next)
  else if joinData st.data = ascii "[DONE]" then pure (.ended next.turn true st.progress)
  else
    let event ← jsonObject host (joinData st.data)
    match ← handleEvent accumulator host st.progress event with
    | .inl result => pure (.returned result)
    | .inr progress => pure (.more { next with data := [], progress })

/-- What follows the loop. -/
def sseEnd (polls : Nat → Poll) (turn : Nat) (chatDone : Bool) (progress : Progress σ) :
    Except StreamError Fields :=
  if progress.chatFinish.truthy && chatDone then do
    require (!(polls turn).cancelled)
      (.generationUnknown "generation cancelled; late response discarded")
    let chat ← unresent "malformed streamed message: "
      (accumulator.finishMessage progress.accumulator)
    pure [("choices", .arr [.obj [("finish_reason", progress.chatFinish), ("message", .obj chat)]])]
  else .error
    (.generationUnknown "generation stream ended without a valid terminal event; not resent")

/-- The bytes that a read hands over. -/
def Delivery.size : Delivery → Nat
  | .bytes chunk => chunk.val.length
  | _ => 0

/-- The bytes that the reader can still hand out. -/
def BodyReader.size (reader : BodyReader) : Nat :=
  reader.lineBuffer.length + (reader.arrivals.map fun arrival => arrival.delivery.size).sum

lemma Delivery.size_of_data {delivery : Delivery} {data : Bytes} (h : delivery.data = .ok data) :
    data.length = delivery.size := by
  unfold Delivery.data at h
  split at h
  · obtain rfl := Except.ok.inj h
    rfl
  all_goals cases h

lemma readChunk_data {arrival : Arrival} {total total' : Nat} {chunk : Bytes}
    (h : readChunk arrival total = .ok (chunk, total')) : arrival.delivery.data = .ok chunk := by
  obtain ⟨-, h⟩ := except_seq_eq_ok.mp h
  obtain ⟨-, h⟩ := except_seq_eq_ok.mp h
  obtain ⟨-, h⟩ := except_seq_eq_ok.mp h
  obtain ⟨data, hdata, h⟩ := except_bind_eq_ok.mp h
  obtain ⟨-, h⟩ := except_seq_eq_ok.mp h
  obtain ⟨-, h⟩ := except_seq_eq_ok.mp h
  obtain ⟨rfl, -⟩ := Prod.mk.inj (Except.ok.inj h)
  exact hdata

/-- A line and what is left of the reader are what it held. -/
lemma readlineLoop_size {size scan total : Nat} {arrivals : List Arrival} {buffer line : Bytes}
    {reader : BodyReader} (h : readlineLoop size arrivals buffer scan total = .ok (line, reader)) :
    line.length + reader.size =
      buffer.length + (arrivals.map fun arrival => arrival.delivery.size).sum := by
  induction arrivals generalizing buffer scan total with
  | nil =>
    unfold readlineLoop at h
    split_ifs at h
    split at h
    · obtain ⟨rfl, rfl⟩ := Prod.mk.inj (Except.ok.inj h)
      rw [BodyReader.size, ← Nat.add_assoc, ← List.length_append, List.take_append_drop]
    · obtain ⟨rfl, rfl⟩ := Prod.mk.inj (Except.ok.inj h)
      rfl
  | cons arrival arrivals ih =>
    unfold readlineLoop at h
    split_ifs at h
    split at h
    · obtain ⟨rfl, rfl⟩ := Prod.mk.inj (Except.ok.inj h)
      rw [BodyReader.size, ← Nat.add_assoc, ← List.length_append, List.take_append_drop]
    · obtain ⟨⟨chunk, total'⟩, hchunk, h⟩ := except_bind_eq_ok.mp h
      rw [ih h, List.length_append, Delivery.size_of_data (readChunk_data hchunk), List.map_cons,
        List.sum_cons, Nat.add_assoc]

/-- What a turn that raises nothing comes to: the stream ends, a line joins its frame, a blank line
follows another, or it completes a frame. -/
inductive Turned (st : SseState σ) : Turn σ → Prop where
  | finish {reader : BodyReader}
      (hline : st.reader.readline (maxResponseBytes + 1) = .ok ([], reader)) :
      Turned st (.ended (st.turn + 1) false st.progress)
  | text {line : Bytes} {reader : BodyReader}
      (hline : st.reader.readline (maxResponseBytes + 1) = .ok (line, reader))
      (hne : line ≠ []) (hstrip : stripBytes line ≠ []) :
      Turned st (.more { st with
        turn := st.turn + 1, reader, total := st.total + line.length
        data := joinLine st.data line })
  | blank {line : Bytes} {reader : BodyReader}
      (hline : st.reader.readline (maxResponseBytes + 1) = .ok (line, reader))
      (hne : line ≠ []) (hstrip : stripBytes line = []) (hdata : st.data = []) :
      Turned st (.more { st with turn := st.turn + 1, reader, total := st.total + line.length })
  | done {line : Bytes} {reader : BodyReader}
      (hline : st.reader.readline (maxResponseBytes + 1) = .ok (line, reader))
      (hne : line ≠ []) (hstrip : stripBytes line = []) (hdata : st.data ≠ [])
      (hdone : joinData st.data = ascii "[DONE]") :
      Turned st (.ended (st.turn + 1) true st.progress)
  | response {line : Bytes} {reader : BodyReader} {event result : Fields}
      (hline : st.reader.readline (maxResponseBytes + 1) = .ok (line, reader))
      (hne : line ≠ []) (hstrip : stripBytes line = []) (hdata : st.data ≠ [])
      (hevent : jsonObject host (joinData st.data) = .ok event)
      (hresult : handleEvent accumulator host st.progress event = .ok (.inl result)) :
      Turned st (.returned result)
  | event {line : Bytes} {reader : BodyReader} {event : Fields} {progress : Progress σ}
      (hline : st.reader.readline (maxResponseBytes + 1) = .ok (line, reader))
      (hne : line ≠ []) (hstrip : stripBytes line = []) (hdata : st.data ≠ [])
      (hdone : joinData st.data ≠ ascii "[DONE]")
      (hevent : jsonObject host (joinData st.data) = .ok event)
      (hprogress : handleEvent accumulator host st.progress event = .ok (.inr progress)) :
      Turned st (.more
        { turn := st.turn + 1, reader, data := [], total := st.total + line.length, progress })

variable {accumulator host}

lemma sseTurn_cases {polls : Nat → Poll} {st : SseState σ} {turned : Turn σ}
    (h : sseTurn accumulator host polls st = .ok turned) : Turned accumulator host st turned := by
  obtain ⟨-, h⟩ := except_seq_eq_ok.mp h
  obtain ⟨-, h⟩ := except_seq_eq_ok.mp h
  obtain ⟨⟨line, reader⟩, hline, h⟩ := except_bind_eq_ok.mp h
  obtain ⟨-, h⟩ := except_seq_eq_ok.mp h
  dsimp only at h
  split_ifs at h with hne hstrip hdata hdone
  · obtain rfl := Except.ok.inj h
    obtain rfl := hne
    exact .finish hline
  · obtain rfl := Except.ok.inj h
    exact .text hline hne hstrip
  · obtain rfl := Except.ok.inj h
    exact .blank hline hne (by_contra hstrip) hdata
  · obtain rfl := Except.ok.inj h
    exact .done hline hne (by_contra hstrip) hdata hdone
  · obtain ⟨event, hevent, h⟩ := except_bind_eq_ok.mp h
    obtain ⟨handled, hhandled, h⟩ := except_bind_eq_ok.mp h
    cases handled with
    | inl result =>
      obtain rfl := Except.ok.inj h
      exact .response hline hne (by_contra hstrip) hdata hevent hhandled
    | inr progress =>
      obtain rfl := Except.ok.inj h
      exact .event hline hne (by_contra hstrip) hdata hdone hevent hhandled

lemma size_of_readline {reader rest : BodyReader} {size : Nat} {line : Bytes}
    (h : reader.readline size = .ok (line, rest)) (hne : line ≠ []) : rest.size < reader.size := by
  have hsize := readlineLoop_size h
  have hpos := List.length_pos_of_ne_nil hne
  unfold BodyReader.size at *
  omega

lemma sseTurn_more {polls : Nat → Poll} {st next : SseState σ}
    (h : sseTurn accumulator host polls st = .ok (.more next)) :
    next.reader.size < st.reader.size := by
  cases sseTurn_cases h with
  | text hline hne => exact size_of_readline hline hne
  | blank hline hne => exact size_of_readline hline hne
  | event hline hne => exact size_of_readline hline hne

variable (accumulator host)

/-- `read_sse`, from a state of its loop on. -/
def sseLoop (polls : Nat → Poll) (st : SseState σ) : Except StreamError Fields :=
  match _h : sseTurn accumulator host polls st with
  | .error e => .error e
  | .ok (.returned message) => .ok message
  | .ok (.ended turn chatDone progress) => sseEnd accumulator polls turn chatDone progress
  | .ok (.more next) => sseLoop polls next
termination_by st.reader.size
decreasing_by exact sseTurn_more _h

def readSse (polls : Nat → Poll) (arrivals : List Arrival) : Except StreamError Fields :=
  sseLoop accumulator host polls
    { reader := { arrivals }, progress := { accumulator := accumulator.start } }

end Api

end Codey
