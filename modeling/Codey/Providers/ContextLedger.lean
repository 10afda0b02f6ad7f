import Codey.Lib.Steps
import Codey.Runtime.ProtocolWindow

/-!
# The context ledger

The journal of a provider's context: immutable segments, and a head that makes the last of them
count. Each ledger keeps its own view of the journal, and commits to it only while the head is the
one it knows.
-/

namespace Codey

namespace ContextLedger

/-! ### The program -/

/-- `digest`, of a JSON value. -/
abbrev Digest := Json → String

/-- `identity.removeprefix("protocol:")` -/
def sessionOf (identity : String) : String :=
  if "protocol:".toList.isPrefixOf identity.toList then String.ofList (identity.toList.drop 9)
  else identity

/-- The session that the head of a journal has to name, if any. -/
def expectedSession (identity : String) : String :=
  if "protocol:".toList.isPrefixOf identity.toList then sessionOf identity else ""

/-- The state of a `ContextLedger`. -/
structure Ledger where
  identity : String
  windowRef : Option ProtocolWindowRef
  sequence : Nat
  chain : String
  view : Json
  records : List Json
  deriving DecidableEq

/-- The files of a journal: `head.json`, and the segments by their numbers. -/
structure Disk where
  head : Option Json
  segments : Nat → Option Json

/-- `row.get(key)` of a row that may not be an object. -/
def member (row : Json) (key : String) : Option Json :=
  match row with
  | .obj members => Fields.get? members key
  | _ => none

/-- `row.get(key) == value` -/
def holds (row : Json) (key : String) (value : Json) : Bool := (member row key).any (·.pyEq value)

def isObject : Option Json → Bool
  | some (.obj _) => true
  | _ => false

/-- The loop that reads the segments of a journal, from one number on. -/
def readRows (digest : Digest) (segments : Nat → Option Json) :
    Nat → Nat → String → Except String (String × List Json)
  | 0, _, chain => .ok (chain, [])
  | count + 1, index, chain =>
    match segments index with
    | none => .error "context journal chain/digest mismatch"
    | some row =>
      if isObject (some row) && holds row "schema_version" (.int 1) &&
          holds row "previous" (.str chain) && holds row "sequence" (.int index) then
        readRows digest segments count (index + 1) (digest row) >>= fun rest =>
        .ok (rest.1, row :: rest.2)
      else .error "context journal chain/digest mismatch"

def storedRef (head : Json) (given : Option ProtocolWindowRef) :
    Except String (Option ProtocolWindowRef) :=
  match member head "window_ref" with
  | none | some .null => .ok given
  | some stored => ProtocolWindowRef.fromPayload (some stored) >>= fun ref => .ok (some ref)

/-- The last row has to be of the window of the journal. -/
def checkWindow (windowRef : Option ProtocolWindowRef) (records : List Json) :
    Except String Unit :=
  match windowRef with
  | none => .ok ()
  | some ref =>
    let last := records.getLast?.bind (member · "window_ref")
    if isObject last then
      ProtocolWindowRef.fromPayload last >>= fun lastRef =>
      require (lastRef = ref) "context ledger window reference mismatch"
    else .error "context ledger window reference mismatch"

/-- The constructor of a ledger, which loads the journal at its root. -/
def load (digest : Digest) (identity : String) (windowRef : Option ProtocolWindowRef)
    (head : Option Json) (segments : Nat → Option Json) : Except String Ledger :=
  match head with
  | none => .ok ⟨identity, windowRef, 0, "", .arr [], []⟩
  | some head =>
    require (isObject (some head) && holds head "schema_version" (.int 1) &&
      holds head "identity" (.str identity)) "context ledger identity mismatch" >>= fun _ =>
    require (expectedSession identity = "" ||
      holds head "session_id" (.str (expectedSession identity)))
      "context ledger session mismatch" >>= fun _ =>
    storedRef head windowRef >>= fun windowRef =>
    match member head "sequence" with
    | some (.int sequence) =>
      require (0 ≤ sequence) "invalid context journal sequence" >>= fun _ =>
      readRows digest segments sequence.toNat 1 "" >>= fun rows =>
      require (holds head "chain" (.str rows.1) &&
        holds head "view_digest" (.str (digest ((member head "view").getD .null))))
        "context ledger head digest mismatch" >>= fun _ =>
      checkWindow windowRef rows.2 >>= fun _ =>
      .ok ⟨identity, windowRef, sequence.toNat, rows.1, (member head "view").getD .null, rows.2⟩
    | _ => .error "invalid context journal sequence"

/-- What is to be committed. -/
structure CommitArgs where
  view : List Json
  events : List Json := []
  checkpoint : Json := .null
  windowRef : Option ProtocolWindowRef := none
  allowWindowChange : Bool := false
  deliveryCommit : Option Json := none
  windowOpenReason : String := ""
  createdAt : Rat := 0

/-- `_require_bounded_str` -/
def boundedStr (members : Fields) (key : String) (maxChars : Nat) : Except String Unit :=
  match members.get? key with
  | some (.str value) =>
    let val := strip value.toList
    if val = [] then .error s!"{key} must not be empty"
    else require (val.length ≤ maxChars) s!"{key} exceeds max length {maxChars}: {val.length}"
  | _ => .error s!"{key} must be a str"

def maxBatchIdChars : Nat := 128
def maxEffectIdChars : Nat := 128
def maxDigestChars : Nat := 64

def deliveryCommitKeys : List String :=
  ["batch_id", "input_digest", "invocation_kind", "output_digest", "provider_effect_id",
    "reply_status", "results_digest", "window_ref"]

/-- `DeliveryCommit.from_payload`. -/
def checkDeliveryCommit (payload : Json) : Except String Unit :=
  match payload with
  | .obj members =>
    if members.map Prod.fst ≠ deliveryCommitKeys then .error "delivery commit keys mismatch"
    else
      match Fields.get? members "window_ref" with
      | some (.obj (_ :: _)) =>
        boundedStr members "batch_id" maxBatchIdChars >>= fun _ =>
        boundedStr members "provider_effect_id" maxEffectIdChars >>= fun _ =>
        boundedStr members "results_digest" maxDigestChars >>= fun _ =>
        boundedStr members "invocation_kind" 64 >>= fun _ =>
        boundedStr members "reply_status" 64 >>= fun _ =>
        checkAll (["input_digest", "output_digest"].filter (Fields.truthy members))
          (boundedStr members · maxDigestChars)
      | _ => .error "window_ref must be a non-empty mapping"
  | _ => .error "delivery commit keys mismatch"

/-- A segment: the row of one commit. -/
def rowJson (sequence : Nat) (previous : String) (a : CommitArgs)
    (ref : Option ProtocolWindowRef) : Json :=
  .obj ([("checkpoint", a.checkpoint), ("created_at", .float a.createdAt)] ++
    (a.deliveryCommit.map (Prod.mk "delivery_commit")).toList ++
    [("events", .arr a.events), ("previous", .str previous), ("schema_version", .int 1),
      ("sequence", .int sequence), ("view", .arr a.view)] ++
    (if a.windowOpenReason = "" then [] else [("window_open_reason", .str a.windowOpenReason)]) ++
    (ref.map fun ref => ("window_ref", ref.toPayload)).toList)

/-- What a ledger is about to commit: the row, the view, and the window they belong to. -/
structure Draft where
  identity : String
  row : Json
  view : List Json
  ref : Option ProtocolWindowRef
  deriving DecidableEq

/-- `head.json` after a commit. -/
def headJson (digest : Digest) (sequence : Nat) (chain : String) (draft : Draft) : Json :=
  .obj ([("chain", .str chain), ("identity", .str draft.identity), ("schema_version", .int 1),
    ("sequence", .int sequence),
    ("session_id", .str (draft.ref.elim (sessionOf draft.identity) (·.sessionId))),
    ("view", .arr draft.view), ("view_digest", .str (digest (.arr draft.view)))] ++
    (draft.ref.map fun ref => ("window_ref", ref.toPayload)).toList)

/-- The checks before the lock is taken. -/
def prepare (l : Ledger) (a : CommitArgs) : Except String Draft :=
  let ref := a.windowRef.or l.windowRef
  require (a.windowRef = none || l.windowRef = none || l.windowRef = a.windowRef ||
    a.allowWindowChange) "context ledger window mismatch" >>= fun _ =>
  (match a.deliveryCommit with
    | none => .ok ()
    | some payload => checkDeliveryCommit payload) >>= fun _ =>
  .ok ⟨l.identity, rowJson (l.sequence + 1) l.chain a ref, a.view, ref⟩

/-- The head has to be the one that the ledger knows. -/
def checkHead (d : Disk) (l : Ledger) : Except String Unit :=
  match d.head with
  | some head =>
    require (isObject (some head) && holds head "sequence" (.int l.sequence) &&
      holds head "chain" (.str l.chain)) "context journal changed in another writer"
  | none => require (l.sequence = 0) "context journal head disappeared"

/-- Where a commit is interrupted: at the lock, or at a write, before the file is replaced or
after it. -/
inductive Fault where
  | lock
  | segmentLost
  | segmentKept
  | headLost
  | headKept
  deriving DecidableEq

def writeSegment (d : Disk) (index : Nat) (row : Json) : Disk :=
  { d with segments := fun i => if i = index then some row else d.segments i }

/-- What a commit leaves: the files, the ledger, whether the head was written, and the error. -/
structure Outcome where
  disk : Disk
  ledger : Ledger
  published : Option Draft := none
  error : Option String := none

def Ledger.accept (l : Ledger) (digest : Digest) (draft : Draft) : Ledger :=
  { l with
    windowRef := draft.ref, sequence := l.sequence + 1, chain := digest draft.row
    view := .arr draft.view, records := l.records ++ [draft.row] }

/-- The two writes of a commit, under the lock. -/
def publish (digest : Digest) (d : Disk) (l : Ledger) (draft : Draft) (fault : Option Fault) :
    Outcome :=
  let written := writeSegment d (l.sequence + 1) draft.row
  let headed : Disk :=
    { written with head := some (headJson digest (l.sequence + 1) (digest draft.row) draft) }
  match fault with
  | some .lock => { disk := d, ledger := l, error := some "lock timeout" }
  | some .segmentLost => { disk := d, ledger := l, error := some "segment write failed" }
  | some .segmentKept => { disk := written, ledger := l, error := some "segment write failed" }
  | some .headLost => { disk := written, ledger := l, error := some "head write failed" }
  | some .headKept =>
    { disk := headed, ledger := l, published := some draft, error := some "head write failed" }
  | none => { disk := headed, ledger := l.accept digest draft, published := some draft }

/-- `commit`, after the checks that make its draft. -/
def commit (digest : Digest) (d : Disk) (l : Ledger) (draft : Except String Draft)
    (fault : Option Fault) : Outcome :=
  match draft with
  | .error e => { disk := d, ledger := l, error := some e }
  | .ok draft =>
    match checkHead d l with
    | .error e => { disk := d, ledger := l, error := some e }
    | .ok () => publish digest d l draft fault

/-- The commit that `commit_exchange` makes, for the window and the revision that its caller
expects. -/
def commitExchange (l : Ledger) (expectedRef : ProtocolWindowRef) (expectedRevision : Option Nat)
    (checkpoints : List Json) (a : CommitArgs) : Except String CommitArgs :=
  require (l.windowRef = some expectedRef)
    "context ledger window reference does not match" >>= fun _ =>
  require (expectedRevision.all (· = l.sequence)) "context ledger revision mismatch" >>= fun _ =>
  .ok { a with
    checkpoint := if checkpoints = [] then .null
      else .obj [("kind", .str "transaction"), ("segments", .arr checkpoints)]
    windowRef := some expectedRef
    allowWindowChange := false
    windowOpenReason := "" }

/-- The commit that `open_window` makes, which may change the window. -/
def openWindow (l : Ledger) (windowRef : ProtocolWindowRef) (expectedRef : Option ProtocolWindowRef)
    (expectedRevision : Option Nat) (resetPermit : Bool) (a : CommitArgs) :
    Except String CommitArgs :=
  require (expectedRef = none || l.windowRef = expectedRef)
    "context ledger window reference does not match" >>= fun _ =>
  require (expectedRevision.all (· = l.sequence)) "context ledger revision mismatch" >>= fun _ =>
  require (l.windowRef = none || l.windowRef = some windowRef || resetPermit)
    "context ledger window reset requires explicit permit" >>= fun _ =>
  .ok { view := a.view, events := a.events, windowRef := some windowRef
        allowWindowChange := resetPermit || l.windowRef = none
        windowOpenReason := a.windowOpenReason, createdAt := a.createdAt }

/-- The calls that commit to a journal. -/
inductive Operation where
  | commit (a : CommitArgs)
  | commitExchange (expectedRef : ProtocolWindowRef) (expectedRevision : Option Nat)
      (checkpoints : List Json) (a : CommitArgs)
  | openWindow (windowRef : ProtocolWindowRef) (expectedRef : Option ProtocolWindowRef)
      (expectedRevision : Option Nat) (resetPermit : Bool) (a : CommitArgs)

namespace Operation

def args (l : Ledger) : Operation → Except String CommitArgs
  | commit a => .ok a
  | commitExchange expectedRef expectedRevision checkpoints a =>
    ContextLedger.commitExchange l expectedRef expectedRevision checkpoints a
  | openWindow windowRef expectedRef expectedRevision resetPermit a =>
    ContextLedger.openWindow l windowRef expectedRef expectedRevision resetPermit a

/-- What a call is about to commit, unless its checks fail. -/
def draft (l : Ledger) (op : Operation) : Except String Draft := op.args l >>= prepare l

end Operation

def perform (digest : Digest) (d : Disk) (l : Ledger) (op : Operation) (fault : Option Fault) :
    Outcome :=
  commit digest d l (op.draft l) fault

end ContextLedger

end Codey
