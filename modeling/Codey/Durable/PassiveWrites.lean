import Codey.Durable.Admission
import Codey.Durable.Context
import Codey.Durable.Conversations

/-!
# Passive writes

`admit_write`: the commit that puts one passive entry into a conversation, or into its queue,
without a task.
-/

namespace Codey

/-- The arguments of `admit_write`, with the ids that the source draws at random and the
fingerprint of the request. -/
structure PassiveWrite where
  conversationId : String
  requestId : String
  kind : String
  data : Fields := []
  displayOnly : Bool := true
  model : Option Fields := none
  edits : Option (List Fields) := none
  head : Option String := none
  placement : SubmissionPlacement := .placed
  expectedRevision : Option Int := none
  expectedHead : Option String := none
  entryId : String
  submissionId : String
  fingerprint : String := ""

namespace PassiveWrite

variable (host : Host) (w : PassiveWrite)

/-- One edit of the context that a write carries. -/
def validateEdit (edit : Fields) : Except Error Unit := do
  require ((edit.get? "target").any fun v => v.str?.any (· ≠ ""))
    (.valueError "passive entry edit target is required")
  let action := (edit.get? "action").getD .null
  Context.hashable action
  require (action = .str "omit" ∨ action = .str "replace")
    (.valueError ("unknown passive entry edit action: " ++ host.repr action))
  if action = .str "replace" then
    match edit.get? "messages" with
    | some (.arr messages) =>
      require (messages.all fun v => match v with | .obj _ => true | _ => false)
        (.valueError "replacement context message must be an object")
    | _ => .error (.valueError "replacement context messages must be a list")

/-- `_validate_write_fields`. -/
def validateFields : Except Error Unit := do
  require (w.kind ≠ "" && !"pi.".toList.isPrefixOf w.kind.toList)
    (.valueError "write kind must be non-empty and outside the reserved pi namespace")
  checkAll (w.edits.getD []) (validateEdit host)
  require (w.head ≠ some "") (.valueError "head must be 'self' or a non-empty entry ID")
  require (!w.displayOnly || (w.model.isNone && w.edits.isNone && w.head.isNone))
    (.valueError "display-only writes cannot carry context metadata")

/-- `_validate_write_fence`. -/
def validateFence : Except Error Unit := do
  require (w.expectedRevision.all (0 ≤ ·))
    (.valueError "expected revision must be a non-negative integer")
  require (w.expectedRevision.isNone || w.placement = .placed)
    (.valueError "a revision-fenced write must be placed immediately")
  require (w.expectedHead ≠ some "") (.valueError "expected head must be a non-empty entry ID")
  require (w.expectedHead.isNone || w.expectedRevision.isSome)
    (.valueError "expected head requires an expected revision")

/-- The edits, as a payload holds them. -/
def editsJson (edits : List Fields) : Json := .arr (edits.map Json.obj)

/-- The content of the submission. -/
def content : Fields :=
  [("data", .obj w.data), ("display_only", .bool w.displayOnly)]
    ++ (w.edits.map fun edits => ("edits", editsJson edits)).toList
    ++ (w.head.map fun head => ("head", Json.str head)).toList
    ++ [("kind", .str w.kind)]
    ++ (w.model.map fun model => ("model", Json.obj model)).toList

def payload : Fields :=
  [("data", .obj w.data), ("display_only", .bool w.displayOnly)]
    ++ (w.edits.map fun edits => ("edits", editsJson edits)).toList
    ++ (w.head.map fun head => [("head", Json.str head), ("head_marker", .bool true)]).toList.flatten
    ++ (w.model.map fun model => ("model", Json.obj model)).toList

def entry (stale : Bool) (head : Option String) : Except Error (Option EntryDraft) :=
  if w.placement = .placed && !stale then do
    let entry ← EntryDraft.make w.entryId w.conversationId head w.kind w.payload none
    pure (some entry)
  else .ok none

/-- The submission of a write: settled at once when it is placed, or when its head is gone. -/
def draft (stale : Bool) (entry : Option EntryDraft) : SubmissionDraftData where
  submissionId := w.submissionId
  requestId := w.requestId
  conversationId := w.conversationId
  entry := entry
  fingerprint := w.fingerprint
  status := if stale then .unanswered else if w.placement = .placed then .done else .queued
  placement := if stale then .queued else w.placement
  mode := .write
  content := some w.content
  reason := if stale then some "stale" else none

end PassiveWrite

namespace Session

variable (c : Session) (host : Host) (io : Responses)

/-- Whether the entry that a write names as head is out of sight. -/
def isStale (w : PassiveWrite) (creation : Option CreateConversation) : Op Bool :=
  match w.head with
  | none => pure false
  | some target =>
    if target = "self" then pure false
    else if creation.isSome then pure true
    else do
      let path ← view (·.context io w.conversationId)
      pure (!path.any (·.entryId = target))

/-- Admit one passive write. -/
def admitWrite (w : PassiveWrite) : Op CommitResult := do
  c.ensureUsable
  Prog.ofExcept (w.validateFields host)
  Prog.ofExcept w.validateFence
  let existing ← view (·.submissionResultForRequest w.conversationId w.requestId w.fingerprint)
  match existing with
  | some result => pure result
  | none => do
    let (head, revision, creation) ← readHead w.conversationId
    ensure (w.expectedRevision.all (· = (revision : Int)))
      (.commitConflict "conversation revision changed")
    ensure (w.expectedHead.all fun id => head = some id)
      (.commitConflict "conversation head changed")
    let stale ← isStale io w creation
    ensure (!stale || w.expectedRevision.isNone)
      (.commitConflict "a revision-fenced write cannot be queued for a stale head")
    let entry ← Prog.ofExcept (w.entry stale head)
    let submission ← Prog.ofExcept (SubmissionDraft.make (w.draft stale entry))
    c.commitData {
      conversationId := w.conversationId, expectedRevision := revision
      entries := entry.toList, submission := some submission, createConversation := creation }

end Session

end Codey
