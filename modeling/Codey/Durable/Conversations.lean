import Codey.Durable.Paths
import Codey.Durable.Session

/-!
# Conversation operations

The reads of a conversation, now and as of an earlier commit, and the operations that create,
extend, branch, fork and delete one.
-/

namespace Codey

/-! ### Reads -/

/-- The files and the format behind stored provider responses: what the file of an artifact decodes
to, and the tool call message of a response payload. -/
structure Responses where
  readResponseArtifact : ArtifactRecord → Except Error Json
  toolCallMessage : Json → Except Error Fields

/-- `_apply_head_cut`: the newest head marker cuts off what stands before it. -/
def applyHeadCut : List EntryDraft → List EntryDraft
  | [] => []
  | e :: path =>
    if path.any fun f => f.payload.get? "head_marker" = some (.bool true) then applyHeadCut path
    else e :: path

lemma applyHeadCut_suffix (path : List EntryDraft) : applyHeadCut path <:+ path := by
  induction path with
  | nil => exact List.suffix_rfl
  | cons e path ih =>
    unfold applyHeadCut
    split
    · exact ih.trans (List.suffix_cons e path)
    · exact List.suffix_rfl

def responseRef (e : EntryDraft) : Option Json :=
  if e.kind = "tool_call" then (e.payload.get? "response_ref").filter (· ≠ .null) else none

/-- The members of a response envelope of the given effect. -/
def validEnvelope (envelope : Json) (effectId : String) : Option Fields :=
  match envelope with
  | .obj fields => (some fields : Option Fields).filter fun fields =>
    ((fields.get? "schema_version").any fun v => v.pyEq (.int 1))
      && fields.get? "kind" = some (.str "provider_response")
      && fields.get? "effect_id" = some (.str effectId)
  | _ => none

namespace SqliteStore

variable (s : SqliteStore) (io : Responses)

/-- The message that a response reference of an entry stands for. -/
def responseMessage (e : EntryDraft) (reference : Json) : Except Error Fields := do
  require (reference.str?.any (· ≠ "") && e.payload.all (·.1 = "response_ref"))
    (.valueError "invalid provider history reference")
  let artifact ← s.artifact (reference.str?.getD "")
  require (artifact.ownerTaskId = e.byTaskId && artifact.ownerEffectId.any (· ≠ "")
      && artifact.metadata.get? "kind" = some (.str "provider_response"))
    (.valueError "provider history reference ownership mismatch")
  let envelope ← io.readResponseArtifact artifact
  match validEnvelope envelope (artifact.ownerEffectId.getD "") with
  | some fields => io.toolCallMessage ((fields.get? "payload").getD .null)
  | none => .error (.valueError "invalid provider history response")

/-- An entry as a reader sees it. -/
def resolveEntry (e : EntryDraft) : Except Error EntryDraft :=
  match responseRef e with
  | none => .ok e
  | some reference => do
    let payload ← s.responseMessage io e reference
    pure { e with payload }

def resolveResponseEntries : List EntryDraft → Except Error (List EntryDraft)
  | [] => .ok []
  | e :: path => do
    let e ← s.resolveEntry io e
    let path ← resolveResponseEntries path
    pure (e :: path)

/-- `context`: what a conversation shows up to a leaf, its head when no leaf is given. -/
def context (conversationId : String) (leafId : Option String := none) :
    Except Error (List EntryDraft) := do
  let leaf ← match leafId with
    | some leaf => pure (some leaf)
    | none => (s.head conversationId).map Prod.fst
  let path ← s.path conversationId leaf
  s.resolveResponseEntries io (applyHeadCut path)

/-- The entries of a conversation that were committed by `commitSeq`. -/
def visible (commitSeq : Nat) (conversationId : String) : Except Error (List EntryDraft) := do
  let entries ← s.entriesOf conversationId
  pure (entries.filter (·.commitSeq ≤ commitSeq))

def contextAt (conversationId : String) (commitSeq : Nat) (leafId : Option String := none) :
    Except Error (List EntryDraft) := do
  let own ← s.visible commitSeq conversationId
  let leaf ← match leafId, own.getLast? with
    | some leaf, _ => pure (some leaf)
    | none, some e => pure (some e.entryId)
    | none, none => (s.conversationParent conversationId).map Prod.snd
  let path ← contextPath (s.visible commitSeq) s.conversationParent
    (s.conversations.rows.length + 1) conversationId leaf
  s.resolveResponseEntries io (applyHeadCut path)

end SqliteStore

/-! ### Operations -/

/-- `CreateConversation.__post_init__`. -/
def CreateConversation.make (parentConversationId parentEntryId : Option String) :
    Except Error CreateConversation :=
  if h : parentConversationId.any (· ≠ "") = parentEntryId.any (· ≠ "") then
    .ok ⟨parentConversationId, parentEntryId, h⟩
  else .error (.valueError "a fork requires both its parent conversation and entry cap")

namespace Session

variable (c : Session)

def createConversation (conversationId : String) : Op CommitResult := do
  c.ensureUsable
  let existing ← look (·.hasConversation conversationId)
  if existing then do
    let (_, revision) ← view (·.head conversationId)
    let sequence ← look (·.sequence)
    pure ⟨revision, sequence, none⟩
  else c.commitData { conversationId, expectedRevision := 0, createConversation := some .root }

/-- `append_message`; `entryId` is the id that it makes up. -/
def appendMessage (conversationId kind : String) (payload : Fields) (entryId : String) :
    Op EntryDraft := do
  c.ensureUsable
  let (parentId, revision) ← view (·.head conversationId)
  let entry ← Prog.ofExcept (EntryDraft.make entryId conversationId parentId kind payload none)
  let result ← c.commitData { conversationId, expectedRevision := revision, entries := [entry] }
  pure { entry with commitSeq := result.sequence }

/-- `branch`. The commit has sealed the session by itself when anything but a rejection comes out
of it. -/
def branch (conversationId entryId : String) (expectedRevision : Option Nat := none) :
    Op CommitResult := do
  c.ensureUsable
  let (_, revision) ← view (·.head conversationId)
  c.commitData {
    conversationId, expectedRevision := expectedRevision.getD revision
    branchEntryId := some entryId }

/-- `fork`; `childId` is the id of the new conversation. -/
def fork (conversationId entryId childId : String) : Op String := do
  c.ensureUsable
  let creation ← Prog.ofExcept (CreateConversation.make (some conversationId) (some entryId))
  let _ ← c.commitData {
    conversationId := childId, expectedRevision := 0, createConversation := some creation }
  pure childId

def deleteConversation (conversationId : String) : Op CommitResult := do
  c.ensureUsable
  let (_, revision) ← view (·.head conversationId)
  c.commitData { conversationId, expectedRevision := revision, deleteConversation := true }

end Session

end Codey
