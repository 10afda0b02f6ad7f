import Codey.Lib.Check
import Codey.Lib.Json
import Codey.Lib.Text

/-!
# Protocol windows

The identity of a provider's protocol window, and the payload that stands for it in durable
records.
-/

namespace Codey

/-- A text that `str.strip` does not empty. -/
def Nonblank (s : String) : Prop := strip s.toList ≠ []

instance (s : String) : Decidable (Nonblank s) := inferInstanceAs (Decidable (_ ≠ _))

structure ProviderBinding where
  connectionId : String
  connectionRevision : String
  modelId : String
  protocol : String
  historyContractId : String
  valid : Nonblank connectionId ∧ Nonblank connectionRevision ∧ Nonblank modelId ∧
    Nonblank protocol ∧ Nonblank historyContractId
  deriving DecidableEq

structure ProtocolWindowRef where
  sessionId : String
  binding : ProviderBinding
  windowId : String
  valid : Nonblank sessionId ∧ Nonblank windowId
  deriving DecidableEq

/-- `payload.get(key)`, when it is a text. -/
def textMember (payload : Fields) (key : String) : Option String := (payload.get? key).bind Json.str?

namespace ProviderBinding

/-- The checks of the constructor, which name the first blank field. -/
def make (connectionId connectionRevision modelId protocol historyContractId : String) :
    Except String ProviderBinding :=
  if h₁ : Nonblank connectionId then
    if h₂ : Nonblank connectionRevision then
      if h₃ : Nonblank modelId then
        if h₄ : Nonblank protocol then
          if h₅ : Nonblank historyContractId then
            .ok ⟨connectionId, connectionRevision, modelId, protocol, historyContractId,
              h₁, h₂, h₃, h₄, h₅⟩
          else .error "history_contract_id must be a non-empty string"
        else .error "protocol must be a non-empty string"
      else .error "model_id must be a non-empty string"
    else .error "connection_revision must be a non-empty string"
  else .error "connection_id must be a non-empty string"

def toPayload (b : ProviderBinding) : Json :=
  .obj [("connection_id", .str b.connectionId), ("connection_revision", .str b.connectionRevision),
    ("history_contract_id", .str b.historyContractId), ("model_id", .str b.modelId),
    ("protocol", .str b.protocol)]

def fromPayload : Option Json → Except String ProviderBinding
  | some (.obj payload) =>
    match textMember payload "connection_id", textMember payload "connection_revision",
      textMember payload "model_id", textMember payload "protocol",
      textMember payload "history_contract_id" with
    | some connectionId, some connectionRevision, some modelId, some protocol, some contractId =>
      make connectionId connectionRevision modelId protocol contractId
    | _, _, _, _, _ => .error "provider binding fields must be strings"
  | _ => .error "provider binding must be an object"

lemma fromPayload_toPayload (b : ProviderBinding) : fromPayload (some b.toPayload) = .ok b := by
  obtain ⟨h₁, h₂, h₃, h₄, h₅⟩ := b.valid
  have hread : fromPayload (some b.toPayload) =
      make b.connectionId b.connectionRevision b.modelId b.protocol b.historyContractId := rfl
  rw [hread, make, dif_pos h₁, dif_pos h₂, dif_pos h₃, dif_pos h₄, dif_pos h₅]

end ProviderBinding

namespace ProtocolWindowRef

/-- The checks of the constructor. -/
def make (sessionId : String) (binding : ProviderBinding) (windowId : String) :
    Except String ProtocolWindowRef :=
  if h₁ : Nonblank sessionId then
    if h₂ : Nonblank windowId then .ok ⟨sessionId, binding, windowId, h₁, h₂⟩
    else .error "window_id must be a non-empty string"
  else .error "session_id must be a non-empty string"

def toPayload (r : ProtocolWindowRef) : Json :=
  .obj [("binding", r.binding.toPayload), ("session_id", .str r.sessionId),
    ("window_id", .str r.windowId)]

def fromPayload : Option Json → Except String ProtocolWindowRef
  | some (.obj payload) =>
    match textMember payload "session_id", textMember payload "window_id" with
    | some sessionId, some windowId =>
      ProviderBinding.fromPayload (Fields.get? payload "binding") >>= fun binding =>
      make sessionId binding windowId
    | _, _ => .error "protocol window identity fields must be strings"
  | _ => .error "protocol window reference must be an object"

lemma fromPayload_toPayload (r : ProtocolWindowRef) : fromPayload (some r.toPayload) = .ok r := by
  obtain ⟨h₁, h₂⟩ := r.valid
  simp [toPayload, fromPayload, textMember, ProviderBinding.fromPayload_toPayload, make, h₁, h₂,
    bind, Except.bind]

end ProtocolWindowRef

end Codey
