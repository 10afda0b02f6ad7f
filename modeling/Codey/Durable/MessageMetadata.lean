import Codey.Durable.PassiveWrites

/-!
# Metadata of messages

What a message carries beside its text: the attachments and the source of an entry, checked before
a message is written.
-/

namespace Codey

namespace Attachments

/-- `MAX_ATTACHMENT_BYTES` -/
def maxBytes : Nat := 2 * 1024 * 1024

/-- `MAX_ATTACHMENTS` -/
def maxCount : Nat := 4

def maxInputBytes : Nat := 4 * 1024 * 1024

/-- A text of a length that `ok` admits. -/
def textWith (item : Fields) (key : String) (ok : String → Bool) : Bool :=
  ((item.get? key).bind Json.str?).any ok

/-- One attachment: its id and its size. -/
def validate (seen : List String) (item : Fields) : Except Error (String × Int) := do
  let id ← match item.get? "id" with
    | some (.str id) => do
      require ("att_".toList.isPrefixOf id.toList && id.length = 68 && !seen.contains id)
        (.valueError "Invalid attachment identity.")
      pure id
    | _ => .error (.valueError "Invalid attachment identity.")
  let size ← match item.get? "size" with
    | some (.int size) => do
      require (textWith item "name" (fun name => name ≠ "" && name.length ≤ 255)
          && 0 < size && size ≤ maxBytes && textWith item "sha256" (·.length = 64))
        (.valueError "Invalid attachment metadata.")
      pure size
    | _ => .error (.valueError "Invalid attachment metadata.")
  match item.get? "media_type" with
  | some (.str "text/plain") =>
    require (textWith item "text" (·.utf8ByteSize ≤ maxBytes))
      (.valueError "Invalid attachment text.")
  | some (.str media) => do
    require (["image/png", "image/jpeg", "image/gif", "image/webp"].contains media)
      (.valueError ("Unsupported attachment type. Choose a UTF-8 text file or PNG, JPEG, GIF, or "
        ++ "WebP image."))
    require (textWith item "data_url" fun data =>
        ("data:" ++ media ++ ";base64,").toList.isPrefixOf data.toList
          && data.length ≤ 3 * maxBytes)
      (.valueError "Invalid attachment image.")
  | other => do
    Context.hashable (other.getD .null)
    .error (.valueError ("Unsupported attachment type. Choose a UTF-8 text file or PNG, JPEG, GIF, or "
      ++ "WebP image."))
  pure (id, size)

/-- The attachments from the first to the last, with their total size. -/
def validateItems : List Json → List String → Int → Except Error Int
  | [], _, total => .ok total
  | .obj item :: items, seen, total => do
    let (id, size) ← validate seen item
    validateItems items (id :: seen) (total + size)
  | _ :: _, _, _ => .error (.valueError "Invalid attachment content.")

end Attachments

def validateAttachments : Json → Except Error (List Json)
  | .arr items => do
    require (items.length ≤ Attachments.maxCount)
      (.valueError "At most four attachments are allowed.")
    let total ← Attachments.validateItems items [] 0
    require (total ≤ Attachments.maxInputBytes)
      (.valueError "Attachments exceed the 4 MiB total limit.")
    pure items
  | _ => .error (.valueError "At most four attachments are allowed.")

/-- The source of a message: who has sent it. -/
def validateSource : Json → Except Error Fields
  | .obj source => do
    require (source.all (fun f => ["actor_id", "name", "kind"].contains f.1)
        && ["actor_id", "name", "kind"].all fun key =>
          Attachments.textWith source key fun value => value ≠ "" && value.length ≤ 512)
      (.valueError "invalid message source metadata")
    pure source
  | _ => .error (.valueError "invalid message source metadata")

def messageMetadata (content : Fields) : Except Error Fields :=
  match (content.get? "message_metadata").getD (.obj []) with
  | .obj raw => do
    require (raw.all fun f => ["source", "in_reply_to_run_id", "attachments"].contains f.1)
      (.valueError "invalid message metadata")
    let attachments ← match Fields.get? raw "attachments" with
      | none => pure none
      | some value => some <$> validateAttachments value
    let source ← match Fields.get? raw "source" with
      | none => pure none
      | some value => some <$> validateSource value
    let reply ← match Fields.get? raw "in_reply_to_run_id" with
      | none => pure none
      | some (.str reply) => do
        require (reply.length ≤ 512) (.valueError "invalid reply metadata")
        pure (some reply)
      | some _ => .error (.valueError "invalid reply metadata")
    pure ((attachments.map fun items => ("attachments", Json.arr items)).toList
      ++ (reply.map fun reply => ("in_reply_to_run_id", Json.str reply)).toList
      ++ (source.map fun source => ("source", Json.obj source)).toList)
  | _ => .error (.valueError "invalid message metadata")

end Codey
