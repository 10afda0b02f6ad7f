import Codey.Lib.Check
import Codey.Lib.Json
import Codey.Lib.Text

/-!
# What the providers share

The results that a provider is sent, and how the members of a reply are read.
-/

namespace Codey

/-- `item.get(key) == text`. -/
def Fields.hasText (fs : Fields) (key text : String) : Bool := fs.get? key = some (.str text)

namespace Api

inductive Failure where
  /-- An exception of the language itself. -/
  | raised (name : String)
  deriving DecidableEq

/-- A value that a set may hold. -/
def hashable : Json → Bool
  | .arr _ | .obj _ => false
  | _ => true

/-- `for part in value`: the parts of a value, when it has some. -/
def parts : Json → Except Failure (List Json)
  | .arr items => .ok items
  | .obj members => .ok (members.map fun member => .str member.1)
  | .str s => .ok (s.toList.map fun ch => .str (String.singleton ch))
  | _ => .error (.raised "TypeError")

structure ProviderToolResult where
  callId : String
  content : String
  userContent : Option String := none

end Api

end Codey
