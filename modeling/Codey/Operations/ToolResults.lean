import Codey.Lib.JsonText
import Codey.Operations.KernelProtocol
import Codey.Storage.ManagedOutputs
import Mathlib.Data.Rat.Floor

/-!
# Results of tools

What is made of a result when it is constructed: the projections of what is only shown and
audited, which are bounded and name what they leave out, the canonical data, which is kept or
rejected, and the notices at the end of the text.
-/

namespace Codey

namespace Operations

open ManagedOutputs (isHandle isSha256Hex outputLead)

def truncatedResultNotice : String :=
  "[truncated result: omitted content may contain relevant errors or code. Do not assume " ++
    "omitted content is clean. Use narrower offsets or rerun a narrower query/command if needed.]"

def projectionWarningKey : String := "_projection_warnings"
def projectionMaxDepth : Nat := 6
def projectionMaxItems : Nat := 200
def projectionMaxKeyChars : Nat := 80
def projectionMaxStringChars : Nat := 2000
def projectionMaxWarnings : Nat := 8

structure ToolResult where
  call : ToolCall
  modelText : String
  ok : Bool
  truncated : Bool := false
  presentation : Fields := []
  audit : Fields := []
  canonical : Fields := []
  deriving DecidableEq

/-! ### Projections -/

structure ProjectionState where
  label : String
  warnings : List String := []
  itemCount : Nat := 0

def ProjectionState.warn (st : ProjectionState) (message : String) : ProjectionState :=
  if st.warnings.length < projectionMaxWarnings then
    { st with warnings := st.warnings ++ [message] }
  else st

/-- `type(value).__name__` of what was read from JSON -/
def typeName : Json → String
  | .null => "NoneType"
  | .bool _ => "bool"
  | .int _ => "int"
  | .float _ => "float"
  | .str _ => "str"
  | .arr _ => "list"
  | .obj _ => "dict"

/-- `_projection_bounded_text` -/
def boundedText (text path : String) (st : ProjectionState) : Json × ProjectionState :=
  if text.length ≤ projectionMaxStringChars then (.str text, st)
  else (.str (String.ofList (text.toList.take projectionMaxStringChars)),
    st.warn s!"{path} string clipped")

/-- `_projection_sanitize_key`, of a text -/
def sanitizeKey (raw path : String) (st : ProjectionState) : String × ProjectionState :=
  let (key, st) := if raw = "" then ("_", st.warn s!"{path} empty key renamed") else (raw, st)
  if key.length ≤ projectionMaxKeyChars then (key, st)
  else (String.ofList (key.toList.take projectionMaxKeyChars), st.warn s!"{path} key clipped")

/-- The key under which a member is kept, and the reserved key under another name. -/
def memberKey (raw path : String) (st : ProjectionState) : String × ProjectionState :=
  let (key, st) := sanitizeKey raw s!"{path}.key" st
  if key = projectionWarningKey then
    ("_input_projection_warnings", st.warn s!"{path}.{key} reserved key renamed")
  else (key, st)

mutual
/-- `_projection_sanitize_value` -/
def sanitizeValue (path : String) (depth : Nat) (st : ProjectionState) (value : Json) :
    Json × ProjectionState :=
  if projectionMaxItems ≤ st.itemCount then
    (.null, st.warn s!"{st.label} projection omitted extra items")
  else
    let st := { st with itemCount := st.itemCount + 1 }
    if projectionMaxDepth < depth then
      let name := typeName value
      (.str s!"<max-depth {name}>", st.warn s!"{path} exceeded max depth")
    else
      match value with
      | .null => (.null, st)
      | .bool b => (.bool b, st)
      | .int n => (.int n, st)
      | .float q => (.float q, st)
      | .str text => boundedText text path st
      | .obj members =>
        let (kept, st) := sanitizeMapping path (depth + 1) st [] members
        (.obj kept, st)
      | .arr items =>
        let (kept, st) := sanitizeSequence path depth st 0 items
        (.arr kept, st)

/-- `_projection_sanitize_mapping` -/
def sanitizeMapping (path : String) (depth : Nat) (st : ProjectionState) (sanitized : Fields) :
    List (String × Json) → Fields × ProjectionState
  | [] => (sanitized, st)
  | (raw, value) :: members =>
    if projectionMaxItems ≤ st.itemCount then
      (sanitized, st.warn s!"{path} object omitted extra items")
    else
      let (key, st) := memberKey raw path st
      if (sanitized.get? key).isSome then
        sanitizeMapping path depth (st.warn s!"{path}.{key} duplicate key omitted") sanitized
          members
      else
        let (kept, st) := sanitizeValue s!"{path}.{key}" depth st value
        sanitizeMapping path depth st (sanitized.set key kept) members

/-- `_projection_sanitize_sequence` -/
def sanitizeSequence (path : String) (depth : Nat) (st : ProjectionState) (index : Nat) :
    List Json → List Json × ProjectionState
  | [] => ([], st)
  | item :: items =>
    if projectionMaxItems ≤ st.itemCount then ([], st.warn s!"{path} list omitted extra items")
    else
      let (kept, st) := sanitizeValue s!"{path}[{index}]" (depth + 1) st item
      let (rest, st) := sanitizeSequence path depth st (index + 1) items
      (kept :: rest, st)
end

/-- `json_safe_projection`, of a mapping -/
def jsonSafeProjection (value : Fields) (label : String) : Fields :=
  let (result, st) := sanitizeMapping label 0 { label := label } [] value
  if st.warnings = [] then result
  else result.set projectionWarningKey (.arr (st.warnings.map .str))

def canonicalJsonMapping (value : Fields) : Except String Fields :=
  (Toolchain.Decoder.value Toolchain.defaultJsonLimits {} 0 (.obj value)).map fun _ => value

/-! ### Notices -/

/-- `_managed_output_sha256` -/
def managedSha256 : Option Json → String
  | some (.str text) => if isSha256Hex text then text else ""
  | _ => ""

def strictNonnegativeInt : Option Json → Nat
  | some (.int n) => n.toNat
  | some (.float q) => ⌊q⌋.toNat
  | some (.str value) =>
    let text := strip value.toList
    if text ≠ [] ∧ text.all Char.isDigit ∧ text.length ≤ 4300 then JsonText.natural text else 0
  | _ => 0

/-- `_managed_output_footer`, of what `normalized_managed_output` makes of the value -/
def managedOutputFooter (value : Option Json) (captureTruncated : Bool) : String :=
  match value with
  | some (.obj managed) =>
    let managed : Fields := managed
    match managed.get? "handle" with
    | some (.str handle) =>
      if isHandle outputLead handle then
        let originalBytes := strictNonnegativeInt (managed.get? "original_bytes")
        let storedBytes := strictNonnegativeInt (managed.get? "stored_bytes")
        let sha256 := managedSha256 (managed.get? "sha256")
        let originalSha256 := managedSha256 (managed.get? "original_sha256")
        let storedTruncated := managed.truthy "stored_truncated"
        let framing := if storedTruncated || captureTruncated then
          "[output receipt retained locally: " else "[full output retained locally: "
        let original := if storedTruncated && originalSha256 ≠ "" then
          s!"original_sha256={originalSha256}; " else ""
        framing ++ s!"handle={handle}, original_bytes={originalBytes}, " ++
          s!"stored_bytes={storedBytes}, sha256={sha256}; " ++ original ++
          "handle is for local audit/export, not a tool.]"
      else ""
    | _ => ""
  | _ => ""

/-- A text with a notice behind it, unless the notice is empty or occurs in it. -/
def withNotice (text notice : String) : String :=
  if notice = "" ∨ occursIn notice.toList text.toList then text else text ++ "\n" ++ notice

def modelTextWithAuditMarkers (text : String) (truncated : Bool) (audit : Fields) : String :=
  let text := if truncated then withNotice text truncatedResultNotice else text
  withNotice text (managedOutputFooter (audit.get? "managed_output")
    (audit.truthy "capture_truncated"))

def ToolResult.postInit (r : ToolResult) : Except String ToolResult := do
  let presentation := jsonSafeProjection r.presentation "presentation"
  let audit := jsonSafeProjection r.audit "audit"
  let canonical ← canonicalJsonMapping r.canonical
  return { r with
    modelText := modelTextWithAuditMarkers r.modelText r.truncated audit
    presentation := presentation
    audit := audit
    canonical := canonical }

end Operations

end Codey
