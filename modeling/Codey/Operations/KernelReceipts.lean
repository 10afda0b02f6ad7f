import Codey.Operations.ToolResults

/-!
# Receipts of tool results

A settlement carries the result of a tool as a text, or names the artifact that holds it, and a
result is restored from it after checks against the settlement, the intent and the store.
-/

namespace Codey

namespace Operations

open ManagedOutputs

def inlineReceiptChars : Nat := 8000

/-! ### Receipts -/

structure Receipt where
  resultPayload : String
  resultPayloadSha256 : String
  resultRef : String
  resultExcerpt : String
  resultText : String
  resultLen : Nat
  resultSha256 : String
  resultTruncated : Bool
  callId : String

structure Settlement extends Receipt where
  status : String

structure Intent where
  effectId : String
  toolName : String
  argsDigest : String
  callId : String

/-- `_runtime_name` of the task effects -/
def effectRuntimeName (name : String) : String :=
  ([("list_dir", "ls"), ("read_file", "read"), ("grep", "search"),
    ("find_references", "references")].lookup name).getD name

variable (h : ManagedOutputs.Host)

/-- `compute_args_digest`, of an object -/
def argsDigest (args : Fields) : String :=
  "sha256:" ++ front (h.sha256 (h.dumpsSpaced (.obj args))) 16

def intentOf (effectId : String) (r : ToolResult) : Intent where
  effectId := effectId
  toolName := effectRuntimeName r.call.name
  argsDigest := argsDigest h r.call.args
  callId := r.call.callId

def receiptData (r : ToolResult) : Fields := [
  ("args", .obj r.call.args), ("audit", .obj r.audit), ("call_name", .str r.call.name),
  ("canonical", .obj r.canonical), ("model_text", .str r.modelText), ("ok", .bool r.ok),
  ("presentation", .obj r.presentation), ("schema_version", .int 2),
  ("truncated", .bool r.truncated), ("workspace_identity", .null)]

def receiptKeys : List String := ["args", "audit", "call_name", "canonical", "model_text", "ok",
  "presentation", "schema_version", "truncated", "workspace_identity"]

def receiptPayload (r : ToolResult) : String := h.dumps (.obj (receiptData r))

def receiptOf (r : ToolResult) (inline ref : String) : Receipt where
  resultPayload := inline
  resultPayloadSha256 := h.sha256 (receiptPayload h r)
  resultRef := ref
  resultExcerpt := front r.modelText 500
  resultText := if r.modelText.length ≤ inlineReceiptChars then r.modelText else ""
  resultLen := r.modelText.length
  resultSha256 := h.sha256 r.modelText
  resultTruncated := r.truncated
  callId := r.call.callId

def resultReceiptFields (store : Store) (r : ToolResult) (sessionId runId : String) :
    Except String Receipt × Store :=
  let payload := receiptPayload h r
  if payload.length ≤ inlineReceiptChars then (.ok (receiptOf h r payload ""), store)
  else
    let (written, store) := h.writeJsonArtifact store sessionId runId (.obj (receiptData r)) 2
    (written.bind fun info =>
      if info.sha256 = h.sha256 payload then .ok (receiptOf h r "" info.handle)
      else .error "tool result receipt could not be stored completely", store)

/-! ### Restoring -/

variable (store : Store) (sessionId runId : String) (s : Settlement) (intent : Intent)

def managedReceiptPayload : Except String String :=
  if outputLead.isPrefixOf s.resultRef.toList then do
    let output ← h.readToolOutput store sessionId runId s.resultRef
    require (output.schemaVersion = 1 ∧ output.storedTruncated = false ∧
        output.toolId = front intent.effectId 80 ∧ output.toolName = "tool_result" ∧
        output.sha256 = s.resultPayloadSha256 ∧ output.originalSha256 = s.resultPayloadSha256)
      "legacy result receipt has invalid ownership or incomplete bytes"
    return output.text
  else if artifactLead.isPrefixOf s.resultRef.toList then do
    let data ← h.readJsonArtifact store (sessionId, runId, 2) s.resultRef s.resultPayloadSha256
    return h.dumps data
  else .error "unknown managed result receipt format"

def namedPayload : Except String String :=
  if s.resultRef = "" then .ok s.resultPayload
  else if s.resultPayload = "" then managedReceiptPayload h store sessionId runId s intent
  else .error "invalid managed result receipt"

/-- The payload of a settlement, when it has the digest that the settlement names. -/
def settledPayload : Except String String :=
  namedPayload h store sessionId runId s intent >>= fun payload =>
    (require (payload ≠ "" ∧ h.sha256 payload = s.resultPayloadSha256)
      "tool result receipt digest mismatch").map fun _ => payload

/-- The tool output that the audit names is stored with the digest that it names. -/
def verifyOutput (audit : Fields) : Except String Unit :=
  if audit.truthy "managed_output" then
    match audit.get? "managed_output" with
    | some (.obj artifact) =>
      match Fields.get? artifact "handle" with
      | some (.str handle) => do
        let output ← h.readToolOutput store sessionId runId handle
        require (Fields.get? artifact "sha256" = some (.str output.sha256))
          "tool output artifact differs from receipt"
      | _ => .error "invalid managed output handle"
    | _ => .error "cannot verify tool output artifact"
  else .ok ()

def callNameDiffers : String := "tool result original call name differs from intent"

/-- The checks of what was read from a payload. Whether a workspace identity is still trusted is
left aside. -/
def restoreData (data : Fields) : Except String ToolResult := do
  require (data.map Prod.fst = receiptKeys) "invalid tool result receipt fields"
  let some (.str name) := data.get? "call_name" | .error callNameDiffers
  require (data.get? "schema_version" = some (.int 2) ∧ name ≠ "" ∧
    effectRuntimeName name = intent.toolName) callNameDiffers
  let some (.bool ok) := data.get? "ok" | .error "tool result status differs from settlement"
  require (ok = decide (s.status = "ok")) "tool result status differs from settlement"
  let some (.obj args) := data.get? "args" | .error "tool result arguments differ from intent"
  require (argsDigest h args = intent.argsDigest) "tool result arguments differ from intent"
  let some (.str text) := data.get? "model_text" | .error "tool result text differs from settlement"
  require (text.length = s.resultLen ∧ h.sha256 text = s.resultSha256)
    "tool result text differs from settlement"
  let some (.bool truncated) := data.get? "truncated"
    | .error "tool result truncation differs from settlement"
  require (truncated = s.resultTruncated) "tool result truncation differs from settlement"
  require (s.callId = intent.callId) "tool result call identity differs from intent"
  let some (.obj canonical) := data.get? "canonical" | .error "invalid tool result canonical"
  let some (.obj presentation) := data.get? "presentation"
    | .error "invalid tool result presentation"
  let some (.obj audit) := data.get? "audit" | .error "invalid tool result audit"
  verifyOutput h store sessionId runId audit
  let result ← ToolResult.postInit {
    call := ⟨name, args, intent.callId⟩
    modelText := text
    ok := ok
    truncated := truncated
    presentation := presentation
    audit := audit
    canonical := canonical }
  match data.get? "workspace_identity" with
  | some .null | some (.obj _) => .ok result
  | _ => .error "invalid persisted workspace identity"

def restoreResultReceipt : Except String ToolResult :=
  settledPayload h store sessionId runId s intent >>= fun payload =>
    match h.loads payload with
    | some (.obj data) => restoreData h store sessionId runId s intent data
    | _ => .error "invalid tool result receipt fields"

/-! ### Exact receipts -/

def Built (r : ToolResult) : Prop := ∃ sent : ToolResult, sent.postInit = .ok r

/-- The payload of a result is read back, and nothing else has the digests of its texts. -/
structure Sound (r : ToolResult) : Prop where
  nonempty : receiptPayload h r ≠ ""
  loads : h.loads (receiptPayload h r) = some (.obj (receiptData r))
  payload : h.Unforged (receiptPayload h r)
  text : h.Unforged r.modelText
  args : h.Unforged (h.dumpsSpaced (.obj r.call.args))

/-- What a settlement, its intent and the store still hold of a result. -/
structure Unaltered (r : ToolResult) : Prop where
  payload : s.resultRef = "" ∧ s.resultPayload = receiptPayload h r ∨
    store.bodies (h.runDir sessionId runId, stripped s.resultRef) = some (receiptPayload h r) ∨
    ∃ output ∈ store.outputs (h.runDir sessionId runId),
      output.handle = stripped s.resultRef ∧ output.text = receiptPayload h r
  text : ∀ text, s.resultSha256 = h.sha256 text → text = r.modelText
  args : ∀ args, intent.argsDigest = argsDigest h args →
    h.dumpsSpaced (.obj args) = h.dumpsSpaced (.obj r.call.args)
  status : s.status = "ok" ↔ r.ok = true

/-- A result is restored as it was after any other writes, or its receipt is refused for its size;
and nothing is restored from what was altered. -/
structure Exact (effectId : String) (before : List Write) (r : ToolResult) (later : List Write) :
    Prop where
  restored :
    match resultReceiptFields h (before.foldl h.write {}) r sessionId runId with
    | (.error e, _) => e = "json artifact exceeds size limit"
    | (.ok receipt, store) => ∀ status, (status = "ok" ↔ r.ok = true) →
      restoreResultReceipt h (later.foldl h.write store) sessionId runId { receipt with status }
        (intentOf h effectId r) = .ok r
  detected : ∀ (altered : Store) (s : Settlement) (intent : Intent) (r' : ToolResult),
    s.resultPayloadSha256 = h.sha256 (receiptPayload h r) →
    restoreResultReceipt h altered sessionId runId s intent = .ok r' →
    Unaltered h altered sessionId runId s intent r

/-- The audit names no tool output, or one that the store holds. -/
def OutputStored (audit : Fields) : Prop :=
  audit.truthy "managed_output" = true → ∃ artifact handle output,
    audit.get? "managed_output" = some (.obj artifact) ∧
    Fields.get? artifact "handle" = some (.str handle) ∧
    (isHandle outputLead (stripped handle) = true ∧
      (store.outputs (h.runDir sessionId runId)).find? (·.handle = stripped handle) = some output) ∧
    Fields.get? artifact "sha256" = some (.str output.sha256)

/-- The metadata of an artifact can be written, and the last of the later writes that replaces them,
when one does, has the session, the run and the version of the receipt. -/
structure MetadataStay (r : ToolResult) (later : List Write) : Prop where
  session : sessionId ≠ ""
  run : runId ≠ ""
  fits : (h.dumps
    (h.artifactMeta (receiptPayload h r) (sessionId, runId, 2)).toPayload).utf8ByteSize ≤
      maxMetadataBytes
  last : (later.filterMap (h.rescope (h.runDir sessionId runId)
    (h.artifactHandle (receiptPayload h r)))).getLast?.getD (sessionId, runId, 2) =
      (sessionId, runId, 2)

/-- When the receipt of a result is exact. -/
def Restorable (before : List Write) (r : ToolResult) (later : List Write) : Prop :=
  (inlineReceiptChars < (receiptPayload h r).length ∧
    maxManagedOutputBytes < (receiptPayload h r).utf8ByteSize) ∨
  r.call.name ≠ "" ∧ jsonSafeProjection r.presentation "presentation" = r.presentation ∧
    jsonSafeProjection r.audit "audit" = r.audit ∧
    OutputStored h ((before ++ later).foldl h.write {}) sessionId runId r.audit ∧
    (inlineReceiptChars < (receiptPayload h r).length → MetadataStay h sessionId runId r later)

variable {h store sessionId runId s intent} {r r' : ToolResult} {effectId : String}
  {before later : List Write}

lemma occursIn_withNotice {part : List Char} {text : String} (notice : String)
    (hpart : occursIn part text.toList = true) :
    occursIn part (withNotice text notice).toList = true := by
  unfold withNotice
  split_ifs
  · exact hpart
  · rw [occursIn_iff, String.toList_append, String.toList_append, List.append_assoc]
    exact (occursIn_iff.mp hpart).trans (List.prefix_append ..).isInfix

lemma withNotice_eq_self {text notice : String}
    (hnotice : notice = "" ∨ occursIn notice.toList text.toList = true) :
    withNotice text notice = text := if_pos hnotice

lemma occurs_withNotice (text notice : String) :
    notice = "" ∨ occursIn notice.toList (withNotice text notice).toList = true := by
  unfold withNotice
  split_ifs with hnotice
  · exact hnotice
  · refine .inr (occursIn_iff.mpr ?_)
    rw [String.toList_append]
    exact (List.suffix_append ..).isInfix

/-- A text with its notices gets no others. -/
lemma modelTextWithAuditMarkers_idem (text : String) (truncated : Bool) (audit : Fields) :
    modelTextWithAuditMarkers (modelTextWithAuditMarkers text truncated audit) truncated audit =
      modelTextWithAuditMarkers text truncated audit := by
  cases truncated with
  | false => exact withNotice_eq_self (occurs_withNotice ..)
  | true =>
    have hnotice := (occurs_withNotice text truncatedResultNotice).imp_right
      (occursIn_withNotice (managedOutputFooter (audit.get? "managed_output")
        (audit.truthy "capture_truncated")))
    simp only [modelTextWithAuditMarkers, if_true]
    rw [withNotice_eq_self hnotice]
    exact withNotice_eq_self (occurs_withNotice ..)

/-- To construct a result again is to project again what is shown and what is audited. -/
lemma Built.postInit_eq_ok_iff (hbuilt : Built r) :
    r.postInit = .ok r ↔ jsonSafeProjection r.presentation "presentation" = r.presentation ∧
      jsonSafeProjection r.audit "audit" = r.audit := by
  obtain ⟨sent, hsent⟩ := hbuilt
  obtain ⟨canonical, hcanonical, hsent⟩ := except_bind_eq_ok.mp hsent
  obtain ⟨decoder, hdecoder, rfl⟩ := except_map_eq_ok.mp hcanonical
  obtain rfl := Except.ok.inj hsent
  simp only [ToolResult.postInit, hcanonical, bind, Except.bind, pure, Except.pure,
    Except.ok.injEq, ToolResult.mk.injEq, true_and, and_true]
  constructor
  · exact fun hagain => hagain.2
  · rintro ⟨hpresentation, haudit⟩
    refine ⟨?_, hpresentation, haudit⟩
    rw [haudit]
    exact modelTextWithAuditMarkers_idem ..

lemma restoreData_receiptData :
    restoreData h store sessionId runId s intent (receiptData r) = .ok r' ↔
      (r.call.name ≠ "" ∧ effectRuntimeName r.call.name = intent.toolName) ∧
      r.ok = decide (s.status = "ok") ∧ argsDigest h r.call.args = intent.argsDigest ∧
      (r.modelText.length = s.resultLen ∧ h.sha256 r.modelText = s.resultSha256) ∧
      r.truncated = s.resultTruncated ∧ s.callId = intent.callId ∧
      verifyOutput h store sessionId runId r.audit = .ok () ∧
      { r with call := { r.call with callId := intent.callId } }.postInit = .ok r' := by
  simp [restoreData, receiptData, receiptKeys, except_bind_eq_ok, Unique.exists_iff]

lemma restore_iff_of_payload (hs : Sound h r)
    (hpayload : settledPayload h store sessionId runId s intent = .ok (receiptPayload h r)) :
    restoreResultReceipt h store sessionId runId s intent = .ok r' ↔
      restoreData h store sessionId runId s intent (receiptData r) = .ok r' := by
  simp only [restoreResultReceipt, hpayload, bind, Except.bind, hs.loads]

/-- A receipt whose payload is there restores the result exactly when it has a name, its output is
verified, and constructing it again leaves it. -/
lemma restore_receiptOf_iff {inline ref status : String} (hs : Sound h r)
    (hstatus : status = "ok" ↔ r.ok = true)
    (hpayload : settledPayload h store sessionId runId { receiptOf h r inline ref with status }
      (intentOf h effectId r) = .ok (receiptPayload h r)) :
    restoreResultReceipt h store sessionId runId { receiptOf h r inline ref with status }
        (intentOf h effectId r) = .ok r ↔
      r.call.name ≠ "" ∧ verifyOutput h store sessionId runId r.audit = .ok () ∧
        r.postInit = .ok r := by
  rw [restore_iff_of_payload hs hpayload, restoreData_receiptData]
  have hok : r.ok = decide (status = "ok") := by simp [hstatus]
  constructor
  · rintro ⟨⟨hname, -⟩, -, -, -, -, -, hverify, hbuild⟩
    exact ⟨hname, hverify, hbuild⟩
  · rintro ⟨hname, hverify, hbuild⟩
    exact ⟨⟨hname, rfl⟩, hok, rfl, ⟨rfl, rfl⟩, rfl, rfl, hverify, hbuild⟩

lemma verifyOutput_eq_ok_iff (hv : h.Verified store) {audit : Fields} :
    verifyOutput h store sessionId runId audit = .ok () ↔
      OutputStored h store sessionId runId audit := by
  unfold verifyOutput OutputStored
  split_ifs with hmanaged
  · split
    · rename_i artifact hartifact
      split
      · rename_i handle hhandle
        simp only [except_bind_eq_ok, hv.readToolOutput_iff, require_eq_ok, decide_eq_true_eq]
        constructor
        · rintro ⟨output, hread, hdigest⟩
          exact fun _ => ⟨artifact, handle, output, hartifact, hhandle, hread, hdigest⟩
        · intro hstored
          obtain ⟨artifact', handle', output, hartifact', hhandle', hread, hdigest⟩ :=
            hstored hmanaged
          obtain rfl := Json.obj.inj (Option.some.inj (hartifact.symm.trans hartifact'))
          obtain rfl := Json.str.inj (Option.some.inj (hhandle.symm.trans hhandle'))
          exact ⟨output, hread, hdigest⟩
      · rename_i hnone
        refine ⟨(by cases ·), fun hstored => ?_⟩
        obtain ⟨artifact', handle', -, hartifact', hhandle', -⟩ := hstored hmanaged
        obtain rfl := Json.obj.inj (Option.some.inj (hartifact.symm.trans hartifact'))
        exact absurd hhandle' (hnone handle')
    · rename_i hnone
      refine ⟨(by cases ·), fun hstored => ?_⟩
      obtain ⟨artifact', -, -, hartifact', -⟩ := hstored hmanaged
      exact absurd hartifact' (hnone artifact')
  · exact ⟨fun _ hmanaged' => absurd hmanaged' hmanaged, fun _ => rfl⟩

lemma settledPayload_eq_ok_iff {payload : String} :
    settledPayload h store sessionId runId s intent = .ok payload ↔
      namedPayload h store sessionId runId s intent = .ok payload ∧ payload ≠ "" ∧
        h.sha256 payload = s.resultPayloadSha256 := by
  simp only [settledPayload, except_bind_eq_ok, except_map_eq_ok, require_eq_ok, decide_eq_true_eq]
  constructor
  · rintro ⟨_, hnamed, _, hcheck, rfl⟩
    exact ⟨hnamed, hcheck⟩
  · rintro ⟨hnamed, hcheck⟩
    exact ⟨payload, hnamed, (), hcheck, rfl⟩

/-- The payload of a settlement that names an artifact is read when its metadata have the scope of
the receipt. -/
lemma namedPayload_kept_iff {status payload : String} {scope : Scope} (hs : Sound h r)
    (hk : Kept h store (h.runDir sessionId runId) (receiptPayload h r) scope) :
    namedPayload h store sessionId runId
        { receiptOf h r "" (h.artifactHandle (receiptPayload h r)) with status } intent =
      .ok payload ↔
      (sessionId ≠ "" ∧ runId ≠ "" ∧ scope = (sessionId, runId, 2)) ∧
        receiptPayload h r = payload := by
  have hlead : outputLead.isPrefixOf (h.artifactHandle (receiptPayload h r)).toList = false := by
    simp [Host.artifactHandle, outputLead, artifactLead, List.isPrefixOf]
  have hlead' : artifactLead.isPrefixOf (h.artifactHandle (receiptPayload h r)).toList = true := by
    simp [Host.artifactHandle, List.isPrefixOf_iff_prefix]
  simp only [namedPayload, receiptOf, artifactHandle_ne, if_false, if_true, managedReceiptPayload,
    hlead, hlead', Bool.false_eq_true, except_bind_eq_ok, hk.read_eq_ok_iff, hs.loads,
    Option.some.injEq]
  constructor
  · rintro ⟨data, ⟨hscope, rfl⟩, hdumps⟩
    exact ⟨hscope, Except.ok.inj hdumps⟩
  · rintro ⟨hscope, rfl⟩
    exact ⟨_, ⟨hscope, rfl⟩, rfl⟩

lemma exists_status (ok : Bool) : ∃ status : String, status = "ok" ↔ ok = true := by
  cases ok with
  | false => exact ⟨"error", by simp⟩
  | true => exact ⟨"ok", by simp⟩

/-- A tool output that is verified after the later writes was written by one of the writes. -/
lemma verifyOutput_writes_iff {audit : Fields}
    (houtputs : store.outputs = (before.foldl h.write {}).outputs) :
    verifyOutput h (later.foldl h.write store) sessionId runId audit = .ok () ↔
      OutputStored h ((before ++ later).foldl h.write {}) sessionId runId audit := by
  have hempty : h.Verified {} := fun _ _ hmem => absurd hmem List.not_mem_nil
  have heq := outputs_writes (h := h) houtputs later
  rw [← List.foldl_append] at heq
  have hv : h.Verified (later.foldl h.write store) := by
    intro dir output hmem
    rw [heq] at hmem
    exact hempty.writes (before ++ later) dir output hmem
  rw [verifyOutput_eq_ok_iff hv, OutputStored, OutputStored, heq]

/-- What a receipt restores after the later writes, given when its payload can be read then. -/
lemma restored_receiptOf_iff {inline ref : String} {P : Prop} (hs : Sound h r)
    (hbuilt : Built r) (houtputs : store.outputs = (before.foldl h.write {}).outputs)
    (hpayload : ∀ status payload, namedPayload h (later.foldl h.write store) sessionId runId
      { receiptOf h r inline ref with status } (intentOf h effectId r) = .ok payload ↔
        P ∧ receiptPayload h r = payload) :
    (∀ status, (status = "ok" ↔ r.ok = true) →
      restoreResultReceipt h (later.foldl h.write store) sessionId runId
        { receiptOf h r inline ref with status } (intentOf h effectId r) = .ok r) ↔
      P ∧ r.call.name ≠ "" ∧
        jsonSafeProjection r.presentation "presentation" = r.presentation ∧
        jsonSafeProjection r.audit "audit" = r.audit ∧
        OutputStored h ((before ++ later).foldl h.write {}) sessionId runId r.audit := by
  rw [← and_assoc (a := jsonSafeProjection .. = _), ← hbuilt.postInit_eq_ok_iff]
  constructor
  · intro hall
    obtain ⟨status, hstatus⟩ := exists_status r.ok
    obtain ⟨payload, hread, -⟩ := except_bind_eq_ok.mp (hall status hstatus)
    obtain ⟨hnamed, -⟩ := settledPayload_eq_ok_iff.mp hread
    obtain ⟨hreadable, rfl⟩ := (hpayload status payload).mp hnamed
    obtain ⟨hname, hverify, hagain⟩ :=
      (restore_receiptOf_iff hs hstatus hread).mp (hall status hstatus)
    exact ⟨hreadable, hname, hagain, (verifyOutput_writes_iff houtputs).mp hverify⟩
  · rintro ⟨hreadable, hname, hagain, hstored⟩ status hstatus
    have hread := settledPayload_eq_ok_iff.mpr
      ⟨(hpayload status _).mpr ⟨hreadable, rfl⟩, hs.nonempty, rfl⟩
    exact (restore_receiptOf_iff hs hstatus hread).mpr
      ⟨hname, (verifyOutput_writes_iff houtputs).mpr hstored, hagain⟩

/-- What is restored of a result was not altered. -/
lemma unaltered_of_restore (hs : Sound h r)
    (hdigest : s.resultPayloadSha256 = h.sha256 (receiptPayload h r))
    (hrestore : restoreResultReceipt h store sessionId runId s intent = .ok r') :
    Unaltered h store sessionId runId s intent r := by
  have hsame : ∀ {text other : String}, h.Unforged text → h.sha256 other = h.sha256 text →
      other = text :=
    fun hunforged heq => hunforged _ (congrArg (front · 16) heq)
  have hne : s.resultPayloadSha256 ≠ "" := by
    intro hempty
    have hhex := h.sha256_hex (receiptPayload h r)
    rw [← hdigest, hempty] at hhex
    exact absurd hhex (by decide)
  obtain ⟨payload, hread, -⟩ := except_bind_eq_ok.mp hrestore
  obtain ⟨hnamed, -, hpinned⟩ := settledPayload_eq_ok_iff.mp hread
  obtain rfl := hsame hs.payload (hpinned.trans hdigest)
  obtain ⟨-, hstatus, hargs, ⟨-, htext⟩, -⟩ :=
    restoreData_receiptData.mp ((restore_iff_of_payload hs hread).mp hrestore)
  refine ⟨?_, fun text heq => hsame hs.text (heq.symm.trans htext.symm), fun args heq => ?_, ?_⟩
  · unfold namedPayload managedReceiptPayload at hnamed
    split_ifs at hnamed with href hpayload hlegacy hartifact
    · exact .inl ⟨href, Except.ok.inj hnamed⟩
    · obtain ⟨output, houtput, hrest⟩ := except_bind_eq_ok.mp hnamed
      obtain ⟨-, hpure⟩ := except_seq_eq_ok.mp hrest
      obtain ⟨-, hfound, -⟩ := find_of_readToolOutput houtput
      exact .inr (.inr ⟨output, List.mem_of_find?_eq_some hfound,
        of_decide_eq_true (List.find?_some hfound :), Except.ok.inj hpure⟩)
    · obtain ⟨value, hvalue, -⟩ := except_bind_eq_ok.mp hnamed
      obtain ⟨raw, hbody, hraw⟩ := body_of_readJsonArtifact hvalue
      rw [hsame hs.payload ((hraw hne).trans hdigest)] at hbody
      exact .inr (.inl hbody)
  · have hfront := (hargs.trans heq).symm
    simp only [argsDigest, String.append_right_inj] at hfront
    exact hs.args _ hfront
  · simp [hstatus]

/-- An inline receipt is exact only when projecting what is shown again leaves it. -/
lemma Exact.presentation_eq (hs : Sound h r) (hbuilt : Built r)
    (hinline : (receiptPayload h r).length ≤ inlineReceiptChars)
    (hexact : Exact h sessionId runId effectId before r later) :
    jsonSafeProjection r.presentation "presentation" = r.presentation := by
  have hrestored := hexact.restored
  rw [resultReceiptFields, if_pos hinline] at hrestored
  exact ((restored_receiptOf_iff (P := True) hs hbuilt rfl fun status payload => by
    simp [namedPayload, receiptOf]).mp hrestored).2.2.1

/-- A receipt is exact, and what was altered of it is detected, exactly when it is restorable. -/
theorem exact_iff (hs : Sound h r) (hbuilt : Built r) :
    Exact h sessionId runId effectId before r later ↔
      Restorable h sessionId runId before r later := by
  have hexact : Exact h sessionId runId effectId before r later ↔ _ :=
    ⟨Exact.restored, fun hrestored => ⟨hrestored, fun _ _ _ _ => unaltered_of_restore hs⟩⟩
  rw [hexact, Restorable, resultReceiptFields]
  by_cases hinline : (receiptPayload h r).length ≤ inlineReceiptChars
  · have hsmall := not_lt.mpr hinline
    rw [if_pos hinline]
    refine (restored_receiptOf_iff (P := True) hs hbuilt rfl fun status payload => ?_).trans ?_
    · simp [namedPayload, receiptOf]
    · simp [hsmall]
  have hmanaged := not_le.mp hinline
  rw [if_neg hinline]
  obtain ⟨hsize, hwrite⟩ | ⟨hsize, ⟨hmeta, store', hwrite⟩ |
    ⟨hmeta, store', hwrite, houtputs, hk⟩⟩ := writeJsonArtifact_cases (h := h)
      (before.foldl h.write {}) sessionId runId
      (show h.dumps (.obj (receiptData r)) = receiptPayload h r from rfl)
      (show 1 ≤ (2 : Int) by decide)
  · rw [hwrite]
    exact iff_of_true rfl (.inl ⟨hmanaged, hsize⟩)
  · rw [hwrite]
    refine iff_of_false (by simp [Except.bind]) ?_
    rintro (⟨-, hlarge⟩ | ⟨-, -, -, -, hstay⟩)
    · exact absurd hlarge (not_lt.mpr hsize)
    · exact absurd (hstay hmanaged).fits (not_le.mpr hmeta)
  · rw [hwrite]
    simp only [Except.bind, Host.artifactMeta, if_true]
    refine (restored_receiptOf_iff hs hbuilt houtputs fun status payload =>
      namedPayload_kept_iff hs (hk.writes hs.payload later)).trans ?_
    constructor
    · rintro ⟨⟨hsession, hrun, hlast⟩, hname, hpresentation, haudit, hstored⟩
      exact .inr ⟨hname, hpresentation, haudit, hstored, fun _ => ⟨hsession, hrun, hmeta, hlast⟩⟩
    · rintro (⟨-, hlarge⟩ | ⟨hname, hpresentation, haudit, hstored, hstay⟩)
      · exact absurd hlarge (not_lt.mpr hsize)
      · have hstay := hstay hmanaged
        exact ⟨⟨hstay.session, hstay.run, hstay.last⟩, hname, hpresentation, haudit, hstored⟩

/-! ### Results with and without a warning -/

/-- A result that shows some values. -/
def showing (presentation : Fields) : ToolResult where
  call := ⟨"ls", [], "c1"⟩
  modelText := "a.py"
  ok := true
  presentation

/-- The payload of such a result, with the text of what it shows. -/
def payloadShowing (shown : String) : String :=
  "\x7b\"args\":\x7b\x7d,\"audit\":\x7b\x7d,\"call_name\":\"ls\",\"canonical\":\x7b\x7d," ++
  "\"model_text\":\"a.py\",\"ok\":true,\"presentation\":" ++ shown ++
  ",\"schema_version\":2,\"truncated\":false,\"workspace_identity\":null\x7d"

/-- What was constructed with an empty key among what is shown. -/
def warned : ToolResult := showing [("_", .int 1),
  ("_projection_warnings", .arr [.str "presentation.key empty key renamed"])]

def warnedPayload : String :=
  payloadShowing "\x7b\"_\":1,\"_projection_warnings\":[\"presentation.key empty key renamed\"]\x7d"

def mark (payload text : String) : Char :=
  if text = payload then 'a' else if text = "a.py" then 'b'
  else if text = "\x7b\x7d" then 'c' else 'd'

/-- Texts and digests for one result. -/
def hostFor (r : ToolResult) (payload : String) : ManagedOutputs.Host where
  dumps value := if value = .obj (receiptData r) then payload else "\x7b\x7d"
  dumpsSpaced _ := "\x7b\x7d"
  loads text := if text = payload then some (.obj (receiptData r)) else none
  sha256 text := String.ofList (List.replicate 64 (mark payload text))
  sha256_hex text := by
    unfold mark
    split_ifs <;> decide

lemma unforged_of_mark {r : ToolResult} {payload text : String} (hmark : mark payload text ≠ 'd') :
    (hostFor r payload).Unforged text := by
  intro other heq
  have hchar : mark payload other = mark payload text := by
    have hhead := congrArg (·.toList.head?) heq
    simpa [front, hostFor] using hhead
  unfold mark at hchar hmark
  split_ifs at hchar hmark <;> simp_all

lemma sound_showing {presentation : Fields} {payload : String} (hpayload : payload ≠ "")
    (htexts : payload ≠ "a.py" ∧ payload ≠ "\x7b\x7d") :
    Sound (hostFor (showing presentation) payload) (showing presentation) where
  nonempty := by simpa [receiptPayload, hostFor] using hpayload
  loads := by simp [receiptPayload, hostFor]
  payload := unforged_of_mark (by simp [receiptPayload, hostFor, mark])
  text := unforged_of_mark (by simp [mark, showing, htexts.1.symm])
  args := unforged_of_mark (by simp [mark, hostFor, htexts.2.symm])

/-- A result that shows nothing is restored from its receipt. -/
theorem exact_iff_plain :
    Exact (hostFor (showing []) (payloadShowing "\x7b\x7d")) "s1" "r1" "e1" [] (showing []) [] ∧
      Restorable (hostFor (showing []) (payloadShowing "\x7b\x7d")) "s1" "r1" [] (showing []) [] := by
  have hsound : Sound (hostFor (showing []) (payloadShowing "\x7b\x7d")) (showing []) :=
    sound_showing (by decide) (by decide)
  have hbuilt : Built (showing []) := ⟨showing [], by decide +kernel⟩
  have hrestorable :
      Restorable (hostFor (showing []) (payloadShowing "\x7b\x7d")) "s1" "r1" [] (showing []) [] := by
    refine Or.inr ⟨by decide, by decide +kernel, by decide +kernel, fun h => ?_, fun hlong => ?_⟩
    · simp [showing, Fields.truthy] at h
    · simp only [receiptPayload, hostFor, if_true] at hlong
      exact absurd hlong (by decide +kernel)
  exact ⟨(exact_iff hsound hbuilt).mpr hrestorable, hrestorable⟩

theorem not_exact_warned : Sound (hostFor warned warnedPayload) warned ∧ Built warned ∧
    ¬Exact (hostFor warned warnedPayload) "s1" "r1" "e1" [] warned [] := by
  have hsound : Sound (hostFor warned warnedPayload) warned :=
    sound_showing (by decide) (by decide)
  have hbuilt : Built warned := ⟨showing [("", .int 1)], by decide +kernel⟩
  refine ⟨hsound, hbuilt, fun hexact => ?_⟩
  have hinline : (receiptPayload (hostFor warned warnedPayload) warned).length ≤
      inlineReceiptChars := by
    simp only [receiptPayload, hostFor, if_true]
    decide +kernel
  exact absurd (hexact.presentation_eq hsound hbuilt hinline) (by decide +kernel)

end Operations

end Codey
