import Codey.Ghost.Scopes
import Codey.Lib.Check
import Codey.Lib.Json
import Mathlib.Logic.Function.Basic

/-!
# Managed outputs

The tool outputs and the JSON artifacts of a run stand in a directory that is named after its
session and its run. An artifact is named after its digest, and its metadata says who wrote it
last.
-/

namespace Codey

namespace ManagedOutputs

def maxManagedOutputBytes : Nat := 2 * 1024 * 1024
def maxManagedOutputsPerRun : Nat := 32
def maxMetadataBytes : Nat := 16 * 1024

/-! ### Names -/

def handleChar (ch : Char) : Bool := ch.isAlphanum || ch = '_' || ch = '.' || ch = '-'

/-- `re.fullmatch(lead + r"[A-Za-z0-9_.-]{1,80}", text)` -/
def isHandle (lead : List Char) (text : String) : Bool :=
  let rest := text.toList.drop lead.length
  lead.isPrefixOf text.toList && 1 ≤ rest.length && rest.length ≤ 80 && rest.all handleChar

def outputLead : List Char := ['o', 'u', 't', '_']

def artifactLead : List Char := ['a', 'r', 't', 'i', 'f', 'a', 'c', 't', '_']

def hexDigits : List Char :=
  ['0', '1', '2', '3', '4', '5', '6', '7', '8', '9', 'a', 'b', 'c', 'd', 'e', 'f']

def isSha256Hex (value : String) : Bool :=
  value.length = 64 && value.toList.all (hexDigits.contains ·)

/-- `text[:limit]` -/
def front (text : String) (limit : Nat) : String := String.ofList (text.toList.take limit)

/-- `str(value).strip()` -/
def stripped (text : String) : String := String.ofList (strip text.toList)

def clip (text : String) (limit : Nat) : String :=
  let chars := strip (Ghost.unixNewlines text.toList)
  if chars.length ≤ limit then String.ofList chars
  else String.ofList ((chars.take limit).rdropWhile blank)

/-- `re.sub(r"[^A-Za-z0-9_.-]+", "_", text)`, inside of a run of other characters or not. -/
def collapse (inside : Bool) : List Char → List Char
  | [] => []
  | ch :: rest =>
    if handleChar ch then ch :: collapse false rest
    else if inside then collapse true rest
    else '_' :: collapse true rest

def safeComponent (value fallback : String) : String :=
  let edge (ch : Char) : Bool := ch = '.' || ch = '_'
  let text := (((collapse false (strip value.toList)).take 120).dropWhile edge).rdropWhile edge
  if text = [] then fallback else String.ofList text

/-! ### Store -/

/-- What comes from the libraries: `json.dumps` with sorted keys, without spaces and with them,
`json.loads`, and the hexadecimal digest of a text. -/
structure Host where
  dumps : Json → String
  dumpsSpaced : Json → String
  loads : String → Option Json
  sha256 : String → String
  sha256_hex : ∀ text, isSha256Hex (sha256 text) = true

/-- A tool output with what its metadata says of it. -/
structure Output where
  handle : String
  text : String
  schemaVersion : Int := 1
  toolId : String
  toolName : String
  sha256 : String
  originalSha256 : String
  storedTruncated : Bool := false

/-- The session, the run and the schema version of an artifact. -/
abbrev Scope := String × String × Int

structure ArtifactMeta where
  scope : Scope
  handle : String
  sha256 : String
  bytes : Nat

def ArtifactMeta.toPayload (info : ArtifactMeta) : Json := .obj [
  ("bytes", .int info.bytes), ("handle", .str info.handle), ("run_id", .str info.scope.2.1),
  ("schema_version", .int info.scope.2.2), ("session_id", .str info.scope.1),
  ("sha256", .str info.sha256)]

/-- The key of a session and the safe component of a run. -/
abbrev RunDir := String × String

/-- The files of all runs: the outputs of a directory in the order of their numbers, and the bodies
and the metadata of artifacts by directory and handle. -/
structure Store where
  outputs : RunDir → List Output := fun _ => []
  bodies : RunDir × String → Option String := fun _ => none
  metas : RunDir × String → Option ArtifactMeta := fun _ => none

variable (h : Host)

def Host.runDir (sessionId runId : String) : RunDir :=
  (front (h.sha256 sessionId) 24, safeComponent runId "run")

def Host.artifactHandle (raw : String) : String :=
  String.ofList artifactLead ++ front (h.sha256 raw) 24

def outputHandle (number : Nat) (digest : String) : String :=
  let digits := toString number
  "out_" ++ String.ofList (List.replicate (4 - digits.length) '0') ++ digits ++ "_" ++
    front digest 12

/-- `write_tool_output`. What the policy says of the permission profile is given; a text beyond the
limit is denied before it would be cut. -/
def Host.writeToolOutput (store : Store) (sessionId runId toolId toolName text : String)
    (permitted : Bool) : Store :=
  let dir := h.runDir sessionId runId
  let existing := store.outputs dir
  if permitted = false ∨ maxManagedOutputsPerRun ≤ existing.length ∨
      maxManagedOutputBytes < text.utf8ByteSize then store
  else
    let digest := h.sha256 text
    { store with outputs := Function.update store.outputs dir (existing ++ [
        { handle := outputHandle (existing.length + 1) digest
          text := text
          toolId := clip toolId 80
          toolName := clip toolName 80
          sha256 := digest
          originalSha256 := digest }]) }

def Host.readToolOutput (store : Store) (sessionId runId handle : String) : Except String Output :=
  let handle := stripped handle
  if isHandle outputLead handle then
    match (store.outputs (h.runDir sessionId runId)).find? (·.handle = handle) with
    | none => .error s!"managed receipt metadata missing for {handle}"
    | some output =>
      if isSha256Hex output.sha256 = false then
        .error s!"managed receipt metadata sha invalid for {handle}"
      else if maxManagedOutputBytes < output.text.utf8ByteSize then
        .error "managed receipt exceeds size limit"
      else if h.sha256 output.text = output.sha256 then .ok output
      else .error s!"managed receipt content mismatch for {handle}"
  else .error "invalid managed output handle"

def Host.artifactMeta (raw : String) (scope : Scope) : ArtifactMeta where
  scope := scope
  handle := h.artifactHandle raw
  sha256 := h.sha256 raw
  bytes := raw.utf8ByteSize

/-- `write_json_artifact`. The body is written before the size of the metadata is looked at. -/
def Host.writeJsonArtifact (store : Store) (sessionId runId : String) (payload : Json)
    (schemaVersion : Int) : Except String ArtifactMeta × Store :=
  let raw := h.dumps payload
  if schemaVersion < 1 then (.error "schema_version must be a positive integer", store)
  else if maxManagedOutputBytes < raw.utf8ByteSize then
    (.error "json artifact exceeds size limit", store)
  else
    let info := h.artifactMeta raw (sessionId, runId, schemaVersion)
    let file := (h.runDir sessionId runId, info.handle)
    let store := { store with bodies := Function.update store.bodies file (some raw) }
    if maxMetadataBytes < (h.dumps info.toPayload).utf8ByteSize then
      (.error "local state is too large", store)
    else (.ok info, { store with metas := Function.update store.metas file (some info) })

/-- `read_json_artifact`, of a reference with its scope and its digest. -/
def Host.readJsonArtifact (store : Store) (scope : Scope) (handle expected : String) :
    Except String Json :=
  if scope.1 = "" ∨ scope.2.1 = "" ∨ handle = "" then .error "json artifact reference is incomplete"
  else
    let handle := stripped handle
    if isHandle artifactLead handle then
      let file := (h.runDir scope.1 scope.2.1, handle)
      match store.metas file, store.bodies file with
      | some info, some raw =>
        if info.scope.1 ≠ scope.1 ∨ info.scope.2.1 ≠ scope.2.1 then
          .error "json artifact scope mismatch"
        else if info.handle ≠ handle ∨ info.scope.2.2 ≠ scope.2.2 then
          .error "json artifact metadata mismatch"
        else if h.sha256 raw ≠ info.sha256 ∨ (expected ≠ "" ∧ h.sha256 raw ≠ expected) then
          .error "json artifact digest mismatch"
        else
          match h.loads raw with
          | some value => .ok value
          | none => .error "json artifact is unreadable"
      | _, _ => .error "json artifact is missing"
    else .error "invalid managed artifact handle"

inductive Write where
  | toolOutput (sessionId runId toolId toolName text : String) (permitted : Bool)
  | jsonArtifact (sessionId runId : String) (payload : Json) (schemaVersion : Int)

def Host.write (store : Store) : Write → Store
  | .toolOutput sessionId runId toolId toolName text permitted =>
    h.writeToolOutput store sessionId runId toolId toolName text permitted
  | .jsonArtifact sessionId runId payload schemaVersion =>
    (h.writeJsonArtifact store sessionId runId payload schemaVersion).2

/-- The scope that a write leaves in the metadata of an artifact, when it replaces them. -/
def Host.rescope (dir : RunDir) (handle : String) : Write → Option Scope
  | .toolOutput .. => none
  | .jsonArtifact sessionId runId payload schemaVersion =>
    let info := h.artifactMeta (h.dumps payload) (sessionId, runId, schemaVersion)
    if 1 ≤ schemaVersion ∧ info.bytes ≤ maxManagedOutputBytes ∧
        (h.dumps info.toPayload).utf8ByteSize ≤ maxMetadataBytes ∧
        h.runDir sessionId runId = dir ∧ info.handle = handle then
      some (sessionId, runId, schemaVersion)
    else none

variable {h}

/-! ### Handles -/

lemma plain_of_mem_artifactHandle {raw : String} {ch : Char}
    (hch : ch ∈ (h.artifactHandle raw).toList) : handleChar ch = true ∧ blank ch = false := by
  have hplain : (artifactLead ++ hexDigits).all (fun ch => handleChar ch && !blank ch) = true := by
    decide
  simp only [List.all_eq_true, Bool.and_eq_true, Bool.not_eq_true'] at hplain
  refine hplain ch (List.mem_append.mpr ?_)
  simp only [Host.artifactHandle, front, String.toList_append, String.toList_ofList,
    List.mem_append] at hch
  refine hch.imp_right fun hdigit => ?_
  have hhex := h.sha256_hex raw
  simp only [isSha256Hex, Bool.and_eq_true, List.all_eq_true] at hhex
  exact List.contains_iff_mem.mp (hhex.2 ch (List.mem_of_mem_take hdigit))

lemma stripped_artifactHandle (raw : String) :
    stripped (h.artifactHandle raw) = h.artifactHandle raw := by
  have hstrip : strip (h.artifactHandle raw).toList = (h.artifactHandle raw).toList :=
    strip_eq_self_iff.mpr
      ⟨fun _ hch => (plain_of_mem_artifactHandle (List.mem_of_mem_head? hch)).2,
        fun _ hch => (plain_of_mem_artifactHandle (List.mem_of_getLast? hch)).2⟩
  rw [stripped, hstrip, String.ofList_toList]

lemma isHandle_artifactHandle (raw : String) :
    isHandle artifactLead (h.artifactHandle raw) = true := by
  have hlength : (h.sha256 raw).toList.length = 64 := by
    have hhex := h.sha256_hex raw
    simp only [isSha256Hex, Bool.and_eq_true, decide_eq_true_eq] at hhex
    exact hhex.1
  have hchars : (h.artifactHandle raw).toList.all handleChar = true :=
    List.all_eq_true.mpr fun _ hch => (plain_of_mem_artifactHandle hch).1
  simp only [Host.artifactHandle, front, String.toList_append, String.toList_ofList,
    List.all_append, Bool.and_eq_true] at hchars
  simp [isHandle, Host.artifactHandle, front, hlength, List.isPrefixOf_iff_prefix, hchars.2]

lemma artifactHandle_ne (raw : String) : h.artifactHandle raw ≠ "" := by
  intro hempty
  have hhandle := isHandle_artifactHandle (h := h) raw
  rw [hempty] at hhandle
  exact absurd hhandle (by decide)

/-! ### Artifacts across writes -/

def Host.Unforged (h : Host) (text : String) : Prop :=
  ∀ other, front (h.sha256 other) 16 = front (h.sha256 text) 16 → other = text

lemma Host.Unforged.eq_of_handle {raw other : String} (hraw : h.Unforged raw)
    (heq : h.artifactHandle other = h.artifactHandle raw) : other = raw := by
  refine hraw other ?_
  have hfront := congrArg String.toList heq
  simp only [Host.artifactHandle, front, String.toList_append, String.toList_ofList,
    List.append_cancel_left_eq] at hfront
  have htake := congrArg (List.take 16) hfront
  rw [List.take_take, List.take_take] at htake
  exact congrArg String.ofList htake

structure Kept (h : Host) (store : Store) (dir : RunDir) (raw : String) (scope : Scope) : Prop where
  body : store.bodies (dir, h.artifactHandle raw) = some raw
  info : store.metas (dir, h.artifactHandle raw) = some (h.artifactMeta raw scope)

variable {store : Store} {dir : RunDir} {raw : String} {scope : Scope}

/-- A write leaves the text of an artifact, and may put its own scope into the metadata. -/
lemma Kept.write (hk : Kept h store dir raw scope) (hraw : h.Unforged raw) (w : Write) :
    Kept h (h.write store w) dir raw ((h.rescope dir (h.artifactHandle raw) w).getD scope) := by
  cases w with
  | toolOutput sessionId runId toolId toolName text permitted =>
    simp only [Host.write, Host.writeToolOutput, Host.rescope, Option.getD_none]
    split_ifs
    · exact hk
    · exact ⟨hk.body, hk.info⟩
  | jsonArtifact sessionId runId payload version =>
    simp only [Host.write, Host.writeJsonArtifact, Host.rescope]
    by_cases hversion : version < 1
    · rw [if_pos hversion, if_neg fun hnew => Int.not_le.mpr hversion hnew.1]
      exact hk
    rw [if_neg hversion]
    by_cases hsize : maxManagedOutputBytes < (h.dumps payload).utf8ByteSize
    · rw [if_pos hsize, if_neg fun hnew => absurd hnew.2.1 (not_le.mpr hsize)]
      exact hk
    rw [if_neg hsize]
    by_cases hfile : (h.runDir sessionId runId, h.artifactHandle (h.dumps payload)) =
        (dir, h.artifactHandle raw)
    · obtain ⟨rfl, hhandle⟩ := Prod.mk.inj hfile
      obtain rfl := hraw.eq_of_handle hhandle
      split_ifs with hmeta hnew hnew
      · exact absurd hnew.2.2.1 (not_le.mpr hmeta)
      · exact ⟨Function.update_self .., hk.info⟩
      · exact ⟨Function.update_self .., Function.update_self ..⟩
      · exact absurd ⟨Int.not_lt.mp hversion, not_lt.mp hsize, not_lt.mp hmeta, rfl, rfl⟩ hnew
    · rw [if_neg (c := 1 ≤ version ∧ _) fun hnew => hfile (Prod.ext hnew.2.2.2.1 hnew.2.2.2.2)]
      split_ifs
      · exact ⟨(Function.update_of_ne (Ne.symm hfile) ..).trans hk.body, hk.info⟩
      · exact ⟨(Function.update_of_ne (Ne.symm hfile) ..).trans hk.body,
          (Function.update_of_ne (Ne.symm hfile) ..).trans hk.info⟩

/-- After any writes, the metadata have the scope of the last write that has replaced them. -/
lemma Kept.writes (hk : Kept h store dir raw scope) (hraw : h.Unforged raw) (ws : List Write) :
    Kept h (ws.foldl h.write store) dir raw
      ((ws.filterMap (h.rescope dir (h.artifactHandle raw))).getLast?.getD scope) := by
  induction ws generalizing store scope with
  | nil => exact hk
  | cons w ws ih =>
    have hrest := ih (hk.write hraw w)
    rw [List.foldl_cons, List.filterMap_cons]
    cases hscope : h.rescope dir (h.artifactHandle raw) w with
    | none => rwa [hscope] at hrest
    | some written =>
      rw [hscope] at hrest
      rwa [List.getLast?_cons, Option.getD_some]

lemma Kept.read_eq_ok_iff {sessionId runId : String} {version : Int} {value : Json}
    (hk : Kept h store (h.runDir sessionId runId) raw scope) :
    h.readJsonArtifact store (sessionId, runId, version) (h.artifactHandle raw) (h.sha256 raw) =
      .ok value ↔ (sessionId ≠ "" ∧ runId ≠ "" ∧ scope = (sessionId, runId, version)) ∧
        h.loads raw = some value := by
  obtain ⟨writer, run, written⟩ := scope
  simp only [Host.readJsonArtifact, stripped_artifactHandle, isHandle_artifactHandle, if_true,
    hk.body, hk.info, artifactHandle_ne, or_false, Host.artifactMeta, Prod.mk.injEq]
  by_cases hsession : sessionId = ""
  · simp [hsession]
  by_cases hrun : runId = ""
  · simp [hrun]
  by_cases hwriter : writer = sessionId
  · by_cases hrunner : run = runId
    · by_cases hversion : written = version
      · cases hvalue : h.loads raw <;> simp [*]
      · simp [*]
    · simp [*]
  · simp [*]

/-- What is read is the text under the handle, with the digest that is expected. -/
lemma body_of_readJsonArtifact {handle expected : String} {value : Json}
    (hread : h.readJsonArtifact store scope handle expected = .ok value) :
    ∃ raw, store.bodies (h.runDir scope.1 scope.2.1, stripped handle) = some raw ∧
      (expected ≠ "" → h.sha256 raw = expected) := by
  simp only [Host.readJsonArtifact] at hread
  split_ifs at hread with hnone hhandle
  split at hread
  · rename_i info raw hinfo hbody
    split_ifs at hread with hscope hmeta hdigest
    push Not at hdigest
    exact ⟨raw, hbody, hdigest.2⟩
  · cases hread

/-! ### Outputs across writes -/

lemma outputs_writeJsonArtifact (store : Store) (sessionId runId : String) (payload : Json)
    (version : Int) :
    (h.writeJsonArtifact store sessionId runId payload version).2.outputs = store.outputs := by
  simp only [Host.writeJsonArtifact]
  split_ifs <;> rfl

/-- An artifact is refused for its size or for the size of its metadata, or it is kept. -/
lemma writeJsonArtifact_cases (store : Store) (sessionId runId : String) {payload : Json}
    {version : Int} (hraw : h.dumps payload = raw) (hversion : 1 ≤ version) :
    let info := h.artifactMeta raw (sessionId, runId, version)
    let written := h.writeJsonArtifact store sessionId runId payload version
    maxManagedOutputBytes < raw.utf8ByteSize ∧
      written = (.error "json artifact exceeds size limit", store) ∨
    raw.utf8ByteSize ≤ maxManagedOutputBytes ∧
      (maxMetadataBytes < (h.dumps info.toPayload).utf8ByteSize ∧
        (∃ store', written = (.error "local state is too large", store')) ∨
      (h.dumps info.toPayload).utf8ByteSize ≤ maxMetadataBytes ∧ ∃ store',
        written = (.ok info, store') ∧ store'.outputs = store.outputs ∧
        Kept h store' (h.runDir sessionId runId) raw (sessionId, runId, version)) := by
  intro info written
  simp only [written, Host.writeJsonArtifact, hraw, Int.not_lt.mpr hversion, if_false]
  by_cases hsize : maxManagedOutputBytes < raw.utf8ByteSize
  · exact .inl ⟨hsize, if_pos hsize⟩
  · rw [if_neg hsize]
    refine .inr ⟨not_lt.mp hsize, ?_⟩
    by_cases hmeta : maxMetadataBytes < (h.dumps info.toPayload).utf8ByteSize
    · exact .inl ⟨hmeta, _, if_pos hmeta⟩
    · exact .inr ⟨not_lt.mp hmeta, _, if_neg hmeta, rfl, Function.update_self ..,
        Function.update_self ..⟩

lemma outputs_writes {store' : Store} (heq : store.outputs = store'.outputs) (ws : List Write) :
    (ws.foldl h.write store).outputs = (ws.foldl h.write store').outputs := by
  induction ws generalizing store store' with
  | nil => exact heq
  | cons w ws ih =>
    refine ih ?_
    cases w with
    | toolOutput sessionId runId toolId toolName text permitted =>
      simp only [Host.write, Host.writeToolOutput, heq]
      split_ifs
      · exact heq
      · rfl
    | jsonArtifact sessionId runId payload version =>
      simpa only [Host.write, outputs_writeJsonArtifact] using heq

/-- The outputs of a store have the digests that their metadata name, and stay within the limit. -/
def Host.Verified (h : Host) (store : Store) : Prop :=
  ∀ dir, ∀ output ∈ store.outputs dir,
    h.sha256 output.text = output.sha256 ∧ output.text.utf8ByteSize ≤ maxManagedOutputBytes

lemma Host.Verified.write (hv : h.Verified store) (w : Write) : h.Verified (h.write store w) := by
  cases w with
  | toolOutput sessionId runId toolId toolName text permitted =>
    simp only [Host.write, Host.writeToolOutput]
    split_ifs with hdenied
    · exact hv
    · intro dir output hmem
      push Not at hdenied
      dsimp only at hmem
      by_cases hdir : dir = h.runDir sessionId runId
      · subst hdir
        rw [Function.update_self, List.mem_append, List.mem_singleton] at hmem
        obtain hmem | rfl := hmem
        · exact hv _ output hmem
        · exact ⟨rfl, hdenied.2.2⟩
      · rw [Function.update_of_ne hdir] at hmem
        exact hv dir output hmem
  | jsonArtifact sessionId runId payload version =>
    intro dir output hmem
    rw [Host.write, outputs_writeJsonArtifact] at hmem
    exact hv dir output hmem

lemma Host.Verified.writes (hv : h.Verified store) (ws : List Write) :
    h.Verified (ws.foldl h.write store) := by
  induction ws generalizing store with
  | nil => exact hv
  | cons w ws ih => exact ih (hv.write w)

variable {sessionId runId handle : String} {output : Output}

/-- What is read stands under its handle and has its digest. -/
lemma find_of_readToolOutput (hread : h.readToolOutput store sessionId runId handle = .ok output) :
    isHandle outputLead (stripped handle) = true ∧
      (store.outputs (h.runDir sessionId runId)).find? (·.handle = stripped handle) = some output ∧
      h.sha256 output.text = output.sha256 := by
  simp only [Host.readToolOutput] at hread
  split_ifs at hread with hhandle
  split at hread
  · cases hread
  · rename_i found hfound
    split_ifs at hread with hhex hlarge hdigest
    obtain rfl := Except.ok.inj hread
    exact ⟨hhandle, hfound, hdigest⟩

lemma Host.Verified.readToolOutput_iff (hv : h.Verified store) :
    h.readToolOutput store sessionId runId handle = .ok output ↔
      isHandle outputLead (stripped handle) = true ∧
        (store.outputs (h.runDir sessionId runId)).find? (·.handle = stripped handle) =
          some output := by
  constructor
  · exact fun hread => ⟨(find_of_readToolOutput hread).1, (find_of_readToolOutput hread).2.1⟩
  · rintro ⟨hhandle, hfound⟩
    obtain ⟨hdigest, hsize⟩ := hv _ output (List.mem_of_find?_eq_some hfound)
    have hhex : isSha256Hex output.sha256 = true := hdigest ▸ h.sha256_hex output.text
    simp only [Host.readToolOutput, hhandle, if_true, hfound, hhex, Bool.true_eq_false, if_false,
      not_lt.mpr hsize, hdigest]

end ManagedOutputs

end Codey
