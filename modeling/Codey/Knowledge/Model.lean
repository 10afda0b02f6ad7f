import Codey.Lib.Check
import Codey.Lib.Json
import Codey.Lib.Text

/-!
# Knowledge objects

Long-term knowledge: an object with an identity, of which a repository keeps numbered versions, and
the references from one version to others. An object that breaks a rule of its kind cannot be built.
-/

namespace Codey

namespace Knowledge

inductive Kind where
  | entity
  | source
  | evidence
  | observation
  | claim
  | inference
  | question
  | answer
  deriving DecidableEq

def Kind.name : Kind → String
  | entity => "entity"
  | source => "source"
  | evidence => "evidence"
  | observation => "observation"
  | claim => "claim"
  | inference => "inference"
  | question => "question"
  | answer => "answer"

inductive Origin where
  | source
  | observedResult
  | authorInterpretation
  | modelExtraction
  | modelInference
  | userStatement
  | experiment
  deriving DecidableEq

inductive Status where
  | candidate
  | active
  | stale
  | withdrawn
  | superseded
  | contradicted
  deriving DecidableEq

inductive Scope where
  | global
  | project
  | session
  | personal
  deriving DecidableEq

/-- The characters an id may begin with. -/
def isIdStart (ch : Char) : Bool := ch.isAlphanum || (0x4e00 ≤ ch.toNat && ch.toNat ≤ 0x9fff)

/-- `is_safe_id`. The pattern refuses slashes. -/
def isSafeId (id : String) : Bool :=
  match strip id.toList with
  | [] => false
  | ch :: rest =>
    rest.length < 200 && isIdStart ch &&
      rest.all (fun ch => isIdStart ch || ch = '.' || ch = '_' || ch = '-') &&
      !(ch :: rest).tails.any fun tail => ['.', '.'].isPrefixOf tail

/-- A text without a character that `str.strip` leaves. -/
def isBlank (s : String) : Bool := (strip s.toList).isEmpty

structure KnowledgeReference where
  target : String
  revision : Nat
  relation : String
  /-- `__post_init__` -/
  checked : isSafeId target = true ∧ 1 ≤ revision
  deriving DecidableEq

structure KnowledgeFields where
  id : String
  kind : Kind
  content : String
  origin : Origin
  title : String := ""
  status : Status := .candidate
  scope : Scope := .global
  scopeId : String := ""
  aliases : List String := []
  conditions : Fields := []
  provenance : Fields := []
  references : List KnowledgeReference := []
  deriving DecidableEq

def conditionStates : List String :=
  ["not_applicable", "not_extracted", "not_reported", "reported"]

def conditionExample : String :=
  "Expected a map from condition names to objects, for example " ++
  "\x7b\"journal_mode\":\x7b\"state\":\"reported\",\"value\":\"WAL\"\x7d," ++
  "\"workload\":\x7b\"state\":\"not_extracted\"\x7d\x7d. " ++
  "Do not use a flat \x7b\"name\":...,\"state\":...,\"value\":...\x7d object."

/-- What is checked of a condition. -/
def checkCondition (entry : String × Json) : Except String Unit :=
  let path := "conditions." ++ entry.1
  match entry.2 with
  | .obj condition => do
    let state := Fields.get? condition "state"
    require (entry.1 ≠ "") (path ++ " must be a condition object. " ++ conditionExample)
    require (conditionStates.any fun known => state = some (.str known))
      (path ++ ".state must be one of " ++ ", ".intercalate conditionStates ++ ". " ++
        conditionExample)
    require (condition.all fun member => member.1 = "state" ∨ member.1 = "value")
      (path ++ " permits only state and value. " ++ conditionExample)
    require (condition.all fun member => member.2.str?.isSome)
      (path ++ ".state and value must be strings. " ++ conditionExample)
    require (!(state = some (.str "reported") &&
        isBlank (((Fields.get? condition "value").bind Json.str?).getD "")))
      (path ++ ": reported condition needs a value")
  | _ => .error (path ++ " must be a condition object. " ++ conditionExample)

/-- `__post_init__`. Kinds, origins, statuses and scopes are what they are by their types. -/
def KnowledgeFields.check (fields : KnowledgeFields) : Except String Unit := do
  require (isSafeId fields.id) "invalid knowledge identity, kind or origin"
  require (!isBlank fields.content) "knowledge content is required"
  require ((fields.scope = .global : Bool) == (fields.scopeId = "" : Bool))
    "scoped knowledge requires an owner; global knowledge has no scope_id"
  require (!(fields.origin = .userStatement && fields.scope = .global))
    "user statements require an explicit restricted scope"
  require (!(fields.kind = .inference && fields.origin ≠ .modelInference))
    "inference must retain model_inference origin"
  require (fields.aliases.all fun name => !isBlank name) "aliases must be nonempty strings"
  checkAll fields.conditions checkCondition

structure KnowledgeObject extends KnowledgeFields where
  checked : toKnowledgeFields.check = .ok ()
  deriving DecidableEq

lemma KnowledgeObject.isSafeId_id (value : KnowledgeObject) : isSafeId value.id = true := by
  have hchecked := value.checked
  simp only [KnowledgeFields.check, except_seq_eq_ok, require_eq_ok] at hchecked
  exact hchecked.1

/-- Equality of the host language, which compares numbers by value. -/
def KnowledgeObject.pyEq (a b : KnowledgeObject) : Bool :=
  a.id = b.id && a.kind = b.kind && a.content = b.content && a.origin = b.origin &&
    a.title = b.title && a.status = b.status && a.scope = b.scope && a.scopeId = b.scopeId &&
    a.aliases = b.aliases && (Json.obj a.conditions).pyEq (.obj b.conditions) &&
    (Json.obj a.provenance).pyEq (.obj b.provenance) && a.references = b.references

lemma KnowledgeObject.pyEq_fields {a b : KnowledgeObject} (h : a.pyEq b = true) :
    a.id = b.id ∧ a.kind = b.kind ∧ a.content = b.content ∧ a.scope = b.scope ∧
      a.scopeId = b.scopeId ∧ a.references = b.references := by
  simp only [pyEq, Bool.and_eq_true, decide_eq_true_eq] at h
  obtain ⟨⟨⟨⟨⟨⟨⟨⟨⟨⟨⟨hid, hkind⟩, hcontent⟩, -⟩, -⟩, -⟩, hscope⟩, hscopeId⟩, -⟩, -⟩, -⟩, hrefs⟩ := h
  exact ⟨hid, hkind, hcontent, hscope, hscopeId, hrefs⟩

structure KnowledgeMutation where
  value : KnowledgeObject
  expectedRevision : Nat := 0
  deriving DecidableEq

structure KnowledgeVersion where
  value : KnowledgeObject
  revision : Nat
  recordedAt : String
  commitId : String
  dependenciesChanged : Bool := false
  deriving DecidableEq

end Knowledge

end Codey
