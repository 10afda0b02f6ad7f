import Codey.Operations.KernelProtocol
import Codey.Toolchain.ArgsMessages
import Codey.Lib.Lists

/-!
# Only authorized calls survive a turn

The plan of a reply is a protocol error without calls, a lone control, or one to eight calls that
the snapshot authorizes.

A call may name a tool that was not advertised but is in the catalog of nested tools; the executor
refuses it later. A list of the controller does not restrict the project tools.
-/

namespace Codey

namespace Operations

open Toolchain (ToolSpec validateArgsWithSpec)

variable (host : Host)

/-! ### Names -/

lemma registered_of_canonicalToolName {raw : String} (h : canonicalToolName host raw ≠ "") :
    ∃ spec ∈ host.registry, spec.name = canonicalToolName host raw := by
  unfold canonicalToolName at h ⊢
  by_cases hempty : normalName host raw = ""
  · simp [hempty] at h
  · simp only [hempty, if_false] at h ⊢
    by_cases hany : host.registry.any (·.name = normalName host raw)
    · rw [if_pos hany]
      simpa using hany
    · rw [if_neg hany] at h ⊢
      cases hfind : nativeToCanonical.find? (·.1 = normalName host raw) with
      | some entry => exact host.builtin entry (List.mem_of_find?_eq_some hfind)
      | none =>
        rw [hfind] at h
        cases halias : host.registry.find? fun spec => normalName host raw ∈ spec.aliases with
        | some spec => exact ⟨spec, List.mem_of_find?_eq_some halias, rfl⟩
        | none => simp [halias] at h

lemma normalName_canonicalToolName {raw : String} (h : canonicalToolName host raw ≠ "") :
    normalName host (canonicalToolName host raw) = canonicalToolName host raw := by
  obtain ⟨spec, hmem, hname⟩ := registered_of_canonicalToolName host h
  rw [← hname]
  exact (host.named spec hmem).2

lemma canonicalToolName_again {raw : String} (h : canonicalToolName host raw ≠ "") :
    canonicalToolName host (canonicalToolName host raw) = canonicalToolName host raw := by
  obtain ⟨spec, hmem, hname⟩ := registered_of_canonicalToolName host h
  have hany : host.registry.any (·.name = canonicalToolName host raw) := by
    simpa using ⟨spec, hmem, hname⟩
  rw [canonicalToolName]
  simp only [normalName_canonicalToolName host h, h, hany, if_true, if_false]

/-! ### What ends a computation -/

def Rejected (plan : ToolPlan) : Prop := plan.protocolError ≠ "" ∧ plan.calls = []

def LoneControl (plan : ToolPlan) : Prop :=
  plan.protocolError = "" ∧ plan.calls = [] ∧
    ∃ control, plan.control = some control ∧ control.kind ∈ ["done", "ask_user"]

def Settles {α : Type} (x : Except Stop α) (P : α → Prop) : Prop :=
  match x with
  | .ok a => P a
  | .error (.plan plan) => Rejected plan ∨ LoneControl plan
  | .error .raised => True

variable {host} {α β : Type} {P : α → Prop} {Q : β → Prop}

lemma settles_bind {x : Except Stop α} {f : α → Except Stop β} (h : Settles x P)
    (hf : ∀ a, P a → Settles (f a) Q) : Settles (x >>= f) Q := by
  cases x with
  | ok a => exact hf a h
  | error stop => cases stop <;> exact h

lemma Settles.mono {x : Except Stop α} {R : α → Prop} (h : Settles x P) (hPR : ∀ a, P a → R a) :
    Settles x R := by
  cases x with
  | ok a => exact hPR a h
  | error stop => cases stop <;> exact h

lemma settles_ensure {cond : Bool} {plan : ToolPlan} (h : cond = false → Rejected plan) :
    Settles (ensure cond plan) fun _ => cond = true := by
  cases cond with
  | true => exact rfl
  | false => exact Or.inl (h rfl)

lemma settles_ok {a : α} (h : P a) : Settles (.ok a) P := h

lemma rejected_invalidPlan {message : String} (h : message ≠ "") (tool kind : String) :
    Rejected (invalidPlan message tool kind) := ⟨h, rfl⟩

lemma rejected_disallowedPlan (tool : String) (controller : Bool) :
    Rejected (disallowedPlan tool controller) := by
  cases controller <;> exact ⟨by simp [disallowedPlan, invalidPlan, String.append_eq_empty_iff], rfl⟩

/-! ### What is refused with a text -/

/-- The result is as told, or there is a text that says why there is none. -/
def Explains {α : Type} (x : Except String α) (P : α → Prop) : Prop :=
  match x with
  | .ok a => P a
  | .error message => message ≠ ""

lemma explains_bind {x : Except String α} {f : α → Except String β} (h : Explains x P)
    (hf : ∀ a, P a → Explains (f a) Q) : Explains (x >>= f) Q := by
  cases x with
  | ok a => exact hf a h
  | error message => exact h

lemma Explains.mono {x : Except String α} {R : α → Prop} (h : Explains x P)
    (hPR : ∀ a, P a → R a) : Explains x R := by
  cases x with
  | ok a => exact hPR a h
  | error message => exact h

lemma explains_require {cond : Bool} {message : String} (h : cond = false → message ≠ "") :
    Explains (require cond message) fun _ => cond = true := by
  cases cond with
  | true => exact rfl
  | false => exact h rfl

lemma settles_batchError {x : Except String α} (h : Explains x P) : Settles (batchError x) P := by
  cases x with
  | ok a => exact h
  | error message => exact Or.inl (rejected_invalidPlan h _ _)

/-! ### One request -/

/-- The frozen definition that admits a call. -/
structure GrantedBy (host : Host) (snapshot : TurnSnapshot) (args : Fields) (spec : ToolSpec) :
    Prop where
  granted : spec.grant ≠ ""
  policy : ∃ policy, snapshot.policy = some policy ∧ policy.allows host spec.grant = true
  accepted : validateArgsWithSpec host.toLanguage spec args = .ok ""

/-- The argument that names what a controller alias opens. -/
def aliasKeys : List (String × String) :=
  [("open_result", "result_id"), ("reopen_source", "source_id"), ("open_hit", "hit_id")]

/-- The arguments that a call carries for the supplied ones: a CodeMode program keeps its code and
its inputs, the ids of a controller alias and of a source search are stripped, those of a project
tool are normalized, and all others stay as they are. -/
inductive Prepared (host : Host) (spec : ToolSpec) (name : String) (args : Fields) : Fields → Prop
  | codemode {code : String} {inputs : Fields} (hname : name = "codemode")
      (hcode : Fields.get? args "code" = some (.str code))
      (hinputs : (Fields.get? args "inputs").getD (.obj []) = .obj inputs) :
      Prepared host spec name args
        [("code", .str code), ("language", .str "javascript"), ("inputs", .obj inputs)]
  | alias {key : String} (hname : (name, key) ∈ aliasKeys) (h : textArg host args key ≠ "") :
      Prepared host spec name args (Fields.set args key (.str (textArg host args key)))
  | sourceSearch (hname : name = "source_search") (h : textArg host args "source_id" ≠ "")
      (hquery : textArg host args "query" ≠ "") :
      Prepared host spec name args
        (Fields.set (Fields.set args "source_id" (.str (textArg host args "source_id"))) "query"
          (.str (textArg host args "query")))
  | project {runtime : String} {repair : Toolchain.ToolArgsRepairResult}
      (h : spec.executor = "project") (hruntime : runtimeName name = some runtime)
      (hrepair : Toolchain.normalizeToolArgs host.lower runtime (.json (.obj args)) {} =
        .ok repair) : Prepared host spec name args repair.args
  | supplied (h : spec.executor ≠ "project") (hcodemode : name ≠ "codemode")
      (halias : name ∉ controllerAliases) : Prepared host spec name args args

/-- What holds of a call and of the request that it comes from. -/
structure Authorized (host : Host) (snapshot : TurnSnapshot) (item : Item) (call : ToolCall) :
    Prop where
  name : call.name = canonicalToolName host item.tool
  callId : call.callId = item.callId
  /-- The tool is advertised or in the catalog of nested tools. -/
  inventory : call.name ∈ snapshot.toolNames ∨ call.name ∈ snapshot.nestedToolNames
  spec : ∃ spec, lookupFrozen snapshot.frozenSpecs call.name = some spec ∧
    GrantedBy host snapshot item.args spec ∧ Prepared host spec call.name item.args call.args
  /-- The controller lists the tool, or does not restrict it: project tools pass, and `open_url`
  passes when an alias of it is listed. -/
  controller : ∀ allowed, snapshot.allowed = some allowed →
    call.name ∈ allowed.map (normalName host) ∨ isCodingOnlyTool host call.name = true ∨
      call.name = "open_url" ∧ ∃ name ∈ controllerAliases, name ∈ allowed.map (normalName host)
  plain : call.name ≠ "done" ∧ call.name ≠ "ask_user"

def snapshotLimits (host : Host) (snapshot : TurnSnapshot) : Limits where
  policy := snapshot.policy
  controllerAllowed := snapshot.allowed.map (·.map (normalName host))
  snapshotNames := some snapshot.inventoryNames
  frozenSpecs := some snapshot.frozenSpecs

variable {snapshot : TurnSnapshot}

lemma mem_inventoryNames {name : String} :
    name ∈ snapshot.inventoryNames ↔ name ∈ snapshot.toolNames ∨ name ∈ snapshot.nestedToolNames := by
  simp [TurnSnapshot.inventoryNames]

lemma settles_checkTool (limits : Limits) (tool : String) :
    Settles (checkTool host limits tool) fun _ =>
      policyAllows host limits.policy tool limits.frozenSpecs = true ∧
        controllerAllows host tool limits.controllerAllowed = true := by
  refine settles_bind (settles_ensure fun _ => rejected_disallowedPlan tool false) fun _ hpolicy => ?_
  cases hallows : controllerAllows host tool limits.controllerAllowed with
  | true => exact ⟨hpolicy, rfl⟩
  | false => exact Or.inl (rejected_disallowedPlan tool true)

variable {tool : String}

lemma legacyEdit_ne_empty {args : Fields} {message : String}
    (h : legacyEdit host tool args = some message) : message ≠ "" := by
  unfold legacyEdit at h
  split_ifs at h
  · exact Option.some.inj h ▸ by decide
  · exact Option.some.inj h ▸ by decide
  · obtain ⟨key, -, rfl⟩ := Option.map_eq_some_iff.mp h
    simp [String.append_eq_empty_iff]

/-- The arguments of a project tool are the normalized ones. -/
lemma settles_validateCodingArgs (args : Fields) :
    Settles (validateCodingArgs host tool args) fun validated => validated.2 = "" →
      ∃ runtime repair, runtimeName tool = some runtime ∧
        Toolchain.normalizeToolArgs host.lower runtime (.json (.obj args)) {} = .ok repair ∧
        validated.1 = repair.args := by
  unfold validateCodingArgs
  split
  · rename_i message hlegacy
    exact fun hpass => absurd hpass (legacyEdit_ne_empty hlegacy)
  · intro hpass
    simp [String.append_eq_empty_iff] at hpass
  · rename_i runtime hlegacy hruntime
    split
    · rename_i message kind hrepair
      intro hpass
      exact absurd hpass (Toolchain.worded_normalizeToolArgs _ _ _ _ _ _ hrepair)
    · intro hpass
      simp [String.append_eq_empty_iff] at hpass
    · rename_i repair hrepair
      cases hdecoded : Toolchain.decodeJsonObject Toolchain.defaultJsonLimits
        (.json (.obj repair.args)) with
      | error message => trivial
      | ok decoded =>
        exact fun _ => ⟨runtime, repair, hruntime, hrepair,
          (Toolchain.decodeJsonObject_eq_ok.mp hdecoded).2⟩

variable {spec : ToolSpec}

lemma explains_codemodeInputs (args : Fields) :
    Explains (codemodeInputs args) fun inputs =>
      (Fields.get? args "inputs").getD (.obj []) = .obj inputs := by
  unfold codemodeInputs
  extract_lets checked
  cases hchecked : checked with
  | error message => simp [Explains, Except.mapError, String.append_eq_empty_iff]
  | ok inputs =>
    simp only [checked] at hchecked
    split at hchecked
    · cases hchecked
    · rename_i found hfound
      split at hchecked
      · obtain rfl := Except.ok.inj hchecked
        exact (Toolchain.encodeTransportValue_eq_ok.mp hfound).2.symm
      · cases hchecked
    · cases hchecked

lemma explains_parseCodemodeArgs (args : Fields) :
    Explains (parseCodemodeArgs host args) (Prepared host spec "codemode" args) := by
  refine explains_bind (explains_require fun _ => by decide) fun _ hcode => ?_
  refine explains_bind (explains_codemodeInputs args) fun inputs hinputs => ?_
  refine explains_bind (explains_require fun _ => by decide) fun _ _ => ?_
  refine explains_bind (explains_require fun _ => by decide) fun _ _ => ?_
  split
  · refine .codemode rfl ?_ hinputs
    cases hfound : (Fields.get? args "code").bind Json.str? with
    | none => simp [hfound, trimmed, strip] at hcode
    | some code =>
      obtain ⟨value, hvalue, hstr⟩ := Option.bind_eq_some_iff.mp hfound
      rw [hvalue, Json.str?_eq_some.mp hstr, Option.getD_some]
  · simp [Explains, String.append_eq_empty_iff]

lemma prepared_validateResearchArgs {args : Fields}
    (htool : tool ∈ controllerAliases ∨ tool = "source_search")
    (h : (validateResearchArgs host tool args).2 = "") :
    Prepared host spec tool args (validateResearchArgs host tool args).1 := by
  by_cases halias : tool ∈ controllerAliases
  · obtain ⟨key, hkey, heq⟩ : ∃ key, (tool, key) ∈ aliasKeys ∧
        validateResearchArgs host tool args =
          if textArg host args key = "" then ([], tool ++ " missing required arg '" ++ key ++ "'")
          else (Fields.set args key (.str (textArg host args key)), "") := by
      simp only [validateResearchArgs, halias, if_true]
      simp only [controllerAliases, List.mem_cons, List.not_mem_nil, or_false] at halias
      rcases halias with rfl | rfl | rfl
      · exact ⟨"result_id", by decide, rfl⟩
      · exact ⟨"source_id", by decide, rfl⟩
      · exact ⟨"hit_id", by decide, rfl⟩
    rw [heq] at h ⊢
    by_cases hvalue : textArg host args key = ""
    · simp [hvalue, String.append_eq_empty_iff] at h
    · rw [if_neg hvalue]
      exact .alias hkey hvalue
  · have hsource := htool.resolve_left halias
    simp only [validateResearchArgs, halias, if_false] at h ⊢
    by_cases hsid : textArg host args "source_id" = ""
    · simp [hsid] at h
    · by_cases hquery : textArg host args "query" = ""
      · simp [hsid, hquery] at h
      · rw [if_neg hsid, if_neg hquery]
        exact .sourceSearch hsource hsid hquery

/-- Arguments that pass have been accepted by the frozen definition. -/
lemma settles_validateToolArgs (args : Fields) (specs : List ToolSpec)
    (htool : canonicalToolName host tool = tool) (hne : tool ≠ "") :
    Settles (validateToolArgs host tool args (some specs)) fun validated => validated.2 = "" →
      ∃ spec, lookupFrozen specs tool = some spec ∧
        validateArgsWithSpec host.toLanguage spec args = .ok "" ∧
        (¬ (tool = "done" ∨ tool = "ask_user") → Prepared host spec tool args validated.1) := by
  simp only [validateToolArgs, htool, hne, if_false, lookupSpec]
  cases hspec : lookupFrozen specs tool with
  | none =>
    intro herror
    simp [String.append_eq_empty_iff] at herror
  | some spec =>
    simp only
    cases hchecked : validateArgsWithSpec host.toLanguage spec args with
    | error detail =>
      simp only [specErrorFor, hchecked]
      rw [if_pos (by simp [String.append_eq_empty_iff])]
      exact fun herror => absurd herror (by simp [String.append_eq_empty_iff])
    | ok error =>
      simp only [specErrorFor, hchecked]
      by_cases haccepted : error = ""
      · subst haccepted
        simp only [ne_eq, not_true_eq_false, if_false]
        split_ifs with hask hdone hcodemode hresearch hproject
        · exact fun _ => ⟨spec, rfl, hchecked, fun hne => absurd (Or.inr hask) hne⟩
        · exact fun _ => ⟨spec, rfl, hchecked, fun hne => absurd (Or.inl hdone) hne⟩
        · subst hcodemode
          have hexplains : Explains (parseCodemodeArgs host args)
            (Prepared host spec "codemode" args) := explains_parseCodemodeArgs args
          cases hparsed : parseCodemodeArgs host args with
          | error message =>
            rw [hparsed] at hexplains
            exact fun hpass => absurd hpass hexplains
          | ok prepared =>
            rw [hparsed] at hexplains
            exact fun _ => ⟨spec, rfl, hchecked, fun _ => hexplains⟩
        · simp only [Bool.or_eq_true, Bool.and_eq_true, decide_eq_true_eq] at hresearch
          exact fun hpass => ⟨spec, rfl, hchecked, fun _ =>
            prepared_validateResearchArgs (hresearch.imp_right And.left) hpass⟩
        · refine (settles_validateCodingArgs args).mono fun validated hvalid hpass => ?_
          obtain ⟨runtime, repair, hruntime, hrepair, heq⟩ := hvalid hpass
          exact ⟨spec, rfl, hchecked, fun _ => heq ▸ .project hproject hruntime hrepair⟩
        · simp only [Bool.or_eq_true, decide_eq_true_eq, not_or] at hresearch
          exact fun _ => ⟨spec, rfl, hchecked, fun _ =>
            .supplied hproject hcodemode hresearch.1⟩
      · rw [if_pos haccepted]
        exact fun herror => absurd herror haccepted

lemma granted_of_policyAllows {policy : Option TaskPolicy} {specs : List ToolSpec}
    {spec : ToolSpec} (hspec : lookupFrozen specs tool = some spec)
    (h : policyAllows host policy tool (some specs) = true) :
    spec.grant ≠ "" ∧ ∃ granted, policy = some granted ∧ granted.allows host spec.grant = true := by
  cases policy with
  | none => simp [policyAllows] at h
  | some policy =>
    simp only [policyAllows, hspec, Option.map_some, Option.getD_some, Bool.and_eq_true,
      decide_eq_true_eq] at h
    exact ⟨h.1, policy, rfl, h.2⟩

lemma listed_of_controllerAllows {allowed : List String} (htool : normalName host tool = tool)
    (h : controllerAllows host tool (some allowed) = true) :
    tool ∈ allowed ∨ isCodingOnlyTool host tool = true ∨
      tool = "open_url" ∧ ∃ name ∈ controllerAliases, name ∈ allowed := by
  simp only [controllerAllows, htool, Bool.or_eq_true] at h
  rcases h with hproject | h
  · exact Or.inr (Or.inl hproject)
  · by_cases hopen : tool = "open_url"
    · simp only [hopen, if_true, List.any_eq_true, List.mem_cons, decide_eq_true_eq] at h
      obtain ⟨name, rfl | hname, hmem⟩ := h
      · exact Or.inl (hopen ▸ hmem)
      · exact Or.inr (Or.inr ⟨hopen, name, hname, hmem⟩)
    · simp only [hopen, if_false, decide_eq_true_eq] at h
      exact Or.inl h

/-- One request becomes an authorized call, or it ends the turn. -/
lemma settles_planItem (snapshot : TurnSnapshot) (count : Nat) (item : Item) :
    Settles (planItem host (snapshotLimits host snapshot) count item)
      (Authorized host snapshot item) := by
  set tool := canonicalToolName host item.tool with htool
  refine settles_bind (settles_ensure fun _ => rejected_invalidPlan
    (by simp [String.append_eq_empty_iff]) _ _) fun _ hne => ?_
  replace hne : tool ≠ "" := by simpa using hne
  refine settles_bind (settles_ensure fun _ => rejected_invalidPlan
    (by simp [String.append_eq_empty_iff]) _ _) fun _ hnames => ?_
  have hname : tool ∈ snapshot.inventoryNames := by simpa [snapshotLimits] using hnames
  have hargs := settles_validateToolArgs item.args snapshot.frozenSpecs
    (canonicalToolName_again host hne) hne
  split
  · rename_i hcontrol
    refine settles_bind (settles_ensure fun _ => rejected_invalidPlan
      (by simp [String.append_eq_empty_iff]) _ _) fun _ _ => ?_
    refine settles_bind (settles_checkTool _ _) fun _ _ => ?_
    refine settles_bind hargs fun validated _ => ?_
    refine settles_bind (settles_ensure fun herror => rejected_invalidPlan
      (by simpa using herror) _ _) fun _ _ => ?_
    exact Or.inr ⟨rfl, rfl, _, rfl, by simpa using hcontrol⟩
  · rename_i hcontrol
    refine settles_bind (settles_checkTool _ _) fun _ hallowed => ?_
    refine settles_bind hargs fun validated hvalid => ?_
    refine settles_bind (settles_ensure fun herror => rejected_invalidPlan
      (by simpa using herror) _ _) fun _ hpass => ?_
    obtain ⟨spec, hspec, haccepted, hprepared⟩ := hvalid (by simpa using hpass)
    obtain ⟨hgrant, hpolicy⟩ := granted_of_policyAllows hspec hallowed.1
    exact {
      name := rfl
      callId := rfl
      inventory := mem_inventoryNames.mp hname
      spec := ⟨spec, hspec, ⟨hgrant, hpolicy, haccepted⟩, hprepared (by simpa using hcontrol)⟩
      controller := fun allowed heq => listed_of_controllerAllows
        (normalName_canonicalToolName host hne) (by simpa [snapshotLimits, heq] using hallowed.2)
      plain := by simpa using hcontrol }

/-! ### The requests of a turn -/

/-- The calls without those that repeat an earlier one. -/
def firstCalls : List ToolCall → List ToolCall
  | [] => []
  | call :: calls => call :: (firstCalls calls).filter fun other => callKey other ≠ callKey call

lemma firstCalls_sublist (calls : List ToolCall) : (firstCalls calls).Sublist calls := by
  induction calls with
  | nil => exact List.Sublist.refl []
  | cons call calls ih => exact (List.filter_sublist.trans ih).cons_cons call

variable {items : List Item}

/-- The loop over text requests keeps the first call of each key. -/
lemma settles_planItems_text (snapshot : TurnSnapshot) (count : Nat)
    (htext : ∀ item ∈ items, item.callId = "") (calls : List ToolCall)
    (textKeys : List (String × Fields)) :
    Settles (planItems host (snapshotLimits host snapshot) count items calls textKeys) fun planned =>
      ∃ made, List.Forall₂ (Authorized host snapshot) items made ∧
        planned = calls ++ (firstCalls made).filter fun call => callKey call ∉ textKeys := by
  induction items generalizing calls textKeys with
  | nil => exact ⟨[], List.Forall₂.nil, by simp [firstCalls]⟩
  | cons item items ih =>
    refine settles_bind (settles_planItem snapshot count item) fun call hcall => ?_
    have hitems : ∀ item ∈ items, item.callId = "" := fun item hmem =>
      htext item (List.mem_cons_of_mem _ hmem)
    rw [if_pos (htext item List.mem_cons_self)]
    split_ifs with hseen
    · refine (ih hitems calls textKeys).mono ?_
      rintro planned ⟨made, hmade, hplanned⟩
      refine ⟨call :: made, List.Forall₂.cons hcall hmade, ?_⟩
      rw [hplanned, firstCalls, List.filter_cons_of_neg (by simpa using hseen), List.filter_filter]
      congr 1
      refine List.filter_congr fun other _ => ?_
      by_cases hkey : callKey other = callKey call <;> simp [hkey, hseen]
    · refine (ih hitems _ _).mono ?_
      rintro planned ⟨made, hmade, hplanned⟩
      refine ⟨call :: made, List.Forall₂.cons hcall hmade, ?_⟩
      rw [hplanned, firstCalls, List.filter_cons_of_pos (by simpa using hseen), List.filter_filter,
        List.append_assoc, List.singleton_append]
      congr 2
      refine List.filter_congr fun other _ => ?_
      by_cases hkey : callKey other = callKey call <;> simp [hkey]

/-- The loop over native requests keeps every call. -/
lemma settles_planItems_native (snapshot : TurnSnapshot) (count : Nat)
    (hnative : ∀ item ∈ items, item.callId ≠ "") (calls : List ToolCall)
    (textKeys : List (String × Fields)) :
    Settles (planItems host (snapshotLimits host snapshot) count items calls textKeys) fun planned =>
      ∃ made, List.Forall₂ (Authorized host snapshot) items made ∧ planned = calls ++ made := by
  induction items generalizing calls with
  | nil => exact ⟨[], List.Forall₂.nil, by simp⟩
  | cons item items ih =>
    refine settles_bind (settles_planItem snapshot count item) fun call hcall => ?_
    rw [if_neg (hnative item List.mem_cons_self)]
    refine (ih (fun item hmem => hnative item (List.mem_cons_of_mem _ hmem)) _).mono ?_
    rintro planned ⟨made, hmade, hplanned⟩
    exact ⟨call :: made, List.Forall₂.cons hcall hmade, by simp [hplanned]⟩

/-! ### Batches -/

/-- A member of a `parallel` wrapper is an object that names a tool for reading. Its arguments are
under `args`, or they are its other members. -/
structure Row (host : Host) (members : Fields) (item : Item) : Prop where
  tool : ∃ value, Fields.get? members "tool" = some value ∧
    item.tool = normalName host (host.str value) ∧ item.tool ∈ parallelSafe
  args : Fields.get? members "args" = some (.obj item.args) ∨
    Fields.get? members "args" = none ∧ item.args = members.filter fun member => member.1 ≠ "tool"
  callId : item.callId = ""

/-- What one request stands for: itself, the files of a `read_files` wrapper, or the members of a
`parallel` wrapper. A wrapper has no id, and its definition accepts its arguments. -/
inductive Stands (host : Host) (item : Item) : List Item → Prop
  | alone (h : canonicalToolName host item.tool ∉ ["parallel", "read_files"]) :
      Stands host item [item]
  | reads {paths : List String} (h : canonicalToolName host item.tool = "read_files")
      (hid : item.callId = "") (haccepted : validateArgsAgainstSpec host "read_files" item.args = .ok "")
      (hpaths : Fields.get? item.args "paths" = some (.arr (paths.map .str)) ∨
        ∃ path, Fields.get? item.args "paths" = some (.str path) ∧ paths = [path])
      (hcount : 1 ≤ paths.length ∧ paths.length ≤ 8) (htext : ∀ path ∈ paths, trimmed path ≠ "") :
      Stands host item (paths.map fun path => ⟨"read_file", [("path", .str path)], ""⟩)
  | calls {rows : List Fields} {children : List Item}
      (h : canonicalToolName host item.tool = "parallel") (hid : item.callId = "")
      (haccepted : validateArgsAgainstSpec host "parallel" item.args = .ok "")
      (hrows : Fields.get? item.args "calls" = some (.arr (rows.map .obj)))
      (hcount : 1 ≤ rows.length ∧ rows.length ≤ 4)
      (hchildren : List.Forall₂ (Row host) rows children) : Stands host item children

lemma tool_of_toolAndArgs {object : Fields} (h : (toolAndArgs host object).1 ∈ parallelSafe) :
    ∃ value, Fields.get? object "tool" = some value ∧
      (toolAndArgs host object).1 = normalName host (host.str value) := by
  have hempty : "" ∉ parallelSafe := by decide
  cases hvalue : Fields.get? object "tool" with
  | none =>
    have htool : (toolAndArgs host object).1 = "" := by
      unfold toolAndArgs
      simp only [hvalue]
      split <;> rfl
    exact absurd (htool ▸ h) hempty
  | some value =>
    have htool : (toolAndArgs host object).1 =
        if value.truthy then normalName host (host.str value) else "" := by
      unfold toolAndArgs
      simp only [hvalue]
      split <;> rfl
    rw [htool] at h ⊢
    split_ifs at h with htruthy
    · exact ⟨value, rfl, if_pos htruthy⟩
    · exact absurd h hempty

lemma args_of_toolAndArgs {object : Fields}
    (h : (match Fields.get? object "args" with
      | none | some (.obj _) => true
      | some _ => false) = true) :
    Fields.get? object "args" = some (.obj (toolAndArgs host object).2) ∨
      Fields.get? object "args" = none ∧
        (toolAndArgs host object).2 = object.filter fun member => member.1 ≠ "tool" := by
  unfold toolAndArgs
  split at h
  · rename_i hnone
    exact Or.inr ⟨hnone, by simp only [hnone]⟩
  · rename_i args hargs
    exact Or.inl (by simp only [hargs])
  · cases h

lemma explains_expandRow (row : Json) :
    Explains (expandRow host row) fun item => ∃ members, row = .obj members ∧
      Row host members item := by
  cases row with
  | obj members =>
    refine explains_bind (explains_require fun _ => by decide) fun _ hsafe => ?_
    refine explains_bind (explains_require fun _ => by simp [String.append_eq_empty_iff])
      fun _ hargs => ?_
    replace hsafe := of_decide_eq_true hsafe
    obtain ⟨value, hvalue, htool⟩ := tool_of_toolAndArgs hsafe
    exact ⟨members, rfl, ⟨value, hvalue, htool, hsafe⟩, args_of_toolAndArgs hargs, rfl⟩
  | _ => exact fun h => absurd h (by decide)

lemma explains_expandRows (rows : List Json) :
    Explains (expandRows host rows) fun items =>
      ∃ found : List Fields, rows = found.map .obj ∧ List.Forall₂ (Row host) found items := by
  induction rows with
  | nil => exact ⟨[], rfl, List.Forall₂.nil⟩
  | cons row rows ih =>
    refine explains_bind (explains_expandRow row) fun item hitem => explains_bind ih
      fun items hitems => ?_
    obtain ⟨members, rfl, hrow⟩ := hitem
    obtain ⟨found, rfl, hrows⟩ := hitems
    exact ⟨members :: found, rfl, List.Forall₂.cons hrow hrows⟩

lemma exists_texts {values : List Json} {p : String → Bool}
    (h : values.all (fun value => value.str?.any p) = true) :
    ∃ texts : List String, values = texts.map .str ∧ ∀ text ∈ texts, p text = true := by
  induction values with
  | nil => exact ⟨[], rfl, by simp⟩
  | cons value values ih =>
    rw [List.all_cons, Bool.and_eq_true, Option.any_eq_true] at h
    obtain ⟨⟨text, htext, hp⟩, htail⟩ := h
    obtain ⟨texts, rfl, htexts⟩ := ih htail
    rw [Json.str?_eq_some.mp htext]
    exact ⟨text :: texts, rfl, List.forall_mem_cons.mpr ⟨hp, htexts⟩⟩

lemma paths_of_batchPaths {args : Fields} {paths : List String}
    (h : batchPaths args = paths.map .str) (hne : paths ≠ []) :
    Fields.get? args "paths" = some (.arr (paths.map .str)) ∨
      ∃ path, Fields.get? args "paths" = some (.str path) ∧ paths = [path] := by
  unfold batchPaths at h
  split at h
  · rename_i path hpath
    refine Or.inr ⟨path, hpath, ?_⟩
    cases paths with
    | nil => exact absurd rfl hne
    | cons first rest => simpa [eq_comm] using h
  · rename_i found hfound
    exact Or.inl (h ▸ hfound)
  · exact absurd (List.map_eq_nil_iff.mp h.symm) hne

lemma calls_of_batchCalls {args : Fields} {rows : List Fields}
    (h : batchCalls args = rows.map .obj) (hne : rows ≠ []) :
    Fields.get? args "calls" = some (.arr (rows.map .obj)) := by
  unfold batchCalls at h
  split at h
  · rename_i calls hcalls
    exact h ▸ hcalls
  · exact absurd (List.map_eq_nil_iff.mp h.symm) hne

/-- The batch of a wrapper whose arguments pass. -/
lemma explains_expandTextBatch {item : Item} {name : String}
    (hname : canonicalToolName host item.tool = name) (hbatch : name ∈ ["parallel", "read_files"])
    (hid : item.callId = "") (haccepted : validateArgsAgainstSpec host name item.args = .ok "") :
    Explains (expandTextBatch host name item.args) (Stands host item) := by
  unfold expandTextBatch
  split_ifs with hreads
  · subst hreads
    refine explains_bind (explains_require fun _ => by decide) fun _ hcount => ?_
    refine explains_bind (explains_require fun _ => by decide) fun _ htext => ?_
    obtain ⟨texts, htexts, hblank⟩ := exists_texts htext
    simp only [htexts, List.isEmpty_map, List.length_map, Bool.and_eq_true, Bool.not_eq_true',
      List.isEmpty_eq_false_iff, decide_eq_true_eq] at hcount
    have hitems : (batchPaths item.args).map (fun path =>
        (⟨"read_file", [("path", path)], ""⟩ : Item)) =
          texts.map fun path => ⟨"read_file", [("path", .str path)], ""⟩ := by
      rw [htexts, List.map_map]
      rfl
    change Stands host item ((batchPaths item.args).map _)
    rw [hitems]
    exact .reads hname hid haccepted (paths_of_batchPaths htexts hcount.1)
      ⟨List.length_pos_iff.mpr hcount.1, hcount.2⟩ fun path hmem => by simpa using hblank path hmem
  · obtain rfl : name = "parallel" := by simpa [hreads] using hbatch
    refine explains_bind (explains_require fun _ => by decide) fun _ hcount => ?_
    simp only [Bool.and_eq_true, Bool.not_eq_true', List.isEmpty_eq_false_iff,
      decide_eq_true_eq] at hcount
    refine (explains_expandRows _).mono fun children hchildren => ?_
    obtain ⟨rows, hrows, hchildren⟩ := hchildren
    rw [hrows] at hcount
    have hne : rows ≠ [] := by simpa using hcount.1
    exact .calls hname hid haccepted (calls_of_batchCalls hrows hne)
      ⟨List.length_pos_iff.mpr hne, by simpa [maxParallelCalls] using hcount.2⟩ hchildren

lemma settles_lowerItem (item : Item) : Settles (lowerItem host item) (Stands host item) := by
  simp only [lowerItem]
  split
  · rename_i hbatch
    refine settles_bind (settles_batchError (explains_require fun _ => by decide)) fun _ hid => ?_
    replace hid : item.callId = "" := by simpa using hid
    split
    · trivial
    · rename_i error hchecked
      refine settles_batchError (explains_bind
        (explains_require fun herror => by simpa using herror) fun _ hpass => ?_)
      obtain rfl : error = "" := by simpa using hpass
      exact explains_expandTextBatch rfl (by simpa [isTextBatchTool] using hbatch) hid hchecked
  · rename_i hbatch
    exact .alone (by simpa [isTextBatchTool] using hbatch)

variable {items : List Item}

lemma settles_lowerItems (items : List Item) :
    Settles (lowerItems host items) fun expanded =>
      ∃ parts, List.Forall₂ (Stands host) items parts ∧ expanded = parts.flatten := by
  induction items with
  | nil => exact ⟨[], List.Forall₂.nil, rfl⟩
  | cons item items ih =>
    refine settles_bind (settles_lowerItem item) fun children hchildren => ?_
    refine settles_bind ih fun rest hrest => ?_
    obtain ⟨parts, hparts, rfl⟩ := hrest
    exact ⟨children :: parts, List.Forall₂.cons hchildren hparts, rfl⟩

/-- What the items of a turn stand for, one after the other. -/
def Expanded (host : Host) (items expanded : List Item) : Prop :=
  ∃ parts, List.Forall₂ (Stands host) items parts ∧ expanded = parts.flatten

/-- Requests with ids are no wrappers, so they stand for themselves. -/
lemma Expanded.of_native {expanded : List Item} (h : Expanded host items expanded)
    (hnative : ∀ item ∈ items, item.callId ≠ "") : expanded = items := by
  obtain ⟨parts, hparts, rfl⟩ := h
  induction hparts with
  | nil => rfl
  | cons hpart _ ih =>
    obtain ⟨hid, hnative⟩ := List.forall_mem_cons.mp hnative
    rw [List.flatten_cons, ih hnative]
    cases hpart with
    | alone => rfl
    | reads _ hempty => exact absurd hempty hid
    | calls _ hempty => exact absurd hempty hid

lemma Stands.callId_text {item : Item} {children : List Item} (h : Stands host item children)
    (hid : item.callId = "") : ∀ child ∈ children, child.callId = "" := by
  cases h with
  | alone => simpa using hid
  | reads => simp
  | calls h hid haccepted hrows hcount hchildren =>
    intro child hchild
    obtain ⟨members, -, hrow⟩ := exists_of_forall₂_right hchildren hchild
    exact hrow.callId

lemma Expanded.callId_text {expanded : List Item} (h : Expanded host items expanded)
    (htext : ∀ item ∈ items, item.callId = "") : ∀ item ∈ expanded, item.callId = "" := by
  obtain ⟨parts, hparts, rfl⟩ := h
  intro child hchild
  obtain ⟨part, hpart, hmem⟩ := List.mem_flatten.mp hchild
  obtain ⟨item, hitem, hstands⟩ := exists_of_forall₂_right hparts hpart
  exact hstands.callId_text (htext item hitem) child hmem

lemma settles_lowerTextBatches (items : List Item) :
    Settles (lowerTextBatches host items) fun expanded =>
      Expanded host items expanded ∧ expanded.length ≤ maxNativeCallsPerTurn := by
  refine settles_bind (settles_lowerItems items) fun expanded hexpanded => ?_
  refine settles_bind (settles_batchError (explains_require fun _ => by decide)) fun _ hlength => ?_
  exact ⟨hexpanded, by simpa using hlength⟩

/-! ### Replies -/

def Reply.toolCalls : Reply → List ProviderToolCall
  | .text _ => []
  | .assistant turn => turn.toolCalls

/-- A request of a text. -/
def textItem (request : TextRequest) : Item := ⟨request.tool, request.args, ""⟩

/-- A native call with an id and with an object of arguments, and the request that it makes. -/
structure NativeItem (host : Host) (call : ProviderToolCall) (item : Item) : Prop where
  tool : item.tool = normalName host call.name
  args : call.arguments = .json (.obj item.args)
  callId : item.callId = call.id
  nonempty : call.id ≠ ""

/-- The requests that a reply makes. -/
inductive Asked (host : Host) : Reply → List Item → Prop
  | text (requests : List TextRequest) :
      Asked host (.text (.requests requests)) (requests.map textItem)
  | spoken {turn : AssistantTurn} {requests : List TextRequest} (hfinish : turn.finish = .complete)
      (hcalls : turn.toolCalls = [])
      (hprotocol : Fields.get? turn.raw "text_protocol" = some (.bool true))
      (htext : host.decodeTextTurn turn.text = .requests requests) :
      Asked host (.assistant turn) (requests.map textItem)
  | native {turn : AssistantTurn} {items : List Item} (hfinish : turn.finish = .complete)
      (hcalls : turn.toolCalls ≠ []) (h : List.Forall₂ (NativeItem host) turn.toolCalls items) :
      Asked host (.assistant turn) items

/-- The requests carry the ids of the native calls, and no ids when there are none. -/
def Requests (reply : Reply) (items : List Item) : Prop :=
  if reply.toolCalls = [] then ∀ item ∈ items, item.callId = ""
  else (∀ item ∈ items, item.callId ≠ "") ∧ items.map (·.callId) = reply.toolCalls.map (·.id)

lemma callId_of_native {calls : List ProviderToolCall}
    (h : List.Forall₂ (NativeItem host) calls items) :
    (∀ item ∈ items, item.callId ≠ "") ∧ items.map (·.callId) = calls.map (·.id) := by
  induction h with
  | nil => simp
  | cons hitem _ ih =>
    refine ⟨List.forall_mem_cons.mpr ⟨hitem.callId ▸ hitem.nonempty, ih.1⟩, ?_⟩
    rw [List.map_cons, List.map_cons, hitem.callId, ih.2]

lemma Asked.requests {reply : Reply} (h : Asked host reply items) : Requests reply items := by
  cases h with
  | text requests => simp [Requests, Reply.toolCalls, textItem]
  | spoken hfinish hcalls hprotocol htext => simp [Requests, Reply.toolCalls, hcalls, textItem]
  | native hfinish hcalls h => simpa [Requests, Reply.toolCalls, hcalls] using callId_of_native h

lemma settles_nativeItems (calls : List ProviderToolCall) (hids : ∀ call ∈ calls, call.id ≠ "") :
    Settles (nativeItems host calls) (List.Forall₂ (NativeItem host) calls) := by
  induction calls with
  | nil => exact List.Forall₂.nil
  | cons call calls ih =>
    obtain ⟨hid, hids⟩ := List.forall_mem_cons.mp hids
    rw [nativeItems]
    cases hargs : Toolchain.decodeJsonObject Toolchain.defaultJsonLimits call.arguments with
    | error message => exact Or.inl ⟨by simp [invalidPlan, String.append_eq_empty_iff], rfl⟩
    | ok args =>
      refine settles_bind (ih hids) fun items hitems => ?_
      refine List.Forall₂.cons ⟨rfl, ?_, rfl, hid⟩ hitems
      cases hsent : call.arguments with
      | foreign message => simp [hsent, Toolchain.decodeJsonObject] at hargs
      | json value =>
        rw [hsent] at hargs
        rw [(Toolchain.decodeJsonObject_json.mp hargs).2]

lemma settles_nativeToolObjects (calls : List ProviderToolCall) :
    Settles (nativeToolObjects host calls) (List.Forall₂ (NativeItem host) calls) := by
  refine settles_bind (settles_ensure fun _ => rejected_invalidPlan
    (by simp [String.append_eq_empty_iff]) _ _) fun _ _ => ?_
  refine settles_bind (settles_ensure fun _ => rejected_invalidPlan
    (by simp [String.append_eq_empty_iff]) _ _) fun _ hmissing => ?_
  refine settles_bind (settles_ensure fun _ => rejected_invalidPlan (by decide) _ _) fun _ _ => ?_
  refine settles_bind (settles_ensure fun _ => rejected_invalidPlan (by decide) _ _) fun _ _ => ?_
  refine settles_bind (settles_ensure fun _ => rejected_invalidPlan (by decide) _ _) fun _ _ => ?_
  refine settles_nativeItems calls fun call hcall hempty => ?_
  simp only [List.isEmpty_iff, List.map_eq_nil_iff, List.filter_eq_nil_iff, decide_eq_true_eq]
    at hmissing
  exact hmissing call hcall hempty

lemma settles_decodedTextObjects (decoded : DecodedTextTurn) :
    Settles (decodedTextObjects decoded) fun items =>
      ∃ requests, decoded = .requests requests ∧ items = requests.map textItem := by
  cases decoded with
  | requests requests => exact ⟨requests, rfl, rfl⟩
  | answer text => exact Or.inr ⟨rfl, rfl, _, rfl, by simp⟩
  | error message kind tool nonempty => exact Or.inl ⟨nonempty, rfl⟩

lemma settles_responseObjects (reply : Reply) :
    Settles (responseObjects host reply) (Asked host reply) := by
  cases reply with
  | text decoded =>
    refine (settles_decodedTextObjects decoded).mono ?_
    rintro items ⟨requests, rfl, rfl⟩
    exact .text requests
  | assistant turn =>
    simp only [responseObjects]
    split
    · refine Or.inl ⟨?_, rfl⟩
      simp only [invalidPlan]
      split
      · split_ifs with hdetail
        · simp
        · simpa using hdetail
      · simp
    · exact Or.inl ⟨by decide, rfl⟩
    · rename_i hfinish
      split
      · rename_i hempty
        have hnone : turn.toolCalls = [] := by simpa using hempty
        split
        · rename_i hprotocol
          refine (settles_decodedTextObjects _).mono ?_
          rintro items ⟨requests, hrequests, rfl⟩
          exact .spoken hfinish hnone hprotocol hrequests
        · split
          · exact Or.inl ⟨by decide, rfl⟩
          · exact Or.inr ⟨rfl, rfl, _, rfl, by simp⟩
      · rename_i hsome
        exact (settles_nativeToolObjects turn.toolCalls).mono fun items hitems =>
          .native hfinish (by simpa using hsome) hitems

/-! ### Plans -/

/-- A plan of calls. -/
structure Granted (host : Host) (snapshot : TurnSnapshot) (reply : Reply) (plan : ToolPlan) :
    Prop where
  count : 1 ≤ plan.calls.length ∧ plan.calls.length ≤ maxNativeCallsPerTurn
  /-- A shell command and a submission of research are alone, and a control is not a call. -/
  alone : ∀ call ∈ plan.calls, call.name ≠ "done" ∧ call.name ≠ "ask_user" ∧
    (call.name ∈ ["shell", "submit_research_review", "submit_research_answer"] →
      plan.calls.length = 1)
  /-- The calls are the requests in order after batches are expanded: of native requests all, of
  text requests the first of each kind. -/
  requested : ∃ items expanded made, Asked host reply items ∧ Expanded host items expanded ∧
    List.Forall₂ (Authorized host snapshot) expanded made ∧
    plan.calls = if reply.toolCalls = [] then firstCalls made else made
  callIds : if reply.toolCalls = [] then ∀ call ∈ plan.calls, call.callId = ""
    else plan.calls.map (·.callId) = reply.toolCalls.map (·.id)

lemma map_callId_of_forall₂ {made : List ToolCall}
    (h : List.Forall₂ (Authorized host snapshot) items made) :
    made.map (·.callId) = items.map (·.callId) := by
  induction h with
  | nil => rfl
  | cons hcall _ ih => simp [hcall.callId, ih]

lemma settles_planFromToolObjects (snapshot : TurnSnapshot) {reply : Reply}
    (hasked : Asked host reply items) :
    Settles (planFromToolObjects host (snapshotLimits host snapshot) items)
      (Granted host snapshot reply) := by
  have hitems : Requests reply items := hasked.requests
  refine settles_bind (settles_lowerTextBatches items) fun expanded hexpanded => ?_
  obtain ⟨hlowered, hlength⟩ := hexpanded
  refine settles_bind (settles_ensure fun _ => rejected_invalidPlan (by decide) _ _)
    fun _ hshell => ?_
  refine settles_bind (settles_ensure fun _ => rejected_invalidPlan (by decide) _ _)
    fun _ hsubmit => ?_
  refine settles_bind (P := fun planned => ∃ made,
    List.Forall₂ (Authorized host snapshot) expanded made ∧
      planned = if reply.toolCalls = [] then firstCalls made else made) ?_ fun planned hplanned => ?_
  · by_cases hnative : reply.toolCalls = []
    · rw [Requests, if_pos hnative] at hitems
      refine (settles_planItems_text snapshot _ (hlowered.callId_text hitems) [] []).mono ?_
      rintro planned ⟨made, hmade, hplanned⟩
      exact ⟨made, hmade, by simpa [hnative] using hplanned⟩
    · rw [Requests, if_neg hnative] at hitems
      have hids : expanded = items := hlowered.of_native hitems.1
      refine (settles_planItems_native snapshot _ (hids ▸ hitems.1) [] []).mono ?_
      rintro planned ⟨made, hmade, hplanned⟩
      exact ⟨made, hmade, by simpa [hnative] using hplanned⟩
  · refine settles_bind (settles_ensure fun _ => rejected_invalidPlan (by decide) _ _)
      fun _ hsome => ?_
    obtain ⟨made, hmade, heq⟩ := hplanned
    have hsub : planned.Sublist made := by
      rw [heq]
      split
      · exact firstCalls_sublist made
      · exact List.Sublist.refl made
    have hmost : planned.length ≤ expanded.length := hmade.length_eq ▸ hsub.length_le
    have hleast : 1 ≤ planned.length := by
      simpa [List.isEmpty_iff, Nat.one_le_iff_ne_zero] using hsome
    exact {
      count := ⟨hleast, hmost.trans hlength⟩
      alone := by
        intro call hcall
        obtain ⟨item, hitem, hauthorized⟩ := exists_of_forall₂_right hmade (hsub.subset hcall)
        refine ⟨hauthorized.plain.1, hauthorized.plain.2, fun hname => ?_⟩
        suffices hone : expanded.length = 1 from le_antisymm (hone ▸ hmost) hleast
        have hnamed : call.name ∈ expanded.map fun item => canonicalToolName host item.tool :=
          hauthorized.name ▸ List.mem_map_of_mem hitem
        by_contra hlong
        rcases List.mem_cons.mp hname with heq | hname
        · simp only [heq] at hnamed
          simp [hnamed, hlong] at hshell
        · simp only [hlong, ne_eq, not_false_eq_true, decide_true, Bool.true_and,
            Bool.not_eq_true', List.any_eq_false, decide_eq_true_eq] at hsubmit
          exact hsubmit _ hnamed (by simpa using hname)
      requested := ⟨items, expanded, made, hasked, hlowered, hmade, heq⟩
      callIds := by
        have hids := map_callId_of_forall₂ hmade
        by_cases hnative : reply.toolCalls = []
        · rw [Requests, if_pos hnative] at hitems
          rw [if_pos hnative]
          intro call hcall
          obtain ⟨item, hitem, hauthorized⟩ := exists_of_forall₂_right hmade (hsub.subset hcall)
          exact hauthorized.callId.trans (hlowered.callId_text hitems item hitem)
        · rw [Requests, if_neg hnative] at hitems
          rw [if_neg hnative, ← hitems.2, ← hlowered.of_native hitems.1, ← hids]
          exact congrArg _ (heq.trans (if_neg hnative)) }

/-- What a reply gives directly stays a protocol error or a lone control. -/
lemma checkDirect_settled {snapshot : Option TurnSnapshot} {frozen : Option (List ToolSpec)}
    {plan : ToolPlan} (h : Rejected plan ∨ LoneControl plan) :
    Rejected (checkDirect snapshot frozen plan) ∨ LoneControl (checkDirect snapshot frozen plan) := by
  simp only [checkDirect]
  split
  · exact Or.inl (rejected_invalidPlan (by decide) _ _)
  · split
    · exact Or.inl (rejected_invalidPlan (by decide) _ _)
    · exact h

lemma settles_planReply (snapshot : TurnSnapshot) (reply : Reply) :
    Settles (planReply host (snapshotLimits host snapshot) (some snapshot) reply) fun plan =>
      Rejected plan ∨ LoneControl plan ∨ Granted host snapshot reply plan := by
  have hresponse : Settles (responseObjects host reply) (Asked host reply) :=
    settles_responseObjects reply
  unfold planReply
  cases hreply : responseObjects host reply with
  | ok items =>
    rw [hreply] at hresponse
    exact (settles_planFromToolObjects snapshot hresponse).mono
      fun plan hplan => Or.inr (Or.inr hplan)
  | error stop =>
    rw [hreply] at hresponse
    cases stop with
    | plan plan => exact (checkDirect_settled hresponse).imp_right Or.inl
    | raised => trivial

lemma frozenSpecMap_eq_some {specs : List ToolSpec} (h : frozenSpecMap snapshot = some specs) :
    specs = snapshot.frozenSpecs := by
  unfold frozenSpecMap at h
  split at h
  · exact (Option.some.inj h).symm
  · cases h

theorem normalizeTurn_authorized {reply : Reply} {policy : Option TaskPolicy}
    {controllerAllowed snapshotNames : Option (List String)} {snapshot : TurnSnapshot}
    {plan : ToolPlan}
    (h : normalizeTurn host reply policy controllerAllowed snapshotNames (some snapshot) =
      some plan) :
    Rejected plan ∨ LoneControl plan ∨ Granted host snapshot reply plan := by
  by_cases hpolicy : (policy.isSome && decide (policy ≠ snapshot.policy)) = true
  · simp only [normalizeTurn, hpolicy, if_true] at h
    obtain rfl := Option.some.inj h
    exact Or.inl (rejected_invalidPlan (by decide) _ _)
  · cases hspecs : frozenSpecMap snapshot with
    | none =>
      simp only [normalizeTurn, hpolicy, Bool.false_eq_true, if_false, hspecs] at h
      obtain rfl := Option.some.inj h
      exact Or.inl (rejected_invalidPlan (by decide) _ _)
    | some specs =>
      simp only [normalizeTurn, hpolicy, Bool.false_eq_true, if_false, hspecs,
        frozenSpecMap_eq_some hspecs] at h
      have hsettled : Settles
          (planReply host (snapshotLimits host snapshot) (some snapshot) reply) fun plan =>
          Rejected plan ∨ LoneControl plan ∨ Granted host snapshot reply plan :=
        settles_planReply snapshot reply
      rw [snapshotLimits] at hsettled
      split at h
      · rename_i found houtcome
        obtain rfl := Option.some.inj h
        rwa [houtcome] at hsettled
      · rename_i found houtcome
        obtain rfl := Option.some.inj h
        rw [houtcome] at hsettled
        exact hsettled.imp_right Or.inl
      · cases h

/-! ### A nested tool -/

def plainRegistry : List ToolSpec :=
  [{ name := "list_dir", executor := "project", grant := "project.read" },
    { name := "read_file", executor := "project", grant := "project.read", required := ["path"] },
    { name := "grep", executor := "project", grant := "project.read" },
    { name := "find_references", executor := "project", grant := "project.read" },
    { name := "edit", executor := "project", grant := "project.write" },
    { name := "run", executor := "project", grant := "project.verify" },
    { name := "shell", executor := "project", grant := "shell.approval" },
    { name := "done", grant := "control" },
    { name := "codemode", executor := "codemode", grant := "project.read" },
    { name := "parallel", executor := "project", grant := "project.read", required := ["calls"]
      parameters := [("calls", .obj [("items", .obj [("type", .str "object")]),
        ("type", .str "array")])] }]

lemma plainRegistry_named : ∀ spec ∈ plainRegistry, spec.name ≠ "" ∧
    id (String.ofList (strip spec.name.toList)) = spec.name := by
  decide +kernel

lemma plainRegistry_builtin : ∀ entry ∈ nativeToCanonical,
    ∃ spec ∈ plainRegistry, spec.name = entry.2 := by
  decide +kernel

/-- A host with the project tools and CodeMode. -/
def plainHost : Host where
  lower := id
  str value := (Json.str? value).getD ""
  registry := plainRegistry
  repr value := (Json.str? value).getD ""
  dumps value := (Json.str? value).getD ""
  float _ := none
  search _ _ := .ok false
  deniedSource _ := none
  decodeTextTurn := .answer
  named := plainRegistry_named
  builtin := plainRegistry_builtin

/-- A turn that advertises CodeMode alone. -/
def nestedSnapshot : TurnSnapshot where
  allowed := some ["codemode"]
  toolNames := ["codemode"]
  nestedToolNames := ["read_file"]
  policy := some { grants := ["project.read"] }
  frozenSpecs := plainHost.registry.filter fun spec => spec.name ∈ ["codemode", "read_file"]

def nestedReply : Reply := .text (.requests [⟨"read_file", [("path", .str "notes.md")]⟩])

def nestedPlan : ToolPlan where
  calls := [⟨"read_file", [("path", .str "notes.md")], ""⟩]
  control := some ⟨"continue", "Need tool result"⟩

/-- A direct call of a nested tool survives, though it is neither advertised nor listed by the
controller. -/
theorem nested_call_survives :
    normalizeTurn plainHost nestedReply none none none (some nestedSnapshot) = some nestedPlan ∧
      (∃ call ∈ nestedPlan.calls, call.name ∉ nestedSnapshot.toolNames ∧
        ∀ allowed, nestedSnapshot.allowed = some allowed → call.name ∉ allowed) := by
  refine ⟨by decide +kernel, _, List.mem_cons_self, by decide, ?_⟩
  rintro allowed ⟨⟩
  decide

/-- A turn that advertises two tools for reading and the wrapper. -/
def batchSnapshot : TurnSnapshot where
  allowed := none
  toolNames := ["list_dir", "read_file", "parallel"]
  policy := some { grants := ["project.read"] }
  frozenSpecs := plainHost.registry.filter fun spec =>
    spec.name ∈ ["list_dir", "read_file", "parallel"]

/-- A wrapper with two members, and a request that repeats the first. -/
def batchReply : Reply := .text (.requests [
  ⟨"parallel", [("calls", .arr [
    .obj [("args", .obj [("path", .str "./notes.md")]), ("tool", .str "read_file")],
    .obj [("path", .str "src"), ("tool", .str "ls")]])]⟩,
  ⟨"read", [("path", .str "notes.md")]⟩])

def batchPlan : ToolPlan where
  calls := [⟨"read_file", [("path", .str "notes.md")], ""⟩, ⟨"list_dir", [("path", .str "src")], ""⟩]
  control := some ⟨"continue", "Need tool results"⟩

theorem normalizeTurn_authorized_batch : Granted plainHost batchSnapshot batchReply batchPlan := by
  have hplan : normalizeTurn plainHost batchReply none none none (some batchSnapshot) =
      some batchPlan := by decide +kernel
  rcases normalizeTurn_authorized hplan with hrejected | hcontrol | hgranted
  · exact absurd rfl hrejected.1
  · cases hcontrol.2.1
  · exact hgranted

end Operations

end Codey
